import Mathlib.Algebra.Order.Floor.Semiring
import SplitSdk.Interleaving
import SplitSdk.Numbers

namespace SplitSdk.PoolAccounting

open Interleaving Numbers

section Pool

/-- A connection is known by its number: every new one has its own. -/
structure ManagedConnection where
  id : Nat
  createdAt : Int
  lastUsedAt : Int
  isHealthy : Bool := true
  deriving DecidableEq

/-- With an infinite `minConnections` there would be no end to the first loop. -/
structure ConnectionPoolConfig where
  minConnections : ℚ := 1
  maxConnections : JsNumber := .finite 10
  idleTimeoutMs : JsNumber := .finite 30000
  one_le_min : 1 ≤ minConnections
  min_le_max : (JsNumber.finite minConnections).le maxConnections

/-- The connections are kept in the order in which they were created, and `activeSet` in the order of its insertions. -/
structure RpcConnectionPool where
  connections : List ManagedConnection := []
  idleQueue : List Nat := []
  activeSet : List Nat := []
  created : Nat := 0
  deriving DecidableEq

def ids (p : RpcConnectionPool) : List Nat := p.connections.map ManagedConnection.id

variable (config : ConnectionPoolConfig) (p : RpcConnectionPool) (now : Int)

def get (id : Nat) : Option ManagedConnection := p.connections.find? (fun conn => conn.id = id)

def delete (connections : List ManagedConnection) (id : Nat) : List ManagedConnection :=
  connections.filter (fun conn => conn.id ≠ id)

/-- `conn.lastUsedAt = Date.now()`. -/
def touch (connections : List ManagedConnection) (id : Nat) : List ManagedConnection :=
  connections.map (fun conn => if conn.id = id then { conn with lastUsedAt := now } else conn)

def createConnection : RpcConnectionPool :=
  { p with
    connections := p.connections ++ [{ id := p.created, createdAt := now, lastUsedAt := now }],
    idleQueue := p.idleQueue ++ [p.created],
    created := p.created + 1 }

/-- A loop that creates a connection in every turn. -/
def createConnections : Nat → RpcConnectionPool → RpcConnectionPool
  | 0, p => p
  | turns + 1, p => createConnections turns (createConnection p now)

def constructor : RpcConnectionPool := createConnections now ⌈config.minConnections⌉₊ {}

/-- The `filter` of `cleanupIdle`: which connections and which idle identifiers remain. -/
def expire : List ManagedConnection → List Nat → List ManagedConnection × List Nat
  | connections, [] => (connections, [])
  | connections, id :: idle =>
      match connections.find? (fun conn => conn.id = id) with
      | none => expire connections idle
      | some conn =>
          if config.idleTimeoutMs.lt (.finite (now - conn.lastUsedAt : Int)) ∧
              config.minConnections < connections.length then
            expire (delete connections id) idle
          else
            let (connections, idle) := expire connections idle
            (connections, id :: idle)

def cleanupIdle : RpcConnectionPool :=
  if p.connections.length ≤ config.minConnections then p
  else
    let (connections, idleQueue) := expire config now p.connections p.idleQueue
    { p with connections, idleQueue }

/-- The end of `acquire`, which throws when there is no connection. -/
def handOut (connId : Option Nat) : RpcConnectionPool × Option Nat :=
  match connId.bind (get p) with
  | none => (p, none)
  | some conn =>
      ({ p with connections := touch now p.connections conn.id,
                activeSet := if conn.id ∈ p.activeSet then p.activeSet else p.activeSet ++ [conn.id] }, some conn.id)

def acquire : RpcConnectionPool × Option Nat :=
  let p := cleanupIdle config p now
  match p.idleQueue.getLast? with
  | some connId => handOut { p with idleQueue := p.idleQueue.dropLast } now (some connId)
  | none =>
      if (JsNumber.finite p.connections.length).lt config.maxConnections then
        let p := createConnection p now
        handOut { p with idleQueue := p.idleQueue.dropLast } now p.idleQueue.getLast?
      else handOut p now (p.connections.head?.map ManagedConnection.id)

def release (id : Nat) : RpcConnectionPool :=
  if id ∈ p.activeSet then
    let healthy := (get p id).any ManagedConnection.isHealthy
    let p := { p with activeSet := p.activeSet.erase id, connections := touch now p.connections id }
    if healthy then { p with idleQueue := p.idleQueue ++ [id] }
    else { p with connections := delete p.connections id }
  else p

def dropUnhealthy (conn : ManagedConnection) : RpcConnectionPool :=
  if conn.isHealthy then p
  else { p with connections := delete p.connections conn.id, idleQueue := p.idleQueue.erase conn.id,
                activeSet := p.activeSet.erase conn.id }

def checkHealth : RpcConnectionPool :=
  let p := p.connections.foldl dropUnhealthy p
  createConnections now (⌈config.minConnections⌉₊ - p.connections.length) p

/-- An action on a connection has failed. -/
def failed (id : Nat) : RpcConnectionPool :=
  { p with connections := p.connections.map (fun conn => if conn.id = id then { conn with isHealthy := false } else conn) }

end Pool

section Statement

variable (config : ConnectionPoolConfig)

/-- A release names the acquisition whose connection it gives back. -/
inductive Event
  | acquire (now : Int)
  | release (k : Nat) (now : Int)
  | checkHealth (now : Int)
  | failed (id : Nat)

structure Acquisition where
  id : Nat
  released : Bool := false
  deriving DecidableEq

structure History where
  pool : RpcConnectionPool
  acquisitions : List Acquisition := []
  deriving DecidableEq

def start (now : Int) : History := { pool := constructor config now }

def step (h : History) : Event → Option History
  | .acquire now =>
      let (pool, handed) := acquire config h.pool now
      some { pool, acquisitions := h.acquisitions ++ handed.toList.map (fun id => { id }) }
  | .release k now =>
      h.acquisitions[k]?.map (fun acquisition =>
        { pool := release h.pool now acquisition.id,
          acquisitions := h.acquisitions.set k { acquisition with released := true } })
  | .checkHealth now => some { h with pool := checkHealth config h.pool now }
  | .failed id => some { h with pool := failed h.pool id }

structure Accounted (h : History) : Prop where
  bounded : (JsNumber.finite h.pool.connections.length).le config.maxConnections
  partition : (h.pool.idleQueue ++ h.pool.activeSet).Perm (ids h.pool)
  distinct : (ids h.pool).Nodup
  held : ∀ acquisition ∈ h.acquisitions, acquisition.released = false → acquisition.id ∉ h.pool.idleQueue

structure Lawful (h : History) (e : Event) : Prop where
  accounted : ∀ h', step config h e = some h' → Accounted config h'
  handedOut : ∀ now, e = .acquire now →
    ∃ id, (acquire config h.pool now).2 = some id ∧ id ∈ ids (acquire config h.pool now).1

/-- A connection that is created fits in, and one that is given back healthy has no other holder left. -/
def Spares (h : History) : Event → Prop
  | .acquire now =>
      let p := cleanupIdle config h.pool now
      p.idleQueue = [] → (JsNumber.finite p.connections.length).lt config.maxConnections →
        (JsNumber.finite (p.connections.length + 1 : Nat)).le config.maxConnections
  | .release k _ => ∀ acquisition, h.acquisitions[k]? = some acquisition → acquisition.id ∈ h.pool.activeSet →
      (get h.pool acquisition.id).any ManagedConnection.isHealthy → ∀ j other, h.acquisitions[j]? = some other →
        other.id = acquisition.id → other.released = false → j = k
  | .checkHealth _ | .failed _ => True

end Statement

section Pools

variable {config : ConnectionPoolConfig} {p : RpcConnectionPool} {now : Int} {id : Nat}

/-- The connections are idle or active, and one of the two. -/
structure Sound (p : RpcConnectionPool) : Prop where
  partition : (p.idleQueue ++ p.activeSet).Perm (ids p)
  distinct : (ids p).Nodup
  fresh : ∀ id ∈ ids p, id < p.created

theorem map_delete (connections : List ManagedConnection) (id : Nat) :
    (delete connections id).map ManagedConnection.id =
      (connections.map ManagedConnection.id).filter (fun other => other ≠ id) := by
  unfold delete
  rw [List.filter_map]
  rfl

theorem map_touch (now : Int) (connections : List ManagedConnection) (id : Nat) :
    (touch now connections id).map ManagedConnection.id = connections.map ManagedConnection.id := by
  unfold touch
  rw [List.map_map]
  refine List.map_congr_left (fun conn _ => ?_)
  rw [Function.comp_apply]
  split_ifs <;> rfl

theorem Sound.nodup (hsound : Sound p) : (p.idleQueue ++ p.activeSet).Nodup := hsound.partition.nodup_iff.mpr hsound.distinct

/-- The same connections, idle and active in some other way. -/
theorem Sound.regrouped (hsound : Sound p) {q : RpcConnectionPool} (hids : ids q = ids p)
    (hperm : (q.idleQueue ++ q.activeSet).Perm (p.idleQueue ++ p.activeSet)) (hcreated : q.created = p.created) : Sound q where
  partition := hids ▸ hperm.trans hsound.partition
  distinct := hids ▸ hsound.distinct
  fresh id hid := hcreated ▸ hsound.fresh id (hids ▸ hid)

theorem Sound.mem_active_iff (hsound : Sound p) (hid : id ∈ ids p) : id ∈ p.activeSet ↔ id ∉ p.idleQueue := by
  constructor
  · intro hactive hidle
    exact (List.nodup_append.mp hsound.nodup).2.2 id hidle id hactive rfl
  · intro hidle
    exact (List.mem_append.mp (hsound.partition.mem_iff.mpr hid)).resolve_left hidle

theorem get_of_mem (hid : id ∈ ids p) : ∃ conn, get p id = some conn ∧ conn.id = id := by
  obtain ⟨conn, hmem, rfl⟩ := List.mem_map.mp hid
  have hsome : (p.connections.find? (fun other => other.id = conn.id)).isSome := by
    rw [List.find?_isSome]
    exact ⟨conn, hmem, decide_eq_true rfl⟩
  obtain ⟨found, hfound⟩ := Option.isSome_iff_exists.mp hsome
  have hid : decide (found.id = conn.id) = true := List.find?_some (p := fun other : ManagedConnection => decide (other.id = conn.id)) hfound
  exact ⟨found, hfound, of_decide_eq_true hid⟩

theorem createConnection_ids (p : RpcConnectionPool) (now : Int) : ids (createConnection p now) = ids p ++ [p.created] := by
  unfold ids createConnection
  rw [List.map_append]
  rfl

/-- A new connection is idle. -/
theorem Sound.createConnection (hsound : Sound p) (now : Int) : Sound (createConnection p now) := by
  obtain ⟨hpartition, hdistinct, hfresh⟩ := hsound
  have hnew : p.created ∉ ids p := fun hmem => Nat.lt_irrefl _ (hfresh _ hmem)
  refine ⟨?_, ?_, ?_⟩
  · rw [createConnection_ids]
    change ((p.idleQueue ++ [p.created]) ++ p.activeSet).Perm _
    rw [List.append_assoc]
    refine (List.perm_append_comm.append_left p.idleQueue).trans ?_
    rw [← List.append_assoc]
    exact hpartition.append_right _
  · rw [createConnection_ids]
    refine List.nodup_append.mpr ⟨hdistinct, List.pairwise_singleton _ _, fun a ha b hb heq => ?_⟩
    rw [heq, List.mem_singleton.mp hb] at ha
    exact hnew ha
  · intro id hid
    rw [createConnection_ids] at hid
    rcases List.mem_append.mp hid with hold | hlast
    · exact Nat.lt_succ_of_lt (hfresh id hold)
    · rw [List.mem_singleton.mp hlast]
      exact Nat.lt_succ_self _

theorem Sound.createConnections (hsound : Sound p) (now : Int) (turns : Nat) : Sound (createConnections now turns p) := by
  induction turns generalizing p with
  | zero => exact hsound
  | succ turns ih => exact ih (hsound.createConnection now)

theorem length_createConnections (now : Int) (turns : Nat) (p : RpcConnectionPool) :
    (createConnections now turns p).connections.length = p.connections.length + turns := by
  induction turns generalizing p with
  | zero => rfl
  | succ turns ih =>
      refine (ih (createConnection p now)).trans ?_
      unfold createConnection
      rw [List.length_append, List.length_singleton]
      omega

/-- What is idle after the loop was idle before it or is new. -/
theorem mem_idle_createConnections {turns : Nat} (hid : id ∈ (createConnections now turns p).idleQueue) :
    id ∈ p.idleQueue ∨ p.created ≤ id := by
  induction turns generalizing p with
  | zero => exact .inl hid
  | succ turns ih =>
      rcases ih hid with hidle | hnew
      · rcases List.mem_append.mp hidle with hold | hlast
        · exact .inl hold
        · exact .inr (Nat.le_of_eq (List.mem_singleton.mp hlast).symm)
      · exact .inr (Nat.le_of_succ_le hnew)

theorem created_createConnections (now : Int) (turns : Nat) (p : RpcConnectionPool) :
    p.created ≤ (createConnections now turns p).created := by
  induction turns generalizing p with
  | zero => exact Nat.le_refl _
  | succ turns ih => exact Nat.le_trans (Nat.le_succ _) (ih (createConnection p now))

/-- A connection is dropped from all that know it. -/
theorem Sound.drop (hsound : Sound p) (id : Nat) :
    Sound { p with connections := delete p.connections id, idleQueue := p.idleQueue.erase id,
                   activeSet := p.activeSet.erase id } := by
  obtain ⟨hidle, hactive, -⟩ := List.nodup_append.mp hsound.nodup
  refine ⟨?_, ?_, fun other hother => ?_⟩
  · change (p.idleQueue.erase id ++ p.activeSet.erase id).Perm ((delete p.connections id).map ManagedConnection.id)
    rw [map_delete, hidle.erase_eq_filter, hactive.erase_eq_filter, ← List.filter_append]
    have hsame : (fun other => other != id) = (fun other => decide (other ≠ id)) := by
      funext other
      rw [Bool.eq_iff_iff, bne_iff_ne, decide_eq_true_iff]
    rw [hsame]
    exact hsound.partition.filter _
  · change ((delete p.connections id).map ManagedConnection.id).Nodup
    rw [map_delete]
    exact hsound.distinct.filter _
  · change other ∈ (delete p.connections id).map ManagedConnection.id at hother
    rw [map_delete] at hother
    exact hsound.fresh other (List.mem_filter.mp hother).1

/-- What `expire` drops from the idle identifiers it drops from the connections. -/
theorem expire_spec (config : ConnectionPoolConfig) (now : Int) {connections : List ManagedConnection} {idle rest : List Nat}
    (hpartition : (idle ++ rest).Perm (connections.map ManagedConnection.id))
    (hdistinct : (connections.map ManagedConnection.id).Nodup) :
    ((expire config now connections idle).2 ++ rest).Perm
        ((expire config now connections idle).1.map ManagedConnection.id) ∧
      (expire config now connections idle).1.Sublist connections ∧ (expire config now connections idle).2.Sublist idle := by
  induction idle generalizing connections rest with
  | nil => exact ⟨hpartition, List.Sublist.refl _, List.Sublist.refl _⟩
  | cons id idle ih =>
      unfold expire
      cases hfind : connections.find? (fun conn => conn.id = id) with
      | none =>
          obtain ⟨conn, hmem, rfl⟩ := List.mem_map.mp (hpartition.mem_iff.mp List.mem_cons_self)
          exact absurd (decide_eq_true rfl) (List.find?_eq_none.mp hfind conn hmem)
      | some conn =>
          dsimp only
          split_ifs with hexpired
          · have hdropped : (idle ++ rest).Perm ((delete connections id).map ManagedConnection.id) := by
              have hnotin : id ∉ idle ++ rest := (List.nodup_cons.mp (hpartition.nodup_iff.mpr hdistinct)).1
              have hfilter := hpartition.filter (fun other => other ≠ id)
              rw [List.cons_append, List.filter_cons_of_neg (by simp), List.filter_eq_self.mpr] at hfilter
              · rwa [map_delete]
              · intro other hother
                exact decide_eq_true (fun heq => hnotin (heq ▸ hother))
            have hdistinct' : ((delete connections id).map ManagedConnection.id).Nodup := by
              rw [map_delete]
              exact hdistinct.filter _
            obtain ⟨hperm, hconnections, hidle⟩ := ih hdropped hdistinct'
            exact ⟨hperm, hconnections.trans List.filter_sublist, hidle.trans (List.sublist_cons_self id idle)⟩
          · have hkept : (idle ++ id :: rest).Perm (connections.map ManagedConnection.id) :=
              List.perm_middle.trans hpartition
            obtain ⟨hperm, hconnections, hidle⟩ := ih hkept hdistinct
            exact ⟨List.perm_middle.symm.trans hperm, hconnections, hidle.cons_cons id⟩

theorem cleanupIdle_created (config : ConnectionPoolConfig) (p : RpcConnectionPool) (now : Int) :
    (cleanupIdle config p now).created = p.created := by
  unfold cleanupIdle
  split_ifs <;> rfl

theorem Sound.cleanupIdle (hsound : Sound p) (config : ConnectionPoolConfig) (now : Int) :
    Sound (cleanupIdle config p now) ∧ (cleanupIdle config p now).connections.Sublist p.connections ∧
      (cleanupIdle config p now).idleQueue.Sublist p.idleQueue := by
  unfold PoolAccounting.cleanupIdle
  split_ifs
  · exact ⟨hsound, List.Sublist.refl _, List.Sublist.refl _⟩
  · obtain ⟨hperm, hconnections, hidle⟩ := expire_spec config now hsound.partition hsound.distinct
    have hids := hconnections.map ManagedConnection.id
    exact ⟨⟨hperm, hsound.distinct.sublist hids, fun id hid => hsound.fresh id (hids.subset hid)⟩, hconnections, hidle⟩

/-- A connection of the pool `p` is handed out, and the pool is `q` then. -/
structure HandedOut (p q : RpcConnectionPool) (id : Nat) : Prop where
  sound : Sound q
  mem : id ∈ ids p
  ids : ids q = ids p
  idle : q.idleQueue.Sublist p.idleQueue
  notIdle : id ∉ q.idleQueue
  created : q.created = p.created

/-- The last of the idle connections becomes active. -/
theorem handOut_last (hsound : Sound p) (hlast : p.idleQueue.getLast? = some id) (now : Int) :
    ∃ q, handOut { p with idleQueue := p.idleQueue.dropLast } now (some id) = (q, some id) ∧ HandedOut p q id := by
  obtain ⟨idle, hidle⟩ := List.getLast?_eq_some_iff.mp hlast
  have hmem : id ∈ ids p := hsound.partition.mem_iff.mp (List.mem_append_left _ (by rw [hidle]; simp))
  have hinactive : id ∉ p.activeSet := by
    rw [hsound.mem_active_iff hmem, hidle, not_not]
    exact List.mem_append_right _ (List.mem_singleton_self id)
  have hdrop : p.idleQueue.dropLast = idle := by rw [hidle, List.dropLast_concat]
  have hnotin : id ∉ idle := by
    have hnodup := (List.nodup_append.mp hsound.nodup).1
    rw [hidle] at hnodup
    exact fun hin => (List.nodup_append.mp hnodup).2.2 id hin id (List.mem_singleton_self id) rfl
  obtain ⟨conn, hget, rfl⟩ := get_of_mem hmem
  refine ⟨{ p with connections := touch now p.connections conn.id, idleQueue := idle, activeSet := p.activeSet ++ [conn.id] },
    ?_, ?_, hmem, map_touch now p.connections conn.id, ?_, hnotin, rfl⟩
  · rw [hdrop]
    unfold handOut
    change (match get p conn.id with | none => _ | some conn => _) = _
    rw [hget]
    dsimp only
    rw [if_neg hinactive]
  · refine hsound.regrouped (map_touch now p.connections conn.id) ?_ rfl
    rw [hidle, List.append_assoc]
    exact List.perm_append_comm.append_left idle
  · rw [hidle]
    exact List.sublist_append_left idle [conn.id]

/-- An active connection is handed out once more. -/
theorem handOut_active (hsound : Sound p) (hid : id ∈ ids p) (hactive : id ∈ p.activeSet) (now : Int) :
    ∃ q, handOut p now (some id) = (q, some id) ∧ HandedOut p q id := by
  obtain ⟨conn, hget, rfl⟩ := get_of_mem hid
  refine ⟨{ p with connections := touch now p.connections conn.id }, ?_,
    hsound.regrouped (map_touch now p.connections conn.id) (List.Perm.refl _) rfl, hid, map_touch now p.connections conn.id,
    List.Sublist.refl _, (hsound.mem_active_iff hid).mp hactive, rfl⟩
  unfold handOut
  change (match get p conn.id with | none => _ | some conn => _) = _
  rw [hget]
  dsimp only
  rw [if_pos hactive]

/-- The pool in which `acquire` finds the connection that it hands out. -/
inductive Found (config : ConnectionPoolConfig) (p : RpcConnectionPool) (now : Int) : RpcConnectionPool → Prop
  | cleaned (hkept : (cleanupIdle config p now).idleQueue ≠ [] ∨
      ¬(JsNumber.finite (cleanupIdle config p now).connections.length).lt config.maxConnections) :
      Found config p now (cleanupIdle config p now)
  | created (hnone : (cleanupIdle config p now).idleQueue = [])
      (hroom : (JsNumber.finite (cleanupIdle config p now).connections.length).lt config.maxConnections) :
      Found config p now (createConnection (cleanupIdle config p now) now)

theorem zero_lt_maxConnections (config : ConnectionPoolConfig) : (JsNumber.finite (0 : Nat)).lt config.maxConnections := by
  have hone : (JsNumber.finite 1).le config.maxConnections :=
    JsNumber.le_trans (JsNumber.finite_le_finite_iff.mpr config.one_le_min) config.min_le_max
  cases hmax : config.maxConnections with
  | nan =>
      rw [hmax] at hone
      cases hone
  | infinity negative =>
      cases negative with
      | true =>
          rw [hmax] at hone
          cases hone
      | false => rfl
  | finite q =>
      rw [hmax, JsNumber.finite_le_finite_iff] at hone
      refine decide_eq_true ?_
      exact_mod_cast lt_of_lt_of_le zero_lt_one hone

theorem acquire_spec (hsound : Sound p) (config : ConnectionPoolConfig) (now : Int) :
    ∃ found q id, Found config p now found ∧ acquire config p now = (q, some id) ∧ HandedOut found q id := by
  obtain ⟨hcleaned, -, -⟩ := hsound.cleanupIdle config now
  unfold acquire
  dsimp only
  cases hlast : (cleanupIdle config p now).idleQueue.getLast? with
  | some id =>
      obtain ⟨q, hresult, hhanded⟩ := handOut_last hcleaned hlast now
      refine ⟨_, q, id, .cleaned (.inl ?_), hresult, hhanded⟩
      rintro hnone
      rw [hnone] at hlast
      cases hlast
  | none =>
      have hnone := List.getLast?_eq_none_iff.mp hlast
      dsimp only
      by_cases hroom : (JsNumber.finite (cleanupIdle config p now).connections.length).lt config.maxConnections = true
      · rw [if_pos hroom]
        have hlast' : (createConnection (cleanupIdle config p now) now).idleQueue.getLast? =
            some (cleanupIdle config p now).created := List.getLast?_concat
        obtain ⟨q, hresult, hhanded⟩ := handOut_last (hcleaned.createConnection now) hlast' now
        rw [hlast']
        exact ⟨_, q, _, .created hnone hroom, hresult, hhanded⟩
      · rw [if_neg hroom]
        cases hconnections : (cleanupIdle config p now).connections with
        | nil =>
            rw [hconnections] at hroom
            exact absurd (zero_lt_maxConnections config) hroom
        | cons conn rest =>
            have hid : conn.id ∈ ids (cleanupIdle config p now) := by
              unfold ids
              rw [hconnections]
              exact List.mem_cons_self
            have hactive : conn.id ∈ (cleanupIdle config p now).activeSet := by
              rw [hcleaned.mem_active_iff hid, hnone]
              exact List.not_mem_nil
            obtain ⟨q, hresult, hhanded⟩ := handOut_active hcleaned hid hactive now
            exact ⟨_, q, conn.id, .cleaned (.inr hroom), hresult, hhanded⟩

/-- A healthy connection that is given back is idle. -/
theorem release_healthy (hsound : Sound p) (hactive : id ∈ p.activeSet)
    (hhealthy : (get p id).any ManagedConnection.isHealthy = true) (now : Int) :
    Sound (release p now id) ∧ ids (release p now id) = ids p ∧ (release p now id).idleQueue = p.idleQueue ++ [id] ∧
      (release p now id).created = p.created := by
  have hrelease : release p now id = { p with activeSet := p.activeSet.erase id, connections := touch now p.connections id,
                                              idleQueue := p.idleQueue ++ [id] } := by
    unfold release
    rw [if_pos hactive]
    exact if_pos hhealthy
  rw [hrelease]
  refine ⟨hsound.regrouped (map_touch now p.connections id) ?_ rfl, map_touch now p.connections id, rfl, rfl⟩
  change ((p.idleQueue ++ [id]) ++ p.activeSet.erase id).Perm (p.idleQueue ++ p.activeSet)
  rw [List.append_assoc]
  exact (List.perm_cons_erase hactive).symm.append_left p.idleQueue

theorem delete_touch (now : Int) (connections : List ManagedConnection) (id : Nat) :
    (delete (touch now connections id) id).map ManagedConnection.id = (delete connections id).map ManagedConnection.id := by
  rw [map_delete, map_delete, map_touch]

/-- A connection that has failed leaves the pool when it is given back. -/
theorem release_unhealthy (hsound : Sound p) (hactive : id ∈ p.activeSet)
    (hhealthy : ¬(get p id).any ManagedConnection.isHealthy = true) (now : Int) :
    Sound (release p now id) ∧ (ids (release p now id)).Sublist (ids p) ∧ (release p now id).idleQueue = p.idleQueue ∧
      (release p now id).created = p.created := by
  have hrelease : release p now id = { p with activeSet := p.activeSet.erase id,
                                              connections := delete (touch now p.connections id) id } := by
    unfold release
    rw [if_pos hactive]
    exact if_neg hhealthy
  have hidle : id ∉ p.idleQueue := fun hin => (List.nodup_append.mp hsound.nodup).2.2 id hin id hactive rfl
  rw [hrelease]
  refine ⟨(hsound.drop id).regrouped (delete_touch now p.connections id) ?_ rfl, ?_, rfl, rfl⟩
  · change (p.idleQueue ++ p.activeSet.erase id).Perm (p.idleQueue.erase id ++ p.activeSet.erase id)
    rw [List.erase_of_not_mem hidle]
  · change ((delete (touch now p.connections id) id).map ManagedConnection.id).Sublist (ids p)
    rw [delete_touch, map_delete]
    exact List.filter_sublist

theorem Sound.dropUnhealthy (hsound : Sound p) (conn : ManagedConnection) :
    Sound (dropUnhealthy p conn) ∧ (dropUnhealthy p conn).connections.Sublist p.connections ∧
      (dropUnhealthy p conn).idleQueue.Sublist p.idleQueue ∧ (dropUnhealthy p conn).created = p.created := by
  unfold PoolAccounting.dropUnhealthy
  split_ifs
  · exact ⟨hsound, List.Sublist.refl _, List.Sublist.refl _, rfl⟩
  · exact ⟨hsound.drop conn.id, List.filter_sublist, List.erase_sublist, rfl⟩

theorem Sound.foldl_dropUnhealthy (hsound : Sound p) (connections : List ManagedConnection) :
    Sound (connections.foldl PoolAccounting.dropUnhealthy p) ∧
      (connections.foldl PoolAccounting.dropUnhealthy p).connections.Sublist p.connections ∧
      (connections.foldl PoolAccounting.dropUnhealthy p).idleQueue.Sublist p.idleQueue ∧
      (connections.foldl PoolAccounting.dropUnhealthy p).created = p.created := by
  induction connections generalizing p with
  | nil => exact ⟨hsound, List.Sublist.refl _, List.Sublist.refl _, rfl⟩
  | cons conn connections ih =>
      obtain ⟨hsound', hconnections, hidle, hcreated⟩ := hsound.dropUnhealthy conn
      obtain ⟨hlast, hconnections', hidle', hcreated'⟩ := ih hsound'
      exact ⟨hlast, hconnections'.trans hconnections, hidle'.trans hidle, hcreated'.trans hcreated⟩

theorem failed_ids (p : RpcConnectionPool) (id : Nat) : ids (failed p id) = ids p := by
  unfold ids failed
  rw [List.map_map]
  refine List.map_congr_left (fun conn _ => ?_)
  rw [Function.comp_apply]
  split_ifs <;> rfl

end Pools

section Histories

variable {config : ConnectionPoolConfig} {h : History}

structure Inv (config : ConnectionPoolConfig) (h : History) : Prop where
  sound : Sound h.pool
  bounded : (JsNumber.finite h.pool.connections.length).le config.maxConnections
  held : ∀ acquisition ∈ h.acquisitions, acquisition.released = false → acquisition.id ∉ h.pool.idleQueue
  known : ∀ acquisition ∈ h.acquisitions, acquisition.id < h.pool.created

theorem Inv.accounted (hinv : Inv config h) : Accounted config h where
  bounded := hinv.bounded
  partition := hinv.sound.partition
  distinct := hinv.sound.distinct
  held := hinv.held

theorem length_constructor (config : ConnectionPoolConfig) (now : Int) :
    (constructor config now).connections.length = ⌈config.minConnections⌉₊ :=
  (length_createConnections now ⌈config.minConnections⌉₊ {}).trans (Nat.zero_add _)

theorem start_inv (hmin : (JsNumber.finite (⌈config.minConnections⌉₊ : Nat)).le config.maxConnections) (now : Int) :
    Inv config (start config now) where
  sound := by
    have hempty : Sound {} := ⟨List.Perm.refl _, List.Pairwise.nil, fun _ hid => absurd hid List.not_mem_nil⟩
    exact hempty.createConnections now _
  bounded := by
    change (JsNumber.finite (constructor config now).connections.length).le config.maxConnections
    rwa [length_constructor]
  held _ hmem := absurd hmem List.not_mem_nil
  known _ hmem := absurd hmem List.not_mem_nil

theorem length_eq_of_ids {p q : RpcConnectionPool} (hids : ids q = ids p) : q.connections.length = p.connections.length := by
  have hlength := congrArg List.length hids
  unfold ids at hlength
  rwa [List.length_map, List.length_map] at hlength

theorem step_acquire {now : Int} {q : RpcConnectionPool} {id : Nat} (hacquire : acquire config h.pool now = (q, some id)) :
    step config h (.acquire now) = some { pool := q, acquisitions := h.acquisitions ++ [{ id }] } := by
  unfold step
  dsimp only
  rw [hacquire]
  rfl

/-- What `acquire` finds idle was idle before or is new. -/
theorem Found.spec {p found : RpcConnectionPool} {now : Int} (hsound : Sound p) (hfound : Found config p now found) :
    Sound found ∧ p.created ≤ found.created ∧ ∀ id ∈ found.idleQueue, id ∈ p.idleQueue ∨ p.created ≤ id := by
  obtain ⟨hcleaned, -, hidle⟩ := hsound.cleanupIdle config now
  have hcreated := cleanupIdle_created config p now
  cases hfound with
  | cleaned hkept => exact ⟨hcleaned, Nat.le_of_eq hcreated.symm, fun id hid => .inl (hidle.subset hid)⟩
  | created hnone hroom =>
      refine ⟨hcleaned.createConnection now, Nat.le_succ_of_le (Nat.le_of_eq hcreated.symm), fun id hid => ?_⟩
      rcases List.mem_append.mp hid with hold | hlast
      · exact .inl (hidle.subset hold)
      · exact .inr (Nat.le_of_eq (hcreated.symm.trans (List.mem_singleton.mp hlast).symm))

theorem inv_acquire (hinv : Inv config h) {now : Int} (hspares : Spares config h (.acquire now)) {found q : RpcConnectionPool}
    {id : Nat} (hfound : Found config h.pool now found) (hhanded : HandedOut found q id) :
    Inv config { pool := q, acquisitions := h.acquisitions ++ [{ id }] } := by
  obtain ⟨hsound, hcreated, hidle⟩ := hfound.spec hinv.sound
  refine ⟨hhanded.sound, ?_, fun acquisition hmem hheld => ?_, fun acquisition hmem => ?_⟩
  · change (JsNumber.finite q.connections.length).le config.maxConnections
    rw [length_eq_of_ids hhanded.ids]
    cases hfound with
    | cleaned hkept =>
        exact JsNumber.natCast_le_anti (hinv.sound.cleanupIdle config now).2.1.length_le hinv.bounded
    | created hnone hroom =>
        have hfits := hspares hnone hroom
        unfold createConnection
        rwa [List.length_append, List.length_singleton]
  · rcases List.mem_append.mp hmem with hold | hnew
    · intro hin
      rcases hidle _ (hhanded.idle.subset hin) with hbefore | hnew
      · exact hinv.held acquisition hold hheld hbefore
      · exact Nat.not_lt.mpr hnew (hinv.known acquisition hold)
    · cases List.mem_singleton.mp hnew
      exact hhanded.notIdle
  · change acquisition.id < q.created
    rw [hhanded.created]
    rcases List.mem_append.mp hmem with hold | hnew
    · exact Nat.lt_of_lt_of_le (hinv.known acquisition hold) hcreated
    · cases List.mem_singleton.mp hnew
      exact hsound.fresh id hhanded.mem

/-- An acquisition is released and its connection stays out of the idle ones or has no other holder. -/
theorem inv_release (hinv : Inv config h) {k : Nat} {now : Int} (hspares : Spares config h (.release k now))
    {acquisition : Acquisition} (hget : h.acquisitions[k]? = some acquisition) :
    Inv config { pool := release h.pool now acquisition.id,
                 acquisitions := h.acquisitions.set k { acquisition with released := true } } := by
  have hknown : ∀ other ∈ h.acquisitions.set k { acquisition with released := true }, other.id < h.pool.created :=
    forall_mem_set hinv.known (hinv.known acquisition (List.mem_of_getElem? hget))
  have hheld : ∀ other ∈ h.acquisitions.set k { acquisition with released := true }, other.released = false →
      other.id ∉ h.pool.idleQueue :=
    forall_mem_set hinv.held (fun hreleased => absurd hreleased.symm Bool.false_ne_true)
  by_cases hactive : acquisition.id ∈ h.pool.activeSet
  · by_cases hhealthy : (get h.pool acquisition.id).any ManagedConnection.isHealthy = true
    · obtain ⟨hsound, hids, hidle, hcreated⟩ := release_healthy hinv.sound hactive hhealthy now
      refine ⟨hsound, ?_, fun other hmem hfree => ?_, fun other hmem => hcreated ▸ hknown other hmem⟩
      · change (JsNumber.finite (release h.pool now acquisition.id).connections.length).le config.maxConnections
        rw [length_eq_of_ids hids]
        exact hinv.bounded
      · change other.id ∉ (release h.pool now acquisition.id).idleQueue
        rw [hidle, List.mem_append, List.mem_singleton, not_or]
        refine ⟨hheld other hmem hfree, fun hsame => ?_⟩
        obtain ⟨j, hj⟩ := List.mem_iff_getElem?.mp hmem
        rcases of_getElem?_set hj with ⟨-, rfl⟩ | ⟨hne, hold⟩
        · exact Bool.false_ne_true hfree.symm
        · exact hne (hspares acquisition hget hactive hhealthy j other hold hsame hfree)
    · obtain ⟨hsound, hids, hidle, hcreated⟩ := release_unhealthy hinv.sound hactive hhealthy now
      refine ⟨hsound, ?_, fun other hmem hfree => hidle ▸ hheld other hmem hfree, fun other hmem => hcreated ▸ hknown other hmem⟩
      refine JsNumber.natCast_le_anti ?_ hinv.bounded
      have hlength := hids.length_le
      unfold ids at hlength
      rwa [List.length_map, List.length_map] at hlength
  · have hsame : release h.pool now acquisition.id = h.pool := if_neg hactive
    rw [hsame]
    exact ⟨hinv.sound, hinv.bounded, hheld, hknown⟩

theorem inv_checkHealth (hmin : (JsNumber.finite (⌈config.minConnections⌉₊ : Nat)).le config.maxConnections)
    (hinv : Inv config h) (now : Int) : Inv config { h with pool := checkHealth config h.pool now } := by
  obtain ⟨hsound, hconnections, hidle, hcreated⟩ := hinv.sound.foldl_dropUnhealthy h.pool.connections
  unfold checkHealth
  dsimp only
  generalize h.pool.connections.foldl dropUnhealthy h.pool = p at hsound hconnections hidle hcreated ⊢
  refine ⟨hsound.createConnections now _, ?_, fun acquisition hmem hheld hin => ?_, fun acquisition hmem => ?_⟩
  · change (JsNumber.finite (createConnections now _ p).connections.length).le config.maxConnections
    rw [length_createConnections]
    rcases le_total ⌈config.minConnections⌉₊ p.connections.length with hle | hle
    · rw [Nat.sub_eq_zero_of_le hle]
      exact JsNumber.natCast_le_anti hconnections.length_le hinv.bounded
    · rwa [Nat.add_sub_cancel' hle]
  · rcases mem_idle_createConnections hin with hold | hnew
    · exact hinv.held acquisition hmem hheld (hidle.subset hold)
    · rw [hcreated] at hnew
      exact Nat.not_lt.mpr hnew (hinv.known acquisition hmem)
  · refine Nat.lt_of_lt_of_le (hinv.known acquisition hmem) ?_
    rw [← hcreated]
    exact created_createConnections now _ p

theorem inv_failed (hinv : Inv config h) (id : Nat) : Inv config { h with pool := failed h.pool id } where
  sound := hinv.sound.regrouped (failed_ids h.pool id) (List.Perm.refl _) rfl
  bounded := by
    change (JsNumber.finite (failed h.pool id).connections.length).le config.maxConnections
    rw [length_eq_of_ids (failed_ids h.pool id)]
    exact hinv.bounded
  held := hinv.held
  known := hinv.known

theorem inv_step (hmin : (JsNumber.finite (⌈config.minConnections⌉₊ : Nat)).le config.maxConnections) (hinv : Inv config h)
    {e : Event} (hspares : Spares config h e) {h' : History} (hstep : step config h e = some h') : Inv config h' := by
  cases e with
  | acquire now =>
      obtain ⟨found, q, id, hfound, hacquire, hhanded⟩ := acquire_spec hinv.sound config now
      rw [step_acquire hacquire] at hstep
      obtain rfl := Option.some.inj hstep
      exact inv_acquire hinv hspares hfound hhanded
  | release k now =>
      obtain ⟨acquisition, hget, rfl⟩ := Option.map_eq_some_iff.mp hstep
      exact inv_release hinv hspares hget
  | checkHealth now =>
      obtain rfl := Option.some.inj hstep
      exact inv_checkHealth hmin hinv now
  | failed id =>
      obtain rfl := Option.some.inj hstep
      exact inv_failed hinv id

theorem lawful_of_spares (hmin : (JsNumber.finite (⌈config.minConnections⌉₊ : Nat)).le config.maxConnections)
    (hinv : Inv config h) {e : Event} (hspares : Spares config h e) : Lawful config h e where
  accounted h' hstep := (inv_step hmin hinv hspares hstep).accounted
  handedOut := by
    rintro now rfl
    obtain ⟨found, q, id, -, hacquire, hhanded⟩ := acquire_spec hinv.sound config now
    rw [hacquire]
    exact ⟨id, rfl, hhanded.ids ▸ hhanded.mem⟩

theorem spares_of_lawful (hinv : Inv config h) {e : Event} (hlawful : Lawful config h e) : Spares config h e := by
  cases e with
  | acquire now =>
      intro hnone hroom
      obtain ⟨found, q, id, hfound, hacquire, hhanded⟩ := acquire_spec hinv.sound config now
      have hbounded : (JsNumber.finite q.connections.length).le config.maxConnections :=
        (hlawful.accounted _ (step_acquire hacquire)).bounded
      rw [length_eq_of_ids hhanded.ids] at hbounded
      cases hfound with
      | cleaned hkept =>
          rcases hkept with hne | hfull
          · exact absurd hnone hne
          · exact absurd hroom hfull
      | created _ _ =>
          unfold createConnection at hbounded
          rwa [List.length_append, List.length_singleton] at hbounded
  | release k now =>
      intro acquisition hget hactive hhealthy j other hother hsame hfree
      by_contra hne
      obtain ⟨-, -, hidle, -⟩ := release_healthy hinv.sound hactive hhealthy now
      have hstep : step config h (.release k now) =
          some { pool := release h.pool now acquisition.id,
                 acquisitions := h.acquisitions.set k { acquisition with released := true } } :=
        congrArg (Option.map _) hget
      have hmem : other ∈ h.acquisitions.set k { acquisition with released := true } := by
        refine List.mem_of_getElem? (i := j) ?_
        rw [List.getElem?_set_ne (Ne.symm hne)]
        exact hother
      refine (hlawful.accounted _ hstep).held other hmem hfree ?_
      change other.id ∈ (release h.pool now acquisition.id).idleQueue
      rw [hidle, hsame]
      exact List.mem_append_right _ (List.mem_singleton_self _)
  | checkHealth now => trivial
  | failed id => trivial

/-- The pool is accounted for just when whole connections fit in, the first ones and the later ones, and no connection is
given back healthy while somebody else holds it. -/
theorem pool_accounted_iff (config : ConnectionPoolConfig) (now : Int) (events : List Event) :
    Accounted config (start config now) ∧ Allowed (step config) (Lawful config) (start config now) events ↔
      (JsNumber.finite (⌈config.minConnections⌉₊ : Nat)).le config.maxConnections ∧
        Allowed (step config) (Spares config) (start config now) events := by
  have hruns (hmin : (JsNumber.finite (⌈config.minConnections⌉₊ : Nat)).le config.maxConnections) :
      Allowed (step config) (Lawful config) (start config now) events ↔
        Allowed (step config) (Spares config) (start config now) events :=
    allowed_iff (fun _ _ _ hinv hlawful hstep => inv_step hmin hinv (spares_of_lawful hinv hlawful) hstep)
      (fun _ _ hinv => ⟨spares_of_lawful hinv, lawful_of_spares hmin hinv⟩) (start_inv hmin now) events
  constructor
  · rintro ⟨haccounted, hlawful⟩
    have hmin := haccounted.bounded
    change (JsNumber.finite (constructor config now).connections.length).le config.maxConnections at hmin
    rw [length_constructor] at hmin
    exact ⟨hmin, (hruns hmin).mp hlawful⟩
  · rintro ⟨hmin, hspares⟩
    exact ⟨(start_inv hmin now).accounted, (hruns hmin).mpr hspares⟩

/-- Two holders share the only connection, and the first one to release it makes it idle. -/
theorem pool_accounted_fail :
    ¬∀ (config : ConnectionPoolConfig) (now : Int) (events : List Event),
      Accounted config (start config now) ∧ Allowed (step config) (Lawful config) (start config now) events := by
  intro hall
  let config : ConnectionPoolConfig :=
    { maxConnections := .finite 1, one_le_min := le_refl 1, min_le_max := by decide }
  let only : ManagedConnection := { id := 0, createdAt := 0, lastUsedAt := 0 }
  let held : History := ⟨⟨[only], [], [0], 1⟩, [⟨0, false⟩]⟩
  let shared : History := ⟨⟨[only], [], [0], 1⟩, [⟨0, false⟩, ⟨0, false⟩]⟩
  have hstart : start config 0 = ⟨⟨[only], [0], [], 1⟩, []⟩ := by
    change History.mk (createConnections 0 ⌈(1 : ℚ)⌉₊ {}) [] = _
    rw [Nat.ceil_one]
    rfl
  obtain ⟨-, hlawful⟩ := hall config 0 [.acquire 0, .acquire 0, .release 0 0]
  rw [hstart] at hlawful
  obtain ⟨-, hnext⟩ := hlawful
  obtain ⟨-, hnext⟩ := hnext held (by rfl)
  obtain ⟨hlawful, -⟩ := hnext shared (by rfl)
  have haccounted := hlawful.accounted ⟨⟨[only], [0], [], 1⟩, [⟨0, true⟩, ⟨0, false⟩]⟩ (by rfl)
  exact haccounted.held ⟨0, false⟩ (by decide) rfl (by decide)

end Histories

end SplitSdk.PoolAccounting
