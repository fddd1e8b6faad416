import SplitSdk.Interleaving
import SplitSdk.Numbers
import SplitSdk.OrderedMap

namespace SplitSdk.MultiTenantClient

open Numbers OrderedMap

section Data

inductive RpcUrl
  | one (url : String)
  | many (urls : List String)
  deriving DecidableEq

/-- `StellarSplitClientConfig`, as far as the pool reads it. -/
structure ClientConfig where
  rpcUrl : RpcUrl
  deriving DecidableEq

/-- An entry and its client are identified by the number of the client; a client has neither `close` nor `dispose`. -/
structure PoolEntry where
  client : Nat
  createdAt : ℚ
  rpcUrl : String
  deriving DecidableEq

structure Pool where
  pool : OrdMap String PoolEntry := .empty
  hasFactory : Bool
  maxClients : JsNumber
  ttlMs : JsNumber
  hits : Nat := 0
  misses : Nat := 0
  evictions : Nat := 0
  healthCheckFailures : Nat := 0
  healthTimer : Bool
  /-- The pings that have not been answered. -/
  pings : List (String × PoolEntry) := []
  clients : Nat := 0
  now : ℚ := 0

structure PoolOptions where
  maxClients : Option JsNumber := none
  ttlMs : Option JsNumber := none
  healthCheckIntervalMs : Option JsNumber := none

/-- What the factory answers, if it does not throw, and whether the constructor of a client returns. -/
structure World where
  factory : Option (Option ClientConfig)
  constructs : Bool
  deriving DecidableEq

inductive Failure
  | validation (message tenantId : String)
  | factory
  | constructor
  | typeError
  deriving DecidableEq

end Data

section Operations

def create (hasFactory : Bool) (options : PoolOptions) : Pool where
  hasFactory := hasFactory
  maxClients := options.maxClients.getD (.infinity false)
  ttlMs := options.ttlMs.getD (.infinity false)
  healthTimer := (JsNumber.finite 0).lt (options.healthCheckIntervalMs.getD (.finite 0))

namespace Pool

variable (m : Pool)

def evictEntry (tenantId : String) : Pool :=
  { m with pool := m.pool.delete tenantId, evictions := m.evictions + 1 }

def expired (existing : PoolEntry) : Bool :=
  m.ttlMs ≠ .infinity false && m.ttlMs.lt (.finite (m.now - existing.createdAt))

def resolve (tenantId : String) (config : Option ClientConfig) (world : World) : Except Failure ClientConfig :=
  match config with
  | some config => .ok config
  | none =>
      let missing := Failure.validation
        s!"No configuration available for tenant \"{tenantId}\". Pass a config to getClient() or a client factory to the MultiTenantClient constructor."
        tenantId
      if m.hasFactory then
        match world.factory with
        | none => .error .factory
        | some none => .error missing
        | some (some config) => .ok config
      else .error missing

def construct (tenantId : String) (config : Option ClientConfig) (world : World) : Except Failure ClientConfig := do
  let resolvedConfig ← m.resolve tenantId config world
  if world.constructs then .ok resolvedConfig else .error .constructor

def firstUrl : RpcUrl → String
  | .one url => url
  | .many urls => urls.head?.getD ""

def addClient (tenantId : String) (config : Option ClientConfig) (world : World) : Except Failure Nat × Pool :=
  match m.construct tenantId config world with
  | .error failure => (.error failure, m)
  | .ok resolvedConfig =>
      let entry := { client := m.clients, createdAt := m.now, rpcUrl := firstUrl resolvedConfig.rpcUrl }
      (.ok m.clients, { m with pool := m.pool.set tenantId entry, clients := m.clients + 1 })

/-- `getClient` from the miss on. -/
def createClient (tenantId : String) (config : Option ClientConfig) (world : World) : Except Failure Nat × Pool :=
  let m := { m with misses := m.misses + 1 }
  if m.maxClients.le (.finite m.pool.size) then
    match m.pool.entries with
    | [] => (.error .typeError, { m with evictions := m.evictions + 1 })
    | lru :: _ => (m.evictEntry lru.1).addClient tenantId config world
  else m.addClient tenantId config world

def getClient (tenantId : String) (config : Option ClientConfig) (world : World) : Except Failure Nat × Pool :=
  match m.pool.get? tenantId with
  | some existing =>
      if m.expired existing then (m.evictEntry tenantId).createClient tenantId config world
      else
        (.ok existing.client, { m with pool := (m.pool.delete tenantId).set tenantId existing, hits := m.hits + 1 })
  | none => m.createClient tenantId config world

def evict (tenantId : String) : Bool × Pool :=
  if m.pool.has tenantId then (true, m.evictEntry tenantId) else (false, m)

def evictAll : Pool := (m.pool.entries.map Prod.fst).foldl evictEntry m

def destroy : Pool := evictAll { m with healthTimer := false }

/-- A sweep pings all clients. -/
def runHealthChecks : Pool := { m with pings := m.pings ++ m.pool.entries }

def pinged (tenantId : String) (entry : PoolEntry) (healthy : Bool) : Pool :=
  if !healthy ∧ m.pool.get? tenantId = some entry then
    { m with healthCheckFailures := m.healthCheckFailures + 1 }.evictEntry tenantId
  else m

end Pool

inductive Event
  | elapse (ms : ℚ)
  | getClient (tenantId : String) (config : Option ClientConfig) (world : World)
  | evict (tenantId : String)
  | evictAll
  | destroy
  | healthCheck
  | pinged (i : Nat) (healthy : Bool)
  deriving DecidableEq

def step (m : Pool) : Event → Option Pool
  | .elapse ms => if 0 ≤ ms then some { m with now := m.now + ms } else none
  | .getClient tenantId config world => some (m.getClient tenantId config world).2
  | .evict tenantId => some (m.evict tenantId).2
  | .evictAll => some m.evictAll
  | .destroy => some m.destroy
  | .healthCheck => if m.healthTimer then some m.runHealthChecks else none
  | .pinged i healthy =>
      m.pings[i]?.map (fun ping => { m with pings := m.pings.eraseIdx i }.pinged ping.1 ping.2 healthy)

end Operations

section Calls

variable (m : Pool) (tenantId : String) (config : Option ClientConfig) (world : World)

/-- The tenant has no client, or one that is too old. -/
def Misses : Prop := ∀ existing ∈ m.pool.get? tenantId, m.expired existing

instance : Decidable (Misses m tenantId) := inferInstanceAs (Decidable (∀ _ ∈ _, _))

/-- The call has no configuration, or the factory or the constructor throws. -/
def Fails : Prop := (m.construct tenantId config world).isOk = false

instance : Decidable (Fails m tenantId config world) := inferInstanceAs (Decidable (_ = _))

/-- The clients of the other tenants. -/
def others : OrdMap String PoolEntry := m.pool.delete tenantId

end Calls

end SplitSdk.MultiTenantClient

namespace SplitSdk.TenantPool

open Interleaving MultiTenantClient Numbers OrderedMap

section Statement

/-- The tenants that clients were created for are kept beside the pool. -/
structure History where
  pool : Pool
  created : List (Nat × String) := []

def observe (h : History) : Event → List (Nat × String)
  | .getClient tenantId config world =>
      if h.pool.clients < (h.pool.getClient tenantId config world).2.clients then (h.pool.clients, tenantId) :: h.created
      else h.created
  | _ => h.created

def observedStep (h : History) (e : Event) : Option History :=
  (step h.pool e).map (fun pool => ⟨pool, observe h e⟩)

def begin (hasFactory : Bool) (options : PoolOptions) : History := { pool := create hasFactory options }

/-- The pool has the clients of the other tenants and no more. -/
def Intact (tenantId : String) (before after : Pool) : Prop :=
  ∀ k, after.pool.get? k = if k = tenantId then none else before.pool.get? k

/-- A call that throws leaves the clients of the other tenants, and what it returns was created for its tenant alone. -/
def Answers (h : History) (tenantId : String) (config : Option ClientConfig) (world : World) : Prop :=
  match (h.pool.getClient tenantId config world).1 with
  | .error _ => Intact tenantId h.pool (h.pool.getClient tenantId config world).2
  | .ok client => ∀ owner, (client, owner) ∈ observe h (.getClient tenantId config world) ↔ owner = tenantId

def Bounded (m : Pool) : Prop :=
  (JsNumber.finite (1 : Nat)).le m.maxClients → (JsNumber.finite m.pool.size).le m.maxClients

structure Lawful (h : History) (e : Event) : Prop where
  answers : ∀ tenantId config world, e = .getClient tenantId config world → Answers h tenantId config world
  bounded : ∀ h', observedStep h e = some h' → Bounded h'.pool

/-- A call that is going to throw has no client of another tenant to evict, and a call that adds a client beside the
others has room for a whole one. -/
def Spares (h : History) : Event → Prop
  | .getClient tenantId config world =>
      Misses h.pool tenantId →
        (Fails h.pool tenantId config world →
          (others h.pool tenantId).size = 0 ∨ h.pool.maxClients.le (.finite (others h.pool tenantId).size) = false) ∧
        (¬Fails h.pool tenantId config world → h.pool.maxClients.le (.finite (others h.pool tenantId).size) = false →
          (JsNumber.finite (1 : Nat)).le h.pool.maxClients →
            (JsNumber.finite ((others h.pool tenantId).size + 1 : Nat)).le h.pool.maxClients)
  | _ => True

end Statement

section Outcomes

variable (m : Pool) (tenantId : String) (config : Option ClientConfig) (world : World)

def full : Bool := m.maxClients.le (.finite m.pool.size)

/-- The pool after the least recently used client was evicted for lack of room. -/
def room : OrdMap String PoolEntry :=
  if full m then m.pool.entries.head?.elim m.pool (fun lru => m.pool.delete lru.1) else m.pool

inductive Created : Except Failure Nat × Pool → Prop
  | stuck (hfull : full m) (hempty : m.pool.entries = []) (misses evictions : Nat) :
      Created (.error .typeError, { m with misses, evictions })
  | failed (hfails : Fails m tenantId config world) (failure : Failure) (misses evictions : Nat) :
      Created (.error failure, { m with pool := room m, misses, evictions })
  | added (hsucceeds : ¬Fails m tenantId config world) (hroom : full m → m.pool.entries ≠ []) (entry : PoolEntry)
      (hclient : entry.client = m.clients) (misses evictions : Nat) :
      Created (.ok m.clients,
        { m with pool := (room m).set tenantId entry, clients := m.clients + 1, misses, evictions })

theorem addClient_of_fails (h : Fails m tenantId config world) :
    ∃ failure, m.addClient tenantId config world = (.error failure, m) := by
  unfold Fails at h
  unfold Pool.addClient
  cases hconstruct : m.construct tenantId config world with
  | error failure => exact ⟨failure, rfl⟩
  | ok resolvedConfig =>
      rw [hconstruct] at h
      cases h

theorem addClient_of_not_fails (h : ¬Fails m tenantId config world) :
    ∃ entry : PoolEntry, entry.client = m.clients ∧ m.addClient tenantId config world =
      (.ok m.clients, { m with pool := m.pool.set tenantId entry, clients := m.clients + 1 }) := by
  unfold Fails at h
  unfold Pool.addClient
  cases hconstruct : m.construct tenantId config world with
  | error failure =>
      rw [hconstruct] at h
      exact absurd rfl h
  | ok resolvedConfig => exact ⟨_, rfl, rfl⟩

/-- A client is added, or the call throws, when there is room. -/
theorem created_room (misses evictions : Nat) (hroom : full m → m.pool.entries ≠ []) :
    Created m tenantId config world
      (({ m with pool := room m, misses, evictions } : Pool).addClient tenantId config world) := by
  by_cases hfails : Fails m tenantId config world
  · obtain ⟨failure, hadd⟩ := addClient_of_fails { m with pool := room m, misses, evictions } tenantId config world hfails
    rw [hadd]
    exact .failed hfails failure misses evictions
  · obtain ⟨entry, hclient, hadd⟩ :=
      addClient_of_not_fails { m with pool := room m, misses, evictions } tenantId config world hfails
    rw [hadd]
    exact .added hfails hroom entry hclient misses evictions

theorem created : Created m tenantId config world (m.createClient tenantId config world) := by
  have hroom := created_room m tenantId config world
  unfold Pool.createClient
  dsimp only
  by_cases hfull : m.maxClients.le (.finite m.pool.size)
  · rw [if_pos hfull]
    cases hentries : m.pool.entries with
    | nil => exact .stuck hfull hentries _ _
    | cons lru rest =>
        have hpool : room m = m.pool.delete lru.1 := by
          refine (if_pos hfull).trans ?_
          rw [hentries]
          rfl
        have hevicted := hroom (m.misses + 1) (m.evictions + 1) (fun _ => by rw [hentries]; exact List.cons_ne_nil _ _)
        rw [hpool] at hevicted
        exact hevicted
  · rw [if_neg hfull]
    have hpool : room m = m.pool := if_neg hfull
    have hadded := hroom (m.misses + 1) m.evictions (fun h => absurd h hfull)
    rw [hpool] at hadded
    exact hadded

inductive Answered : Except Failure Nat × Pool → Prop
  | hit (existing : PoolEntry) (hget : m.pool.get? tenantId = some existing) (hfresh : m.expired existing = false) :
      Answered (.ok existing.client,
        { m with pool := (m.pool.delete tenantId).set tenantId existing, hits := m.hits + 1 })
  | miss (hmisses : Misses m tenantId) (evictions : Nat) {result : Except Failure Nat × Pool}
      (hcreated : Created { m with pool := others m tenantId, evictions } tenantId config world result) : Answered result

theorem answered : Answered m tenantId config world (m.getClient tenantId config world) := by
  unfold Pool.getClient
  cases hget : m.pool.get? tenantId with
  | none =>
      have hsame : others m tenantId = m.pool := by
        refine OrdMap.delete_of_notMem (fun hmem => ?_)
        have hhas := (OrdMap.has_iff m.pool tenantId).mpr hmem
        rw [OrdMap.has, hget] at hhas
        cases hhas
      refine .miss (fun existing hexisting => ?_) m.evictions ?_
      · cases hget.symm.trans hexisting
      · rw [hsame]
        exact created m tenantId config world
  | some existing =>
      dsimp only
      split_ifs with hexpired
      · refine .miss (fun other hother => ?_) (m.evictions + 1) (created _ tenantId config world)
        obtain rfl : existing = other := Option.some.inj (hget.symm.trans hother)
        exact hexpired
      · exact .hit existing hget (by simpa using hexpired)

end Outcomes

section Shrinking

variable {m m' m'' : Pool} {tenantId : String}

/-- Clients have left the pool, and none has come. -/
structure Shrinks (m m' : Pool) : Prop where
  maxClients : m'.maxClients = m.maxClients
  clients : m'.clients = m.clients
  size : m'.pool.size ≤ m.pool.size
  get? : ∀ k entry, m'.pool.get? k = some entry → m.pool.get? k = some entry

theorem Shrinks.refl (m : Pool) : Shrinks m m := ⟨rfl, rfl, le_refl _, fun _ _ h => h⟩

theorem Shrinks.trans (h : Shrinks m m') (h' : Shrinks m' m'') : Shrinks m m'' :=
  ⟨h'.maxClients.trans h.maxClients, h'.clients.trans h.clients, h'.size.trans h.size,
    fun k entry hget => h.get? k entry (h'.get? k entry hget)⟩

theorem get?_of_delete {pool : OrdMap String PoolEntry} {k : String} {entry : PoolEntry}
    (h : (pool.delete tenantId).get? k = some entry) : k ≠ tenantId ∧ pool.get? k = some entry := by
  rw [OrdMap.get?_delete] at h
  split_ifs at h with hk
  exact ⟨hk, h⟩

theorem shrinks_evictEntry (m : Pool) (tenantId : String) : Shrinks m (m.evictEntry tenantId) :=
  ⟨rfl, rfl, OrdMap.size_delete_le _ _, fun _ _ h => (get?_of_delete h).2⟩

theorem shrinks_foldl_evictEntry (tenantIds : List String) (m : Pool) : Shrinks m (tenantIds.foldl Pool.evictEntry m) := by
  induction tenantIds generalizing m with
  | nil => exact .refl m
  | cons tenantId tenantIds ih => exact (shrinks_evictEntry m tenantId).trans (ih _)

/-- The least recently used client has gone, if there was no room. -/
theorem room_cases (m : Pool) : (m.pool.size = 0 ∨ full m = false) ∧ room m = m.pool ∨
    full m ∧ ∃ lru ∈ m.pool.entries, room m = m.pool.delete lru.1 := by
  unfold room
  split_ifs with hfull
  · cases hentries : m.pool.entries with
    | nil => exact .inl ⟨.inl (congrArg List.length hentries), rfl⟩
    | cons lru rest => exact .inr ⟨hfull, lru, List.mem_cons_self, rfl⟩
  · exact .inl ⟨.inr (by simpa using hfull), rfl⟩

theorem shrinks_room (m : Pool) (misses evictions : Nat) : Shrinks m { m with pool := room m, misses, evictions } := by
  rcases room_cases m with ⟨-, hsame⟩ | ⟨-, lru, -, hroom⟩
  · rw [hsame]
    exact ⟨rfl, rfl, le_refl _, fun _ _ h => h⟩
  · rw [hroom]
    exact ⟨rfl, rfl, OrdMap.size_delete_le _ _, fun _ _ h => (get?_of_delete h).2⟩

theorem shrinks_others (m : Pool) (tenantId : String) (evictions : Nat) :
    Shrinks m { m with pool := others m tenantId, evictions } :=
  ⟨rfl, rfl, OrdMap.size_delete_le _ _, fun _ _ h => (get?_of_delete h).2⟩

/-- The entry of a hit becomes the last one. -/
theorem shrinks_hit {existing : PoolEntry} (hget : m.pool.get? tenantId = some existing) (hits : Nat) :
    Shrinks m { m with pool := (m.pool.delete tenantId).set tenantId existing, hits } := by
  have hmem : tenantId ∈ m.pool.keys := List.mem_map_of_mem (OrdMap.mem_of_get? hget)
  have hnot : tenantId ∉ (m.pool.delete tenantId).keys := fun h => (OrdMap.mem_keys_delete.mp h).2 rfl
  refine ⟨rfl, rfl, ?_, fun k entry hk => ?_⟩
  · exact ((OrdMap.size_set_of_notMem hnot existing).trans (OrdMap.size_delete_of_mem hmem)).le
  · rw [OrdMap.get?_set] at hk
    split_ifs at hk with heq
    · rw [heq, hget, hk]
    · exact (get?_of_delete hk).2

theorem shrinks_pinged (m : Pool) (tenantId : String) (entry : PoolEntry) (healthy : Bool) :
    Shrinks m (m.pinged tenantId entry healthy) := by
  unfold Pool.pinged
  split_ifs
  · exact ⟨rfl, rfl, OrdMap.size_delete_le _ _, fun _ _ h => (get?_of_delete h).2⟩
  · exact .refl m

theorem shrinks_step {e : Event} (h : step m e = some m') (hother : ∀ t config world, e ≠ .getClient t config world) :
    Shrinks m m' := by
  cases e with
  | elapse ms =>
      obtain ⟨-, hnext⟩ := Option.ite_none_right_eq_some.mp h
      cases hnext
      exact ⟨rfl, rfl, le_refl _, fun _ _ h => h⟩
  | getClient tenantId config world => exact absurd rfl (hother tenantId config world)
  | evict tenantId =>
      cases h
      unfold Pool.evict
      split_ifs
      · exact shrinks_evictEntry m tenantId
      · exact .refl m
  | evictAll =>
      cases h
      exact shrinks_foldl_evictEntry _ m
  | destroy =>
      cases h
      have hstopped : Shrinks m { m with healthTimer := false } := ⟨rfl, rfl, le_refl _, fun _ _ h => h⟩
      exact hstopped.trans (shrinks_foldl_evictEntry _ _)
  | healthCheck =>
      obtain ⟨-, hnext⟩ := Option.ite_none_right_eq_some.mp h
      cases hnext
      exact ⟨rfl, rfl, le_refl _, fun _ _ h => h⟩
  | pinged i healthy =>
      obtain ⟨ping, -, rfl⟩ := Option.map_eq_some_iff.mp h
      have hanswered : Shrinks m { m with pings := m.pings.eraseIdx i } := ⟨rfl, rfl, le_refl _, fun _ _ h => h⟩
      exact hanswered.trans (shrinks_pinged _ ping.1 ping.2 healthy)

theorem Bounded.shrinks (h : Bounded m) (hshrinks : Shrinks m m') : Bounded m' := by
  intro hone
  rw [hshrinks.maxClients] at hone ⊢
  exact JsNumber.natCast_le_anti hshrinks.size (h hone)

end Shrinking

section Invariant

structure Inv (h : History) : Prop where
  bounded : Bounded h.pool
  owned : ∀ tenantId entry, h.pool.pool.get? tenantId = some entry → (entry.client, tenantId) ∈ h.created
  fresh : ∀ owned ∈ h.created, owned.1 < h.pool.clients
  unique : ∀ client owner owner', (client, owner) ∈ h.created → (client, owner') ∈ h.created → owner = owner'

theorem inv_begin (hasFactory : Bool) (options : PoolOptions) : Inv (begin hasFactory options) where
  bounded hone := JsNumber.natCast_le_anti (Nat.zero_le 1) hone
  owned _ _ hget := by cases hget
  fresh _ hmem := by cases hmem
  unique _ _ _ hmem := by cases hmem

variable {h : History} {m : Pool}

theorem Inv.shrinks (hi : Inv h) (hshrinks : Shrinks h.pool m) : Inv ⟨m, h.created⟩ where
  bounded := hi.bounded.shrinks hshrinks
  owned tenantId entry hget := hi.owned tenantId entry (hshrinks.get? tenantId entry hget)
  fresh owned hmem := by
    rw [hshrinks.clients]
    exact hi.fresh owned hmem
  unique := hi.unique

/-- A client is created for a tenant that has none. -/
theorem Inv.added (hi : Inv h) (hshrinks : Shrinks h.pool m) {tenantId : String} {entry : PoolEntry}
    (hclient : entry.client = m.clients) (hbounded : Bounded { m with pool := m.pool.set tenantId entry }) :
    Inv ⟨{ m with pool := m.pool.set tenantId entry, clients := m.clients + 1 }, (m.clients, tenantId) :: h.created⟩ where
  bounded := hbounded
  owned k other hget := by
    change (m.pool.set tenantId entry).get? k = some other at hget
    rw [OrdMap.get?_set] at hget
    split_ifs at hget with hk
    · cases hget
      rw [hclient, hk]
      exact List.mem_cons_self
    · exact List.mem_cons_of_mem _ (hi.owned k other (hshrinks.get? k other hget))
  fresh owned hmem := by
    rcases List.mem_cons.mp hmem with rfl | hold
    · exact Nat.lt_succ_self _
    · exact Nat.lt_succ_of_lt (hshrinks.clients ▸ hi.fresh owned hold)
  unique client owner owner' hmem hmem' := by
    have hfresh (owner : String) (hold : (m.clients, owner) ∈ h.created) : False :=
      absurd (hi.fresh _ hold) (by rw [hshrinks.clients]; exact lt_irrefl _)
    rcases List.mem_cons.mp hmem with heq | hold
    · cases heq
      rcases List.mem_cons.mp hmem' with heq' | hold'
      · cases heq'
        rfl
      · exact (hfresh _ hold').elim
    · rcases List.mem_cons.mp hmem' with heq' | hold'
      · cases heq'
        exact (hfresh _ hold).elim
      · exact hi.unique client owner owner' hold hold'

end Invariant

section Calls

variable {h : History} {tenantId : String} {config : Option ClientConfig} {world : World}

theorem intact_others (m : Pool) (tenantId : String) {m' : Pool} (h : m'.pool = others m tenantId) : Intact tenantId m m' := by
  intro k
  rw [h, others, OrdMap.get?_delete]

/-- What a call leaves is intact unless a client was evicted for lack of room. -/
theorem intact_room_iff (m m' : Pool) (tenantId : String) {m₁ : Pool} (hothers : m₁.pool = others m tenantId)
    (h : m'.pool = room m₁) : Intact tenantId m m' ↔ m₁.pool.size = 0 ∨ full m₁ = false := by
  rcases room_cases m₁ with ⟨hkept, hroom⟩ | ⟨hfull, lru, hlru, hroom⟩
  · exact iff_of_true (intact_others m tenantId (h.trans (hroom.trans hothers))) hkept
  · refine iff_of_false (fun hintact => ?_) (fun hkept => ?_)
    · have hget := hintact lru.1
      rw [h, hroom, OrdMap.get?_delete, if_pos rfl, ← OrdMap.get?_delete, ← others, ← hothers, OrdMap.get?_of_mem _ hlru] at hget
      cases hget
    · rcases hkept with hempty | hnot
      · exact absurd (List.length_pos_of_mem hlru) (by rw [← OrdMap.size, hempty]; exact lt_irrefl 0)
      · cases hfull.symm.trans hnot

/-- The pool after a client was added. -/
theorem bounded_added_iff {m : Pool} (hbounded : Bounded m) (hroom : full m → m.pool.entries ≠ [])
    (hnot : tenantId ∉ m.pool.keys) (entry : PoolEntry) :
    Bounded { m with pool := (room m).set tenantId entry } ↔
      (full m = false → (JsNumber.finite (1 : Nat)).le m.maxClients →
        (JsNumber.finite (m.pool.size + 1 : Nat)).le m.maxClients) := by
  have hsize {pool : OrdMap String PoolEntry} (hnot : tenantId ∉ pool.keys) : (pool.set tenantId entry).size = pool.size + 1 :=
    OrdMap.size_set_of_notMem hnot entry
  unfold Bounded
  dsimp only
  rcases room_cases m with ⟨hkept, hsame⟩ | ⟨hfull, lru, hlru, hdeleted⟩
  · have hnotfull : full m = false := by
      rcases hkept with hempty | hfalse
      · by_contra hfull
        exact hroom (by simpa using hfull) (List.length_eq_zero_iff.mp hempty)
      · exact hfalse
    rw [hsame, hsize hnot]
    exact ⟨fun hall _ => hall, fun hall => hall hnotfull⟩
  · rw [hdeleted, hsize (fun hmem => hnot (OrdMap.mem_keys_delete.mp hmem).1),
      OrdMap.size_delete_of_mem (List.mem_map_of_mem hlru)]
    exact iff_of_true hbounded (fun hnotfull => by cases hfull.symm.trans hnotfull)

theorem lawful_getClient_iff : Lawful h (.getClient tenantId config world) ↔
    Answers h tenantId config world ∧ Bounded (h.pool.getClient tenantId config world).2 := by
  constructor
  · exact fun hlawful => ⟨hlawful.answers _ _ _ rfl, hlawful.bounded _ rfl⟩
  · rintro ⟨hanswers, hbounded⟩
    refine ⟨fun t c w he => ?_, fun h' hstep => ?_⟩
    · cases he
      exact hanswers
    · cases hstep
      exact hbounded

/-- A call keeps the law exactly if it spares the clients of the other tenants and has room. -/
theorem getClient_iff (hi : Inv h) :
    Answers h tenantId config world ∧ Bounded (h.pool.getClient tenantId config world).2 ↔
      Spares h (.getClient tenantId config world) := by
  have hanswered := answered h.pool tenantId config world
  unfold Answers observe Spares
  dsimp only
  generalize h.pool.getClient tenantId config world = result at hanswered ⊢
  cases hanswered with
  | hit existing hget hfresh =>
      refine iff_of_true ⟨fun owner => ?_, hi.bounded.shrinks (shrinks_hit hget _)⟩ (fun hmisses => ?_)
      · have howned := hi.owned tenantId existing hget
        rw [if_neg (lt_irrefl _)]
        exact ⟨fun hmem => hi.unique _ _ _ hmem howned, fun heq => heq ▸ howned⟩
      · cases hfresh.symm.trans (hmisses existing hget)
  | miss hmisses evictions hcreated =>
      have hshrinks := shrinks_others h.pool tenantId evictions
      have hnot : tenantId ∉ (others h.pool tenantId).keys := fun hmem => (OrdMap.mem_keys_delete.mp hmem).2 rfl
      rw [forall_prop_of_true hmisses]
      generalize hm : ({ h.pool with pool := others h.pool tenantId, evictions } : Pool) = m at hcreated hshrinks
      have hpool : m.pool = others h.pool tenantId := by rw [← hm]
      have hfails : Fails h.pool tenantId config world ↔ Fails m tenantId config world := by rw [← hm]; exact Iff.rfl
      have hfull : h.pool.maxClients.le (.finite (others h.pool tenantId).size) = full m := by rw [← hm]; rfl
      have hbounded := hi.bounded.shrinks hshrinks
      rw [hfails, hfull, ← hshrinks.maxClients, ← hpool]
      cases hcreated with
      | stuck hstuck hempty misses evictions =>
          refine iff_of_true ⟨intact_others h.pool tenantId hpool, ?_⟩ ⟨fun _ => ?_, fun _ hnotfull => ?_⟩
          · exact hbounded
          · exact .inl (congrArg List.length hempty)
          · cases hstuck.symm.trans hnotfull
      | failed hfailing failure misses evictions =>
          have hintact := intact_room_iff h.pool { m with pool := room m, misses, evictions } tenantId hpool rfl
          have hafter : Bounded { m with pool := room m, misses, evictions } := hbounded.shrinks (shrinks_room m misses evictions)
          constructor
          · exact fun hlaw => ⟨fun _ => hintact.mp hlaw.1, fun hnot => absurd hfailing hnot⟩
          · exact fun hspares => ⟨hintact.mpr (hspares.1 hfailing), hafter⟩
      | added hsucceeds hroom entry hclient misses evictions =>
          have hafter := bounded_added_iff hbounded hroom (hpool ▸ hnot) entry
          have howner (owner : String) : (m.clients, owner) ∈ (h.pool.clients, tenantId) :: h.created ↔ owner = tenantId := by
            rw [hshrinks.clients]
            constructor
            · intro hmem
              rcases List.mem_cons.mp hmem with heq | hold
              · cases heq
                rfl
              · exact absurd (hi.fresh _ hold) (lt_irrefl _)
            · rintro rfl
              exact List.mem_cons_self
          have hlater : h.pool.clients < m.clients + 1 := by
            rw [hshrinks.clients]
            exact Nat.lt_succ_self _
          rw [if_pos hlater]
          constructor
          · exact fun hlaw => ⟨fun hfailing => absurd hfailing hsucceeds, fun _ => hafter.mp hlaw.2⟩
          · exact fun hspares => ⟨howner, hafter.mpr (hspares.2 hsucceeds)⟩

end Calls

section Runs

theorem inv_step {h h' : History} {e : Event} (hi : Inv h) (hlawful : Lawful h e) (hstep : observedStep h e = some h') : Inv h' := by
  have hbounded := hlawful.bounded h' hstep
  obtain ⟨pool, hpool, rfl⟩ := Option.map_eq_some_iff.mp hstep
  cases e with
  | getClient tenantId config world =>
      cases hpool
      have hanswered := answered h.pool tenantId config world
      unfold observe
      dsimp only at hbounded ⊢
      generalize h.pool.getClient tenantId config world = result at hanswered hbounded ⊢
      cases hanswered with
      | hit existing hget =>
          rw [if_neg (lt_irrefl _)]
          exact hi.shrinks (shrinks_hit hget _)
      | miss hmisses evictions hcreated =>
          have hshrinks := shrinks_others h.pool tenantId evictions
          generalize ({ h.pool with pool := others h.pool tenantId, evictions } : Pool) = m at hcreated hshrinks
          have hclients := hshrinks.clients
          cases hcreated with
          | stuck hstuck hempty misses evictions =>
              have hsame : Shrinks m { m with misses, evictions } := ⟨rfl, rfl, le_refl _, fun _ _ hget => hget⟩
              rw [if_neg (by rw [← hclients]; exact lt_irrefl _)]
              exact hi.shrinks (hshrinks.trans hsame)
          | failed hfailing failure misses evictions =>
              rw [if_neg (by rw [← hclients]; exact lt_irrefl _)]
              exact hi.shrinks (hshrinks.trans (shrinks_room m misses evictions))
          | added hsucceeds hroom entry hclient misses evictions =>
              rw [if_pos (by rw [← hclients]; exact Nat.lt_succ_self _), ← hclients]
              exact hi.added (hshrinks.trans (shrinks_room m misses evictions)) hclient hbounded
  | elapse | evict | evictAll | destroy | healthCheck | pinged =>
      exact hi.shrinks (shrinks_step hpool (fun _ _ _ he => by cases he))

theorem lawful_iff {h : History} (e : Event) (hi : Inv h) : Lawful h e ↔ Spares h e := by
  cases e with
  | getClient tenantId config world => exact lawful_getClient_iff.trans (getClient_iff hi)
  | elapse | evict | evictAll | destroy | healthCheck | pinged =>
      refine iff_of_true ⟨fun _ _ _ he => (by cases he), fun h' hstep => ?_⟩ trivial
      obtain ⟨pool, hpool, rfl⟩ := Option.map_eq_some_iff.mp hstep
      exact hi.bounded.shrinks (shrinks_step hpool (fun _ _ _ he => by cases he))

/-- The pool keeps the law in a run exactly if every call spares the clients of the other tenants and has room. -/
theorem tenant_pool_iff (hasFactory : Bool) (options : PoolOptions) (es : List Event) :
    Allowed observedStep Lawful (begin hasFactory options) es ↔ Allowed observedStep Spares (begin hasFactory options) es :=
  allowed_iff (I := Inv) (fun _ _ _ hi hlawful hstep => inv_step hi hlawful hstep) (fun _ e hi => lawful_iff e hi)
    (inv_begin hasFactory options) es

def tenantConfig : ClientConfig := ⟨.one "https://rpc.example.com"⟩

/-- A pool for one client, and a call for another tenant that has no configuration. -/
def crowded : List Event :=
  [.getClient "tenant-a" (some tenantConfig) ⟨none, true⟩, .getClient "tenant-b" none ⟨none, true⟩]

theorem tenant_pool_fails : ¬Allowed observedStep Lawful (begin false { maxClients := some (.finite 1) }) crowded := by
  intro hallowed
  have hanswers := (hallowed.2 _ rfl).1.answers "tenant-b" none ⟨none, true⟩ rfl
  have hintact := hanswers "tenant-a"
  revert hintact
  decide

end Runs

end SplitSdk.TenantPool
