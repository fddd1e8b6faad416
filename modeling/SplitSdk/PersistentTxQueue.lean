import Mathlib.Data.List.Basic
import SplitSdk.Numbers
import SplitSdk.Interleaving

namespace SplitSdk.PersistentTxQueue

open Numbers

section Data

variable (P : Type)

structure PendingItem where
  id : String
  payload : P
  enqueuedAt : JsNumber

/-- Where a call of `process` is. -/
inductive Call
  /-- The promise chain has not come to it yet. -/
  | chained
  | processing (item : Nat) (rest : List Nat)
  /-- The item was processed, and the call is at its `await` of the database. -/
  | deleting (rest : List Nat)
  | resolved
  | rejected (error : String)
  deriving DecidableEq

/-- The lists hold the places of their items in `entries`, which are all that were ever put into the queue. -/
structure Queue where
  entries : List (PendingItem P) := []
  memory : List Nat := []
  calls : List Call := []

end Data

section Operations

variable {P : Type} (s : Queue P)

/-- A queue that holds these items, as after `hydrate`. -/
def holding (items : List (PendingItem P)) : Queue P where
  entries := items
  memory := List.range items.length

def hasId (id : String) (item : Nat) : Bool := (s.entries[item]?).any (fun entry => entry.id = id)

/-- The items with other ids are kept. -/
def without (id : String) : List Nat := s.memory.filter (fun item => !hasId s id item)

def enqueue (item : PendingItem P) : Queue P :=
  { s with entries := s.entries ++ [item], memory := s.memory ++ [s.entries.length] }

def remove (id : String) : Queue P := { s with memory := without s id }

def clear : Queue P := { s with memory := [] }

def process : Queue P := { s with calls := s.calls ++ [.chained] }

/-- What the chain was before a call: fulfilled at first, and then as the call before it. -/
def chainBefore : Nat → Option Call
  | 0 => some .resolved
  | k + 1 => s.calls[k]?

/-- The `for` loop over the snapshot takes its next item, or the call is over. -/
def next : List Nat → Call
  | [] => .resolved
  | item :: rest => .processing item rest

def moveTo (k : Nat) (call : Call) : Queue P := { s with calls := s.calls.set k call }

/-- The chain comes to a call. After a rejection it passes the rejection on instead of running the call. -/
def begin (k : Nat) : Option (Queue P) :=
  match chainBefore s k with
  | some .resolved => some (moveTo s k (next s.memory))
  | some (.rejected error) => some (moveTo s k (.rejected error))
  | _ => none

/-- From the answer of `fn`, which may be an error. -/
def processed (k : Nat) (item : Nat) (rest : List Nat) : Except String Unit → Queue P
  | .error error => moveTo s k (.rejected error)
  | .ok () =>
      moveTo { s with memory := ((s.entries[item]?).map (fun entry => without s entry.id)).getD s.memory } k (.deleting rest)

/-- From the answer of the database, if there is one. -/
def deleted (k : Nat) (rest : List Nat) : Except String Unit → Queue P
  | .error error => moveTo s k (.rejected error)
  | .ok () => moveTo s k (next rest)

end Operations

section Runs

variable {P : Type}

inductive Event (P : Type)
  | enqueue (item : PendingItem P)
  | remove (id : String)
  | clear
  | process
  | begin (k : Nat)
  | processed (k : Nat) (answer : Except String Unit)
  | deleted (k : Nat) (answer : Except String Unit)

def step (s : Queue P) : Event P → Option (Queue P)
  | .enqueue item => some (enqueue s item)
  | .remove id => some (remove s id)
  | .clear => some (clear s)
  | .process => some (process s)
  | .begin k =>
      match s.calls[k]? with
      | some .chained => begin s k
      | _ => none
  | .processed k answer =>
      match s.calls[k]? with
      | some (.processing item rest) => some (processed s k item rest answer)
      | _ => none
  | .deleted k answer =>
      match s.calls[k]? with
      | some (.deleting rest) => some (deleted s k rest answer)
      | _ => none

end Runs

section Steps

variable {P : Type} {s t : Queue P}

/-- What an event does. -/
inductive Moves (s : Queue P) : Event P → Queue P → Prop
  | enqueue (item) : Moves s (.enqueue item) (enqueue s item)
  | remove (id) : Moves s (.remove id) (remove s id)
  | clear : Moves s .clear (clear s)
  | process : Moves s .process (process s)
  | begins {k} (hcall : s.calls[k]? = some .chained) (hchain : chainBefore s k = some .resolved) :
      Moves s (.begin k) (moveTo s k (next s.memory))
  | passesOn {k error} (hcall : s.calls[k]? = some .chained)
      (hchain : chainBefore s k = some (.rejected error)) :
      Moves s (.begin k) (moveTo s k (.rejected error))
  | processed {k item rest} (answer) (hcall : s.calls[k]? = some (.processing item rest)) :
      Moves s (.processed k answer) (processed s k item rest answer)
  | deleted {k rest} (answer) (hcall : s.calls[k]? = some (.deleting rest)) :
      Moves s (.deleted k answer) (deleted s k rest answer)

theorem moves_of_step {e : Event P} (h : step s e = some t) : Moves s e t := by
  cases e with
  | enqueue item =>
      obtain rfl := Option.some.inj h
      exact .enqueue item
  | remove id =>
      obtain rfl := Option.some.inj h
      exact .remove id
  | clear =>
      obtain rfl := Option.some.inj h
      exact .clear
  | process =>
      obtain rfl := Option.some.inj h
      exact .process
  | begin k =>
      rw [step] at h
      split at h
      · rename_i hcall
        unfold begin at h
        split at h
        · rename_i hchain
          obtain rfl := Option.some.inj h
          exact .begins hcall hchain
        · rename_i error hchain
          obtain rfl := Option.some.inj h
          exact .passesOn hcall hchain
        · nomatch h
      · nomatch h
  | processed k answer =>
      rw [step] at h
      split at h
      · rename_i item rest hcall
        obtain rfl := Option.some.inj h
        exact .processed answer hcall
      · nomatch h
  | deleted k answer =>
      rw [step] at h
      split at h
      · rename_i rest hcall
        obtain rfl := Option.some.inj h
        exact .deleted answer hcall
      · nomatch h

end Steps

end SplitSdk.PersistentTxQueue

namespace SplitSdk.QueueRecovery

open Interleaving PersistentTxQueue

section Statement

variable {P : Type}

/-- A call whose turn it is attempts the oldest item, and so does a call that goes on. -/
def AttemptsOldest (s : Queue P) (e : Event P) (t : Queue P) : Prop :=
  match e with
  | .begin k => ∀ item, s.memory.head? = some item → ∃ rest, t.calls[k]? = some (.processing item rest)
  | .deleted k _ => ∀ item rest, t.calls[k]? = some (.processing item rest) → s.memory.head? = some item
  | _ => True

/-- An item leaves the queue when `fn` has succeeded on it, or through `remove` or `clear`. -/
def Leaves (s : Queue P) (e : Event P) (item : Nat) : Prop :=
  match e with
  | .processed k (.ok ()) => ∃ rest, s.calls[k]? = some (.processing item rest)
  | .remove id => hasId s id item
  | .clear => True
  | _ => False

structure LawfulStep (s : Queue P) (e : Event P) (t : Queue P) : Prop where
  attempts : AttemptsOldest s e t
  leaves : ∀ item ∈ s.memory, item ∉ t.memory → Leaves s e item
  failing : ∀ k error, e = .processed k (.error error) → t.memory = s.memory
  ordered : t.memory.Pairwise (· < ·)

def Lawful (s : Queue P) (e : Event P) : Prop := ∀ t, step s e = some t → LawfulStep s e t

/-- No call has failed before one whose turn it is while items are queued, no other item has the id of one that was
processed, and the next item of a call has not been removed since the call began. -/
def Sound (s : Queue P) : Event P → Prop
  | .begin k => s.calls[k]? = some .chained → ∀ error, chainBefore s k = some (.rejected error) →
      s.memory = []
  | .processed k (.ok ()) => ∀ item rest, s.calls[k]? = some (.processing item rest) →
      ∀ entry ∈ s.entries[item]?,
      ∀ other ∈ s.memory, hasId s entry.id other → other = item
  | .deleted k (.ok ()) => ∀ item rest, s.calls[k]? = some (.deleting (item :: rest)) → item ∈ s.memory
  | _ => True

end Statement

section Snapshots

variable {P : Type} {s t : Queue P}

def left : Call → List Nat
  | .processing item rest => item :: rest
  | .deleting rest => rest
  | _ => []

/-- The queue has nothing older than what is left of a snapshot, apart from the snapshot itself. -/
structure Follows (s : Queue P) (snapshot : List Nat) : Prop where
  sorted : snapshot.Pairwise (· < ·)
  bounded : ∀ item ∈ snapshot, item < s.entries.length
  newer : ∀ item ∈ s.memory, item ∈ snapshot ∨ ∀ old ∈ snapshot, old < item

structure Inv (s : Queue P) : Prop where
  sorted : s.memory.Pairwise (· < ·)
  bounded : ∀ item ∈ s.memory, item < s.entries.length
  follows : ∀ call ∈ s.calls, Follows s (left call)

theorem Follows.nil (s : Queue P) : Follows s [] := ⟨.nil, nofun, fun _ _ => .inr nofun⟩

theorem Follows.mono {snapshot : List Nat} (h : Follows s snapshot) (hentries : t.entries = s.entries)
    (hmemory : t.memory ⊆ s.memory) : Follows t snapshot :=
  ⟨h.sorted, hentries ▸ h.bounded, fun item hitem => h.newer item (hmemory hitem)⟩

theorem Follows.tail {item : Nat} {rest : List Nat} (h : Follows s (item :: rest))
    (hitem : item ∉ s.memory) :
    Follows s rest := by
  refine ⟨(List.pairwise_cons.mp h.sorted).2,
    fun other hmem => h.bounded other (List.mem_cons_of_mem _ hmem), ?_⟩
  intro other hother
  rcases h.newer other hother with hmem | hnewer
  · rcases List.mem_cons.mp hmem with rfl | hmem
    · exact absurd hother hitem
    · exact .inl hmem
  · exact .inr (fun old hold => hnewer old (List.mem_cons_of_mem _ hold))

theorem Follows.head {item : Nat} {rest : List Nat} (h : Follows s (item :: rest))
    (hsorted : s.memory.Pairwise (· < ·)) :
    s.memory.head? = some item ↔ item ∈ s.memory := by
  refine ⟨List.mem_of_head?, fun hmem => ?_⟩
  cases hmemory : s.memory with
  | nil =>
      rw [hmemory] at hmem
      nomatch hmem
  | cons first others =>
      have hle : item ≤ first := by
        rcases h.newer first (hmemory ▸ List.mem_cons_self) with hfirst | hnewer
        · rcases List.mem_cons.mp hfirst with rfl | hfirst
          · exact Nat.le_refl _
          · exact ((List.pairwise_cons.mp h.sorted).1 first hfirst).le
        · exact (hnewer item List.mem_cons_self).le
      rw [hmemory] at hmem hsorted
      rcases List.mem_cons.mp hmem with rfl | hothers
      · rfl
      · have := (List.pairwise_cons.mp hsorted).1 item hothers
        omega

theorem holding_inv (items : List (PendingItem P)) : Inv (holding items) :=
  ⟨List.pairwise_lt_range, fun _ h => List.mem_range.mp h, nofun⟩

end Snapshots

section Steps

variable {P : Type} {s t : Queue P}

theorem without_sublist (s : Queue P) (id : String) : (without s id).Sublist s.memory :=
  List.filter_sublist

theorem mem_without {id : String} {item : Nat} :
    item ∈ without s id ↔ item ∈ s.memory ∧ ¬hasId s id item := by
  simp [without]

/-- A step that adds no item keeps what follows the snapshots. -/
theorem Inv.shrink (hi : Inv s) (hentries : t.entries = s.entries) (hmemory : t.memory.Sublist s.memory)
    (hcalls : ∀ call ∈ t.calls, call ∈ s.calls ∨ Follows t (left call)) : Inv t := by
  refine ⟨hi.sorted.sublist hmemory, fun item hitem => hentries ▸ hi.bounded item (hmemory.subset hitem), ?_⟩
  intro call hcall
  rcases hcalls call hcall with hold | hnew
  · exact (hi.follows call hold).mono hentries hmemory.subset
  · exact hnew

theorem Inv.moveTo (hi : Inv s) (k : Nat) {call : Call} (h : Follows s (left call)) :
    Inv (moveTo s k call) := by
  refine hi.shrink rfl (.refl _) ?_
  intro other hother
  rcases List.mem_or_eq_of_mem_set hother with hold | rfl
  · exact .inl hold
  · exact .inr (h.mono rfl (fun _ => id))

theorem left_next (items : List Nat) : left (next items) = items := by
  cases items with
  | nil => rfl
  | cons item rest => rfl

theorem enqueue_inv (hi : Inv s) (item : PendingItem P) : Inv (enqueue s item) := by
  have hlength : (enqueue s item).entries.length = s.entries.length + 1 := List.length_append
  refine ⟨?_, ?_, fun call hcall => ?_⟩
  · refine List.pairwise_append.mpr ⟨hi.sorted, List.pairwise_singleton _ _, ?_⟩
    intro old hold new hnew
    rw [List.mem_singleton.mp hnew]
    exact hi.bounded old hold
  · intro other hother
    rw [hlength]
    rcases List.mem_append.mp hother with hold | hnew
    · exact Nat.lt_succ_of_lt (hi.bounded other hold)
    · rw [List.mem_singleton.mp hnew]
      exact Nat.lt_succ_self _
  · have hfollows := hi.follows call hcall
    refine ⟨hfollows.sorted, ?_, ?_⟩
    · intro other hother
      exact hlength ▸ Nat.lt_succ_of_lt (hfollows.bounded other hother)
    intro other hother
    rcases List.mem_append.mp hother with hold | hnew
    · exact hfollows.newer other hold
    · rw [List.mem_singleton.mp hnew]
      exact .inr hfollows.bounded

theorem processed_ok_memory (hi : Inv s) {k item : Nat} {rest : List Nat}
    (hcall : s.calls[k]? = some (.processing item rest)) :
    ∃ entry, s.entries[item]? = some entry ∧
      (processed s k item rest (.ok ())).memory = without s entry.id ∧
      item ∉ without s entry.id := by
  have hlt : item < s.entries.length :=
    (hi.follows _ (List.mem_of_getElem? hcall)).bounded item List.mem_cons_self
  have hentry := List.getElem?_eq_getElem hlt
  refine ⟨_, hentry, ?_, ?_⟩
  · change ((s.entries[item]?).map _).getD s.memory = _
    rw [hentry]
    rfl
  · rw [mem_without, hasId, hentry]
    simp

theorem processed_inv (hi : Inv s) {k item : Nat} {rest : List Nat}
    (hcall : s.calls[k]? = some (.processing item rest))
    (answer : Except String Unit) : Inv (processed s k item rest answer) := by
  cases answer with
  | error error => exact hi.moveTo k (.nil s)
  | ok _ =>
      obtain ⟨entry, hentry, hmemory, hitem⟩ := processed_ok_memory hi hcall
      have hsub : (processed s k item rest (.ok ())).memory.Sublist s.memory :=
        hmemory ▸ without_sublist s entry.id
      refine hi.shrink rfl hsub ?_
      intro call hmem
      rcases List.mem_or_eq_of_mem_set hmem with hold | rfl
      · exact .inl hold
      · have hfollows := (hi.follows _ (List.mem_of_getElem? hcall)).mono
          (t := processed s k item rest (.ok ())) rfl hsub.subset
        exact .inr (Follows.tail hfollows (hmemory ▸ hitem))

theorem deleted_inv (hi : Inv s) {k : Nat} {rest : List Nat}
    (hcall : s.calls[k]? = some (.deleting rest))
    (answer : Except String Unit) : Inv (deleted s k rest answer) := by
  cases answer with
  | error error => exact hi.moveTo k (.nil s)
  | ok _ =>
      refine hi.moveTo k ?_
      rw [left_next]
      exact hi.follows _ (List.mem_of_getElem? hcall)

theorem process_inv (hi : Inv s) : Inv (process s) := by
  refine hi.shrink rfl (.refl _) ?_
  intro call hcall
  rcases List.mem_append.mp hcall with hold | hnew
  · exact .inl hold
  · rw [List.mem_singleton.mp hnew]
    exact .inr (.nil _)

theorem step_inv (e : Event P) (hi : Inv s) (h : step s e = some t) : Inv t := by
  cases moves_of_step h with
  | enqueue item => exact enqueue_inv hi item
  | remove id => exact hi.shrink rfl (without_sublist s id) (fun _ => .inl)
  | clear => exact hi.shrink rfl (List.nil_sublist _) (fun _ => .inl)
  | process => exact process_inv hi
  | begins hcall hchain =>
      refine hi.moveTo _ ?_
      rw [left_next]
      exact ⟨hi.sorted, hi.bounded, fun _ => .inl⟩
  | passesOn hcall hchain => exact hi.moveTo _ (.nil s)
  | processed answer hcall => exact processed_inv hi hcall answer
  | deleted answer hcall => exact deleted_inv hi hcall answer

end Steps

section Result

variable {P : Type} {s t : Queue P}

theorem lawful_of_kept {e : Event P} (hi : Inv s) (h : step s e = some t)
    (hmemory : s.memory.Sublist t.memory)
    (hattempts : AttemptsOldest s e t) (hfailing : ∀ k error,
    e = .processed k (.error error) → t.memory = s.memory) :
    LawfulStep s e t :=
  ⟨hattempts, fun _ hmem hnot => absurd (hmemory.subset hmem) hnot, hfailing, (step_inv e hi h).sorted⟩

theorem getElem?_moveTo {k : Nat} {call : Call} (h : s.calls[k]? = some call) (new : Call) :
    (moveTo s k new).calls[k]? = some new := List.getElem?_set_self (List.getElem?_eq_some_iff.mp h).1

theorem begin_lawful_iff (hi : Inv s) (k : Nat) : Lawful s (.begin k) ↔ Sound s (.begin k) := by
  constructor
  · intro hlawful hcall error hchain
    have hstep : step s (.begin k) = some (moveTo s k (.rejected error)) := by
      rw [step, hcall]
      dsimp only
      rw [PersistentTxQueue.begin, hchain]
    by_contra hne
    obtain ⟨item, rest, hmemory⟩ := List.exists_cons_of_ne_nil hne
    obtain ⟨_, hattempt⟩ := (hlawful _ hstep).attempts item (by rw [hmemory]; rfl)
    cases (getElem?_moveTo hcall (.rejected error)).symm.trans hattempt
  · intro hsound t ht
    cases moves_of_step ht with
    | begins hcall hchain =>
        refine lawful_of_kept hi ht (.refl _) ?_ (by simp)
        intro item hitem
        obtain ⟨rest, hmemory⟩ := List.head?_eq_some_iff.mp hitem
        refine ⟨rest, ?_⟩
        rw [getElem?_moveTo hcall, hmemory]
        rfl
    | passesOn hcall hchain =>
        refine lawful_of_kept hi ht (.refl _) ?_ (by simp)
        intro item hitem
        rw [hsound hcall _ hchain] at hitem
        cases hitem

/-- Another item with the id of the one that was processed would leave the queue with it. -/
theorem processed_lawful_iff (hi : Inv s) (k : Nat) (answer : Except String Unit) :
    Lawful s (.processed k answer) ↔ Sound s (.processed k answer) := by
  cases answer with
  | error error =>
      refine iff_of_true (fun t ht => ?_) trivial
      cases moves_of_step ht with
      | processed answer hcall => exact lawful_of_kept hi ht (.refl _) trivial (fun _ _ _ => rfl)
  | ok _ =>
      constructor
      · intro hlawful item rest hcall entry hentry other hother hid
        obtain ⟨entry', hentry', hmemory, _⟩ := processed_ok_memory hi hcall
        obtain rfl : entry' = entry := Option.some.inj (hentry'.symm.trans hentry)
        have hstep : step s (.processed k (.ok ())) = some (processed s k item rest (.ok ())) :=
          by rw [step, hcall]
        have hgone : other ∉ (processed s k item rest (.ok ())).memory := by
          rw [hmemory, mem_without]
          exact fun h => h.2 hid
        obtain ⟨_, hsame⟩ := (hlawful _ hstep).leaves other hother hgone
        exact (Call.processing.inj (Option.some.inj (hcall.symm.trans hsame))).1.symm
      · intro hsound t ht
        cases moves_of_step ht with
        | @processed _ item rest _ hcall =>
            obtain ⟨entry, hentry, hmemory, _⟩ := processed_ok_memory hi hcall
            refine ⟨trivial, ?_, by simp, (step_inv _ hi ht).sorted⟩
            intro other hother hgone
            rw [hmemory, mem_without, not_and, not_not] at hgone
            obtain rfl := hsound item rest hcall entry hentry other hother (hgone hother)
            exact ⟨rest, hcall⟩

theorem deleted_lawful_iff (hi : Inv s) (k : Nat) (answer : Except String Unit) :
    Lawful s (.deleted k answer) ↔ Sound s (.deleted k answer) := by
  cases answer with
  | error error =>
      refine iff_of_true (fun t ht => ?_) trivial
      cases moves_of_step ht with
      | deleted answer hcall =>
          refine lawful_of_kept hi ht (.refl _) ?_ (by simp)
          intro item rest hattempt
          cases (getElem?_moveTo hcall (.rejected error)).symm.trans hattempt
  | ok _ =>
      constructor
      · intro hlawful item rest hcall
        have hstep : step s (.deleted k (.ok ())) = some (deleted s k (item :: rest) (.ok ())) :=
          by rw [step, hcall]
        exact List.mem_of_head? ((hlawful _ hstep).attempts item rest (getElem?_moveTo hcall _))
      · intro hsound t ht
        cases moves_of_step ht with
        | @deleted _ rest _ hcall =>
            refine lawful_of_kept hi ht (.refl _) ?_ (by simp)
            intro item others hattempt
            have hnext := Option.some.inj ((getElem?_moveTo hcall (next rest)).symm.trans hattempt)
            cases rest with
            | nil => cases hnext
            | cons first others =>
                obtain ⟨rfl, rfl⟩ := Call.processing.inj hnext
                exact ((hi.follows _ (List.mem_of_getElem? hcall)).head hi.sorted).mpr
                  (hsound first others hcall)

theorem lawful_iff_sound (hi : Inv s) (e : Event P) : Lawful s e ↔ Sound s e := by
  cases e with
  | begin k => exact begin_lawful_iff hi k
  | processed k answer => exact processed_lawful_iff hi k answer
  | deleted k answer => exact deleted_lawful_iff hi k answer
  | enqueue item =>
      refine iff_of_true (fun t ht => ?_) trivial
      obtain rfl := Option.some.inj ht
      exact lawful_of_kept hi rfl (List.sublist_append_left _ _) trivial nofun
  | process =>
      refine iff_of_true (fun t ht => ?_) trivial
      obtain rfl := Option.some.inj ht
      exact lawful_of_kept hi rfl (.refl _) trivial nofun
  | remove id =>
      refine iff_of_true (fun t ht => ?_) trivial
      obtain rfl := Option.some.inj ht
      refine ⟨trivial, ?_, nofun, (step_inv (.remove id) hi rfl).sorted⟩
      intro item hitem hgone
      change item ∉ without s id at hgone
      rw [mem_without, not_and, not_not] at hgone
      exact hgone hitem
  | clear =>
      refine iff_of_true (fun t ht => ?_) trivial
      obtain rfl := Option.some.inj ht
      exact ⟨trivial, fun _ _ _ => trivial, nofun, .nil⟩

/-- The calls of `process` attempt and remove the items as they should exactly when every step of the run is sound. -/
theorem recovery_iff (items : List (PendingItem P)) (es : List (Event P)) :
    Allowed step Lawful (holding items) es ↔ Allowed step Sound (holding items) es :=
  allowed_iff (fun _ e _ hi _ h => step_inv e hi h) (fun _ e hi =>
    lawful_iff_sound hi e) (holding_inv items) es

end Result

section Runs

def oneItem : Queue Nat := holding [⟨"a", 1, .finite 0⟩]

/-- The first call fails, and the second one does not even try its item. -/
theorem failed_call_blocks : ∃ s ∈ run step oneItem
    [.process, .begin 0, .processed 0 (.error "offline"), .process, .begin 1],
    s.memory = [0] ∧ s.calls = [.rejected "offline", .rejected "offline"] := by decide

end Runs

end SplitSdk.QueueRecovery
