import SplitSdk.BinaryHeaps
import SplitSdk.Interleaving
import Mathlib.Data.Prod.Lex

namespace SplitSdk.PriorityScheduling

open BinaryHeaps Interleaving

section Queue

inductive RequestPriority
  | high
  | normal
  | low
  deriving DecidableEq

def priorityValue : RequestPriority → Nat
  | .high => 0
  | .normal => 1
  | .low => 2

/-- A task is known by its number. -/
structure HeapItem where
  priority : RequestPriority
  seq : Nat
  deriving DecidableEq

/-- How the promise of a task is settled. -/
inductive Outcome (V : Type)
  | resolved (value : V)
  | rejected (error : V)

/-- A `_drain` that runs awaits the item that it has taken. The promises of `drain` are numbered. -/
structure PriorityQueue where
  heap : List HeapItem := []
  seq : Nat := 0
  running : Bool := false
  closed : Bool := false
  drainResolvers : List Nat := []
  active : List HeapItem := []
  drains : Nat := 0

inductive Effect (V : Type)
  | refused
  | started (item : HeapItem)
  | settled (item : HeapItem) (outcome : Outcome V)
  | drained (promise : Nat)

def compare (a b : HeapItem) : Int :=
  if priorityValue a.priority ≠ priorityValue b.priority then
    (priorityValue a.priority : Int) - priorityValue b.priority
  else (a.seq : Int) - b.seq

def before (a b : HeapItem) : Bool := compare a b < 0

variable {V : Type} (q : PriorityQueue)

/-- The loop of `_drain` up to its next `await` or its end. -/
def drainLoop : PriorityQueue × List (Effect V) :=
  match pop before q.heap with
  | some (item, heap) => ({ q with heap, active := q.active ++ [item] }, [.started item])
  | none => ({ q with running := false, drainResolvers := [] }, q.drainResolvers.map .drained)

def enqueue (priority : RequestPriority) : PriorityQueue × List (Effect V) :=
  if q.closed then (q, [.refused])
  else
    let q := { q with heap := push before q.heap ⟨priority, q.seq⟩, seq := q.seq + 1 }
    if q.running then (q, []) else drainLoop { q with running := true }

def drain : PriorityQueue × List (Effect V) :=
  let promise := q.drains
  let q := { q with drains := q.drains + 1 }
  if q.running = false ∧ q.heap = [] then (q, [.drained promise])
  else ({ q with drainResolvers := q.drainResolvers ++ [promise] }, [])

def shutdown : PriorityQueue × List (Effect V) := drain { q with closed := true }

/-- What a `_drain` does after its task has succeeded or failed; a task that throws at once fails at once. -/
def settle (item : HeapItem) (outcome : Outcome V) : PriorityQueue × List (Effect V) :=
  let (q, effects) := drainLoop q
  (q, .settled item outcome :: effects)

end Queue

section Statement

variable {V : Type}

/-- A task may call the queue while it runs, also before its function returns. -/
inductive Event (V : Type)
  | enqueue (priority : RequestPriority)
  | settled (k : Nat) (outcome : Outcome V)
  | drain
  | shutdown

/-- The tasks that were accepted, in order, and those that were started are kept beside the queue. -/
structure History where
  queue : PriorityQueue := {}
  accepted : List HeapItem := []
  started : List HeapItem := []

def startedIn (effects : List (Effect V)) : List HeapItem :=
  effects.filterMap (fun effect => match effect with | .started item => some item | _ => none)

def drainedIn (effects : List (Effect V)) : List Nat :=
  effects.filterMap (fun effect => match effect with | .drained promise => some promise | _ => none)

/-- What an event does to the queue, when it can happen. -/
def act (q : PriorityQueue) : Event V → Option (PriorityQueue × List (Effect V))
  | .enqueue priority => some (enqueue q priority)
  | .settled k outcome => q.active[k]?.map (fun item => settle { q with active := q.active.eraseIdx k } item outcome)
  | .drain => some (drain q)
  | .shutdown => some (shutdown q)

def acceptedBy (q : PriorityQueue) : Event V → List HeapItem
  | .enqueue priority => if q.closed then [] else [⟨priority, q.seq⟩]
  | _ => []

def step (h : History) (e : Event V) : Option History :=
  (act h.queue e).map (fun (queue, effects) =>
    { queue, accepted := h.accepted ++ acceptedBy h.queue e, started := h.started ++ startedIn effects })

/-- The smaller priority value, and with equal ones the earlier of the accepted. -/
def ComesFirst (a b : HeapItem) : Prop :=
  priorityValue a.priority < priorityValue b.priority ∨
    priorityValue a.priority = priorityValue b.priority ∧ a.seq ≤ b.seq

structure Scheduled (h : History) : Prop where
  numbered : h.accepted.map HeapItem.seq = List.range h.accepted.length
  /-- Each accepted task waits or was started, and once. -/
  once : (h.started ++ h.queue.heap).Perm h.accepted
  single : h.queue.active.length ≤ 1
  busy : h.queue.heap ≠ [] → h.queue.active ≠ []

/-- What is started at a step comes first of all that wait, and what drained then leaves nothing to do. -/
structure Lawful (h : History) (e : Event V) : Prop where
  scheduled : ∀ h', step h e = some h' → Scheduled h'
  least : ∀ q effects, act h.queue e = some (q, effects) → ∀ item ∈ startedIn effects, ∀ other ∈ q.heap, ComesFirst item other
  drained : ∀ q effects, act h.queue e = some (q, effects) → drainedIn effects ≠ [] → q.heap = [] ∧ q.active = []
  /-- As many completions as there are tasks left come to an end with every task started. -/
  finishes : ∀ h', step h e = some h' → ∀ outcomes : List (Outcome V),
    outcomes.length = h'.queue.heap.length + h'.queue.active.length →
      ∃ h'', run step h' (outcomes.map (.settled 0)) = some h'' ∧ h''.accepted = h'.accepted ∧
        h''.queue.heap = [] ∧ h''.queue.active = [] ∧ h''.started.Perm h''.accepted

end Statement

section Loop

variable {V : Type} {q : PriorityQueue}

def key (item : HeapItem) : Nat ×ₗ Nat := toLex (priorityValue item.priority, item.seq)

theorem before_iff (a b : HeapItem) : before a b ↔ key a < key b := by
  rw [before, decide_eq_true_iff, compare, key, key, Prod.Lex.toLex_lt_toLex]
  split_ifs with h <;> omega

theorem comesFirst_of_le {a b : HeapItem} (h : key a ≤ key b) : ComesFirst a b := by
  rwa [key, key, Prod.Lex.toLex_le_toLex] at h

inductive Continued (q : PriorityQueue) : PriorityQueue × List (Effect V) → Prop
  | started (item : HeapItem) (heap : List HeapItem) (hperm : (item :: heap).Perm q.heap) (hordered : Ordered key heap)
      (hleast : ∀ other ∈ heap, ComesFirst item other) :
      Continued q ({ q with heap, active := q.active ++ [item] }, [.started item])
  | ended (hheap : q.heap = []) :
      Continued q ({ q with running := false, drainResolvers := [] }, q.drainResolvers.map .drained)

theorem continued (h : Ordered key q.heap) : Continued (V := V) q (drainLoop q) := by
  unfold drainLoop
  cases hpop : pop before q.heap with
  | none => exact .ended (pop_eq_none_iff.mp hpop)
  | some result =>
      obtain ⟨item, heap⟩ := result
      exact .started item heap (pop_perm hpop) (pop_ordered before_iff h hpop)
        (fun other hother => comesFirst_of_le (pop_least h hpop other hother))

end Loop

section Invariant

variable {V : Type} {h : History} {q : PriorityQueue}

structure Inv (h : History) : Prop where
  numbered : h.accepted.map HeapItem.seq = List.range h.queue.seq
  once : (h.started ++ h.queue.heap).Perm h.accepted
  ordered : Ordered key h.queue.heap
  /-- One `_drain` awaits its item, or there is nothing to do. -/
  loop : h.queue.running = true ∧ h.queue.active.length = 1 ∨
    h.queue.running = false ∧ h.queue.heap = [] ∧ h.queue.active = [] ∧ h.queue.drainResolvers = []

theorem start_inv : Inv {} where
  numbered := rfl
  once := List.Perm.refl _
  ordered := ordered_nil
  loop := .inr ⟨rfl, rfl, rfl, rfl⟩

theorem Inv.scheduled (hinv : Inv h) : Scheduled h where
  numbered := by
    have hlength : h.accepted.length = h.queue.seq := by
      have hlength := congrArg List.length hinv.numbered
      rwa [List.length_map, List.length_range] at hlength
    rw [hinv.numbered, hlength]
  once := hinv.once
  single := by
    rcases hinv.loop with ⟨-, hactive⟩ | ⟨-, -, hactive, -⟩
    · exact hactive.le
    · rw [hactive]
      exact Nat.zero_le 1
  busy := by
    intro hheap hactive
    rcases hinv.loop with ⟨-, hone⟩ | ⟨-, hempty, -⟩
    · rw [hactive] at hone
      cases hone
    · exact hheap hempty

/-- What holds after an event with these effects. -/
structure Turned (accepted started : List HeapItem) (result : PriorityQueue × List (Effect V)) : Prop where
  inv : Inv ⟨result.1, accepted, started ++ startedIn result.2⟩
  least : ∀ item ∈ startedIn result.2, ∀ other ∈ result.1.heap, ComesFirst item other
  drained : drainedIn result.2 ≠ [] → result.1.heap = [] ∧ result.1.active = []

theorem startedIn_map_drained (promises : List Nat) : startedIn (V := V) (promises.map .drained) = [] := by
  rw [startedIn, List.filterMap_map, List.filterMap_eq_nil_iff]
  exact fun _ _ => rfl

/-- The loop goes on from where its last task has come to an end. -/
theorem turned_drainLoop {accepted started : List HeapItem} (hrunning : q.running = true) (hactive : q.active = [])
    (hordered : Ordered key q.heap) (hnumbered : accepted.map HeapItem.seq = List.range q.seq)
    (honce : (started ++ q.heap).Perm accepted) : Turned (V := V) accepted started (drainLoop q) := by
  have hcontinued := continued (V := V) hordered
  generalize drainLoop q = result at hcontinued ⊢
  cases hcontinued with
  | started item heap hperm hordered' hleast =>
      refine {
        inv := ⟨hnumbered, ?_, hordered', .inl ⟨hrunning, ?_⟩⟩
        least := fun other hother => by rwa [List.mem_singleton.mp hother]
        drained := fun hne => absurd rfl hne }
      · change ((started ++ [item]) ++ heap).Perm accepted
        rw [List.append_assoc]
        exact (hperm.append_left started).trans honce
      · change (q.active ++ [item]).length = 1
        rw [hactive]
        rfl
  | ended hheap =>
      refine {
        inv := ⟨hnumbered, ?_, hordered, .inr ⟨rfl, hheap, hactive, rfl⟩⟩
        least := fun item hitem => ?_
        drained := fun _ => ⟨hheap, hactive⟩ }
      · change (started ++ startedIn (V := V) (q.drainResolvers.map .drained) ++ q.heap).Perm accepted
        rwa [startedIn_map_drained, List.append_nil]
      · rw [startedIn_map_drained] at hitem
        cases hitem

theorem turned_enqueue (hinv : Inv h) (priority : RequestPriority) :
    Turned (V := V) (h.accepted ++ acceptedBy (V := V) h.queue (.enqueue priority)) h.started (enqueue h.queue priority) := by
  unfold enqueue acceptedBy
  dsimp only
  cases h.queue.closed with
  | true =>
      refine ⟨?_, fun _ hitem => absurd hitem List.not_mem_nil, fun hne => absurd rfl hne⟩
      change Inv ⟨h.queue, h.accepted ++ [], h.started ++ []⟩
      rwa [List.append_nil, List.append_nil]
  | false =>
      have hordered := push_ordered before_iff hinv.ordered (⟨priority, h.queue.seq⟩ : HeapItem)
      have hnumbered : (h.accepted ++ [(⟨priority, h.queue.seq⟩ : HeapItem)]).map HeapItem.seq = List.range (h.queue.seq + 1) := by
        rw [List.map_append, hinv.numbered, List.range_succ]
        rfl
      have honce : (h.started ++ push before h.queue.heap ⟨priority, h.queue.seq⟩).Perm
          (h.accepted ++ [⟨priority, h.queue.seq⟩]) := by
        refine ((push_perm before h.queue.heap _).append_left h.started).trans ?_
        exact List.perm_middle.trans ((hinv.once.cons _).trans (List.perm_append_singleton _ h.accepted).symm)
      rcases hinv.loop with ⟨hrunning, hactive⟩ | ⟨hrunning, -, hactive, -⟩
      · rw [if_neg Bool.false_ne_true, if_neg Bool.false_ne_true, if_pos hrunning]
        refine ⟨⟨hnumbered, ?_, hordered, .inl ⟨hrunning, hactive⟩⟩, fun _ hitem => absurd hitem List.not_mem_nil,
          fun hne => absurd rfl hne⟩
        change (h.started ++ [] ++ _).Perm _
        rwa [List.append_nil]
      · rw [if_neg Bool.false_ne_true, if_neg Bool.false_ne_true, if_neg (by rw [hrunning]; exact Bool.false_ne_true)]
        exact turned_drainLoop rfl hactive hordered hnumbered honce

theorem turned_settled (hinv : Inv h) {k : Nat} {item : HeapItem} (hitem : h.queue.active[k]? = some item)
    (outcome : Outcome V) :
    Turned h.accepted h.started (settle { h.queue with active := h.queue.active.eraseIdx k } item outcome) := by
  rcases hinv.loop with ⟨hrunning, hactive⟩ | ⟨-, -, hactive, -⟩
  · obtain ⟨only, honly⟩ := List.length_eq_one_iff.mp hactive
    have hk : k = 0 := by
      have hlt := (List.getElem?_eq_some_iff.mp hitem).1
      omega
    have herase : h.queue.active.eraseIdx k = [] := by
      rw [hk, honly]
      rfl
    have hturned := turned_drainLoop (V := V) (q := { h.queue with active := h.queue.active.eraseIdx k }) hrunning herase
      hinv.ordered hinv.numbered hinv.once
    exact ⟨hturned.inv, hturned.least, hturned.drained⟩
  · rw [hactive] at hitem
    cases hitem

theorem turned_drain (hinv : Inv h) : Turned (V := V) h.accepted h.started (drain h.queue) := by
  unfold drain
  dsimp only
  split_ifs with hidle
  · rcases hinv.loop with ⟨hrunning, -⟩ | ⟨hrunning, hheap, hactive, hresolvers⟩
    · cases hidle.1.symm.trans hrunning
    · refine ⟨⟨hinv.numbered, ?_, hinv.ordered, .inr ⟨hrunning, hheap, hactive, hresolvers⟩⟩,
        fun _ hitem => absurd hitem List.not_mem_nil, fun _ => ⟨hheap, hactive⟩⟩
      change (h.started ++ [] ++ h.queue.heap).Perm h.accepted
      rw [List.append_nil]
      exact hinv.once
  · rcases hinv.loop with hloop | ⟨hrunning, hheap, -⟩
    · refine ⟨⟨hinv.numbered, ?_, hinv.ordered, .inl hloop⟩, fun _ hitem => absurd hitem List.not_mem_nil,
        fun hne => absurd rfl hne⟩
      change (h.started ++ [] ++ h.queue.heap).Perm h.accepted
      rw [List.append_nil]
      exact hinv.once
    · exact absurd ⟨hrunning, hheap⟩ hidle

theorem turned_act (hinv : Inv h) (e : Event V) {result : PriorityQueue × List (Effect V)} (hact : act h.queue e = some result) :
    Turned (h.accepted ++ acceptedBy h.queue e) h.started result := by
  cases e with
  | enqueue priority =>
      cases hact
      exact turned_enqueue hinv priority
  | settled k outcome =>
      obtain ⟨item, hitem, rfl⟩ := Option.map_eq_some_iff.mp hact
      refine Eq.mpr (congrArg (fun accepted => Turned accepted h.started _) (List.append_nil h.accepted)) ?_
      exact turned_settled hinv hitem outcome
  | drain =>
      cases hact
      refine Eq.mpr (congrArg (fun accepted => Turned accepted h.started _) (List.append_nil h.accepted)) ?_
      exact turned_drain hinv
  | shutdown =>
      cases hact
      refine Eq.mpr (congrArg (fun accepted => Turned accepted h.started _) (List.append_nil h.accepted)) ?_
      exact turned_drain (h := { h with queue := { h.queue with closed := true } })
        ⟨hinv.numbered, hinv.once, hinv.ordered, hinv.loop⟩

theorem step_inv (h : History) (e : Event V) (h' : History) (hinv : Inv h) (hstep : step h e = some h') : Inv h' := by
  obtain ⟨result, hact, rfl⟩ := Option.map_eq_some_iff.mp hstep
  exact (turned_act hinv e hact).inv

end Invariant

section Completion

variable {V : Type}

/-- A completion is one task less. -/
theorem exists_completion {h : History} (hinv : Inv h) (hactive : h.queue.active ≠ []) (outcome : Outcome V) :
    ∃ h', step h (.settled 0 outcome) = some h' ∧ h'.accepted = h.accepted ∧
      h'.queue.heap.length + h'.queue.active.length + 1 = h.queue.heap.length + h.queue.active.length := by
  obtain ⟨item, rest, hitems⟩ := List.exists_cons_of_ne_nil hactive
  have hone : rest = [] := by
    rcases hinv.loop with ⟨-, hlength⟩ | ⟨-, -, hempty, -⟩
    · rw [hitems] at hlength
      exact List.length_eq_zero_iff.mp (Nat.succ_inj.mp hlength)
    · exact absurd hempty hactive
  subst hone
  have hact : act h.queue (.settled 0 outcome) =
      some (settle { h.queue with active := [] } item outcome) := by
    rw [act, hitems]
    rfl
  refine ⟨_, (congrArg _ hact).trans rfl, List.append_nil _, ?_⟩
  rw [hitems]
  have hcontinued := continued (V := V) (q := { h.queue with active := [] }) hinv.ordered
  change (drainLoop (V := V) _).1.heap.length + (drainLoop (V := V) _).1.active.length + 1 = _
  generalize drainLoop (V := V) { h.queue with active := [] } = result at hcontinued ⊢
  cases hcontinued with
  | started next heap hperm =>
      have hlength := hperm.length_eq
      rw [List.length_cons] at hlength
      change heap.length + 1 + 1 = h.queue.heap.length + 1
      rw [hlength]
  | ended hheap =>
      have hheap : h.queue.heap = [] := hheap
      change h.queue.heap.length + 0 + 1 = h.queue.heap.length + 1
      rw [hheap]

theorem exists_end {h : History} (hinv : Inv h) (outcomes : List (Outcome V))
    (hlength : outcomes.length = h.queue.heap.length + h.queue.active.length) :
    ∃ h', run step h (outcomes.map (.settled 0)) = some h' ∧ h'.accepted = h.accepted ∧
      h'.queue.heap = [] ∧ h'.queue.active = [] ∧ h'.started.Perm h'.accepted := by
  induction outcomes generalizing h with
  | nil =>
      have hheap : h.queue.heap = [] := List.length_eq_zero_iff.mp (by rw [List.length_nil] at hlength; omega)
      have hactive : h.queue.active = [] := List.length_eq_zero_iff.mp (by rw [List.length_nil] at hlength; omega)
      refine ⟨h, rfl, rfl, hheap, hactive, ?_⟩
      have honce := hinv.once
      rwa [hheap, List.append_nil] at honce
  | cons outcome outcomes ih =>
      have hactive : h.queue.active ≠ [] := by
        intro hempty
        have hheap : h.queue.heap = [] := by
          by_contra hne
          exact hinv.scheduled.busy hne hempty
        rw [hempty, hheap] at hlength
        cases hlength
      obtain ⟨next, hstep, haccepted, hless⟩ := exists_completion hinv hactive outcome
      rw [List.length_cons] at hlength
      obtain ⟨h', hrun, hsame, hrest⟩ := ih (step_inv h _ next hinv hstep) (by omega)
      exact ⟨h', run_step hstep hrun, hsame.trans haccepted, hrest⟩

theorem lawful_of_inv {h : History} (hinv : Inv h) (e : Event V) : Lawful h e where
  scheduled h' hstep := (step_inv h e h' hinv hstep).scheduled
  least _ _ hact := (turned_act hinv e hact).least
  drained _ _ hact := (turned_act hinv e hact).drained
  finishes h' hstep := exists_end (step_inv h e h' hinv hstep)

end Completion

end SplitSdk.PriorityScheduling
