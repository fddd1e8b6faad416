import SplitSdk.Interleaving
import SplitSdk.StableSorting

namespace SplitSdk.OperationDraining

open Interleaving StableSorting

section Queue

inductive OperationPriority
  | low
  | normal
  | high
  deriving DecidableEq

def priorityValue : OperationPriority → Nat
  | .low => 1
  | .normal => 5
  | .high => 10

/-- An operation is known by its number. -/
structure QueuedOperation where
  priority : OperationPriority
  id : Nat
  deriving DecidableEq

inductive Outcome (V : Type)
  | resolved (value : V)
  | rejected (error : V)

/-- A `_drain` that runs awaits the operation that it has taken. -/
structure OperationQueue where
  queue : List QueuedOperation := []
  online : Bool := true
  nextId : Nat := 0
  draining : List QueuedOperation := []

inductive Effect (V : Type)
  | started (op : QueuedOperation)
  | settled (op : QueuedOperation) (outcome : Outcome V)

variable {V : Type} (q : OperationQueue)

/-- The loop of `_drain` up to its next `await` or its end. -/
def drainLoop : OperationQueue × List (Effect V) :=
  match q.queue with
  | [] => (q, [])
  | op :: queue => ({ q with queue, draining := q.draining ++ [op] }, [.started op])

def descending (a b : QueuedOperation) : Bool := priorityValue b.priority ≤ priorityValue a.priority

def drain : OperationQueue × List (Effect V) := drainLoop { q with queue := q.queue.mergeSort descending }

def enqueue (priority : OperationPriority) : OperationQueue × List (Effect V) :=
  let op := { priority, id := q.nextId }
  let q := { q with nextId := q.nextId + 1 }
  if q.online then (q, [.started op]) else ({ q with queue := q.queue ++ [op] }, [])

def setOnline (online : Bool) : OperationQueue × List (Effect V) :=
  let wasOffline := !q.online
  let q := { q with online }
  if online && wasOffline then drain q else (q, [])

/-- What a `_drain` does after its operation has succeeded or failed; one that throws at once fails at once. -/
def settle (op : QueuedOperation) (outcome : Outcome V) : OperationQueue × List (Effect V) :=
  let (q, effects) := drainLoop q
  (q, .settled op outcome :: effects)

end Queue

section Statement

variable {V : Type}

/-- A poll ends in `setOnline`. An operation that was started on arrival settles without the queue. -/
inductive Event (V : Type)
  | enqueue (priority : OperationPriority)
  | setOnline (online : Bool)
  | settled (k : Nat) (outcome : Outcome V)

/-- The operations that were enqueued, in order, and those that were started are kept beside the queue. -/
structure History where
  queue : OperationQueue := {}
  enqueued : List QueuedOperation := []
  started : List QueuedOperation := []

def startedIn (effects : List (Effect V)) : List QueuedOperation :=
  effects.filterMap (fun effect => match effect with | .started op => some op | _ => none)

/-- What an event does to the queue, when it can happen. -/
def act (q : OperationQueue) : Event V → Option (OperationQueue × List (Effect V))
  | .enqueue priority => some (enqueue q priority)
  | .setOnline online => some (setOnline q online)
  | .settled k outcome =>
      q.draining[k]?.map (fun op => settle { q with draining := q.draining.eraseIdx k } op outcome)

def enqueuedBy (q : OperationQueue) : Event V → List QueuedOperation
  | .enqueue priority => [⟨priority, q.nextId⟩]
  | _ => []

def step (h : History) (e : Event V) : Option History :=
  (act h.queue e).map (fun (queue, effects) =>
    { queue, enqueued := h.enqueued ++ enqueuedBy h.queue e, started := h.started ++ startedIn effects })

/-- The higher priority, and with equal ones the earlier of the enqueued. -/
def ComesFirst (a b : QueuedOperation) : Prop :=
  priorityValue b.priority < priorityValue a.priority ∨
    priorityValue a.priority = priorityValue b.priority ∧ a.id ≤ b.id

structure Accounted (h : History) : Prop where
  numbered : h.enqueued.map QueuedOperation.id = List.range h.enqueued.length
  /-- Each operation is buffered or was started, and once. -/
  once : (h.started ++ h.queue.queue).Perm h.enqueued
  busy : h.queue.online = true → h.queue.queue ≠ [] → h.queue.draining ≠ []

structure Lawful (h : History) (e : Event V) : Prop where
  accounted : ∀ h', step h e = some h' → Accounted h'
  online : ∀ q effects, act h.queue e = some (q, effects) → startedIn effects ≠ [] → q.online = true
  first : ∀ q effects, act h.queue e = some (q, effects) → ∀ op ∈ startedIn effects, ∀ other ∈ q.queue, ComesFirst op other
  /-- While the queue is online, as many completions as there are operations left come to an end with every one started. -/
  finishes : ∀ h', step h e = some h' → h'.queue.online = true → ∀ outcomes : List (Outcome V),
    outcomes.length = h'.queue.queue.length + h'.queue.draining.length →
      ∃ h'', run step h' (outcomes.map (.settled 0)) = some h'' ∧ h''.enqueued = h'.enqueued ∧
        h''.queue.queue = [] ∧ h''.queue.draining = [] ∧ h''.started.Perm h''.enqueued

/-- What arrives online has a higher priority than all that is buffered; and when an operation is done while others are
buffered, the queue is online and the first of these comes first. -/
def Spares (h : History) : Event V → Prop
  | .enqueue priority =>
      h.queue.online = true → ∀ other ∈ h.queue.queue, priorityValue other.priority < priorityValue priority
  | .setOnline _ => True
  | .settled k _ => k < h.queue.draining.length → ∀ op rest, h.queue.queue = op :: rest →
      h.queue.online = true ∧ ∀ other ∈ rest, ComesFirst op other

end Statement

section Invariant

variable {V : Type} {q : OperationQueue} {enqueued started : List QueuedOperation}

structure Kept (h : History) : Prop where
  numbered : h.enqueued.map QueuedOperation.id = List.range h.queue.nextId
  once : (h.started ++ h.queue.queue).Perm h.enqueued
  /-- Operations of one priority are buffered in the order in which they came. -/
  arrival : ∀ value, (h.queue.queue.filter (fun op => priorityValue op.priority = value)).Pairwise (fun a b => a.id < b.id)
  older : ∀ op ∈ h.queue.queue, op.id < h.queue.nextId

structure Inv (h : History) : Prop extends Kept h where
  busy : h.queue.online = true → h.queue.queue ≠ [] → h.queue.draining ≠ []

theorem start_inv : Inv {} where
  numbered := rfl
  once := List.Perm.refl _
  busy _ hne := absurd rfl hne
  arrival _ := List.Pairwise.nil
  older _ hop := absurd hop List.not_mem_nil

theorem Inv.accounted {h : History} (hinv : Inv h) : Accounted h where
  numbered := by
    have hlength : h.enqueued.length = h.queue.nextId := by
      have hlength := congrArg List.length hinv.numbered
      rwa [List.length_map, List.length_range] at hlength
    rw [hinv.numbered, hlength]
  once := hinv.once
  busy := hinv.busy

/-- The loop takes the first operation of the buffer. -/
theorem inv_drainLoop (hkept : Kept ⟨q, enqueued, started⟩) :
    Inv ⟨(drainLoop (V := V) q).1, enqueued, started ++ startedIn (drainLoop (V := V) q).2⟩ := by
  obtain ⟨hnumbered, honce, harrival, holder⟩ := hkept
  unfold drainLoop
  cases hqueue : q.queue with
  | nil =>
      refine ⟨⟨hnumbered, ?_, harrival, holder⟩, fun _ hne => absurd hqueue hne⟩
      change (started ++ [] ++ q.queue).Perm enqueued
      rwa [List.append_nil]
  | cons op rest =>
      dsimp only at honce harrival holder
      rw [hqueue] at honce harrival holder
      refine ⟨⟨hnumbered, ?_, fun value => ?_, fun other hother => holder other (List.mem_cons_of_mem _ hother)⟩, fun _ _ => ?_⟩
      · change ((started ++ [op]) ++ rest).Perm enqueued
        rwa [List.append_assoc]
      · exact (harrival value).sublist ((List.sublist_cons_self op rest).filter _)
      · exact List.append_ne_nil_of_right_ne_nil _ (List.cons_ne_nil op [])

theorem descending_trans (a b c : QueuedOperation) (hab : descending a b) (hbc : descending b c) : descending a c :=
  decide_eq_true (le_trans (of_decide_eq_true hbc) (of_decide_eq_true hab))

theorem descending_total (a b : QueuedOperation) : descending a b || descending b a := by
  rcases le_total (priorityValue a.priority) (priorityValue b.priority) with hle | hle
  · exact Bool.or_eq_true_iff.mpr (Or.inr (decide_eq_true hle))
  · exact Bool.or_eq_true_iff.mpr (Or.inl (decide_eq_true hle))

theorem Kept.sorted (hkept : Kept ⟨q, enqueued, started⟩) :
    Kept ⟨{ q with queue := q.queue.mergeSort descending }, enqueued, started⟩ where
  numbered := hkept.numbered
  once := ((List.mergeSort_perm q.queue descending).append_left started).trans hkept.once
  arrival value := by
    change ((q.queue.mergeSort descending).filter (fun op => priorityValue op.priority = value)).Pairwise _
    rw [filter_mergeSort descending_trans descending_total]
    · exact hkept.arrival value
    · intro a _ b _ ha hb
      exact decide_eq_true (le_of_eq ((of_decide_eq_true hb).trans (of_decide_eq_true ha).symm))
  older op hop := hkept.older op ((List.mergeSort_perm q.queue descending).mem_iff.mp hop)

/-- The sorted buffer is in the order in which its operations are due. -/
theorem Kept.sorted_comesFirst (hkept : Kept ⟨q, enqueued, started⟩) :
    (q.queue.mergeSort descending).Pairwise ComesFirst := by
  refine pairwise_mergeSort_of_classes descending_trans descending_total (fun op => priorityValue op.priority)
    (fun a b hsame => decide_eq_true (le_of_eq hsame.symm)) (fun a b hle hne => ?_) (fun value => ?_)
  · exact Or.inl (lt_of_le_of_ne (of_decide_eq_true hle) (Ne.symm hne))
  · refine (hkept.arrival value).imp_of_mem (fun {a b} ha hb hlt => Or.inr ⟨?_, le_of_lt hlt⟩)
    exact (of_decide_eq_true (List.mem_filter.mp ha).2).trans (of_decide_eq_true (List.mem_filter.mp hb).2).symm

theorem inv_enqueue (hinv : Inv ⟨q, enqueued, started⟩) (priority : OperationPriority) :
    Inv ⟨(enqueue (V := V) q priority).1, enqueued ++ [QueuedOperation.mk priority q.nextId],
      started ++ startedIn (enqueue (V := V) q priority).2⟩ := by
  have hnumbered : (enqueued ++ [QueuedOperation.mk priority q.nextId]).map QueuedOperation.id = List.range (q.nextId + 1) := by
    rw [List.map_append, hinv.numbered, List.range_succ]
    rfl
  have holder : ∀ op ∈ q.queue, op.id < q.nextId + 1 := fun op hop => Nat.lt_succ_of_lt (hinv.older op hop)
  unfold enqueue
  by_cases honline : q.online = true
  · simp only [honline, if_true]
    refine ⟨⟨hnumbered, ?_, hinv.arrival, holder⟩, fun _ => hinv.busy honline⟩
    change ((started ++ [QueuedOperation.mk priority q.nextId]) ++ q.queue).Perm (enqueued ++ [QueuedOperation.mk priority q.nextId])
    rw [List.append_assoc]
    refine (List.Perm.append_left started List.perm_append_comm).trans ?_
    rw [← List.append_assoc]
    exact hinv.once.append_right _
  · simp only [honline, if_false, Bool.false_eq_true]
    refine ⟨⟨hnumbered, ?_, fun value => ?_, fun op hop => ?_⟩, fun hon => absurd hon Bool.false_ne_true⟩
    · change ((started ++ []) ++ (q.queue ++ [QueuedOperation.mk priority q.nextId])).Perm (enqueued ++ [QueuedOperation.mk priority q.nextId])
      rw [List.append_nil, ← List.append_assoc]
      exact hinv.once.append_right _
    · rw [List.filter_append]
      refine List.pairwise_append.mpr ⟨hinv.arrival value, ?_, fun a ha b hb => ?_⟩
      · exact (List.pairwise_singleton _ _).sublist List.filter_sublist
      · cases List.mem_singleton.mp (List.mem_filter.mp hb).1
        exact hinv.older a (List.mem_filter.mp ha).1
    · rcases List.mem_append.mp hop with hold | hnew
      · exact holder op hold
      · cases List.mem_singleton.mp hnew
        exact Nat.lt_succ_self _

theorem inv_setOnline (hinv : Inv ⟨q, enqueued, started⟩) (online : Bool) :
    Inv ⟨(setOnline (V := V) q online).1, enqueued, started ++ startedIn (setOnline (V := V) q online).2⟩ := by
  have hkept : Kept ⟨{ q with online }, enqueued, started⟩ := ⟨hinv.numbered, hinv.once, hinv.arrival, hinv.older⟩
  unfold setOnline
  by_cases hdrain : (online && !q.online) = true
  · simp only [hdrain, if_true]
    exact inv_drainLoop hkept.sorted
  · simp only [hdrain, if_false, Bool.false_eq_true]
    refine ⟨⟨hkept.numbered, ?_, hkept.arrival, hkept.older⟩, fun (hon : online = true) => hinv.busy ?_⟩
    · change (started ++ [] ++ q.queue).Perm enqueued
      rw [List.append_nil]
      exact hkept.once
    · change q.online = true
      cases honline : q.online with
      | true => rfl
      | false => exact absurd (by rw [hon, honline]; rfl) hdrain

theorem inv_act {h : History} (hinv : Inv h) {e : Event V} {result : OperationQueue × List (Effect V)}
    (hact : act h.queue e = some result) :
    Inv ⟨result.1, h.enqueued ++ enqueuedBy h.queue e, h.started ++ startedIn result.2⟩ := by
  cases e with
  | enqueue priority =>
      obtain rfl := Option.some.inj hact
      exact inv_enqueue hinv priority
  | setOnline online =>
      obtain rfl := Option.some.inj hact
      have hnext := inv_setOnline (V := V) hinv online
      rwa [← List.append_nil h.enqueued] at hnext
  | settled k outcome =>
      obtain ⟨op, -, rfl⟩ := Option.map_eq_some_iff.mp hact
      have hkept : Kept ⟨{ h.queue with draining := h.queue.draining.eraseIdx k }, h.enqueued, h.started⟩ :=
        ⟨hinv.numbered, hinv.once, hinv.arrival, hinv.older⟩
      have hnext := inv_drainLoop (V := V) hkept
      rwa [← List.append_nil h.enqueued] at hnext

theorem inv_step (h : History) (e : Event V) (h' : History) (hinv : Inv h) (hstep : step h e = some h') : Inv h' := by
  obtain ⟨result, hact, rfl⟩ := Option.map_eq_some_iff.mp hstep
  exact inv_act hinv hact

end Invariant

section Completion

variable {V : Type}

/-- A completion leaves one operation fewer. -/
theorem settled_next {h : History} (hinv : Inv h) (honline : h.queue.online = true) {n : Nat}
    (hleft : n + 1 = h.queue.queue.length + h.queue.draining.length) (outcome : Outcome V) :
    ∃ h', step h (.settled 0 outcome) = some h' ∧ h'.queue.online = true ∧ h'.enqueued = h.enqueued ∧
      n = h'.queue.queue.length + h'.queue.draining.length := by
  obtain ⟨⟨queue, online, nextId, draining⟩, enqueued, started⟩ := h
  cases draining with
  | nil =>
      have hne : queue ≠ [] := by
        rintro rfl
        cases hleft
      exact absurd rfl (hinv.busy honline hne)
  | cons op draining =>
      refine ⟨_, rfl, ?_⟩
      cases queue with
      | nil => exact ⟨honline, List.append_nil _, Nat.succ_inj.mp hleft⟩
      | cons next queue =>
          refine ⟨honline, List.append_nil _, ?_⟩
          change n = queue.length + (draining ++ [next]).length
          rw [List.length_append, List.length_singleton]
          simp only [List.length_cons] at hleft
          omega

theorem finishes {h : History} (hinv : Inv h) (honline : h.queue.online = true) {outcomes : List (Outcome V)}
    (hlength : outcomes.length = h.queue.queue.length + h.queue.draining.length) :
    ∃ h', run step h (outcomes.map (.settled 0)) = some h' ∧ h'.enqueued = h.enqueued ∧
      h'.queue.queue = [] ∧ h'.queue.draining = [] ∧ h'.started.Perm h'.enqueued := by
  induction outcomes generalizing h with
  | nil =>
      obtain ⟨hqueue, hdraining⟩ := Nat.add_eq_zero_iff.mp hlength.symm
      rw [List.length_eq_zero_iff] at hqueue hdraining
      have honce := hinv.once
      rw [hqueue, List.append_nil] at honce
      exact ⟨h, rfl, rfl, hqueue, hdraining, honce⟩
  | cons outcome outcomes ih =>
      obtain ⟨next, hstep, honline', henqueued, hleft⟩ := settled_next hinv honline hlength outcome
      obtain ⟨last, hrun, hsame, hend⟩ := ih (inv_step h _ next hinv hstep) honline' hleft
      exact ⟨last, run_step hstep hrun, hsame.trans henqueued, hend⟩

end Completion

section Condition

variable {V : Type} {q : OperationQueue} {enqueued started : List QueuedOperation}

/-- What is started is started online and comes before all that stays in the buffer. -/
def Orderly (result : OperationQueue × List (Effect V)) : Prop :=
  (startedIn result.2 ≠ [] → result.1.online = true) ∧
    ∀ op ∈ startedIn result.2, ∀ other ∈ result.1.queue, ComesFirst op other

theorem orderly_drainLoop_iff : Orderly (drainLoop (V := V) q) ↔
    ∀ op rest, q.queue = op :: rest → q.online = true ∧ ∀ other ∈ rest, ComesFirst op other := by
  unfold drainLoop
  cases hqueue : q.queue with
  | nil =>
      constructor
      · intro _ op rest hcons
        cases hcons
      · intro _
        exact ⟨fun hne => absurd rfl hne, fun op hop => absurd hop List.not_mem_nil⟩
  | cons op rest =>
      constructor
      · rintro ⟨honline, hfirst⟩ op' rest' hcons
        cases hcons
        exact ⟨honline (List.cons_ne_nil op []), hfirst op (List.mem_singleton_self op)⟩
      · intro hhead
        obtain ⟨honline, hfirst⟩ := hhead op rest rfl
        refine ⟨fun _ => honline, fun op' hop' => ?_⟩
        cases List.mem_singleton.mp hop'
        exact hfirst

theorem orderly_settle_iff (op : QueuedOperation) (outcome : Outcome V) :
    Orderly (settle q op outcome) ↔ Orderly (drainLoop (V := V) q) := Iff.rfl

/-- A new operation comes after those of its priority. -/
theorem orderly_enqueue_iff (hinv : Inv ⟨q, enqueued, started⟩) (priority : OperationPriority) :
    Orderly (enqueue (V := V) q priority) ↔
      (q.online = true → ∀ other ∈ q.queue, priorityValue other.priority < priorityValue priority) := by
  unfold enqueue
  by_cases honline : q.online = true
  · simp only [honline, if_true]
    constructor
    · rintro ⟨-, hfirst⟩ - other hother
      rcases hfirst _ (List.mem_singleton_self _) other hother with hlt | ⟨-, hle⟩
      · exact hlt
      · exact absurd (hinv.older other hother) (Nat.not_lt.mpr hle)
    · intro hless
      refine ⟨fun _ => rfl, fun op hop other hother => ?_⟩
      cases List.mem_singleton.mp hop
      exact Or.inl (hless trivial other hother)
  · simp only [honline, if_false, Bool.false_eq_true, false_implies, iff_true]
    exact ⟨fun hne => absurd rfl hne, fun op hop => absurd hop List.not_mem_nil⟩

theorem orderly_setOnline (hinv : Inv ⟨q, enqueued, started⟩) (online : Bool) : Orderly (setOnline (V := V) q online) := by
  unfold setOnline
  by_cases hdrain : (online && !q.online) = true
  · simp only [hdrain, if_true]
    refine orderly_drainLoop_iff.mpr (fun op rest hcons => ⟨(Bool.and_eq_true_iff.mp hdrain).1, ?_⟩)
    have hsorted := hinv.toKept.sorted_comesFirst
    rw [show q.queue.mergeSort descending = op :: rest from hcons] at hsorted
    exact (List.pairwise_cons.mp hsorted).1
  · simp only [hdrain, if_false, Bool.false_eq_true]
    exact ⟨fun hne => absurd rfl hne, fun op hop => absurd hop List.not_mem_nil⟩

theorem lawful_iff_orderly {h : History} (hinv : Inv h) (e : Event V) :
    Lawful h e ↔ ∀ result, act h.queue e = some result → Orderly result := by
  constructor
  · rintro hlawful ⟨q, effects⟩ hact
    exact ⟨hlawful.online q effects hact, hlawful.first q effects hact⟩
  · intro horderly
    exact {
      accounted := fun h' hstep => (inv_step h e h' hinv hstep).accounted
      online := fun q effects hact => (horderly (q, effects) hact).1
      first := fun q effects hact => (horderly (q, effects) hact).2
      finishes := fun h' hstep honline outcomes hlength => finishes (inv_step h e h' hinv hstep) honline hlength }

theorem lawful_iff (h : History) (e : Event V) (hinv : Inv h) : Lawful h e ↔ Spares h e := by
  rw [lawful_iff_orderly hinv]
  cases e with
  | enqueue priority =>
      constructor
      · intro horderly
        exact (orderly_enqueue_iff hinv priority).mp (horderly _ rfl)
      · rintro hspares result hact
        obtain rfl := Option.some.inj hact
        exact (orderly_enqueue_iff hinv priority).mpr hspares
  | setOnline online =>
      refine iff_of_true (fun result hact => ?_) trivial
      obtain rfl := Option.some.inj hact
      exact orderly_setOnline hinv online
  | settled k outcome =>
      constructor
      · intro horderly hlt op rest hcons
        have hact : act h.queue (.settled k outcome) =
            some (settle { h.queue with draining := h.queue.draining.eraseIdx k } h.queue.draining[k] outcome) := by
          change h.queue.draining[k]?.map _ = _
          rw [List.getElem?_eq_getElem hlt]
          rfl
        exact orderly_drainLoop_iff.mp ((orderly_settle_iff _ outcome).mp (horderly _ hact)) op rest hcons
      · intro hspares result hact
        obtain ⟨op, hop, rfl⟩ := Option.map_eq_some_iff.mp hact
        rw [orderly_settle_iff]
        exact orderly_drainLoop_iff.mpr (hspares (List.getElem?_eq_some_iff.mp hop).1)

/-- Every operation is started once, online and in its turn, just when none arrives online before its turn and no
buffered one is due offline or late. -/
theorem operations_drain_iff (events : List (Event V)) :
    Allowed step Lawful {} events ↔ Allowed step Spares {} events :=
  allowed_iff (fun h e h' hinv _ => inv_step h e h' hinv) lawful_iff start_inv events

theorem drain_singleton (op : QueuedOperation) (online : Bool) (nextId : Nat) :
    drain (V := V) ⟨[op], online, nextId, []⟩ = (⟨[], online, nextId, [op]⟩, [.started op]) := by
  change drainLoop { queue := [op].mergeSort descending, online, nextId } = _
  rw [List.mergeSort_singleton]
  rfl

/-- The queue goes offline again while its first operation is under way, and the next one starts all the same. -/
theorem operations_drain_fail :
    ¬∀ events : List (Event Unit), Allowed step Lawful {} events := by
  intro hall
  let first : QueuedOperation := ⟨.normal, 0⟩
  let second : QueuedOperation := ⟨.normal, 1⟩
  let drained : History := ⟨⟨[], true, 1, [first]⟩, [first], [first]⟩
  let buffered : History := ⟨⟨[second], false, 2, [first]⟩, [first, second], [first]⟩
  have hact : act (V := Unit) ⟨[first], false, 1, []⟩ (.setOnline true) = some (⟨[], true, 1, [first]⟩, [.started first]) :=
    congrArg some (drain_singleton first true 1)
  have hdrained : step (V := Unit) ⟨⟨[first], false, 1, []⟩, [first], []⟩ (.setOnline true) = some drained := by
    rw [step, hact]
    rfl
  obtain ⟨-, hnext⟩ := hall
    [.setOnline false, .enqueue .normal, .setOnline true, .setOnline false, .enqueue .normal, .settled 0 (.resolved ())]
  obtain ⟨-, hnext⟩ := hnext ⟨⟨[], false, 0, []⟩, [], []⟩ rfl
  obtain ⟨-, hnext⟩ := hnext ⟨⟨[first], false, 1, []⟩, [first], []⟩ rfl
  obtain ⟨-, hnext⟩ := hnext drained hdrained
  obtain ⟨-, hnext⟩ := hnext ⟨⟨[], false, 1, [first]⟩, [first], [first]⟩ rfl
  obtain ⟨hlawful, -⟩ := hnext buffered rfl
  have honline := hlawful.online ⟨[], false, 2, [second]⟩ [.settled first (.resolved ()), .started second] rfl
  exact absurd (honline (List.cons_ne_nil second [])) Bool.false_ne_true

end Condition

end SplitSdk.OperationDraining
