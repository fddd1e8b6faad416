import SplitSdk.Interleaving
import SplitSdk.Numbers

namespace SplitSdk.RequestConcurrency

open Interleaving Numbers

section Queue

inductive PriorityLane
  | high
  | normal
  | low
  deriving DecidableEq

structure QueuedRequest where
  id : Nat
  priority : PriorityLane
  deriving DecidableEq

/-- How the promise of a request is settled. -/
inductive Outcome (V : Type)
  | resolved (value : V)
  | rejected (error : V)

/-- A request whose function was called and whose slot is still to be freed. It was called from the `enqueue` of a
request, or from a `finally`. -/
structure Call where
  request : QueuedRequest
  enqueuing : Option QueuedRequest
  settled : Bool := false

structure RequestQueue where
  activeCount : Nat := 0
  queue : PriorityLane → List QueuedRequest := fun _ => []
  running : List Call := []

inductive Effect (V : Type)
  | called (request : QueuedRequest)
  | settled (request : QueuedRequest) (outcome : Outcome V)

abbrev MaxConcurrent := {max : JsNumber // (JsNumber.finite 1).le max}

variable {V : Type} (maxConcurrent : MaxConcurrent) (q : RequestQueue)

def dequeueFrom (queue : PriorityLane → List QueuedRequest) :
    List PriorityLane → Option (QueuedRequest × (PriorityLane → List QueuedRequest))
  | [] => none
  | priority :: lanes =>
      match queue priority with
      | request :: rest => some (request, Function.update queue priority rest)
      | [] => dequeueFrom queue lanes

def dequeueNextRequest (queue : PriorityLane → List QueuedRequest) :
    Option (QueuedRequest × (PriorityLane → List QueuedRequest)) :=
  dequeueFrom queue [.high, .normal, .low]

def tryProcess (enqueuing : Option QueuedRequest) : RequestQueue × List (Effect V) :=
  if maxConcurrent.1.le (.finite q.activeCount) then (q, [])
  else
    match dequeueNextRequest q.queue with
    | none => (q, [])
    | some (request, queue) =>
        ({ activeCount := q.activeCount + 1, queue, running := q.running ++ [{ request, enqueuing }] }, [.called request])

def pushed (queue : PriorityLane → List QueuedRequest) (request : QueuedRequest) : PriorityLane → List QueuedRequest :=
  Function.update queue request.priority (queue request.priority ++ [request])

def enqueue (request : QueuedRequest) : RequestQueue × List (Effect V) :=
  tryProcess maxConcurrent { q with queue := pushed q.queue request } (some request)

/-- A function that throws leaves no promise behind, and its slot stays taken. The error rejects the promise of the
`enqueue` that it came out of. -/
def threw (k : Nat) (call : Call) (error : V) : RequestQueue × List (Effect V) :=
  ({ q with running := q.running.eraseIdx k },
    match call.enqueuing with
    | some request => [.settled request (.rejected error)]
    | none => [])

/-- The handlers in `then` and `catch`. -/
def settle (k : Nat) (call : Call) (outcome : Outcome V) : RequestQueue × List (Effect V) :=
  ({ q with running := q.running.set k { call with settled := true } }, [.settled call.request outcome])

/-- The handler in `finally`. -/
def finish (k : Nat) : RequestQueue × List (Effect V) :=
  tryProcess maxConcurrent { q with activeCount := q.activeCount - 1, running := q.running.eraseIdx k } none

end Queue

section Statement

variable {V : Type} (maxConcurrent : MaxConcurrent)

inductive Event (V : Type)
  | enqueue (priority : PriorityLane)
  | threw (k : Nat) (error : V)
  | settled (k : Nat) (outcome : Outcome V)
  | finished (k : Nat)

/-- The requests that were enqueued and those whose function was called, in order, and how promises were settled are
kept beside the queue. -/
structure History (V : Type) where
  queue : RequestQueue := {}
  enqueued : List QueuedRequest := []
  called : List QueuedRequest := []
  settled : List (QueuedRequest × Outcome V) := []

def calledIn (effects : List (Effect V)) : List QueuedRequest :=
  effects.filterMap (fun effect => match effect with | .called request => some request | _ => none)

def settledIn (effects : List (Effect V)) : List (QueuedRequest × Outcome V) :=
  effects.filterMap (fun effect => match effect with | .settled request outcome => some (request, outcome) | _ => none)

/-- The call that an event is about, when it can happen: a function throws or its promise settles, once, and then its
`finally` runs. -/
def callAt (q : RequestQueue) (k : Nat) (settled : Bool) : Option Call :=
  q.running[k]?.filter (fun call => call.settled = settled)

def act (h : History V) : Event V → Option (RequestQueue × List (Effect V))
  | .enqueue priority => some (enqueue maxConcurrent h.queue ⟨h.enqueued.length, priority⟩)
  | .threw k error => (callAt h.queue k false).map (fun call => threw h.queue k call error)
  | .settled k outcome => (callAt h.queue k false).map (fun call => settle h.queue k call outcome)
  | .finished k => (callAt h.queue k true).map (fun _ => finish maxConcurrent h.queue k)

def enqueuedBy (h : History V) : Event V → List QueuedRequest
  | .enqueue priority => [⟨h.enqueued.length, priority⟩]
  | _ => []

def step (h : History V) (e : Event V) : Option (History V) :=
  (act maxConcurrent h e).map (fun (queue, effects) =>
    { queue, enqueued := h.enqueued ++ enqueuedBy h e, called := h.called ++ calledIn effects,
      settled := h.settled ++ settledIn effects })

def waiting (queue : PriorityLane → List QueuedRequest) : List QueuedRequest :=
  queue .high ++ (queue .normal ++ queue .low)

def laneRank : PriorityLane → Nat
  | .high => 0
  | .normal => 1
  | .low => 2

/-- The more urgent lane, and in one lane the earlier of the enqueued. -/
def ComesFirst (a b : QueuedRequest) : Prop :=
  laneRank a.priority < laneRank b.priority ∨ a.priority = b.priority ∧ a.id ≤ b.id

/-- The requests that have a function under way. -/
def underWay (calls : List Call) : List QueuedRequest :=
  (calls.filter (fun call => call.settled = false)).map Call.request

structure Served (h : History V) : Prop where
  numbered : h.enqueued.map QueuedRequest.id = List.range h.enqueued.length
  /-- The function of a request is called once, or the request still waits. -/
  once : (h.called ++ waiting h.queue.queue).Perm h.enqueued
  bounded : (JsNumber.finite h.queue.running.length).le maxConcurrent
  working : waiting h.queue.queue ≠ [] → maxConcurrent.1.le (.finite h.queue.running.length)
  /-- The promise of a request is settled once, or its function is under way. -/
  delivered : (h.settled.map Prod.fst ++ underWay h.queue.running).Perm h.called
  complete : h.queue.running = [] → (h.settled.map Prod.fst).Perm h.enqueued

/-- What an event says about the outcome of a function. -/
def outcomeOf (h : History V) : Event V → List (QueuedRequest × Outcome V)
  | .threw k error => ((callAt h.queue k false).map (fun call => (call.request, .rejected error))).toList
  | .settled k outcome => ((callAt h.queue k false).map (fun call => (call.request, outcome))).toList
  | _ => []

structure Lawful (h : History V) (e : Event V) : Prop where
  served : ∀ h', step maxConcurrent h e = some h' → Served maxConcurrent h'
  first : ∀ q effects, act maxConcurrent h e = some (q, effects) →
    ∀ request ∈ calledIn effects, ∀ other ∈ waiting q.queue, ComesFirst request other
  own : ∀ q effects, act maxConcurrent h e = some (q, effects) → settledIn effects = outcomeOf h e

/-- A request that has to wait finds as many running as may run, and one that need not still fits among them; a
function throws only in the `enqueue` of a request and while no request waits; and a slot that is freed is free when
requests wait for it. -/
def Spares (h : History V) : Event V → Prop
  | .enqueue _ =>
      (maxConcurrent.1.le (.finite h.queue.activeCount) → maxConcurrent.1.le (.finite h.queue.running.length)) ∧
        (¬maxConcurrent.1.le (.finite h.queue.activeCount) →
          (JsNumber.finite (h.queue.running.length + 1 : Nat)).le maxConcurrent)
  | .threw k _ => ∀ call, callAt h.queue k false = some call → call.enqueuing ≠ none ∧ waiting h.queue.queue = []
  | .settled _ _ => True
  | .finished k => (callAt h.queue k true).isSome →
      maxConcurrent.1.le (.finite (h.queue.activeCount - 1 : Nat)) → waiting h.queue.queue = []

end Statement

section Lanes

variable {queue queue' : PriorityLane → List QueuedRequest} {request : QueuedRequest} {n : Nat}

/-- What is next leaves the rest of the requests as they wait. -/
structure Dequeued (queue : PriorityLane → List QueuedRequest) (request : QueuedRequest)
    (queue' : PriorityLane → List QueuedRequest) : Prop where
  waiting : waiting queue = request :: waiting queue'
  lanes : ∀ lane, (queue' lane).Sublist (queue lane)

theorem update_sublist {lane : PriorityLane} {rest : List QueuedRequest} (hlane : queue lane = request :: rest)
    (other : PriorityLane) : (Function.update queue lane rest other).Sublist (queue other) := by
  by_cases hsame : other = lane
  · subst hsame
    rw [Function.update_self, hlane]
    exact List.sublist_cons_self request rest
  · rw [Function.update_of_ne hsame]

theorem dequeueNextRequest_spec (queue : PriorityLane → List QueuedRequest) :
    dequeueNextRequest queue = none ∧ waiting queue = [] ∨
      ∃ request queue', dequeueNextRequest queue = some (request, queue') ∧ Dequeued queue request queue' := by
  unfold dequeueNextRequest
  cases hhigh : queue .high with
  | cons request rest =>
      refine .inr ⟨request, Function.update queue .high rest, ?_, ?_, update_sublist hhigh⟩
      · simp only [dequeueFrom, hhigh]
      · simp [waiting, hhigh]
  | nil =>
      cases hnormal : queue .normal with
      | cons request rest =>
          refine .inr ⟨request, Function.update queue .normal rest, ?_, ?_, update_sublist hnormal⟩
          · simp only [dequeueFrom, hhigh, hnormal]
          · simp [waiting, hhigh, hnormal]
      | nil =>
          cases hlow : queue .low with
          | cons request rest =>
              refine .inr ⟨request, Function.update queue .low rest, ?_, ?_, update_sublist hlow⟩
              · simp only [dequeueFrom, hhigh, hnormal, hlow]
              · simp [waiting, hhigh, hnormal, hlow]
          | nil =>
              refine .inl ⟨?_, ?_⟩
              · simp only [dequeueFrom, hhigh, hnormal, hlow]
              · simp [waiting, hhigh, hnormal, hlow]

theorem mem_waiting_iff : request ∈ waiting queue ↔ ∃ lane, request ∈ queue lane := by
  simp only [waiting, List.mem_append]
  constructor
  · rintro (hmem | hmem | hmem)
    · exact ⟨.high, hmem⟩
    · exact ⟨.normal, hmem⟩
    · exact ⟨.low, hmem⟩
  · rintro ⟨lane, hmem⟩
    cases lane with
    | high => exact .inl hmem
    | normal => exact .inr (.inl hmem)
    | low => exact .inr (.inr hmem)

/-- The requests of a lane are in the order of their numbers, all of them below `n`. -/
structure InLanes (n : Nat) (queue : PriorityLane → List QueuedRequest) : Prop where
  priority : ∀ lane, ∀ request ∈ queue lane, request.priority = lane
  order : ∀ lane, (queue lane).Pairwise (fun a b => a.id < b.id)
  older : ∀ lane, ∀ request ∈ queue lane, request.id < n

theorem InLanes.sublist (h : InLanes n queue) (hlanes : ∀ lane, (queue' lane).Sublist (queue lane)) : InLanes n queue' where
  priority lane request hmem := h.priority lane request ((hlanes lane).subset hmem)
  order lane := (h.order lane).sublist (hlanes lane)
  older lane request hmem := h.older lane request ((hlanes lane).subset hmem)

theorem mem_pushed {other : QueuedRequest} {lane : PriorityLane} (hmem : other ∈ pushed queue request lane) :
    other ∈ queue lane ∨ lane = request.priority ∧ other = request := by
  unfold pushed at hmem
  by_cases hsame : lane = request.priority
  · subst hsame
    rw [Function.update_self] at hmem
    exact (List.mem_append.mp hmem).imp id (fun hnew => ⟨rfl, List.mem_singleton.mp hnew⟩)
  · rw [Function.update_of_ne hsame] at hmem
    exact .inl hmem

theorem InLanes.pushed (h : InLanes n queue) (priority : PriorityLane) : InLanes (n + 1) (pushed queue ⟨n, priority⟩) where
  priority lane other hmem := by
    rcases mem_pushed hmem with hold | ⟨rfl, rfl⟩
    · exact h.priority lane other hold
    · rfl
  order lane := by
    unfold RequestConcurrency.pushed
    by_cases hsame : lane = priority
    · subst hsame
      rw [Function.update_self]
      refine List.pairwise_append.mpr ⟨h.order lane, List.pairwise_singleton _ _, fun a ha b hb => ?_⟩
      cases List.mem_singleton.mp hb
      exact h.older lane a ha
    · rw [Function.update_of_ne hsame]
      exact h.order lane
  older lane other hmem := by
    rcases mem_pushed hmem with hold | ⟨-, rfl⟩
    · exact Nat.lt_succ_of_lt (h.older lane other hold)
    · exact Nat.lt_succ_self n

theorem waiting_pushed (queue : PriorityLane → List QueuedRequest) (request : QueuedRequest) :
    (waiting (pushed queue request)).Perm (waiting queue ++ [request]) := by
  obtain ⟨id, priority⟩ := request
  cases priority with
  | high =>
      simp only [waiting, pushed, Function.update_self, ne_eq, reduceCtorEq, not_false_eq_true, Function.update_of_ne]
      rw [List.append_assoc, List.append_assoc]
      exact List.Perm.append_left _ List.perm_append_comm
  | normal =>
      simp only [waiting, pushed, Function.update_self, ne_eq, reduceCtorEq, not_false_eq_true, Function.update_of_ne]
      rw [List.append_assoc, List.append_assoc, List.append_assoc]
      exact List.Perm.append_left _ (List.Perm.append_left _ List.perm_append_comm)
  | low =>
      simp only [waiting, pushed, Function.update_self, ne_eq, reduceCtorEq, not_false_eq_true, Function.update_of_ne]
      rw [List.append_assoc, List.append_assoc]

/-- The lanes one after another are in the order in which requests are due. -/
theorem InLanes.comesFirst (h : InLanes n queue) : (waiting queue).Pairwise ComesFirst := by
  have hlane : ∀ lane, (queue lane).Pairwise ComesFirst := by
    intro lane
    refine (h.order lane).imp_of_mem (fun {a b} ha hb hlt => .inr ⟨?_, le_of_lt hlt⟩)
    exact (h.priority lane a ha).trans (h.priority lane b hb).symm
  have hless : ∀ a b lane lane', a ∈ queue lane → b ∈ queue lane' → laneRank lane < laneRank lane' → ComesFirst a b := by
    intro a b lane lane' ha hb hlt
    refine .inl ?_
    rwa [h.priority lane a ha, h.priority lane' b hb]
  refine List.pairwise_append.mpr ⟨hlane .high, List.pairwise_append.mpr ⟨hlane .normal, hlane .low, ?_⟩, ?_⟩
  · intro a ha b hb
    exact hless a b .normal .low ha hb (by decide)
  · intro a ha b hb
    rcases List.mem_append.mp hb with hb | hb
    · exact hless a b .high .normal ha hb (by decide)
    · exact hless a b .high .low ha hb (by decide)

end Lanes

section Slots

variable {V : Type} {maxConcurrent : MaxConcurrent} {q : RequestQueue} {enqueuing : Option QueuedRequest}

/-- What `tryProcess` does: nothing, when the slots are taken or no request waits, or one call. -/
inductive Processed (maxConcurrent : MaxConcurrent) (q : RequestQueue) (enqueuing : Option QueuedRequest) :
    RequestQueue × List (Effect V) → Prop
  | taken (htaken : maxConcurrent.1.le (.finite q.activeCount)) : Processed maxConcurrent q enqueuing (q, [])
  | idle (hfree : ¬maxConcurrent.1.le (.finite q.activeCount)) (hnone : waiting q.queue = []) :
      Processed maxConcurrent q enqueuing (q, [])
  | call {request : QueuedRequest} {queue : PriorityLane → List QueuedRequest}
      (hfree : ¬maxConcurrent.1.le (.finite q.activeCount)) (hdequeued : Dequeued q.queue request queue) :
      Processed maxConcurrent q enqueuing
        ({ activeCount := q.activeCount + 1, queue, running := q.running ++ [{ request, enqueuing }] }, [.called request])

theorem processed_tryProcess (maxConcurrent : MaxConcurrent) (q : RequestQueue) (enqueuing : Option QueuedRequest) :
    Processed (V := V) maxConcurrent q enqueuing (tryProcess maxConcurrent q enqueuing) := by
  unfold tryProcess
  by_cases htaken : maxConcurrent.1.le (.finite q.activeCount) = true
  · rw [if_pos htaken]
    exact .taken htaken
  · rw [if_neg htaken]
    rcases dequeueNextRequest_spec q.queue with ⟨hnone, hwaiting⟩ | ⟨request, queue, hsome, hdequeued⟩
    · rw [hnone]
      exact .idle htaken hwaiting
    · rw [hsome]
      exact .call htaken hdequeued

/-- As many as fit are no more than fill the slots. -/
theorem le_of_fits {m n : Nat} (hfits : (JsNumber.finite m).le maxConcurrent) (hfills : maxConcurrent.1.le (.finite n)) :
    m ≤ n := by
  exact_mod_cast JsNumber.finite_le_finite_iff.mp (JsNumber.le_trans hfits hfills)

theorem pos_of_fills {n : Nat} (hfills : maxConcurrent.1.le (.finite n)) : 1 ≤ n :=
  le_of_fits (by exact_mod_cast maxConcurrent.2) hfills

end Slots

section Calls

variable {calls : List Call} {call : Call} {k : Nat}

theorem underWay_append (calls calls' : List Call) : underWay (calls ++ calls') = underWay calls ++ underWay calls' := by
  unfold underWay
  rw [List.filter_append, List.map_append]

theorem underWay_settled (hsettled : call.settled = true) : underWay [call] = [] := by
  unfold underWay
  rw [List.filter_cons_of_neg (by simp [hsettled])]
  rfl

theorem underWay_called (hsettled : call.settled = false) : underWay [call] = [call.request] := by
  unfold underWay
  rw [List.filter_cons_of_pos (by simp [hsettled])]
  rfl

theorem underWay_split (hcall : calls[k]? = some call) :
    underWay calls = underWay (calls.take k) ++ (underWay [call] ++ underWay (calls.drop (k + 1))) := by
  obtain ⟨hlt, rfl⟩ := List.getElem?_eq_some_iff.mp hcall
  conv_lhs => rw [← List.take_append_drop k calls, List.drop_eq_getElem_cons hlt]
  rw [underWay_append, ← underWay_append [calls[k]]]
  rfl

theorem underWay_eraseIdx (calls : List Call) (k : Nat) :
    underWay (calls.eraseIdx k) = underWay (calls.take k) ++ underWay (calls.drop (k + 1)) := by
  rw [List.eraseIdx_eq_take_drop_succ, underWay_append]

/-- A call that is done leaves its request out of those under way. -/
theorem underWay_done (hcall : calls[k]? = some call) (hsettled : call.settled = false) :
    (call.request :: underWay (calls.eraseIdx k)).Perm (underWay calls) := by
  rw [underWay_split hcall, underWay_eraseIdx, underWay_called hsettled]
  exact List.perm_middle.symm

theorem underWay_set (hcall : calls[k]? = some call) {call' : Call} (hsettled : call'.settled = true) :
    underWay (calls.set k call') = underWay (calls.eraseIdx k) := by
  obtain ⟨hlt, rfl⟩ := List.getElem?_eq_some_iff.mp hcall
  have hcall' : (calls.set k call')[k]? = some call' := List.getElem?_set_self hlt
  rw [underWay_split hcall', underWay_settled hsettled, underWay_eraseIdx, List.take_set_of_le (Nat.le_refl k),
    List.drop_set_of_lt (Nat.lt_succ_self k)]
  rfl

theorem underWay_freed (hcall : calls[k]? = some call) (hsettled : call.settled = true) :
    underWay (calls.eraseIdx k) = underWay calls := by
  rw [underWay_split hcall, underWay_eraseIdx, underWay_settled hsettled]
  rfl

theorem callAt_eq_some_iff {q : RequestQueue} {settled : Bool} :
    callAt q k settled = some call ↔ q.running[k]? = some call ∧ call.settled = settled := by
  unfold callAt
  rw [Option.filter_eq_some_iff, decide_eq_true_iff]

theorem length_eraseIdx_of_callAt {q : RequestQueue} {settled : Bool} (hcall : callAt q k settled = some call) :
    (q.running.eraseIdx k).length + 1 = q.running.length := by
  have hlt := (List.getElem?_eq_some_iff.mp (callAt_eq_some_iff.mp hcall).1).1
  rw [List.length_eraseIdx_of_lt hlt]
  omega

end Calls

section Invariant

variable {V : Type} {maxConcurrent : MaxConcurrent} {q : RequestQueue} {enqueued called : List QueuedRequest}
  {settled : List (QueuedRequest × Outcome V)} {h : History V} {e : Event V}

/-- What every step keeps, whatever is thrown. -/
structure Kept (maxConcurrent : MaxConcurrent) (h : History V) : Prop where
  numbered : h.enqueued.map QueuedRequest.id = List.range h.enqueued.length
  once : (h.called ++ waiting h.queue.queue).Perm h.enqueued
  lanes : InLanes h.enqueued.length h.queue.queue
  full : waiting h.queue.queue ≠ [] → maxConcurrent.1.le (.finite h.queue.activeCount)
  slots : h.queue.running.length ≤ h.queue.activeCount
  own : ∀ call ∈ h.queue.running, ∀ request, call.enqueuing = some request → request = call.request

theorem start_kept (maxConcurrent : MaxConcurrent) : Kept (V := V) maxConcurrent {} where
  numbered := rfl
  once := List.Perm.refl _
  lanes := ⟨fun _ _ hmem => absurd hmem List.not_mem_nil, fun _ => List.Pairwise.nil,
    fun _ _ hmem => absurd hmem List.not_mem_nil⟩
  full hne := absurd rfl hne
  slots := Nat.le_refl 0
  own _ hmem := absurd hmem List.not_mem_nil

theorem kept_tryProcess {enqueuing : Option QueuedRequest} (settled' : List (QueuedRequest × Outcome V))
    (hnumbered : enqueued.map QueuedRequest.id = List.range enqueued.length)
    (honce : (called ++ waiting q.queue).Perm enqueued) (hlanes : InLanes enqueued.length q.queue)
    (hslots : q.running.length ≤ q.activeCount)
    (hown : ∀ call ∈ q.running, ∀ request, call.enqueuing = some request → request = call.request)
    (hcall : ∀ request queue, ¬maxConcurrent.1.le (.finite q.activeCount) → Dequeued q.queue request queue →
      (waiting queue ≠ [] → maxConcurrent.1.le (.finite (q.activeCount + 1 : Nat))) ∧
        ∀ other, enqueuing = some other → other = request) :
    Kept maxConcurrent ⟨(tryProcess (V := V) maxConcurrent q enqueuing).1, enqueued,
      called ++ calledIn (tryProcess (V := V) maxConcurrent q enqueuing).2, settled'⟩ := by
  have hprocessed := processed_tryProcess (V := V) maxConcurrent q enqueuing
  generalize tryProcess (V := V) maxConcurrent q enqueuing = result at hprocessed ⊢
  cases hprocessed with
  | taken htaken =>
      refine ⟨hnumbered, ?_, hlanes, fun _ => htaken, hslots, hown⟩
      change (called ++ [] ++ waiting q.queue).Perm enqueued
      rwa [List.append_nil]
  | idle hfree hnone =>
      refine ⟨hnumbered, ?_, hlanes, fun hne => absurd hnone hne, hslots, hown⟩
      change (called ++ [] ++ waiting q.queue).Perm enqueued
      rwa [List.append_nil]
  | @call request queue hfree hdequeued =>
      obtain ⟨hfull, hsame⟩ := hcall request queue hfree hdequeued
      refine ⟨hnumbered, ?_, hlanes.sublist hdequeued.lanes, hfull, ?_, ?_⟩
      · change ((called ++ [request]) ++ waiting queue).Perm enqueued
        rw [List.append_assoc]
        rw [hdequeued.waiting] at honce
        exact honce
      · change (q.running ++ [_]).length ≤ q.activeCount + 1
        rw [List.length_append, List.length_singleton]
        exact Nat.succ_le_succ hslots
      · intro call hmem other hother
        rcases List.mem_append.mp hmem with hold | hnew
        · exact hown call hold other hother
        · cases List.mem_singleton.mp hnew
          exact hsame other hother

/-- A new request that is called at once is the only one that waits. -/
theorem dequeued_pushed {request other : QueuedRequest} {queue : PriorityLane → List QueuedRequest}
    (hnone : waiting q.queue = []) (hdequeued : Dequeued (pushed q.queue request) other queue) :
    other = request ∧ waiting queue = [] := by
  have hperm := waiting_pushed q.queue request
  rw [hnone, List.nil_append, hdequeued.waiting] at hperm
  obtain ⟨hother, hrest⟩ := List.cons.inj (List.perm_singleton.mp hperm)
  exact ⟨hother, hrest⟩

theorem Kept.none_of_free (hkept : Kept maxConcurrent h) (hfree : ¬maxConcurrent.1.le (.finite h.queue.activeCount)) :
    waiting h.queue.queue = [] := by
  by_contra hne
  exact hfree (hkept.full hne)

theorem kept_enqueue (hkept : Kept maxConcurrent h) (priority : PriorityLane)
    (settled' : List (QueuedRequest × Outcome V)) :
    Kept maxConcurrent ⟨(enqueue (V := V) maxConcurrent h.queue ⟨h.enqueued.length, priority⟩).1,
      h.enqueued ++ [⟨h.enqueued.length, priority⟩],
      h.called ++ calledIn (enqueue (V := V) maxConcurrent h.queue ⟨h.enqueued.length, priority⟩).2, settled'⟩ := by
  have hlength : (h.enqueued ++ [QueuedRequest.mk h.enqueued.length priority]).length = h.enqueued.length + 1 := by
    rw [List.length_append, List.length_singleton]
  refine kept_tryProcess settled' ?_ ?_ ?_ hkept.slots hkept.own (fun request queue hfree hdequeued => ?_)
  · rw [List.map_append, hkept.numbered, hlength, List.range_succ]
    rfl
  · refine ((waiting_pushed h.queue.queue _).append_left h.called).trans ?_
    rw [← List.append_assoc]
    exact hkept.once.append_right _
  · rw [hlength]
    exact hkept.lanes.pushed priority
  · obtain ⟨rfl, hnone⟩ := dequeued_pushed (hkept.none_of_free hfree) hdequeued
    exact ⟨fun hne => absurd hnone hne, fun other hother => (Option.some.inj hother).symm⟩

theorem kept_finish (hkept : Kept maxConcurrent h) {k : Nat} {call : Call} (hcall : callAt h.queue k true = some call)
    (settled' : List (QueuedRequest × Outcome V)) :
    Kept maxConcurrent ⟨(finish (V := V) maxConcurrent h.queue k).1, h.enqueued,
      h.called ++ calledIn (finish (V := V) maxConcurrent h.queue k).2, settled'⟩ := by
  have hlength := length_eraseIdx_of_callAt hcall
  have hslots := hkept.slots
  refine kept_tryProcess settled' hkept.numbered hkept.once hkept.lanes ?_ ?_ (fun request queue hfree hdequeued => ⟨?_, ?_⟩)
  · change (h.queue.running.eraseIdx k).length ≤ h.queue.activeCount - 1
    omega
  · exact fun other hmem => hkept.own other (List.mem_of_mem_eraseIdx hmem)
  · intro _
    have hne : waiting h.queue.queue ≠ [] := by
      rw [hdequeued.waiting]
      exact List.cons_ne_nil _ _
    have hsame : h.queue.activeCount - 1 + 1 = h.queue.activeCount := by omega
    change maxConcurrent.1.le (.finite (h.queue.activeCount - 1 + 1 : Nat))
    rw [hsame]
    exact hkept.full hne
  · intro other hother
    cases hother

theorem kept_running (hkept : Kept maxConcurrent h) {running : List Call}
    (settled' : List (QueuedRequest × Outcome V)) (hlength : running.length ≤ h.queue.running.length)
    (hown : ∀ call ∈ running, ∀ request, call.enqueuing = some request → request = call.request) :
    Kept maxConcurrent ⟨{ h.queue with running }, h.enqueued ++ [], h.called ++ [], settled'⟩ := by
  rw [List.append_nil, List.append_nil]
  exact ⟨hkept.numbered, hkept.once, hkept.lanes, hkept.full, Nat.le_trans hlength hkept.slots, hown⟩

def next (h : History V) (e : Event V) (result : RequestQueue × List (Effect V)) : History V :=
  { queue := result.1, enqueued := h.enqueued ++ enqueuedBy h e, called := h.called ++ calledIn result.2,
    settled := h.settled ++ settledIn result.2 }

theorem kept_act (hkept : Kept maxConcurrent h) {result : RequestQueue × List (Effect V)}
    (hact : act maxConcurrent h e = some result) : Kept maxConcurrent (next h e result) := by
  cases e with
  | enqueue priority =>
      obtain rfl := Option.some.inj hact
      exact kept_enqueue hkept priority _
  | threw k error =>
      obtain ⟨⟨request, enqueuing, settled⟩, hcall, rfl⟩ := Option.map_eq_some_iff.mp hact
      have hlength := length_eraseIdx_of_callAt hcall
      have hown : ∀ call ∈ h.queue.running.eraseIdx k, ∀ request, call.enqueuing = some request → request = call.request :=
        fun call hmem => hkept.own call (List.mem_of_mem_eraseIdx hmem)
      cases enqueuing with
      | none => exact kept_running hkept _ (by omega) hown
      | some other => exact kept_running hkept _ (by omega) hown
  | settled k outcome =>
      obtain ⟨call, hcall, rfl⟩ := Option.map_eq_some_iff.mp hact
      refine kept_running hkept _ (Nat.le_of_eq List.length_set) (fun other hmem => ?_)
      rcases List.mem_or_eq_of_mem_set hmem with hold | rfl
      · exact hkept.own other hold
      · exact hkept.own call (List.mem_of_getElem? (callAt_eq_some_iff.mp hcall).1)
  | finished k =>
      obtain ⟨call, hcall, rfl⟩ := Option.map_eq_some_iff.mp hact
      have hnext := kept_finish hkept hcall (h.settled ++ settledIn (finish (V := V) maxConcurrent h.queue k).2)
      rw [← List.append_nil h.enqueued] at hnext
      exact hnext

/-- The part of what is claimed that depends on what is thrown. -/
structure Busy (maxConcurrent : MaxConcurrent) (h : History V) : Prop where
  bounded : (JsNumber.finite h.queue.running.length).le maxConcurrent
  working : waiting h.queue.queue ≠ [] → maxConcurrent.1.le (.finite h.queue.running.length)
  delivered : (h.settled.map Prod.fst ++ underWay h.queue.running).Perm h.called

theorem served_iff (hkept : Kept maxConcurrent h) : Served maxConcurrent h ↔ Busy maxConcurrent h := by
  constructor
  · intro hserved
    exact ⟨hserved.bounded, hserved.working, hserved.delivered⟩
  · intro hbusy
    refine ⟨hkept.numbered, hkept.once, hbusy.bounded, hbusy.working, hbusy.delivered, fun hrunning => ?_⟩
    have hnone : waiting h.queue.queue = [] := by
      by_contra hne
      have hpos := pos_of_fills (hbusy.working hne)
      rw [hrunning] at hpos
      cases hpos
    have honce := hkept.once
    have hdelivered := hbusy.delivered
    rw [hnone, List.append_nil] at honce
    rw [hrunning, show underWay [] = [] from rfl, List.append_nil] at hdelivered
    exact hdelivered.trans honce

/-- A step that can happen is as it should be when what it leads to is. -/
theorem lawful_iff_of_act (hkept : Kept maxConcurrent h) {result : RequestQueue × List (Effect V)}
    (hact : act maxConcurrent h e = some result) :
    Lawful maxConcurrent h e ↔ Busy maxConcurrent (next h e result) ∧
      (∀ request ∈ calledIn result.2, ∀ other ∈ waiting result.1.queue, ComesFirst request other) ∧
      settledIn result.2 = outcomeOf h e := by
  have hstep : step maxConcurrent h e = some (next h e result) := by
    unfold step
    rw [hact]
    rfl
  rw [← served_iff (kept_act hkept hact)]
  constructor
  · intro hlawful
    exact ⟨hlawful.served _ hstep, hlawful.first _ _ hact, hlawful.own _ _ hact⟩
  · rintro ⟨hserved, hfirst, hown⟩
    refine ⟨(forall_next_iff hstep).mpr hserved, fun q effects hact' => ?_, fun q effects hact' => ?_⟩
    · obtain rfl := Option.some.inj (hact.symm.trans hact')
      exact hfirst
    · obtain rfl := Option.some.inj (hact.symm.trans hact')
      exact hown

theorem lawful_of_act_none (hact : act maxConcurrent h e = none) : Lawful maxConcurrent h e := by
  refine ⟨fun h' hstep => ?_, fun q effects hact' => ?_, fun q effects hact' => ?_⟩
  · unfold step at hstep
    rw [hact] at hstep
    cases hstep
  · cases hact.symm.trans hact'
  · cases hact.symm.trans hact'

end Invariant

section Condition

variable {V : Type} {maxConcurrent : MaxConcurrent} {h : History V}

theorem waiting_pushed_ne_nil (queue : PriorityLane → List QueuedRequest) (request : QueuedRequest) :
    waiting (pushed queue request) ≠ [] := by
  intro hnone
  have hperm := waiting_pushed queue request
  rw [hnone] at hperm
  exact List.append_ne_nil_of_right_ne_nil _ (List.cons_ne_nil request []) hperm.nil_eq.symm

/-- The request that is called is under way until its promise is settled. -/
theorem delivered_called {running : List Call} {called : List QueuedRequest} {settled : List (QueuedRequest × Outcome V)}
    (hdelivered : (settled.map Prod.fst ++ underWay running).Perm called) (request : QueuedRequest)
    (enqueuing : Option QueuedRequest) :
    ((settled ++ []).map Prod.fst ++ underWay (running ++ [Call.mk request enqueuing false])).Perm (called ++ [request]) := by
  rw [List.append_nil, underWay_append, underWay_called rfl, ← List.append_assoc]
  exact hdelivered.append_right [request]

theorem lawful_enqueue_iff (hkept : Kept maxConcurrent h) (hbusy : Busy maxConcurrent h) (priority : PriorityLane) :
    Lawful maxConcurrent h (.enqueue priority) ↔ Spares maxConcurrent h (.enqueue priority) := by
  rw [lawful_iff_of_act hkept rfl]
  unfold Spares enqueue
  have hprocessed := processed_tryProcess (V := V) maxConcurrent
    { h.queue with queue := pushed h.queue.queue ⟨h.enqueued.length, priority⟩ } (some ⟨h.enqueued.length, priority⟩)
  generalize tryProcess (V := V) maxConcurrent _ _ = result at hprocessed ⊢
  cases hprocessed with
  | taken htaken =>
      constructor
      · rintro ⟨hnext, -⟩
        exact ⟨fun _ => hnext.working (waiting_pushed_ne_nil _ _), fun hfree => absurd htaken hfree⟩
      · rintro ⟨hfills, -⟩
        specialize hfills htaken
        refine ⟨⟨hbusy.bounded, fun _ => hfills, ?_⟩, fun _ hmem => absurd hmem List.not_mem_nil, rfl⟩
        change ((h.settled ++ []).map Prod.fst ++ underWay h.queue.running).Perm (h.called ++ [])
        rw [List.append_nil, List.append_nil]
        exact hbusy.delivered
  | idle hfree hnone => exact absurd hnone (waiting_pushed_ne_nil _ _)
  | @call request queue hfree hdequeued =>
      obtain ⟨-, hnone⟩ := dequeued_pushed (hkept.none_of_free hfree) hdequeued
      have hlength : (h.queue.running ++ [Call.mk request (some ⟨h.enqueued.length, priority⟩) false]).length =
          h.queue.running.length + 1 := by
        rw [List.length_append, List.length_singleton]
      constructor
      · rintro ⟨hnext, -⟩
        refine ⟨fun htaken => absurd htaken hfree, fun _ => ?_⟩
        rw [← hlength]
        exact hnext.bounded
      · rintro ⟨-, hfits⟩
        specialize hfits hfree
        rw [← hlength] at hfits
        refine ⟨⟨hfits, fun hne => absurd hnone hne, delivered_called hbusy.delivered _ _⟩, fun _ _ other hother => ?_, rfl⟩
        · change other ∈ waiting queue at hother
          rw [hnone] at hother
          cases hother

theorem spares_threw_iff {k : Nat} {call : Call} (hcall : callAt h.queue k false = some call) (error : V) :
    Spares maxConcurrent h (.threw k error) ↔ call.enqueuing ≠ none ∧ waiting h.queue.queue = [] := by
  constructor
  · intro hall
    exact hall call hcall
  · intro hcond call' hcall'
    cases hcall.symm.trans hcall'
    exact hcond

theorem lawful_threw_iff (hkept : Kept maxConcurrent h) (hbusy : Busy maxConcurrent h) (k : Nat) (error : V) :
    Lawful maxConcurrent h (.threw k error) ↔ Spares maxConcurrent h (.threw k error) := by
  cases hcall : callAt h.queue k false with
  | none =>
      refine iff_of_true (lawful_of_act_none ?_) (fun call hcall' => ?_)
      · exact congrArg (Option.map (fun call => threw h.queue k call error)) hcall
      · cases hcall.symm.trans hcall'
  | some call =>
      have hact : act maxConcurrent h (.threw k error) = some (threw h.queue k call error) :=
        congrArg (Option.map (fun call => threw h.queue k call error)) hcall
      have houtcome : outcomeOf h (.threw k error) = [(call.request, .rejected error)] :=
        congrArg (fun found => (Option.map (fun call : Call => (call.request, Outcome.rejected error)) found).toList) hcall
      have hlength := length_eraseIdx_of_callAt hcall
      obtain ⟨hget, hsettled⟩ := callAt_eq_some_iff.mp hcall
      have hown := hkept.own call (List.mem_of_getElem? hget)
      have hdone := underWay_done hget hsettled
      rw [lawful_iff_of_act hkept hact, houtcome, spares_threw_iff hcall]
      obtain ⟨request, enqueuing, settled⟩ := call
      cases enqueuing with
      | none =>
          refine iff_of_false (fun hlawful => ?_) (fun hspares => hspares.1 rfl)
          cases hlawful.2.2
      | some other =>
          obtain rfl : other = request := hown other rfl
          constructor
          · rintro ⟨hnext, -⟩
            refine ⟨Option.some_ne_none other, ?_⟩
            by_contra hne
            have hle := le_of_fits hbusy.bounded (hnext.working hne)
            change h.queue.running.length ≤ (h.queue.running.eraseIdx k).length at hle
            omega
          · rintro ⟨-, hnone⟩
            refine ⟨⟨JsNumber.natCast_le_anti ?_ hbusy.bounded, fun hne => absurd hnone hne, ?_⟩, ?_, rfl⟩
            · change (h.queue.running.eraseIdx k).length ≤ h.queue.running.length
              omega
            · change ((h.settled ++ [(other, Outcome.rejected error)]).map Prod.fst ++
                underWay (h.queue.running.eraseIdx k)).Perm (h.called ++ [])
              rw [List.append_nil, List.map_append, List.append_assoc]
              exact (hdone.append_left _).trans hbusy.delivered
            · intro other hother
              cases hother

theorem lawful_settled (hkept : Kept maxConcurrent h) (hbusy : Busy maxConcurrent h) (k : Nat) (outcome : Outcome V) :
    Lawful maxConcurrent h (.settled k outcome) := by
  cases hcall : callAt h.queue k false with
  | none =>
      exact lawful_of_act_none (congrArg (Option.map (fun call => settle h.queue k call outcome)) hcall)
  | some call =>
      have hact : act maxConcurrent h (.settled k outcome) = some (settle h.queue k call outcome) :=
        congrArg (Option.map (fun call => settle h.queue k call outcome)) hcall
      have houtcome : outcomeOf h (.settled k outcome) = [(call.request, outcome)] :=
        congrArg (fun found => (Option.map (fun call : Call => (call.request, outcome)) found).toList) hcall
      obtain ⟨hget, hsettled⟩ := callAt_eq_some_iff.mp hcall
      have hlength : (h.queue.running.set k { call with settled := true }).length = h.queue.running.length :=
        List.length_set
      rw [lawful_iff_of_act hkept hact, houtcome]
      refine ⟨⟨?_, fun hne => ?_, ?_⟩, fun _ hmem => absurd hmem List.not_mem_nil, rfl⟩
      · have hbounded := hbusy.bounded
        rwa [← hlength] at hbounded
      · have hfills := hbusy.working hne
        rwa [← hlength] at hfills
      · change ((h.settled ++ [(call.request, outcome)]).map Prod.fst ++
          underWay (h.queue.running.set k { call with settled := true })).Perm (h.called ++ [])
        rw [List.append_nil, List.map_append, List.append_assoc, underWay_set hget rfl]
        exact ((underWay_done hget hsettled).append_left _).trans hbusy.delivered

theorem lawful_finished_iff (hkept : Kept maxConcurrent h) (hbusy : Busy maxConcurrent h) (k : Nat) :
    Lawful maxConcurrent h (.finished k) ↔ Spares maxConcurrent h (.finished k) := by
  cases hcall : callAt h.queue k true with
  | none =>
      refine iff_of_true (lawful_of_act_none ?_) (fun hsome => ?_)
      · exact congrArg (Option.map (fun _ => finish maxConcurrent h.queue k)) hcall
      · rw [hcall] at hsome
        cases hsome
  | some call =>
      have hact : act maxConcurrent h (.finished k) = some (finish maxConcurrent h.queue k) :=
        congrArg (Option.map (fun _ => finish maxConcurrent h.queue k)) hcall
      have hlength := length_eraseIdx_of_callAt hcall
      obtain ⟨hget, hsettled⟩ := callAt_eq_some_iff.mp hcall
      have hdelivered := hbusy.delivered
      rw [← underWay_freed hget hsettled] at hdelivered
      have hbounded : (JsNumber.finite (h.queue.running.eraseIdx k).length).le maxConcurrent :=
        JsNumber.natCast_le_anti (by omega) hbusy.bounded
      have hspares : Spares maxConcurrent h (.finished k) ↔
          (maxConcurrent.1.le (.finite (h.queue.activeCount - 1 : Nat)) → waiting h.queue.queue = []) :=
        ⟨fun hall => hall (by rw [hcall]; rfl), fun hcond _ => hcond⟩
      have hcomes := (kept_act hkept hact).lanes
      rw [lawful_iff_of_act hkept hact, hspares]
      unfold finish at hcomes ⊢
      have hprocessed := processed_tryProcess (V := V) maxConcurrent
        { h.queue with activeCount := h.queue.activeCount - 1, running := h.queue.running.eraseIdx k } none
      generalize tryProcess (V := V) maxConcurrent _ _ = result at hprocessed hcomes ⊢
      cases hprocessed with
      | taken htaken =>
          constructor
          · rintro ⟨hnext, -⟩ -
            by_contra hne
            have hle := le_of_fits hbusy.bounded (hnext.working hne)
            change h.queue.running.length ≤ (h.queue.running.eraseIdx k).length at hle
            omega
          · intro hcond
            have hnone := hcond htaken
            refine ⟨⟨hbounded, fun hne => absurd hnone hne, ?_⟩, fun _ hmem => absurd hmem List.not_mem_nil, rfl⟩
            change ((h.settled ++ []).map Prod.fst ++ underWay (h.queue.running.eraseIdx k)).Perm (h.called ++ [])
            rwa [List.append_nil, List.append_nil]
      | idle hfree hnone =>
          refine iff_of_true ?_ (fun htaken => absurd htaken hfree)
          refine ⟨⟨hbounded, fun hne => absurd hnone hne, ?_⟩, fun _ hmem => absurd hmem List.not_mem_nil, rfl⟩
          change ((h.settled ++ []).map Prod.fst ++ underWay (h.queue.running.eraseIdx k)).Perm (h.called ++ [])
          rwa [List.append_nil, List.append_nil]
      | @call request queue hfree hdequeued =>
          have hsame : (h.queue.running.eraseIdx k ++ [Call.mk request none false]).length = h.queue.running.length := by
            rw [List.length_append, List.length_singleton]
            exact hlength
          have hne : waiting h.queue.queue ≠ [] := by
            rw [hdequeued.waiting]
            exact List.cons_ne_nil _ _
          refine iff_of_true ?_ (fun htaken => absurd htaken hfree)
          refine ⟨⟨?_, fun _ => ?_, delivered_called hdelivered _ _⟩, fun first hfirst other hother => ?_, rfl⟩
          · have hbounded := hbusy.bounded
            rwa [← hsame] at hbounded
          · have hfills := hbusy.working hne
            rwa [← hsame] at hfills
          · cases List.mem_singleton.mp hfirst
            have hpairwise := hkept.lanes.comesFirst
            rw [hdequeued.waiting] at hpairwise
            exact (List.pairwise_cons.mp hpairwise).1 other hother

theorem lawful_iff (hkept : Kept maxConcurrent h) (hbusy : Busy maxConcurrent h) (e : Event V) :
    Lawful maxConcurrent h e ↔ Spares maxConcurrent h e := by
  cases e with
  | enqueue priority => exact lawful_enqueue_iff hkept hbusy priority
  | threw k error => exact lawful_threw_iff hkept hbusy k error
  | settled k outcome => exact iff_of_true (lawful_settled hkept hbusy k outcome) trivial
  | finished k => exact lawful_finished_iff hkept hbusy k

theorem start_busy (maxConcurrent : MaxConcurrent) : Busy (V := V) maxConcurrent {} where
  bounded := JsNumber.natCast_le_anti (Nat.zero_le 1) (by exact_mod_cast maxConcurrent.2)
  working hne := absurd rfl hne
  delivered := List.Perm.refl _

/-- Requests run and wait as they should just as long as no function throws away a slot that is needed, and as many
fit as are called. -/
theorem requests_concurrent_iff (maxConcurrent : MaxConcurrent) (events : List (Event V)) :
    Allowed (step maxConcurrent) (Lawful maxConcurrent) {} events ↔
      Allowed (step maxConcurrent) (Spares maxConcurrent) {} events := by
  refine allowed_iff (I := fun h => Kept maxConcurrent h ∧ Busy maxConcurrent h) (fun h e h' hinv hlawful hstep => ?_)
    (fun h e hinv => lawful_iff hinv.1 hinv.2 e) ⟨start_kept maxConcurrent, start_busy maxConcurrent⟩ events
  obtain ⟨result, hact, rfl⟩ := Option.map_eq_some_iff.mp hstep
  have hkept := kept_act hinv.1 hact
  exact ⟨hkept, (served_iff hkept).mp (hlawful.served _ hstep)⟩

/-- With one slot, a function that throws keeps the next request waiting for good. -/
theorem requests_concurrent_fail :
    ¬∀ (maxConcurrent : MaxConcurrent) (events : List (Event Unit)),
      Allowed (step maxConcurrent) (Lawful maxConcurrent) {} events := by
  intro hall
  let one : MaxConcurrent := ⟨.finite 1, by rfl⟩
  let first : QueuedRequest := ⟨0, .normal⟩
  let second : QueuedRequest := ⟨1, .normal⟩
  let leaked : RequestQueue := { activeCount := 1, queue := Function.update (pushed (fun _ => []) first) .normal [] }
  obtain ⟨-, hnext⟩ := hall one [.enqueue .normal, .threw 0 (), .enqueue .normal]
  obtain ⟨-, hnext⟩ := hnext ⟨{ leaked with running := [⟨first, some first, false⟩] }, [first], [first], []⟩ rfl
  obtain ⟨hlawful, -⟩ := hnext ⟨leaked, [first], [first], [(first, .rejected ())]⟩ rfl
  have hserved := hlawful.served ⟨{ leaked with queue := pushed leaked.queue second }, [first, second], [first],
    [(first, .rejected ())]⟩ rfl
  exact absurd (pos_of_fills (hserved.working (waiting_pushed_ne_nil leaked.queue second))) (Nat.not_succ_le_zero 0)

end Condition

end SplitSdk.RequestConcurrency
