import SplitSdk.BoundedLoop
import SplitSdk.Numbers
import Mathlib.Data.List.Count
import SplitSdk.Interleaving

namespace SplitSdk.TxQueue

open BoundedLoop Numbers

section Data

structure QueueItem where
  priority : JsNumber
  seq : Nat
  promise : Nat
  deriving DecidableEq

inductive Failure
  | queueFailed
  /-- The account could not be loaded, or the operation failed. -/
  | rejected (message : String)
  deriving DecidableEq

def Failure.message : Failure → String
  | .queueFailed => "Queue has failed; cannot enqueue new operations"
  | .rejected message => message

inductive Settlement
  | resolved (txHash : String)
  | rejected (failure : Failure)
  deriving DecidableEq

/-- The `await` at which a call of `_drain` is. -/
inductive DrainLoop
  | gettingAccount (item : QueueItem)
  | operating (item : QueueItem)
  | ended
  deriving DecidableEq

/-- Each promise that `enqueue` returned is the list of the times that it was settled, once in a correct program. -/
structure Queue where
  failed : Bool := false
  items : List QueueItem := []
  nextSeq : Nat := 0
  draining : Bool := false
  loops : List DrainLoop := []
  promises : List (List Settlement) := []
  deriving DecidableEq

end Data

section Insertion

/-- The order of the queue: higher priority first, then first in, first out. -/
def goesBefore (candidate item : QueueItem) : Bool :=
  item.priority.lt candidate.priority ||
    (candidate.priority = item.priority && candidate.priority ≠ .nan && candidate.seq < item.seq)

structure Window where
  lo : Nat
  hi : Nat

def Window.Open (w : Window) : Prop := w.lo < w.hi

instance : DecidablePred Window.Open := fun w => inferInstanceAs (Decidable (w.lo < w.hi))

/-- One turn of the binary search. -/
def halve (items : List QueueItem) (item : QueueItem) (w : Window) : Window :=
  let mid := (w.lo + w.hi) / 2
  if (items[mid]?).any (fun candidate => goesBefore candidate item) then { w with lo := mid + 1 } else { w with hi := mid }

def search (items : List QueueItem) (item : QueueItem) : Window :=
  loop Window.Open (halve items item) items.length ⟨0, items.length⟩

def insert (items : List QueueItem) (item : QueueItem) : List QueueItem :=
  items.insertIdx (search items item).lo item

end Insertion

section Operations

variable (s : Queue)

def settle (promise : Nat) (settlement : Settlement) : Queue :=
  { s with promises := s.promises.modify promise (settlement :: ·) }

/-- Take all items out of the queue and reject them. -/
def rejectAll : Queue :=
  s.items.foldl (fun s item => settle s item.promise (.rejected .queueFailed)) { s with items := [] }

def moveTo (i : Nat) (drainLoop : DrainLoop) : Queue := { s with loops := s.loops.set i drainLoop }

/-- The top of the loop, which ends when nothing is left or the queue has failed. -/
def takeNext (i : Nat) : Queue :=
  match s.items with
  | item :: items =>
      if s.failed then moveTo { s with draining := false } i .ended
      else moveTo { s with items } i (.gettingAccount item)
  | [] => moveTo { s with draining := false } i .ended

def drain : Queue :=
  if s.draining then s
  else takeNext { s with draining := true, loops := s.loops ++ [.ended] } s.loops.length

def enqueue (priority : JsNumber) : Queue :=
  if s.failed then { s with promises := s.promises ++ [[.rejected .queueFailed]] }
  else
    let item : QueueItem := { priority, seq := s.nextSeq, promise := s.promises.length }
    drain { s with
      nextSeq := s.nextSeq + 1
      promises := s.promises ++ [[]]
      items := insert s.items item }

def clear : Queue := { rejectAll s with failed := false, draining := false }

/-- The `catch` block of the loop, and its next turn. -/
def catchError (i : Nat) (item : QueueItem) (message : String) : Queue :=
  takeNext (rejectAll (settle { s with failed := true } item.promise (.rejected (.rejected message)))) i

def accountAnswered (i : Nat) (item : QueueItem) : Except String Unit → Queue
  | .ok () => moveTo s i (.operating item)
  | .error message => catchError s i item message

/-- From the answer of the operation, a transaction hash or an error. -/
def operationAnswered (i : Nat) (item : QueueItem) : Except String String → Queue
  | .ok txHash => takeNext (settle s item.promise (.resolved txHash)) i
  | .error message => catchError s i item message

end Operations

section Runs

inductive Event
  | enqueue (priority : JsNumber)
  | clear
  | accountAnswered (i : Nat) (answer : Except String Unit)
  | operationAnswered (i : Nat) (answer : Except String String)

def step (s : Queue) : Event → Option Queue
  | .enqueue priority => some (enqueue s priority)
  | .clear => some (clear s)
  | .accountAnswered i answer =>
      match s.loops[i]? with
      | some (.gettingAccount item) => some (accountAnswered s i item answer)
      | _ => none
  | .operationAnswered i answer =>
      match s.loops[i]? with
      | some (.operating item) => some (operationAnswered s i item answer)
      | _ => none

end Runs

section Steps

variable {s t : Queue}

/-- What an event does. -/
inductive Moves (s : Queue) : Event → Queue → Prop
  | enqueue (priority) : Moves s (.enqueue priority) (enqueue s priority)
  | clear : Moves s .clear (clear s)
  | operate {i item} (hloop : s.loops[i]? = some (.gettingAccount item)) :
      Moves s (.accountAnswered i (.ok ())) (moveTo s i (.operating item))
  | noAccount {i item} (message) (hloop : s.loops[i]? = some (.gettingAccount item)) :
      Moves s (.accountAnswered i (.error message)) (catchError s i item message)
  | resolve {i item} (txHash) (hloop : s.loops[i]? = some (.operating item)) :
      Moves s (.operationAnswered i (.ok txHash)) (takeNext (settle s item.promise (.resolved txHash)) i)
  | fail {i item} (message) (hloop : s.loops[i]? = some (.operating item)) :
      Moves s (.operationAnswered i (.error message)) (catchError s i item message)

theorem moves_of_step {e : Event} (h : step s e = some t) : Moves s e t := by
  cases e with
  | enqueue priority =>
      obtain rfl := Option.some.inj h
      exact .enqueue priority
  | clear =>
      obtain rfl := Option.some.inj h
      exact .clear
  | accountAnswered i answer =>
      rw [step] at h
      split at h
      · rename_i item hloop
        obtain rfl := Option.some.inj h
        cases answer with
        | error message => exact .noAccount message hloop
        | ok _ => exact .operate hloop
      · nomatch h
  | operationAnswered i answer =>
      rw [step] at h
      split at h
      · rename_i item hloop
        obtain rfl := Option.some.inj h
        cases answer with
        | error message => exact .fail message hloop
        | ok txHash => exact .resolve txHash hloop
      · nomatch h

end Steps

end SplitSdk.TxQueue

namespace SplitSdk.QueueSerialisation

open BoundedLoop Interleaving Numbers TxQueue

section Statement

def owned : DrainLoop → List QueueItem
  | .gettingAccount item | .operating item => [item]
  | .ended => []

/-- The number of operations that are under way. -/
def running (s : Queue) : Nat := (s.loops.map (fun drainLoop => (owned drainLoop).length)).sum

def Serial (s : Queue) (e : Event) : Prop := ∀ t, step s e = some t → running t ≤ 1

/-- Nothing is enqueued while an operation from before a `clear` is still under way. -/
def NoOverlap (s : Queue) : Event → Prop
  | .enqueue _ => s.failed ∨ s.draining ∨ running s = 0
  | _ => True

instance (s : Queue) (e : Event) : Decidable (NoOverlap s e) := by
  cases e <;> unfold NoOverlap <;> infer_instance

end Statement

section Insertion

theorem search_bounds (items : List QueueItem) (item : QueueItem) :
    (search items item).lo ≤ (search items item).hi ∧ (search items item).hi ≤ items.length := by
  refine loop_invariant (I := fun w : Window => w.lo ≤ w.hi ∧
    w.hi ≤ items.length) ?_ _ _ ⟨Nat.zero_le _, Nat.le_refl _⟩
  intro w hw hopen
  unfold Window.Open at hopen
  unfold halve
  dsimp only
  split_ifs
  · exact ⟨by dsimp only; omega, hw.2⟩
  · exact ⟨by dsimp only; omega, by dsimp only; omega⟩

/-- The binary search is over when it has had a turn for each item. -/
theorem search_ended (items : List QueueItem) (item : QueueItem) :
    Ended Window.Open (halve items item) items.length ⟨0, items.length⟩ := by
  refine ended_of_measure (I := fun _ => True) (fun _ _ _ => trivial) (fun w =>
    w.hi - w.lo) ?_ _ _ trivial
    (Nat.sub_le _ _)
  intro w _ hopen
  unfold Window.Open at hopen
  unfold halve
  dsimp only
  split_ifs
  · dsimp only; omega
  · dsimp only; omega

theorem insert_perm (items : List QueueItem) (item : QueueItem) :
    (insert items item).Perm (item :: items) :=
  List.perm_insertIdx item items ((search_bounds items item).1.trans (search_bounds items item).2)

end Insertion

section Accounts

variable {s : Queue} {i : Nat} {drainLoop : DrainLoop}

def settledTimes (p : Nat) (s : Queue) : Nat := (s.promises[p]?.getD []).length

/-- How often a promise was settled, or waits for it in the queue or in a loop. -/
def accounts (p : Nat) (s : Queue) : Nat :=
  settledTimes p s + (s.items.map QueueItem.promise).count p +
    (s.loops.map (fun drainLoop => ((owned drainLoop).map QueueItem.promise).count p)).sum

theorem settledTimes_settle (p promise : Nat) (settlement : Settlement)
    (hlt : promise < s.promises.length) :
    settledTimes p (settle s promise settlement) = settledTimes p s + if promise = p then 1 else 0 := by
  unfold settledTimes settle
  dsimp only
  by_cases hp : promise = p
  · subst hp
    rw [List.getElem?_modify_eq, List.getElem?_eq_getElem hlt, if_pos rfl]
    rfl
  · rw [List.getElem?_modify_ne _ _ hp, if_neg hp]
    rfl

theorem accounts_settle (p promise : Nat) (settlement : Settlement)
    (hlt : promise < s.promises.length) :
    accounts p (settle s promise settlement) = accounts p s + if promise = p then 1 else 0 := by
  have := settledTimes_settle p promise settlement hlt
  simp only [accounts, this]
  simp only [settle]
  omega

theorem accounts_moveTo (h : s.loops[i]? = some drainLoop) (p : Nat) (next : DrainLoop) :
    accounts p (moveTo s i next) + ((owned drainLoop).map QueueItem.promise).count p =
      accounts p s + ((owned next).map QueueItem.promise).count p := by
  have := sum_set (fun drainLoop => ((owned drainLoop).map QueueItem.promise).count p) s.loops i drainLoop next h
  simp only [accounts, settledTimes, moveTo]
  omega

theorem running_moveTo (h : s.loops[i]? = some drainLoop) (next : DrainLoop) :
    running (moveTo s i next) + (owned drainLoop).length = running s + (owned next).length :=
  sum_set (fun drainLoop => (owned drainLoop).length) s.loops i drainLoop next h

theorem owned_le_running (h : s.loops[i]? = some drainLoop) : (owned drainLoop).length ≤ running s :=
  le_sum (fun drainLoop => (owned drainLoop).length) s.loops i drainLoop h

/-- What `rejectAll` leaves of the queue. -/
theorem rejectAll_spec (hlt : ∀ item ∈ s.items, item.promise < s.promises.length) :
    (∀ p, accounts p (rejectAll s) = accounts p s) ∧ (rejectAll s).promises.length = s.promises.length ∧
      (rejectAll s).items = [] ∧ (rejectAll s).loops = s.loops ∧ (rejectAll s).failed = s.failed := by
  have hfold : ∀ (items : List QueueItem) (t : Queue),
      (∀ item ∈ items, item.promise < t.promises.length) →
      let u := items.foldl (fun s item => settle s item.promise (.rejected .queueFailed)) t
      (∀ p, accounts p u = accounts p t + (items.map QueueItem.promise).count p) ∧
        u.promises.length = t.promises.length ∧ u.items = t.items ∧ u.loops = t.loops ∧
          u.failed = t.failed := by
    intro items
    induction items with
    | nil => exact fun t _ => ⟨fun _ => rfl, rfl, rfl, rfl, rfl⟩
    | cons item items ih =>
        intro t ht
        have hlength : (settle t item.promise (.rejected .queueFailed)).promises.length = t.promises.length :=
          List.length_modify _ _ _
        obtain ⟨haccounts, hpromises, hitems, hloops, hfailed⟩ :=
          ih (settle t item.promise (.rejected .queueFailed))
            (fun other hmem => hlength ▸ ht other (List.mem_cons_of_mem _ hmem))
        refine ⟨fun p => ?_, hpromises.trans hlength, hitems, hloops, hfailed⟩
        rw [List.foldl_cons, haccounts, accounts_settle p _ _ (ht item List.mem_cons_self),
          List.map_cons, List.count_cons]
        simp only [beq_iff_eq]
        omega
  obtain ⟨haccounts, hpromises, hitems, hloops, hfailed⟩ := hfold s.items { s with items := [] } hlt
  refine ⟨fun p => ?_, hpromises, hitems, hloops, hfailed⟩
  refine (haccounts p).trans ?_
  simp only [accounts, settledTimes, List.map_nil, List.count_nil]
  omega

end Accounts

section Invariant

variable {s t : Queue} {i : Nat} {drainLoop : DrainLoop}

/-- Each promise is settled or waits, once, and whatever is left in the queue has a loop that gets to it. -/
structure Inv (s : Queue) : Prop where
  accounted : ∀ p, accounts p s = if p < s.promises.length then 1 else 0
  failed : s.failed → s.items = []
  draining : s.draining → 0 < running s
  served : s.items ≠ [] → 0 < running s

theorem initial_inv : Inv {} := ⟨fun _ => rfl, fun _ => rfl, nofun, fun h => absurd rfl h⟩

theorem takeNext_cases (s : Queue) (i : Nat) :
    (∃ item items, s.items = item :: items ∧ s.failed = false ∧
      takeNext s i = moveTo { s with items } i (.gettingAccount item)) ∨
    ((s.items = [] ∨ s.failed) ∧ takeNext s i = moveTo { s with draining := false } i .ended) := by
  unfold takeNext
  cases hitems : s.items with
  | nil => exact .inr ⟨.inl rfl, rfl⟩
  | cons item items =>
      cases hfailed : s.failed with
      | true => exact .inr ⟨.inr rfl, rfl⟩
      | false => exact .inl ⟨item, items, rfl, rfl, rfl⟩

theorem running_takeNext (h : s.loops[i]? = some drainLoop) :
    running (takeNext s i) + (owned drainLoop).length ≤ running s + 1 := by
  rcases takeNext_cases s i with ⟨item, items, _, _, ht⟩ | ⟨_, ht⟩
  · rw [ht]
    exact (running_moveTo (s := { s with items }) h (.gettingAccount item)).le
  · rw [ht]
    have : _ = running s + 0 := running_moveTo (s := { s with draining := false }) h .ended
    omega

/-- The loop that takes the next item has done with the promise it owned before. -/
theorem takeNext_inv (h : s.loops[i]? = some drainLoop)
    (haccounts : ∀ p, accounts p s =
      (if p < s.promises.length then 1 else 0) + ((owned drainLoop).map QueueItem.promise).count p)
    (hfailed : s.failed → s.items = []) : Inv (takeNext s i) := by
  rcases takeNext_cases s i with ⟨item, items, hitems, hnot, ht⟩ | ⟨hend, ht⟩
  · have hlt : i < s.loops.length := (List.getElem?_eq_some_iff.mp h).1
    have hrunning : 0 < running (moveTo { s with items } i (.gettingAccount item)) := by
      have hat : (moveTo { s with items } i (.gettingAccount item)).loops[i]? = some (.gettingAccount item) :=
        List.getElem?_set_self hlt
      exact Nat.lt_of_lt_of_le Nat.zero_lt_one (owned_le_running hat)
    rw [ht]
    refine ⟨fun p => ?_, ?_, fun _ => hrunning, fun _ => hrunning⟩
    · have hmove : _ = accounts p { s with items } + [item.promise].count p :=
        accounts_moveTo (s := { s with items }) h p (.gettingAccount item)
      have hold := haccounts p
      have htaken : accounts p s = accounts p { s with items } + [item.promise].count p := by
        simp only [accounts, settledTimes, hitems, List.map_cons, List.count_cons, List.count_nil]
        omega
      change accounts p _ = if p < s.promises.length then 1 else 0
      omega
    · intro hfail
      change s.failed = true at hfail
      rw [hnot] at hfail
      nomatch hfail
  · have hnil : s.items = [] := hend.elim id hfailed
    rw [ht]
    refine ⟨fun p => ?_, fun _ => hnil, nofun, fun hitems => absurd hnil hitems⟩
    have hmove : _ = accounts p s + 0 := accounts_moveTo (s := { s with draining := false }) h p .ended
    have hold := haccounts p
    change accounts p _ = if p < s.promises.length then 1 else 0
    omega

theorem Inv.promise_lt (hi : Inv s) {item : QueueItem} (h : item ∈ s.items) :
    item.promise < s.promises.length := by
  have hpos := List.count_pos_iff.mpr (List.mem_map_of_mem (f := QueueItem.promise) h)
  have haccounts := hi.accounted item.promise
  by_contra hle
  rw [if_neg hle] at haccounts
  simp only [accounts] at haccounts
  omega

theorem Inv.owned_lt (hi : Inv s) (h : s.loops[i]? = some drainLoop) {item : QueueItem}
    (hitem : item ∈ owned drainLoop) :
    item.promise < s.promises.length := by
  have hpos := List.count_pos_iff.mpr (List.mem_map_of_mem (f := QueueItem.promise) hitem)
  have hle := le_sum (fun drainLoop => ((owned drainLoop).map QueueItem.promise).count item.promise)
    s.loops i drainLoop h
  have haccounts := hi.accounted item.promise
  by_contra hlt
  rw [if_neg hlt] at haccounts
  simp only [accounts] at haccounts
  omega

theorem drain_inv (haccounts : ∀ p, accounts p s = if p < s.promises.length then 1 else 0)
    (hfailed : s.failed → s.items = [])
    (hdraining : s.draining → 0 < running s) : Inv (drain s) := by
  unfold drain
  split_ifs with h
  · exact ⟨haccounts, hfailed, hdraining, fun _ => hdraining h⟩
  · have hlast : (s.loops ++ [DrainLoop.ended])[s.loops.length]? = some .ended :=
      List.getElem?_concat_length
    refine takeNext_inv hlast ?_ hfailed
    intro p
    refine Eq.trans ?_ (haccounts p)
    simp [accounts, settledTimes, owned]

theorem accounts_append (s : Queue) (p : Nat) (settlements : List Settlement) :
    accounts p { s with promises := s.promises ++ [settlements] } =
      accounts p s + if s.promises.length = p then settlements.length else 0 := by
  have hsettled : settledTimes p { s with promises := s.promises ++ [settlements] } =
      settledTimes p s + if s.promises.length = p then settlements.length else 0 := by
    unfold settledTimes
    dsimp only
    split_ifs with h
    · subst h
      rw [List.getElem?_concat_length, List.getElem?_eq_none (Nat.le_refl _)]
      exact (Nat.zero_add _).symm
    · rcases Nat.lt_or_gt_of_ne h with hlt | hlt
      · rw [List.getElem?_eq_none (by simp; omega), List.getElem?_eq_none hlt.le]
        rfl
      · rw [List.getElem?_append_left hlt]
        rfl
  simp only [accounts, hsettled]
  omega

theorem accounts_insert (s : Queue) (p : Nat) (item : QueueItem) :
    accounts p { s with items := insert s.items item } = accounts p s + if item.promise = p then 1 else 0 := by
  have hcount := ((insert_perm s.items item).map QueueItem.promise).count_eq p
  rw [List.map_cons, List.count_cons] at hcount
  simp only [beq_iff_eq] at hcount
  simp only [accounts, settledTimes, hcount]
  omega

theorem enqueue_inv (hi : Inv s) (priority : JsNumber) : Inv (enqueue s priority) := by
  have hlength : ∀ settlements : List Settlement,
    (s.promises ++ [settlements]).length = s.promises.length + 1 :=
    fun settlements => List.length_append
  unfold enqueue
  split_ifs with hfailed
  · refine ⟨fun p => ?_, hi.failed, hi.draining, hi.served⟩
    rw [accounts_append, hi.accounted, hlength, List.length_singleton]
    split_ifs <;> omega
  · refine drain_inv (fun p => ?_) (fun h => absurd h hfailed) hi.draining
    have hinserted := accounts_insert { s with promises := s.promises ++ [[]] } p
      { priority, seq := s.nextSeq, promise := s.promises.length }
    have happended := accounts_append s p []
    have hold := hi.accounted p
    refine hinserted.trans ?_
    rw [happended, hold, hlength, List.length_nil]
    split_ifs <;> omega

theorem clear_inv (hi : Inv s) : Inv (clear s) := by
  obtain ⟨haccounts, hpromises, hitems, _, _⟩ := rejectAll_spec (fun item h => hi.promise_lt h)
  refine ⟨fun p => ?_, fun _ => hitems, nofun, fun h => absurd hitems h⟩
  exact (haccounts p).trans (hpromises ▸ hi.accounted p)

/-- The item of a loop is settled before the loop gives it up. -/
theorem accounts_settle_owned (hi : Inv s) {item : QueueItem} (h : s.loops[i]? = some drainLoop)
    (howned : owned drainLoop = [item]) (settlement : Settlement) (p : Nat) :
    accounts p (settle s item.promise settlement) =
      (if p < s.promises.length then 1 else 0) + ((owned drainLoop).map QueueItem.promise).count p := by
  have hlt : item.promise < s.promises.length := hi.owned_lt h (howned ▸ List.mem_singleton_self item)
  rw [accounts_settle p _ _ hlt, hi.accounted, howned, List.map_singleton, List.count_singleton]
  simp only [beq_iff_eq]

theorem settle_promises_length (s : Queue) (promise : Nat) (settlement : Settlement) :
    (settle s promise settlement).promises.length = s.promises.length := List.length_modify _ _ _

theorem resolve_inv (hi : Inv s) {item : QueueItem} (h : s.loops[i]? = some drainLoop)
    (howned : owned drainLoop = [item]) (settlement : Settlement) :
    Inv (takeNext (settle s item.promise settlement) i) := by
  refine takeNext_inv h (fun p => ?_) hi.failed
  rw [settle_promises_length]
  exact accounts_settle_owned hi h howned settlement p

/-- A loop whose item has failed settles it and rejects what is left. -/
theorem catchError_inv (hi : Inv s) {item : QueueItem} (h : s.loops[i]? = some drainLoop)
    (howned : owned drainLoop = [item]) (message : String) : Inv (catchError s i item message) := by
  obtain ⟨haccounts, hpromises, hitems, hloops, _⟩ :=
    rejectAll_spec (s := settle { s with failed := true } item.promise (.rejected (.rejected message)))
      (fun other hmem => (settle_promises_length _ _ _).symm ▸ hi.promise_lt hmem)
  refine takeNext_inv (hloops ▸ h) (fun p => ?_) (fun _ => hitems)
  rw [haccounts, hpromises, settle_promises_length]
  exact accounts_settle_owned hi h howned _ p

theorem moveTo_inv (hi : Inv s) (h : s.loops[i]? = some drainLoop) (next : DrainLoop)
    (howned : owned next = owned drainLoop) :
    Inv (moveTo s i next) := by
  have hrunning := running_moveTo h next
  rw [howned] at hrunning
  refine ⟨fun p => ?_, hi.failed, fun hdraining => ?_, fun hitems => ?_⟩
  · have haccounts := accounts_moveTo h p next
    rw [howned] at haccounts
    exact (Nat.add_right_cancel haccounts).trans (hi.accounted p)
  · have := hi.draining hdraining
    omega
  · have := hi.served hitems
    omega

theorem step_inv (e : Event) (hi : Inv s) (h : step s e = some t) : Inv t := by
  cases moves_of_step h with
  | enqueue priority => exact enqueue_inv hi priority
  | clear => exact clear_inv hi
  | operate hloop => exact moveTo_inv hi hloop (.operating _) rfl
  | noAccount message hloop => exact catchError_inv hi hloop rfl message
  | resolve txHash hloop => exact resolve_inv hi hloop rfl (.resolved txHash)
  | fail message hloop => exact catchError_inv hi hloop rfl message

end Invariant

section Result

variable {s t : Queue} {i : Nat} {drainLoop : DrainLoop}

theorem running_rejectAll (hi : Inv s) : running (rejectAll s) = running s := by
  have hloops := (rejectAll_spec (fun item h => hi.promise_lt h)).2.2.2.1
  rw [running, running, hloops]

/-- A loop that starts takes an item at once when there is one. -/
theorem running_start (s : Queue) (hitems : s.items ≠ []) (hfailed : s.failed = false) :
    running (takeNext { s with draining := true, loops := s.loops ++ [.ended] } s.loops.length) =
      running s + 1 := by
  have hnew : (s.loops ++ [DrainLoop.ended])[s.loops.length]? = some .ended :=
    List.getElem?_concat_length
  have hsame : running { s with draining := true, loops := s.loops ++ [.ended] } = running s := by
    simp [running, owned]
  rcases takeNext_cases { s with draining := true, loops := s.loops ++ [.ended] } s.loops.length with
    ⟨item, items, _, _, ht⟩ | ⟨hend, _⟩
  · rw [ht, ← hsame]
    exact running_moveTo (s := { s with draining := true, loops := s.loops ++ [.ended], items }) hnew
      (.gettingAccount item)
  · rcases hend with hnil | hfail
    · exact absurd hnil hitems
    · nomatch hfailed.symm.trans hfail

theorem insert_ne_nil (items : List QueueItem) (item : QueueItem) : insert items item ≠ [] := by
  intro hnil
  have hlength := (insert_perm items item).length_eq
  rw [hnil] at hlength
  nomatch hlength

theorem running_enqueue (s : Queue) (priority : JsNumber) :
    running (enqueue s priority) = if s.failed ∨ s.draining then running s else running s + 1 := by
  unfold enqueue drain
  cases hfailed : s.failed with
  | true => rfl
  | false =>
      cases hdraining : s.draining with
      | true => rfl
      | false =>
          simp only [Bool.false_eq_true, if_false, or_self]
          exact running_start { s with
            failed := false
            nextSeq := s.nextSeq + 1
            draining := false
            promises := s.promises ++ [[]]
            items := insert s.items _ } (insert_ne_nil s.items _) rfl

/-- A loop that gives up its item takes one other item at most. -/
theorem running_takeNext_le {item : QueueItem} (h : s.loops[i]? = some drainLoop)
    (howned : owned drainLoop = [item]) :
    running (takeNext s i) ≤ running s := by
  have hle := running_takeNext h
  rw [howned, List.length_singleton] at hle
  omega

theorem running_catchError_le (hi : Inv s) {item : QueueItem} (h : s.loops[i]? = some drainLoop)
    (howned : owned drainLoop = [item])
    (message : String) : running (catchError s i item message) ≤ running s := by
  obtain ⟨_, _, _, hloops, _⟩ :=
    rejectAll_spec (s := settle { s with failed := true } item.promise (.rejected (.rejected message)))
      (fun other hmem => (settle_promises_length _ _ _).symm ▸ hi.promise_lt hmem)
  have hle := running_takeNext_le (hloops.symm ▸ h : (rejectAll _).loops[i]? = some drainLoop) howned
  rwa [running, running, hloops] at hle

/-- Only an `enqueue` makes more operations run. -/
theorem running_le (hi : Inv s) (e : Event) (he : ∀ priority, e ≠ .enqueue priority)
    (h : step s e = some t) :
    running t ≤ running s := by
  cases moves_of_step h with
  | enqueue priority => exact absurd rfl (he priority)
  | clear => exact (running_rejectAll hi).le
  | operate hloop => exact (Nat.add_right_cancel (running_moveTo hloop (.operating _))).le
  | noAccount message hloop => exact running_catchError_le hi hloop rfl message
  | resolve txHash hloop => exact running_takeNext_le (s := settle s _ (.resolved txHash)) hloop rfl
  | fail message hloop => exact running_catchError_le hi hloop rfl message

theorem serial_iff_noOverlap (hi : Inv s) (hone : running s ≤ 1) (e : Event) :
    Serial s e ↔ NoOverlap s e := by
  cases e with
  | enqueue priority =>
      have hrunning := running_enqueue s priority
      constructor
      · intro hserial
        have hle := hserial _ rfl
        rw [hrunning] at hle
        by_contra hnot
        rw [NoOverlap, not_or, not_or] at hnot
        rw [if_neg (not_or.mpr ⟨hnot.1, hnot.2.1⟩)] at hle
        exact hnot.2.2 (by omega)
      · rintro hok t ht
        obtain rfl := Option.some.inj ht
        rw [hrunning]
        split_ifs with hquiet
        · exact hone
        · rw [not_or] at hquiet
          rcases hok with hfailed | hdraining | hnone
          · exact absurd hfailed hquiet.1
          · exact absurd hdraining hquiet.2
          · omega
  | clear | accountAnswered | operationAnswered =>
      refine iff_of_true (fun t ht => ?_) trivial
      refine (running_le hi _ ?_ ht).trans hone
      exact fun _ => nofun

theorem Inv.settled (hi : Inv s) {settlements : List Settlement} (h : settlements ∈ s.promises) :
    settlements.length ≤ 1 ∧ (running s = 0 → settlements.length = 1) := by
  obtain ⟨p, hp⟩ := List.mem_iff_getElem?.mp h
  have haccounts := hi.accounted p
  rw [if_pos (List.getElem?_eq_some_iff.mp hp).1] at haccounts
  have hsettled : settledTimes p s = settlements.length := by
    rw [settledTimes, hp]
    rfl
  rw [accounts, hsettled] at haccounts
  refine ⟨by omega, fun hnone => ?_⟩
  -- nothing waits for the promise when no loop is left
  have hitems : s.items = [] := by
    by_contra hne
    have := hi.served hne
    omega
  have hloops : (s.loops.map (fun drainLoop => ((owned drainLoop).map QueueItem.promise).count p)).sum = 0 := by
    refine List.sum_eq_zero ?_
    intro n hn
    obtain ⟨drainLoop, hmem, rfl⟩ := List.mem_map.mp hn
    obtain ⟨i, hi⟩ := List.mem_iff_getElem?.mp hmem
    have hnil : (owned drainLoop).length = 0 := Nat.le_zero.mp (hnone ▸ owned_le_running hi)
    rw [List.length_eq_zero_iff.mp hnil]
    rfl
  rw [hitems, hloops] at haccounts
  exact haccounts

/-- At most one operation runs at any time exactly when nothing is enqueued beside an operation from before a `clear`,
and each promise is settled once in any case. -/
theorem serialised_iff (es : List Event) :
    (Allowed step Serial {} es ∧ ∀ s, run step {} es = some s → ∀ settlements ∈ s.promises,
      settlements.length ≤ 1 ∧ (running s = 0 → settlements.length = 1)) ↔
        Allowed step NoOverlap {} es := by
  have hserial : Allowed step Serial {} es ↔ Allowed step NoOverlap {} es := by
    refine allowed_iff (I := fun s => Inv s ∧ running s ≤ 1) ?_ ?_ ⟨initial_inv, Nat.zero_le _⟩ es
    · intro s e t hi hok ht
      exact ⟨step_inv e hi.1 ht, hok t ht⟩
    · intro s e hi
      exact serial_iff_noOverlap hi.1 hi.2 e
  have hsettled : ∀ s, run step {} es = some s → ∀ settlements ∈ s.promises,
      settlements.length ≤ 1 ∧ (running s = 0 → settlements.length = 1) := by
    intro s hrun settlements hmem
    apply Inv.settled _ hmem
    exact run_preserves (fun _ e _ hi ht => step_inv e hi ht) initial_inv hrun
  rw [and_iff_left hsettled]
  exact hserial

end Result

section Runs

/-- The queue is cleared while its first operation runs, and a second one is enqueued. -/
def clearedEarly : List Event :=
  [.enqueue (.finite 0), .accountAnswered 0 (.ok ()), .clear, .enqueue (.finite 0)]

theorem two_running : ∃ s ∈ run step {} clearedEarly, running s = 2 := by decide

end Runs

end SplitSdk.QueueSerialisation
