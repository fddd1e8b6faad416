import SplitSdk.ComponentRuns
import SplitSdk.NumberText
import SplitSdk.OrderedMap
import SplitSdk.PersistentTxQueue

namespace SplitSdk.ContractRetries

open ComponentRuns Interleaving NumberText OrderedMap
open PersistentTxQueue (PendingItem)

variable {A E R : Type}

section Model

structure ContractInvocation (A : Type) where
  contractId : String
  method : String
  args : List A
  source : String

/-- The delays and the maximum are whole numbers. -/
structure ContractRetryQueueConfig where
  baseDelayMs : Nat := 500
  maxDelayMs : Nat := 30000
  maxAttempts : Nat := 5

/-- The payloads without the invocation, which is that of the call. -/
inductive RetryEvent (E : Type)
  | contractRetryAttempted (attempt delay : Nat) (error : E)
  | contractRetryExhausted (attempts : Nat) (error : Option E)

inductive Rejection (E : Type)
  | contractRetryExhaustedError (attempts : Nat) (lastError : Option E)
  /-- An error of the database or of a listener. -/
  | thrown (error : E)

/-- Where a call of `enqueue` is: at one of its `await`s, or over. -/
inductive Stage (E R : Type)
  | storing
  | unstored (error : E)
  | attempting (attempt : Nat)
  | sleeping (attempt : Nat)
  | removing (outcome : Except (Rejection E) R)
  | settled (outcome : Except (Rejection E) R)

/-- The errors are those of the attempts so far. -/
structure Call (A E R : Type) where
  item : PendingItem (ContractInvocation A)
  stage : Stage E R := .storing
  errors : List E := []
  events : List (RetryEvent E) := []

/-- The database may hold items of earlier sessions. -/
structure Queue (A E R : Type) where
  seq : Nat := 0
  calls : List (Call A E R) := []
  memory : List (PendingItem (ContractInvocation A)) := []
  database : OrdMap String (PendingItem (ContractInvocation A)) := OrdMap.empty

variable (config : ContractRetryQueueConfig)

def delay (attempt : Nat) : Nat := min (config.baseDelayMs * 2 ^ (attempt - 1)) config.maxDelayMs

def itemId (seq : Nat) (contractId : String) : String := s!"contract-retry-{seq}-{contractId}"

namespace Call

variable (c : Call A E R)

/-- An event is told, and a listener may throw. -/
def emit (event : RetryEvent E) (next : Stage E R) : Option E → Call A E R
  | none => { c with stage := next, events := c.events ++ [event] }
  | some error => { c with stage := .removing (.error (.thrown error)), events := c.events ++ [event] }

def exhaust (lastError : Option E) (listener : Option E) : Call A E R :=
  c.emit (.contractRetryExhausted config.maxAttempts lastError)
    (.removing (.error (.contractRetryExhaustedError config.maxAttempts lastError))) listener

/-- The item is in the queue, and the loop begins. -/
def begin (listener : Option E) : Call A E R :=
  if 1 ≤ config.maxAttempts then { c with stage := .attempting 1 } else c.exhaust config none listener

def failed (attempt : Nat) (error : E) (listener : Option E) : Call A E R :=
  let caught := { c with errors := c.errors ++ [error] }
  if config.maxAttempts ≤ attempt then caught.exhaust config (some error) listener
  else caught.emit (.contractRetryAttempted attempt (delay config attempt) error) (.sleeping attempt) listener

end Call

/-- An attempt fails where the transaction cannot be built, its simulation fails or gives an error, or it is not confirmed. The
database answers whether it is there. -/
inductive Event (A E R : Type)
  | enqueue (invocation : ContractInvocation A) (now : Numbers.JsNumber)
  | stored (k : Nat) (answer : Except E Bool) (listener : Option E)
  | failed (k : Nat) (error : E) (listener : Option E)
  | succeeded (k : Nat) (result : R)
  | woken (k : Nat)
  | removed (k : Nat) (answer : Except E Bool)

variable (s : Queue A E R)

def enqueue (invocation : ContractInvocation A) (now : Numbers.JsNumber) : Queue A E R :=
  let item := ⟨itemId (s.seq + 1) invocation.contractId, invocation, now⟩
  { s with seq := s.seq + 1, calls := s.calls ++ [{ item }], memory := s.memory ++ [item] }

/-- A call that comes to its `finally` drops its item from the memory at once. -/
def move (k : Nat) (c : Call A E R) : Queue A E R :=
  { s with
    calls := s.calls.set k c
    memory := match c.stage with
      | .removing _ => s.memory.filter (fun item => item.id ≠ c.item.id)
      | _ => s.memory }

def stored (k : Nat) (c : Call A E R) (listener : Option E) : Except E Bool → Queue A E R
  | .error error => move s k { c with stage := .unstored error }
  | .ok there => move { s with database := if there then s.database.set c.item.id c.item else s.database } k (c.begin config listener)

def removed (k : Nat) (c : Call A E R) (outcome : Except (Rejection E) R) : Except E Bool → Queue A E R
  | .error error => move s k { c with stage := .settled (.error (.thrown error)) }
  | .ok there => move { s with database := if there then s.database.delete c.item.id else s.database } k { c with stage := .settled outcome }

def step : Event A E R → Option (Queue A E R)
  | .enqueue invocation now => some (enqueue s invocation now)
  | .stored k answer listener => (s.calls[k]?).bind (fun c => match c.stage with
      | .storing => some (stored config s k c listener answer)
      | _ => none)
  | .failed k error listener => (s.calls[k]?).bind (fun c => match c.stage with
      | .attempting attempt => some (move s k (c.failed config attempt error listener))
      | _ => none)
  | .succeeded k result => (s.calls[k]?).bind (fun c => match c.stage with
      | .attempting _ => some (move s k { c with stage := .removing (.ok result) })
      | _ => none)
  | .woken k => (s.calls[k]?).bind (fun c => match c.stage with
      | .sleeping attempt => some (move s k { c with stage := .attempting (attempt + 1) })
      | _ => none)
  | .removed k answer => (s.calls[k]?).bind (fun c => match c.stage with
      | .removing outcome => some (removed s k c outcome answer)
      | _ => none)

end Model

section Steps

variable {config : ContractRetryQueueConfig} {s t : Queue A E R} {e : Event A E R}

/-- What an event does. -/
inductive Moves (config : ContractRetryQueueConfig) (s : Queue A E R) : Event A E R → Queue A E R → Prop
  | enqueue (invocation now) : Moves config s (.enqueue invocation now) (enqueue s invocation now)
  | stored {k c} (answer listener) (hcall : s.calls[k]? = some c) (hstage : c.stage = .storing) :
      Moves config s (.stored k answer listener) (stored config s k c listener answer)
  | failed {k c attempt} (error listener) (hcall : s.calls[k]? = some c) (hstage : c.stage = .attempting attempt) :
      Moves config s (.failed k error listener) (move s k (c.failed config attempt error listener))
  | succeeded {k c attempt} (result) (hcall : s.calls[k]? = some c) (hstage : c.stage = .attempting attempt) :
      Moves config s (.succeeded k result) (move s k { c with stage := .removing (.ok result) })
  | woken {k c attempt} (hcall : s.calls[k]? = some c) (hstage : c.stage = .sleeping attempt) :
      Moves config s (.woken k) (move s k { c with stage := .attempting (attempt + 1) })
  | removed {k c outcome} (answer) (hcall : s.calls[k]? = some c) (hstage : c.stage = .removing outcome) :
      Moves config s (.removed k answer) (removed s k c outcome answer)

theorem moves_of_step (h : step config s e = some t) : Moves config s e t := by
  cases e with
  | enqueue invocation now =>
      obtain rfl := Option.some.inj h
      exact .enqueue invocation now
  | stored k answer listener =>
      obtain ⟨c, hcall, hstep⟩ := Option.bind_eq_some_iff.mp h
      split at hstep
      · obtain rfl := Option.some.inj hstep
        exact .stored answer listener hcall ‹_›
      · nomatch hstep
  | failed k error listener =>
      obtain ⟨c, hcall, hstep⟩ := Option.bind_eq_some_iff.mp h
      split at hstep
      · obtain rfl := Option.some.inj hstep
        exact .failed error listener hcall ‹_›
      · nomatch hstep
  | succeeded k result =>
      obtain ⟨c, hcall, hstep⟩ := Option.bind_eq_some_iff.mp h
      split at hstep
      · obtain rfl := Option.some.inj hstep
        exact .succeeded result hcall ‹_›
      · nomatch hstep
  | woken k =>
      obtain ⟨c, hcall, hstep⟩ := Option.bind_eq_some_iff.mp h
      split at hstep
      · obtain rfl := Option.some.inj hstep
        exact .woken hcall ‹_›
      · nomatch hstep
  | removed k answer =>
      obtain ⟨c, hcall, hstep⟩ := Option.bind_eq_some_iff.mp h
      split at hstep
      · obtain rfl := Option.some.inj hstep
        exact .removed answer hcall ‹_›
      · nomatch hstep

end Steps

section Attempts

variable {config : ContractRetryQueueConfig} {c d : Call A E R} {errors : List E}

/-- What listeners are told of these errors: of each but the last one that is allowed that there will be another attempt, and after
which delay. -/
def told (config : ContractRetryQueueConfig) (errors : List E) : List (RetryEvent E) :=
  (errors.take (config.maxAttempts - 1)).mapIdx (fun i error => .contractRetryAttempted (i + 1) (delay config (i + 1)) error) ++
    if config.maxAttempts ≤ errors.length then [.contractRetryExhausted config.maxAttempts errors.getLast?] else []

/-- The outcome is that of the attempts, which are no more than allowed. -/
structure Ended (config : ContractRetryQueueConfig) (c : Call A E R) (outcome : Except (Rejection E) R) : Prop where
  events : c.events = told config c.errors
  attempts : c.errors.length ≤ config.maxAttempts
  resolved : ∀ result, outcome = .ok result → c.errors.length < config.maxAttempts
  exhausted : ∀ attempts lastError, outcome = .error (.contractRetryExhaustedError attempts lastError) →
    attempts = config.maxAttempts ∧ c.errors.length = config.maxAttempts ∧ lastError = c.errors.getLast?

def Sound (config : ContractRetryQueueConfig) (c : Call A E R) : Prop :=
  match c.stage with
  | .storing | .unstored _ => c.errors = [] ∧ c.events = []
  | .attempting attempt => attempt = c.errors.length + 1 ∧ attempt ≤ config.maxAttempts ∧ c.events = told config c.errors
  | .sleeping attempt => attempt = c.errors.length ∧ attempt < config.maxAttempts ∧ c.events = told config c.errors
  | .removing outcome => Ended config c outcome
  | .settled outcome => ∃ reached, Ended config c reached ∧ (outcome = reached ∨ ∃ error, outcome = .error (.thrown error))

/-- What can happen to a call. -/
inductive Turn (config : ContractRetryQueueConfig) (c : Call A E R) : Call A E R → Prop
  | unstored (error) (h : c.stage = .storing) : Turn config c { c with stage := .unstored error }
  | begin (listener) (h : c.stage = .storing) : Turn config c (c.begin config listener)
  | failed {attempt} (error listener) (h : c.stage = .attempting attempt) : Turn config c (c.failed config attempt error listener)
  | succeeded {attempt} (result) (h : c.stage = .attempting attempt) : Turn config c { c with stage := .removing (.ok result) }
  | woken {attempt} (h : c.stage = .sleeping attempt) : Turn config c { c with stage := .attempting (attempt + 1) }
  | unremoved {outcome} (error) (h : c.stage = .removing outcome) : Turn config c { c with stage := .settled (.error (.thrown error)) }
  | removed {outcome} (h : c.stage = .removing outcome) : Turn config c { c with stage := .settled outcome }

theorem told_nil (h : 1 ≤ config.maxAttempts) : told config ([] : List E) = [] := by
  have hfew : ¬config.maxAttempts ≤ ([] : List E).length := Nat.not_le.mpr h
  rw [told, if_neg hfew, List.take_nil]
  rfl

theorem told_retried (h : errors.length + 1 < config.maxAttempts) (error : E) : told config (errors ++ [error]) =
    told config errors ++ [.contractRetryAttempted (errors.length + 1) (delay config (errors.length + 1)) error] := by
  have hlength : (errors ++ [error]).length = errors.length + 1 := List.length_append
  rw [told, told, List.take_of_length_le (by omega), List.take_of_length_le (by omega), if_neg (by omega), if_neg (by omega),
    List.mapIdx_concat, List.append_nil, List.append_nil]

theorem told_exhausted (h : errors.length + 1 = config.maxAttempts) (error : E) : told config (errors ++ [error]) =
    told config errors ++ [.contractRetryExhausted config.maxAttempts (some error)] := by
  have hlength : (errors ++ [error]).length = errors.length + 1 := List.length_append
  have hmax : config.maxAttempts - 1 = errors.length := by omega
  rw [told, told, hmax, List.take_left, List.take_length, if_pos (by omega), if_neg (by omega), List.append_nil, List.getLast?_concat]

theorem sound_exhaust {lastError : Option E} (hevents : c.events ++ [.contractRetryExhausted config.maxAttempts lastError] = told config c.errors)
    (hlength : c.errors.length = config.maxAttempts) (hlast : lastError = c.errors.getLast?) (listener : Option E) :
    Sound config (c.exhaust config lastError listener) := by
  cases listener with
  | none =>
      refine ⟨hevents, Nat.le_of_eq hlength, nofun, fun attempts last heq => ?_⟩
      obtain ⟨rfl, rfl⟩ := Rejection.contractRetryExhaustedError.inj (Except.error.inj heq)
      exact ⟨rfl, hlength, hlast⟩
  | some error => exact ⟨hevents, Nat.le_of_eq hlength, nofun, nofun⟩

theorem sound_begin (h : Sound config c) (hstage : c.stage = .storing) (listener : Option E) : Sound config (c.begin config listener) := by
  rw [Sound, hstage] at h
  obtain ⟨herrors, hevents⟩ := h
  unfold Call.begin
  split_ifs with hone
  · exact ⟨by rw [herrors]; rfl, hone, by rw [hevents, herrors, told_nil hone]⟩
  · have hzero : config.maxAttempts = 0 := by omega
    refine sound_exhaust ?_ (by rw [herrors, hzero]; rfl) (by rw [herrors]; rfl) listener
    rw [hevents, herrors, told, hzero]
    rfl

theorem sound_failed {attempt : Nat} (h : Sound config c) (hstage : c.stage = .attempting attempt) (error : E) (listener : Option E) :
    Sound config (c.failed config attempt error listener) := by
  rw [Sound, hstage] at h
  obtain ⟨rfl, hle, hevents⟩ := h
  unfold Call.failed
  dsimp only
  have hlength : (c.errors ++ [error]).length = c.errors.length + 1 := List.length_append
  split_ifs with hmax
  · have heq := Nat.le_antisymm hle hmax
    refine sound_exhaust ?_ (hlength.trans heq) List.getLast?_concat.symm listener
    rw [told_exhausted heq, ← hevents]
  · have hlt := Nat.lt_of_not_le hmax
    have hnews := told_retried hlt error
    rw [← hevents] at hnews
    cases listener with
    | none => exact ⟨hlength.symm, hlt, hnews.symm⟩
    | some thrown => exact ⟨hnews.symm, hlength ▸ hle, nofun, nofun⟩

theorem sound_turn (c d : Call A E R) (h : Sound config c) (hturn : Turn config c d) : Sound config d := by
  cases hturn with
  | unstored error hstage =>
      rw [Sound, hstage] at h
      exact h
  | begin listener hstage => exact sound_begin h hstage listener
  | failed error listener hstage => exact sound_failed h hstage error listener
  | succeeded result hstage =>
      rw [Sound, hstage] at h
      obtain ⟨rfl, hle, hevents⟩ := h
      exact ⟨hevents, Nat.le_of_succ_le hle, fun _ _ => hle, nofun⟩
  | woken hstage =>
      rw [Sound, hstage] at h
      obtain ⟨rfl, hlt, hevents⟩ := h
      exact ⟨rfl, hlt, hevents⟩
  | unremoved error hstage =>
      rw [Sound, hstage] at h
      obtain ⟨hevents, hattempts, hresolved, hexhausted⟩ := h
      exact ⟨_, ⟨hevents, hattempts, hresolved, hexhausted⟩, .inr ⟨error, rfl⟩⟩
  | removed hstage =>
      rw [Sound, hstage] at h
      obtain ⟨hevents, hattempts, hresolved, hexhausted⟩ := h
      exact ⟨_, ⟨hevents, hattempts, hresolved, hexhausted⟩, .inl rfl⟩

def IsNew (c : Call A E R) : Prop := ∃ item, c = { item }

theorem sound_new (h : IsNew c) : Sound config c := by
  obtain ⟨item, rfl⟩ := h
  exact ⟨rfl, rfl⟩

theorem step_grows (s : Queue A E R) (e : Event A E R) (t : Queue A E R) (h : step config s e = some t) :
    Grows (Turn config) IsNew s.calls t.calls := by
  cases moves_of_step h with
  | enqueue invocation now => exact .push ⟨_, rfl⟩ s.calls
  | stored answer listener hcall hstage =>
      cases answer with
      | error error => exact .set hcall (.unstored error hstage)
      | ok there => exact .set hcall (.begin listener hstage)
  | failed error listener hcall hstage => exact .set hcall (.failed error listener hstage)
  | succeeded result hcall hstage => exact .set hcall (.succeeded result hstage)
  | woken hcall hstage => exact .set hcall (.woken hstage)
  | removed answer hcall hstage =>
      cases answer with
      | error error => exact .set hcall (.unremoved error hstage)
      | ok there => exact .set hcall (.removed hstage)

end Attempts

section Items

variable {config : ContractRetryQueueConfig} {s t : Queue A E R} {c d : Call A E R} {k : Nat} {e : Event A E R}

theorem itemId_inj {m n : Nat} {contractId contractId' : String} (h : itemId m contractId = itemId n contractId') : m = n := by
  have hchars := congrArg String.toList h
  simp only [itemId, String.toList_append, toString, Nat.toList_repr, List.append_assoc, List.append_cancel_left_eq] at hchars
  have hdash : ∀ n : Nat, '-' ∉ Nat.toDigits 10 n := fun n hmem => absurd (allDigits_toDigits n _ hmem) (by decide)
  have hdigits := (split_first hchars (hdash m) (hdash n)).1
  rw [← Nat.ofDigitChars_ten_toDigits (n := m), hdigits, Nat.ofDigitChars_ten_toDigits]

/-- The item stays in the memory, also when the database could not store it. -/
def heldItem (c : Call A E R) : Option (PendingItem (ContractInvocation A)) :=
  match c.stage with
  | .removing _ | .settled _ => none
  | _ => some c.item

theorem heldItem_eq_some {item : PendingItem (ContractInvocation A)} (h : heldItem c = some item) : c.item = item := by
  unfold heldItem at h
  split at h
  · nomatch h
  · nomatch h
  · exact Option.some.inj h

/-- Calls are numbered, and the memory holds the items of those that have not come to their end. -/
structure Kept (s : Queue A E R) : Prop where
  seq : s.seq = s.calls.length
  ids : ∀ (k : Nat) c, s.calls[k]? = some c → c.item.id = itemId (k + 1) c.item.payload.contractId
  memory : s.memory = s.calls.filterMap heldItem

theorem Kept.inj (h : Kept s) {j : Nat} (hc : s.calls[k]? = some c) (hd : s.calls[j]? = some d) (hid : c.item.id = d.item.id) : k = j := by
  rw [h.ids k c hc, h.ids j d hd] at hid
  exact Nat.succ.inj (itemId_inj hid)

theorem filterMap_set_none {calls : List (Call A E R)} (h : ∀ (j : Nat) b, calls[j]? = some b → b.item.id = c.item.id → j = k)
    (hc : calls[k]? = some c) (hnone : heldItem d = none) :
    (calls.set k d).filterMap heldItem = (calls.filterMap heldItem).filter (fun item => item.id ≠ c.item.id) := by
  induction calls generalizing k with
  | nil => rfl
  | cons first calls ih =>
      cases k with
      | zero =>
          obtain rfl : first = c := Option.some.inj hc
          have hothers : (calls.filterMap heldItem).filter (fun item => item.id ≠ first.item.id) = calls.filterMap heldItem := by
            refine List.filter_eq_self.mpr (fun item hitem => decide_eq_true (fun hid => ?_))
            obtain ⟨b, hb, hheld⟩ := List.mem_filterMap.mp hitem
            obtain rfl := heldItem_eq_some hheld
            obtain ⟨j, hj⟩ := List.getElem?_of_mem hb
            nomatch h (j + 1) b hj hid
          rw [List.set_cons_zero, List.filterMap_cons_none hnone]
          cases hheld : heldItem first with
          | none => rw [List.filterMap_cons_none hheld, hothers]
          | some item =>
              rw [List.filterMap_cons_some hheld, List.filter_cons_of_neg, hothers]
              rw [heldItem_eq_some hheld]
              simp
      | succ k =>
          have hfirst : first.item.id ≠ c.item.id := fun hid => nomatch h 0 first rfl hid
          have hrest := ih (fun j b hb hid => Nat.succ.inj (h (j + 1) b hb hid)) hc
          rw [List.set_cons_succ]
          cases hheld : heldItem first with
          | none => rw [List.filterMap_cons_none hheld, List.filterMap_cons_none hheld, hrest]
          | some item =>
              obtain rfl := heldItem_eq_some hheld
              have hkeep : decide (first.item.id ≠ c.item.id) = true := decide_eq_true hfirst
              rw [List.filterMap_cons_some hheld, List.filterMap_cons_some hheld, List.filter_cons, if_pos hkeep, hrest]

theorem kept_move (h : Kept s) (hc : s.calls[k]? = some c) (hitem : d.item = c.item)
    (hheld : (∃ outcome, d.stage = .removing outcome) ∨ (∀ outcome, d.stage ≠ .removing outcome) ∧ heldItem d = heldItem c) :
    Kept (move s k d) where
  seq := h.seq.trans List.length_set.symm
  ids j b hb := by
    rcases of_getElem?_set hb with ⟨rfl, rfl⟩ | ⟨-, hb⟩
    · rw [hitem]
      exact h.ids j c hc
    · exact h.ids j b hb
  memory := by
    rw [move]
    dsimp only
    rcases hheld with ⟨outcome, houtcome⟩ | ⟨hother, hsame⟩
    · have hnone : heldItem d = none := by rw [heldItem, houtcome]
      rw [houtcome, filterMap_set_none (fun j b hb hid => h.inj hb hc hid) hc hnone, ← h.memory, hitem]
    · rw [filterMap_set heldItem hc hsame, ← h.memory]
      split
      · exact absurd ‹_› (hother _)
      · rfl

theorem kept_database (h : Kept s) (database : OrdMap String (PendingItem (ContractInvocation A))) : Kept { s with database } :=
  ⟨h.seq, h.ids, h.memory⟩

/-- From an attempt, or from its sleep, a call goes on or comes to its end. -/
theorem emit_cases (c : Call A E R) (event : RetryEvent E) (next : Stage E R) (listener : Option E) :
    (c.emit event next listener).item = c.item ∧ ((c.emit event next listener).stage = next ∨
      ∃ outcome, (c.emit event next listener).stage = .removing outcome) := by
  cases listener with
  | none => exact ⟨rfl, .inl rfl⟩
  | some error => exact ⟨rfl, .inr ⟨_, rfl⟩⟩

theorem exhaust_cases (config : ContractRetryQueueConfig) (c : Call A E R) (lastError listener : Option E) :
    (c.exhaust config lastError listener).item = c.item ∧ ∃ outcome, (c.exhaust config lastError listener).stage = .removing outcome := by
  obtain ⟨hitem, hstage | hstage⟩ := emit_cases c (.contractRetryExhausted config.maxAttempts lastError)
    (.removing (.error (.contractRetryExhaustedError config.maxAttempts lastError))) listener
  · exact ⟨hitem, _, hstage⟩
  · exact ⟨hitem, hstage⟩

/-- A call under way: its item is in the database. -/
def UnderWay (c : Call A E R) : Prop :=
  (∃ attempt, c.stage = .attempting attempt) ∨ (∃ attempt, c.stage = .sleeping attempt) ∨ ∃ outcome, c.stage = .removing outcome

theorem begin_cases (config : ContractRetryQueueConfig) (c : Call A E R) (listener : Option E) :
    (c.begin config listener).item = c.item ∧ UnderWay (c.begin config listener) := by
  unfold Call.begin
  split_ifs
  · exact ⟨rfl, .inl ⟨1, rfl⟩⟩
  · exact (exhaust_cases config c none listener).imp_right (fun h => .inr (.inr h))

theorem failed_cases (config : ContractRetryQueueConfig) (c : Call A E R) (attempt : Nat) (error : E) (listener : Option E) :
    (c.failed config attempt error listener).item = c.item ∧ UnderWay (c.failed config attempt error listener) := by
  unfold Call.failed
  dsimp only
  split_ifs
  · exact (exhaust_cases config _ (some error) listener).imp_right (fun h => .inr (.inr h))
  · obtain ⟨hitem, hstage⟩ := emit_cases { c with errors := c.errors ++ [error] }
      (.contractRetryAttempted attempt (delay config attempt) error) (.sleeping attempt) listener
    exact ⟨hitem, .inr (hstage.imp (fun h => ⟨attempt, h⟩) id)⟩

theorem kept_underWay (h : Kept s) (hc : s.calls[k]? = some c) (hitem : d.item = c.item) (hunder : UnderWay d)
    (hheld : heldItem c = some c.item) : Kept (move s k d) := by
  refine kept_move h hc hitem ?_
  rcases hunder with ⟨attempt, hstage⟩ | ⟨attempt, hstage⟩ | ⟨outcome, hstage⟩
  · exact .inr ⟨fun outcome hbad => (nomatch hstage.symm.trans hbad), by rw [hheld, ← hitem, heldItem, hstage]⟩
  · exact .inr ⟨fun outcome hbad => (nomatch hstage.symm.trans hbad), by rw [hheld, ← hitem, heldItem, hstage]⟩
  · exact .inl ⟨outcome, hstage⟩

theorem heldItem_of_storing (h : c.stage = .storing) : heldItem c = some c.item := by rw [heldItem, h]

theorem heldItem_of_removing {outcome : Except (Rejection E) R} (h : c.stage = .removing outcome) : heldItem c = none := by rw [heldItem, h]

theorem heldItem_of_underWay (h : UnderWay c) (hother : ∀ outcome, c.stage ≠ .removing outcome) : heldItem c = some c.item := by
  rcases h with ⟨attempt, hstage⟩ | ⟨attempt, hstage⟩ | ⟨outcome, hstage⟩
  · rw [heldItem, hstage]
  · rw [heldItem, hstage]
  · exact absurd hstage (hother outcome)

theorem kept_enqueue (h : Kept s) (invocation : ContractInvocation A) (now : Numbers.JsNumber) : Kept (enqueue s invocation now) where
  seq := by
    rw [enqueue]
    dsimp only
    rw [List.length_append, List.length_singleton, h.seq]
  ids k c hc := by
    rcases of_getElem?_push hc with ⟨rfl, rfl⟩ | hc
    · rw [h.seq]
    · exact h.ids k c hc
  memory := by
    rw [enqueue]
    dsimp only
    rw [List.filterMap_append, ← h.memory]
    rfl

theorem kept_start (old : OrdMap String (PendingItem (ContractInvocation A))) : Kept ({ database := old } : Queue A E R) where
  seq := rfl
  ids k c hc := absurd hc (by simp)
  memory := rfl

theorem kept_step (s : Queue A E R) (e : Event A E R) (t : Queue A E R) (h : Kept s) (hstep : step config s e = some t) : Kept t := by
  cases moves_of_step hstep with
  | enqueue invocation now => exact kept_enqueue h invocation now
  | stored answer listener hc hstage =>
      cases answer with
      | error error => exact kept_move h hc rfl (.inr ⟨(fun _ hbad => nomatch hbad), (heldItem_of_storing hstage).symm⟩)
      | ok there =>
          obtain ⟨hitem, hunder⟩ := begin_cases config _ listener
          exact kept_underWay (kept_database h _) hc hitem hunder (heldItem_of_storing hstage)
  | failed error listener hc hstage =>
      obtain ⟨hitem, hunder⟩ := failed_cases config _ _ error listener
      exact kept_underWay h hc hitem hunder (heldItem_of_underWay (.inl ⟨_, hstage⟩) (fun _ hbad => nomatch hstage.symm.trans hbad))
  | succeeded result hc hstage => exact kept_move h hc rfl (.inl ⟨_, rfl⟩)
  | woken hc hstage =>
      exact kept_underWay h hc rfl (.inl ⟨_, rfl⟩) (heldItem_of_underWay (.inr (.inl ⟨_, hstage⟩)) (fun _ hbad => nomatch hstage.symm.trans hbad))
  | removed answer hc hstage =>
      have hnone := heldItem_of_removing hstage
      cases answer with
      | error error => exact kept_move h hc rfl (.inr ⟨(fun _ hbad => nomatch hbad), hnone.symm⟩)
      | ok there => exact kept_move (kept_database h _) hc rfl (.inr ⟨(fun _ hbad => nomatch hbad), hnone.symm⟩)

end Items

section Database

variable {config : ContractRetryQueueConfig} {s t : Queue A E R} {c d : Call A E R} {k : Nat} {e : Event A E R}
variable {old : OrdMap String (PendingItem (ContractInvocation A))}

/-- The database is there and does what it is asked to. -/
def Reliable : Event A E R → Prop
  | .stored _ (.ok there) _ => there = true
  | .removed _ (.ok there) => there = true
  | .removed _ (.error _) => False
  | _ => True

/-- What the database has under the id of a call. -/
def record (old : OrdMap String (PendingItem (ContractInvocation A))) (c : Call A E R) : Option (PendingItem (ContractInvocation A)) :=
  match c.stage with
  | .storing | .unstored _ => old.get? c.item.id
  | .settled _ => none
  | _ => some c.item

structure Recorded (old : OrdMap String (PendingItem (ContractInvocation A))) (s : Queue A E R) : Prop where
  calls : ∀ (k : Nat) c, s.calls[k]? = some c → s.database.get? c.item.id = record old c
  others : ∀ id, (∀ (k : Nat) c, s.calls[k]? = some c → c.item.id ≠ id) → s.database.get? id = old.get? id

theorem record_of_underWay (h : UnderWay c) : record old c = some c.item := by
  rcases h with ⟨attempt, hstage⟩ | ⟨attempt, hstage⟩ | ⟨outcome, hstage⟩ <;> rw [record, hstage]

/-- A call moves on, and nothing but the record under its id may have changed. -/
theorem recorded_move (h : Recorded old s) (hkept : Kept s) (hc : s.calls[k]? = some c) (hitem : d.item = c.item)
    {database : OrdMap String (PendingItem (ContractInvocation A))} (hframe : ∀ id, id ≠ c.item.id → database.get? id = s.database.get? id)
    (hrecord : database.get? c.item.id = record old d) : Recorded old (move { s with database } k d) where
  calls j b hb := by
    rcases of_getElem?_set hb with ⟨rfl, rfl⟩ | ⟨hne, hb⟩
    · rw [hitem]
      exact hrecord
    · exact (hframe _ (fun hid => hne (hkept.inj hb hc hid))).trans (h.calls j b hb)
  others id hid := by
    have hne : id ≠ c.item.id := fun heq =>
      hid k d (List.getElem?_set_self (List.getElem?_eq_some_iff.mp hc).1) (hitem ▸ heq.symm)
    refine (hframe id hne).trans (h.others id (fun j b hb heq => ?_))
    rcases eq_or_ne j k with rfl | hjk
    · obtain rfl := Option.some.inj (hc.symm.trans hb)
      exact hne heq.symm
    · exact hid j b ((List.getElem?_set_ne hjk.symm).trans hb) heq

theorem recorded_start (old : OrdMap String (PendingItem (ContractInvocation A))) : Recorded old ({ database := old } : Queue A E R) where
  calls k c hc := absurd hc (by simp)
  others _ _ := rfl

theorem recorded_step (s : Queue A E R) (e : Event A E R) (t : Queue A E R) (h : Kept s ∧ Recorded old s) (hok : Reliable e)
    (hstep : step config s e = some t) : Kept t ∧ Recorded old t := by
  refine ⟨kept_step s e t h.1 hstep, ?_⟩
  obtain ⟨hkept, hrecorded⟩ := h
  cases moves_of_step hstep with
  | enqueue invocation now =>
      have hkept' := kept_enqueue hkept invocation now
      constructor
      · intro k c hc
        rcases of_getElem?_push hc with ⟨rfl, rfl⟩ | hc
        · refine hrecorded.others _ (fun j b hb hid => ?_)
          have hlt := (List.getElem?_eq_some_iff.mp hb).1
          have hj := hkept'.inj ((List.getElem?_append_left hlt).trans hb) List.getElem?_concat_length hid
          exact hlt.ne hj
        · exact hrecorded.calls k c hc
      · intro id hid
        refine hrecorded.others id (fun j b hb => hid j b ?_)
        exact (List.getElem?_append_left (List.getElem?_eq_some_iff.mp hb).1).trans hb
  | stored answer listener hc hstage =>
      cases answer with
      | error error =>
          refine recorded_move hrecorded hkept hc ?_ (fun _ _ => rfl) ?_
          · rfl
          · rw [hrecorded.calls _ _ hc, record, hstage]
            rfl
      | ok there =>
          obtain rfl : there = true := hok
          obtain ⟨hitem, hunder⟩ := begin_cases config _ listener
          refine recorded_move hrecorded hkept hc hitem (fun id hid => ?_) ?_
          · rw [if_pos rfl, OrdMap.get?_set, if_neg hid]
          · rw [if_pos rfl, OrdMap.get?_set, if_pos rfl, record_of_underWay hunder, hitem]
  | failed error listener hc hstage =>
      obtain ⟨hitem, hunder⟩ := failed_cases config _ _ error listener
      refine recorded_move hrecorded hkept hc hitem (fun _ _ => rfl) ?_
      rw [hrecorded.calls _ _ hc, record_of_underWay hunder, record_of_underWay (.inl ⟨_, hstage⟩), hitem]
  | succeeded result hc hstage =>
      refine recorded_move hrecorded hkept hc ?_ (fun _ _ => rfl) ?_
      · rfl
      · rw [hrecorded.calls _ _ hc, record_of_underWay (.inl ⟨_, hstage⟩)]
        rfl
  | woken hc hstage =>
      refine recorded_move hrecorded hkept hc ?_ (fun _ _ => rfl) ?_
      · rfl
      · rw [hrecorded.calls _ _ hc, record_of_underWay (.inr (.inl ⟨_, hstage⟩))]
        rfl
  | removed answer hc hstage =>
      cases answer with
      | error error => exact False.elim hok
      | ok there =>
          obtain rfl : there = true := hok
          refine recorded_move hrecorded hkept hc ?_ (fun id hid => ?_) ?_
          · rfl
          · rw [if_pos rfl, OrdMap.get?_delete, if_neg hid]
          · rw [if_pos rfl, OrdMap.get?_delete, if_pos rfl]
            rfl

end Database

section Samples

def sampleConfig : ContractRetryQueueConfig := { maxAttempts := 2 }

/-- An item of an earlier session has the id that the first call gets. -/
def sampleOld : OrdMap String (PendingItem (ContractInvocation Unit)) :=
  OrdMap.empty.set "contract-retry-1-C" ⟨"contract-retry-1-C", ⟨"C", "release", [], "G"⟩, .finite 1⟩

def sampleEvents : List (Event Unit String Nat) :=
  [.enqueue ⟨"C", "refund", [], "G"⟩ (.finite 2), .stored 0 (.ok true) none, .failed 0 "congested" none, .woken 0, .succeeded 0 7]

def sampleQueue : Queue Unit String Nat := (run (step sampleConfig) { database := sampleOld } sampleEvents).getD {}

theorem run_sampleEvents : run (step sampleConfig) { database := sampleOld } sampleEvents = some sampleQueue := rfl

end Samples

section Results

variable {config : ContractRetryQueueConfig} {s : Queue A E R} {es : List (Event A E R)}
variable {old : OrdMap String (PendingItem (ContractInvocation A))}

/-- However the calls overlap, each attempts no more than it may, tells what it should, and comes to the outcome of its attempts. -/
theorem calls_sound (h : run (step config) { database := old } es = some s) : (∀ c ∈ s.calls, Sound config c) ∧ Kept s :=
  ⟨(run_grows step_grows h).forall (fun _ => sound_new) sound_turn (fun _ hc => absurd hc List.not_mem_nil),
    run_preserves kept_step (kept_start old) h⟩

theorem calls_sound_two : (∀ c ∈ sampleQueue.calls, Sound sampleConfig c) ∧ Kept sampleQueue := calls_sound run_sampleEvents

/-- The database holds the items of the calls under way, and of what it held before only that whose id no call has stored. -/
theorem database_records (hok : ∀ e ∈ es, Reliable e) (h : run (step config) { database := old } es = some s) : Recorded old s :=
  (run_invariant recorded_step _ _ es ⟨kept_start old, recorded_start old⟩ (allowed_of_forall _ hok) h).2

theorem database_records_two : Recorded sampleOld sampleQueue :=
  database_records (by simp [sampleEvents, Reliable]) run_sampleEvents

end Results

end SplitSdk.ContractRetries
