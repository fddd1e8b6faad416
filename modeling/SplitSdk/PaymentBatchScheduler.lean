import SplitSdk.OrderedMap
import SplitSdk.PlatformTimers

namespace SplitSdk.PaymentBatchScheduler

open Numbers OrderedMap PlatformTimers

section Data

inductive BatchStatus
  | scheduled
  | executing
  | executed
  | cancelled
  | failed
  deriving DecidableEq

structure PaymentBatch (P : Type) where
  payments : List P
  scheduledAt : JsNumber
  status : BatchStatus := .scheduled
  createdAt : ℚ
  executedAt : Option ℚ := none
  error : Option String := none
  deriving DecidableEq

/-- Where a call of `execute` is. The listeners are called before it goes on. -/
inductive Position
  | awaitingExecutor
  | notifyingExecuted
  | notifyingFailed
  | returned
  | rejected (error : String)
  deriving DecidableEq

/-- A call of `execute` that has called the executor, with the time of that and whether the executor has succeeded. -/
structure Execution where
  batch : String
  time : ℚ
  succeeded : Bool := false
  position : Position := .awaitingExecutor
  deriving DecidableEq

structure Scheduler (P : Type) where
  maxBatchSize : JsNumber := .finite 100
  batches : OrdMap String (PaymentBatch P) := .empty
  timers : OrdMap String Nat := .empty
  platform : Timers String := []
  sequence : Nat := 0
  executions : List Execution := []
  now : ℚ
  uptime : ℚ := 0

end Data

section Operations

variable {P : Type} (s : Scheduler P)

def start (maxBatchSize : JsNumber) (now : ℚ) : Scheduler P := { maxBatchSize, now }

def nextId : Scheduler P × String :=
  ({ s with sequence := s.sequence + 1 }, s!"batch_{Numbers.toString (.finite s.now)}_{s.sequence + 1}")

/-- The timer's callback keeps the id of the batch. -/
def armTimer (id : String) (batch : PaymentBatch P) : Scheduler P :=
  { s with
    platform := setTimeout s.platform s.uptime id (delayUntil batch.scheduledAt s.now)
    timers := s.timers.set id s.platform.length }

def disarmTimer (id : String) : Scheduler P :=
  { s with
    platform := match s.timers.get? id with
      | some handle => clearTimeout s.platform handle
      | none => s.platform
    timers := s.timers.delete id }

def setBatch (id : String) (batch : PaymentBatch P) : Scheduler P :=
  { s with batches := s.batches.set id batch }

/-- `schedule` from its second half on, where the id of the batch is known. -/
def add (id : String) (payments : List P) (scheduledAt : JsNumber) :
    Scheduler P × Except String String :=
  if s.batches.has id then (s, .error s!"Batch {id} already exists")
  else
    let batch : PaymentBatch P := { payments, scheduledAt, createdAt := s.now }
    (armTimer (setBatch s id batch) id batch, .ok id)

/-- The batch that `schedule` returns is the one with the id. -/
def schedule (payments : List P) (scheduledAt : JsNumber) (id : Option String) :
    Scheduler P × Except String String :=
  if payments.isEmpty then (s, .error "Cannot schedule an empty payment batch")
  else if s.maxBatchSize.lt (.finite payments.length) then
    (s, .error s!"Batch size {payments.length} exceeds maximum of {Numbers.toString s.maxBatchSize}")
  else match scheduledAt with
    | .finite _ =>
        match id with
        | some id => add s id payments scheduledAt
        | none => add (nextId s).1 (nextId s).2 payments scheduledAt
    | _ => (s, .error "scheduledAt must be a finite timestamp")

def cancel (id : String) : Scheduler P × Bool :=
  match s.batches.get? id with
  | some batch =>
      if batch.status = .scheduled then (setBatch (disarmTimer s id) id { batch with status := .cancelled }, true)
      else (s, false)
  | none => (s, false)

def dispose : Scheduler P := s.timers.keys.foldl disarmTimer s

/-- `execute` up to its `await`. -/
def execute (id : String) : Scheduler P :=
  match s.batches.get? id with
  | some batch =>
      if batch.status = .scheduled then
        { setBatch (disarmTimer s id) id { batch with status := .executing } with
          executions := s.executions ++ [{ batch := id, time := s.now }] }
      else s
  | none => s

/-- The callback of a timer. -/
def timeout (id : String) : Scheduler P := execute { s with timers := s.timers.delete id } id

def setExecution (k : Nat) (execution : Execution) : Scheduler P :=
  { s with executions := s.executions.set k execution }

/-- The `catch` block up to its listeners. -/
def fail (k : Nat) (execution : Execution) (batch : PaymentBatch P) (message : String) : Scheduler P :=
  setExecution (setBatch s execution.batch { batch with status := .failed, error := some message }) k
    { execution with position := .notifyingFailed }

/-- From the end of the executor. -/
def answered (k : Nat) (execution : Execution) (batch : PaymentBatch P) :
    Except String Unit → Scheduler P
  | .ok () =>
      setExecution (setBatch s execution.batch { batch with status := .executed, executedAt := some s.now }) k
        { execution with succeeded := true, position := .notifyingExecuted }
  | .error message => fail s k execution batch message

/-- From the end of the listeners of `executed`. They are called in the `try` block. -/
def notifiedExecuted (k : Nat) (execution : Execution) (batch : PaymentBatch P) :
    Except String Unit → Scheduler P
  | .ok () => setExecution s k { execution with position := .returned }
  | .error message => fail s k execution batch message

/-- From the end of the listeners of `failed`. -/
def notifiedFailed (k : Nat) (execution : Execution) : Except String Unit → Scheduler P
  | .ok () => setExecution s k { execution with position := .returned }
  | .error message => setExecution s k { execution with position := .rejected message }

end Operations

section Runs

inductive Event (P : Type)
  | schedule (payments : List P) (scheduledAt : JsNumber) (id : Option String)
  | cancel (id : String)
  | dispose
  | execute (id : String)
  | fire (handle : Nat)
  | answered (k : Nat) (answer : Except String Unit)
  | notified (k : Nat) (answer : Except String Unit)
  | elapse (ms : ℚ)
  /-- The clock that `now` reads is set. Timers go on as before. -/
  | setClock (now : ℚ)

variable {P : Type}

/-- An execution with its batch, which stays the same object. -/
def executing (s : Scheduler P) (k : Nat) : Option (Execution × PaymentBatch P) :=
  (s.executions[k]?).bind (fun execution => (s.batches.get? execution.batch).map (fun batch => (execution, batch)))

def step (s : Scheduler P) : Event P → Option (Scheduler P)
  | .schedule payments scheduledAt id => some (schedule s payments scheduledAt id).1
  | .cancel id => some (cancel s id).1
  | .dispose => some (dispose s)
  | .execute id => some (execute s id)
  | .fire handle =>
      (fire s.platform s.uptime handle).map (fun (id, platform) => timeout { s with platform } id)
  | .answered k answer =>
      match executing s k with
      | some (execution, batch) =>
          if execution.position = .awaitingExecutor then some (answered s k execution batch answer) else none
      | none => none
  | .notified k answer =>
      match executing s k with
      | some (execution, batch) =>
          match execution.position with
          | .notifyingExecuted => some (notifiedExecuted s k execution batch answer)
          | .notifyingFailed => some (notifiedFailed s k execution answer)
          | _ => none
      | none => none
  | .elapse ms => if 0 ≤ ms then some { s with now := s.now + ms, uptime := s.uptime + ms } else none
  | .setClock now => some { s with now }

end Runs

section Steps

variable {P : Type} {s t : Scheduler P}

theorem executing_eq_some {k : Nat} {execution : Execution} {batch : PaymentBatch P}
    (h : executing s k = some (execution, batch)) :
    s.executions[k]? = some execution ∧ s.batches.get? execution.batch = some batch := by
  obtain ⟨found, hfound, hmap⟩ := Option.bind_eq_some_iff.mp h
  obtain ⟨held, hheld, heq⟩ := Option.map_eq_some_iff.mp hmap
  obtain ⟨rfl, rfl⟩ := Prod.mk.inj heq
  exact ⟨hfound, hheld⟩

theorem disarmTimer_eq (s : Scheduler P) (id : String) :
    ∃ platform timers, disarmTimer s id = { s with platform, timers } ∧
      ∀ timer, some timer ∈ platform → some timer ∈ s.platform := by
  refine ⟨_, _, rfl, ?_⟩
  intro timer htimer
  split at htimer
  · exact mem_clearTimeout htimer
  · exact htimer

theorem dispose_eq (s : Scheduler P) :
    ∃ platform timers, dispose s = { s with platform, timers } ∧
      ∀ timer, some timer ∈ platform → some timer ∈ s.platform := by
  unfold dispose
  generalize s.timers.keys = ids
  induction ids generalizing s with
  | nil => exact ⟨s.platform, s.timers, rfl, fun _ => id⟩
  | cons id ids ih =>
      obtain ⟨platform, timers, heq, hsub⟩ := ih (disarmTimer s id)
      obtain ⟨before, _, hdisarm, hbefore⟩ := disarmTimer_eq s id
      rw [hdisarm] at heq hsub
      exact ⟨platform, timers, by rw [List.foldl_cons, hdisarm, heq],
        fun timer htimer => hbefore timer (hsub timer htimer)⟩

/-- A call of `schedule` either adds a batch with a new id and sets its timer, or changes no batch and no timer. -/
theorem schedule_cases (s : Scheduler P) (payments : List P) (scheduledAt : JsNumber)
    (id : Option String) :
    (∃ sequence, (schedule s payments scheduledAt id).1 = { s with sequence }) ∨
      ∃ newId sequence timers, s.batches.get? newId = none ∧
        (schedule s payments scheduledAt id).1 = { s with
        batches := s.batches.set newId { payments, scheduledAt, createdAt := s.now }
        platform := setTimeout s.platform s.uptime newId (delayUntil scheduledAt s.now)
        timers
        sequence } := by
  have hadd (s : Scheduler P) (newId : String) : (add s newId payments scheduledAt).1 = s ∨
      s.batches.get? newId = none ∧ (add s newId payments scheduledAt).1 =
        armTimer (setBatch s newId { payments, scheduledAt, createdAt := s.now }) newId
          { payments, scheduledAt, createdAt := s.now } := by
    unfold add
    by_cases hhas : s.batches.has newId
    · exact .inl (congrArg Prod.fst (if_pos hhas))
    · exact .inr ⟨Option.not_isSome_iff_eq_none.mp hhas, congrArg Prod.fst (if_neg hhas)⟩
  unfold schedule
  split
  · exact .inl ⟨s.sequence, rfl⟩
  · split
    · exact .inl ⟨s.sequence, rfl⟩
    · split
      · cases id with
        | some id =>
            rcases hadd s id with hsame | ⟨hnew, heq⟩
            · exact .inl ⟨s.sequence, hsame⟩
            · exact .inr ⟨id, s.sequence, _, hnew, heq⟩
        | none =>
            rcases hadd (nextId s).1 (nextId s).2 with hsame | ⟨hnew, heq⟩
            · exact .inl ⟨s.sequence + 1, hsame⟩
            · exact .inr ⟨(nextId s).2, s.sequence + 1, _, hnew, heq⟩
      · exact .inl ⟨s.sequence, rfl⟩

theorem cancel_cases (s : Scheduler P) (id : String) :
    (cancel s id).1 = s ∨ ∃ batch, s.batches.get? id = some batch ∧ batch.status = .scheduled ∧
      (cancel s id).1 = setBatch (disarmTimer s id) id { batch with status := .cancelled } := by
  unfold cancel
  cases hbatch : s.batches.get? id with
  | none => exact .inl rfl
  | some batch =>
      by_cases hstatus : batch.status = .scheduled
      · exact .inr ⟨batch, rfl, hstatus, congrArg Prod.fst (if_pos hstatus)⟩
      · exact .inl (congrArg Prod.fst (if_neg hstatus))

theorem execute_cases (s : Scheduler P) (id : String) :
    execute s id = s ∨ ∃ batch, s.batches.get? id = some batch ∧ batch.status = .scheduled ∧
      execute s id = { setBatch (disarmTimer s id) id { batch with status := .executing } with
        executions := s.executions ++ [{ batch := id, time := s.now }] } := by
  unfold execute
  cases hbatch : s.batches.get? id with
  | none => exact .inl rfl
  | some batch =>
      by_cases hstatus : batch.status = .scheduled
      · exact .inr ⟨batch, rfl, hstatus, if_pos hstatus⟩
      · exact .inl (if_neg hstatus)

/-- What an event does. -/
inductive Moves (s : Scheduler P) : Event P → Scheduler P → Prop
  | schedule (payments scheduledAt id) :
      Moves s (.schedule payments scheduledAt id) (schedule s payments scheduledAt id).1
  | cancel (id) : Moves s (.cancel id) (cancel s id).1
  | dispose : Moves s .dispose (dispose s)
  | execute (id) : Moves s (.execute id) (execute s id)
  | fire {handle timer} (htimer : s.platform[handle]? = some (some timer)) (hdue : timer.due ≤ s.uptime) :
      Moves s (.fire handle) (timeout { s with platform := clearTimeout s.platform handle } timer.callback)
  | answered {k execution batch} (answer) (hexecuting : executing s k = some (execution, batch))
      (hposition : execution.position = .awaitingExecutor) :
      Moves s (.answered k answer) (answered s k execution batch answer)
  | notifiedExecuted {k execution batch} (answer) (hexecuting : executing s k = some (execution, batch))
      (hposition : execution.position = .notifyingExecuted) :
      Moves s (.notified k answer) (notifiedExecuted s k execution batch answer)
  | notifiedFailed {k execution batch} (answer) (hexecuting : executing s k = some (execution, batch))
      (hposition : execution.position = .notifyingFailed) :
      Moves s (.notified k answer) (notifiedFailed s k execution answer)
  | elapse {ms} (hms : 0 ≤ ms) :
      Moves s (.elapse ms) { s with now := s.now + ms, uptime := s.uptime + ms }
  | setClock (now) : Moves s (.setClock now) { s with now }

theorem moves_of_step {e : Event P} (h : step s e = some t) : Moves s e t := by
  cases e with
  | schedule payments scheduledAt id =>
      obtain rfl := Option.some.inj h
      exact .schedule payments scheduledAt id
  | cancel id =>
      obtain rfl := Option.some.inj h
      exact .cancel id
  | dispose =>
      obtain rfl := Option.some.inj h
      exact .dispose
  | execute id =>
      obtain rfl := Option.some.inj h
      exact .execute id
  | fire handle =>
      obtain ⟨⟨id, platform⟩, hfire, rfl⟩ := Option.map_eq_some_iff.mp h
      obtain ⟨timer, htimer, hdue, rfl, rfl⟩ := fire_eq_some hfire
      exact .fire htimer hdue
  | answered k answer =>
      rw [step] at h
      split at h
      · rename_i execution batch hexecuting
        split at h
        · rename_i hposition
          obtain rfl := Option.some.inj h
          exact .answered answer hexecuting hposition
        · nomatch h
      · nomatch h
  | notified k answer =>
      rw [step] at h
      split at h
      · rename_i execution batch hexecuting
        split at h
        · rename_i hposition
          obtain rfl := Option.some.inj h
          exact .notifiedExecuted answer hexecuting hposition
        · rename_i hposition
          obtain rfl := Option.some.inj h
          exact .notifiedFailed answer hexecuting hposition
        · nomatch h
      · nomatch h
  | elapse ms =>
      rw [step] at h
      split at h
      · rename_i hms
        obtain rfl := Option.some.inj h
        exact .elapse hms
      · nomatch h
  | setClock now =>
      obtain rfl := Option.some.inj h
      exact .setClock now

end Steps

end SplitSdk.PaymentBatchScheduler
