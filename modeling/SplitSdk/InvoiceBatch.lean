import SplitSdk.ConcurrencyLimiter
import SplitSdk.ResilientRpc

namespace SplitSdk.InvoiceBatch

open Interleaving ConcurrencyLimiter ResilientRpc

section Data

inductive PaymentStatus
  | success
  | failed
  deriving DecidableEq

structure BatchInvoiceResult where
  invoiceId : String
  status : PaymentStatus
  txHash : Option String := none
  error : Option String := none
  deriving DecidableEq

/-- The configurations that `process` does not refuse. -/
structure InvoiceBatchConfig where
  payer : String
  amounts : String → Option Int
  maxConcurrent : Limit := ⟨3, by decide⟩
  rateLimitPauseMs : Nat := 2000
  timeoutMs : Nat := 30000

structure InvoiceBatchMetrics where
  active : Int := 0
  queued : Int := 0
  completed : Nat := 0
  failed : Nat := 0
  timedOut : Nat := 0
  deriving DecidableEq

structure PaymentParams where
  invoiceId : String
  payer : String
  amount : Int
  deriving DecidableEq

/-- What is thrown: an `Error`, with its `retryAfterMs` where this is a whole number, or any other value with its text. -/
inductive Failure
  | error (message : String) (retryAfterMs : Option Int)
  | other (text : String)
  deriving DecidableEq

end Data

section Errors

/-- `rate`, then `limit` with at most one character between them; a character outside the basic plane counts as two. -/
def namesRateLimit (cs : List Char) : Bool :=
  cs.tails.any (fun rest => (rest.dropPrefix? "rate".toList).any (fun rest =>
    "limit".toList.isPrefixOf rest ||
      rest.head?.any (fun c => !isLineEnd c && c.toNat < 0x10000) && "limit".toList.isPrefixOf rest.tail))

def isRateLimitError : Failure → Bool
  | .error message _ =>
      let cs := message.toList.map Char.toLower
      occurs "429" cs || namesRateLimit cs || occurs "too many requests" cs
  | .other _ => false

def isTimeoutError : Failure → Bool
  | .error message _ => occurs "timed out after" (message.toList.map Char.toLower)
  | .other _ => false

def isValidPauseMs (value : Int) : Bool := 0 ≤ value

def retryAfterMs (error : Failure) (fallbackMs : Nat) : Int :=
  match error with
  | .error _ (some candidate) => if isValidPauseMs candidate then candidate else fallbackMs
  | .error _ none | .other _ => fallbackMs

def Failure.text : Failure → String
  | .error message _ => message
  | .other text => text

end Errors

section Events

/-- What the handlers of an event and then the handlers of all events do when they are called: return or throw. -/
structure Listeners where
  own : List (Option Failure) := []
  wildcard : List (Option Failure) := []

/-- The first handler that throws is the last one that is called. -/
def emit (listeners : Listeners) : Option Failure := (listeners.own ++ listeners.wildcard).findSome? id

structure Audience where
  batchInvoiceSettled : Listeners := {}
  batchInvoiceFailed : Listeners := {}

end Events

section Tasks

/-- Where a call of `runOne` is: before the end of the pause, after it, waiting for a slot, with a slot, in `submitPayment`, with its
slot after the end of it, without its slot, at its end. -/
inductive Stage
  | waiting
  | cleared
  | acquiring (amount : Int)
  | granted (amount : Int)
  | submitting
  | settled (outcome : Except Failure String)
  | released (outcome : Except Failure String)
  | finished (result : Except Failure BatchInvoiceResult)

/-- The calls of `submitPayment`, and the hash with which the call was resolved before its timeout, are kept beside the stage. -/
structure Task where
  invoiceId : String
  stage : Stage := .waiting
  calls : List PaymentParams := []
  resolved : Option String := none

/-- What the tasks of one run share. -/
structure Shared where
  metrics : InvoiceBatchMetrics := {}
  limiter : Limiter := {}
  pausedUntil : Int := 0

/-- What becomes of a call of `submitPayment` first. -/
inductive Answer
  | resolved (txHash : String)
  | rejected (error : Failure)
  | timedOut

variable (config : InvoiceBatchConfig) (invoiceId : String) (now : Int) (shared : Shared)

/-- The end of `runOne`, and the callback that follows it unless a handler has thrown. -/
def finish (result : BatchInvoiceResult) (thrown : Option Failure) : Except Failure BatchInvoiceResult × Shared :=
  match thrown with
  | none =>
      let metrics := { shared.metrics with active := shared.metrics.active - 1, queued := shared.metrics.queued - 1 }
      (.ok result, { shared with metrics })
  | some error => (.error error, shared)

def reportFailure (error : String) (listeners : Listeners) : Except Failure BatchInvoiceResult × Shared :=
  let shared := { shared with metrics := { shared.metrics with failed := shared.metrics.failed + 1 } }
  finish shared { invoiceId, status := .failed, error := some error } (emit listeners)

/-- The `catch` block. -/
def caught (error : Failure) (listeners : Listeners) : Except Failure BatchInvoiceResult × Shared :=
  let shared :=
    if isRateLimitError error then
      { shared with pausedUntil := max shared.pausedUntil (now + retryAfterMs error config.rateLimitPauseMs) }
    else shared
  let shared :=
    if isTimeoutError error then
      { shared with metrics := { shared.metrics with timedOut := shared.metrics.timedOut + 1 } }
    else shared
  reportFailure invoiceId shared error.text listeners

/-- What `runOne` does after `limiter.run`. -/
def conclude (outcome : Except Failure String) (audience : Audience) : Except Failure BatchInvoiceResult × Shared :=
  match outcome with
  | .error error => caught config invoiceId now shared error audience.batchInvoiceFailed
  | .ok txHash =>
      let shared := { shared with metrics := { shared.metrics with completed := shared.metrics.completed + 1 } }
      match emit audience.batchInvoiceSettled with
      | none => finish shared { invoiceId, status := .success, txHash := some txHash } none
      | some error => caught config invoiceId now shared error audience.batchInvoiceFailed

def timeoutError : Failure := .error s!"submitPayment({invoiceId}) timed out after {config.timeoutMs}ms" none

/-- The first of the submission and its deadline; without a timeout there is no deadline. -/
def withTimeout : Answer → Option (Except Failure String)
  | .resolved txHash => some (.ok txHash)
  | .rejected error => some (.error error)
  | .timedOut => if config.timeoutMs = 0 then none else some (.error (timeoutError config invoiceId))

inductive Action
  | check (now : Int)
  | proceed (listeners : Listeners)
  | resume
  | submit
  | settle (answer : Answer)
  | release
  | conclude (now : Int) (audience : Audience)

/-- What the task of a slot does next, from one `await` to the next one. -/
def act (slot : Nat) (task : Task) (action : Action) : Option (Task × Shared) :=
  match task.stage, action with
  | .waiting, .check now =>
      if shared.pausedUntil ≤ now then some ({ task with stage := .cleared }, shared) else none
  | .cleared, .proceed listeners =>
      match config.amounts task.invoiceId with
      | none =>
          let (result, shared) :=
            reportFailure task.invoiceId shared s!"No amount specified for invoice {task.invoiceId}" listeners
          some ({ task with stage := .finished result }, shared)
      | some amount =>
          let (granted, limiter) := acquire config.maxConcurrent shared.limiter slot
          some ({ task with stage := if granted then .granted amount else .acquiring amount }, { shared with limiter })
  | .acquiring amount, .resume =>
      match resume shared.limiter with
      | some (caller, limiter) =>
          if caller = slot then some ({ task with stage := .granted amount }, { shared with limiter }) else none
      | none => none
  | .granted amount, .submit =>
      let params : PaymentParams := ⟨task.invoiceId, config.payer, amount⟩
      some ({ task with stage := .submitting, calls := task.calls ++ [params] }, shared)
  | .submitting, .settle answer =>
      (withTimeout config task.invoiceId answer).map (fun outcome =>
        ({ task with stage := .settled outcome, resolved := outcome.toOption }, shared))
  | .settled outcome, .release =>
      some ({ task with stage := .released outcome }, { shared with limiter := release shared.limiter })
  | .released outcome, .conclude now audience =>
      let (result, shared) := InvoiceBatch.conclude config task.invoiceId now shared outcome audience
      some ({ task with stage := .finished result }, shared)
  | _, _ => none

end Tasks

section Process

/-- The task of a slot is the one at its place: `cursor` and `slotSeq` are both the number of tasks. -/
structure Process where
  shared : Shared := {}
  tasks : List Task := []
  inFlight : List Nat := []
  yielded : List (Nat × BatchInvoiceResult) := []
  thrown : Option Failure := none

variable (invoiceIds : List String) (config : InvoiceBatchConfig) (s : Process)

def launch : Process :=
  match invoiceIds[s.tasks.length]? with
  | none => s
  | some invoiceId =>
      let metrics := { s.shared.metrics with
        active := s.shared.metrics.active + 1
        queued := s.shared.metrics.queued + 1 }
      { s with
        shared := { s.shared with metrics }
        tasks := s.tasks ++ [{ invoiceId }]
        inFlight := s.inFlight ++ [s.tasks.length] }

def launches : Nat → Process → Process
  | 0, s => s
  | n + 1, s => launches n (launch invoiceIds s)

/-- `process` before its first `await`. -/
def start : Process := launches invoiceIds (min config.maxConcurrent.1 invoiceIds.length) {}

inductive Event
  | act (slot : Nat) (action : Action)
  | race (slot : Nat)

/-- The loop of `process` gets the outcome of one of the tasks in flight: `process` yields its result and goes on, or throws. -/
def race (slot : Nat) : Option Process :=
  if s.thrown = none ∧ slot ∈ s.inFlight then
    match s.tasks[slot]?.map Task.stage with
    | some (.finished (.ok result)) =>
        let s := launch invoiceIds { s with inFlight := s.inFlight.erase slot }
        some { s with yielded := s.yielded ++ [(slot, result)] }
    | some (.finished (.error error)) => some { s with thrown := some error }
    | _ => none
  else none

def step : Event → Option Process
  | .act slot action =>
      (s.tasks[slot]?).bind (fun task => (act config s.shared slot task action).map (fun (task, shared) =>
        { s with tasks := s.tasks.set slot task, shared }))
  | .race slot => race invoiceIds s slot

end Process

end SplitSdk.InvoiceBatch
