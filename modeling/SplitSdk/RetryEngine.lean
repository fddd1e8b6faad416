import SplitSdk.DaoGovernance
import SplitSdk.InvoiceBatch

namespace SplitSdk.RetryEngine

open Interleaving Numbers ResilientRpc
open DaoGovernance (inherited)

section Classification

inductive ErrorSeverity
  | low
  | medium
  | high
  | critical

def severityRank : ErrorSeverity → Nat
  | .low => 10
  | .medium => 20
  | .high => 30
  | .critical => 40

/-- The codes of transactions, whether they may be tried again, and how severe they are. -/
def TX_CODE_MAP : List (String × Bool × ErrorSeverity) :=
  [("tx_success", false, .low), ("tx_failed", false, .high), ("tx_too_early", true, .medium), ("tx_too_late", false, .high),
    ("tx_missing_operation", false, .high), ("tx_bad_seq", true, .medium), ("tx_bad_auth", false, .high),
    ("tx_insufficient_balance", false, .high), ("tx_no_source_account", false, .high), ("tx_insufficient_fee", true, .medium),
    ("tx_bad_auth_extra", false, .medium), ("tx_internal_error", true, .critical), ("tx_not_supported", false, .critical),
    ("tx_bad_min_time", false, .high), ("tx_bad_max_time", false, .high), ("tx_soroban_invalid", false, .high)]

def OP_CODE_MAP : List (String × Bool × ErrorSeverity) :=
  [("op_inner", false, .medium), ("op_bad_auth", false, .high), ("op_no_source_account", false, .high),
    ("op_not_supported", false, .critical), ("op_too_many_subentries", true, .high), ("op_exceeded_work_limit", true, .medium),
    ("op_underfunded", false, .high), ("op_no_trust", false, .high), ("op_not_authorized", false, .high),
    ("op_line_full", false, .high), ("op_no_issuer", false, .critical), ("op_too_few_offers", false, .medium),
    ("op_cross_self", true, .medium), ("op_sell_no_trust", false, .high), ("op_buy_no_trust", false, .high),
    ("op_sell_no_issuer", false, .critical), ("op_buy_no_issuer", false, .critical), ("op_sell_underfunded", false, .high),
    ("op_buy_underfunded", false, .high), ("op_sell_line_full", false, .high), ("op_buy_line_full", false, .high),
    ("op_low_reserve", false, .high), ("op_too_many_sponsoring", false, .high), ("op_sponsorship_not_found", false, .medium),
    ("op_sell_no_dst", false, .high), ("op_buy_no_dst", false, .high), ("op_malformed", false, .high),
    ("op_sell_malformed", false, .high), ("op_buy_malformed", false, .high), ("op_offer_malformed", false, .high),
    ("op_soroban_resource_limit_exceeded", true, .medium), ("op_soroban_storage_full", true, .high)]

structure TxCodeEntry where
  isRetryable : Bool
  rank : Nat

/-- A name that every object inherits is found, too, but says nothing of retries or severity. -/
def entryOf (codes : List (String × Bool × ErrorSeverity)) (code : String) : Option TxCodeEntry :=
  match codes.lookup code with
  | some (isRetryable, severity) => some ⟨isRetryable, severityRank severity⟩
  | none => if inherited.contains code then some ⟨false, 0⟩ else none

inductive RawResultCodes
  | code (code : String)
  | codes (codes : List String)
  | failed (transactionResult : Option String) (operationsResults : List String)

def codesOf : RawResultCodes → Option String × List String
  | .code code => (some code, [])
  | .codes codes => (codes.head?, codes.tail)
  | .failed transactionResult operationsResults => (transactionResult, operationsResults)

/-- The most severe of the codes of operations, the first one of them. -/
def opEntryOf (opCodes : List String) : Option TxCodeEntry :=
  opCodes.foldl (fun opEntry opCode =>
    match entryOf OP_CODE_MAP opCode, opEntry with
    | none, opEntry => opEntry
    | some entry, none => some entry
    | some entry, some opEntry => if opEntry.rank < entry.rank then some entry else some opEntry) none

/-- The field `isRetryable` of `classifyHorizonError`. -/
def isHorizonErrorRetryable (resultCodes : RawResultCodes) : Bool :=
  let (txCode, opCodes) := codesOf resultCodes
  let txEntry := txCode.bind (entryOf TX_CODE_MAP)
  ((opEntryOf opCodes).or txEntry).any TxCodeEntry.isRetryable

inductive ErrorClass
  | transient
  | rateLimit
  | contract
  deriving DecidableEq

/-- What an attempt can be rejected with. -/
inductive AttemptError
  | error (message : String) (resultCodes : Option RawResultCodes)
  | other

/-- Whether the result codes count as given: an empty text does not. -/
def isTruthy : RawResultCodes → Bool
  | .code code => code ≠ ""
  | .codes _ | .failed _ _ => true

/-- `Error(Contract, #n)`. -/
def namesContract (cs : List Char) : Bool :=
  cs.tails.any (fun rest => (rest.dropPrefix? "error(contract,".toList).any (fun rest =>
    match rest.dropWhile isSpace with
    | '#' :: rest => rest.head?.any Char.isDigit && (rest.dropWhile Char.isDigit).head? = some ')'
    | _ => false))

def classifyError : AttemptError → ErrorClass
  | .other => .transient
  | .error message resultCodes =>
      match resultCodes.filter isTruthy with
      | some resultCodes => if isHorizonErrorRetryable resultCodes then .transient else .contract
      | none =>
          let cs := message.toList.map Char.toLower
          if namesContract cs then .contract
          else if occurs "429" cs || InvoiceBatch.namesRateLimit cs || occurs "too many requests" cs then .rateLimit
          else .transient

end Classification

section Engine

structure RetryStrategy where
  maxAttempts : JsNumber
  initialDelayMs : ℚ
  backoffMultiplier : ℚ
  jitterMs : Option ℚ := none

structure RetryConfig where
  transient : RetryStrategy
  rateLimit : RetryStrategy
  contract : RetryStrategy
  circuitBreakerThreshold : JsNumber
  circuitResetMs : JsNumber
  jitterFactor : {q : ℚ // 0 ≤ q ∧ q ≤ 1} := ⟨1 / 5, by norm_num, by norm_num⟩

def RetryConfig.strategy (config : RetryConfig) : ErrorClass → RetryStrategy
  | .transient => config.transient
  | .rateLimit => config.rateLimit
  | .contract => config.contract

structure Engine where
  consecutiveTransientFailures : Nat := 0
  circuitOpenedAt : Option Int := none
  telemetry : List (String × Bool × Int) := []

/-- What the promise of `fn` is settled with. -/
inductive Outcome
  | fulfilled
  | rejected (error : AttemptError)

/-- What `execute` ends with. -/
inductive Result
  | returned
  | circuitOpen (methodName : String)
  | threw (error : AttemptError)

inductive Phase
  | attempting (start : Int)
  | sleeping (delay : ℚ)
  | ended (result : Result)

/-- The classes of the attempts that have failed are kept beside the call. -/
structure Call where
  methodName : String
  attempt : Nat := 1
  errorClass : Option ErrorClass := none
  phase : Phase
  failures : List ErrorClass := []

variable (config : RetryConfig) (engine : Engine) (now : Int)

/-- The getter resets a circuit that has been open for long enough. -/
def isCircuitOpen : Bool × Engine :=
  match engine.circuitOpenedAt with
  | none => (false, engine)
  | some openedAt =>
      if config.circuitResetMs.le (.finite (now - openedAt : Int)) then
        (false, { engine with circuitOpenedAt := none, consecutiveTransientFailures := 0 })
      else (true, engine)

def recordMethod (methodName : String) (success : Bool) (durationMs : Int) : Engine :=
  { engine with telemetry := engine.telemetry ++ [(methodName, success, durationMs)] }

def countFailure (errorClass : ErrorClass) : Engine :=
  if errorClass = .transient then { engine with consecutiveTransientFailures := engine.consecutiveTransientFailures + 1 }
  else engine

/-- The delay before the next attempt; the two random numbers are between 0 and 1. -/
def delayAfter (strategy : RetryStrategy) (attempt : Nat) (random : ℚ × ℚ) : ℚ :=
  let jitter := match strategy.jitterMs with
    | some jitterMs => random.1 * jitterMs
    | none => 0
  let baseDelay := strategy.initialDelayMs * strategy.backoffMultiplier ^ (attempt - 1) + jitter
  let factor := config.jitterFactor.1
  if factor = 0 then baseDelay else baseDelay * (1 - factor + random.2 * 2 * factor)

def execute (methodName : String) (start : Int) : Call × Engine :=
  match isCircuitOpen config engine now with
  | (true, engine) => ({ methodName, attempt := 0, phase := .ended (.circuitOpen methodName) }, engine)
  | (false, engine) => ({ methodName, phase := .attempting start }, engine)

def succeed (call : Call) (start : Int) : Call × Engine :=
  let engine := recordMethod engine call.methodName true (now - start)
  let engine := if call.errorClass = some .transient then { engine with consecutiveTransientFailures := 0 } else engine
  ({ call with phase := .ended .returned }, engine)

/-- The `catch` block, and whether it has opened the circuit. -/
def fail (call : Call) (start : Int) (error : AttemptError) (random : ℚ × ℚ) : Bool × Call × Engine :=
  let errorClass := call.errorClass.getD (classifyError error)
  let strategy := config.strategy errorClass
  let engine := countFailure (recordMethod engine call.methodName false (now - start)) errorClass
  let call := { call with errorClass := some errorClass, failures := call.failures ++ [classifyError error] }
  if errorClass = .transient ∧ config.circuitBreakerThreshold.le (.finite engine.consecutiveTransientFailures) then
    (true, { call with phase := .ended (.circuitOpen call.methodName) }, { engine with circuitOpenedAt := some now })
  else if errorClass = .contract ∨ strategy.maxAttempts.le (.finite call.attempt) then
    (false, { call with phase := .ended (.threw error) }, engine)
  else (false, { call with phase := .sleeping (delayAfter config strategy call.attempt random) }, engine)

end Engine

section Runs

variable (config : RetryConfig)

/-- How an attempt has ended. -/
inductive Attempt
  | success
  | failure (errorClass : ErrorClass)
  deriving DecidableEq

inductive Event
  | execute (methodName : String) (now start : Int)
  | query (now : Int)
  | settle (call : Nat) (now : Int) (outcome : Outcome) (random : ℚ × ℚ)
  | wake (call : Nat) (start : Int)

/-- The attempts in the order in which they have ended, and at each opening of the circuit those before it, are kept beside the
engine. -/
structure History where
  engine : Engine := {}
  calls : List Call := []
  attempts : List Attempt := []
  openings : List (List Attempt) := []

def settle (h : History) (i : Nat) (call : Call) (start now : Int) (random : ℚ × ℚ) : Outcome → History
  | .fulfilled =>
      let (call, engine) := succeed h.engine now call start
      { h with engine, calls := h.calls.set i call, attempts := h.attempts ++ [.success] }
  | .rejected error =>
      let attempts := h.attempts ++ [.failure (classifyError error)]
      let (opened, call, engine) := fail config h.engine now call start error random
      { engine, calls := h.calls.set i call, attempts, openings := if opened then h.openings ++ [attempts] else h.openings }

def step (h : History) : Event → Option History
  | .execute methodName now start =>
      let (call, engine) := execute config h.engine now methodName start
      some { h with engine, calls := h.calls ++ [call] }
  | .query now => some { h with engine := (isCircuitOpen config h.engine now).2 }
  | .settle i now outcome random =>
      (h.calls[i]?).bind (fun call =>
        match call.phase with
        | .attempting start => some (settle config h i call start now random outcome)
        | _ => none)
  | .wake i start =>
      (h.calls[i]?).bind (fun call =>
        match call.phase with
        | .sleeping _ =>
            some { h with calls := h.calls.set i { call with attempt := call.attempt + 1, phase := .attempting start } }
        | _ => none)

end Runs

end SplitSdk.RetryEngine
