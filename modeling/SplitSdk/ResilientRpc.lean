import SplitSdk.Interleaving
import SplitSdk.PlatformTimers

namespace SplitSdk.ResilientRpc

open Numbers PlatformTimers

section Data

inductive CircuitBreakerState
  | closed
  | opened
  | halfOpen
  deriving DecidableEq

structure CircuitBreakerConfig where
  failureThreshold : JsNumber := .finite 5
  resetTimeoutMs : JsNumber := .finite 30000

/-- The due time of the reset timer is kept beside the state. -/
structure CircuitBreaker where
  config : CircuitBreakerConfig
  state : CircuitBreakerState := .closed
  failureCount : Nat := 0
  lastFailureTime : Option ℚ := none
  resetDue : Option ℚ := none

structure RetryConfig where
  maxRetries : JsNumber := .finite 3
  baseDelayMs : JsNumber := .finite 500
  maxDelayMs : JsNumber := .finite 30000
  jitter : Bool := true
  hedgeAfterMs : Option JsNumber := none

/-- What a request can be rejected with. -/
inductive RpcError
  | stellarSplit (code : String)
  | error (message : String)
  | other
  deriving DecidableEq

inductive Outcome
  | fulfilled
  | rejected (error : RpcError)
  deriving DecidableEq

/-- A request to the inner client, and the one that follows it to the secondary client from `hedgeDue` on. -/
structure Request where
  operation : Nat
  primary : Option Outcome := none
  hedgeDue : Option ℚ := none
  secondary : Option Outcome := none
  deriving DecidableEq

inductive Phase
  | awaiting (request attempt : Nat)
  | sleeping (wakeAt : ℚ) (attempt : Nat)
  | settled
  deriving DecidableEq

structure ResilientRpcClient where
  hasSecondary : Bool := false
  retryConfig : RetryConfig
  circuitBreaker : CircuitBreaker
  operations : List Phase := []
  requests : List Request := []
  now : ℚ := 0

end Data

section Errors

def nonRetryableCodes : List String :=
  ["INVOICE_NOT_FOUND", "INVOICE_NOT_PENDING", "DEADLINE_PASSED", "INSUFFICIENT_BALANCE", "INVOICE_FROZEN", "UNAUTHORIZED",
    "VALIDATION_ERROR", "CONTRACT_ERROR", "WALLET_NOT_CONNECTED", "NFT_GATE_REQUIRED", "CO_CREATOR_APPROVAL_NOT_REQUIRED",
    "ADMIN_OPERATION_ERROR", "NO_PENDING_PAYOUT", "INVALID_ATTESTATION"]

/-- The rest of the text after two words with any white space between them. -/
def afterWords (first second : String) (cs : List Char) : Option (List Char) :=
  (cs.dropPrefix? first.toList).bind (fun rest => (rest.dropWhile isSpace).dropPrefix? second.toList)

def occurs (word : String) (cs : List Char) : Bool := cs.tails.any (fun rest => word.toList.isPrefixOf rest)

def isLineEnd (c : Char) : Bool := c.toNat ∈ [0x0A, 0x0D, 0x2028, 0x2029]

/-- The pattern of the messages that are not retried. What is not found is retried if a timeout is named after it. -/
def isRefusal (cs : List Char) : Bool :=
  cs.tails.any (fun rest =>
    (afterWords "invalid" "input" rest).isSome || "unauthorized".toList.isPrefixOf rest || "forbidden".toList.isPrefixOf rest ||
      (afterWords "not" "found" rest).any (fun rest => !occurs "timeout" (rest.takeWhile (fun c => !isLineEnd c))))

def isNonRetryable : RpcError → Bool
  | .stellarSplit code => nonRetryableCodes.contains code
  | .error message => isRefusal message.toLower.toList
  | .other => false

end Errors

section Breaker

namespace CircuitBreaker

def recordSuccess (b : CircuitBreaker) : CircuitBreaker :=
  let b := { b with failureCount := 0, lastFailureTime := none }
  if b.state = .halfOpen then { b with resetDue := none, state := .closed } else b

def scheduleReset (b : CircuitBreaker) (dateNow : ℚ) : CircuitBreaker :=
  { b with resetDue := some (dateNow + effectiveDelay b.config.resetTimeoutMs) }

def recordFailure (b : CircuitBreaker) (dateNow : ℚ) : CircuitBreaker :=
  let b := { b with failureCount := b.failureCount + 1, lastFailureTime := some dateNow }
  match b.state with
  | .closed =>
      if b.config.failureThreshold.le (.finite b.failureCount) then { b with state := .opened }.scheduleReset dateNow else b
  | .halfOpen => { b with resetDue := none, state := .opened }.scheduleReset dateNow
  | .opened => b

def canExecute (b : CircuitBreaker) (dateNow : ℚ) : Bool × CircuitBreaker :=
  match b.state with
  | .closed | .halfOpen => (true, b)
  | .opened =>
      if b.lastFailureTime.any (fun time => b.config.resetTimeoutMs.le (.finite (dateNow - time))) then
        (true, { b with state := .halfOpen })
      else (false, b)

/-- The callback of the reset timer. -/
def resetTimer (b : CircuitBreaker) : CircuitBreaker :=
  { b with state := if b.state = .opened then .halfOpen else b.state, resetDue := none }

def reset (b : CircuitBreaker) : CircuitBreaker :=
  { b with resetDue := none, state := .closed, failureCount := 0, lastFailureTime := none }

end CircuitBreaker

end Breaker

section Operations

/-- `Math.min(x, y)`. -/
def mathMin (x y : JsNumber) : JsNumber := if x = .nan ∨ y = .nan then .nan else if x.lt y then x else y

def maxAttempts (config : RetryConfig) : JsNumber := JsNumber.max (.finite 1) config.maxRetries

def computeDelay (config : RetryConfig) (attempt : Nat) (random : JsNumber) : JsNumber :=
  let base := config.baseDelayMs.mul (fl (2 ^ attempt))
  let capped := mathMin base config.maxDelayMs
  if config.jitter then capped.add (random.mul config.baseDelayMs) else capped

/-- How the promise of a request settles. With a second request it is rejected only when both are. -/
def Request.outcome (request : Request) : Option Outcome :=
  if request.hedgeDue = none then request.primary
  else
    match request.primary, request.secondary with
    | some .fulfilled, _ | _, some .fulfilled => some .fulfilled
    | some (.rejected _), some (.rejected _) => some (.rejected (.error "All promises were rejected"))
    | _, _ => none

namespace ResilientRpcClient

variable (c : ResilientRpcClient)

def hedging : Bool := c.hasSecondary && c.retryConfig.hedgeAfterMs.any (fun ms => (JsNumber.finite 0).lt ms)

def invoke (operation : Nat) : Request where
  operation := operation
  hedgeDue := if c.hedging then c.retryConfig.hedgeAfterMs.map (fun ms => c.now + effectiveDelay ms) else none

def moveTo (operation : Nat) (phase : Phase) : ResilientRpcClient :=
  { c with operations := c.operations.set operation phase }

/-- The end of the loop. -/
def giveUp (operation : Nat) : ResilientRpcClient :=
  { c.moveTo operation .settled with circuitBreaker := c.circuitBreaker.recordFailure c.now }

/-- The head of the loop, and the attempt up to its `await`. -/
def attempt (operation attempt : Nat) : ResilientRpcClient :=
  if (JsNumber.finite attempt).lt (maxAttempts c.retryConfig) then
    { c.moveTo operation (.awaiting c.requests.length attempt) with requests := c.requests ++ [c.invoke operation] }
  else c.giveUp operation

def executeWithResilience : ResilientRpcClient :=
  let (allowed, circuitBreaker) := c.circuitBreaker.canExecute c.now
  if allowed then { c with circuitBreaker, operations := c.operations ++ [Phase.settled] }.attempt c.operations.length 0
  else { c with circuitBreaker }

/-- An attempt after its `await`. -/
def resume (operation attempt : Nat) (random : JsNumber) : Outcome → ResilientRpcClient
  | .fulfilled => { c.moveTo operation .settled with circuitBreaker := c.circuitBreaker.recordSuccess }
  | .rejected error =>
      if isNonRetryable error then c.moveTo operation .settled
      else if .finite attempt = (maxAttempts c.retryConfig).sub (.finite 1) then c.giveUp operation
      else if c.circuitBreaker.state = .halfOpen then c.giveUp operation
      else c.moveTo operation
        (.sleeping (c.now + effectiveDelay (computeDelay c.retryConfig attempt random)) attempt)

/-- A request is answered; the operation goes on if that settles the attempt that it is waiting for. -/
def answer (i : Nat) (request : Request) (random : JsNumber) : ResilientRpcClient :=
  let c : ResilientRpcClient := { c with requests := c.requests.set i request }
  match request.outcome, c.operations[request.operation]? with
  | some outcome, some (.awaiting j attempt) => if j = i then c.resume request.operation attempt random outcome else c
  | _, _ => c

end ResilientRpcClient

inductive Event
  | elapse (ms : ℚ)
  | call
  | respond (request : Nat) (outcome : Outcome) (random : JsNumber)
  | respondSecondary (request : Nat) (outcome : Outcome) (random : JsNumber)
  | wake (operation : Nat)
  | resetTimer
  | reset

namespace ResilientRpcClient

variable (c : ResilientRpcClient)

/-- The attempt after which the operation sleeps, if it is over. -/
def slept (operation : Nat) : Option Nat :=
  match c.operations[operation]? with
  | some (.sleeping wakeAt attempt) => if wakeAt ≤ c.now then some attempt else none
  | _ => none

def outstanding : Nat := c.requests.countP (fun request => request.primary = none)

end ResilientRpcClient

def step (c : ResilientRpcClient) : Event → Option ResilientRpcClient
  | .elapse ms => if 0 ≤ ms then some { c with now := c.now + ms } else none
  | .call => some c.executeWithResilience
  | .respond i outcome random =>
      (c.requests[i]?.filter (fun request => request.primary = none)).map (fun request =>
        c.answer i { request with primary := some outcome } random)
  | .respondSecondary i outcome random =>
      (c.requests[i]?.filter (fun request => request.secondary = none && request.hedgeDue.any (fun due => due ≤ c.now))).map
        (fun request => c.answer i { request with secondary := some outcome } random)
  | .wake operation => (c.slept operation).map (fun attempt => c.attempt operation (attempt + 1))
  | .resetTimer =>
      if c.circuitBreaker.resetDue.any (fun due => due ≤ c.now) then
        some { c with circuitBreaker := c.circuitBreaker.resetTimer }
      else none
  | .reset => some { c with circuitBreaker := c.circuitBreaker.reset }

end Operations

end SplitSdk.ResilientRpc
