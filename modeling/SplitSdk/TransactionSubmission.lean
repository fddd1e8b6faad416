import SplitSdk.OperationChunker
import SplitSdk.SequencedLedger

namespace SplitSdk.TransactionSubmission

open Interleaving Numbers OrderedMap SequencedLedger
open OperationChunker (IdempotencyManager generateKey getResult tryClaim)

section Model

/-- A transaction stands for what its hash is taken of. Around a fee bump there is the transaction that it bumps. -/
structure Transaction where
  source : String
  sequence : ℕ
  operation : String
  maxTime : ℕ
  feeBump : Bool := false
  deriving DecidableEq

/-- What ledgers keep of a transaction. One that does not succeed has used its number up too. -/
structure Inclusion where
  transaction : Transaction
  closeTime : ℕ
  succeeded : Bool
  deriving DecidableEq

/-- With more than one `rpcUrl` there is a standby. Hashes are left open, as is by how many seconds the clock of the ledgers may be
behind that of the client. -/
structure Setting where
  standby : Bool
  sha256Hex : String → String
  hash : Transaction → String
  skew : ℕ := 0

/-- Where a call waits: for its turn in the queue, for `getAccount`, for simulation and signature, for `sendTransaction`, for
`getTransaction`, which is not called before a time, or for the response interceptors. -/
inductive Stage
  | queued
  | preparing
  | signing (tx : Transaction)
  | sending (tx : Transaction)
  | polling (tx : Transaction) (attempts ready : ℕ)
  | confirmed (tx : Transaction)
  | answered (tx : Transaction)
  | stored (txHash : String)
  | rejected
  deriving DecidableEq

/-- A call of a method that submits, as often as it retries. The last two fields are not in the source: the numbers that its
transactions were built with, and the transactions that it has handed to the network. -/
structure Call where
  source : String
  operation : String
  maxAttempts : ℕ := 1
  stage : Stage := .queued
  submissions : ℕ := 0
  failedOver : Bool := false
  sequences : List ℕ := []
  sent : List Transaction := []
  deriving DecidableEq

/-- The network holds what it was handed, and when. -/
structure State where
  now : ℕ
  ledger : Ledger String Inclusion
  network : List (Transaction × ℕ) := []
  idempotency : Option IdempotencyManager := none
  calls : List Call := []

inductive GetTransactionStatus
  | notFound
  | success
  | failed
  deriving DecidableEq

inductive Event
  | pass (ms : ℕ)
  | submit (source operation : String) (maxAttempts : ℕ)
  | turn (k : ℕ)
  | account (k : ℕ) (sequence : ℕ)
  | signed (k : ℕ)
  | accepted (k : ℕ)
  | polled (k : ℕ) (status : GetTransactionStatus) (retryable : Bool)
  | finished (k : ℕ)
  | thrown (k : ℕ) (retryable : Bool)
  | included (tx : Transaction) (closeTime : ℕ) (succeeded : Bool)
  | usedElsewhere (source : String) (count : ℕ)

namespace Call

variable (setting : Setting) (c : Call)

def key : String := generateKey setting.sha256Hex c.source c.operation

def limit : ℕ := max 1 c.maxAttempts

/-- `_submitTx` tries the standby once, whatever the error is; then it is up to the method to retry. -/
def failed (retryable : Bool) : Call :=
  if setting.standby ∧ ¬c.failedOver then { c with stage := .preparing, failedOver := true }
  else if retryable ∧ c.submissions < c.limit then { c with stage := .queued }
  else { c with stage := .rejected }

def begin : Call := { c with stage := .preparing, submissions := c.submissions + 1, failedOver := false }

/-- `setTimeout(30)`. -/
def build (now sequence : ℕ) : Transaction :=
  { source := c.source, sequence := sequence + 1, operation := c.operation, maxTime := now / 1000 + 30 }

def load (now sequence : ℕ) : Call :=
  { c with stage := .signing (c.build now sequence), sequences := c.sequences ++ [sequence + 1] }

def send (tx : Transaction) : Call := { c with stage := .sending tx, sent := c.sent ++ [tx] }

/-- Twenty more calls of `getTransaction`; then a fee bump, with as many. -/
def notFound (retryable : Bool) (now : ℕ) (tx : Transaction) (attempts : ℕ) : Call :=
  if attempts < 20 then { c with stage := .polling tx (attempts + 1) (now + 1500) }
  else if tx.feeBump then c.failed setting retryable
  else { c with stage := .signing { tx with feeBump := true } }

/-- What an attempt waits for may throw. -/
def Attempting : Prop :=
  match c.stage with
  | .preparing | .signing _ | .sending _ | .polling _ _ _ | .confirmed _ => True
  | _ => False

instance : Decidable c.Attempting := by
  unfold Attempting
  split <;> infer_instance

end Call

variable (setting : Setting) (s : State)

def start (now : ℕ) (last : String → ℕ) (idempotency : Option (JsNumber × JsNumber)) : State :=
  { now, ledger := ⟨last, []⟩
    idempotency := idempotency.map (fun config => { ttlMs := config.1, maxEntries := config.2 }) }

def move (k : ℕ) (c : Call) : State := { s with calls := s.calls.set k c }

/-- The turn of a call in the queue. -/
def turn (k : ℕ) (c : Call) : State :=
  match s.idempotency with
  | none => move s k c.begin
  | some m =>
      let (m, existing) := getResult m s.now (c.key setting)
      match existing with
      | some txHash => move { s with idempotency := some m } k { c with stage := .stored txHash }
      | none => move { s with idempotency := some m } k c.begin

def finish (k : ℕ) (c : Call) (tx : Transaction) : State :=
  move { s with idempotency := s.idempotency.map (fun m => (tryClaim m s.now (c.key setting) (setting.hash tx)).1) } k
    { c with stage := .answered tx }

/-- It was executed. -/
def Succeeded (tx : Transaction) : Prop := ∃ i ∈ s.ledger.applied, i.transaction = tx ∧ i.succeeded

instance (tx : Transaction) : Decidable (Succeeded s tx) := inferInstanceAs (Decidable (∃ i ∈ _, _))

/-- A ledger takes a transaction in when its number is next, in time, and not before it was handed over. -/
def Includable (tx : Transaction) (closeTime : ℕ) : Prop :=
  tx.sequence = s.ledger.last tx.source + 1 ∧ closeTime ≤ tx.maxTime ∧
    ∃ handed ∈ s.network, handed.1 = tx ∧ handed.2 / 1000 ≤ closeTime + setting.skew

instance (tx : Transaction) (closeTime : ℕ) : Decidable (Includable setting s tx closeTime) :=
  inferInstanceAs (Decidable (_ ∧ _ ∧ ∃ handed ∈ _, _))

def includeTransaction (tx : Transaction) (closeTime : ℕ) (succeeded : Bool) : State :=
  { s with ledger := s.ledger.apply (·.transaction.source) (·.transaction.sequence) ⟨tx, closeTime, succeeded⟩ }

/-- Servers do not make up numbers or successes, but they may be behind. -/
def step : Event → Option State
  | .pass ms => some { s with now := s.now + ms }
  | .submit source operation maxAttempts => some { s with calls := s.calls ++ [{ source, operation, maxAttempts }] }
  | .turn k => (s.calls[k]?).bind (fun c => if c.stage = .queued then some (turn setting s k c) else none)
  | .account k sequence => (s.calls[k]?).bind (fun c =>
      if c.stage = .preparing ∧ sequence ≤ s.ledger.last c.source then some (move s k (c.load s.now sequence)) else none)
  | .signed k => (s.calls[k]?).bind (fun c => match c.stage with
      | .signing tx => some (move { s with network := s.network ++ [(tx, s.now)] } k (c.send tx))
      | _ => none)
  | .accepted k => (s.calls[k]?).bind (fun c => match c.stage with
      | .sending tx => some (move s k { c with stage := .polling tx 0 s.now })
      | _ => none)
  | .polled k status retryable => (s.calls[k]?).bind (fun c => match c.stage with
      | .polling tx attempts ready =>
          if ready ≤ s.now then
            match status with
            | .notFound => some (move s k (c.notFound setting retryable s.now tx attempts))
            | .failed => some (move s k (c.failed setting retryable))
            | .success => if Succeeded s tx then some (move s k { c with stage := .confirmed tx }) else none
          else none
      | _ => none)
  | .finished k => (s.calls[k]?).bind (fun c => match c.stage with
      | .confirmed tx => some (finish setting s k c tx)
      | _ => none)
  | .thrown k retryable => (s.calls[k]?).bind (fun c => if c.Attempting then some (move s k (c.failed setting retryable)) else none)
  | .included tx closeTime succeeded =>
      if Includable setting s tx closeTime then some (includeTransaction s tx closeTime succeeded) else none
  | .usedElsewhere source count => some { s with ledger := s.ledger.skip source count }

end Model

end SplitSdk.TransactionSubmission
