import SplitSdk.InvoiceDiff
import SplitSdk.Merkle

namespace SplitSdk.InvoiceVersionTracker

open InvoiceDiff Merkle Numbers OfflineQueue OrderedMap SplitPreview

section Data

structure InvoiceVersion where
  version : Nat
  snapshot : Invoice
  changedBy : String
  changedAt : Int
  changeSummary : String
  isRollback : Bool := false
  rolledBackFromVersion : Option JsNumber := none
  checksum : String
  metadata : Option Value := none

structure RollbackOptions where
  changedBy : Option String := none
  reason : Option String := none
  allowTerminalStateRollback : Bool := false
  preservePayments : Bool := true
  metadata : Option Value := none

structure InvoiceRollbackResult where
  invoiceId : String
  targetVersion : JsNumber
  newVersionNumber : Nat
  restoredInvoice : Invoice
  version : InvoiceVersion

inductive Failure
  | rangeError (message : String)
  | typeError (message : String)
  | duplicateRecipient (addresses : List String)
  | invalidVersion (reason : String) (targetVersion : JsNumber)
  | versionNotFound (invoiceId : String) (targetVersion : JsNumber)
  | unsafeRollback (invoiceId : String) (targetVersion : JsNumber) (reason : String)

def ofDiff {α : Type} : Except String α → Except Failure α
  | .ok a => .ok a
  | .error message => .error (.rangeError message)

def ofPreview {α : Type} : Except SplitPreview.Failure α → Except Failure α
  | .ok a => .ok a
  | .error (.rangeError message) => .error (.rangeError message)
  | .error (.duplicateRecipient addresses) => .error (.duplicateRecipient addresses)

/-- What the tracker uses of the language and of `crypto`. -/
structure Platform where
  toUpperCase : String → String
  stringify : Invoice → String
  sha256 : String → Digest

end Data

section Versions

/-- `getLatest` of the store, on the versions of an invoice. -/
def getLatest (versions : List InvoiceVersion) : Option InvoiceVersion := versions.getLast?

def getVersion (versions : List InvoiceVersion) (versionNumber : JsNumber) : Option InvoiceVersion :=
  versions.find? (fun v => JsNumber.finite v.version = versionNumber)

def nextVersionNumber (latest : Option InvoiceVersion) : Nat :=
  match latest with
  | some latest => latest.version + 1
  | none => 1

variable (platform : Platform)

def computeChecksum (invoice : Invoice) : String := sha256Hex platform.sha256 (platform.stringify invoice)

/-- The summary of a version that is recorded after `latest`. -/
def recordSummary (latest : Option InvoiceVersion) (newSnapshot : Invoice) : Except Failure String :=
  match latest with
  | none => .ok "Initial version."
  | some latest => do
      let diff ← ofDiff (diffInvoices latest.snapshot newSnapshot)
      let changeSummary := buildChangeSummary diff
      if diff.any (fun d => d.field = "split_rules") then
        let splitInfo ← ofPreview (previewSplitRules platform.toUpperCase newSnapshot.toPayouts newSnapshot.funded)
        let splitLines := String.intercalate ", " (splitInfo.map (fun e =>
          let recipient := e.recipient
          let amount := e.amount
          s!"{recipient}: {amount} stroops"))
        return s!"{changeSummary} | Split preview: [{splitLines}]"
      else return changeSummary

/-- The version that `record` appends. -/
def recordVersion (latest : Option InvoiceVersion) (newSnapshot : Invoice) (changedBy : String) (now : Int) :
    Except Failure InvoiceVersion := do
  let changeSummary ← recordSummary platform latest newSnapshot
  return {
    version := nextVersionNumber latest
    snapshot := newSnapshot
    changedBy
    changedAt := now
    changeSummary
    checksum := computeChecksum platform newSnapshot }

end Versions

section Safety

variable (invoiceId : String) (targetVersion : JsNumber) (options : RollbackOptions)

def isPositiveInteger : JsNumber → Bool
  | .finite q => decide (0 < q) && decide (q.den = 1)
  | _ => false

def notPositive : String :=
  let target := Numbers.toString targetVersion
  s!"Target version must be a positive integer, got {target}"

/-- `isRollbackSafe` once the latest version is read: why there is no rollback, or the latest version. -/
def checkLatest (latest : Option InvoiceVersion) : Except String InvoiceVersion :=
  let target := Numbers.toString targetVersion
  match latest with
  | none => .error s!"No version history found for invoice \"{invoiceId}\""
  | some latest =>
      let current := latest.version
      if targetVersion = .finite current then .error s!"Target version {target} is already the current version"
      else if JsNumber.lt (.finite current) targetVersion then
        .error s!"Target version {target} exceeds current version {current}"
      else .ok latest

/-- `isRollbackSafe` once the target version is read, too. -/
def checkTarget (latest : InvoiceVersion) (target : Option InvoiceVersion) : Option String :=
  match target with
  | none =>
      let target := Numbers.toString targetVersion
      some s!"Target version {target} does not exist"
  | some _ =>
      let status := latest.snapshot.status
      let isTerminal := status = .released ∨ status = .refunded
      if isTerminal ∧ options.allowTerminalStateRollback = false then
        let text := status.text
        some (s!"Invoice \"{invoiceId}\" is in terminal state \"{text}\". " ++
          "Rollback requires allowTerminalStateRollback: true.")
      else none

/-- What `rollback` throws when it is not safe and the latest version is none it can name. -/
def refuseLatest (reason : String) (latest : Option InvoiceVersion) : Option Failure :=
  match latest with
  | none => some (.invalidVersion reason targetVersion)
  | some latest =>
      if JsNumber.le targetVersion (.finite 0) || JsNumber.lt (.finite latest.version) targetVersion then
        some (.invalidVersion reason targetVersion)
      else none

def refuseTarget (reason : String) (target : Option InvoiceVersion) : Failure :=
  match target with
  | none => .versionNotFound invoiceId targetVersion
  | some _ => .unsafeRollback invoiceId targetVersion reason

def nullError (property : String) : Failure :=
  .typeError s!"Cannot read properties of null (reading '{property}')"

/-- The invoice that a rollback brings back. -/
def restore (latest target : InvoiceVersion) : Invoice :=
  if options.preservePayments then
    { target.snapshot with payments := latest.snapshot.payments, funded := latest.snapshot.funded }
  else target.snapshot

variable (platform : Platform)

/-- The version that `rollback` appends, and what it returns. -/
def rollbackVersion (latest target : Option InvoiceVersion) (now : Int) : Except Failure InvoiceRollbackResult :=
  match target, latest with
  | none, _ => .error (nullError "snapshot")
  | some _, none => .error (nullError (if options.preservePayments then "snapshot" else "version"))
  | some target, some latest => do
      let restored := restore options latest target
      let diff ← ofDiff (diffInvoices latest.snapshot restored)
      let diffSummary := buildChangeSummary diff
      let reason := options.reason.getD ""
      let reasonText := if reason = "" then "" else s!": {reason}"
      let current := latest.version
      let text := Numbers.toString targetVersion
      let newVersion : InvoiceVersion := {
        version := current + 1
        snapshot := restored
        changedBy := options.changedBy.getD target.changedBy
        changedAt := now
        changeSummary := s!"Rolled back to version {text} from v{current}{reasonText}. Changes: {diffSummary}"
        isRollback := true
        rolledBackFromVersion := some targetVersion
        checksum := computeChecksum platform restored
        metadata := options.metadata }
      return { invoiceId, targetVersion, newVersionNumber := current + 1, restoredInvoice := restored, version := newVersion }

end Safety

section Calls

structure RollbackRequest where
  targetVersion : JsNumber
  options : RollbackOptions := {}

inductive Outcome
  | recorded (version : InvoiceVersion)
  | rolledBack (result : InvoiceRollbackResult)

def Outcome.version : Outcome → InvoiceVersion
  | .recorded version => version
  | .rolledBack result => result.version

/-- What a call is waiting for; the store has answered already, or has appended, when the call is suspended. -/
inductive Position
  | recording (newSnapshot : Invoice) (changedBy : String) (latest : Option InvoiceVersion)
  | checkingLatest (request : RollbackRequest) (latest : Option InvoiceVersion)
  | checkingTarget (request : RollbackRequest) (latest : InvoiceVersion) (target : Option InvoiceVersion)
  | checked (request : RollbackRequest) (reason : Option String)
  | refusing (request : RollbackRequest) (reason : String) (latest : Option InvoiceVersion)
  | refusingTarget (request : RollbackRequest) (reason : String) (target : Option InvoiceVersion)
  | restoring (request : RollbackRequest) (latest : Option InvoiceVersion)
  | rebuilding (request : RollbackRequest) (latest target : Option InvoiceVersion)
  | appending (outcome : Outcome)
  | returned (outcome : Outcome)
  | rejected (failure : Failure)

structure Call where
  invoiceId : String
  position : Position

structure Tracker where
  store : OrdMap String (List InvoiceVersion) := .empty
  calls : List Call := []

def Tracker.history (s : Tracker) (invoiceId : String) : List InvoiceVersion := (s.store.get? invoiceId).getD []

inductive Event
  | record (invoiceId : String) (newSnapshot : Invoice) (changedBy : String)
  | rollback (invoiceId : String) (targetVersion : JsNumber) (options : RollbackOptions)
  | resume (k : Nat) (now : Int)

/-- `rollback` up to its first `await`. -/
def startRollback (versions : List InvoiceVersion) (request : RollbackRequest) : Position :=
  if isPositiveInteger request.targetVersion then .checkingLatest request (getLatest versions)
  else .checked request (some (notPositive request.targetVersion))

variable (platform : Platform)

/-- A call goes on to where it next waits or ends, with the versions that the store now has of its invoice. -/
def proceed (versions : List InvoiceVersion) (invoiceId : String) (now : Int) : Position → Option Position
  | .recording newSnapshot changedBy latest =>
      match recordVersion platform latest newSnapshot changedBy now with
      | .ok version => some (.appending (.recorded version))
      | .error failure => some (.rejected failure)
  | .checkingLatest request latest =>
      match checkLatest invoiceId request.targetVersion latest with
      | .ok latest => some (.checkingTarget request latest (getVersion versions request.targetVersion))
      | .error reason => some (.checked request (some reason))
  | .checkingTarget request latest target =>
      some (.checked request (checkTarget invoiceId request.targetVersion request.options latest target))
  | .checked request none => some (.restoring request (getLatest versions))
  | .checked request (some reason) => some (.refusing request reason (getLatest versions))
  | .refusing request reason latest =>
      match refuseLatest request.targetVersion reason latest with
      | some failure => some (.rejected failure)
      | none => some (.refusingTarget request reason (getVersion versions request.targetVersion))
  | .refusingTarget request reason target =>
      some (.rejected (refuseTarget invoiceId request.targetVersion reason target))
  | .restoring request latest => some (.rebuilding request latest (getVersion versions request.targetVersion))
  | .rebuilding request latest target =>
      match rollbackVersion invoiceId request.targetVersion request.options platform latest target now with
      | .ok result => some (.appending (.rolledBack result))
      | .error failure => some (.rejected failure)
  | .appending outcome => some (.returned outcome)
  | .returned _ | .rejected _ => none

variable (s : Tracker)

def startCall (invoiceId : String) (position : Position) : Tracker :=
  { s with calls := s.calls ++ [{ invoiceId, position }] }

/-- A call that begins to wait for `append` has appended. -/
def moved (k : Nat) (call : Call) (position : Position) : Tracker where
  store := match position with
    | .appending outcome => s.store.set call.invoiceId (s.history call.invoiceId ++ [outcome.version])
    | _ => s.store
  calls := s.calls.set k { call with position }

def step (s : Tracker) : Event → Option Tracker
  | .record invoiceId newSnapshot changedBy =>
      some (startCall s invoiceId (.recording newSnapshot changedBy (getLatest (s.history invoiceId))))
  | .rollback invoiceId targetVersion options =>
      some (startCall s invoiceId (startRollback (s.history invoiceId) { targetVersion, options }))
  | .resume k now =>
      match s.calls[k]? with
      | some call => (proceed platform (s.history call.invoiceId) call.invoiceId now call.position).map (moved s k call)
      | none => none

end Calls

end SplitSdk.InvoiceVersionTracker
