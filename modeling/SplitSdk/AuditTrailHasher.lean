import SplitSdk.Merkle

namespace SplitSdk.AuditTrailHasher

open HashTree JsonText Merkle
open Numbers (JsNumber)

section Data

/-- The payload is any value. -/
structure AuditEvent (Payload : Type) where
  invoiceId : String
  actorId : String
  action : String
  payload : Payload
  timestamp : JsNumber
  ledger : Option JsNumber := none
  deriving DecidableEq

structure AuditChainEntry (Payload : Type) where
  event : AuditEvent Payload
  hash : String
  prevHash : String
  index : Int
  deriving DecidableEq

structure CrossTenantAuditRecord (Payload : Type) where
  tenantId : String
  invoiceId : String
  event : AuditEvent Payload
  entry : AuditChainEntry Payload
  recordedAt : Nat
  deriving DecidableEq

inductive Mismatch
  | index
  | prevHash
  | entryHash
  | root
  deriving DecidableEq

def Mismatch.reason : Mismatch → String
  | .index => "index-mismatch"
  | .prevHash => "prev-hash-mismatch"
  | .entryHash => "entry-hash-mismatch"
  | .root => "root-mismatch"

/-- What `emit` passes to the listeners. -/
inductive Notice (Payload : Type)
  | validationStart (expectedRoot : String) (length : Nat)
  | validationFailure (mismatch : Mismatch) (mismatchAt : Nat)
  | validationSuccess (root : String) (length : Nat)
  | invoiceAudited (tenantId invoiceId : String) (entry : AuditChainEntry Payload) (timestamp : Nat)
  | crossTenantAccess (tenantId invoiceId : String) (entry : AuditChainEntry Payload) (timestamp : Nat)

/-- What a listener throws, if it throws. -/
abbrev Listener (Payload : Type) := Notice Payload → Except String Unit

structure Verdict where
  valid : Bool
  mismatchAt : Option Nat := none
  length : Option Nat := none
  deriving DecidableEq

/-- The class declares no field `crossTenantRecords`, and no method sets it, so that it is undefined. -/
structure Hasher (Payload : Type) where
  entries : List (AuditChainEntry Payload)
  crossTenantRecords : Option (List (CrossTenantAuditRecord Payload)) := none
  listeners : List (Listener Payload) := []

end Data

section Operations

variable {Payload : Type} (sha256 : String → Digest)
  -- what `JSON.stringify` writes for an event, or throws for its payload
  (stringify : AuditEvent Payload → Except String String)

/-- `JSON.stringify({ event, prevHash, index })`. -/
def dataString (event : AuditEvent Payload) (prevHash : String) (index : Int) : Except String String := do
  let text ← stringify event
  return "\x7b\"event\":" ++ text ++ ",\"prevHash\":" ++ String.ofList (quoted prevHash) ++
    ",\"index\":" ++ toString index ++ "\x7d"

/-- The hash that the next entry is linked to. -/
def lastHash (entries : List (AuditChainEntry Payload)) : String :=
  (entries.getLast?.map AuditChainEntry.hash).getD (sha256Hex sha256 "")

/-- A call of `append` from its beginning to its end. -/
def append (entries : List (AuditChainEntry Payload)) (event : AuditEvent Payload) :
    Except String (AuditChainEntry Payload) := do
  let index : Int := entries.length
  let prevHash := lastHash sha256 entries
  let data ← dataString stringify event prevHash index
  return { event, hash := sha256Hex sha256 data, prevHash, index }

/-- Sequential appends; none of them throws. -/
def appendAll (entries : List (AuditChainEntry Payload)) :
    List (AuditEvent Payload) → Except String (List (AuditChainEntry Payload))
  | [] => return entries
  | event :: events => do
      let entry ← append sha256 stringify entries event
      appendAll (entries ++ [entry]) events

def root (entries : List (AuditChainEntry Payload)) : String :=
  if entries.length = 0 then sha256Hex sha256 ""
  else (HashTree.root (hashPair sha256) (entries.map AuditChainEntry.hash)).getD ""

def emit (listeners : List (Listener Payload)) (notice : Notice Payload) : Except String Unit :=
  listeners.forM (fun listener => listener notice)

/-- The loop of `verify`, from entry `i` on. -/
def findMismatch (prevHash : String) (i : Nat) :
    List (AuditChainEntry Payload) → Except String (Option (Mismatch × Nat))
  | [] => return none
  | entry :: entries =>
      if entry.index ≠ i then return some (.index, i)
      else if entry.prevHash ≠ prevHash then return some (.prevHash, i)
      else do
        let data ← dataString stringify entry.event entry.prevHash entry.index
        if entry.hash ≠ sha256Hex sha256 data then return some (.entryHash, i)
        else findMismatch entry.hash (i + 1) entries

def verify (listeners : List (Listener Payload)) (entries : List (AuditChainEntry Payload))
    (expectedRoot : String) : Except String Verdict := do
  emit listeners (.validationStart expectedRoot entries.length)
  match ← findMismatch sha256 stringify (sha256Hex sha256 "") 0 entries with
  | some (mismatch, i) =>
      emit listeners (.validationFailure mismatch i)
      return { valid := false, mismatchAt := some i }
  | none =>
      let computedRoot := root sha256 entries
      if computedRoot ≠ expectedRoot then
        emit listeners (.validationFailure .root 0)
        return { valid := false, mismatchAt := some 0 }
      else
        emit listeners (.validationSuccess computedRoot entries.length)
        return { valid := true, length := some entries.length }

end Operations

section Tenants

variable {Payload : Type} (sha256 : String → Digest) (stringify : AuditEvent Payload → Except String String)
  (hasher : Hasher Payload)

/-- `auditInvoice` and `recordCrossTenantAccess` append the event, record it for a tenant and emit a notice. -/
def appendFor (notice : AuditChainEntry Payload → Notice Payload) (tenantId invoiceId : String)
    (event : AuditEvent Payload) (now : Nat) :
    Except String (CrossTenantAuditRecord Payload) × Hasher Payload :=
  match append sha256 stringify hasher.entries event with
  | .error message => (.error message, hasher)
  | .ok entry =>
      let hasher := { hasher with entries := hasher.entries ++ [entry] }
      let record : CrossTenantAuditRecord Payload := { tenantId, invoiceId, event, entry, recordedAt := now }
      match hasher.crossTenantRecords with
      | none => (.error "Cannot read properties of undefined (reading 'push')", hasher)
      | some records =>
          let hasher := { hasher with crossTenantRecords := some (records ++ [record]) }
          match emit hasher.listeners (notice entry) with
          | .error message => (.error message, hasher)
          | .ok () => (.ok record, hasher)

def auditInvoice (tenantId invoiceId : String) (event : AuditEvent Payload) (now : Nat) :
    Except String (CrossTenantAuditRecord Payload) × Hasher Payload :=
  appendFor sha256 stringify hasher (fun entry => .invoiceAudited tenantId invoiceId entry now) tenantId invoiceId
    event now

/-- The tenant of the invoice is not recorded. -/
def recordCrossTenantAccess (accessingTenantId _invoiceTenantId invoiceId : String) (event : AuditEvent Payload)
    (now : Nat) : Except String (CrossTenantAuditRecord Payload) × Hasher Payload :=
  appendFor sha256 stringify hasher (fun entry => .crossTenantAccess accessingTenantId invoiceId entry now)
    accessingTenantId invoiceId event now

def verifyTenantAudit (tenantId expectedRoot : String) : Except String Verdict :=
  match hasher.crossTenantRecords with
  | none => .error "Cannot read properties of undefined (reading 'filter')"
  | some records =>
      let tenantEntries := (records.filter (fun record => record.tenantId = tenantId)).map
        CrossTenantAuditRecord.entry
      -- the hasher made for the tenant has no listeners
      verify sha256 stringify [] tenantEntries expectedRoot

end Tenants

section Runs

variable {Payload : Type}

/-- The `await` at which a call of `append` is; the first one only where it has found no entry. -/
inductive Position (Payload : Type)
  | hashingEmpty (index : Int)
  | hashing (index : Int) (prevHash data : String)
  | returned (entry : AuditChainEntry Payload)
  | rejected (error : String)
  deriving DecidableEq

structure Call (Payload : Type) where
  event : AuditEvent Payload
  position : Position Payload
  deriving DecidableEq

structure Trail (Payload : Type) where
  entries : List (AuditChainEntry Payload)
  calls : List (Call Payload) := []
  deriving DecidableEq

inductive Event (Payload : Type)
  | append (event : AuditEvent Payload)
  | hashed (k : Nat)

variable (sha256 : String → Digest) (stringify : AuditEvent Payload → Except String String) (s : Trail Payload)

def start (entries : List (AuditChainEntry Payload)) : Trail Payload where
  entries := entries

/-- The data string is made, and its digest awaited. -/
def hashData (event : AuditEvent Payload) (index : Int) (prevHash : String) : Position Payload :=
  match dataString stringify event prevHash index with
  | .ok data => .hashing index prevHash data
  | .error message => .rejected message

def moveTo (k : Nat) (call : Call Payload) (position : Position Payload) : Trail Payload :=
  { s with calls := s.calls.set k { call with position } }

def begin (event : AuditEvent Payload) : Trail Payload :=
  let index : Int := s.entries.length
  let position := match s.entries.getLast? with
    | some last => hashData stringify event index last.hash
    | none => .hashingEmpty index
  { s with calls := s.calls ++ [{ event, position }] }

/-- The entry is pushed. What the listeners of `onAppend` throw is caught. -/
def push (k : Nat) (call : Call Payload) (index : Int) (prevHash data : String) : Trail Payload :=
  let entry : AuditChainEntry Payload := { event := call.event, hash := sha256Hex sha256 data, prevHash, index }
  moveTo { s with entries := s.entries ++ [entry] } k call (.returned entry)

def step : Event Payload → Option (Trail Payload)
  | .append event => some (begin stringify s event)
  | .hashed k =>
      match s.calls[k]? with
      | some call =>
          match call.position with
          | .hashingEmpty index =>
              some (moveTo s k call (hashData stringify call.event index (sha256Hex sha256 "")))
          | .hashing index prevHash data => some (push sha256 s k call index prevHash data)
          | _ => none
      | none => none

end Runs

end SplitSdk.AuditTrailHasher
