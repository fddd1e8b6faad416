import SplitSdk.OperationChunker
import SplitSdk.SharedObjects

namespace SplitSdk.SplitRollbackCoordinator

open Numbers OperationChunker OrderedMap SharedObjects

section Data

inductive SplitLegState
  | pending
  | succeeded
  | failed
  deriving DecidableEq

structure SplitLeg where
  recipient : String
  amount : Int
  state : SplitLegState := .pending
  deriving DecidableEq

/-- The legs are given by their places, or by what is there. -/
structure SplitRollbackCheckpoint (Leg : Type) where
  splitId : String
  invoiceId : String
  createdAt : Nat
  legs : List Leg
  deriving DecidableEq

structure SplitRollbackRecord (Leg : Type) where
  snapshotId : String
  capturedAt : Nat
  checkpoint : SplitRollbackCheckpoint Leg
  deriving DecidableEq

inductive SplitRollbackEvent
  | splitRollbackInitiated (splitId : String) (incomplete : List Ref)
  | splitRollbackCompleted (splitId : String) (record : SplitRollbackRecord Ref)

/-- All leg objects that were ever created are kept beside the fields of the class. -/
structure RollbackCoordinator where
  idempotency : IdempotencyManager
  checkpoints : OrdMap String (SplitRollbackCheckpoint Ref) := .empty
  rollbackRecords : OrdMap String (SplitRollbackRecord Ref) := .empty
  legs : List SplitLeg := []

end Data

section Reading

variable (legs : List SplitLeg)

def SplitRollbackCheckpoint.contents (checkpoint : SplitRollbackCheckpoint Ref) : SplitRollbackCheckpoint (Option SplitLeg) :=
  { checkpoint with legs := read legs checkpoint.legs }

def SplitRollbackRecord.contents (record : SplitRollbackRecord Ref) : SplitRollbackRecord (Option SplitLeg) :=
  { record with checkpoint := record.checkpoint.contents legs }

end Reading

section Operations

variable (sha256Hex : String → String) (c : RollbackCoordinator) (splitId : String)

/-- The message of an `UnknownSplitError`. -/
def unknownSplit (name : String) : String := "Unknown split: " ++ name

def getCheckpoint : Except String (SplitRollbackCheckpoint Ref) :=
  match c.checkpoints.get? splitId with
  | none => .error (unknownSplit splitId)
  | some checkpoint => .ok checkpoint

def begin (invoiceId : String) (legs : List (String × Int)) (now : Nat) :
    SplitRollbackCheckpoint Ref × RollbackCoordinator :=
  let added := legs.map (fun leg => { recipient := leg.1, amount := leg.2 : SplitLeg })
  let checkpoint := { splitId, invoiceId, createdAt := now, legs := places c.legs added }
  (checkpoint, { c with checkpoints := c.checkpoints.set splitId checkpoint, legs := c.legs ++ added })

/-- `legs[legIndex]`, where only a natural number is an index. -/
def elementAt (legs : List Ref) : JsNumber → Option Ref
  | .finite q => if q.den = 1 ∧ 0 ≤ q.num then legs[q.num.toNat]? else none
  | _ => none

def setLegState (legIndex : JsNumber) (state : SplitLegState) : Except String RollbackCoordinator := do
  let checkpoint ← getCheckpoint c splitId
  match elementAt checkpoint.legs legIndex with
  | none => .error (unknownSplit (splitId ++ "[" ++ Numbers.toString legIndex ++ "]"))
  | some leg => return { c with legs := c.legs.modify leg (fun leg => { leg with state }) }

def markLegSuccess (legIndex : JsNumber) : Except String RollbackCoordinator := setLegState c splitId legIndex .succeeded

def markLegFailed (legIndex : JsNumber) : Except String RollbackCoordinator := setLegState c splitId legIndex .failed

def getIncomplete : Except String (List Ref) := do
  let checkpoint ← getCheckpoint c splitId
  return checkpoint.legs.filter (fun leg => (c.legs[leg]?.map SplitLeg.state) = some .pending)

def isDuplicate (m : IdempotencyManager) (now : ℚ) (key : String) : Bool × IdempotencyManager :=
  ((sweep m now).store.has key, sweep m now)

/-- The list of the legs is copied, and the legs are not. -/
def snapshotSplitRollback (checkpoint : SplitRollbackCheckpoint Ref) (now : Nat) : SplitRollbackRecord Ref :=
  { snapshotId := sha256Hex (checkpoint.splitId ++ checkpoint.invoiceId ++ ToString.toString now), capturedAt := now, checkpoint }

structure Outcome where
  record : SplitRollbackRecord Ref
  events : List SplitRollbackEvent
  coordinator : RollbackCoordinator

/-- What `initiateRollback` does for a split that it has no record of. -/
def takeSnapshot (checkpoint : SplitRollbackCheckpoint Ref) (key : String) (now : Nat) : Except String Outcome := do
  let incomplete ← getIncomplete c splitId
  let record := snapshotSplitRollback sha256Hex checkpoint now
  let (idempotency, _) := tryClaim c.idempotency now key record.snapshotId
  return {
    record
    events := [.splitRollbackInitiated splitId incomplete, .splitRollbackCompleted splitId record]
    coordinator := { c with rollbackRecords := c.rollbackRecords.set splitId record, idempotency } }

/-- One call reads one time, and no handler of an event calls back. -/
def initiateRollback (now : Nat) : Except String Outcome := do
  let checkpoint ← getCheckpoint c splitId
  let key := generateKey sha256Hex splitId "rollback"
  match c.rollbackRecords.get? splitId with
  | none => takeSnapshot sha256Hex c splitId checkpoint key now
  | some existing =>
      let (duplicate, idempotency) := isDuplicate c.idempotency now key
      if duplicate then return { record := existing, events := [], coordinator := { c with idempotency } }
      else takeSnapshot sha256Hex { c with idempotency } splitId checkpoint key now

end Operations

end SplitSdk.SplitRollbackCoordinator
