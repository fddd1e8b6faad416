import SplitSdk.Interleaving
import SplitSdk.Numbers
import SplitSdk.OrderedMap

namespace SplitSdk.OperationChunker

open Numbers OrderedMap

section Idempotency

structure IdempotencyEntry where
  txHash : String
  expiresAt : JsNumber
  deriving DecidableEq

/-- The keys of completed requests, with what was submitted for them. -/
structure IdempotencyManager where
  store : OrdMap String IdempotencyEntry := .empty
  ttlMs : JsNumber := .finite 86400000
  maxEntries : JsNumber := .finite 10000

variable (m : IdempotencyManager) (now : ℚ)

def Expired (entry : IdempotencyEntry) : Prop := entry.expiresAt.lt (.finite now)

instance (entry : IdempotencyEntry) : Decidable (Expired now entry) :=
  inferInstanceAs (Decidable (_ = _))

def sweep : IdempotencyManager := { m with store := m.store.filter (fun entry => ¬Expired now entry.2) }

/-- The oldest key goes when there are too many. -/
def evict : IdempotencyManager :=
  if m.maxEntries.le (.finite m.store.size) then
    match m.store.keys.head? with
    | some oldest => if oldest = "" then m else { m with store := m.store.delete oldest }
    | none => m
  else m

/-- The key is a duplicate when it is claimed already. -/
def tryClaim (key txHash : String) : IdempotencyManager × Option String :=
  let m := sweep m now
  match m.store.get? key with
  | some existing => (m, some existing.txHash)
  | none =>
      let m := evict m
      ({ m with store := m.store.set key ⟨txHash, JsNumber.add (.finite now) m.ttlMs⟩ }, none)

def getResult (key : String) : IdempotencyManager × Option String :=
  let m := sweep m now
  (m, (m.store.get? key).map IdempotencyEntry.txHash)

end Idempotency

section Data

variable (T : Type)

/-- A call of `submitChunk` that was answered. -/
structure Attempt where
  index : Nat
  key : String
  succeeded : Bool
  deriving DecidableEq

structure BatchPaymentResult where
  succeeded : List (Nat × String) := []
  failed : Option (Nat × String) := none
  deriving DecidableEq

/-- Where a call of `submitAll` is. The chunks that are left come with their indices. -/
inductive Position
  | submitting (index : Nat) (key : String) (rest : List (List T × Nat))
  | returned
  | rejected (error : String)

structure Call where
  sourceAddress : String
  attempts : List Attempt := []
  result : BatchPaymentResult := {}
  position : Position T := .returned

structure Chunker where
  idempotency : IdempotencyManager
  now : ℚ
  calls : List (Call T) := []

end Data

section Operations

def start {T : Type} (idempotency : IdempotencyManager) (now : ℚ) : Chunker T := { idempotency, now }

variable {T : Type} (sha256Hex : String → String) (json : T → Except String String)

/-- `JSON.stringify({ index, operations })`, which throws on what has no JSON text. -/
def stringify (index : Nat) (operations : List T) : Except String String :=
  (operations.mapM json).map (fun texts =>
    "\x7b\"index\":" ++ ToString.toString index ++ ",\"operations\":[" ++ String.intercalate "," texts ++ "]\x7d")

def generateKey (sourceAddress operationXdr : String) : String :=
  sha256Hex (sourceAddress ++ ":" ++ operationXdr)

def chunkKey (sourceAddress : String) (index : Nat) (operations : List T) : Except String String :=
  (stringify json index operations).map (generateKey sha256Hex sourceAddress)

/-- The loop of `submitAll` up to its next `await` or its end. -/
def advance (m : IdempotencyManager) (now : ℚ) (call : Call T) :
    List (List T × Nat) → IdempotencyManager × Call T
  | [] => (m, { call with position := .returned })
  | (operations, index) :: rest =>
      match chunkKey sha256Hex json call.sourceAddress index operations with
      | .error error => (m, { call with position := .rejected error })
      | .ok key =>
          match getResult m now key with
          | (m, some txHash) =>
              advance m now { call with result.succeeded := call.result.succeeded ++ [(index, txHash)] } rest
          | (m, none) => (m, { call with position := .submitting index key rest })

variable (s : Chunker T)

def submitAll (sourceAddress : String) (chunks : List (List T)) : Chunker T :=
  let (idempotency, call) := advance sha256Hex json s.idempotency s.now { sourceAddress } chunks.zipIdx
  { s with idempotency, calls := s.calls ++ [call] }

def submitted (call : Call T) (index : Nat) (key txHash : String) : Call T :=
  { call with
    attempts := call.attempts ++ [⟨index, key, true⟩]
    result.succeeded := call.result.succeeded ++ [(index, txHash)] }

def failed (call : Call T) (index : Nat) (key error : String) : Call T :=
  { call with
    attempts := call.attempts ++ [⟨index, key, false⟩]
    result.failed := some (index, error)
    position := .returned }

/-- From the answer of `submitChunk`, a transaction hash or an error. -/
def answered (k : Nat) (call : Call T) (index : Nat) (key : String) (rest : List (List T × Nat)) :
    Except String String → Chunker T
  | .ok txHash =>
      let (claimed, _) := tryClaim s.idempotency s.now key txHash
      let (idempotency, call) := advance sha256Hex json claimed s.now (submitted call index key txHash) rest
      { s with idempotency, calls := s.calls.set k call }
  | .error error => { s with calls := s.calls.set k (failed call index key error) }

end Operations

section Runs

variable {T : Type}

inductive Event (T : Type)
  | submitAll (sourceAddress : String) (chunks : List (List T))
  | answered (k : Nat) (answer : Except String String)
  /-- What `Date.now` reads from then on. -/
  | setClock (now : ℚ)

def step (sha256Hex : String → String) (json : T → Except String String) (s : Chunker T) :
    Event T → Option (Chunker T)
  | .submitAll sourceAddress chunks => some (submitAll sha256Hex json s sourceAddress chunks)
  | .answered k answer =>
      match s.calls[k]? with
      | some call =>
          match call.position with
          | .submitting index key rest => some (answered sha256Hex json s k call index key rest answer)
          | _ => none
      | none => none
  | .setClock now => some { s with now }

end Runs

section Steps

variable {T : Type} {sha256Hex : String → String} {json : T → Except String String} {s t : Chunker T}

/-- What an event does. -/
inductive Moves (sha256Hex : String → String) (json : T → Except String String) (s : Chunker T) :
    Event T → Chunker T → Prop
  | submitAll (sourceAddress chunks) :
      Moves sha256Hex json s (.submitAll sourceAddress chunks) (submitAll sha256Hex json s sourceAddress chunks)
  | answered {k call index key rest} (answer) (hcall : s.calls[k]? = some call)
      (hposition : call.position = .submitting index key rest) :
      Moves sha256Hex json s (.answered k answer) (answered sha256Hex json s k call index key rest answer)
  | setClock (now) : Moves sha256Hex json s (.setClock now) { s with now }

theorem moves_of_step {e : Event T} (h : step sha256Hex json s e = some t) :
    Moves sha256Hex json s e t := by
  cases e with
  | submitAll sourceAddress chunks =>
      obtain rfl := Option.some.inj h
      exact .submitAll sourceAddress chunks
  | answered k answer =>
      rw [step] at h
      split at h
      · rename_i call hcall
        split at h
        · rename_i index key rest hposition
          obtain rfl := Option.some.inj h
          exact .answered answer hcall hposition
        · nomatch h
      · nomatch h
  | setClock now =>
      obtain rfl := Option.some.inj h
      exact .setClock now

end Steps

end SplitSdk.OperationChunker
