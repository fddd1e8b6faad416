import SplitSdk.Fallible
import SplitSdk.KeyEnvelope

namespace SplitSdk.KeyStoreCalls

open Fallible Numbers JsonText TextEncoding KeyEnvelope

structure SecureKeyStore where
  masterKey : MasterKey
  destroyed : Bool := false
  deriving DecidableEq

inductive Request
  | setSecret (id : String) (secret : Units)
  | getSecret (id : String)
  | deleteSecret (id : String)
  | rotateMasterKey (newMasterKey : List UInt8)
  deriving DecidableEq

/-- How far `rotateMasterKey` is. In a phase with `has` the backend has answered and the call goes
on with what it answered, in the others it awaits the backend. -/
inductive Phase
  | lists
  | hasListed (ids : List String)
  | reads (id : String) (ids : List String) (rewritten : List (String × String))
  | hasRead (id : String) (raw : Option String) (ids : List String) (rewritten : List (String × String))
  | writes (written : List (String × String)) (id record : String) (rest : List (String × String))
  | hasWritten (written : List (String × String)) (id record : String) (rest : List (String × String))

/-- Where a call is suspended, with `Has` as in the phases. -/
inductive Position
  | settled (outcome : Except Error (Option String))
  | setReads (entry : String) (plaintext : Units)
  | setHasRead (entry : String) (plaintext : Units) (existing : Option String)
  /-- The key under which the record was sealed is kept for the statements only. -/
  | setWrites (entry : String) (plaintext : Units) (record : String) (sealedUnder : MasterKey)
  | getReads (entry : String)
  | getHasRead (entry : String) (record : Option String)
  | deletes (entry : String)
  | rotates (next : MasterKey) (phase : Phase)

def awaitsBackend : Position → Bool
  | .setReads .. | .setWrites .. | .getReads .. | .deletes .. => true
  | .rotates _ .lists | .rotates _ (.reads ..) | .rotates _ (.writes ..) => true
  | _ => false

structure Call where
  request : Request
  position : Position

/-- What a call draws from its surroundings when it goes on: `randomBytes` and two readings of the clock. -/
structure Draw where
  iv : Iv
  now : Time
  later : Time

def assertUsable (store : SecureKeyStore) : Except Error Unit :=
  if store.destroyed then .error (.keyStorage "SecureKeyStore has been destroyed" []) else .ok ()

/-- What is thrown in an async function rejects its promise. -/
def rejecting : Except Error Position → Position
  | .ok position => position
  | .error e => .settled (.error e)

section Start

variable (store : SecureKeyStore)

def setSecret (id : String) (secret : Units) : Position :=
  rejecting do
    assertUsable store
    let entry ← normalizeId id
    let plaintext ← normalizeSecret secret
    return .setReads entry plaintext

def getSecret (id : String) : Position :=
  rejecting do
    assertUsable store
    let entry ← normalizeId id
    return .getReads entry

def deleteSecret (id : String) : Position :=
  rejecting do
    assertUsable store
    let entry ← normalizeId id
    return .deletes entry

def rotateMasterKey (newMasterKey : List UInt8) : Position :=
  rejecting do
    assertUsable store
    match validateMasterKey newMasterKey with
    | .ok next => return .rotates next .lists
    | .error _ =>
        throw (.keyRotation masterKeyMessage [("length", .number (.finite newMasterKey.length))])

/-- A call runs up to its first `await`. -/
def start : Request → Position
  | .setSecret id secret => setSecret store id secret
  | .getSecret id => getSecret store id
  | .deleteSecret id => deleteSecret store id
  | .rotateMasterKey newMasterKey => rotateMasterKey store newMasterKey

theorem rejecting_cases (r : Except Error Position) :
    (∃ e, rejecting r = .settled (.error e)) ∨ r = .ok (rejecting r) := by
  cases r with
  | ok position => exact .inr rfl
  | error e => exact .inl ⟨e, rfl⟩

/-- A call that does not throw at once awaits the first answer of the backend. -/
theorem start_cases (request : Request) :
    (∃ e, start store request = .settled (.error e)) ∨
    (∃ id secret entry, request = .setSecret id secret ∧ normalizeId id = .ok entry ∧
      start store request = .setReads entry secret) ∨
    (∃ id entry, request = .getSecret id ∧ normalizeId id = .ok entry ∧
      start store request = .getReads entry) ∨
    (∃ id entry, request = .deleteSecret id ∧ normalizeId id = .ok entry ∧
      start store request = .deletes entry) ∨
    (∃ key next, request = .rotateMasterKey key ∧ validateMasterKey key = .ok next ∧
      start store request = .rotates next .lists) := by
  cases request with
  | setSecret id secret =>
      rcases rejecting_cases _ with h | h
      · exact .inl h
      · obtain ⟨_, _, h⟩ := bind_eq_ok.mp h
        obtain ⟨entry, hentry, h⟩ := bind_eq_ok.mp h
        obtain ⟨plaintext, hplaintext, h⟩ := bind_eq_ok.mp h
        obtain rfl := eq_of_normalizeSecret hplaintext
        exact .inr (.inl ⟨id, plaintext, entry, rfl, hentry, (Except.ok.inj h).symm⟩)
  | getSecret id =>
      rcases rejecting_cases _ with h | h
      · exact .inl h
      · obtain ⟨_, _, h⟩ := bind_eq_ok.mp h
        obtain ⟨entry, hentry, h⟩ := bind_eq_ok.mp h
        exact .inr (.inr (.inl ⟨id, entry, rfl, hentry, (Except.ok.inj h).symm⟩))
  | deleteSecret id =>
      rcases rejecting_cases _ with h | h
      · exact .inl h
      · obtain ⟨_, _, h⟩ := bind_eq_ok.mp h
        obtain ⟨entry, hentry, h⟩ := bind_eq_ok.mp h
        exact .inr (.inr (.inr (.inl ⟨id, entry, rfl, hentry, (Except.ok.inj h).symm⟩)))
  | rotateMasterKey key =>
      rcases rejecting_cases _ with h | h
      · exact .inl h
      · obtain ⟨position, hposition⟩ : ∃ position, start store (.rotateMasterKey key) = position := ⟨_, rfl⟩
        rw [hposition]
        obtain ⟨_, _, h⟩ := bind_eq_ok.mp (h.trans (congrArg Except.ok hposition))
        cases hnext : validateMasterKey key with
        | ok next =>
            rw [hnext] at h
            exact .inr (.inr (.inr (.inr ⟨key, next, rfl, hnext, (Except.ok.inj h).symm⟩)))
        | error e =>
            rw [hnext] at h
            cases h

end Start

section Resume

variable (gcm : Gcm) (store : SecureKeyStore)

def createdAt (draw : Draw) (entry : String) : Option String → Except Error JsNumber
  | none => .ok draw.now.number
  | some existing => (parseRecord existing entry).map (·.createdAt)

/-- `setSecret` after its read. -/
def resumeSet (draw : Draw) (entry : String) (plaintext : Units) (existing : Option String) : Position :=
  rejecting ((createdAt draw entry existing).map (fun createdAt =>
    .setWrites entry plaintext (sealRecord gcm plaintext createdAt store.masterKey draw.iv draw.later)
      store.masterKey))

/-- `getSecret` after its read. -/
def resumeGet (entry : String) : Option String → Except Error String
  | none => .error (.keyNotFound s!"No secret stored for \"{entry}\"" [("id", .string entry)])
  | some record => openRecord gcm record entry store.masterKey

/-- The second loop of `rotateMasterKey` with the swap of the keys after it. -/
def commit (next : MasterKey) (written : List (String × String)) :
    List (String × String) → SecureKeyStore × Position
  | [] => ({ store with masterKey := next }, .settled (.ok none))
  | (id, record) :: rest => (store, .rotates next (.writes written id record rest))

/-- The first loop of `rotateMasterKey`. -/
def readNext (next : MasterKey) (rewritten : List (String × String)) : List String → SecureKeyStore × Position
  | [] => commit store next [] rewritten
  | id :: ids => (store, .rotates next (.reads id ids rewritten))

/-- A record of the first loop is opened under the current key and sealed under the next. -/
def reseal (draw : Draw) (next : MasterKey) (id raw : String) : Except Error (String × String) := do
  let secret ← openRecord gcm raw id store.masterKey
  let record ← parseRecord raw id
  return (id, sealRecord gcm (utf16 secret) record.createdAt next draw.iv draw.later)

def resumeRotation (draw : Draw) (next : MasterKey) : Phase → Option (SecureKeyStore × Position)
  | .hasListed ids => some (readNext store next [] ids)
  | .hasRead _ none ids rewritten => some (readNext store next rewritten ids)
  | .hasRead id (some raw) ids rewritten =>
      match reseal gcm store draw next id raw with
      | .ok item => some (readNext store next (rewritten ++ [item]) ids)
      | .error e => some (store, .settled (.error e))
  | .hasWritten written id record rest => some (commit store next (written ++ [(id, record)]) rest)
  | _ => none

/-- A call whose backend call has been answered runs up to its next `await`. -/
def resume (draw : Draw) : Position → Option (SecureKeyStore × Position)
  | .setHasRead entry plaintext existing => some (store, resumeSet gcm store draw entry plaintext existing)
  | .getHasRead entry record => some (store, .settled ((resumeGet gcm store entry record).map some))
  | .rotates next phase => resumeRotation gcm store draw next phase
  | _ => none

theorem reseal_sealRecord {gcm : Gcm} (lawful : gcm.Lawful) (store : SecureKeyStore) (draw : Draw)
    (next : MasterKey) (id : String) (secret : Units) {createdAt : JsNumber} (iv : Iv) (updatedAt : Time)
    (h : JsonRoundTrip.Exact (.number createdAt)) :
    reseal gcm store draw next id (sealRecord gcm secret createdAt store.masterKey iv updatedAt) =
      .ok (id, sealRecord gcm (utf16 (toWellFormed secret)) createdAt next draw.iv draw.later) := by
  rw [reseal, openRecord_sealRecord secret store.masterKey iv updatedAt lawful id h,
    parseRecord_sealRecord secret store.masterKey iv updatedAt id h]
  rfl

end Resume

end SplitSdk.KeyStoreCalls
