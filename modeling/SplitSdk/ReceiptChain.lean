import SplitSdk.Merkle
import SplitSdk.GrowingLog
import SplitSdk.Interleaving

namespace SplitSdk.ReceiptChain

open JsonText Merkle
open Numbers (JsNumber)

section Data

structure PaymentReceipt where
  invoiceId : String
  paymentId : String
  amount : String
  recipientId : String
  txHash : String
  ledger : JsNumber
  timestamp : JsNumber
  networkFeeStroops : Option JsNumber := none
  deriving DecidableEq

def PaymentReceipt.fields (receipt : PaymentReceipt) : List (String × Json) :=
  [("invoiceId", .string receipt.invoiceId), ("paymentId", .string receipt.paymentId),
    ("amount", .string receipt.amount), ("recipientId", .string receipt.recipientId),
    ("txHash", .string receipt.txHash), ("ledger", .number receipt.ledger),
    ("timestamp", .number receipt.timestamp)] ++
      (receipt.networkFeeStroops.map (fun fee => ("networkFeeStroops", Json.number fee))).toList

structure ReceiptChainEntry where
  receipt : PaymentReceipt
  prevHash : String
  hash : String
  deriving DecidableEq

def ReceiptChainEntry.toJson (entry : ReceiptChainEntry) : Json :=
  .object [("receipt", .object entry.receipt.fields), ("prevHash", .string entry.prevHash),
    ("hash", .string entry.hash)]

structure ChainVerificationResult where
  valid : Bool
  length : Nat
  brokenAt : Option Nat := none
  reason : Option String := none
  deriving DecidableEq

/-- Where a call of `append` is. An entry is in the chain also when the storage throws. -/
inductive Position
  | hashing
  | returned (entry : ReceiptChainEntry)
  | rejected (entry : ReceiptChainEntry) (error : String)
  deriving DecidableEq

structure Call where
  receipt : PaymentReceipt
  prevHash : String
  position : Position
  deriving DecidableEq

structure Chain where
  entries : List ReceiptChainEntry
  calls : List Call := []
  /-- The text in the storage under the key of the invoice. -/
  stored : Option String := none
  deriving DecidableEq

end Data

section Operations

def genesisPrevHash : String := String.ofList (List.replicate 64 '0')

def entryHashInput (receipt : PaymentReceipt) (prevHash : String) : String :=
  stringify (.object (receipt.fields ++ [("prevHash", .string prevHash)]))

/-- The hash that the next entry is linked to. -/
def tailHash (entries : List ReceiptChainEntry) : String :=
  (entries.getLast?.map ReceiptChainEntry.hash).getD genesisPrevHash

variable (sha256 : String → Digest)

/-- The loop of `verify`, from entry `i` on; where it stops and why. -/
def findBroken (expectedPrevHash : String) (i : Nat) : List ReceiptChainEntry → Option (Nat × String)
  | [] => none
  | entry :: entries =>
      if entry.prevHash ≠ expectedPrevHash then
        some (i, s!"entry {i}: prevHash does not match the previous entry's hash")
      else if sha256Hex sha256 (entryHashInput entry.receipt entry.prevHash) ≠ entry.hash then
        some (i, s!"entry {i}: hash does not match its receipt contents")
      else findBroken entry.hash (i + 1) entries

def verify (entries : List ReceiptChainEntry) : ChainVerificationResult :=
  if entries.length = 0 then { valid := true, length := 0 }
  else match findBroken sha256 genesisPrevHash 0 entries with
    | some (brokenAt, reason) =>
        { valid := false, length := entries.length, brokenAt := some brokenAt, reason := some reason }
    | none => { valid := true, length := entries.length }

/-- A chain whose constructor has loaded some entries. -/
def start (entries : List ReceiptChainEntry) : Chain where
  entries := entries

variable (s : Chain)

/-- `append` up to the digest that it awaits. -/
def append (receipt : PaymentReceipt) : Chain :=
  { s with calls := s.calls ++ [{ receipt, prevHash := tailHash s.entries, position := .hashing }] }

/-- The rest of `append`, with what the storage does when the entries are saved. -/
def hashed (k : Nat) (call : Call) (saved : Except String Unit) : Chain :=
  let entry : ReceiptChainEntry :=
    { receipt := call.receipt, prevHash := call.prevHash,
      hash := sha256Hex sha256 (entryHashInput call.receipt call.prevHash) }
  let entries := s.entries ++ [entry]
  match saved with
  | .ok () =>
      { entries
        calls := s.calls.set k { call with position := .returned entry }
        stored := some (stringify (.array (entries.map ReceiptChainEntry.toJson))) }
  | .error message =>
      { s with
        entries
        calls := s.calls.set k { call with position := .rejected entry message } }

inductive Event
  | append (receipt : PaymentReceipt)
  | hashed (k : Nat) (saved : Except String Unit)

def step : Event → Option Chain
  | .append receipt => some (append s receipt)
  | .hashed k saved =>
      match s.calls[k]? with
      | some call =>
          match call.position with
          | .hashing => some (hashed sha256 s k call saved)
          | _ => none
      | none => none

end Operations

end SplitSdk.ReceiptChain

namespace SplitSdk.ReceiptLinks

open GrowingLog Interleaving Merkle ReceiptChain

variable {sha256 : String → Digest}

section Statement

/-- An entry is linked to the entries before it and has the hash of its receipt. -/
def Fits (sha256 : String → Digest) (before : List ReceiptChainEntry) (entry : ReceiptChainEntry) : Prop :=
  entry.prevHash = tailHash before ∧
    sha256Hex sha256 (entryHashInput entry.receipt entry.prevHash) = entry.hash

def appendedReceipt (call : Call) : Option PaymentReceipt :=
  match call.position with
  | .hashing => none
  | .returned _ | .rejected _ _ => some call.receipt

/-- The receipts of the calls that have pushed their entries. -/
def appended (s : Chain) : List PaymentReceipt := s.calls.filterMap appendedReceipt

def KeepsValid (sha256 : String → Digest) (s : Chain) (e : Event) : Prop :=
  ∀ t, step sha256 s e = some t → (verify sha256 t.entries).valid

/-- A call pushes its entry only while the tail has the hash that the call has read. -/
def TailUnchanged (s : Chain) : Event → Prop
  | .append _ => True
  | .hashed k _ => ∀ call ∈ s.calls[k]?, call.position = .hashing → call.prevHash = tailHash s.entries

instance (s : Chain) (e : Event) : Decidable (TailUnchanged s e) := by
  cases e <;> unfold TailUnchanged <;> infer_instance

end Statement

section Verification

theorem tailHash_push (before : List ReceiptChainEntry) (entry : ReceiptChainEntry) :
    tailHash (before ++ [entry]) = entry.hash := by
  rw [tailHash, List.getLast?_concat]
  rfl

variable (sha256) in
theorem findBroken_eq_none_iff (before entries : List ReceiptChainEntry) (i : Nat) :
    findBroken sha256 (tailHash before) i entries = none ↔ BuiltOn (Fits sha256) before entries := by
  induction entries generalizing before i with
  | nil => simp [findBroken, BuiltOn]
  | cons entry entries ih =>
      rw [findBroken, BuiltOn, Fits]
      split_ifs with hprev hhash
      · simp [hprev]
      · simp [hhash]
      · have hrest := ih (before ++ [entry]) (i + 1)
        rw [tailHash_push] at hrest
        exact hrest.trans ⟨fun h => ⟨⟨not_not.mp hprev, not_not.mp hhash⟩, h⟩, And.right⟩

theorem verify_iff (entries : List ReceiptChainEntry) :
    (verify sha256 entries).valid ↔ Built (Fits sha256) entries := by
  have hloop := findBroken_eq_none_iff sha256 [] entries 0
  rw [Built, ← hloop]
  unfold verify
  split_ifs with hlen
  · rw [List.length_eq_zero_iff] at hlen
    simp [hlen, findBroken]
  · change _ ↔ findBroken sha256 genesisPrevHash 0 entries = none
    cases findBroken sha256 genesisPrevHash 0 entries <;> simp

/-- The second entry of a chain is the broken one when it is not linked to the first, which fits. -/
theorem verify_of_unlinked {first second : ReceiptChainEntry} (hfirst : Fits sha256 [] first)
    (hlink : second.prevHash ≠ first.hash) :
    (verify sha256 [first, second]).valid = false ∧ (verify sha256 [first, second]).brokenAt = some 1 := by
  have hprev : first.prevHash = genesisPrevHash := hfirst.1
  rw [verify, if_neg (by simp), findBroken, if_neg (not_not.mpr hprev), if_neg (not_not.mpr hfirst.2), findBroken,
    if_pos hlink]
  exact ⟨rfl, rfl⟩

/-- A valid report has the length of the chain and names no entry. -/
theorem verify_eq_of_valid {entries : List ReceiptChainEntry} (h : (verify sha256 entries).valid) :
    verify sha256 entries = { valid := true, length := entries.length } := by
  unfold verify at h ⊢
  split_ifs at h ⊢ with hlen
  · rw [hlen]
  · cases hloop : findBroken sha256 genesisPrevHash 0 entries with
    | none => rfl
    | some found => simp [hloop] at h

end Verification

section Steps

variable {s t : Chain} {e : Event}

inductive Moves (sha256 : String → Digest) (s : Chain) : Event → Chain → Prop
  | append (receipt : PaymentReceipt) : Moves sha256 s (.append receipt) (append s receipt)
  | hashed {k : Nat} {call : Call} (hcall : s.calls[k]? = some call) (hposition : call.position = .hashing)
      (saved : Except String Unit) : Moves sha256 s (.hashed k saved) (hashed sha256 s k call saved)

theorem moves_of_step (h : step sha256 s e = some t) : Moves sha256 s e t := by
  cases e with
  | append receipt =>
      cases h
      exact .append receipt
  | hashed k saved =>
      rw [step] at h
      split at h
      next call hcall =>
        split at h
        next hposition =>
          cases h
          exact .hashed hcall hposition saved
        next => cases h
      next => cases h

/-- The entry that a call pushes. -/
def pushed (sha256 : String → Digest) (call : Call) : ReceiptChainEntry where
  receipt := call.receipt
  prevHash := call.prevHash
  hash := sha256Hex sha256 (entryHashInput call.receipt call.prevHash)

variable (sha256 s) in
theorem hashed_spec (k : Nat) (call : Call) (saved : Except String Unit) :
    (hashed sha256 s k call saved).entries = s.entries ++ [pushed sha256 call] ∧
      ∃ done, appendedReceipt done = some call.receipt ∧
        (hashed sha256 s k call saved).calls = s.calls.set k done := by
  cases saved with
  | ok _ => exact ⟨rfl, { call with position := .returned (pushed sha256 call) }, rfl, rfl⟩
  | error message => exact ⟨rfl, { call with position := .rejected (pushed sha256 call) message }, rfl, rfl⟩

/-- The chain has what it began with and one entry for each receipt that was appended. -/
def Complete (loaded : List ReceiptChainEntry) (s : Chain) : Prop :=
  (s.entries.map ReceiptChainEntry.receipt).Perm (loaded.map ReceiptChainEntry.receipt ++ appended s)

theorem complete_start (loaded : List ReceiptChainEntry) : Complete loaded (start loaded) := by
  rw [Complete, appended, start, List.filterMap_nil, List.append_nil]

theorem step_complete {loaded : List ReceiptChainEntry} (hi : Complete loaded s) (h : step sha256 s e = some t) :
    Complete loaded t := by
  cases moves_of_step h with
  | append receipt =>
      have hcalls : appended (append s receipt) = appended s := by
        rw [appended, append, List.filterMap_append]
        exact List.append_nil _
      rw [Complete, hcalls]
      exact hi
  | @hashed k call hcall hposition saved =>
      obtain ⟨hentries, done, hdone, hcalls⟩ := hashed_spec sha256 s k call saved
      have hnone : appendedReceipt call = none := by rw [appendedReceipt, hposition]
      have hperm := filterMap_set_perm appendedReceipt hcall hnone hdone
      rw [Complete, appended, hentries, hcalls, List.map_append]
      calc s.entries.map ReceiptChainEntry.receipt ++ [call.receipt]
        _ |>.Perm (call.receipt :: s.entries.map ReceiptChainEntry.receipt) := List.perm_append_singleton _ _
        _ |>.Perm (call.receipt :: (loaded.map ReceiptChainEntry.receipt ++ appended s)) := hi.cons _
        _ |>.Perm (loaded.map ReceiptChainEntry.receipt ++ call.receipt :: appended s) := List.perm_middle.symm
        _ |>.Perm _ := hperm.symm.append_left _

/-- An entry that is linked to the hash its call has read fits the chain as long as the tail has this hash. -/
theorem keepsValid_iff (hs : (verify sha256 s.entries).valid) (e : Event) :
    KeepsValid sha256 s e ↔ TailUnchanged s e := by
  rw [verify_iff] at hs
  cases e with
  | append receipt =>
      refine iff_of_true ?_ trivial
      rintro t ⟨⟩
      exact (verify_iff _).mpr hs
  | hashed k saved =>
      have hpush (call : Call) : Built (Fits sha256) (hashed sha256 s k call saved).entries ↔
          call.prevHash = tailHash s.entries := by
        rw [(hashed_spec sha256 s k call saved).1, built_push, Fits]
        simp [hs, pushed]
      constructor
      · intro h call hcall hposition
        have ht : step sha256 s (.hashed k saved) = some (hashed sha256 s k call saved) := by
          rw [step, Option.mem_def.mp hcall]
          simp [hposition]
        exact (hpush call).mp ((verify_iff _).mp (h _ ht))
      · intro h t ht
        cases moves_of_step ht with
        | @hashed _ call hcall hposition _ =>
            exact (verify_iff _).mpr ((hpush call).mpr (h call hcall hposition))

end Steps

section Result

/-- From a valid chain on, the chain is valid after every step exactly when no call pushes its entry behind a tail that it has not
read, and in any case each appended receipt is in the chain once. -/
theorem appends_valid_iff (sha256 : String → Digest) (loaded : List ReceiptChainEntry)
    (hloaded : (verify sha256 loaded).valid) (es : List Event) :
    (Allowed (step sha256) (KeepsValid sha256) (start loaded) es ∧
        ∀ s, run (step sha256) (start loaded) es = some s →
          (s.entries.map ReceiptChainEntry.receipt).Perm
            (loaded.map ReceiptChainEntry.receipt ++ appended s)) ↔
      Allowed (step sha256) TailUnchanged (start loaded) es := by
  have hcomplete : ∀ s, run (step sha256) (start loaded) es = some s → Complete loaded s :=
    fun s => run_preserves (fun s e t hi ht => step_complete hi ht) (complete_start loaded)
  refine (and_iff_left hcomplete).trans ?_
  apply allowed_iff (I := fun s => (verify sha256 s.entries).valid)
  · exact fun s e t _ hok ht => hok t ht
  · exact fun s e hs => keepsValid_iff hs e
  · exact hloaded

def sampleReceipt (paymentId txHash : String) : PaymentReceipt where
  invoiceId := "inv-1"
  paymentId := paymentId
  amount := "10"
  recipientId := "GA"
  txHash := txHash
  ledger := .finite 0
  timestamp := .finite 0

def firstHash : Digest := ⟨"7c1c1c21dec590186250ac0bd991e7315cdbb13c3d9e39cdb201306ea63e6eaa", isDigest_ofList (by decide)⟩

/-- SHA-256 on what is hashed for the two receipts, one after the other or both at the beginning of the chain. -/
def sampleSha256 (data : String) : Digest :=
  if data = entryHashInput (sampleReceipt "p1" "t1") genesisPrevHash then firstHash
  else if data = entryHashInput (sampleReceipt "p2" "t2") genesisPrevHash then
    ⟨"5c875d0bf0c2b8379deb4a7c3422cfd3b144627b438a46e161f860b0de9d9e57", isDigest_ofList (by decide)⟩
  else ⟨"a56c7f6f9dd6c171a8e4b227df165fb4876815df60a450602b4fb754681aa423", isDigest_ofList (by decide +kernel)⟩

/-- The second receipt is appended once the first one is in the chain. -/
def inTurn : List Event :=
  [.append (sampleReceipt "p1" "t1"), .hashed 0 (.ok ()), .append (sampleReceipt "p2" "t2"), .hashed 1 (.ok ())]

theorem unchanged_inTurn (sha256 : String → Digest) : Allowed (step sha256) TailUnchanged (start []) inTurn := by
  refine ⟨trivial, (forall_next_iff rfl).mpr ⟨?_, (forall_next_iff rfl).mpr ⟨trivial, (forall_next_iff rfl).mpr ⟨?_, fun _ _ => trivial⟩⟩⟩⟩
  · rintro call ⟨⟩ -
    rfl
  · rintro call ⟨⟩ -
    rfl

theorem appends_valid_inTurn : Allowed (step sampleSha256) (KeepsValid sampleSha256) (start []) inTurn :=
  ((appends_valid_iff sampleSha256 [] rfl inTurn).mpr (unchanged_inTurn sampleSha256)).1

/-- The second receipt is appended while the first one is being hashed. -/
def overlapping : List Event :=
  [.append (sampleReceipt "p1" "t1"), .append (sampleReceipt "p2" "t2"), .hashed 0 (.ok ()), .hashed 1 (.ok ())]

/-- Both calls have read the hash before the first entry. -/
def unlinked (sha256 : String → Digest) (paymentId txHash : String) : ReceiptChainEntry where
  receipt := sampleReceipt paymentId txHash
  prevHash := genesisPrevHash
  hash := sha256Hex sha256 (entryHashInput (sampleReceipt paymentId txHash) genesisPrevHash)

theorem unlinked_fits (sha256 : String → Digest) (paymentId txHash : String) :
    Fits sha256 [] (unlinked sha256 paymentId txHash) := ⟨rfl, rfl⟩

theorem prevHash_ne_hash {paymentId txHash : String} {digest : Digest}
    (hhash : sha256 (entryHashInput (sampleReceipt paymentId txHash) genesisPrevHash) = digest)
    (hdigest : genesisPrevHash ≠ digest.1) (paymentId' txHash' : String) :
    (unlinked sha256 paymentId' txHash').prevHash ≠ (unlinked sha256 paymentId txHash).hash := by
  subst hhash
  exact hdigest

theorem run_overlapping (sha256 : String → Digest) : ∃ s ∈ run (step sha256) (start []) overlapping,
    s.entries = [unlinked sha256 "p1" "t1", unlinked sha256 "p2" "t2"] := ⟨_, rfl, rfl⟩

theorem overlapping_unlinked : ∃ s ∈ run (step sampleSha256) (start []) overlapping,
    (verify sampleSha256 s.entries).valid = false ∧ (verify sampleSha256 s.entries).brokenAt = some 1 := by
  have hfirst : sampleSha256 (entryHashInput (sampleReceipt "p1" "t1") genesisPrevHash) = firstHash := if_pos rfl
  have hlink : genesisPrevHash ≠ firstHash.1 := by decide
  obtain ⟨s, hs, hentries⟩ := run_overlapping sampleSha256
  refine ⟨s, hs, ?_⟩
  rw [hentries]
  apply verify_of_unlinked (unlinked_fits sampleSha256 "p1" "t1")
  exact prevHash_ne_hash hfirst hlink "p2" "t2"

end Result

end SplitSdk.ReceiptLinks
