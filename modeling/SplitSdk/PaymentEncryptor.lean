import SplitSdk.TaggedJson
import SplitSdk.KeyEnvelope
import SplitSdk.OrderedMap
import SplitSdk.Interleaving

namespace SplitSdk.PaymentEncryptor

open Numbers OrderedMap TaggedJson TextEncoding
open KeyEnvelope (Encrypted Gcm Iv MasterKey)

section Data

/-- The error classes of the module, with their messages. -/
inductive Failure
  | encryption (message : String)
  | decryption (message : String)
  | keyRotation (message : String)
  deriving DecidableEq

structure EncryptionKeyEntry where
  version : JsNumber
  key : MasterKey
  createdAt : Int
  retired : Bool

structure EncryptedPaymentEnvelope where
  envelopeVersion : Nat
  keyVersion : JsNumber
  iv : String
  tag : String
  ciphertext : String

/-- A JSON object, with bigints allowed. -/
structure Metadata where
  fields : List (String × Value)
  isJson : IsJson (.object fields)

structure PaymentData where
  amount : Int
  payer : String
  memo : Option String
  metadata : Option Metadata

/-- The object that the payment data is; absent properties are left out. -/
def PaymentData.toValue (data : PaymentData) : Value :=
  .object ([("amount", .bigint data.amount), ("payer", .string data.payer)] ++
    (data.memo.map (fun memo => ("memo", Value.string memo))).toList ++
    (data.metadata.map (fun metadata => ("metadata", Value.object metadata.fields))).toList)

structure Encryptor where
  keys : OrdMap JsNumber EncryptionKeyEntry := .empty
  activeVersion : Option JsNumber := none

end Data

namespace Encryptor

section Keys

variable (e : Encryptor) (version : JsNumber)

def isPositiveInteger : JsNumber → Bool
  | .finite q => decide (0 < q) && q.den = 1
  | _ => false

def addKey (key : List UInt8) (now : Int) : Except Failure Encryptor :=
  if !isPositiveInteger version then .error (.keyRotation "Key version must be a positive integer")
  else if e.keys.has version then
    let text := Numbers.toString version
    .error (.keyRotation s!"Key version {text} is already registered")
  else if h : key.length = 32 then .ok { e with keys := e.keys.set version ⟨version, ⟨key, h⟩, now, false⟩ }
  else .error (.keyRotation "Key must be exactly 32 bytes (AES-256)")

def setActiveKey : Except Failure Encryptor :=
  let text := Numbers.toString version
  match e.keys.get? version with
  | none => .error (.keyRotation s!"Key version {text} is not registered")
  | some entry =>
      if entry.retired then .error (.keyRotation s!"Key version {text} has been retired and cannot be set as active")
      else .ok { e with activeVersion := some version }

def retireKey : Except Failure Encryptor :=
  match e.keys.get? version with
  | none =>
      let text := Numbers.toString version
      .error (.keyRotation s!"Key version {text} is not registered")
  | some entry => .ok {
      keys := e.keys.set version { entry with retired := true }
      activeVersion := if e.activeVersion = some version then none else e.activeVersion }

end Keys

section Encryption

variable (gcm : Gcm) (e : Encryptor)

/-- The envelope of a text under a key. -/
def sealText (version : JsNumber) (key : MasterKey) (iv : Iv) (text : String) : EncryptedPaymentEnvelope :=
  let encrypted := gcm.encrypt key iv (utf8 text)
  ⟨1, version, base64 iv.bytes, base64 encrypted.tag, base64 encrypted.ciphertext⟩

def encrypt (data : Value) (iv : Iv) : Except Failure EncryptedPaymentEnvelope :=
  match e.activeVersion with
  | none => .error (.encryption "No active encryption key set")
  | some version =>
      let text := Numbers.toString version
      match e.keys.get? version with
      | none => .error (.encryption s!"Active key version {text} is not available")
      | some entry =>
          if entry.retired then .error (.encryption s!"Active key version {text} is not available")
          else .ok (sealText gcm version entry.key iv (encode data))

/-- The text in an envelope, where the authentication does not fail. -/
def openText (key : MasterKey) (envelope : EncryptedPaymentEnvelope) : Option String :=
  let iv := decodeBase64 envelope.iv
  if h : iv.length = 12 then
    (gcm.decrypt key ⟨iv, h⟩ ⟨decodeBase64 envelope.ciphertext, decodeBase64 envelope.tag⟩).map decodeUtf8
  else none

def decrypt (envelope : EncryptedPaymentEnvelope) : Except Failure Value :=
  match e.keys.get? envelope.keyVersion with
  | none =>
      let text := Numbers.toString envelope.keyVersion
      .error (.decryption s!"No key registered for version {text}")
  | some entry =>
      match (openText gcm entry.key envelope).bind decode with
      | none => .error (.decryption "Failed to decrypt payment data")
      | some data => .ok data

/-- The first part of `reEncrypt`, up to its await: nothing is left to do, or the data waits for the new encryption. -/
def reEncrypt (envelope : EncryptedPaymentEnvelope) : Except Failure (Option Value) :=
  match e.activeVersion with
  | none => .error (.encryption "No active key — cannot re-encrypt without a target key")
  | some version =>
      if envelope.keyVersion = version then .ok none else (e.decrypt gcm envelope).map some

end Encryption

end Encryptor

end SplitSdk.PaymentEncryptor

namespace SplitSdk.PaymentRoundTrip

open Interleaving JsonRoundTrip Numbers OrderedMap PaymentEncryptor PaymentEncryptor.Encryptor TaggedJson TextEncoding
open KeyEnvelope (Encrypted Gcm Iv MasterKey)

section Runs

/-- An encryptor, the envelopes that were made for payment data, and the calls of `reEncrypt` that wait for their second part. -/
structure Vault where
  encryptor : Encryptor := {}
  records : List (PaymentData × EncryptedPaymentEnvelope) := []
  pending : List (Option (PaymentData × Value)) := []

inductive Event
  | addKey (version : JsNumber) (key : List UInt8) (now : Int)
  | setActiveKey (version : JsNumber)
  | retireKey (version : JsNumber)
  | encrypt (data : PaymentData) (iv : Iv)
  | reEncrypt (record : Nat)
  | resume (call : Nat) (iv : Iv)

/-- A call that throws leaves the encryptor as it was. -/
def kept (s : Vault) : Except Failure Encryptor → Vault
  | .ok encryptor => { s with encryptor }
  | .error _ => s

def record (s : Vault) (data : PaymentData) : Except Failure EncryptedPaymentEnvelope → Vault
  | .ok envelope => { s with records := s.records ++ [(data, envelope)] }
  | .error _ => s

/-- What `reEncrypt` comes to is a new envelope of the same data; the old one stays. -/
def step (gcm : Gcm) (s : Vault) : Event → Option Vault
  | .addKey version key now => some (kept s (s.encryptor.addKey version key now))
  | .setActiveKey version => some (kept s (s.encryptor.setActiveKey version))
  | .retireKey version => some (kept s (s.encryptor.retireKey version))
  | .encrypt data iv => some (record s data (s.encryptor.encrypt gcm data.toValue iv))
  | .reEncrypt index => s.records[index]?.map (fun (data, envelope) =>
      match s.encryptor.reEncrypt gcm envelope with
      | .ok (some value) => { s with pending := s.pending ++ [some (data, value)] }
      | _ => s)
  | .resume call iv =>
      match s.pending[call]? with
      | some (some (data, value)) =>
          let s := { s with pending := s.pending.set call none }
          some (record s data (s.encryptor.encrypt gcm value iv))
      | _ => none

/-- No object in the metadata has a property under the tag of the bigints. -/
def Plain (data : PaymentData) : Prop := ∀ metadata ∈ data.metadata, Untagged (.object metadata.fields)

end Runs

section Values

variable {data : PaymentData} {v w : Value}

theorem untagged_toValue (data : PaymentData) : Untagged data.toValue ↔ Plain data := by
  obtain ⟨amount, payer, memo, metadata⟩ := data
  cases memo <;> cases metadata <;>
    simp [PaymentData.toValue, Plain, Untagged, UntaggedFields, UntaggedField, tag]

theorem exact_toValue (data : PaymentData) : Exact data.toValue.plain := by
  have hmetadata (metadata : Metadata) : Exact (Value.object metadata.fields).plain := exact_plain _ metadata.isJson
  obtain ⟨amount, payer, memo, metadata⟩ := data
  cases memo with
  | none =>
      cases metadata with
      | none => exact ⟨⟨trivial, trivial⟩, trivial, trivial⟩
      | some metadata => exact ⟨⟨trivial, trivial⟩, trivial, hmetadata metadata, trivial⟩
  | some memo =>
      cases metadata with
      | none => exact ⟨⟨trivial, trivial⟩, trivial, trivial, trivial⟩
      | some metadata => exact ⟨⟨trivial, trivial⟩, trivial, trivial, hmetadata metadata, trivial⟩

/-- The values that envelopes of the data hold: the data, or what the reviver makes of it. -/
def Derived (data : PaymentData) (v : Value) : Prop := v = data.toValue ∨ revive data.toValue.plain = some v

theorem Derived.exact (h : Derived data v) : Exact v.plain := by
  rcases h with rfl | h
  · exact exact_toValue data
  · exact exact_revive _ v (exact_toValue data) h

theorem Derived.revive (h : Derived data v) (hw : revive v.plain = some w) : Derived data w := by
  rcases h with rfl | h
  · exact .inr hw
  · rw [revive_plain v (untagged_revive _ v h)] at hw
    obtain rfl := Option.some.inj hw
    exact .inr h

/-- A value of the data is revived to the data exactly if the data has no tags. -/
theorem Derived.revive_iff (h : Derived data v) : TaggedJson.revive v.plain = some data.toValue ↔ Plain data := by
  rw [← untagged_toValue]
  rcases h with rfl | h
  · exact revive_plain_iff
  · have hv := untagged_revive _ v h
    rw [revive_plain v hv, Option.some.injEq]
    constructor
    · rintro rfl
      exact hv
    · intro hdata
      rw [revive_plain _ hdata] at h
      exact (Option.some.inj h).symm

end Values

section Envelopes

variable {gcm : Gcm} {e e' : Encryptor} {data : PaymentData} {envelope : EncryptedPaymentEnvelope}

theorem openText_sealText (lawful : gcm.Lawful) (version : JsNumber) (key : MasterKey) (iv : Iv) (text : String) :
    openText gcm key (sealText gcm version key iv text) = some text := by
  unfold openText sealText
  simp only [decodeBase64_base64]
  rw [dif_pos iv.length_eq, lawful.decrypt_encrypt, Option.map_some, decodeUtf8_utf8]

/-- The envelope holds a value of the data, under a key that is registered for its version. -/
def Sealed (gcm : Gcm) (e : Encryptor) (data : PaymentData) (envelope : EncryptedPaymentEnvelope) : Prop :=
  ∃ v version iv entry, Derived data v ∧ e.keys.get? version = some entry ∧
    envelope = sealText gcm version entry.key iv (encode v)

/-- The text of a sealed envelope is revived. -/
theorem Sealed.decrypt (lawful : gcm.Lawful) (h : Sealed gcm e data envelope) : ∃ v, Derived data v ∧
    e.decrypt gcm envelope = match revive v.plain with
      | none => .error (.decryption "Failed to decrypt payment data")
      | some value => .ok value := by
  obtain ⟨v, version, iv, entry, hv, hentry, rfl⟩ := h
  refine ⟨v, hv, ?_⟩
  unfold Encryptor.decrypt
  have hversion : (sealText gcm version entry.key iv (encode v)).keyVersion = version := rfl
  rw [hversion, hentry]
  dsimp only
  rw [openText_sealText lawful, Option.bind_some]
  cases hrevive : TaggedJson.revive v.plain <;> simp only [decode_encode hv.exact, hrevive]

theorem Sealed.decrypt_iff (lawful : gcm.Lawful) (h : Sealed gcm e data envelope) :
    e.decrypt gcm envelope = .ok data.toValue ↔ Plain data := by
  obtain ⟨v, hv, hdecrypt⟩ := h.decrypt lawful
  rw [hdecrypt, ← hv.revive_iff]
  cases TaggedJson.revive v.plain with
  | none => simp
  | some value => simp

/-- What is decrypted is a value of the data again. -/
theorem Sealed.derived (lawful : gcm.Lawful) (h : Sealed gcm e data envelope) {value : Value}
    (hvalue : e.decrypt gcm envelope = .ok value) : Derived data value := by
  obtain ⟨v, hv, hdecrypt⟩ := h.decrypt lawful
  rw [hdecrypt] at hvalue
  cases hrevive : TaggedJson.revive v.plain with
  | none =>
      rw [hrevive] at hvalue
      cases hvalue
  | some w =>
      rw [hrevive] at hvalue
      cases hvalue
      exact hv.revive hrevive

theorem sealed_encrypt {v : Value} (hv : Derived data v) {iv : Iv} (h : e.encrypt gcm v iv = .ok envelope) :
    Sealed gcm e data envelope := by
  unfold Encryptor.encrypt at h
  split at h
  · cases h
  next version hactive =>
    split at h
    · cases h
    next entry hentry =>
      split_ifs at h
      cases h
      exact ⟨v, version, iv, entry, hv, hentry, rfl⟩

theorem decrypt_of_reEncrypt {value : Value} (h : e.reEncrypt gcm envelope = .ok (some value)) :
    e.decrypt gcm envelope = .ok value := by
  unfold Encryptor.reEncrypt at h
  split at h
  · cases h
  · split_ifs at h
    · cases h
    · cases hdecrypt : e.decrypt gcm envelope with
      | error failure =>
          rw [hdecrypt] at h
          cases h
      | ok w =>
          rw [hdecrypt] at h
          cases h
          rfl

/-- No key goes away. -/
def Grows (e e' : Encryptor) : Prop :=
  ∀ version entry, e.keys.get? version = some entry → ∃ entry', e'.keys.get? version = some entry' ∧ entry'.key = entry.key

theorem Sealed.grows (h : Sealed gcm e data envelope) (hgrows : Grows e e') : Sealed gcm e' data envelope := by
  obtain ⟨v, version, iv, entry, hv, hentry, rfl⟩ := h
  obtain ⟨entry', hentry', hkey⟩ := hgrows version entry hentry
  exact ⟨v, version, iv, entry', hv, hentry', by rw [hkey]⟩

theorem grows_refl (e : Encryptor) : Grows e e := fun _ entry h => ⟨entry, h, rfl⟩

theorem grows_addKey {version : JsNumber} {key : List UInt8} {now : Int} (h : e.addKey version key now = .ok e') : Grows e e' := by
  unfold Encryptor.addKey at h
  split_ifs at h with hversion hhas hlength
  cases h
  intro other entry hentry
  refine ⟨entry, ?_, rfl⟩
  rw [OrdMap.get?_set, if_neg]
  · exact hentry
  · rintro rfl
    rw [OrdMap.has, hentry] at hhas
    exact hhas rfl

theorem grows_setActiveKey {version : JsNumber} (h : e.setActiveKey version = .ok e') : Grows e e' := by
  unfold Encryptor.setActiveKey at h
  dsimp only at h
  split at h
  · cases h
  · split_ifs at h
    cases h
    exact grows_refl e

theorem grows_retireKey {version : JsNumber} (h : e.retireKey version = .ok e') : Grows e e' := by
  unfold Encryptor.retireKey at h
  split at h
  · cases h
  next entry hentry =>
    cases h
    intro other entry' hentry'
    rw [OrdMap.get?_set]
    split_ifs with hother
    · subst hother
      obtain rfl := Option.some.inj (hentry.symm.trans hentry')
      exact ⟨_, rfl, rfl⟩
    · exact ⟨entry', hentry', rfl⟩

end Envelopes

section Result

variable {gcm : Gcm} {s t : Vault}

/-- All envelopes are sealed for their data, and what waits is a value of its data. -/
structure Inv (gcm : Gcm) (s : Vault) : Prop where
  records : ∀ record ∈ s.records, Sealed gcm s.encryptor record.1 record.2
  pending : ∀ call ∈ s.pending, ∀ waiting ∈ call, Derived waiting.1 waiting.2

theorem kept_inv (h : Inv gcm s) {out : Except Failure Encryptor} (hgrows : ∀ e, out = .ok e → Grows s.encryptor e) :
    Inv gcm (kept s out) := by
  cases out with
  | error failure => exact h
  | ok e => exact ⟨fun record hrecord => (h.records record hrecord).grows (hgrows e rfl), h.pending⟩

theorem record_inv (h : Inv gcm s) {data : PaymentData} {v : Value} (hv : Derived data v) (iv : Iv) :
    Inv gcm (record s data (s.encryptor.encrypt gcm v iv)) := by
  cases hout : s.encryptor.encrypt gcm v iv with
  | error failure => exact h
  | ok envelope =>
      refine ⟨List.forall_mem_append.mpr ⟨h.records, List.forall_mem_singleton.mpr ?_⟩, h.pending⟩
      exact sealed_encrypt hv hout

theorem step_inv (lawful : gcm.Lawful) (h : Inv gcm s) {e : Event} (hstep : step gcm s e = some t) : Inv gcm t := by
  cases e with
  | addKey version key now =>
      cases hstep
      exact kept_inv h (fun _ hout => grows_addKey hout)
  | setActiveKey version =>
      cases hstep
      exact kept_inv h (fun _ hout => grows_setActiveKey hout)
  | retireKey version =>
      cases hstep
      exact kept_inv h (fun _ hout => grows_retireKey hout)
  | encrypt data iv =>
      cases hstep
      exact record_inv h (.inl rfl) iv
  | reEncrypt index =>
      obtain ⟨⟨data, envelope⟩, hrecord, rfl⟩ := Option.map_eq_some_iff.mp hstep
      have hsealed := h.records _ (List.mem_of_getElem? hrecord)
      dsimp only
      split
      next value hvalue =>
        refine ⟨h.records, List.forall_mem_append.mpr ⟨h.pending, List.forall_mem_singleton.mpr ?_⟩⟩
        rintro _ ⟨⟩
        exact hsealed.derived lawful (decrypt_of_reEncrypt hvalue)
      next => exact h
  | resume call iv =>
      rw [step] at hstep
      split at hstep
      next data value hcall =>
        cases hstep
        refine record_inv (s := { s with pending := s.pending.set call none }) ⟨h.records, ?_⟩
          (h.pending _ (List.mem_of_getElem? hcall) _ rfl) iv
        exact forall_mem_set h.pending (fun _ hnone => nomatch hnone)
      next => cases hstep

theorem run_inv (lawful : gcm.Lawful) {events : List Event} (hrun : run (step gcm) {} events = some s) : Inv gcm s :=
  run_preserves (fun _ _ _ hs hstep => step_inv lawful hs hstep) ⟨by simp, by simp⟩ hrun

/-- Whatever keys are added, activated and retired, and whatever is re-encrypted: an envelope gives its payment data back, exactly
if no object in the metadata has a property under the tag. -/
theorem decrypt_encrypt_iff (gcm : Gcm) (lawful : gcm.Lawful) (events : List Event) (s : Vault)
    (hrun : run (step gcm) {} events = some s) (data : PaymentData) (envelope : EncryptedPaymentEnvelope)
    (hrecord : (data, envelope) ∈ s.records) :
    s.encryptor.decrypt gcm envelope = .ok data.toValue ↔ Plain data :=
  ((run_inv lawful hrun).records _ hrecord).decrypt_iff lawful

/-- Two texts under one key, with what the cipher makes of them. -/
def samples : List KeyEnvelope.Sample :=
  [⟨KeyEnvelope.keyOf 1, KeyEnvelope.ivOf 1,
      utf8 "\x7b\"amount\":\x7b\"__bigint\":\"100\"\x7d,\"payer\":\"GA\",\"metadata\":\x7b\"fee\":\x7b\"__bigint\":\"7\"\x7d\x7d\x7d",
      ⟨[201, 91, 219, 247, 6, 130, 107, 135, 200, 159, 116, 191, 241, 99, 44, 192, 122, 93, 0, 112, 115, 197, 121, 83, 189, 61,
          174, 3, 132, 208, 213, 77, 84, 145, 164, 91, 24, 186, 64, 77, 70, 179, 204, 123, 239, 60, 239, 194, 213, 94, 92, 113,
          111, 62, 246, 101, 7, 170, 196, 85, 29, 217, 53, 242, 27, 138, 181, 230, 92, 91, 202, 178, 101, 16, 143, 227, 146, 73],
        [20, 96, 241, 71, 252, 74, 216, 199, 37, 9, 33, 17, 64, 237, 115, 114]⟩⟩,
    ⟨KeyEnvelope.keyOf 1, KeyEnvelope.ivOf 2,
      utf8 "\x7b\"amount\":\x7b\"__bigint\":\"100\"\x7d,\"payer\":\"GA\",\"metadata\":\x7b\"note\":\x7b\"__bigint\":\"7\"\x7d\x7d\x7d",
      ⟨[124, 244, 168, 36, 37, 34, 175, 137, 241, 246, 199, 234, 3, 248, 160, 219, 197, 220, 191, 155, 201, 139, 175, 64, 237, 183,
          194, 134, 84, 217, 4, 30, 14, 26, 108, 21, 87, 77, 228, 174, 101, 2, 112, 132, 250, 83, 61, 31, 203, 1, 191, 245, 157, 33,
          255, 72, 164, 55, 214, 144, 89, 79, 111, 213, 43, 134, 248, 133, 207, 164, 105, 74, 75, 117, 120, 154, 157, 97, 21],
        [73, 84, 195, 247, 221, 247, 68, 217, 239, 133, 225, 246, 98, 215, 153, 73]⟩⟩]

def cipher : Gcm := KeyEnvelope.ofSamples samples

theorem cipher_lawful : cipher.Lawful := KeyEnvelope.ofSamples_lawful (by decide)

/-- A bigint in the metadata. -/
def feeData : PaymentData := ⟨100, "GA", none, some ⟨[("fee", .bigint 7)], by simp [IsJson, HoldJson, HoldsJson]⟩⟩

/-- An object in the metadata that looks like a bigint. -/
def noteData : PaymentData :=
  ⟨100, "GA", none, some ⟨[("note", .object [("__bigint", .string "7")])], by simp [IsJson, HoldJson, HoldsJson]⟩⟩

def sampleEvents (data : PaymentData) (iv : UInt8) : List Event :=
  [.addKey (.finite 1) (List.replicate 32 1) 0, .setActiveKey (.finite 1), .encrypt data (KeyEnvelope.ivOf iv)]

/-- The state after the key is active and the data is encrypted. -/
theorem sample_run (data : PaymentData) (iv : UInt8) : ∃ e envelope,
    run (step cipher) {} (sampleEvents data iv) = some ⟨e, [(data, envelope)], []⟩ :=
  ⟨_, _, rfl⟩

theorem fee_returned : ∃ s envelope, run (step cipher) {} (sampleEvents feeData 1) = some s ∧
    (feeData, envelope) ∈ s.records ∧ s.encryptor.decrypt cipher envelope = .ok feeData.toValue := by
  obtain ⟨e, envelope, hrun⟩ := sample_run feeData 1
  have hrecord : (feeData, envelope) ∈ [(feeData, envelope)] := List.mem_singleton_self _
  refine ⟨_, envelope, hrun, hrecord, (decrypt_encrypt_iff cipher cipher_lawful _ _ hrun feeData envelope hrecord).mpr ?_⟩
  rintro _ ⟨⟩
  simp [Untagged, UntaggedFields, UntaggedField, tag]

/-- The note comes back as the bigint that it looks like. -/
theorem note_changed : ∃ s envelope, run (step cipher) {} (sampleEvents noteData 2) = some s ∧
    (noteData, envelope) ∈ s.records ∧ s.encryptor.decrypt cipher envelope ≠ .ok noteData.toValue := by
  obtain ⟨e, envelope, hrun⟩ := sample_run noteData 2
  have hrecord : (noteData, envelope) ∈ [(noteData, envelope)] := List.mem_singleton_self _
  refine ⟨_, envelope, hrun, hrecord, fun hdecrypt => ?_⟩
  have hplain := (((run_inv cipher_lawful hrun).records _ hrecord).decrypt_iff cipher_lawful).mp hdecrypt
  have hnote : Untagged (.object [("note", .object [(tag, .string "7")])]) := hplain _ rfl
  exact hnote.1.2.1.1 rfl

end Result

end SplitSdk.PaymentRoundTrip
