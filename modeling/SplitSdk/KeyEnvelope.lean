import SplitSdk.TextEncoding

namespace SplitSdk.KeyEnvelope

open Numbers NumberText JsonText JsonRoundTrip TextEncoding

section Errors

abbrev Context := List (String × Json)

/-- The error classes of the module, and what a call of the backend is rejected with. -/
inductive Error
  | keyStorage (message : String) (context : Context)
  | keyNotFound (message : String) (context : Context)
  | keyIntegrity (message : String) (context : Context)
  | keyRotation (message : String) (context : Context)
  | backend (reason : String)

end Errors

section Crypto

structure MasterKey where
  bytes : List UInt8
  length_eq : bytes.length = 32
  deriving DecidableEq

/-- What `randomBytes(GCM_IV_BYTES)` returns. -/
structure Iv where
  bytes : List UInt8
  length_eq : bytes.length = 12
  deriving DecidableEq

/-- What `Date.now()` returns. -/
structure Time where
  ms : Nat
  le_max : ms ≤ 8640000000000000
  deriving DecidableEq

def Time.number (t : Time) : JsNumber := .finite t.ms

structure Encrypted where
  ciphertext : List UInt8
  tag : List UInt8
  deriving DecidableEq

/-- The `aes-256-gcm` cipher of `node:crypto`, used without associated data. -/
structure Gcm where
  encrypt : MasterKey → Iv → List UInt8 → Encrypted
  decrypt : MasterKey → Iv → Encrypted → Option (List UInt8)

structure Gcm.Lawful (gcm : Gcm) : Prop where
  tag_length : ∀ key iv p, (gcm.encrypt key iv p).tag.length = 16
  decrypt_encrypt : ∀ key iv p, gcm.decrypt key iv (gcm.encrypt key iv p) = some p

/-- A ciphertext is decrypted only with the key it was encrypted with. -/
def Gcm.KeyBound (gcm : Gcm) : Prop :=
  ∀ key other iv p q, gcm.decrypt other iv (gcm.encrypt key iv p) = some q → other = key

end Crypto

section Validation

def isControl (c : Char) : Bool := c.toNat ≤ 0x1F || c.toNat = 0x7F

def normalizeId (id : String) : Except Error String :=
  let normalized := String.ofList (trim id.toList)
  if normalized = "" then
    .error (.keyStorage "Secret id must be a non-empty string" [("received", .string "string")])
  else if 128 < (utf16 normalized).length then
    .error (.keyStorage "Secret id exceeds maximum length of 128 characters"
      [("length", .number (.finite (utf16 normalized).length))])
  else if normalized.toList.any isControl then
    .error (.keyStorage "Secret id must not contain control characters" [])
  else .ok normalized

def normalizeSecret (secret : Units) : Except Error Units :=
  if secret = [] then
    .error (.keyStorage "Secret must be a non-empty string" [("received", .string "string")])
  else if 4096 < secret.length then
    .error (.keyStorage "Secret exceeds maximum length of 4096 characters"
      [("length", .number (.finite secret.length))])
  else .ok secret

theorem eq_of_normalizeSecret {secret plaintext : Units} (h : normalizeSecret secret = .ok plaintext) :
    plaintext = secret := by
  unfold normalizeSecret at h
  split_ifs at h
  exact (Except.ok.inj h).symm

def masterKeyMessage : String := "masterKey must be exactly 32 bytes"

def validateMasterKey (key : List UInt8) : Except Error MasterKey :=
  if h : key.length = 32 then .ok ⟨key, h⟩
  else .error (.keyStorage masterKeyMessage [("length", .number (.finite key.length))])

end Validation

section Envelope

/-- The fields of a record that are read back. -/
structure StoredKeyRecord where
  iv : String
  tag : String
  ciphertext : String
  createdAt : JsNumber

def parseRecord (raw id : String) : Except Error StoredKeyRecord :=
  let invalidShape := Error.keyIntegrity s!"Stored record for \"{id}\" has an invalid shape" [("id", .string id)]
  match parse raw with
  | none => .error (.keyIntegrity s!"Stored record for \"{id}\" is not valid JSON" [("id", .string id)])
  | some record =>
      match record.get? "version", record.get? "iv", record.get? "tag", record.get? "ciphertext",
        record.get? "createdAt" with
      | some (.number version), some (.string iv), some (.string tag), some (.string ciphertext),
          some (.number createdAt) =>
          if version = .finite 1 then .ok ⟨iv, tag, ciphertext, createdAt⟩ else .error invalidShape
      | _, _, _, _, _ => .error invalidShape

def envelope (iv : Iv) (encrypted : Encrypted) (createdAt : JsNumber) (updatedAt : Time) : Json :=
  .object [("version", .number (.finite 1)), ("iv", .string (base64 iv.bytes)),
    ("tag", .string (base64 encrypted.tag)), ("ciphertext", .string (base64 encrypted.ciphertext)),
    ("createdAt", .number createdAt), ("updatedAt", .number updatedAt.number)]

variable (gcm : Gcm)

/-- The function `seal` of the source. -/
def sealRecord (plaintext : Units) (createdAt : JsNumber) (key : MasterKey) (iv : Iv) (updatedAt : Time) : String :=
  stringify (envelope iv (gcm.encrypt key iv (utf8 (toWellFormed plaintext))) createdAt updatedAt)

/-- The IV, tag and ciphertext that a record carries; the IV and the tag must have their lengths. -/
def sealedParts (record : StoredKeyRecord) : Option (Iv × Encrypted) :=
  let iv := decodeBase64 record.iv
  let tag := decodeBase64 record.tag
  if h : iv.length = 12 ∧ tag.length = 16 then
    some (⟨iv, h.1⟩, ⟨decodeBase64 record.ciphertext, tag⟩)
  else none

/-- The function `open` of the source. -/
def openRecord (raw id : String) (key : MasterKey) : Except Error String :=
  (parseRecord raw id).bind (fun record =>
    match sealedParts record with
    | none => .error (.keyIntegrity s!"Stored record for \"{id}\" has an invalid IV/tag" [("id", .string id)])
    | some (iv, encrypted) =>
        match gcm.decrypt key iv encrypted with
        | some plaintext => .ok (decodeUtf8 plaintext)
        | none =>
            .error (.keyIntegrity
              s!"Failed to decrypt secret for \"{id}\" — wrong master key or tampered record"
              [("id", .string id)]))

end Envelope

section RoundTrip

theorem exact_one : Exact (.number (.finite 1)) :=
  ⟨by simpa using isDouble_natCast (n := 1) (by norm_num), 1, rfl⟩

theorem Time.exact (t : Time) : Exact (.number t.number) :=
  ⟨isDouble_natCast (t.le_max.trans_lt (by norm_num)), t.ms, rfl⟩

variable {gcm : Gcm} (plaintext : Units) {createdAt : JsNumber} (key : MasterKey) (iv : Iv) (updatedAt : Time)

theorem parse_envelope (encrypted : Encrypted) (h : Exact (.number createdAt)) :
    parse (stringify (envelope iv encrypted createdAt updatedAt)) =
      some (envelope iv encrypted createdAt updatedAt) := by
  apply parse_stringify
  simp only [envelope, Exact, ExactFields, ExactField, true_and, and_true]
  exact ⟨exact_one, h, updatedAt.exact⟩

theorem parseRecord_sealRecord (id : String) (h : Exact (.number createdAt)) :
    parseRecord (sealRecord gcm plaintext createdAt key iv updatedAt) id =
      .ok ⟨base64 iv.bytes, base64 (gcm.encrypt key iv (utf8 (toWellFormed plaintext))).tag,
        base64 (gcm.encrypt key iv (utf8 (toWellFormed plaintext))).ciphertext, createdAt⟩ := by
  rw [parseRecord, sealRecord, parse_envelope iv updatedAt _ h]
  rfl

theorem sealedParts_base64 (encrypted : Encrypted) (h : encrypted.tag.length = 16) :
    sealedParts ⟨base64 iv.bytes, base64 encrypted.tag, base64 encrypted.ciphertext, createdAt⟩ =
      some (iv, encrypted) := by
  unfold sealedParts
  simp only [decodeBase64_base64]
  rw [dif_pos ⟨iv.length_eq, h⟩]

/-- What was sealed under a key opens under that key, whatever the id. -/
theorem openRecord_sealRecord (lawful : gcm.Lawful) (id : String) (h : Exact (.number createdAt)) :
    openRecord gcm (sealRecord gcm plaintext createdAt key iv updatedAt) id key =
      .ok (toWellFormed plaintext) := by
  rw [openRecord, parseRecord_sealRecord plaintext key iv updatedAt id h, Except.bind,
    sealedParts_base64 iv _ (lawful.tag_length _ _ _)]
  dsimp only
  rw [lawful.decrypt_encrypt]
  exact congrArg Except.ok (decodeUtf8_utf8 _)

/-- What was sealed under a key opens under no other key. -/
theorem eq_of_openRecord_sealRecord (lawful : gcm.Lawful) (bound : gcm.KeyBound) {id text : String}
    {other : MasterKey} (h : Exact (.number createdAt))
    (hopen : openRecord gcm (sealRecord gcm plaintext createdAt key iv updatedAt) id other = .ok text) :
    other = key := by
  rw [openRecord, parseRecord_sealRecord plaintext key iv updatedAt id h, Except.bind,
    sealedParts_base64 iv _ (lawful.tag_length _ _ _)] at hopen
  dsimp only at hopen
  split at hopen
  · next q hq => exact bound key other iv _ q hq
  · cases hopen

end RoundTrip

section Samples

/-- One value of the cipher. -/
structure Sample where
  key : MasterKey
  iv : Iv
  plaintext : List UInt8
  encrypted : Encrypted

def zeroTag : List UInt8 := List.replicate 16 0

variable (samples : List Sample)

/-- A cipher with the given values. On other inputs it puts the key before the plaintext. -/
def ofSamples : Gcm where
  encrypt key iv p :=
    match samples.find? (fun x => x.key = key ∧ x.iv = iv ∧ x.plaintext = p) with
    | some x => x.encrypted
    | none => ⟨key.bytes ++ p, zeroTag⟩
  decrypt key iv encrypted :=
    match samples.find? (fun x => x.key = key ∧ x.iv = iv ∧ x.encrypted = encrypted) with
    | some x => some x.plaintext
    | none =>
        if encrypted.tag = zeroTag ∧ encrypted.ciphertext.take 32 = key.bytes then
          some (encrypted.ciphertext.drop 32)
        else none

/-- The tags have their length and no two values are the same. -/
def IsCipher : Prop :=
  (∀ x ∈ samples, x.encrypted.tag.length = 16 ∧ x.encrypted.tag ≠ zeroTag) ∧
    (samples.map Sample.encrypted).Nodup

instance : Decidable (IsCipher samples) := inferInstanceAs (Decidable (_ ∧ _))

variable {samples}

/-- A value is one of the given ones, or the key stands before the plaintext. -/
theorem encrypt_cases (key : MasterKey) (iv : Iv) (p : List UInt8) :
    (∃ x ∈ samples, x.key = key ∧ x.iv = iv ∧ x.plaintext = p ∧
      (ofSamples samples).encrypt key iv p = x.encrypted) ∨
    (ofSamples samples).encrypt key iv p = ⟨key.bytes ++ p, zeroTag⟩ := by
  rw [ofSamples]
  dsimp only
  split
  · next x hx =>
      have hp := List.find?_some hx
      simp only [decide_eq_true_eq] at hp
      exact .inl ⟨x, List.mem_of_find?_eq_some hx, hp.1, hp.2.1, hp.2.2, rfl⟩
  · exact .inr rfl

variable (h : IsCipher samples)

include h in
theorem decrypt_sample {x : Sample} (hx : x ∈ samples) (key : MasterKey) :
    (ofSamples samples).decrypt key x.iv x.encrypted = if key = x.key then some x.plaintext else none := by
  rw [ofSamples]
  dsimp only
  split
  · next y hy =>
      have hp := List.find?_some hy
      simp only [decide_eq_true_eq] at hp
      obtain rfl := List.inj_on_of_nodup_map h.2 (List.mem_of_find?_eq_some hy) hx hp.2.2
      rw [if_pos hp.1.symm]
  · next hnone =>
      have hne : key ≠ x.key := by
        rintro rfl
        have := List.find?_eq_none.mp hnone x hx
        simp at this
      rw [if_neg hne, if_neg (fun htag => (h.1 x hx).2 htag.1)]

include h in
theorem decrypt_other (key other : MasterKey) (iv : Iv) (p : List UInt8) :
    (ofSamples samples).decrypt other iv ⟨key.bytes ++ p, zeroTag⟩ = if other = key then some p else none := by
  have hnone : samples.find? (fun x => x.key = other ∧ x.iv = iv ∧ x.encrypted = ⟨key.bytes ++ p, zeroTag⟩) =
      none := by
    apply List.find?_eq_none.mpr
    intro x hx hp
    simp only [decide_eq_true_eq] at hp
    exact (h.1 x hx).2 (congrArg Encrypted.tag hp.2.2)
  have htake : (key.bytes ++ p).take 32 = key.bytes := List.take_left' key.length_eq
  have hdrop : (key.bytes ++ p).drop 32 = p := List.drop_left' key.length_eq
  rw [ofSamples]
  dsimp only
  rw [hnone, htake, hdrop]
  by_cases he : other = key
  · subst he
    rw [if_pos rfl]
    exact if_pos ⟨rfl, rfl⟩
  · rw [if_neg he]
    refine if_neg (fun hp => he ?_)
    cases other
    cases key
    simp only [MasterKey.mk.injEq]
    exact hp.2.symm

include h in
theorem ofSamples_lawful : (ofSamples samples).Lawful := by
  constructor
  · intro key iv p
    rcases encrypt_cases key iv p with ⟨x, hx, _, _, _, he⟩ | he
    · rw [he]
      exact (h.1 x hx).1
    · rw [he]
      rfl
  · intro key iv p
    rcases encrypt_cases key iv p with ⟨x, hx, rfl, rfl, rfl, he⟩ | he
    · rw [he, decrypt_sample h hx, if_pos rfl]
    · rw [he, decrypt_other h, if_pos rfl]

include h in
theorem ofSamples_keyBound : (ofSamples samples).KeyBound := by
  intro key other iv p q hq
  rcases encrypt_cases key iv p with ⟨x, hx, rfl, rfl, rfl, he⟩ | he
  · rw [he, decrypt_sample h hx] at hq
    split_ifs at hq with hkey
    exact hkey
  · rw [he, decrypt_other h] at hq
    split_ifs at hq with hkey
    exact hkey

end Samples

section Seeds

def keyOf (n : UInt8) : MasterKey := ⟨List.replicate 32 n, List.length_replicate⟩

def ivOf (n : UInt8) : Iv := ⟨List.replicate 12 n, List.length_replicate⟩

def noon : Time := ⟨1700000000000, by norm_num⟩

/-- Two seeds under two keys. -/
def samples : List Sample :=
  [⟨keyOf 1, ivOf 1, utf8 "seed-a", ⟨[193, 28, 223, 254, 68, 150],
      [2, 86, 28, 170, 95, 26, 58, 183, 59, 106, 242, 43, 77, 163, 141, 204]⟩⟩,
    ⟨keyOf 1, ivOf 2, utf8 "seed-b", ⟨[116, 179, 172, 45, 103, 53],
      [103, 39, 23, 122, 213, 187, 144, 160, 37, 208, 36, 14, 39, 60, 69, 87]⟩⟩,
    ⟨keyOf 2, ivOf 3, utf8 "seed-a", ⟨[182, 152, 158, 77, 58, 158],
      [240, 201, 36, 48, 207, 187, 242, 21, 16, 159, 242, 114, 104, 16, 163, 246]⟩⟩,
    ⟨keyOf 2, ivOf 4, utf8 "seed-b", ⟨[119, 41, 180, 106, 211, 41],
      [35, 109, 55, 74, 152, 7, 255, 217, 38, 23, 79, 255, 187, 239, 71, 233]⟩⟩]

def cipher : Gcm := ofSamples samples

theorem cipher_lawful : cipher.Lawful := ofSamples_lawful (by decide)

theorem cipher_keyBound : cipher.KeyBound := ofSamples_keyBound (by decide)

def sealedSeed (seed : String) (key iv : UInt8) : String :=
  sealRecord cipher (utf16 seed) noon.number (keyOf key) (ivOf iv) noon

end Seeds

end SplitSdk.KeyEnvelope
