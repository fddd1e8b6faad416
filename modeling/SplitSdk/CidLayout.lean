import SplitSdk.ContentIdentifiers

namespace SplitSdk.CidLayout

open ContentIdentifiers PositionalNumerals TextEncoding

section Decoder

/-- The bytes of a number, as many as are asked for, the first one weighing most. -/
def bytesOf : Nat → Nat → List UInt8
  | 0, _ => []
  | n + 1, x => .ofNat (x / 256 ^ n) :: bytesOf n (x % 256 ^ n)

def digitOf (c : Char) : Option Nat := if c ∈ base32Alphabet then some (base32Alphabet.idxOf c) else none

/-- Unpadded base32 as in RFC 4648: fewer than five bits are left over, and they are zero. -/
def decodeBase32 (cs : List Char) : Option (List UInt8) := do
  let digits ← cs.mapM digitOf
  let pending := 5 * digits.length % 8
  if 5 ≤ pending ∨ value 32 digits % 2 ^ pending ≠ 0 then none
  else some (bytesOf (5 * digits.length / 8) (value 32 digits / 2 ^ pending))

theorem bytesOf_value (bytes : List UInt8) : bytesOf bytes.length (value 256 (bytes.map UInt8.toNat)) = bytes := by
  induction bytes with
  | nil => rfl
  | cons byte bytes ih =>
      have hlt := value_lt (by decide : 1 < 256) (toNat_lt_of_mem_map bytes)
      rw [List.length_map] at hlt
      have hpos : 0 < 256 ^ bytes.length := Nat.pow_pos (by decide)
      rw [List.length_cons, bytesOf, List.map_cons, value_cons, List.length_map, Nat.mul_comm,
        Nat.mul_add_div hpos, Nat.div_eq_of_lt hlt, Nat.mul_add_mod, Nat.mod_eq_of_lt hlt, ih, Nat.add_zero,
        UInt8.ofNat_toNat]

theorem digitOf_letter {digit : Nat} (h : digit < base32Alphabet.length) : digitOf (letter base32Alphabet digit) = some digit := by
  rw [digitOf, if_pos (letter_mem h), letter_eq h, base32Alphabet_nodup.idxOf_getElem]

theorem mapM_digitOf {digits : List Nat} (h : ∀ digit ∈ digits, digit < base32Alphabet.length) :
    (digits.map (letter base32Alphabet)).mapM digitOf = some digits := by
  induction digits with
  | nil => rfl
  | cons digit digits ih =>
      rw [List.forall_mem_cons] at h
      rw [List.map_cons, List.mapM_cons, digitOf_letter h.1, ih h.2]
      rfl

end Decoder

section Encoder

theorem value_append {base : Nat} (digits digits' : List Nat) :
    value base (digits ++ digits') = value base digits * base ^ digits'.length + value base digits' := by
  induction digits with
  | nil => rw [List.nil_append, value_nil, Nat.zero_mul, Nat.zero_add]
  | cons digit digits ih =>
      rw [List.cons_append, value_cons, value_cons, ih, List.length_append, Nat.pow_add]
      ring

/-- The digits of the inner loop stand for the bits down to those that are left. -/
theorem value_takeBits (v : UInt32) {fuel bits : Nat} (h : bits ≤ fuel) (hbits : bits < 32) :
    value 32 (takeBits v fuel bits).1 = v.toNat % 2 ^ bits / 2 ^ (bits % 5) := by
  induction fuel generalizing bits with
  | zero =>
      obtain rfl := Nat.le_zero.mp h
      rw [takeBits, value_nil, Nat.pow_zero, Nat.mod_one, Nat.zero_div]
  | succ fuel ih =>
      rw [takeBits]
      split_ifs with hfull
      · have hlength := (takeBits_spec v (show bits - 5 ≤ fuel by omega)).1
        have hrest := ih (show bits - 5 ≤ fuel by omega) (by omega)
        have hsplit : bits - 5 = 5 * ((bits - 5) / 5) + bits % 5 := by omega
        have hpow : 2 ^ bits = 2 ^ (bits - 5) * 32 := by
          rw [show (32 : Nat) = 2 ^ 5 from rfl, ← Nat.pow_add, Nat.sub_add_cancel hfull]
        have hhigh : 2 ^ (bits - 5) = 2 ^ (bits % 5) * 32 ^ ((bits - 5) / 5) := by
          rw [show (32 : Nat) = 2 ^ 5 from rfl, ← Nat.pow_mul, ← Nat.pow_add]
          congr 1
          omega
        rw [value_cons, hlength, hrest, toNat_high (by omega), show (bits - 5) % 5 = bits % 5 by omega, hpow, Nat.mod_mul]
        have hpos : 0 < 2 ^ (bits % 5) := Nat.two_pow_pos _
        generalize v.toNat / 2 ^ (bits - 5) % 32 = digit
        generalize v.toNat % 2 ^ (bits - 5) = low
        rw [hhigh, Nat.mul_assoc, Nat.add_mul_div_left _ _ hpos]
        ring
      · rw [value_nil, show bits % 5 = bits by omega]
        exact (Nat.div_eq_of_lt (Nat.mod_lt _ (Nat.two_pow_pos _))).symm

/-- The digits stand for the pending bits and the bytes, with zeros up to the last digit. -/
theorem value_digitsFrom (bytes : List UInt8) (v : UInt32) {bits : Nat} (hbits : bits < 5) :
    ∃ pad < 5, 5 * (digitsFrom v bits bytes).length = bits + 8 * bytes.length + pad ∧
      value 32 (digitsFrom v bits bytes) =
        (v.toNat % 2 ^ bits * 256 ^ bytes.length + value 256 (bytes.map UInt8.toNat)) * 2 ^ pad := by
  induction bytes generalizing v bits with
  | nil =>
      rw [digitsFrom]
      split_ifs with hpending
      · refine ⟨5 - bits, by omega, by simp only [List.length_singleton, List.length_nil]; omega, ?_⟩
        have hpow : 32 = 2 ^ bits * 2 ^ (5 - bits) := by
          rw [show (32 : Nat) = 2 ^ 5 from rfl, ← Nat.pow_add, Nat.add_sub_of_le (by omega)]
        rw [value_cons, toNat_last (by omega), hpow, Nat.mul_mod_mul_right]
        simp [value_nil]
      · obtain rfl : bits = 0 := by omega
        exact ⟨0, by omega, rfl, by simp [value_nil, Nat.mod_one]⟩
  | cons byte bytes ih =>
      rw [digitsFrom]
      dsimp only
      obtain ⟨htaken, hleft⟩ := takeBits_spec (v <<< 8 ||| byte.toUInt32) (le_refl (bits + 8))
      have hvalue := value_takeBits (v <<< 8 ||| byte.toUInt32) (le_refl (bits + 8)) (by omega)
      obtain ⟨pad, hpad, hlength, hrest⟩ := ih (v <<< 8 ||| byte.toUInt32) (Nat.mod_lt (bits + 8) (by decide : 5 > 0))
      rw [hleft]
      refine ⟨pad, hpad, ?_, ?_⟩
      · rw [List.length_append, htaken, List.length_cons]
        omega
      · have hlow : (v <<< 8 ||| byte.toUInt32).toNat % 2 ^ ((bits + 8) % 5) =
            (v <<< 8 ||| byte.toUInt32).toNat % 2 ^ (bits + 8) % 2 ^ ((bits + 8) % 5) :=
          (Nat.mod_mod_of_dvd _ (Nat.pow_dvd_pow 2 (Nat.mod_le _ _))).symm
        have hpushed : (v <<< 8 ||| byte.toUInt32).toNat % 2 ^ (bits + 8) = v.toNat % 2 ^ bits * 256 + byte.toNat := by
          rw [toNat_push (by omega), Nat.pow_add, Nat.mul_comm (2 ^ bits), Nat.mod_mul]
          have hbyte := byte.toNat_lt
          rw [show (v.toNat * 256 + byte.toNat) / 2 ^ 8 = v.toNat by omega]
          omega
        have hpow : 32 ^ (digitsFrom (v <<< 8 ||| byte.toUInt32) ((bits + 8) % 5) bytes).length =
            2 ^ ((bits + 8) % 5) * (256 ^ bytes.length * 2 ^ pad) := by
          rw [show (32 : Nat) = 2 ^ 5 from rfl, show (256 : Nat) = 2 ^ 8 from rfl, ← Nat.pow_mul, ← Nat.pow_mul,
            ← Nat.pow_add, ← Nat.pow_add]
          congr 1
          omega
        rw [value_append, hvalue, hrest, hlow, hpow, hpushed, List.map_cons, value_cons, List.length_map,
          List.length_cons, Nat.pow_succ]
        have hdiv := Nat.div_add_mod (v.toNat % 2 ^ bits * 256 + byte.toNat) (2 ^ ((bits + 8) % 5))
        generalize (v.toNat % 2 ^ bits * 256 + byte.toNat) / 2 ^ ((bits + 8) % 5) = high at hdiv ⊢
        generalize (v.toNat % 2 ^ bits * 256 + byte.toNat) % 2 ^ ((bits + 8) % 5) = low at hdiv ⊢
        generalize value 256 (bytes.map UInt8.toNat) = rest
        calc high * (2 ^ ((bits + 8) % 5) * (256 ^ bytes.length * 2 ^ pad)) + (low * 256 ^ bytes.length + rest) * 2 ^ pad
            = ((2 ^ ((bits + 8) % 5) * high + low) * 256 ^ bytes.length + rest) * 2 ^ pad := by ring
          _ = ((v.toNat % 2 ^ bits * 256 + byte.toNat) * 256 ^ bytes.length + rest) * 2 ^ pad := by rw [hdiv]
          _ = (v.toNat % 2 ^ bits * (256 ^ bytes.length * 256) + (byte.toNat * 256 ^ bytes.length + rest)) * 2 ^ pad := by
              ring

/-- The decoder reads what the encoder writes. -/
theorem decodeBase32_encodeBase32 (bytes : List UInt8) : decodeBase32 (encodeBase32 bytes) = some bytes := by
  obtain ⟨pad, hpad, hlength, hvalue⟩ := value_digitsFrom bytes 0 (by decide : 0 < 5)
  have hdigits : ((digitsFrom 0 0 bytes).map (letter base32Alphabet)).mapM digitOf = some (digitsFrom 0 0 bytes) :=
    mapM_digitOf (digitsFrom_lt bytes)
  have hpending : 5 * (digitsFrom 0 0 bytes).length % 8 = pad := by omega
  have hcount : 5 * (digitsFrom 0 0 bytes).length / 8 = bytes.length := by omega
  have hnumber : value 32 (digitsFrom 0 0 bytes) = value 256 (bytes.map UInt8.toNat) * 2 ^ pad := by
    rw [hvalue, Nat.pow_zero, Nat.mod_one, Nat.zero_mul, Nat.zero_add]
  rw [decodeBase32, encodeBase32, hdigits]
  change (if _ then _ else _) = _
  rw [hpending, hcount, hnumber, Nat.mul_mod_left, Nat.mul_div_cancel _ (Nat.two_pow_pos pad), bytesOf_value,
    if_neg (not_or.mpr ⟨not_le.mpr hpad, not_not.mpr rfl⟩)]

end Encoder

section Result

variable (sha256 : List UInt8 → Digest) (content : Units)

/-- The version, the codec and the multihash of the digest. -/
def cidBytes : List UInt8 := [0x01, 0x70, 0x12, 0x20] ++ (sha256 (encode content)).val

def WellFormed : Prop :=
  ∃ text, computeCidV1 sha256 content = 'b' :: text ∧ decodeBase32 text = some (cidBytes sha256 content)

theorem decode_computeCidV1 : decodeBase32 (computeCidV1 sha256 content).tail =
    some ([0x01, 0x70, 0x12, 0x20, 0x12, 0x20] ++ (sha256 (encode content)).val) := decodeBase32_encodeBase32 _

theorem not_wellFormed : ¬WellFormed sha256 content := by
  rintro ⟨text, htext, hwell⟩
  have hdecode := decode_computeCidV1 sha256 content
  rw [htext, List.tail_cons, hwell] at hdecode
  have hlength := congrArg List.length (Option.some.inj hdecode)
  rw [cidBytes, List.length_append, List.length_append] at hlength
  exact absurd hlength (by simp)

/-- The multihash framing is written twice, before every digest. -/
theorem cid_never_wellFormed : ¬WellFormed sha256 content ∧ decodeBase32 (computeCidV1 sha256 content).tail =
    some ([0x01, 0x70, 0x12, 0x20, 0x12, 0x20] ++ (sha256 (encode content)).val) :=
  ⟨not_wellFormed sha256 content, decode_computeCidV1 sha256 content⟩

/-- The SHA-256 digest of the empty content. -/
def emptyDigest : Digest :=
  ⟨[0xE3, 0xB0, 0xC4, 0x42, 0x98, 0xFC, 0x1C, 0x14, 0x9A, 0xFB, 0xF4, 0xC8, 0x99, 0x6F, 0xB9, 0x24, 0x27, 0xAE, 0x41, 0xE4,
    0x64, 0x9B, 0x93, 0x4C, 0xA4, 0x95, 0x99, 0x1B, 0x78, 0x52, 0xB8, 0x55], rfl⟩

theorem empty_cid_malformed : encode [] = [] ∧ ¬WellFormed (fun _ => emptyDigest) [] :=
  ⟨rfl, not_wellFormed _ []⟩

end Result

end SplitSdk.CidLayout
