import SplitSdk.HashTree
import SplitSdk.NumberText
import SplitSdk.PositionalNumerals
import SplitSdk.TextEncoding
import Mathlib.Data.Nat.Digits.Lemmas

namespace SplitSdk.ContentIdentifiers

open PositionalNumerals TextEncoding

section Base58

def base58Alphabet : List Char := "123456789ABCDEFGHJKLMNPQRSTUVWXYZabcdefghijkmnopqrstuvwxyz".toList

def base32Alphabet : List Char := "abcdefghijklmnopqrstuvwxyz234567".toList

/-- Every digit that is written lies in its alphabet. -/
def letter (alphabet : List Char) (digit : Nat) : Char := alphabet.getD digit ' '

/-- Twice as many divisions as there are bytes are enough. -/
def encodeBase58 (bytes : List UInt8) : List Char :=
  let buffer := bytes.map UInt8.toNat
  let zeros := (buffer.takeWhile (· = 0)).length
  let digits := convert 256 58 (2 * buffer.length) (buffer.dropWhile (· = 0))
  List.replicate zeros '1' ++ digits.reverse.map (letter base58Alphabet)

end Base58

section Base32

/-- The inner loop: five bits at a time, and how many are left. -/
def takeBits (value : UInt32) : Nat → Nat → List Nat × Nat
  | 0, bits => ([], bits)
  | fuel + 1, bits =>
      if 5 ≤ bits then
        let (digits, left) := takeBits value fuel (bits - 5)
        ((value >>> .ofNat (bits - 5) &&& 31).toNat :: digits, left)
      else ([], bits)

/-- The digits after a part of the bytes, of which `bits` bits in `value` are still to be written. -/
def digitsFrom (value : UInt32) (bits : Nat) : List UInt8 → List Nat
  | [] => if 0 < bits then [(value <<< .ofNat (5 - bits) &&& 31).toNat] else []
  | byte :: bytes =>
      let value := value <<< 8 ||| byte.toUInt32
      let (digits, left) := takeBits value (bits + 8) (bits + 8)
      digits ++ digitsFrom value left bytes

def encodeBase32 (bytes : List UInt8) : List Char := (digitsFrom 0 0 bytes).map (letter base32Alphabet)

end Base32

section Addresses

abbrev Digest := {bytes : List UInt8 // bytes.length = 32}

variable (sha256 : List UInt8 → Digest)

/-- `new TextEncoder().encode(content)`. -/
def encode (content : Units) : List UInt8 := utf8 (toWellFormed content)

def multihash (content : Units) : List UInt8 := [0x12, 0x20] ++ (sha256 (encode content)).val

def computeCidV0 (content : Units) : List Char := encodeBase58 (multihash sha256 content)

def computeCidV1 (content : Units) : List Char :=
  'b' :: encodeBase32 ([0x01, 0x70, 0x12, 0x20] ++ multihash sha256 content)

end Addresses

section Letters

variable {alphabet : List Char} {digit digit' : Nat}

theorem letter_eq (h : digit < alphabet.length) : letter alphabet digit = alphabet[digit] :=
  (List.getElem_eq_getD ' ').symm

theorem letter_mem (h : digit < alphabet.length) : letter alphabet digit ∈ alphabet := by
  rw [letter_eq h]
  exact List.getElem_mem h

theorem letter_inj (hnodup : alphabet.Nodup) (h : digit < alphabet.length) (h' : digit' < alphabet.length)
    (hletter : letter alphabet digit = letter alphabet digit') : digit = digit' := by
  rw [letter_eq h, letter_eq h'] at hletter
  exact (hnodup.getElem_inj_iff).mp hletter

theorem map_letter_inj (hnodup : alphabet.Nodup) {digits digits' : List Nat} (h : ∀ digit ∈ digits, digit < alphabet.length)
    (h' : ∀ digit ∈ digits', digit < alphabet.length)
    (hmap : digits.map (letter alphabet) = digits'.map (letter alphabet)) : digits = digits' :=
  HashTree.map_inj_of_injOn (fun _ hdigit _ hdigit' => letter_inj hnodup (h _ hdigit) (h' _ hdigit')) hmap

end Letters

section Base58

variable {bytes bytes' : List UInt8}

theorem base58Alphabet_nodup : base58Alphabet.Nodup := by decide +kernel

theorem lt_of_mem_digits {digit n : Nat} (h : digit ∈ (Nat.digits 58 n).reverse) : digit < base58Alphabet.length :=
  Nat.digits_lt_base (by decide) (List.mem_reverse.mp h)

theorem encodeBase58_of_head (h : bytes.head? ≠ some 0) :
    encodeBase58 bytes =
      (Nat.digits 58 (value 256 (bytes.map UInt8.toNat))).reverse.map (letter base58Alphabet) := by
  have hhead : (bytes.map UInt8.toNat).head? ≠ some 0 := by
    cases bytes with
    | nil => simp
    | cons byte bytes => simpa [← UInt8.toNat_inj] using h
  have hlt := value_lt (by decide : 1 < 256) (toNat_lt_of_mem_map bytes)
  have hpow : 256 ^ (bytes.map UInt8.toNat).length ≤ 58 ^ (2 * (bytes.map UInt8.toNat).length) := by
    rw [Nat.pow_mul]
    exact Nat.pow_le_pow_left (by decide) _
  unfold encodeBase58
  dsimp only
  rw [dropWhile_of_head hhead, takeWhile_of_head hhead,
    convert_eq_digits (by decide) (by decide) _ hhead (hlt.trans_le hpow)]
  rfl

theorem encodeBase58_inj (h : bytes.head? ≠ some 0) (h' : bytes'.head? ≠ some 0) (hlength : bytes.length = bytes'.length)
    (hencode : encodeBase58 bytes = encodeBase58 bytes') : bytes = bytes' := by
  rw [encodeBase58_of_head h, encodeBase58_of_head h'] at hencode
  have hdigits := map_letter_inj base58Alphabet_nodup (fun _ => lt_of_mem_digits) (fun _ => lt_of_mem_digits) hencode
  have hvalue := Nat.digits_inj_iff.mp (List.reverse_injective hdigits)
  refine List.map_injective_iff.mpr (fun _ _ => UInt8.toNat_inj.mp) (value_inj (by decide) ?_ ?_ ?_ hvalue)
  · rw [List.length_map, List.length_map, hlength]
  · exact toNat_lt_of_mem_map bytes
  · exact toNat_lt_of_mem_map bytes'

end Base58

section Base32

variable {value value' : UInt32} {bits fuel : Nat}

theorem base32Alphabet_nodup : base32Alphabet.Nodup := by decide +kernel

theorem toNat_low (x : UInt32) : (x &&& 31).toNat = x.toNat % 32 := by
  rw [UInt32.toNat_and]
  exact Nat.and_two_pow_sub_one_eq_mod _ 5

theorem toNat_high (h : bits < 32) : (value >>> .ofNat bits &&& 31).toNat = value.toNat / 2 ^ bits % 32 := by
  rw [toNat_low, UInt32.toNat_shiftRight, UInt32.toNat_ofNat_of_lt' (h.trans (by decide)), Nat.mod_eq_of_lt h,
    Nat.shiftRight_eq_div_pow]

theorem toNat_last (h : bits < 32) :
    (value <<< .ofNat bits &&& 31).toNat = value.toNat * 2 ^ bits % 32 := by
  rw [toNat_low, UInt32.toNat_shiftLeft, UInt32.toNat_ofNat_of_lt' (h.trans (by decide)), Nat.mod_eq_of_lt h,
    Nat.shiftLeft_eq, Nat.mod_mod_of_dvd _ (by decide)]

/-- A byte is pushed into the low bits, and what was there before moves up. -/
theorem toNat_push (h : bits ≤ 24) (byte : UInt8) :
    (value <<< 8 ||| byte.toUInt32).toNat % 2 ^ (bits + 8) = (value.toNat * 256 + byte.toNat) % 2 ^ (bits + 8) := by
  have hshift : (value <<< 8).toNat = (value.toNat % 2 ^ 24) <<< 8 := by
    rw [UInt32.toNat_shiftLeft, Nat.shiftLeft_eq, Nat.shiftLeft_eq]
    exact Nat.mul_mod_mul_right (2 ^ 8) _ (2 ^ 24)
  rw [UInt32.toNat_or, hshift, UInt8.toNat_toUInt32, ← Nat.shiftLeft_add_eq_or_of_lt byte.toNat_lt, Nat.shiftLeft_eq]
  have hdvd : 2 ^ (bits + 8) ∣ 2 ^ 24 * 2 ^ 8 := by
    rw [← Nat.pow_add]
    exact Nat.pow_dvd_pow 2 (by omega)
  rw [← Nat.mul_mod_mul_right, Nat.add_mod, Nat.mod_mod_of_dvd _ hdvd, ← Nat.add_mod]

variable (value) in
theorem takeBits_spec (h : bits ≤ fuel) :
    (takeBits value fuel bits).1.length = bits / 5 ∧ (takeBits value fuel bits).2 = bits % 5 := by
  induction fuel generalizing bits with
  | zero =>
      obtain rfl := Nat.le_zero.mp h
      exact ⟨rfl, rfl⟩
  | succ fuel ih =>
      rw [takeBits]
      split_ifs with hfull
      · obtain ⟨hlength, hleft⟩ := ih (show bits - 5 ≤ fuel by omega)
        exact ⟨by simp only [List.length_cons, hlength]; omega, by simp only [hleft]; omega⟩
      · exact ⟨by rw [List.length_nil]; omega, by dsimp only; omega⟩

theorem takeBits_lt : ∀ digit ∈ (takeBits value fuel bits).1, digit < 32 := by
  induction fuel generalizing bits with
  | zero => exact List.forall_mem_nil _
  | succ fuel ih =>
      rw [takeBits]
      split_ifs with hfull
      · refine List.forall_mem_cons.mpr ⟨?_, ih⟩
        rw [toNat_low]
        exact Nat.mod_lt _ (by decide)
      · exact List.forall_mem_nil _

/-- The digits and what is left give the bits back. -/
theorem takeBits_inj (h : bits ≤ fuel) (hbits : bits < 32) (hdigits : (takeBits value fuel bits).1 = (takeBits value' fuel bits).1)
    (hleft : value.toNat % 2 ^ (bits % 5) = value'.toNat % 2 ^ (bits % 5)) :
    value.toNat % 2 ^ bits = value'.toNat % 2 ^ bits := by
  induction fuel generalizing bits with
  | zero =>
      obtain rfl := Nat.le_zero.mp h
      exact hleft
  | succ fuel ih =>
      rw [takeBits, takeBits] at hdigits
      split_ifs at hdigits with hfull
      · obtain ⟨hdigit, hrest⟩ := List.cons_eq_cons.mp hdigits
        have hlow := ih (show bits - 5 ≤ fuel by omega) (by omega) hrest (by rwa [show (bits - 5) % 5 = bits % 5 by omega])
        rw [toNat_high (by omega), toNat_high (by omega)] at hdigit
        have hpow : 2 ^ bits = 2 ^ (bits - 5) * 32 := by
          rw [show (32 : Nat) = 2 ^ 5 from rfl, ← Nat.pow_add, Nat.sub_add_cancel hfull]
        rw [hpow, Nat.mod_mul, Nat.mod_mul, hlow, hdigit]
      · rwa [show bits % 5 = bits by omega] at hleft

theorem digitsFrom_lt (bytes : List UInt8) : ∀ digit ∈ digitsFrom value bits bytes, digit < base32Alphabet.length := by
  induction bytes generalizing value bits with
  | nil =>
      rw [digitsFrom]
      split_ifs with hpending
      · refine List.forall_mem_singleton.mpr ?_
        rw [toNat_low]
        exact Nat.mod_lt _ (by decide)
      · exact List.forall_mem_nil _
  | cons byte bytes ih =>
      rw [digitsFrom]
      dsimp only
      exact List.forall_mem_append.mpr ⟨takeBits_lt, ih⟩

theorem digitsFrom_inj {bytes bytes' : List UInt8} (hbits : bits < 5) (hlength : bytes.length = bytes'.length)
    (hdigits : digitsFrom value bits bytes = digitsFrom value' bits bytes') :
    value.toNat % 2 ^ bits = value'.toNat % 2 ^ bits ∧ bytes = bytes' := by
  induction bytes generalizing value value' bits bytes' with
  | nil =>
      obtain rfl := List.length_eq_zero_iff.mp hlength.symm
      rw [digitsFrom, digitsFrom] at hdigits
      refine ⟨?_, rfl⟩
      split_ifs at hdigits with hpending
      · have hdigit := List.singleton_injective hdigits
        rw [toNat_last (by omega), toNat_last (by omega)] at hdigit
        have hpow : 32 = 2 ^ bits * 2 ^ (5 - bits) := by
          rw [show (32 : Nat) = 2 ^ 5 from rfl, ← Nat.pow_add, Nat.add_sub_of_le (by omega)]
        rw [hpow, Nat.mul_mod_mul_right, Nat.mul_mod_mul_right] at hdigit
        exact Nat.eq_of_mul_eq_mul_right (Nat.two_pow_pos _) hdigit
      · obtain rfl : bits = 0 := by omega
        rw [Nat.pow_zero, Nat.mod_one, Nat.mod_one]
  | cons byte bytes ih =>
      obtain ⟨byte', bytes', rfl⟩ := List.exists_cons_of_ne_nil (List.ne_nil_of_length_eq_add_one hlength.symm)
      rw [digitsFrom, digitsFrom] at hdigits
      dsimp only at hdigits
      obtain ⟨htaken, hleft⟩ := takeBits_spec (value <<< 8 ||| byte.toUInt32) (le_refl (bits + 8))
      obtain ⟨htaken', hleft'⟩ := takeBits_spec (value' <<< 8 ||| byte'.toUInt32) (le_refl (bits + 8))
      obtain ⟨hfirst, hrest⟩ := List.append_inj hdigits (htaken.trans htaken'.symm)
      rw [hleft, hleft'] at hrest
      obtain ⟨hlow, hbytes⟩ := ih (Nat.mod_lt _ (by decide)) (Nat.succ_inj.mp hlength) hrest
      have hpushed := takeBits_inj (le_refl (bits + 8)) (by omega) hfirst hlow
      rw [toNat_push (by omega), toNat_push (by omega), Nat.add_comm bits 8, Nat.pow_add, Nat.mod_mul, Nat.mod_mul] at hpushed
      have hbyte := byte.toNat_lt
      have hbyte' := byte'.toNat_lt
      have hmod : byte.toNat = byte'.toNat := by omega
      have hdiv : value.toNat % 2 ^ bits = value'.toNat % 2 ^ bits := by
        rw [show (value.toNat * 256 + byte.toNat) / 2 ^ 8 = value.toNat by omega,
          show (value'.toNat * 256 + byte'.toNat) / 2 ^ 8 = value'.toNat by omega] at hpushed
        omega
      exact ⟨hdiv, by rw [UInt8.toNat_inj.mp hmod, hbytes]⟩

theorem encodeBase32_inj {bytes bytes' : List UInt8} (hlength : bytes.length = bytes'.length)
    (hencode : encodeBase32 bytes = encodeBase32 bytes') : bytes = bytes' := by
  have hdigits := map_letter_inj base32Alphabet_nodup (digitsFrom_lt bytes) (digitsFrom_lt bytes') hencode
  exact (digitsFrom_inj (by decide) hlength hdigits).2

end Base32

section Addresses

variable {sha256 : List UInt8 → Digest} {x y : Units}

theorem encode_eq_iff : encode x = encode y ↔ toWellFormed x = toWellFormed y :=
  ⟨utf8_injective, congrArg utf8⟩

theorem multihash_head (x : Units) : (multihash sha256 x).head? ≠ some 0 := by
  rw [multihash, List.cons_append, List.head?_cons]
  decide

theorem length_multihash (x : Units) : (multihash sha256 x).length = 34 := by
  rw [multihash, List.length_append, (sha256 (encode x)).property]
  rfl

theorem digest_of_multihash (h : multihash sha256 x = multihash sha256 y) : sha256 (encode x) = sha256 (encode y) :=
  Subtype.ext ((List.append_right_inj _).mp h)

theorem computeCidV0_eq_iff :
    computeCidV0 sha256 x = computeCidV0 sha256 y ↔ sha256 (encode x) = sha256 (encode y) := by
  refine ⟨fun h => digest_of_multihash (encodeBase58_inj (multihash_head x) (multihash_head y) ?_ h), fun h => ?_⟩
  · rw [length_multihash, length_multihash]
  · rw [computeCidV0, multihash, h]
    rfl

theorem computeCidV1_eq_iff :
    computeCidV1 sha256 x = computeCidV1 sha256 y ↔ sha256 (encode x) = sha256 (encode y) := by
  refine ⟨fun h => ?_, fun h => ?_⟩
  · refine digest_of_multihash ((List.append_right_inj _).mp (encodeBase32_inj ?_ (List.tail_eq_of_cons_eq h)))
    rw [List.length_append, List.length_append, length_multihash, length_multihash]
  · rw [computeCidV1, multihash, h]
    rfl

theorem mem_alphabet_of_mem_computeCidV0 {c : Char} (h : c ∈ computeCidV0 sha256 x) : c ∈ base58Alphabet := by
  rw [computeCidV0, encodeBase58_of_head (multihash_head x)] at h
  obtain ⟨digit, hdigit, rfl⟩ := List.mem_map.mp h
  exact letter_mem (lt_of_mem_digits hdigit)

theorem mem_alphabet_of_mem_computeCidV1 {c : Char} (h : c ∈ computeCidV1 sha256 x) : c ∈ base32Alphabet := by
  rcases List.mem_cons.mp h with rfl | hmem
  · decide
  · obtain ⟨digit, hdigit, rfl⟩ := List.mem_map.mp hmem
    exact letter_mem (digitsFrom_lt _ digit hdigit)

/-- The two bytes before the digest settle the first letter. -/
theorem computeCidV0_head (x : Units) : (computeCidV0 sha256 x).head? = some 'Q' := by
  have hvalue : 4640 * 256 ^ 32 ≤ value 256 ((multihash sha256 x).map UInt8.toNat) ∧
      value 256 ((multihash sha256 x).map UInt8.toNat) < 4641 * 256 ^ 32 := by
    have hdigest := (sha256 (encode x)).property
    have hlt := value_lt (by decide : 1 < 256) (toNat_lt_of_mem_map (sha256 (encode x)).val)
    rw [List.length_map, hdigest] at hlt
    rw [multihash, List.map_append, List.map_cons, List.map_cons, List.map_nil, List.cons_append, List.cons_append,
      List.nil_append, value_cons, value_cons, List.length_cons, List.length_map, hdigest,
      show UInt8.toNat 0x12 = 18 from rfl, show UInt8.toNat 0x20 = 32 from rfl]
    omega
  have hle : 58 ^ 45 ≤ value 256 ((multihash sha256 x).map UInt8.toNat) := le_trans (by decide) hvalue.1
  have hlt : value 256 ((multihash sha256 x).map UInt8.toNat) < 58 ^ (45 + 1) := hvalue.2.trans_le (by decide)
  have hletter : value 256 ((multihash sha256 x).map UInt8.toNat) / 58 ^ 45 = 23 := by omega
  rw [computeCidV0, encodeBase58_of_head (multihash_head x), List.head?_map, List.head?_reverse,
    getLast?_digits (by decide) hle hlt, hletter]
  rfl

end Addresses

end SplitSdk.ContentIdentifiers
