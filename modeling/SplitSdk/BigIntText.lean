import SplitSdk.NumberText

namespace SplitSdk.BigIntText

open Numbers NumberText

section Reading

def readRadixInt (base : Nat) (cs : List Char) : Option Int :=
  match cs.mapM (digitIn base) with
  | some (d :: ds) => some ((d :: ds).foldl (fun v d => base * v + d) 0 : Nat)
  | _ => none

def readBigInt : List Char → Option Int
  | [] => some 0
  | '0' :: 'x' :: ds | '0' :: 'X' :: ds => readRadixInt 16 ds
  | '0' :: 'o' :: ds | '0' :: 'O' :: ds => readRadixInt 8 ds
  | '0' :: 'b' :: ds | '0' :: 'B' :: ds => readRadixInt 2 ds
  | '+' :: ds => (readDigits ds).map Int.ofNat
  | '-' :: ds => (readDigits ds).map (fun n => -Int.ofNat n)
  | ds => (readDigits ds).map Int.ofNat

/-- `BigInt(s)`, and nothing where it throws. -/
def ofString (s : String) : Option Int := readBigInt (trim s.toList)

end Reading

section RoundTrip

theorem readBigInt_of_allDigits {ds : List Char} (h : AllDigits ds) (hne : ds ≠ []) :
    readBigInt ds = some (Nat.ofDigitChars 10 ds 0 : Int) := by
  have hread : readDigits ds = some (Nat.ofDigitChars 10 ds 0) := by
    rw [readDigits, if_pos ⟨hne, List.all_eq_true.mpr h⟩]
  unfold readBigInt
  split
  case h_1 => exact absurd rfl hne
  case h_10 => rw [hread]; rfl
  -- the other forms begin with characters that are no digits
  all_goals simp [AllDigits, Char.isDigit] at h

theorem readBigInt_neg {ds : List Char} (h : AllDigits ds) (hne : ds ≠ []) :
    readBigInt ('-' :: ds) = some (-(Nat.ofDigitChars 10 ds 0 : Int)) := by
  rw [readBigInt, readDigits, if_pos ⟨hne, List.all_eq_true.mpr h⟩]
  rfl

/-- The text that `toString` writes of a bigint. -/
theorem toList_toString (n : Int) : (toString n).toList =
    if n < 0 then '-' :: Nat.toDigits 10 n.natAbs else Nat.toDigits 10 n.natAbs := by
  cases n with
  | ofNat n =>
      rw [if_neg (by simp)]
      exact String.toList_ofList
  | negSucc n =>
      rw [if_pos (Int.negSucc_lt_zero n)]
      change ("-" ++ Nat.repr (n + 1)).toList = _
      rw [String.toList_append]
      exact congrArg ('-' :: ·) String.toList_ofList

theorem ofString_toString (n : Int) : ofString (toString n) = some n := by
  have hdigits := allDigits_toDigits n.natAbs
  have hplain : ∀ c ∈ (toString n).toList, IsPlain c := by
    rw [toList_toString]
    split_ifs
    · exact List.forall_mem_cons.mpr ⟨by decide, hdigits.plain⟩
    · exact hdigits.plain
  rw [ofString, trim_of_plain hplain, toList_toString]
  split_ifs with hneg
  · rw [readBigInt_neg hdigits Nat.toDigits_ne_nil, Nat.ofDigitChars_ten_toDigits]
    congr 1
    omega
  · rw [readBigInt_of_allDigits hdigits Nat.toDigits_ne_nil, Nat.ofDigitChars_ten_toDigits]
    congr 1
    omega

theorem toString_inj {m n : Int} (h : toString m = toString n) : m = n := by
  have hread := congrArg ofString h
  rw [ofString_toString, ofString_toString] at hread
  exact Option.some.inj hread

end RoundTrip

end SplitSdk.BigIntText
