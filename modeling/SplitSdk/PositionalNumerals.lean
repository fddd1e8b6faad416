import Mathlib.Data.Nat.Digits.Lemmas

namespace SplitSdk.PositionalNumerals

variable {base d : Nat}

section Division

variable (base d)

/-- The number that the digits stand for, the first one weighing most. -/
def value (digits : List Nat) : Nat := Nat.ofDigits base digits.reverse

/-- The digits of the quotient, and the remainder. -/
def divide : Nat → List Nat → List Nat × Nat
  | remainder, [] => ([], remainder)
  | remainder, digit :: digits =>
      let (quotient, last) := divide ((remainder * base + digit) % d) digits
      ((remainder * base + digit) / d :: quotient, last)

/-- The digits to another base, the last one first. -/
def convert : Nat → List Nat → List Nat
  | 0, _ => []
  | _, [] => []
  | fuel + 1, digits =>
      (divide base d 0 digits).2 :: convert fuel ((divide base d 0 digits).1.dropWhile (· = 0))

end Division

section Values

theorem value_nil : value base [] = 0 := rfl

theorem value_cons (digit : Nat) (digits : List Nat) :
    value base (digit :: digits) = digit * base ^ digits.length + value base digits := by
  rw [value, List.reverse_cons, Nat.ofDigits_append, Nat.ofDigits_singleton, List.length_reverse, Nat.add_comm, Nat.mul_comm]
  rfl

theorem value_dropWhile (digits : List Nat) : value base (digits.dropWhile (· = 0)) = value base digits := by
  induction digits with
  | nil => rfl
  | cons digit digits ih =>
      rw [List.dropWhile_cons]
      split_ifs with hzero
      · rw [ih, value_cons, of_decide_eq_true hzero, Nat.zero_mul, Nat.zero_add]
      · rfl

theorem dropWhile_of_head {digits : List Nat} (h : digits.head? ≠ some 0) : digits.dropWhile (· = 0) = digits := by
  cases digits with
  | nil => rfl
  | cons digit digits => exact List.dropWhile_cons_of_neg (by simpa using h)

theorem takeWhile_of_head {digits : List Nat} (h : digits.head? ≠ some 0) : digits.takeWhile (· = 0) = [] := by
  cases digits with
  | nil => rfl
  | cons digit digits => exact List.takeWhile_cons_of_neg (by simpa using h)

theorem value_lt {digits : List Nat} (hbase : 1 < base) (h : ∀ digit ∈ digits, digit < base) :
    value base digits < base ^ digits.length := by
  have hlt := Nat.ofDigits_lt_base_pow_length hbase (l := digits.reverse) (fun digit hdigit => h digit (List.mem_reverse.mp hdigit))
  rwa [List.length_reverse] at hlt

theorem value_inj {digits digits' : List Nat} (hbase : 1 < base) (hlength : digits.length = digits'.length)
    (h : ∀ digit ∈ digits, digit < base) (h' : ∀ digit ∈ digits', digit < base)
    (hvalue : value base digits = value base digits') : digits = digits' := by
  refine List.reverse_injective (Nat.ofDigits_inj_of_len_eq hbase ?_ ?_ ?_ hvalue)
  · rw [List.length_reverse, List.length_reverse, hlength]
  · exact fun digit hdigit => h digit (List.mem_reverse.mp hdigit)
  · exact fun digit hdigit => h' digit (List.mem_reverse.mp hdigit)

theorem value_pos {digits : List Nat} (hbase : 0 < base) (hne : digits ≠ []) (hhead : digits.head? ≠ some 0) :
    0 < value base digits := by
  obtain ⟨digit, digits, rfl⟩ := List.exists_cons_of_ne_nil hne
  rw [value_cons]
  have hdigit : 0 < digit := Nat.pos_of_ne_zero (fun hzero => hhead (congrArg some hzero))
  exact Nat.add_pos_left (Nat.mul_pos hdigit (Nat.pow_pos hbase)) _

end Values

section Conversion

theorem divide_spec (hd : 0 < d) (remainder : Nat) (digits : List Nat) :
    (divide base d remainder digits).1.length = digits.length ∧
      value base (divide base d remainder digits).1 * d + (divide base d remainder digits).2 =
        remainder * base ^ digits.length + value base digits ∧
      (remainder < d → (divide base d remainder digits).2 < d) := by
  induction digits generalizing remainder with
  | nil => exact ⟨rfl, by simp [divide, value_nil], id⟩
  | cons digit digits ih =>
      obtain ⟨hlength, hvalue, hlast⟩ := ih ((remainder * base + digit) % d)
      rw [divide]
      refine ⟨congrArg Nat.succ hlength, ?_, fun _ => hlast (Nat.mod_lt _ hd)⟩
      dsimp only
      have hdivide := Nat.div_add_mod (remainder * base + digit) d
      rw [value_cons, value_cons, hlength, List.length_cons, Nat.add_mul, Nat.add_assoc, hvalue, Nat.pow_succ]
      calc (remainder * base + digit) / d * base ^ digits.length * d +
            ((remainder * base + digit) % d * base ^ digits.length + value base digits)
          = (d * ((remainder * base + digit) / d) + (remainder * base + digit) % d) * base ^ digits.length +
              value base digits := by ring
        _ = (remainder * base + digit) * base ^ digits.length + value base digits := by rw [hdivide]
        _ = remainder * (base ^ digits.length * base) + (digit * base ^ digits.length + value base digits) := by ring

variable (base) in
theorem value_divide (hd : 0 < d) (digits : List Nat) :
    value base (divide base d 0 digits).1 = value base digits / d ∧ (divide base d 0 digits).2 = value base digits % d := by
  obtain ⟨-, hvalue, hlast⟩ := divide_spec hd 0 digits
  rw [Nat.zero_mul, Nat.zero_add, Nat.mul_comm] at hvalue
  rw [← hvalue]
  exact ⟨by rw [Nat.mul_add_div hd, Nat.div_eq_of_lt (hlast hd), Nat.add_zero],
    by rw [Nat.mul_add_mod, Nat.mod_eq_of_lt (hlast hd)]⟩

theorem head?_dropWhile_ne (digits : List Nat) : (digits.dropWhile (· = 0)).head? ≠ some 0 := by
  induction digits with
  | nil => simp
  | cons digit digits ih =>
      rw [List.dropWhile_cons]
      split_ifs with hzero
      · exact ih
      · simpa using hzero

/-- Repeated division gives the digits of the number. -/
theorem convert_eq_digits (hbase : 0 < base) (hd : 1 < d) (fuel : Nat) {digits : List Nat}
    (hhead : digits.head? ≠ some 0) (hlt : value base digits < d ^ fuel) :
    convert base d fuel digits = Nat.digits d (value base digits) := by
  induction fuel generalizing digits with
  | zero =>
      have hzero : value base digits = 0 := Nat.lt_one_iff.mp hlt
      rw [hzero, Nat.digits_zero]
      cases digits <;> rfl
  | succ fuel ih =>
      rcases eq_or_ne digits [] with rfl | hne
      · rw [value_nil, Nat.digits_zero]
        rfl
      · obtain ⟨hquotient, hremainder⟩ := value_divide base (Nat.zero_lt_of_lt hd) digits
        have hless : value base digits / d < d ^ fuel := by
          rw [Nat.div_lt_iff_lt_mul (Nat.zero_lt_of_lt hd), ← Nat.pow_succ]
          exact hlt
        have hrest := ih (head?_dropWhile_ne (divide base d 0 digits).1) (by rwa [value_dropWhile, hquotient])
        rw [value_dropWhile, hquotient] at hrest
        rw [Nat.digits_def' hd (value_pos hbase hne hhead), ← hremainder, ← hrest]
        obtain ⟨digit, digits, rfl⟩ := List.exists_cons_of_ne_nil hne
        rfl

/-- The leading digit. -/
theorem getLast?_digits {n k : Nat} (hd : 1 < d) (hle : d ^ k ≤ n) (hlt : n < d ^ (k + 1)) :
    (Nat.digits d n).getLast? = some (n / d ^ k) := by
  have hlength : (Nat.digits d n).length = k + 1 := by
    refine le_antisymm ((Nat.digits_length_le_iff hd n).mpr hlt) ?_
    exact (Nat.lt_digits_length_iff hd n).mpr hle
  have hdigit : (Nat.digits d n).getD k 0 = n / d ^ k := by
    rw [Nat.getD_digits n k hd]
    refine Nat.mod_eq_of_lt ((Nat.div_lt_iff_lt_mul (Nat.pow_pos (Nat.zero_lt_of_lt hd))).mpr ?_)
    rwa [Nat.mul_comm, ← Nat.pow_succ]
  rw [List.getLast?_eq_getElem?, hlength, Nat.add_sub_cancel, List.getElem?_eq_getElem (by omega),
    List.getElem_eq_getD 0, hdigit]

end Conversion

end SplitSdk.PositionalNumerals
