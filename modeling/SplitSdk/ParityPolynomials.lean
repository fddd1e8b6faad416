import Mathlib.Algebra.Polynomial.Basic
import Mathlib.RingTheory.Coprime.Lemmas

namespace SplitSdk.ParityPolynomials

open Polynomial

variable {K : Type} [CommRing K]

/-- The polynomial with these coefficients, that of the highest power first. -/
noncomputable def ofCoefficients (cs : List K) : K[X] := cs.foldl (fun p c => p * X + C c) 0

/-- The product of `x - a ^ i` over the first powers of `a`. -/
noncomputable def powersProduct (a : K) (n : Nat) : K[X] := ∏ i ∈ Finset.range n, (X - C (a ^ i))

theorem ofCoefficients_concat (cs : List K) (c : K) : ofCoefficients (cs ++ [c]) = ofCoefficients cs * X + C c := by
  rw [ofCoefficients, List.foldl_append]
  rfl

theorem ofCoefficients_zeros (cs : List K) (n : Nat) : ofCoefficients (cs ++ List.replicate n 0) = ofCoefficients cs * X ^ n := by
  induction n with
  | zero => rw [List.replicate_zero, List.append_nil, pow_zero, mul_one]
  | succ n ih => rw [List.replicate_succ', ← List.append_assoc, ofCoefficients_concat, ih, C_0, add_zero, pow_succ, mul_assoc]

theorem isCoprime_X {a : K} (ha : IsUnit a) : IsCoprime (X - C a) X := by
  obtain ⟨b, hb⟩ := ha.exists_left_inv
  refine ⟨-C b, C b, ?_⟩
  rw [neg_mul, mul_sub, ← C_mul, hb, C_1]
  ring

/-- Zeros at the end do not make a polynomial divisible. -/
theorem dvd_append_zeros_iff {a : K} (ha : IsUnit a) (n m : Nat) (cs : List K) :
    powersProduct a n ∣ ofCoefficients (cs ++ List.replicate m 0) ↔ powersProduct a n ∣ ofCoefficients cs := by
  have hcoprime : IsCoprime (powersProduct a n) (X ^ m) :=
    (IsCoprime.prod_left (fun i _ => isCoprime_X (ha.pow i))).pow_right
  rw [ofCoefficients_zeros]
  exact ⟨hcoprime.dvd_of_dvd_mul_right, fun h => h.mul_right _⟩

end SplitSdk.ParityPolynomials
