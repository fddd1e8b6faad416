import Mathlib.Algebra.BigOperators.Group.List.Basic
import Mathlib.Algebra.Order.BigOperators.Group.List
import Mathlib.Tactic.Ring

namespace SplitSdk.FloorShares

variable {ι : Type} (numerator : ι → Int) (divisor : Int)

def quotients (is : List ι) : Int := (is.map (fun i => (numerator i).tdiv divisor)).sum

def remainders (is : List ι) : Int := (is.map (fun i => (numerator i).tmod divisor)).sum

theorem quotients_add_remainders (is : List ι) :
    divisor * quotients numerator divisor is + remainders numerator divisor is =
      (is.map numerator).sum := by
  induction is with
  | nil => simp [quotients, remainders]
  | cons i is ih =>
      have h := Int.mul_tdiv_add_tmod (numerator i) divisor
      simp only [quotients, remainders, List.map_cons, List.sum_cons, Int.mul_add] at ih ⊢
      omega

theorem remainders_nonneg (is : List ι) (hn : ∀ i ∈ is, 0 ≤ numerator i) :
    0 ≤ remainders numerator divisor is := by
  apply List.sum_nonneg
  intro r hr
  obtain ⟨i, hi, rfl⟩ := List.mem_map.mp hr
  exact Int.tmod_nonneg _ (hn i hi)

theorem remainders_le (is : List ι) (hd : 0 < divisor) :
    remainders numerator divisor is ≤ is.length * (divisor - 1) := by
  induction is with
  | nil => simp [remainders]
  | cons i is ih =>
      have h := Int.tmod_lt_of_pos (numerator i) hd
      simp only [remainders, List.map_cons, List.sum_cons, List.length_cons, Nat.cast_add,
        Nat.cast_one, Int.add_mul, Int.one_mul] at ih ⊢
      omega

section Pool

variable {numerator divisor} {pool : Int} {is : List ι}

/-- Dividing a pool by floors never hands out more than the pool. -/
theorem quotients_le (hd : 0 < divisor) (hn : ∀ i ∈ is, 0 ≤ numerator i)
    (hsum : (is.map numerator).sum = pool * divisor) : quotients numerator divisor is ≤ pool := by
  have h := quotients_add_remainders numerator divisor is
  have hr := remainders_nonneg numerator divisor is hn
  have hmul : divisor * quotients numerator divisor is ≤ divisor * pool := by
    rw [Int.mul_comm divisor pool]
    omega
  exact Int.le_of_mul_le_mul_left hmul hd

/-- What the floors leave over is less than one unit for each share. -/
theorem pool_sub_quotients_lt (hd : 0 < divisor) (his : is ≠ [])
    (hsum : (is.map numerator).sum = pool * divisor) :
    pool - quotients numerator divisor is < is.length := by
  have h := quotients_add_remainders numerator divisor is
  have hr := remainders_le numerator divisor is hd
  have hlen : 0 < is.length := List.length_pos_iff.mpr his
  have hmul : divisor * (pool - quotients numerator divisor is) < divisor * is.length := by
    rw [Int.mul_sub, Int.mul_comm divisor pool, Int.mul_comm divisor (is.length : Int)]
    rw [Int.mul_sub, Int.mul_one] at hr
    omega
  exact Int.lt_of_mul_lt_mul_left hmul hd.le

/-- When every floor is zero, the pool is smaller than the number of shares that
have a claim on it. -/
theorem pool_lt_countP (claims : ι → Bool) (hd : 0 < divisor) (hpool : 0 < pool)
    (hlt : ∀ i ∈ is, numerator i < divisor) (hz : ∀ i ∈ is, claims i = false → numerator i = 0)
    (hsum : (is.map numerator).sum = pool * divisor) : pool < is.countP claims := by
  have hle : (is.map numerator).sum ≤ is.countP claims * (divisor - 1) := by
    clear hsum
    induction is with
    | nil => simp
    | cons i is ih =>
        have ih := ih (fun j hj => hlt j (List.mem_cons_of_mem _ hj))
          (fun j hj => hz j (List.mem_cons_of_mem _ hj))
        have hi := hlt i List.mem_cons_self
        rw [List.map_cons, List.sum_cons]
        cases hc : claims i with
        | false =>
            rw [List.countP_cons_of_neg (by simp [hc]), hz i List.mem_cons_self hc]
            omega
        | true =>
            rw [List.countP_cons_of_pos hc, Nat.cast_add, Nat.cast_one, Int.add_mul, Int.one_mul]
            omega
  have hmul : pool * divisor ≤ is.countP claims * (divisor - 1) := hsum ▸ hle
  by_contra hge
  have hcount : (is.countP claims : Int) ≤ pool := not_lt.mp hge
  have hc : (is.countP claims : Int) * (divisor - 1) ≤ pool * (divisor - 1) :=
    Int.mul_le_mul_of_nonneg_right hcount (by omega)
  rw [Int.mul_sub pool, Int.mul_one] at hc
  omega

end Pool

end SplitSdk.FloorShares
