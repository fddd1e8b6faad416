import Mathlib.Data.Int.Order.Basic
import Mathlib.Tactic.Linarith
import Mathlib.Tactic.Positivity
import Mathlib.Tactic.Ring
import Mathlib.Data.Nat.Sqrt
import Mathlib.Tactic.Zify
import SplitSdk.BoundedLoop

namespace SplitSdk.FloorQuotes

variable {x y a b m d : Int}

/-- What is given for `a` out of reserves `x` and `y` of a constant product, when `m` parts in `d` of `a` count. -/
def quote (x y a m d : Int) : Int := y * a * m / (x * d + a * m)

/-- A share of the input that can count. -/
structure Share (m d : Int) : Prop where
  nonneg : 0 ≤ m
  le : m ≤ d
  pos : 0 < d

theorem Share.denominator_pos (h : Share m d) (hx : 0 < x) (ha : 0 ≤ a) : 0 < x * d + a * m :=
  add_pos_of_pos_of_nonneg (mul_pos hx h.pos) (mul_nonneg ha h.nonneg)

theorem quote_mul_le (h : Share m d) (hx : 0 < x) (ha : 0 ≤ a) : quote x y a m d * (x * d + a * m) ≤ y * a * m :=
  Int.ediv_mul_le _ (h.denominator_pos hx ha).ne'

theorem quote_nonneg (h : Share m d) (hx : 0 < x) (hy : 0 ≤ y) (ha : 0 ≤ a) : 0 ≤ quote x y a m d :=
  Int.ediv_nonneg (mul_nonneg (mul_nonneg hy ha) h.nonneg) (h.denominator_pos hx ha).le

/-- A quote never empties a reserve. -/
theorem quote_lt (h : Share m d) (hx : 0 < x) (hy : 0 < y) (ha : 0 ≤ a) : quote x y a m d < y := by
  refine Int.ediv_lt_of_lt_mul (h.denominator_pos hx ha) ?_
  have : 0 < y * (x * d) := mul_pos hy (mul_pos hx h.pos)
  linarith [mul_add y (x * d) (a * m), mul_assoc y a m]

/-- What stays behind, against the part of the input that counts. -/
theorem le_rest_mul (h : Share m d) (hx : 0 < x) (ha : 0 ≤ a) :
    y * (x * d) ≤ (y - quote x y a m d) * (x * d + a * m) := by
  have := @quote_mul_le x y a m d h hx ha
  linarith [sub_mul y (quote x y a m d) (x * d + a * m), mul_add y (x * d) (a * m), mul_assoc y a m]

/-- A trade at its quote does not lower the product of the reserves. -/
theorem product_le (h : Share m d) (hx : 0 < x) (hy : 0 < y) (ha : 0 ≤ a) :
    x * y ≤ (x + a) * (y - quote x y a m d) := by
  have hrest := @le_rest_mul x y a m d h hx ha
  have hpos : 0 ≤ y - quote x y a m d := sub_nonneg.mpr (quote_lt h hx hy ha).le
  have hcounts : x * d + a * m ≤ (x + a) * d := by
    linarith [mul_le_mul_of_nonneg_left h.le ha, add_mul x a d]
  refine le_of_mul_le_mul_right ?_ h.pos
  calc x * y * d = y * (x * d) := by ring
    _ ≤ (y - quote x y a m d) * (x * d + a * m) := hrest
    _ ≤ (y - quote x y a m d) * ((x + a) * d) := mul_le_mul_of_nonneg_left hcounts hpos
    _ = (x + a) * (y - quote x y a m d) * d := by ring

theorem le_quote_iff (h : Share m d) (hx : 0 < x) (ha : 0 ≤ a) {q : Int} :
    q ≤ quote x y a m d ↔ y * (x * d) ≤ (y - q) * (x * d + a * m) := by
  rw [quote, Int.le_ediv_iff_mul_le (h.denominator_pos hx ha)]
  constructor <;> intro hle <;> linarith [sub_mul y q (x * d + a * m), mul_add y (x * d) (a * m), mul_assoc y a m]

/-- Two trades in place of one never give more. -/
theorem quote_split (h : Share m d) (hx : 0 < x) (hy : 0 < y) (ha : 0 ≤ a) (hb : 0 ≤ b) :
    quote x y a m d + quote (x + a) (y - quote x y a m d) b m d ≤ quote x y (a + b) m d := by
  obtain ⟨z, hz⟩ : ∃ z, z = y - quote x y a m d := ⟨_, rfl⟩
  obtain ⟨w, hw⟩ : ∃ w, w = z - quote (x + a) z b m d := ⟨_, rfl⟩
  have hxa : 0 < x + a := add_pos_of_pos_of_nonneg hx ha
  have hzpos : 0 < z := hz ▸ sub_pos.mpr (quote_lt h hx hy ha)
  have hwpos : 0 < w := hw ▸ sub_pos.mpr (quote_lt h hxa hzpos hb)
  have hfirst : y * (x * d) ≤ z * (x * d + a * m) := hz ▸ le_rest_mul h hx ha
  have hsecond : z * ((x + a) * d) ≤ w * ((x + a) * d + b * m) := hw ▸ le_rest_mul h hxa hb
  have hcounts : ((x + a) * d + b * m) * (x * d + a * m) ≤ (x * d + (a + b) * m) * ((x + a) * d) := by
    have : 0 ≤ b * m * (a * (d - m)) :=
      mul_nonneg (mul_nonneg hb h.nonneg) (mul_nonneg ha (sub_nonneg.mpr h.le))
    linarith [show (x * d + (a + b) * m) * ((x + a) * d) - ((x + a) * d + b * m) * (x * d + a * m) = b * m * (a * (d - m)) by ring]
  rw [← hz, le_quote_iff h hx (add_nonneg ha hb), show y - (quote x y a m d + quote (x + a) z b m d) = w by rw [hw, hz]; ring]
  refine le_of_mul_le_mul_right ?_ (mul_pos hxa h.pos)
  calc y * (x * d) * ((x + a) * d) ≤ z * (x * d + a * m) * ((x + a) * d) :=
        mul_le_mul_of_nonneg_right hfirst (mul_pos hxa h.pos).le
    _ = z * ((x + a) * d) * (x * d + a * m) := by ring
    _ ≤ w * ((x + a) * d + b * m) * (x * d + a * m) := mul_le_mul_of_nonneg_right hsecond (h.denominator_pos hx ha).le
    _ = w * (((x + a) * d + b * m) * (x * d + a * m)) := by ring
    _ ≤ w * ((x * d + (a + b) * m) * ((x + a) * d)) := mul_le_mul_of_nonneg_left hcounts hwpos.le
    _ = w * (x * d + (a + b) * m) * ((x + a) * d) := by ring

end SplitSdk.FloorQuotes

namespace SplitSdk.NewtonRoots

open BoundedLoop

variable {n x : Nat}

/-- The guess of a square root that follows a guess. -/
def next (n x : Nat) : Nat := (x + n / x) / 2

/-- No guess falls below the root. -/
theorem sqrt_le_next (hx : 0 < x) : Nat.sqrt n ≤ next n x := by
  have hsq : Nat.sqrt n * Nat.sqrt n ≤ n := Nat.sqrt_le n
  have hdiv : 2 * Nat.sqrt n - x ≤ n / x := by
    rw [Nat.le_div_iff_mul_le hx]
    rcases Nat.le_total (2 * Nat.sqrt n) x with h | h
    · rw [Nat.sub_eq_zero_of_le h, Nat.zero_mul]
      exact Nat.zero_le n
    · refine le_trans ?_ hsq
      zify [h]
      nlinarith [sq_nonneg ((Nat.sqrt n : Int) - x)]
  rw [next, Nat.le_div_iff_mul_le Nat.two_pos]
  omega

/-- A guess that the next one does not improve is the root. -/
theorem eq_sqrt_of_le_next (hx : 0 < x) (hlow : Nat.sqrt n ≤ x) (h : x ≤ next n x) : x = Nat.sqrt n := by
  refine le_antisymm (Nat.le_sqrt.mpr ?_) hlow
  rw [next, Nat.le_div_iff_mul_le Nat.two_pos] at h
  exact (Nat.le_div_iff_mul_le hx).mp (by omega)

/-- The loop that takes the next guess as long as it is smaller; its state is a guess and the next one. -/
def guard (s : Nat × Nat) : Prop := s.2 < s.1

instance : DecidablePred guard := fun s => inferInstanceAs (Decidable (s.2 < s.1))

def turn (n : Nat) (s : Nat × Nat) : Nat × Nat := (s.2, next n s.2)

structure Above (n : Nat) (s : Nat × Nat) : Prop where
  next_eq : s.2 = next n s.1
  pos : 0 < s.1
  sqrt_le : Nat.sqrt n ≤ s.1

theorem Above.turn {s : Nat × Nat} (hn : 0 < n) (h : Above n s) : Above n (turn n s) := by
  have hlow : Nat.sqrt n ≤ s.2 := by
    rw [h.next_eq]
    exact sqrt_le_next h.pos
  exact ⟨rfl, lt_of_lt_of_le (Nat.sqrt_pos.mpr hn) hlow, hlow⟩

/-- From any guess above the root, the loop ends at the root. -/
theorem loop_eq_sqrt (hn : 0 < n) {s : Nat × Nat} (h : Above n s) {limit : Nat} (hlimit : s.1 ≤ limit) :
    (loop guard (turn n) limit s).1 = Nat.sqrt n ∧ Ended guard (turn n) limit s := by
  have hbody : ∀ t, Above n t → guard t → Above n (turn n t) := fun t ht _ => ht.turn hn
  have hended : Ended guard (turn n) limit s := ended_of_measure hbody Prod.fst (fun t _ ht => ht) limit s h hlimit
  have hlast := loop_invariant hbody limit s h
  refine ⟨eq_sqrt_of_le_next hlast.pos hlast.sqrt_le ?_, hended⟩
  rw [← hlast.next_eq]
  exact Nat.le_of_not_lt hended

end SplitSdk.NewtonRoots
