import Mathlib.Algebra.BigOperators.Fin
import Mathlib.Algebra.Order.BigOperators.Group.Finset
import Mathlib.Algebra.Order.Field.Basic
import Mathlib.Data.Fintype.BigOperators
import Mathlib.Tactic.FieldSimp
import Mathlib.Tactic.Linarith
import Mathlib.Tactic.Ring

namespace SplitSdk.SmoothRoundRobin

section Definitions

variable {ι α : Type} [Fintype ι] [DecidableEq ι] [Field α] [LinearOrder α] (share weight : ι → α)

def total : α := ∑ i, share i

/-- Everyone is given their share, and who is picked pays for all. -/
def advance (pick : ι) : ι → α := fun i => weight i + share i - if i = pick then total share else 0

/-- The picks of a run, of which each had the largest weight after the shares were given. -/
inductive Run : List ι → (ι → α) → Prop
  | start : Run [] 0
  | pick {picks : List ι} {weight : ι → α} (h : Run picks weight) (pick : ι)
      (hlargest : ∀ i, weight i + share i ≤ weight pick + share pick) : Run (pick :: picks) (advance share weight pick)

/-- The weights make up for each other, and nobody is a whole turn behind. -/
structure Balanced : Prop where
  sum : ∑ i, weight i = 0
  above : ∀ i, -total share < weight i

end Definitions

section Turns

variable {ι α : Type} [Fintype ι] [DecidableEq ι] [Field α] {share : ι → α}

theorem sum_advance (weight : ι → α) (pick : ι) : ∑ i, advance share weight pick i = ∑ i, weight i := by
  unfold advance
  rw [Finset.sum_sub_distrib, Finset.sum_add_distrib, Finset.sum_ite_eq', if_pos (Finset.mem_univ pick), total]
  exact add_sub_cancel_right _ _

/-- A weight counts the turns that were due and those that were taken. -/
theorem Run.weight_eq [LinearOrder α] {weight : ι → α} {picks : List ι} (h : Run share picks weight) (i : ι) : weight i = picks.length * share i - picks.count i * total share := by
  induction h with
  | start => simp
  | @pick picks weight h pick hlargest ih =>
      unfold advance
      rw [ih, List.length_cons, Nat.cast_succ]
      by_cases hi : i = pick
      · rw [if_pos hi, hi, List.count_cons_self, Nat.cast_succ]
        ring
      · rw [if_neg hi, List.count_cons_of_ne (Ne.symm hi)]
        ring

end Turns

section Shares

variable {ι α : Type} [Fintype ι] [Field α] [LinearOrder α] [IsStrictOrderedRing α] {share weight : ι → α}

theorem total_pos [Nonempty ι] (hshare : ∀ i, 0 < share i) : 0 < total share :=
  Finset.sum_pos (fun i _ => hshare i) Finset.univ_nonempty

/-- The largest of the weights after the shares were given is positive, as their sum is. -/
theorem pick_pos (hshare : ∀ i, 0 < share i) (h : Balanced share weight) {pick : ι}
    (hlargest : ∀ i, weight i + share i ≤ weight pick + share pick) : 0 < weight pick + share pick := by
  by_contra hneg
  have hsum : ∑ i, (weight i + share i) ≤ 0 := Finset.sum_nonpos (fun i _ => (hlargest i).trans (not_lt.mp hneg))
  have : Nonempty ι := ⟨pick⟩
  rw [Finset.sum_add_distrib, h.sum, zero_add] at hsum
  exact absurd (total_pos hshare) (not_lt.mpr hsum)

theorem balanced_zero [Nonempty ι] (hshare : ∀ i, 0 < share i) : Balanced share (0 : ι → α) := by
  refine ⟨by simp, fun i => ?_⟩
  rw [Pi.zero_apply, neg_lt_zero]
  exact total_pos hshare

end Shares

section Runs

variable {ι α : Type} [Fintype ι] [DecidableEq ι] [Field α] [LinearOrder α] [IsStrictOrderedRing α]
variable {share weight : ι → α} {picks : List ι}

theorem Balanced.advance (hshare : ∀ i, 0 < share i) (h : Balanced share weight) {pick : ι}
    (hlargest : ∀ i, weight i + share i ≤ weight pick + share pick) : Balanced share (advance share weight pick) := by
  refine ⟨(sum_advance weight pick).trans h.sum, fun i => ?_⟩
  have hpos := pick_pos hshare h hlargest
  unfold SmoothRoundRobin.advance
  split_ifs with hi
  · rw [hi]
    linarith
  · have hi := h.above i
    have hs := hshare i
    linarith

theorem Run.balanced [Nonempty ι] (hshare : ∀ i, 0 < share i) (h : Run share picks weight) : Balanced share weight := by
  induction h with
  | start => exact balanced_zero hshare
  | pick _ pick hlargest ih => exact ih.advance hshare hlargest

/-- The others together cannot be so far behind that one is that far ahead. -/
theorem Balanced.weight_le (h : Balanced share weight) (i : ι) : weight i ≤ (Fintype.card ι - 1) * total share := by
  have hothers : ∑ j ∈ Finset.univ.erase i, -total share ≤ ∑ j ∈ Finset.univ.erase i, weight j :=
    Finset.sum_le_sum (fun j _ => (h.above j).le)
  have hsum := Finset.add_sum_erase Finset.univ weight (Finset.mem_univ i)
  rw [Finset.sum_const, Finset.card_erase_of_mem (Finset.mem_univ i), Finset.card_univ, nsmul_eq_mul,
    Nat.cast_sub (Fintype.card_pos_iff.mpr ⟨i⟩), Nat.cast_one] at hothers
  have hsum' := h.sum
  linarith

/-- Everyone is picked in proportion to their share, up to the number of the others. -/
theorem Run.bounds (hshare : ∀ i, 0 < share i) (h : Run share picks weight) (i : ι) :
    picks.length * share i / total share - (Fintype.card ι - 1) ≤ picks.count i ∧
      (picks.count i : α) < picks.length * share i / total share + 1 := by
  have : Nonempty ι := ⟨i⟩
  have hpos := total_pos hshare
  have hweight := h.weight_eq i
  have hbalanced := h.balanced hshare
  constructor
  · have hle := hbalanced.weight_le i
    rw [sub_le_iff_le_add, div_le_iff₀ hpos]
    linarith
  · have hlt := hbalanced.above i
    rw [← sub_lt_iff_lt_add, lt_div_iff₀ hpos]
    linarith

end Runs

end SplitSdk.SmoothRoundRobin
