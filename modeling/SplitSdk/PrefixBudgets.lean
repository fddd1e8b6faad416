import Mathlib.Algebra.BigOperators.Group.List.Basic
import Mathlib.Algebra.Order.Group.Int
import Mathlib.Algebra.Order.BigOperators.Group.List
import Mathlib.Tactic.Linarith

namespace SplitSdk.PrefixBudgets

variable {budget other : Int} {cost : Int} {costs : List Int}

/-- How many costs a budget covers in turn, up to the first one that it does not cover. -/
def affordable (budget : Int) : List Int → Nat
  | [] => 0
  | cost :: costs => if cost ≤ budget then affordable (budget - cost) costs + 1 else 0

theorem affordable_cons_of_le (h : cost ≤ budget) : affordable budget (cost :: costs) = affordable (budget - cost) costs + 1 := if_pos h

theorem affordable_cons_of_lt (h : budget < cost) : affordable budget (cost :: costs) = 0 := if_neg h.not_ge

theorem affordable_le_length (budget : Int) (costs : List Int) : affordable budget costs ≤ costs.length := by
  induction costs generalizing budget with
  | nil => exact le_rfl
  | cons cost costs ih =>
      unfold affordable
      split_ifs
      · exact Nat.succ_le_succ (ih _)
      · exact Nat.zero_le _

/-- What is covered fits the budget. -/
theorem sum_take_le (h : 0 ≤ budget) (costs : List Int) : (costs.take (affordable budget costs)).sum ≤ budget := by
  induction costs generalizing budget with
  | nil => exact h
  | cons cost costs ih =>
      rcases le_or_gt cost budget with hle | hlt
      · rw [affordable_cons_of_le hle, List.take_succ_cons, List.sum_cons]
        linarith [ih (sub_nonneg.mpr hle)]
      · rw [affordable_cons_of_lt hlt]
        exact h

/-- A number of costs is covered exactly when their sum fits the budget. -/
theorem le_affordable_iff (h : 0 ≤ budget) (hcosts : ∀ cost ∈ costs, 0 ≤ cost) {k : Nat} (hk : k ≤ costs.length) :
    k ≤ affordable budget costs ↔ (costs.take k).sum ≤ budget := by
  induction costs generalizing budget k with
  | nil =>
      obtain rfl := Nat.le_zero.mp hk
      exact iff_of_true (Nat.zero_le _) h
  | cons cost costs ih =>
      cases k with
      | zero => exact iff_of_true (Nat.zero_le _) h
      | succ k =>
          have hrest : ∀ cost ∈ costs, 0 ≤ cost := fun c hc => hcosts c (List.mem_cons_of_mem _ hc)
          rw [List.take_succ_cons, List.sum_cons]
          rcases le_or_gt cost budget with hle | hlt
          · rw [affordable_cons_of_le hle, Nat.succ_le_succ_iff, ih (sub_nonneg.mpr hle) hrest (Nat.succ_le_succ_iff.mp hk)]
            exact le_sub_iff_add_le'
          · have hsum : 0 ≤ (costs.take k).sum := List.sum_nonneg (fun c hc => hrest c (List.mem_of_mem_take hc))
            rw [affordable_cons_of_lt hlt]
            exact iff_of_false (Nat.not_succ_le_zero k) (by linarith)

theorem affordable_mono (h : budget ≤ other) (costs : List Int) : affordable budget costs ≤ affordable other costs := by
  induction costs generalizing budget other with
  | nil => exact le_rfl
  | cons cost costs ih =>
      rcases le_or_gt cost budget with hle | hlt
      · rw [affordable_cons_of_le hle, affordable_cons_of_le (hle.trans h)]
        exact Nat.succ_le_succ (ih (Int.sub_le_sub_right h cost))
      · rw [affordable_cons_of_lt hlt]
        exact Nat.zero_le _

/-- All costs are covered exactly when their sum fits the budget. -/
theorem affordable_eq_length_iff (h : 0 ≤ budget) (hcosts : ∀ cost ∈ costs, 0 ≤ cost) :
    affordable budget costs = costs.length ↔ costs.sum ≤ budget := by
  have hiff := le_affordable_iff h hcosts (le_refl costs.length)
  rw [List.take_length] at hiff
  exact ⟨fun heq => hiff.mp heq.ge, fun hle => (affordable_le_length budget costs).antisymm (hiff.mpr hle)⟩

end SplitSdk.PrefixBudgets
