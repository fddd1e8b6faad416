import Mathlib.Data.List.Perm.Basic

namespace SplitSdk.GreedyMatching

variable {α : Type} [DecidableEq α] {pool other xs : List α}

/-- Which elements are found in a pool, from which each that is found is taken. -/
def found : List α → List α → List Bool
  | _, [] => []
  | pool, x :: xs => decide (x ∈ pool) :: found (pool.erase x) xs

theorem length_found (pool xs : List α) : (found pool xs).length = xs.length := by
  induction xs generalizing pool with
  | nil => rfl
  | cons x xs ih => exact congrArg Nat.succ (ih _)

/-- An element is found as long as the pool holds more of its kind than have come before it. -/
theorem getElem?_found (pool xs : List α) (i : Nat) :
    (found pool xs)[i]? = xs[i]?.map (fun x => decide ((xs.take i).count x < pool.count x)) := by
  induction xs generalizing pool i with
  | nil => rfl
  | cons x xs ih =>
      cases i with
      | zero =>
          change some (decide (x ∈ pool)) = some (decide (0 < pool.count x))
          rw [decide_eq_decide.mpr List.count_pos_iff.symm]
      | succ i =>
          change (found (pool.erase x) xs)[i]? = xs[i]?.map _
          rw [ih]
          congr 1
          funext y
          rw [List.take_succ_cons, List.count_cons, List.count_erase, decide_eq_decide]
          split_ifs with h
          · omega
          · omega

/-- The order of the pool makes no difference. -/
theorem found_perm (h : pool.Perm other) (xs : List α) : found pool xs = found other xs := by
  refine List.ext_getElem? (fun i => ?_)
  rw [getElem?_found, getElem?_found]
  congr 1
  funext x
  rw [h.count_eq]

theorem count_pair (pool xs : List α) (x : α) (b : Bool) :
    (xs.zip (found pool xs)).count (x, b) = if b then min (xs.count x) (pool.count x) else xs.count x - pool.count x := by
  induction xs generalizing pool with
  | nil => cases b <;> simp
  | cons y xs ih =>
      rw [found, List.zip_cons_cons, List.count_cons, List.count_cons, ih, List.count_erase]
      by_cases hxy : y = x
      · subst hxy
        by_cases hmem : y ∈ pool
        · have := List.count_pos_iff.mpr hmem
          cases b <;> simp [hmem] <;> omega
        · have := List.count_eq_zero.mpr hmem
          cases b <;> simp [hmem, this]
      · have hpair : ((y, decide (y ∈ pool)) == (x, b)) = false := beq_false_of_ne (fun h => hxy (congrArg Prod.fst h))
        rw [hpair, beq_false_of_ne hxy]
        simp only [Bool.false_eq_true, if_false, Nat.sub_zero, Nat.add_zero]

/-- As many of a kind are found as there are on both sides. -/
theorem count_found (pool xs : List α) (x : α) : (xs.zip (found pool xs)).count (x, true) = min (xs.count x) (pool.count x) :=
  count_pair pool xs x true

theorem count_missed (pool xs : List α) (x : α) : (xs.zip (found pool xs)).count (x, false) = xs.count x - pool.count x :=
  count_pair pool xs x false

/-- All elements of some kinds are found exactly when the pool holds as many of each. -/
theorem all_found_iff (p : α → Prop) (pool xs : List α) :
    (∀ entry ∈ xs.zip (found pool xs), p entry.1 → entry.2 = true) ↔ ∀ x, p x → xs.count x ≤ pool.count x := by
  constructor
  · intro h x hx
    have hzero : (xs.zip (found pool xs)).count (x, false) = 0 :=
      List.count_eq_zero.mpr (fun hmem => Bool.false_ne_true (h _ hmem hx))
    rw [count_missed] at hzero
    omega
  · rintro h ⟨x, b⟩ hmem hx
    cases b with
    | true => rfl
    | false =>
        have hpos := List.count_pos_iff.mpr hmem
        rw [count_missed] at hpos
        have := h x hx
        omega

end SplitSdk.GreedyMatching
