import SplitSdk.AggregatePayments
import SplitSdk.FloorShares

namespace SplitSdk.AllocationPass

open AggregatePayments FloorShares

theorem getD_set (xs : List Int) (i j : Nat) (v : Int) (hi : i < xs.length) :
    (xs.set i v).getD j 0 = if j = i then v else xs.getD j 0 := by
  by_cases h : j = i
  · subst h; simp [List.getD_eq_getElem?_getD, hi]
  · simp [List.getD_eq_getElem?_getD, h, Ne.symm h]

theorem sum_set (xs : List Int) (i : Nat) (v : Int) (hi : i < xs.length) :
    (xs.set i v).sum = xs.sum - xs.getD i 0 + v := by
  induction xs generalizing i with
  | nil => simp at hi
  | cons x xs ih =>
      cases i with
      | zero => simp; omega
      | succ i =>
          have h := ih i (by simpa using hi)
          simp only [List.set_cons_succ, List.sum_cons, List.getD_cons_succ, h]
          omega

/-- What the body of the loop adds to entry `index`. -/
def given (weights remaining : List Int) (d : Division) (allocations : List Int) (index : Nat) : Int :=
  max 0 (min ((d.numerator weights index).tdiv d.divisor)
    (remaining.getD index 0 - allocations.getD index 0))

section HandOut

variable (weights remaining : List Int) (d : Division)

theorem handOut_eq (acc : Handout) (index : Nat) :
    handOut weights remaining d acc index =
      ⟨if 0 < given weights remaining d acc.allocations index then
          acc.allocations.set index
            (acc.allocations.getD index 0 + given weights remaining d acc.allocations index)
        else acc.allocations,
        acc.distributed + given weights remaining d acc.allocations index,
        acc.leftovers ++ [⟨index, (d.numerator weights index).tmod d.divisor⟩]⟩ := by
  have hmin (q c : Int) : (if q > c then c else q) = min q c := by split <;> omega
  by_cases h : min ((d.numerator weights index).tdiv d.divisor)
      (remaining.getD index 0 - acc.allocations.getD index 0) > 0
  · have hg : given weights remaining d acc.allocations index = _ := max_eq_right h.le
    simp only [handOut, hmin, if_pos h, hg]
  · have hg : given weights remaining d acc.allocations index = 0 := max_eq_left (not_lt.mp h)
    simp only [handOut, hmin, if_neg h, hg, lt_irrefl, if_false, Int.add_zero]

theorem handOut_entry (acc : Handout) (index j : Nat) (hi : index < acc.allocations.length) :
    (handOut weights remaining d acc index).allocations.getD j 0 =
      acc.allocations.getD j 0 +
        if j = index then given weights remaining d acc.allocations index else 0 := by
  rw [handOut_eq]
  by_cases hg : 0 < given weights remaining d acc.allocations index
  · simp only [hg, if_true, getD_set _ _ _ _ hi]
    split
    · next h => rw [h]
    · simp
  · have hz : given weights remaining d acc.allocations index = 0 :=
      le_antisymm (not_lt.mp hg) (le_max_left _ _)
    simp [hz]

theorem handOut_length (acc : Handout) (index : Nat) :
    (handOut weights remaining d acc index).allocations.length = acc.allocations.length := by
  rw [handOut_eq]
  dsimp only
  split <;> simp

theorem handOut_sum (acc : Handout) (index : Nat) (hi : index < acc.allocations.length) :
    (handOut weights remaining d acc index).allocations.sum + acc.distributed =
      acc.allocations.sum + (handOut weights remaining d acc index).distributed := by
  rw [handOut_eq]
  by_cases hg : 0 < given weights remaining d acc.allocations index
  · simp only [hg, if_true, sum_set _ _ _ hi]
    omega
  · have hz : given weights remaining d acc.allocations index = 0 :=
      le_antisymm (not_lt.mp hg) (le_max_left _ _)
    simp [hz]

theorem given_congr {xs ys : List Int} {index : Nat} (h : xs.getD index 0 = ys.getD index 0) :
    given weights remaining d xs index = given weights remaining d ys index := by
  simp only [given, h]

end HandOut

/-- The whole loop over the active entries: every entry gets what it would be
given from the allocations at the start of the pass. -/
structure HandedOut (weights remaining : List Int) (d : Division) (acc : Handout)
    (active : List Nat) (h : Handout) : Prop where
  length : h.allocations.length = acc.allocations.length
  entry : ∀ j, h.allocations.getD j 0 = acc.allocations.getD j 0 +
    if j ∈ active then given weights remaining d acc.allocations j else 0
  sum : h.allocations.sum + acc.distributed = acc.allocations.sum + h.distributed
  distributed : h.distributed =
    acc.distributed + (active.map (given weights remaining d acc.allocations)).sum
  leftovers : h.leftovers = acc.leftovers ++
    active.map (fun i => ⟨i, (d.numerator weights i).tmod d.divisor⟩)

theorem foldl_handOut (weights remaining : List Int) (d : Division) (active : List Nat)
    (hnodup : active.Nodup) (acc : Handout) (hlt : ∀ i ∈ active, i < acc.allocations.length) :
    HandedOut weights remaining d acc active
      (active.foldl (handOut weights remaining d) acc) := by
  induction active generalizing acc with
  | nil => exact ⟨rfl, by simp, rfl, by simp, by simp⟩
  | cons i is ih =>
      obtain ⟨hi, his⟩ := List.nodup_cons.mp hnodup
      have hilt := hlt i List.mem_cons_self
      have hlen := handOut_length weights remaining d acc i
      have h := ih his (handOut weights remaining d acc i)
        (fun j hj => hlen.symm ▸ hlt j (List.mem_cons_of_mem _ hj))
      -- the entries still to come are untouched, so they are given the same as before
      have hsame : ∀ j ∈ is, given weights remaining d (handOut weights remaining d acc i).allocations j =
          given weights remaining d acc.allocations j := by
        intro j hj
        apply given_congr
        rw [handOut_entry _ _ _ _ _ _ hilt, if_neg (fun he : j = i => hi (he ▸ hj)),
          Int.add_zero]
      refine ⟨h.length.trans hlen, ?_, ?_, ?_, ?_⟩
      · intro j
        rw [List.foldl_cons, h.entry j, handOut_entry _ _ _ _ _ _ hilt]
        by_cases hji : j = i
        · subst hji; simp [hi]
        · by_cases hj : j ∈ is
          · simp [hji, hj, hsame j hj]
          · simp [hji, hj]
      · have h1 := h.sum
        have h2 := handOut_sum weights remaining d acc i hilt
        rw [List.foldl_cons]
        omega
      · rw [List.foldl_cons, h.distributed, handOut_eq, List.map_congr_left (by rwa [handOut_eq] at hsame)]
        simp only [List.map_cons, List.sum_cons]
        omega
      · rw [List.foldl_cons, h.leftovers, handOut_eq]
        simp

/-- An entry that dust can still go to. -/
def eligible (weights remaining : List Int) (proRata : Bool) (allocations : List Int) (index : Nat) :
    Bool :=
  decide (allocations.getD index 0 < remaining.getD index 0) &&
    !(proRata && decide (weights.getD index 0 = 0))

/-- Dealing dust keeps the total, stays inside the caps and touches only the entries it is given. -/
structure Dealt (remaining allocations : List Int) (pool : Int) (leftovers : List Leftover)
    (r : List Int × Int) : Prop where
  length : r.1.length = allocations.length
  sum : r.1.sum + r.2 = allocations.sum + pool
  lower : ∀ j, allocations.getD j 0 ≤ r.1.getD j 0
  upper : ∀ j, allocations.getD j 0 ≤ remaining.getD j 0 → r.1.getD j 0 ≤ remaining.getD j 0
  outside : ∀ j, (∀ l ∈ leftovers, l.index ≠ j) → r.1.getD j 0 = allocations.getD j 0

theorem dealDust_dealt (weights remaining : List Int) (proRata : Bool) (leftovers : List Leftover)
    (allocations : List Int) (pool : Int) (hlt : ∀ l ∈ leftovers, l.index < allocations.length) :
    Dealt remaining allocations pool leftovers
      (dealDust weights remaining proRata leftovers allocations pool) := by
  induction leftovers generalizing allocations pool with
  | nil => exact ⟨rfl, rfl, fun _ => le_rfl, fun _ h => h, fun _ _ => rfl⟩
  | cons l ls ih =>
      have htail := ih allocations pool (fun m hm => hlt m (List.mem_cons_of_mem _ hm))
      have hskip : Dealt remaining allocations pool (l :: ls)
          (dealDust weights remaining proRata ls allocations pool) :=
        ⟨htail.length, htail.sum, htail.lower, htail.upper,
          fun j hj => htail.outside j (fun m hm => hj m (List.mem_cons_of_mem _ hm))⟩
      have hi := hlt l List.mem_cons_self
      rw [dealDust]
      split_ifs with hpool hfull hzero
      · exact ⟨rfl, rfl, fun _ => le_rfl, fun _ h => h, fun _ _ => rfl⟩
      · exact hskip
      · exact hskip
      · have h := ih (allocations.set l.index (allocations.getD l.index 0 + 1)) (pool - 1)
          (by simpa using fun m hm => hlt m (List.mem_cons_of_mem _ hm))
        refine ⟨by simpa using h.length, ?_, ?_, ?_, ?_⟩
        · have hs := h.sum
          rw [sum_set _ _ _ hi] at hs
          omega
        · intro j
          have hl := h.lower j
          rw [getD_set _ _ _ _ hi] at hl
          split_ifs at hl with hj
          · subst hj; omega
          · exact hl
        · intro j hj
          apply h.upper j
          rw [getD_set _ _ _ _ hi]
          split_ifs with hij
          · subst hij; omega
          · exact hj
        · intro j hj
          rw [h.outside j (fun m hm => hj m (List.mem_cons_of_mem _ hm)), getD_set _ _ _ _ hi,
            if_neg (fun he => hj l List.mem_cons_self he.symm)]

/-- One stroop goes to every eligible entry until the pool is empty. -/
theorem dealDust_pool (weights remaining : List Int) (proRata : Bool) (leftovers : List Leftover)
    (hnodup : (leftovers.map (·.index)).Nodup) (allocations : List Int) (pool : Int)
    (hlt : ∀ l ∈ leftovers, l.index < allocations.length) (hpool : 0 ≤ pool)
    (hcount : pool ≤ (leftovers.map (·.index)).countP (eligible weights remaining proRata allocations)) :
    (dealDust weights remaining proRata leftovers allocations pool).2 = 0 := by
  induction leftovers generalizing allocations pool with
  | nil =>
      simp only [List.map_nil, List.countP_nil, Nat.cast_zero] at hcount
      exact le_antisymm hcount hpool
  | cons l ls ih =>
      rw [List.map_cons] at hnodup hcount
      obtain ⟨hl, hls⟩ := List.nodup_cons.mp hnodup
      have hlt' : ∀ m ∈ ls, m.index < allocations.length :=
        fun m hm => hlt m (List.mem_cons_of_mem _ hm)
      rw [dealDust]
      split_ifs with hz hfull hzero
      · exact hz
      · refine ih hls allocations pool hlt' hpool ?_
        rwa [List.countP_cons_of_neg (by
          rw [eligible, decide_eq_false (not_lt.mpr hfull), Bool.false_and]
          exact Bool.false_ne_true)] at hcount
      · refine ih hls allocations pool hlt' hpool ?_
        rwa [List.countP_cons_of_neg (by
          rw [eligible, hzero.1, decide_eq_true hzero.2]
          simp)] at hcount
      · have hi := hlt l List.mem_cons_self
        refine ih hls _ _ (by simpa using hlt') (by omega) ?_
        -- the entries behind `l` are other entries, so they stay eligible
        have hsame : (ls.map (·.index)).countP (eligible weights remaining proRata
              (allocations.set l.index (allocations.getD l.index 0 + 1))) =
            (ls.map (·.index)).countP (eligible weights remaining proRata allocations) := by
          apply List.countP_congr
          intro j hj
          have hne : j ≠ l.index := fun he => hl (he ▸ hj)
          rw [eligible, getD_set _ _ _ _ hi, if_neg hne, eligible]
        have hone := List.countP_cons (p := eligible weights remaining proRata allocations)
          (a := l.index) (l := ls.map (·.index))
        rw [hsame]
        split_ifs at hone <;> omega

end SplitSdk.AllocationPass
