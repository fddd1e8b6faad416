import SplitSdk.AllocationTotals

namespace SplitSdk.AllocationLimit

open AggregatePayments AllocationPass AllocationRun AllocationTotals BoundedLoop Fallible

section Limit

variable {budget : Int} {ids remaining weights : List Int} {strategy : SplitStrategy}
  {options : AggregatePaymentsOptions} {fetcher : Option InvoiceRemainingFetcher}

end Limit

section Skewed

variable (m : Nat)

/-- One invoice still needs 2000 stroops and `m` others 1000 each, so that the first
has a share of one stroop for every `m / 2 + 1` in the pool and the others have none. -/
def skewedRemaining : List Int := 2000 :: List.replicate m 1000

def skewedFetcher : InvoiceRemainingFetcher := fun id => .ok (if id = 0 then 2000 else 1000)

def skewedOptions : AggregatePaymentsOptions := { fetchRemaining := some skewedFetcher }

def skewedIds : List Int := (List.range (m + 1)).map Int.ofNat

theorem skewedIds_nodup : (skewedIds m).Nodup :=
  List.nodup_range.map (fun _ _ h => Int.ofNat.inj h)

theorem skewedRemaining_length : (skewedRemaining m).length = m + 1 := by
  rw [skewedRemaining, List.length_cons, List.length_replicate]

theorem skewedRemaining_sum : (skewedRemaining m).sum = 2000 + 1000 * m := by
  rw [skewedRemaining, List.sum_cons, List.sum_replicate, nsmul_eq_mul, Int.mul_comm]

theorem skewedRemaining_getD (i : Nat) (hi : i < m + 1) :
    (skewedRemaining m).getD i 0 = if i = 0 then 2000 else 1000 := by
  cases i with
  | zero => rfl
  | succ i =>
      rw [skewedRemaining, List.getD_cons_succ,
        List.getD_eq_getElem _ _ (by rw [List.length_replicate]; omega), List.getElem_replicate]
      rfl

theorem skewedRemaining_nonneg : ∀ r ∈ skewedRemaining m, 0 ≤ r := by
  simp only [skewedRemaining, List.forall_mem_cons, List.mem_replicate]
  refine ⟨by decide, ?_⟩
  rintro _ ⟨_, rfl⟩
  decide

theorem skewed_resolved :
    resolveRemainingAmounts (skewedIds m) skewedOptions none = .ok (skewedRemaining m) := by
  have h : resolveRemainingAmounts (skewedIds m) skewedOptions none =
      .ok ((skewedIds m).map (fun id => if id = 0 then 2000 else 1000)) := by
    apply mapM_eq_map
    intro id _
    change Except.ok (if (if id = 0 then (2000 : Int) else 1000) > 0 then
      (if id = 0 then 2000 else 1000) else 0) = _
    split <;> rfl
  rw [h, skewedIds, List.map_map]
  congr 1
  apply List.ext_getElem
  · rw [skewedRemaining_length, List.length_map, List.length_range]
  · intro i h1 h2
    rw [skewedRemaining_length] at h2
    rw [← List.getD_eq_getElem (skewedRemaining m) 0, skewedRemaining_getD m i h2]
    simp

theorem skewed_weights :
    resolveWeights .proportional (skewedRemaining m) skewedOptions (skewedIds m) =
      .ok (skewedRemaining m) := by
  have h : resolveWeights .proportional (skewedRemaining m) skewedOptions (skewedIds m) =
      .ok (((skewedIds m).zip (skewedRemaining m)).map (·.2)) :=
    mapM_eq_map _ _ _ (fun _ _ => rfl)
  rw [h, List.map_snd_zip (by rw [skewedRemaining_length, skewedIds, List.length_map, List.length_range])]

/-- The state after `k` passes: the first invoice has had one stroop from each. -/
structure SkewedState (k : Nat) (s : AllocState) : Prop where
  inv : Inv (skewedRemaining m) (m + 1) s
  active : s.active = List.range (m + 1)
  pool : s.pool = m + 1 - k
  entry : ∀ i < m + 1, s.allocations.getD i 0 = if i = 0 then (k : Int) else 0

variable {m} {k : Nat} {s : AllocState}

theorem SkewedState.unfinished (h : SkewedState m k s) (hk : 2 * k ≤ m) : Unfinished s := by
  refine ⟨?_, ?_⟩
  · rw [h.pool]; omega
  · rw [h.active, List.length_range]; omega

theorem skewed_division (h : SkewedState m k s) :
    division (skewedRemaining m) s = ⟨true, 2000 + 1000 * m, m + 1, m + 1 - k⟩ := by
  have hsum : ((List.range (m + 1)).map ((skewedRemaining m).getD · 0)).sum = 2000 + 1000 * m := by
    rw [← skewedRemaining_sum]
    congr 1
    apply List.ext_getElem
    · rw [skewedRemaining_length, List.length_map, List.length_range]
    · intro i h1 h2
      rw [List.getElem_map, List.getElem_range, List.getD_eq_getElem _ _ h2]
  have hpos : (2000 + 1000 * m : Int) > 0 := by omega
  simp only [division, hsum, h.active, h.pool, List.length_range, hpos, decide_true, Nat.cast_add,
    Nat.cast_one]

theorem skewed_given (h : SkewedState m k s) (hk : 2 * k ≤ m) (hcap : k < 2000) (i : Nat)
    (hi : i < m + 1) :
    given (skewedRemaining m) (skewedRemaining m) (division (skewedRemaining m) s) s.allocations i =
      if i = 0 then 1 else 0 := by
  have hpos : (0 : Int) < 2000 + 1000 * m := by omega
  rw [skewed_division h]
  simp only [given, Division.numerator, Division.divisor, if_true, skewedRemaining_getD m i hi,
    h.entry i hi]
  rw [Int.tdiv_eq_ediv_of_nonneg (by split <;> omega)]
  split
  · have hone : ((m + 1 - k : Int) * 2000) / (2000 + 1000 * m) = 1 := by
      apply le_antisymm
      · exact Int.lt_add_one_iff.mp ((Int.ediv_lt_iff_lt_mul hpos).mpr (by omega))
      · exact (Int.le_ediv_iff_mul_le hpos).mpr (by omega)
    rw [hone]
    omega
  · rw [Int.ediv_eq_zero_of_lt (by omega) (by omega)]
    rfl

theorem skewed_distributed (h : SkewedState m k s) (hk : 2 * k ≤ m) (hcap : k < 2000) :
    (handed (skewedRemaining m) (skewedRemaining m) s).distributed = 1 := by
  rw [(handed_spec h.inv).distributed, h.active, List.range_succ_eq_map, List.map_cons,
    List.sum_cons, skewed_given h hk hcap 0 (by omega), List.map_map]
  have hrest : ∀ i ∈ List.range m, (given (skewedRemaining m) (skewedRemaining m)
      (division (skewedRemaining m) s) s.allocations ∘ Nat.succ) i = 0 := by
    intro i hi
    exact skewed_given h hk hcap (i + 1) (by have := List.mem_range.mp hi; omega)
  rw [List.map_congr_left hrest, List.map_const', List.sum_replicate, smul_zero]
  rfl

theorem skewed_pass (h : SkewedState m k s) (hk : 2 * k ≤ m) (hcap : k + 1 < 2000) :
    SkewedState m (k + 1) (allocationPass (skewedRemaining m) (skewedRemaining m) s) := by
  have hs := h.unfinished hk
  have hd := skewed_distributed h hk (by omega)
  have hentry : ∀ i < m + 1,
      (handed (skewedRemaining m) (skewedRemaining m) s).allocations.getD i 0 =
        if i = 0 then ((k + 1 : Nat) : Int) else 0 := by
    intro i hi
    rw [(handed_spec h.inv).entry i, if_pos (by rw [h.active]; exact List.mem_range.mpr hi)]
    dsimp only
    rw [h.entry i hi, skewed_given h hk (by omega) i hi]
    split <;> simp
  obtain ⟨_, hp⟩ | ⟨hz, _⟩ := pass_cases (skewedRemaining m) h.inv hs
  · refine ⟨pass_inv (nonneg_of_forall (skewedRemaining_nonneg m)) h.inv hs, ?_, ?_, ?_⟩
    · rw [hp]
      dsimp only
      rw [stillOpen, h.active]
      apply List.filter_eq_self.mpr
      intro i hi
      have hi := List.mem_range.mp hi
      rw [decide_eq_true_eq, hentry i hi, skewedRemaining_getD m i hi]
      split <;> omega
    · rw [hp]
      dsimp only
      rw [hd, h.pool]
      omega
    · rw [hp]
      exact hentry
  · omega

theorem skewed_run (limit : Nat) (h : SkewedState m k s) (hk : 2 * (k + limit) ≤ m)
    (hcap : k + limit < 2000) :
    SkewedState m (k + limit)
      (allocationLoop (skewedRemaining m) (skewedRemaining m) limit s) := by
  induction limit generalizing k s with
  | zero => exact h
  | succ limit ih =>
      rw [allocationLoop, loop_succ_of_guard (h.unfinished (by omega)),
        show k + (limit + 1) = k + 1 + limit by omega]
      exact ih (skewed_pass h (by omega) (by omega)) (by omega) (by omega)

theorem skewed_initial (m : Nat) :
    SkewedState m 0 (initialAllocation (skewedRemaining m) (m + 1)) := by
  refine ⟨initial_inv _ (nonneg_of_forall (skewedRemaining_nonneg m)) _ (by omega), ?_,
    (Int.sub_zero _).symm, ?_⟩
  · rw [initialAllocation, skewedRemaining_length]
    apply List.filter_eq_self.mpr
    intro i hi
    rw [decide_eq_true_eq, skewedRemaining_getD m i (List.mem_range.mp hi)]
    split <;> decide
  · intro i _
    simp only [initialAllocation, List.getD_eq_getElem?_getD, List.getElem?_map]
    cases (skewedRemaining m)[i]? <;> simp

theorem skewed_pool (m : Nat) (hm : 2 * maxAllocationPasses ≤ m) :
    (finalState (skewedRemaining m) (skewedRemaining m) (m + 1)).pool = m + 1 - maxAllocationPasses := by
  have h := skewed_run maxAllocationPasses (skewed_initial m) (by omega) (by decide)
  rw [Nat.zero_add] at h
  exact h.pool

theorem skewed_not_exact (m : Nat) (hm : 2 * maxAllocationPasses ≤ m) :
    ¬∃ allocations,
      aggregatePayments (m + 1) (skewedIds m) .proportional skewedOptions none = .ok allocations ∧
        ExactAllocation (m + 1) (skewedIds m) (skewedRemaining m) allocations := by
  have hlen := resolved_length (skewed_resolved m)
  have hr := skewedRemaining_nonneg m
  have hmin : min (m + 1 : Int) (skewedRemaining m).sum = m + 1 := by
    rw [skewedRemaining_sum]
    omega
  have hi : Inv (skewedRemaining m) (min (m + 1 : Int) (skewedRemaining m).sum)
      (finalState (skewedRemaining m) (skewedRemaining m) (min (m + 1 : Int) (skewedRemaining m).sum)) :=
    finalState_inv hr hr (by omega)
  rw [aggregatePayments_eq (by omega) (skewedIds_nodup m) (by simp [skewedIds]) rfl (skewed_resolved m)
    (skewed_weights m), allocateBudget_eq (by omega) (skewed_weights m)]
  rintro ⟨_, heq, h⟩
  cases heq
  have hpool := (paid_exact_iff hlen hi).mp h
  rw [hmin, skewed_pool m hm] at hpool
  omega

end Skewed

end SplitSdk.AllocationLimit
