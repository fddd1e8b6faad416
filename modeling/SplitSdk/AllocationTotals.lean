import Mathlib
import SplitSdk.AllocationRun
import SplitSdk.Fallible

namespace SplitSdk.AllocationTotals

open AggregatePayments AllocationRun BoundedLoop Fallible Numbers

/-- What the allocator promises: one entry for each invoice in input order, none
over its invoice's remaining amount, and together all that can be paid. -/
structure ExactAllocation (budget : Int) (invoiceIds remaining : List Int)
    (allocations : List PaymentAllocation) : Prop where
  ids : allocations.map (·.invoiceId) = invoiceIds
  capped : List.Forall₂ (fun a r => 0 ≤ a.amount ∧ a.amount ≤ r) allocations remaining
  sum : (allocations.map (·.amount)).sum = min budget remaining.sum

/-- The passes the water filling takes when nothing limits them. -/
def passesNeeded (weights remaining : List Int) (pool : Int) : Nat :=
  turns Unfinished (allocationPass weights remaining) remaining.length
    (initialAllocation remaining pool)

section Resolving

theorem assertNoDuplicates_ok (ids : List Int) (seen : List String) (hids : ids.Nodup)
    (hseen : ∀ id ∈ ids, ToString.toString id ∉ seen) : assertNoDuplicates ids seen = .ok () := by
  induction ids generalizing seen with
  | nil => rfl
  | cons id ids ih =>
      obtain ⟨hid, hids⟩ := List.nodup_cons.mp hids
      rw [assertNoDuplicates, if_neg (hseen id List.mem_cons_self)]
      apply ih _ hids
      intro other ho hmem
      rcases List.mem_cons.mp hmem with he | hmem
      · exact hid (Int.repr_injective he ▸ ho)
      · exact hseen other (List.mem_cons_of_mem _ ho) hmem

theorem resolveRemaining_nonneg (options : AggregatePaymentsOptions)
    (fetcher : Option InvoiceRemainingFetcher) (id amount : Int)
    (h : resolveRemaining options fetcher id = .ok amount) : 0 ≤ amount := by
  obtain ⟨remaining, _, h⟩ := bind_eq_ok.mp h
  cases remaining with
  | none => cases h
  | some n =>
      cases h
      split <;> omega

theorem proportionalWeight_nonneg (options : AggregatePaymentsOptions) (id amount w : Int)
    (hamount : 0 ≤ amount) (h : proportionalWeight options id amount = .ok w) : 0 ≤ w := by
  obtain ⟨target, _, h⟩ := bind_eq_ok.mp h
  cases target with
  | none => cases h; exact hamount
  | some target =>
      cases h
      split
      · exact le_rfl
      · exact Int.tdiv_nonneg (Int.mul_nonneg hamount (by decide)) (by omega)

theorem sumWeights_nonneg (weights : List JsNumber) (sum total : ℚ)
    (h : sumWeights weights sum = .ok total) : ∀ w ∈ weights, 0 ≤ scaleWeight w := by
  induction weights generalizing sum with
  | nil => simp
  | cons w ws ih =>
      cases w with
      | finite q =>
          simp only [sumWeights] at h
          split at h
          · cases h
          · next hq =>
              refine List.forall_mem_cons.mpr ⟨?_, ih _ h⟩
              have hscale : (0 : ℚ) ≤ q * weightScale := mul_nonneg (not_lt.mp hq) (by norm_num [weightScale])
              exact Int.floor_nonneg.mpr (by linarith)
      | nan | infinity => cases h

theorem resolveCustomWeights_nonneg (weights : Option (List JsNumber)) (count : Nat) (ws : List Int)
    (h : resolveCustomWeights weights count = .ok ws) : ∀ w ∈ ws, 0 ≤ w := by
  cases weights with
  | none => cases h
  | some weights =>
      rw [resolveCustomWeights] at h
      split at h
      · cases h
      · obtain ⟨sum, hsum, h⟩ := bind_eq_ok.mp h
        split at h
        · cases h
        · cases h
          intro w hw
          obtain ⟨x, hx, rfl⟩ := List.mem_map.mp hw
          exact sumWeights_nonneg weights 0 sum hsum x hx

theorem resolveWeights_nonneg (strategy : SplitStrategy) (remaining ids weights : List Int)
    (options : AggregatePaymentsOptions) (hr : ∀ r ∈ remaining, 0 ≤ r)
    (h : resolveWeights strategy remaining options ids = .ok weights) : ∀ w ∈ weights, 0 ≤ w := by
  cases strategy with
  | equal =>
      cases h
      intro w hw
      obtain ⟨_, _, rfl⟩ := List.mem_map.mp hw
      exact Int.one_nonneg
  | custom => exact resolveCustomWeights_nonneg _ _ _ h
  | proportional | unknown =>
      exact forall_of_mapM (fun p hp w hw => proportionalWeight_nonneg options p.1 p.2 w
        (hr _ (List.of_mem_zip hp).2) hw) h

end Resolving

section Totals

variable {budget : Int} {ids remaining weights : List Int} {strategy : SplitStrategy}
  {options : AggregatePaymentsOptions} {fetcher : Option InvoiceRemainingFetcher}

theorem aggregatePayments_eq (hbudget : 0 ≤ budget) (hids : ids.Nodup) (hne : ids ≠ [])
    (hstrategy : assertValidStrategy strategy = .ok ())
    (hremaining : resolveRemainingAmounts ids options fetcher = .ok remaining)
    (hweights : resolveWeights strategy remaining options ids = .ok weights) :
    aggregatePayments budget ids strategy options fetcher =
      allocateBudget budget ids strategy options remaining := by
  have hvalid : validateWeights strategy options ids.length = .ok () := by
    rw [validateWeights]
    split
    · next h => subst h; rw [show resolveCustomWeights options.weights ids.length = _ from hweights]; rfl
    · rfl
  have hlen : ids.length ≠ 0 := fun h => hne (List.length_eq_zero_iff.mp h)
  simp only [aggregatePayments, hstrategy, not_lt.mpr hbudget, hlen, if_false, hvalid, hremaining,
    assertNoDuplicates_ok ids [] hids (by simp), bind, Except.bind]

theorem resolved_length (h : resolveRemainingAmounts ids options fetcher = .ok remaining) :
    remaining.length = ids.length := (mapM_forall₂ _ _ _ h).length_eq.symm

theorem resolved_nonneg (h : resolveRemainingAmounts ids options fetcher = .ok remaining) :
    ∀ r ∈ remaining, 0 ≤ r :=
  forall_of_mapM (fun _ _ _ h => resolveRemaining_nonneg _ _ _ _ h) h

/-- The state the passes of `allocateWithCaps` end in. -/
def finalState (weights remaining : List Int) (pool : Int) : AllocState :=
  allocationLoop weights remaining maxAllocationPasses (initialAllocation remaining pool)

theorem finalState_inv (hw : ∀ w ∈ weights, 0 ≤ w) (hr : ∀ r ∈ remaining, 0 ≤ r) {pool : Int}
    (hp : 0 ≤ pool) : Inv remaining pool (finalState weights remaining pool) :=
  run_inv (nonneg_of_forall hw) _ _ (initial_inv remaining (nonneg_of_forall hr) pool hp)

theorem initial_ended (hw : ∀ w ∈ weights, 0 ≤ w) (hr : ∀ r ∈ remaining, 0 ≤ r) {pool : Int}
    (hp : 0 ≤ pool) :
    Ended Unfinished (allocationPass weights remaining) remaining.length
      (initialAllocation remaining pool) := by
  refine ended_of_active (nonneg_of_forall hw) _ _
    (initial_inv remaining (nonneg_of_forall hr) pool hp) ?_
  exact (List.length_filter_le _ _).trans_eq List.length_range

/-- The pass limit leaves a part of the pool behind exactly when more passes are needed. -/
theorem finalState_pool_zero_iff (hw : ∀ w ∈ weights, 0 ≤ w) (hr : ∀ r ∈ remaining, 0 ≤ r)
    {pool : Int} (hp : 0 ≤ pool) (htotal : pool ≤ remaining.sum) :
    (finalState weights remaining pool).pool = 0 ↔
      passesNeeded weights remaining pool ≤ maxAllocationPasses := by
  rw [pool_zero_iff (finalState_inv hw hr hp) htotal]
  exact ended_iff_turns_le _ _ _ (initial_ended hw hr hp)

theorem passesNeeded_le_length (hw : ∀ w ∈ weights, 0 ≤ w) (hr : ∀ r ∈ remaining, 0 ≤ r) {pool : Int}
    (hp : 0 ≤ pool) : passesNeeded weights remaining pool ≤ remaining.length :=
  (ended_iff_turns_le _ _ _ (initial_ended hw hr hp)).mp (initial_ended hw hr hp)

theorem passesNeeded_zero : passesNeeded weights remaining 0 = 0 := by
  rw [passesNeeded]
  cases remaining with
  | nil => rfl
  | cons r rs => exact if_neg (fun h => absurd h.1 (lt_irrefl 0))

/-- The result of `aggregatePayments` whenever something can be distributed. -/
def paid (budget : Int) (ids weights remaining : List Int) : List PaymentAllocation :=
  (ids.zip (finalState weights remaining (min budget remaining.sum)).allocations).map
    (fun p => ⟨p.1, p.2, percentOfBudget p.2 budget⟩)

theorem distributable_eq (a b : Int) : (if a < b then a else b) = min a b := by
  split <;> omega

theorem allocateBudget_eq (hd : min budget remaining.sum ≠ 0)
    (hweights : resolveWeights strategy remaining options ids = .ok weights) :
    allocateBudget budget ids strategy options remaining =
      .ok (paid budget ids weights remaining) := by
  simp only [allocateBudget, distributable_eq, if_neg hd, hweights, bind, Except.bind]
  rfl

theorem allocateBudget_zero (hd : min budget remaining.sum = 0) :
    allocateBudget budget ids strategy options remaining = .ok (ids.map (⟨·, 0, 0⟩)) := by
  simp only [allocateBudget, distributable_eq, if_pos hd]

theorem paid_length (hlen : remaining.length = ids.length)
    (hi : Inv remaining (min budget remaining.sum)
      (finalState weights remaining (min budget remaining.sum))) :
    (finalState weights remaining (min budget remaining.sum)).allocations.length = ids.length :=
  hi.length.trans hlen

theorem paid_amounts (hlen : remaining.length = ids.length)
    (hi : Inv remaining (min budget remaining.sum)
      (finalState weights remaining (min budget remaining.sum))) :
    (paid budget ids weights remaining).map (·.amount) =
      (finalState weights remaining (min budget remaining.sum)).allocations := by
  rw [paid, List.map_map]
  exact List.map_snd_zip (paid_length hlen hi).le

theorem paid_ids (hlen : remaining.length = ids.length)
    (hi : Inv remaining (min budget remaining.sum)
      (finalState weights remaining (min budget remaining.sum))) :
    (paid budget ids weights remaining).map (·.invoiceId) = ids := by
  rw [paid, List.map_map]
  exact List.map_fst_zip (paid_length hlen hi).ge

theorem forall₂_of_getD {xs ys : List Int} (hlen : xs.length = ys.length)
    (hlower : ∀ i, 0 ≤ xs.getD i 0) (hupper : ∀ i, xs.getD i 0 ≤ ys.getD i 0) :
    List.Forall₂ (fun x y => 0 ≤ x ∧ x ≤ y) xs ys := by
  apply List.forall₂_iff_get.mpr
  refine ⟨hlen, ?_⟩
  intro i h1 h2
  have hl := hlower i
  have hu := hupper i
  rw [List.getD_eq_getElem _ _ h1] at hl hu
  rw [List.getD_eq_getElem _ _ h2] at hu
  exact ⟨hl, hu⟩

theorem paid_exact_iff (hlen : remaining.length = ids.length)
    (hi : Inv remaining (min budget remaining.sum)
      (finalState weights remaining (min budget remaining.sum))) :
    ExactAllocation budget ids remaining (paid budget ids weights remaining) ↔
      (finalState weights remaining (min budget remaining.sum)).pool = 0 := by
  have hsum := hi.sum
  constructor
  · intro h
    have := h.sum
    rw [paid_amounts hlen hi] at this
    omega
  · intro h
    refine ⟨paid_ids hlen hi, ?_, ?_⟩
    · rw [← List.forall₂_map_left_iff (f := fun a : PaymentAllocation => a.amount)
        (R := fun x r => 0 ≤ x ∧ x ≤ r), paid_amounts hlen hi]
      exact forall₂_of_getD hi.length hi.lower hi.upper
    · rw [paid_amounts hlen hi]
      omega

end Totals

end SplitSdk.AllocationTotals
