import SplitSdk.AllocationPass
import Mathlib.Algebra.BigOperators.Ring.List
import Mathlib.Data.List.GetD

namespace SplitSdk.AllocationRun

open AggregatePayments AllocationPass BoundedLoop FloorShares

/-- What every state of `allocateWithCaps` satisfies: nothing is over its cap, the
inactive entries are full and no stroop of the `total` has been lost. -/
structure Inv (remaining : List Int) (total : Int) (s : AllocState) : Prop where
  length : s.allocations.length = remaining.length
  lower : ∀ i, 0 ≤ s.allocations.getD i 0
  upper : ∀ i, s.allocations.getD i 0 ≤ remaining.getD i 0
  nodup : s.active.Nodup
  range : ∀ i ∈ s.active, i < remaining.length
  full : ∀ i, i ∉ s.active → s.allocations.getD i 0 = remaining.getD i 0
  pool : 0 ≤ s.pool
  sum : s.allocations.sum + s.pool = total
  room : 0 < s.pool → ∀ i ∈ s.active, s.allocations.getD i 0 < remaining.getD i 0

def Nonneg (xs : List Int) : Prop := ∀ i, 0 ≤ xs.getD i 0

theorem nonneg_of_forall {xs : List Int} (h : ∀ x ∈ xs, 0 ≤ x) : Nonneg xs := by
  intro i
  by_cases hi : i < xs.length
  · rw [List.getD_eq_getElem _ _ hi]
    exact h _ (List.getElem_mem hi)
  · rw [List.getD_eq_default _ _ (not_lt.mp hi)]

theorem initial_inv (remaining : List Int) (hr : Nonneg remaining) (pool : Int) (hp : 0 ≤ pool) :
    Inv remaining pool (initialAllocation remaining pool) := by
  have hzero : ∀ i, (remaining.map (fun _ => (0 : Int))).getD i 0 = 0 := by
    intro i
    simp only [List.getD_eq_getElem?_getD, List.getElem?_map]
    cases remaining[i]? <;> rfl
  have hmem : ∀ i, i ∈ (initialAllocation remaining pool).active ↔
      i < remaining.length ∧ 0 < remaining.getD i 0 := by
    intro i
    simp only [initialAllocation, List.mem_filter, List.mem_range, gt_iff_lt, decide_eq_true_eq]
  refine ⟨by simp [initialAllocation], fun i => (hzero i).ge, fun i => (hzero i).trans_le (hr i),
    List.nodup_range.filter _, fun i hi => ((hmem i).mp hi).1, ?_, hp, ?_, ?_⟩
  · intro i hi
    rw [hmem, not_and] at hi
    rw [show (initialAllocation remaining pool).allocations.getD i 0 = 0 from hzero i]
    by_cases h : i < remaining.length
    · exact le_antisymm (hr i) (not_lt.mp (hi h))
    · exact (List.getD_eq_default _ _ (not_lt.mp h)).symm
  · simp [initialAllocation]
  · intro _ i hi
    rw [show (initialAllocation remaining pool).allocations.getD i 0 = 0 from hzero i]
    exact ((hmem i).mp hi).2

section Division

variable {weights : List Int} (hw : Nonneg weights) {s : AllocState} (hs : Unfinished s)

include hs in
theorem divisor_pos : 0 < (division weights s).divisor := by
  obtain ⟨_, hactive⟩ := hs
  unfold Division.divisor division
  dsimp only
  split
  · next h => exact of_decide_eq_true h
  · exact Int.natCast_pos.mpr hactive

include hw hs in
theorem numerator_nonneg (i : Nat) : 0 ≤ (division weights s).numerator weights i := by
  unfold Division.numerator division
  dsimp only
  split
  · exact Int.mul_nonneg hs.1.le (hw i)
  · exact hs.1.le

theorem numerator_sum (weights : List Int) (s : AllocState) :
    (s.active.map ((division weights s).numerator weights)).sum =
      s.pool * (division weights s).divisor := by
  cases h : (division weights s).proRata with
  | true =>
      have hn : (division weights s).numerator weights = fun i => s.pool * weights.getD i 0 := by
        funext i; rw [Division.numerator, h, if_pos rfl]; rfl
      have hd : (division weights s).divisor = (s.active.map (weights.getD · 0)).sum := by
        rw [Division.divisor, h, if_pos rfl]; rfl
      rw [hn, hd, List.sum_map_mul_left]
  | false =>
      have hn : (division weights s).numerator weights = fun _ => s.pool := by
        funext i; rw [Division.numerator, h, if_neg Bool.false_ne_true]; rfl
      have hd : (division weights s).divisor = s.active.length := by
        rw [Division.divisor, h, if_neg Bool.false_ne_true]; rfl
      rw [hn, hd, List.map_const', List.sum_replicate, nsmul_eq_mul, Int.mul_comm]

end Division

/-- The loop over the active entries, before the rounding dust is looked at. -/
def handed (weights remaining : List Int) (s : AllocState) : Handout :=
  s.active.foldl (handOut weights remaining (division weights s)) ⟨s.allocations, 0, []⟩

def stillOpen (weights remaining : List Int) (s : AllocState) : List Nat :=
  s.active.filter (fun i =>
    (handed weights remaining s).allocations.getD i 0 < remaining.getD i 0)

section Pass

variable {weights remaining : List Int} {total : Int} {s : AllocState}

theorem handed_spec (hi : Inv remaining total s) :
    HandedOut weights remaining (division weights s) ⟨s.allocations, 0, []⟩ s.active
      (handed weights remaining s) :=
  foldl_handOut _ _ _ _ hi.nodup _ (fun i hm => hi.length ▸ hi.range i hm)

theorem given_nonneg (d : Division) (allocations : List Int) (i : Nat) :
    0 ≤ given weights remaining d allocations i := le_max_left _ _

theorem given_le_capacity (d : Division) {allocations : List Int} {i : Nat}
    (h : allocations.getD i 0 ≤ remaining.getD i 0) :
    given weights remaining d allocations i ≤ remaining.getD i 0 - allocations.getD i 0 :=
  max_le (by omega) (min_le_right _ _)

theorem distributed_nonneg (hi : Inv remaining total s) : 0 ≤ (handed weights remaining s).distributed := by
  rw [(handed_spec hi).distributed, Int.zero_add]
  exact List.sum_nonneg (fun g hg => by
    obtain ⟨i, _, rfl⟩ := List.mem_map.mp hg
    exact given_nonneg _ _ _)

theorem distributed_le (hw : Nonneg weights) (hi : Inv remaining total s) (hs : Unfinished s) :
    (handed weights remaining s).distributed ≤ s.pool := by
  refine le_trans ?_ (quotients_le (divisor_pos hs) (fun i _ => numerator_nonneg hw hs i)
    (numerator_sum weights s))
  rw [(handed_spec hi).distributed, Int.zero_add]
  apply List.sum_le_sum
  intro i _
  exact max_le (Int.tdiv_nonneg (numerator_nonneg hw hs i) (divisor_pos hs).le) (min_le_left _ _)

theorem handed_upper (hi : Inv remaining total s) (i : Nat) :
    (handed weights remaining s).allocations.getD i 0 ≤ remaining.getD i 0 := by
  have h : given weights remaining (division weights s) s.allocations i ≤
      remaining.getD i 0 - s.allocations.getD i 0 := given_le_capacity _ (hi.upper i)
  rw [(handed_spec hi).entry i]
  split
  · dsimp only
    omega
  · simpa using hi.upper i

theorem handed_inv (hw : Nonneg weights) (hi : Inv remaining total s) (hs : Unfinished s) :
    Inv remaining total ⟨(handed weights remaining s).allocations, stillOpen weights remaining s,
      s.pool - (handed weights remaining s).distributed⟩ := by
  have h : HandedOut weights remaining (division weights s) ⟨s.allocations, 0, []⟩ s.active
      (handed weights remaining s) := handed_spec hi
  have hmem : ∀ i, i ∈ stillOpen weights remaining s ↔ i ∈ s.active ∧
      (handed weights remaining s).allocations.getD i 0 < remaining.getD i 0 := by
    intro i
    simp only [stillOpen, List.mem_filter, decide_eq_true_eq]
  refine ⟨h.length.trans hi.length, ?_, handed_upper hi, hi.nodup.filter _,
    fun i hm => hi.range i ((hmem i).mp hm).1, ?_, ?_, ?_, fun _ i hm => ((hmem i).mp hm).2⟩
  · intro i
    have hl := hi.lower i
    have hg : 0 ≤ given weights remaining (division weights s) s.allocations i :=
      given_nonneg _ _ _
    dsimp only
    rw [h.entry i]
    split
    · dsimp only
      omega
    · simpa using hl
  · intro i hm
    rw [hmem, not_and] at hm
    by_cases ha : i ∈ s.active
    · exact le_antisymm (handed_upper hi i) (not_lt.mp (hm ha))
    · dsimp only
      rw [h.entry i, if_neg ha, Int.add_zero]
      exact hi.full i ha
  · have := distributed_le hw hi hs
    dsimp only
    omega
  · have hsum := h.sum
    have htotal := hi.sum
    dsimp only at hsum ⊢
    omega

theorem capacity_pos (hi : Inv remaining total s) (hs : Unfinished s) {i : Nat} (hm : i ∈ s.active) :
    0 < remaining.getD i 0 - s.allocations.getD i 0 := by
  have := hi.room hs.1 i hm
  omega

theorem given_eq_zero (hi : Inv remaining total s)
    (hd : (handed weights remaining s).distributed = 0) {i : Nat} (hm : i ∈ s.active) :
    given weights remaining (division weights s) s.allocations i = 0 := by
  rw [(handed_spec hi).distributed, Int.zero_add] at hd
  refine le_antisymm ?_ (given_nonneg _ _ _)
  rw [← hd]
  apply List.single_le_sum
  · intro g hg
    obtain ⟨j, _, rfl⟩ := List.mem_map.mp hg
    exact given_nonneg _ _ _
  · exact List.mem_map_of_mem hm

theorem handed_entry_of_zero (hi : Inv remaining total s)
    (hd : (handed weights remaining s).distributed = 0) (i : Nat) :
    (handed weights remaining s).allocations.getD i 0 = s.allocations.getD i 0 := by
  rw [(handed_spec hi).entry i]
  split
  · next h => rw [given_eq_zero hi hd h, Int.add_zero]
  · exact Int.add_zero _

theorem stillOpen_of_zero (hi : Inv remaining total s) (hs : Unfinished s)
    (hd : (handed weights remaining s).distributed = 0) : stillOpen weights remaining s = s.active := by
  apply List.filter_eq_self.mpr
  intro i hm
  rw [handed_entry_of_zero hi hd, decide_eq_true_eq]
  exact hi.room hs.1 i hm

/-- A pass that hands out nothing has all shares below one stroop. -/
theorem numerator_lt_divisor (hw : Nonneg weights) (hi : Inv remaining total s) (hs : Unfinished s)
    (hd : (handed weights remaining s).distributed = 0) {i : Nat} (hm : i ∈ s.active) :
    (division weights s).numerator weights i < (division weights s).divisor := by
  have hg := given_eq_zero hi hd hm
  have hc := capacity_pos hi hs hm
  have hq : ((division weights s).numerator weights i).tdiv (division weights s).divisor < 1 := by
    unfold given at hg
    omega
  rw [Int.tdiv_eq_ediv_of_nonneg (numerator_nonneg hw hs i),
    Int.ediv_lt_iff_lt_mul (divisor_pos hs)] at hq
  simpa using hq

def sortedLeftovers (weights remaining : List Int) (s : AllocState) : List Leftover :=
  (handed weights remaining s).leftovers.mergeSort before

theorem sortedLeftovers_perm (hi : Inv remaining total s) :
    ((sortedLeftovers weights remaining s).map (·.index)).Perm s.active := by
  have h := (List.mergeSort_perm (handed weights remaining s).leftovers before).map (·.index)
  rw [(handed_spec hi).leftovers] at h
  simpa [Function.comp_def, sortedLeftovers, (handed_spec hi).leftovers] using h

def dust (weights remaining : List Int) (s : AllocState) : List Int × Int :=
  dealDust weights remaining (division weights s).proRata (sortedLeftovers weights remaining s)
    (handed weights remaining s).allocations (s.pool - (handed weights remaining s).distributed)

theorem sortedLeftovers_lt (hi : Inv remaining total s) :
    ∀ l ∈ sortedLeftovers weights remaining s,
      l.index < (handed weights remaining s).allocations.length := by
  intro l hl
  rw [(handed_spec hi).length, hi.length]
  exact hi.range _ ((sortedLeftovers_perm hi).mem_iff.mp (List.mem_map_of_mem hl))

/-- Rounding dust is always smaller than the number of entries it can go to. -/
theorem dust_pool (hw : Nonneg weights) (hi : Inv remaining total s) (hs : Unfinished s)
    (hd : (handed weights remaining s).distributed = 0) : (dust weights remaining s).2 = 0 := by
  have hperm : ((sortedLeftovers weights remaining s).map (·.index)).Perm s.active :=
    sortedLeftovers_perm hi
  apply dealDust_pool _ _ _ _ (hperm.nodup_iff.mpr hi.nodup) _ _ (sortedLeftovers_lt hi)
  · have := hs.1
    omega
  · have hlt := pool_lt_countP
      (fun i => !((division weights s).proRata && decide (weights.getD i 0 = 0)))
      (divisor_pos hs) hs.1 (fun i hm => numerator_lt_divisor hw hi hs hd hm)
      (by
        intro i _ hc
        simp only [Bool.not_eq_false', Bool.and_eq_true, decide_eq_true_eq] at hc
        rw [Division.numerator, if_pos hc.1, hc.2, Int.mul_zero])
      (numerator_sum weights s)
    have hcount : s.active.countP (eligible weights remaining (division weights s).proRata
          (handed weights remaining s).allocations) =
        s.active.countP
          (fun i => !((division weights s).proRata && decide (weights.getD i 0 = 0))) := by
      apply List.countP_congr
      intro i hm
      rw [eligible, handed_entry_of_zero hi hd, decide_eq_true (hi.room hs.1 i hm), Bool.true_and]
    rw [hperm.countP_eq, hcount]
    omega

theorem dust_inv (hw : Nonneg weights) (hi : Inv remaining total s) (hs : Unfinished s)
    (hd : (handed weights remaining s).distributed = 0) :
    Inv remaining total ⟨(dust weights remaining s).1, stillOpen weights remaining s,
      (dust weights remaining s).2⟩ := by
  have h := handed_inv hw hi hs
  have hz := dust_pool hw hi hs hd
  have ht := dealDust_dealt weights remaining (division weights s).proRata
    (sortedLeftovers weights remaining s) _ (s.pool - (handed weights remaining s).distributed)
    (sortedLeftovers_lt hi)
  refine ⟨ht.length.trans h.length, fun i => (h.lower i).trans (ht.lower i),
    fun i => ht.upper i (h.upper i), h.nodup, h.range, ?_, hz.ge, ht.sum.trans h.sum, ?_⟩
  · intro i hm
    refine (ht.outside i ?_).trans (h.full i hm)
    intro l hl he
    apply hm
    rw [stillOpen_of_zero hi hs hd, ← he]
    exact (sortedLeftovers_perm hi).mem_iff.mp (List.mem_map_of_mem hl)
  · intro hp
    exact absurd hz (Int.ne_of_gt hp)

variable (weights) in
/-- A pass either hands shares out or, when all shares are zero, deals the pool as dust. -/
theorem pass_cases (hi : Inv remaining total s) (hs : Unfinished s) :
    (0 < (handed weights remaining s).distributed ∧
      allocationPass weights remaining s =
        ⟨(handed weights remaining s).allocations, stillOpen weights remaining s,
          s.pool - (handed weights remaining s).distributed⟩) ∨
    ((handed weights remaining s).distributed = 0 ∧
      allocationPass weights remaining s =
        ⟨(dust weights remaining s).1, stillOpen weights remaining s,
          (dust weights remaining s).2⟩) := by
  by_cases hd : 0 < (handed weights remaining s).distributed
  · exact .inl ⟨hd, if_pos (.inl hd)⟩
  · have hz : (handed weights remaining s).distributed = 0 :=
      le_antisymm (not_lt.mp hd) (distributed_nonneg hi)
    refine .inr ⟨hz, if_neg ?_⟩
    rintro (h | h | h)
    · exact hd h
    · change s.pool - (handed weights remaining s).distributed = 0 at h
      have := hs.1
      omega
    · change (stillOpen weights remaining s).length = 0 at h
      rw [stillOpen_of_zero hi hs hz] at h
      have := hs.2
      omega

theorem pass_inv (hw : Nonneg weights) (hi : Inv remaining total s) (hs : Unfinished s) :
    Inv remaining total (allocationPass weights remaining s) := by
  obtain ⟨_, h⟩ | ⟨hd, h⟩ := pass_cases weights hi hs
  · exact h ▸ handed_inv hw hi hs
  · exact h ▸ dust_inv hw hi hs hd

theorem pass_pool_lt (hw : Nonneg weights) (hi : Inv remaining total s) (hs : Unfinished s) :
    (allocationPass weights remaining s).pool < s.pool := by
  have hp := hs.1
  obtain ⟨hd, h⟩ | ⟨hd, h⟩ := pass_cases weights hi hs
  · rw [h]
    dsimp only
    omega
  · rw [h]
    dsimp only
    rw [dust_pool hw hi hs hd]
    exact hp

/-- A pass that fills no entry has divided the pool by floors, so less than one
stroop for each active entry is left. -/
theorem pass_progress (hw : Nonneg weights) (hi : Inv remaining total s) (hs : Unfinished s) :
    (allocationPass weights remaining s).active.length < s.active.length ∨
      (allocationPass weights remaining s).pool < s.active.length := by
  obtain ⟨_, h⟩ | ⟨hd, h⟩ := pass_cases weights hi hs
  · rw [h]
    dsimp only
    by_cases hlen : (stillOpen weights remaining s).length < s.active.length
    · exact .inl hlen
    · right
      have hall : ∀ i ∈ s.active,
          (handed weights remaining s).allocations.getD i 0 < remaining.getD i 0 := by
        have heq := List.length_filter_eq_length_iff.mp
          (le_antisymm (List.length_filter_le _ _) (not_lt.mp hlen))
        intro i hm
        simpa only [decide_eq_true_eq] using heq i hm
      have hquot : (handed weights remaining s).distributed =
          quotients ((division weights s).numerator weights) (division weights s).divisor s.active := by
        rw [(handed_spec hi).distributed, Int.zero_add, quotients]
        congr 1
        apply List.map_congr_left
        intro i hm
        have hlt := hall i hm
        rw [(handed_spec hi).entry i, if_pos hm] at hlt
        have hq : 0 ≤ ((division weights s).numerator weights i).tdiv (division weights s).divisor :=
          Int.tdiv_nonneg (numerator_nonneg hw hs i) (divisor_pos hs).le
        unfold given at hlt ⊢
        dsimp only at hlt ⊢
        omega
      rw [hquot]
      exact pool_sub_quotients_lt (divisor_pos hs) (List.ne_nil_of_length_pos hs.2)
        (numerator_sum weights s)
  · right
    rw [h]
    dsimp only
    rw [dust_pool hw hi hs hd]
    exact Int.natCast_pos.mpr hs.2

end Pass

section Run

variable {weights remaining : List Int} {total : Int}

theorem run_inv (hw : Nonneg weights) (limit : Nat) (s : AllocState) (hi : Inv remaining total s) :
    Inv remaining total (allocationLoop weights remaining limit s) :=
  loop_invariant (fun _ h hs => pass_inv hw h hs) limit s hi

theorem ended_of_pool (hw : Nonneg weights) (limit : Nat) (s : AllocState)
    (hi : Inv remaining total s) (hlimit : s.pool ≤ limit) :
    Ended Unfinished (allocationPass weights remaining) limit s := by
  refine ended_of_measure (fun _ h hs => pass_inv hw h hs) (fun s => s.pool.toNat) ?_ limit s hi
    (by omega)
  intro s hi hs
  have := pass_pool_lt hw hi hs
  have := hs.1
  omega

/-- As many passes as there are active entries are always enough. -/
theorem ended_of_active (hw : Nonneg weights) (limit : Nat) (s : AllocState)
    (hi : Inv remaining total s) (hlimit : s.active.length ≤ limit) :
    Ended Unfinished (allocationPass weights remaining) limit s := by
  induction limit generalizing s with
  | zero => exact fun hs => absurd hs.2 (by rw [loop]; omega)
  | succ limit ih =>
      by_cases hs : Unfinished s
      · rw [ended_succ hs]
        obtain hlt | hlt := pass_progress hw hi hs
        · exact ih _ (pass_inv hw hi hs) (by omega)
        · exact ended_of_pool hw limit _ (pass_inv hw hi hs) (by omega)
      · exact ended_of_not_guard hs _

theorem sum_eq_of_full {allocations : List Int} (hlen : allocations.length = remaining.length)
    (h : ∀ i, allocations.getD i 0 = remaining.getD i 0) : allocations.sum = remaining.sum := by
  congr 1
  apply List.ext_getElem hlen
  intro i h1 h2
  rw [← List.getD_eq_getElem allocations 0 h1, h i, List.getD_eq_getElem remaining 0 h2]

/-- Given a pool no larger than the caps, the loop has ended exactly when the
pool is empty. -/
theorem pool_zero_iff {s : AllocState} (hi : Inv remaining total s) (htotal : total ≤ remaining.sum) :
    s.pool = 0 ↔ ¬Unfinished s := by
  constructor
  · rintro h ⟨hp, _⟩
    omega
  · intro h
    by_contra hne
    have hp : 0 < s.pool := lt_of_le_of_ne hi.pool (Ne.symm hne)
    have hempty : s.active = [] := by
      by_contra ha
      exact h ⟨hp, List.length_pos_iff.mpr ha⟩
    have hfull := sum_eq_of_full hi.length (fun i => hi.full i (by simp [hempty]))
    have := hi.sum
    omega

end Run

end SplitSdk.AllocationRun
