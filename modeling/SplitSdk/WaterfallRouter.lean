import SplitSdk.PrefixBudgets
import SplitSdk.RoundingMonotone
import SplitSdk.StableSorting

namespace SplitSdk.WaterfallRouter

open Numbers PrefixBudgets RoundingMonotone StableSorting

section Model

/-- A tier. A score of `NaN`, for which the comparison below is no order, is left out. -/
structure WaterfallTier where
  recipient : String
  minimumAmount : Int
  asset : Option String := none
  score : Option OrderedDouble := none

structure WaterfallConfig where
  tiers : List WaterfallTier
  allowPartial : Option Bool := none

structure WaterfallStep where
  recipient : String
  amount : Int
  asset : String
  minimumAmount : Int
  satisfied : Bool
  deriving DecidableEq

structure WaterfallPlan where
  steps : List WaterfallStep
  fullySatisfied : Bool
  totalAllocated : Int
  remaining : Int
  allowPartial : Option Bool
  deriving DecidableEq

inductive Failure
  | validation (message : String) (context : List (String × String))
  | insufficientFunds (invoiceId message : String) (unsatisfiedTiers : Option (List String))
  deriving DecidableEq

def WaterfallTier.number (tier : WaterfallTier) : OrderedDouble := tier.score.getD .zero

def WaterfallTier.rank (tier : WaterfallTier) : JsNumber := tier.number.value

/-- `(b.score - a.score) || (a.index - b.index)` is at most zero. -/
def precedes (a b : WaterfallTier × Nat) : Bool :=
  let difference := b.1.rank.sub a.1.rank
  if difference = .finite 0 ∨ difference = .nan then a.2 ≤ b.2 else difference.le (.finite 0)

def sortTiersByScore (tiers : List WaterfallTier) : List WaterfallTier := (tiers.zipIdx.mergeSort precedes).map Prod.fst

/-- What the loop over the tiers carries. -/
structure Disbursal where
  remaining : Int
  blocked : Bool := false
  steps : List WaterfallStep := []

variable (token : String)

def skipped (tier : WaterfallTier) : WaterfallStep where
  recipient := tier.recipient
  amount := 0
  asset := tier.asset.getD token
  minimumAmount := tier.minimumAmount
  satisfied := false

def funded (tier : WaterfallTier) : WaterfallStep where
  recipient := tier.recipient
  amount := tier.minimumAmount
  asset := tier.asset.getD token
  minimumAmount := tier.minimumAmount
  satisfied := true

def disburse (d : Disbursal) (tier : WaterfallTier) : Disbursal :=
  if d.blocked ∨ d.remaining < tier.minimumAmount then
    { d with blocked := true, steps := d.steps ++ [skipped token tier] }
  else { d with remaining := d.remaining - tier.minimumAmount, steps := d.steps ++ [funded token tier] }

/-- The plan of a valid configuration. -/
def disbursed (availableAmount : Int) (config : WaterfallConfig) : WaterfallPlan :=
  let d := (sortTiersByScore config.tiers).foldl (disburse token) { remaining := availableAmount }
  { steps := d.steps
    fullySatisfied := d.steps.all (fun s => s.satisfied)
    totalAllocated := (d.steps.map (fun s => s.amount)).sum
    remaining := d.remaining
    allowPartial := config.allowPartial }

/-- The plan for an invoice in a token. -/
def plan (availableAmount : Int) (config : WaterfallConfig) : Except Failure WaterfallPlan :=
  if availableAmount < 0 then
    .error (.validation "availableAmount must be >= 0" [("availableAmount", toString availableAmount)])
  else
    match config.tiers.find? (fun tier => tier.minimumAmount < 0) with
    | some tier => .error (.validation "WaterfallTier.minimumAmount must be >= 0"
        [("recipient", tier.recipient), ("minimumAmount", toString tier.minimumAmount)])
    | none => .ok (disbursed token availableAmount config)

def insufficient (invoiceId : String) (unsatisfiedTiers : Option (List String)) : Failure :=
  .insufficientFunds invoiceId
    s!"Waterfall plan for invoice {invoiceId} has one or more unsatisfied tiers; pass allowPartial: true to submit anyway"
    unsatisfiedTiers

/-- The amounts of the `pay` operations for which `submitPayment` builds one transaction. -/
def payOperations (invoiceId : String) (p : WaterfallPlan) (allowPartial : Option Bool) : Except Failure (List Int) :=
  let partially := (allowPartial.or p.allowPartial).getD false
  if p.steps.any (fun s => !s.satisfied) && !partially then
    .error (insufficient invoiceId (some ((p.steps.filter (fun s => !s.satisfied)).map (fun s => s.recipient))))
  else
    let fundedSteps := p.steps.filter (fun s => s.satisfied && decide (0 < s.amount))
    if fundedSteps = [] then .error (insufficient invoiceId none) else .ok (fundedSteps.map (fun s => s.amount))

end Model

section Sorting

variable {a b : WaterfallTier × Nat} {tiers : List WaterfallTier}

theorem WaterfallTier.rank_ne_nan (tier : WaterfallTier) : tier.rank ≠ .nan := tier.number.isNumber

/-- A tier before one of no higher score. -/
def scoresBefore (a b : WaterfallTier) : Bool := b.rank.le a.rank

theorem scoresBefore_trans (a b c : WaterfallTier) (hab : scoresBefore a b) (hbc : scoresBefore b c) : scoresBefore a c :=
  JsNumber.le_trans hbc hab

theorem scoresBefore_total (a b : WaterfallTier) : scoresBefore a b || scoresBefore b a :=
  JsNumber.le_total b.rank_ne_nan a.rank_ne_nan

/-- The comparison goes by the scores, and by the order of declaration where they are the same. -/
theorem precedes_eq (a b : WaterfallTier × Nat) : precedes a b = List.zipIdxLE scoresBefore a b := by
  obtain ⟨hsame, hless⟩ : (b.1.rank.sub a.1.rank = .finite 0 ∨ b.1.rank.sub a.1.rank = .nan ↔ a.1.rank = b.1.rank) ∧
      (a.1.rank ≠ b.1.rank → ((b.1.rank.sub a.1.rank).le (.finite 0) ↔ b.1.rank.lt a.1.rank)) :=
    OrderedDouble.sub_sign a.1.number b.1.number
  unfold precedes List.zipIdxLE scoresBefore
  by_cases heq : a.1.rank = b.1.rank
  · have hself := JsNumber.le_self b.1.rank_ne_nan
    dsimp only
    rw [if_pos (hsame.mpr heq), heq, if_pos hself, if_pos hself]
  · have hlt := lt_iff_not_le b.1.rank_ne_nan a.1.rank_ne_nan
    dsimp only
    rw [if_neg (fun h => heq (hsame.mp h)), Bool.eq_iff_iff, hless heq]
    by_cases hle : a.1.rank.le b.1.rank
    · have hgreater : ¬b.1.rank.le a.1.rank := by
        rw [JsNumber.le, Bool.or_eq_true, hlt, Bool.and_eq_true, decide_eq_true_eq]
        rintro (h | ⟨h, -⟩)
        · exact h hle
        · exact heq h.symm
      rw [if_neg hgreater]
      exact iff_of_false (fun h => hlt.mp h hle) Bool.false_ne_true
    · have hless' : b.1.rank.le a.1.rank :=
        (Bool.or_eq_true _ _ ▸ scoresBefore_total a.1 b.1).resolve_right hle
      rw [if_pos hless', if_neg hle]
      exact iff_of_true (hlt.mpr hle) rfl

theorem sortTiersByScore_eq (tiers : List WaterfallTier) : sortTiersByScore tiers = tiers.mergeSort scoresBefore := by
  rw [sortTiersByScore, funext₂ precedes_eq]
  exact List.mergeSort_zipIdx

/-- The tiers from the highest score to the lowest, those of one score as they were declared. -/
structure ScoreOrder (tiers sorted : List WaterfallTier) : Prop where
  perm : sorted.Perm tiers
  descending : sorted.Pairwise (fun a b => b.rank.le a.rank)
  stable : ∀ rank, sorted.filter (fun tier => tier.rank = rank) = tiers.filter (fun tier => tier.rank = rank)

theorem scoreOrder_sort (tiers : List WaterfallTier) : ScoreOrder tiers (sortTiersByScore tiers) := by
  rw [sortTiersByScore_eq]
  refine ⟨List.mergeSort_perm _ _, List.pairwise_mergeSort scoresBefore_trans scoresBefore_total tiers, fun rank => ?_⟩
  refine filter_mergeSort scoresBefore_trans scoresBefore_total (fun a _ b _ ha hb => ?_)
  rw [scoresBefore, of_decide_eq_true ha, of_decide_eq_true hb]
  exact JsNumber.le_self (of_decide_eq_true ha ▸ a.rank_ne_nan)

end Sorting

section Loop

variable {token : String} {tiers : List WaterfallTier} {available : Int} {config : WaterfallConfig} {p q : WaterfallPlan}

def minimums (tiers : List WaterfallTier) : List Int := tiers.map (fun tier => tier.minimumAmount)

theorem foldl_blocked (remaining : Int) (steps : List WaterfallStep) (tiers : List WaterfallTier) :
    tiers.foldl (disburse token) ⟨remaining, true, steps⟩ = ⟨remaining, true, steps ++ tiers.map (skipped token)⟩ := by
  induction tiers generalizing steps with
  | nil => rw [List.foldl_nil, List.map_nil, List.append_nil]
  | cons tier tiers ih =>
      rw [List.foldl_cons, disburse, if_pos (.inl rfl), ih, List.map_cons, List.append_assoc, List.singleton_append]

/-- The loop funds the tiers that the amount covers in turn and skips the others. -/
theorem foldl_disburse (remaining : Int) (steps : List WaterfallStep) (tiers : List WaterfallTier) :
    (tiers.foldl (disburse token) ⟨remaining, false, steps⟩).steps = steps ++
      ((tiers.take (affordable remaining (minimums tiers))).map (funded token) ++
        (tiers.drop (affordable remaining (minimums tiers))).map (skipped token)) ∧
    (tiers.foldl (disburse token) ⟨remaining, false, steps⟩).remaining =
      remaining - ((minimums tiers).take (affordable remaining (minimums tiers))).sum := by
  induction tiers generalizing remaining steps with
  | nil => exact ⟨(List.append_nil _).symm, (sub_zero _).symm⟩
  | cons tier tiers ih =>
      rw [List.foldl_cons, minimums, List.map_cons]
      rcases le_or_gt tier.minimumAmount remaining with hle | hlt
      · obtain ⟨hsteps, hremaining⟩ := ih (remaining - tier.minimumAmount) (steps ++ [funded token tier])
        rw [affordable_cons_of_le hle, disburse, if_neg (by simpa using hle)]
        refine ⟨hsteps.trans ?_, hremaining.trans ?_⟩
        · rw [List.append_assoc]
          rfl
        · rw [List.take_succ_cons, List.sum_cons, sub_sub]
          rfl
      · rw [affordable_cons_of_lt hlt, disburse, if_pos (.inr hlt), foldl_blocked]
        exact ⟨List.append_assoc _ _ _, (sub_zero _).symm⟩

/-- The first tiers of the order are funded in full, as many of them as the amount covers in turn, and nothing else is. -/
structure Pays (token : String) (available : Int) (sorted : List WaterfallTier) (p : WaterfallPlan) (k : Nat) : Prop where
  le_length : k ≤ sorted.length
  steps : p.steps = (sorted.take k).map (funded token) ++ (sorted.drop k).map (skipped token)
  allocated : p.totalAllocated = ((minimums sorted).take k).sum
  conserved : p.totalAllocated + p.remaining = available
  remaining_nonneg : 0 ≤ p.remaining
  longest : ∀ j ≤ sorted.length, ((minimums sorted).take j).sum ≤ available → j ≤ k

theorem plan_eq_ok_iff : plan token available config = .ok p ↔
    0 ≤ available ∧ (∀ tier ∈ config.tiers, 0 ≤ tier.minimumAmount) ∧ p = disbursed token available config := by
  unfold plan
  split_ifs with hneg
  · exact iff_of_false (by rintro ⟨⟩) (fun h => hneg.not_ge h.1)
  · cases hfind : config.tiers.find? (fun tier => tier.minimumAmount < 0) with
    | some tier =>
        have hlt := List.find?_some hfind
        refine iff_of_false (by rintro ⟨⟩) (fun h => ?_)
        exact (of_decide_eq_true hlt).not_ge (h.2.1 tier (List.mem_of_find?_eq_some hfind))
    | none =>
        rw [List.find?_eq_none] at hfind
        constructor
        · intro h
          exact ⟨not_lt.mp hneg, fun tier htier => not_lt.mp (by simpa using hfind tier htier), (Except.ok.inj h).symm⟩
        · rintro ⟨-, -, rfl⟩
          rfl

theorem minimums_nonneg (h : ∀ tier ∈ tiers, 0 ≤ tier.minimumAmount) : ∀ cost ∈ minimums tiers, 0 ≤ cost := by
  intro cost hcost
  obtain ⟨tier, htier, rfl⟩ := List.mem_map.mp hcost
  exact h tier htier

theorem sum_amounts (tiers others : List WaterfallTier) :
    ((tiers.map (funded token) ++ others.map (skipped token)).map (fun s => s.amount)).sum = (minimums tiers).sum := by
  rw [List.map_append, List.sum_append, List.map_map, List.map_map, minimums]
  exact (congrArg _ (List.sum_eq_zero (by simp [skipped]))).trans (add_zero _)

theorem disbursed_pays (havailable : 0 ≤ available) (hminimums : ∀ tier ∈ config.tiers, 0 ≤ tier.minimumAmount) :
    Pays token available (sortTiersByScore config.tiers) (disbursed token available config)
      (affordable available (minimums (sortTiersByScore config.tiers))) := by
  obtain ⟨sorted, hsorted⟩ : ∃ sorted, sorted = sortTiersByScore config.tiers := ⟨_, rfl⟩
  have hnonneg : ∀ cost ∈ minimums sorted, 0 ≤ cost :=
    minimums_nonneg (fun tier htier => hminimums tier ((scoreOrder_sort config.tiers).perm.mem_iff.mp (hsorted ▸ htier)))
  have hlength : (minimums sorted).length = sorted.length := List.length_map _
  obtain ⟨hsteps, hremaining⟩ := @foldl_disburse token available [] sorted
  rw [List.nil_append] at hsteps
  have hallocated : (disbursed token available config).totalAllocated =
      ((minimums sorted).take (affordable available (minimums sorted))).sum := by
    unfold disbursed
    dsimp only
    rw [← hsorted, hsteps, sum_amounts, minimums, minimums, List.map_take]
  have hremains : (disbursed token available config).remaining =
      available - ((minimums sorted).take (affordable available (minimums sorted))).sum := by
    rw [← hremaining, hsorted]
    rfl
  rw [← hsorted]
  refine ⟨hlength ▸ affordable_le_length _ _, ?_, hallocated, ?_, ?_, fun j hj hle => ?_⟩
  · rw [← hsteps, hsorted]
    rfl
  · rw [hallocated, hremains]
    exact add_sub_cancel _ _
  · rw [hremains]
    exact sub_nonneg.mpr (sum_take_le havailable _)
  · exact (le_affordable_iff havailable hnonneg (hlength ▸ hj)).mpr hle

/-- The plan is fully satisfied exactly when the amount covers all minimums. -/
theorem fullySatisfied_iff (havailable : 0 ≤ available) (hminimums : ∀ tier ∈ config.tiers, 0 ≤ tier.minimumAmount) :
    (disbursed token available config).fullySatisfied ↔ (minimums config.tiers).sum ≤ available := by
  have hperm := (scoreOrder_sort config.tiers).perm
  have hnonneg : ∀ cost ∈ minimums (sortTiersByScore config.tiers), 0 ≤ cost :=
    minimums_nonneg (fun tier htier => hminimums tier (hperm.mem_iff.mp htier))
  have hsum : (minimums (sortTiersByScore config.tiers)).sum = (minimums config.tiers).sum := (hperm.map _).sum_eq
  have hlength : (minimums (sortTiersByScore config.tiers)).length = (sortTiersByScore config.tiers).length := List.length_map _
  have hpays := @disbursed_pays token available config havailable hminimums
  have hall : (disbursed token available config).fullySatisfied =
      (disbursed token available config).steps.all (fun s => s.satisfied) := rfl
  rw [← hsum, ← affordable_eq_length_iff havailable hnonneg, hall, hpays.steps, List.all_append, List.all_map, List.all_map,
    Bool.and_eq_true, hlength]
  constructor
  · rintro ⟨-, hskipped⟩
    have hnone : (sortTiersByScore config.tiers).drop (affordable available (minimums (sortTiersByScore config.tiers))) = [] :=
      List.eq_nil_iff_forall_not_mem.mpr (fun tier htier => Bool.false_ne_true (List.all_eq_true.mp hskipped tier htier))
    exact hpays.le_length.antisymm (List.drop_eq_nil_iff.mp hnone)
  · intro heq
    rw [heq, List.drop_length]
    exact ⟨List.all_eq_true.mpr (fun _ _ => rfl), rfl⟩

/-- A configuration is refused exactly for a negative amount. A plan pays the tiers in the order of their scores, each in full, and as
many as the amount covers in turn; it is fully satisfied exactly when the amount covers all of them. -/
theorem plan_outcome (token : String) (available : Int) (config : WaterfallConfig) :
    ((∃ p, plan token available config = .ok p) ↔ 0 ≤ available ∧ ∀ tier ∈ config.tiers, 0 ≤ tier.minimumAmount) ∧
    ScoreOrder config.tiers (sortTiersByScore config.tiers) ∧
    ∀ p, plan token available config = .ok p →
      (∃ k, Pays token available (sortTiersByScore config.tiers) p k) ∧
      (p.fullySatisfied ↔ (minimums config.tiers).sum ≤ available) := by
  refine ⟨⟨fun ⟨p, hp⟩ => ?_, fun ⟨havailable, hminimums⟩ => ⟨_, plan_eq_ok_iff.mpr ⟨havailable, hminimums, rfl⟩⟩⟩,
    scoreOrder_sort config.tiers, fun p hp => ?_⟩
  · obtain ⟨havailable, hminimums, -⟩ := plan_eq_ok_iff.mp hp
    exact ⟨havailable, hminimums⟩
  · obtain ⟨havailable, hminimums, rfl⟩ := plan_eq_ok_iff.mp hp
    exact ⟨⟨_, disbursed_pays havailable hminimums⟩, fullySatisfied_iff havailable hminimums⟩

end Loop

section Comparison

variable {token : String} {tiers : List WaterfallTier} {available more : Int} {config : WaterfallConfig} {p q : WaterfallPlan}

/-- The same recipient gets no less. -/
structure NoWorse (s t : WaterfallStep) : Prop where
  recipient : s.recipient = t.recipient
  amount : s.amount ≤ t.amount
  satisfied : s.satisfied → t.satisfied

theorem noWorse_skipped_funded (tier : WaterfallTier) (h : 0 ≤ tier.minimumAmount) :
    NoWorse (skipped token tier) (funded token tier) :=
  ⟨rfl, h, fun _ => rfl⟩

theorem noWorse_steps (h : ∀ tier ∈ tiers, 0 ≤ tier.minimumAmount) {k l : Nat} (hkl : k ≤ l) :
    List.Forall₂ NoWorse ((tiers.take k).map (funded token) ++ (tiers.drop k).map (skipped token))
      ((tiers.take l).map (funded token) ++ (tiers.drop l).map (skipped token)) := by
  induction tiers generalizing k l with
  | nil =>
      rw [List.take_nil, List.take_nil, List.drop_nil, List.drop_nil]
      exact .nil
  | cons tier tiers ih =>
      have hrest : ∀ tier ∈ tiers, 0 ≤ tier.minimumAmount := fun t ht => h t (List.mem_cons_of_mem _ ht)
      cases l with
      | zero =>
          obtain rfl := Nat.le_zero.mp hkl
          exact .cons ⟨rfl, le_rfl, id⟩ (@ih hrest 0 0 le_rfl)
      | succ l =>
          cases k with
          | zero => exact .cons (noWorse_skipped_funded tier (h tier List.mem_cons_self)) (@ih hrest 0 l (Nat.zero_le l))
          | succ k => exact .cons ⟨rfl, le_rfl, id⟩ (ih hrest (Nat.succ_le_succ_iff.mp hkl))

/-- With more to pay, every recipient gets at least as much. -/
theorem more_funds (hp : plan token available config = .ok p) (hq : plan token more config = .ok q) (h : available ≤ more) :
    List.Forall₂ NoWorse p.steps q.steps ∧ p.totalAllocated ≤ q.totalAllocated := by
  obtain ⟨havailable, hminimums, rfl⟩ := plan_eq_ok_iff.mp hp
  obtain ⟨hmore, -, rfl⟩ := plan_eq_ok_iff.mp hq
  have hnonneg : ∀ tier ∈ sortTiersByScore config.tiers, 0 ≤ tier.minimumAmount :=
    fun tier htier => hminimums tier ((scoreOrder_sort config.tiers).perm.mem_iff.mp htier)
  have hk := affordable_mono h (minimums (sortTiersByScore config.tiers))
  have hpays := @disbursed_pays token available config havailable hminimums
  have hothers := @disbursed_pays token more config hmore hminimums
  refine ⟨?_, ?_⟩
  · rw [hpays.steps, hothers.steps]
    exact noWorse_steps hnonneg hk
  · rw [hpays.allocated, hothers.allocated]
    exact (List.take_sublist_take_left hk).sum_le_sum (fun cost hcost => minimums_nonneg hnonneg cost (List.mem_of_mem_take hcost))

/-- A tier that is covered in front of one that is not. -/
def twoTiers : WaterfallConfig where
  tiers := [{ recipient := "P", minimumAmount := 100 }, { recipient := "B", minimumAmount := 700 }]

theorem twoTiers_ok (available : Int) (h : 0 ≤ available) :
    plan "USDC" available twoTiers = .ok (disbursed "USDC" available twoTiers) :=
  plan_eq_ok_iff.mpr ⟨h, by decide, rfl⟩

theorem more_funds_two : (disbursed "USDC" 150 twoTiers).totalAllocated ≤ (disbursed "USDC" 800 twoTiers).totalAllocated :=
  (more_funds (twoTiers_ok 150 (by decide)) (twoTiers_ok 800 (by decide)) (by decide)).2

end Comparison

section Submission

variable {token invoiceId : String} {tiers : List WaterfallTier} {available : Int} {config : WaterfallConfig} {p : WaterfallPlan}
  {amounts : List Int}

/-- The amounts of the tiers that are paid anything. -/
def payments (costs : List Int) : List Int := costs.filter (fun cost => decide (0 < cost))

theorem sum_payments {costs : List Int} (h : ∀ cost ∈ costs, 0 ≤ cost) : (payments costs).sum = costs.sum := by
  induction costs with
  | nil => rfl
  | cons cost costs ih =>
      have hsum := ih (fun c hc => h c (List.mem_cons_of_mem _ hc))
      unfold payments at *
      rw [List.filter_cons, List.sum_cons]
      split_ifs with hpos
      · rw [List.sum_cons, hsum]
      · have hzero : cost = 0 := (not_lt.mp (fun hlt => hpos (decide_eq_true hlt))).antisymm (h cost List.mem_cons_self)
        rw [hsum, hzero, zero_add]

theorem filter_funded (k : Nat) :
    (((tiers.take k).map (funded token) ++ (tiers.drop k).map (skipped token)).filter
      (fun s => s.satisfied && decide (0 < s.amount))).map (fun s => s.amount) = payments ((minimums tiers).take k) := by
  have hskipped : ((tiers.drop k).map (skipped token)).filter (fun s => s.satisfied && decide (0 < s.amount)) = [] :=
    List.filter_eq_nil_iff.mpr (fun s hs => by
      obtain ⟨tier, -, rfl⟩ := List.mem_map.mp hs
      exact Bool.false_ne_true)
  rw [List.filter_append, hskipped, List.append_nil, List.filter_map, List.map_map, payments, minimums, ← List.map_take, List.filter_map]
  rfl

/-- What is submitted for a plan: nothing for one that leaves out tiers, unless that is allowed, and nothing without a payment. -/
theorem payOperations_ok_iff {k : Nat} (hsteps : p.steps = (tiers.take k).map (funded token) ++ (tiers.drop k).map (skipped token))
    (hall : p.fullySatisfied = p.steps.all (fun s => s.satisfied)) (allowPartial : Option Bool) :
    payOperations invoiceId p allowPartial = .ok amounts ↔
      (p.fullySatisfied ∨ (allowPartial.or p.allowPartial).getD false) ∧
      amounts = payments ((minimums tiers).take k) ∧ amounts ≠ [] := by
  have hany : p.steps.any (fun s => !s.satisfied) = !p.fullySatisfied := by
    rw [hall, List.not_all_eq_any_not]
  have hfiltered := @filter_funded token tiers k
  rw [← hsteps] at hfiltered
  unfold payOperations
  rw [hany, ← hfiltered]
  have hgate : (!p.fullySatisfied && !(allowPartial.or p.allowPartial).getD false) = true ↔
      ¬(p.fullySatisfied ∨ (allowPartial.or p.allowPartial).getD false) := by
    rw [Bool.and_eq_true, Bool.not_eq_true', Bool.not_eq_true', not_or, Bool.not_eq_true, Bool.not_eq_true]
  dsimp only
  by_cases hallowed : p.fullySatisfied ∨ (allowPartial.or p.allowPartial).getD false
  · rw [if_neg (fun h => hgate.mp h hallowed)]
    split_ifs with hnone
    · refine iff_of_false (by rintro ⟨⟩) (fun h => h.2.2 ?_)
      rw [h.2.1, hnone, List.map_nil]
    · constructor
      · intro h
        obtain rfl := Except.ok.inj h
        exact ⟨hallowed, rfl, fun hnil => hnone (List.map_eq_nil_iff.mp hnil)⟩
      · rintro ⟨-, rfl, -⟩
        rfl
  · rw [if_pos (hgate.mpr hallowed)]
    exact iff_of_false (by rintro ⟨⟩) (fun h => hallowed h.1)

/-- A plan is submitted exactly when it is allowed to leave out what it leaves out, as one payment for each of its tiers that is paid
anything, in their order; these come to what the plan has allocated. -/
theorem submit_allowed (hplan : plan token available config = .ok p) (invoiceId : String) (allowPartial : Option Bool) :
    ∃ k, Pays token available (sortTiersByScore config.tiers) p k ∧
      (∀ amounts, payOperations invoiceId p allowPartial = .ok amounts ↔
        ((minimums config.tiers).sum ≤ available ∨ (allowPartial.or config.allowPartial).getD false) ∧
        amounts = payments ((minimums (sortTiersByScore config.tiers)).take k) ∧ amounts ≠ []) ∧
      (payments ((minimums (sortTiersByScore config.tiers)).take k)).sum = p.totalAllocated := by
  obtain ⟨havailable, hminimums, rfl⟩ := plan_eq_ok_iff.mp hplan
  have hpays := @disbursed_pays token available config havailable hminimums
  have hnonneg : ∀ cost ∈ minimums (sortTiersByScore config.tiers), 0 ≤ cost :=
    minimums_nonneg (fun tier htier => hminimums tier ((scoreOrder_sort config.tiers).perm.mem_iff.mp htier))
  refine ⟨_, hpays, fun amounts => ?_, ?_⟩
  · rw [payOperations_ok_iff hpays.steps rfl allowPartial, fullySatisfied_iff havailable hminimums]
    rfl
  · rw [hpays.allocated]
    exact sum_payments (fun cost hcost => hnonneg cost (List.mem_of_mem_take hcost))

/-- Half of a plan, and only when that is allowed. -/
theorem submit_allowed_two : (¬∃ amounts, payOperations "7" (disbursed "USDC" 150 twoTiers) none = .ok amounts) ∧
    ∃ k, Pays "USDC" 150 (sortTiersByScore twoTiers.tiers) (disbursed "USDC" 150 twoTiers) k := by
  obtain ⟨k, hpays, hiff, -⟩ := submit_allowed (twoTiers_ok 150 (by decide)) "7" none
  refine ⟨fun ⟨amounts, hamounts⟩ => ?_, k, hpays⟩
  rcases ((hiff amounts).mp hamounts).1 with h | h
  · exact absurd h (by decide)
  · exact absurd h (by decide)

end Submission

end SplitSdk.WaterfallRouter
