import Mathlib.Data.List.Dedup
import SplitSdk.GroupedFold
import SplitSdk.RoundingMonotone
import SplitSdk.StableSorting

namespace SplitSdk.PaymentSettlement

open GroupedFold Numbers OrderedMap RoundingMonotone StableSorting

section Model

inductive OptimizationStrategy
  | minimizeFees
  | maximizeThroughput
  | balanced
  deriving DecidableEq

/-- A payment. A priority of `NaN`, for which the comparison below is no order, is left out. -/
structure PendingPayment where
  id : String
  payer : String
  recipient : String
  amount : Int
  priority : Option OrderedDouble := none

structure SettlementBatch where
  batchId : String
  payments : List PendingPayment
  totalAmount : Int
  estimatedFeeStroops : Nat
  recipients : List String

structure SettlementPlan where
  batches : List SettlementBatch
  totalPayments : Nat
  totalAmount : Int
  totalEstimatedFeeStroops : Nat
  operationsSaved : Int
  strategy : OptimizationStrategy

def BASE_FEE_PER_OP : Nat := 100

def MARGINAL_FEE_PER_OP : Nat := 50

def estimateBatchFee (operationCount : Nat) : Nat :=
  if operationCount = 0 then 0 else BASE_FEE_PER_OP + (operationCount - 1) * MARGINAL_FEE_PER_OP

def PendingPayment.number (payment : PendingPayment) : OrderedDouble := payment.priority.getD .zero

def PendingPayment.rank (payment : PendingPayment) : JsNumber := payment.number.value

/-- What the comparison gives for two payments is at most zero. -/
def comesBefore (a b : PendingPayment) : Bool :=
  if b.rank ≠ a.rank then (b.rank.sub a.rank).le (.finite 0) else b.amount ≤ a.amount

def reorderForOptimalSettlement (payments : List PendingPayment) : List PendingPayment := payments.mergeSort comesBefore

def batchOf (batchId : Nat) (group : String × List PendingPayment) : SettlementBatch :=
  let sorted := reorderForOptimalSettlement group.2
  { batchId := s!"batch-{batchId}"
    payments := sorted
    totalAmount := (sorted.map (fun p => p.amount)).sum
    estimatedFeeStroops := estimateBatchFee sorted.length
    recipients := [group.1] }

/-- The batches of the groups, and the counter of their ids. -/
def rawBatches (counter : Nat) : List (String × List PendingPayment) → List SettlementBatch
  | [] => []
  | group :: groups => batchOf (counter + 1) group :: rawBatches (counter + 1) groups

/-- What the comparison of a strategy gives for two batches is at most zero. -/
def precedes : OptimizationStrategy → SettlementBatch → SettlementBatch → Bool
  | .minimizeFees, a, b => a.estimatedFeeStroops ≤ b.estimatedFeeStroops
  | .maximizeThroughput, a, b => b.payments.length ≤ a.payments.length
  | .balanced, a, b => b.totalAmount ≤ a.totalAmount

def applyStrategy (batches : List SettlementBatch) (strategy : OptimizationStrategy) : List SettlementBatch :=
  batches.mergeSort (precedes strategy)

/-- The plan, by the number of batches that have been made before. -/
def optimize (counter : Nat) (payments : List PendingPayment) (strategy : OptimizationStrategy) : SettlementPlan :=
  if payments.length = 0 then ⟨[], 0, 0, 0, 0, strategy⟩
  else
    let grouped := groups (fun payment : PendingPayment => payment.recipient) payments
    let batches := applyStrategy (rawBatches counter grouped.entries) strategy
    let totalPayments := (batches.map (fun b => b.payments.length)).sum
    { batches
      totalPayments
      totalAmount := (batches.map (fun b => b.totalAmount)).sum
      totalEstimatedFeeStroops := (batches.map (fun b => b.estimatedFeeStroops)).sum
      operationsSaved := totalPayments - batches.length
      strategy }

end Model

section Orders

variable {a b : PendingPayment}

theorem comesBefore_iff : comesBefore a b ↔ b.rank.lt a.rank ∨ a.rank = b.rank ∧ b.amount ≤ a.amount := by
  obtain ⟨-, hless⟩ := OrderedDouble.sub_sign a.number b.number
  unfold comesBefore
  split_ifs with hne
  · refine (hless (Ne.symm hne)).trans ⟨.inl, fun h => h.resolve_right (fun h => hne h.1.symm)⟩
  · have heq : b.rank = a.rank := not_not.mp hne
    rw [decide_eq_true_eq]
    refine ⟨fun h => .inr ⟨heq.symm, h⟩, fun h => (h.resolve_left (fun hlt => ?_)).2⟩
    rw [heq] at hlt
    exact (lt_iff_not_le a.number.isNumber a.number.isNumber).mp hlt (JsNumber.le_self a.number.isNumber)

theorem lt_or_eq_or_lt (x y : OrderedDouble) : x.value.lt y.value ∨ x.value = y.value ∨ y.value.lt x.value := by
  by_cases hxy : x.value.lt y.value
  · exact .inl hxy
  · have hle := (lt_iff_not_le x.isNumber y.isNumber).not_left.mp hxy
    rw [JsNumber.le, Bool.or_eq_true, Bool.and_eq_true, decide_eq_true_eq] at hle
    exact .inr (hle.symm.imp (fun h => h.1.symm) id)

theorem comesBefore_total (a b : PendingPayment) : comesBefore a b || comesBefore b a := by
  rw [Bool.or_eq_true, comesBefore_iff, comesBefore_iff]
  rcases lt_or_eq_or_lt a.number b.number with h | h | h
  · exact .inr (.inl h)
  · exact (le_total b.amount a.amount).imp (fun hle => .inr ⟨h, hle⟩) (fun hle => .inr ⟨h.symm, hle⟩)
  · exact .inl (.inl h)

theorem comesBefore_trans (a b c : PendingPayment) (hab : comesBefore a b) (hbc : comesBefore b c) : comesBefore a c := by
  rw [comesBefore_iff] at *
  rcases hab with hab | ⟨hab, hle⟩
  · rcases hbc with hbc | ⟨hbc, -⟩
    · exact .inl (lt_le_trans hbc (by rw [JsNumber.le, hab, Bool.true_or]))
    · exact .inl (hbc ▸ hab)
  · rcases hbc with hbc | ⟨hbc, hle'⟩
    · exact .inl (hab ▸ hbc)
    · exact .inr ⟨hab.trans hbc, hle'.trans hle⟩

theorem precedes_total (strategy : OptimizationStrategy) (a b : SettlementBatch) :
    precedes strategy a b || precedes strategy b a := by
  cases strategy <;> simp only [precedes, Bool.or_eq_true, decide_eq_true_eq] <;> exact le_total _ _

theorem precedes_trans (strategy : OptimizationStrategy) (a b c : SettlementBatch) (hab : precedes strategy a b)
    (hbc : precedes strategy b c) : precedes strategy a c := by
  cases strategy <;> simp only [precedes, decide_eq_true_eq] at * <;> omega

end Orders

section Plans

variable {counter : Nat} {payments : List PendingPayment} {strategy : OptimizationStrategy} {entries : List (String × List PendingPayment)}

theorem map_rawBatches {β : Type} (f : SettlementBatch → β) (g : String × List PendingPayment → β) (h : ∀ id group, f (batchOf id group) = g group)
    (counter : Nat) (entries : List (String × List PendingPayment)) : (rawBatches counter entries).map f = entries.map g := by
  induction entries generalizing counter with
  | nil => rfl
  | cons group entries ih => rw [rawBatches, List.map_cons, List.map_cons, h, ih]

theorem mem_rawBatches {batch : SettlementBatch} (h : batch ∈ rawBatches counter entries) :
    ∃ id, ∃ group ∈ entries, batch = batchOf id group := by
  induction entries generalizing counter with
  | nil => exact absurd h List.not_mem_nil
  | cons group entries ih =>
      rcases List.mem_cons.mp h with rfl | h
      · exact ⟨_, group, List.mem_cons_self, rfl⟩
      · obtain ⟨id, other, hmem, heq⟩ := ih h
        exact ⟨id, other, List.mem_cons_of_mem _ hmem, heq⟩

/-- All payments to a recipient, in the order of settlement, with what they come to and cost. -/
structure Settles (payments : List PendingPayment) (batch : SettlementBatch) : Prop where
  recipient : ∃ r, batch.recipients = [r] ∧ batch.payments.Perm (payments.filter (fun p => p.recipient = r))
  ne_nil : batch.payments ≠ []
  ordered : batch.payments.Pairwise (fun a b => comesBefore a b)
  total : batch.totalAmount = (batch.payments.map (fun p => p.amount)).sum
  fee : batch.estimatedFeeStroops = estimateBatchFee batch.payments.length

theorem reorder_perm (payments : List PendingPayment) : (reorderForOptimalSettlement payments).Perm payments :=
  List.mergeSort_perm payments comesBefore

def recipientGroups (payments : List PendingPayment) : OrdMap String (List PendingPayment) :=
  groups (fun payment : PendingPayment => payment.recipient) payments

/-- Plans are made of all groups; that there is none without a payment needs no case of its own. -/
theorem optimize_eq (counter : Nat) (payments : List PendingPayment) (strategy : OptimizationStrategy) :
    ∃ batches, batches.Perm (rawBatches counter (recipientGroups payments).entries) ∧ batches.Pairwise (fun a b => precedes strategy a b) ∧
      optimize counter payments strategy = {
        batches
        totalPayments := (batches.map (fun b => b.payments.length)).sum
        totalAmount := (batches.map (fun b => b.totalAmount)).sum
        totalEstimatedFeeStroops := (batches.map (fun b => b.estimatedFeeStroops)).sum
        operationsSaved := (batches.map (fun b => b.payments.length)).sum - batches.length
        strategy } := by
  unfold optimize
  split_ifs with hnil
  · obtain rfl := List.length_eq_zero_iff.mp hnil
    exact ⟨[], .refl _, .nil, rfl⟩
  · exact ⟨_, List.mergeSort_perm _ _, List.pairwise_mergeSort (precedes_trans strategy) (precedes_total strategy) _, rfl⟩

theorem settles_rawBatches {batch : SettlementBatch} (h : batch ∈ rawBatches counter (recipientGroups payments).entries) :
    Settles payments batch := by
  obtain ⟨id, ⟨r, group⟩, hgroup, rfl⟩ := mem_rawBatches h
  obtain ⟨hfilter, hne⟩ := mem_groups _ hgroup
  refine ⟨⟨r, rfl, (reorder_perm group).trans (.of_eq hfilter)⟩, fun hnil => hne ?_,
    List.pairwise_mergeSort comesBefore_trans comesBefore_total group, rfl, rfl⟩
  exact List.nil_perm.mp ((List.Perm.of_eq hnil.symm).trans (reorder_perm group))

theorem flatten_rawBatches (counter : Nat) (payments : List PendingPayment) :
    ((rawBatches counter (recipientGroups payments).entries).map (fun b => b.payments)).flatten.Perm payments := by
  rw [map_rawBatches _ (fun group => reorderForOptimalSettlement group.2) (fun _ _ => rfl), ← List.flatMap_def]
  refine (List.Perm.flatMap_left _ (fun group _ => reorder_perm group.2)).trans ?_
  rw [List.flatMap_def]
  exact flatten_groups _ payments

theorem batchIds_rawBatches (counter : Nat) (entries : List (String × List PendingPayment)) :
    (rawBatches counter entries).map (fun b => b.batchId) = (List.range' (counter + 1) entries.length).map (fun id => s!"batch-{id}") := by
  induction entries generalizing counter with
  | nil => rfl
  | cons group entries ih => rw [rawBatches, List.map_cons, ih, List.length_cons, List.range'_succ, List.map_cons, batchOf]

theorem recipients_rawBatches (counter : Nat) (payments : List PendingPayment) :
    ((rawBatches counter (recipientGroups payments).entries).map (fun b => b.recipients)).flatten.Perm
      (payments.map (fun p => p.recipient)).dedup := by
  rw [map_rawBatches _ (fun group => [group.1]) (fun _ _ => rfl), ← List.flatMap_def]
  have hsingle := List.flatMap_pure_eq_map Prod.fst (recipientGroups payments).entries
  refine (List.Perm.of_eq hsingle).trans ?_
  refine (List.perm_ext_iff_of_nodup (recipientGroups payments).nodup (List.nodup_dedup _)).mpr (fun r => ?_)
  have hkeys : (recipientGroups payments).keys = (firsts (fun p => p.recipient) payments).map (fun p => p.recipient) :=
    keys_collect _ _ payments
  rw [List.mem_dedup, ← mem_map_firsts _ payments, ← hkeys]
  rfl

end Plans

section Costs

theorem estimateBatchFee_eq (operationCount : Nat) :
    estimateBatchFee operationCount = MARGINAL_FEE_PER_OP * operationCount + if operationCount = 0 then 0 else MARGINAL_FEE_PER_OP := by
  rw [estimateBatchFee, BASE_FEE_PER_OP, MARGINAL_FEE_PER_OP]
  split_ifs <;> omega

/-- A division costs the more the more of its parts have a payment. -/
theorem sum_fees (parts : List (List PendingPayment)) :
    (parts.map (fun part => estimateBatchFee part.length)).sum =
      MARGINAL_FEE_PER_OP * (parts.flatten.length + (parts.filter (fun part => part ≠ [])).length) := by
  induction parts with
  | nil => rfl
  | cons part parts ih =>
      rw [List.map_cons, List.sum_cons, ih, estimateBatchFee_eq, List.flatten_cons, List.length_append, List.filter_cons]
      by_cases hnil : part = []
      · simp [hnil]
      · have hpos : part.length ≠ 0 := mt List.length_eq_zero_iff.mp hnil
        simp only [if_neg hpos, hnil, ne_eq, not_false_eq_true, decide_true, if_true, List.length_cons]
        ring

end Costs

section Results

variable {payments : List PendingPayment}

/-- A plan settles every payment once: a batch for each recipient, in the order of the strategy. -/
theorem optimize_partition (counter : Nat) (payments : List PendingPayment) (strategy : OptimizationStrategy) :
    let plan := optimize counter payments strategy
    let recipients := (payments.map (fun p => p.recipient)).dedup
    (plan.batches.map (fun b => b.payments)).flatten.Perm payments ∧
      (plan.batches.map (fun b => b.recipients)).flatten.Perm recipients ∧
      (plan.batches.map (fun b => b.batchId)).Perm ((List.range' (counter + 1) recipients.length).map (fun id => s!"batch-{id}")) ∧
      (∀ batch ∈ plan.batches, Settles payments batch) ∧ plan.batches.Pairwise (fun a b => precedes strategy a b) ∧
      plan.totalAmount = (payments.map (fun p => p.amount)).sum ∧ plan.totalPayments = payments.length ∧
      plan.operationsSaved = payments.length - recipients.length := by
  obtain ⟨batches, hperm, hordered, hplan⟩ := optimize_eq counter payments strategy
  have hsettles : ∀ batch ∈ batches, Settles payments batch := fun batch h => settles_rawBatches (hperm.mem_iff.mp h)
  have hpayments := (hperm.map (fun b => b.payments)).flatten.trans (flatten_rawBatches counter payments)
  have hrecipients := (hperm.map (fun b => b.recipients)).flatten.trans (recipients_rawBatches counter payments)
  have hsize : (recipientGroups payments).entries.length = (payments.map (fun p => p.recipient)).dedup.length := by
    rw [← (recipients_rawBatches counter payments).length_eq, map_rawBatches _ (fun group => [group.1]) (fun _ _ => rfl),
      ← List.flatMap_def]
    exact ((congrArg List.length (List.flatMap_pure_eq_map Prod.fst _)).trans (List.length_map _)).symm
  have hlength : batches.length = (payments.map (fun p => p.recipient)).dedup.length := by
    rw [hperm.length_eq, ← hsize, ← List.length_map (fun b => b.batchId), batchIds_rawBatches, List.length_map, List.length_range']
  have htotal : (batches.map (fun b => b.payments.length)).sum = payments.length := by
    rw [← hpayments.length_eq, List.length_flatten, List.map_map]
    rfl
  have hamount : (batches.map (fun b => b.totalAmount)).sum = (payments.map (fun p => p.amount)).sum := by
    rw [← (hpayments.map (fun p => p.amount)).sum_eq, List.map_flatten, List.sum_flatten, List.map_map, List.map_map]
    exact congrArg List.sum (List.map_congr_left (fun batch h => (hsettles batch h).total))
  rw [hplan]
  refine ⟨hpayments, hrecipients, ?_, hsettles, hordered, hamount, htotal, ?_⟩
  · rw [← hsize, ← batchIds_rawBatches]
    exact hperm.map _
  · rw [htotal, hlength]

/-- No division of the payments among transactions to one recipient each is estimated at less. -/
theorem fee_minimal (counter : Nat) (strategy : OptimizationStrategy) {parts : List (List PendingPayment)} (hparts : parts.flatten.Perm payments)
    (hsame : ∀ part ∈ parts, ∀ p ∈ part, ∀ q ∈ part, p.recipient = q.recipient) :
    (optimize counter payments strategy).totalEstimatedFeeStroops ≤ (parts.map (fun part => estimateBatchFee part.length)).sum := by
  obtain ⟨batches, hperm, -, hplan⟩ := optimize_eq counter payments strategy
  have hflatten := (hperm.map (fun b => b.payments)).flatten.trans (flatten_rawBatches counter payments)
  have hfees : batches.map (fun b => b.estimatedFeeStroops) = (batches.map (fun b => b.payments)).map (fun part => estimateBatchFee part.length) := by
    rw [List.map_map]
    exact List.map_congr_left (fun batch h => (settles_rawBatches (hperm.mem_iff.mp h)).fee)
  have hcount : ((batches.map (fun b => b.payments)).filter (fun part => part ≠ [])).length ≤ (recipientGroups payments).size := by
    refine (List.length_filter_le _ _).trans (Nat.le_of_eq ?_)
    rw [List.length_map, hperm.length_eq, ← List.length_map (fun b => b.batchId), batchIds_rawBatches, List.length_map, List.length_range']
    rfl
  have hleast : (recipientGroups payments).size ≤ (parts.filter (fun part => part ≠ [])).length := by
    refine size_groups_le _ ?_ (fun part h => hsame part (List.mem_of_mem_filter h))
    rwa [List.flatten_filter_ne_nil]
  rw [hplan, hfees, sum_fees, sum_fees, hflatten.length_eq, hparts.length_eq]
  exact Nat.mul_le_mul_left _ (Nat.add_le_add_left (hcount.trans hleast) _)

def samplePayments : List PendingPayment :=
  [⟨"a", "P", "R", 5, none⟩, ⟨"b", "P", "S", 7, none⟩, ⟨"c", "P", "R", 9, none⟩]

theorem fee_minimal_three :
    (optimize 0 samplePayments .balanced).totalEstimatedFeeStroops ≤
      ((samplePayments.map (fun p => [p])).map (fun part => estimateBatchFee part.length)).sum :=
  fee_minimal 0 .balanced (.of_eq rfl) (fun part hpart p hp q hq => by
    obtain ⟨payment, -, rfl⟩ := List.mem_map.mp hpart
    rw [List.mem_singleton.mp hp, List.mem_singleton.mp hq])

end Results

end SplitSdk.PaymentSettlement
