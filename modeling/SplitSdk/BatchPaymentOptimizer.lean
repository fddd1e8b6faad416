import Mathlib.Data.Rat.Defs
import SplitSdk.GroupedFold
import SplitSdk.Numbers
import Mathlib.Tactic.Linarith

namespace SplitSdk.BatchPaymentOptimizer

open GroupedFold Numbers OrderedMap

structure PaymentOperation where
  id : String
  source : String
  destination : String
  amount : ℚ
  currency : String
  deriving DecidableEq

structure OptimizedBatch where
  operations : List PaymentOperation
  totalAmount : ℚ
  currency : String
  savings : Nat

/-- An option given as `undefined` is `some none`. -/
structure BatchPaymentOptimizerOptions where
  minBatchSize : Option (Option JsNumber) := none
  mergeDuplicates : Option (Option Bool) := none

/-- The options spread over the defaults: a given `undefined` stands, and it is
`NaN` in a comparison and false in a condition. -/
structure ResolvedOptions where
  minBatchSize : JsNumber
  mergeDuplicates : Bool

def resolveOptions (options : BatchPaymentOptimizerOptions) : ResolvedOptions :=
  ⟨(options.minBatchSize.getD (some (.finite 1))).getD .nan, (options.mergeDuplicates.getD (some true)).getD false⟩

def mergeKey (operation : PaymentOperation) : String :=
  operation.source ++ "|" ++ operation.destination ++ "|" ++ operation.currency

def merge : Option PaymentOperation → PaymentOperation → PaymentOperation
  | some existing, operation => { existing with amount := existing.amount + operation.amount }
  | none, operation => operation

/-- Merge operations that share the same source, destination and currency by
summing their amounts. -/
def mergeOperations (operations : List PaymentOperation) : List PaymentOperation :=
  (collect mergeKey merge operations).entries.map Prod.snd

def push (group : Option (List PaymentOperation)) (operation : PaymentOperation) : List PaymentOperation :=
  group.getD [] ++ [operation]

def batchOf (options : ResolvedOptions) (entry : String × List PaymentOperation) : Option OptimizedBatch :=
  if JsNumber.lt (.finite entry.2.length) options.minBatchSize then none
  else some
    { operations := entry.2
      totalAmount := (entry.2.map PaymentOperation.amount).sum
      currency := entry.1
      savings := if 1 < entry.2.length then entry.2.length - 1 else 0 }

/-- Group merged operations into batches keyed by currency. -/
def groupIntoBatches (options : ResolvedOptions) (operations : List PaymentOperation) : List OptimizedBatch :=
  (collect PaymentOperation.currency push operations).entries.filterMap (batchOf options)

def optimize (options : BatchPaymentOptimizerOptions) (operations : List PaymentOperation) : List OptimizedBatch :=
  let options := resolveOptions options
  groupIntoBatches options (if options.mergeDuplicates then mergeOperations operations else operations)

section Merging

theorem foldl_merge_some (operation : PaymentOperation) (operations : List PaymentOperation) :
    operations.foldl (fun existing op => some (merge existing op)) (some operation) =
      some { operation with amount := operation.amount + (operations.map PaymentOperation.amount).sum } := by
  induction operations generalizing operation with
  | nil => simp
  | cons op operations ih =>
      rw [List.foldl_cons, ih]
      simp [merge, add_assoc]

/-- The merged operation of a key is the first one with the amounts of all. -/
theorem get?_merged (operations : List PaymentOperation) (key : String) :
    (collect mergeKey merge operations).get? key =
      (operations.find? (fun op => mergeKey op = key)).map (fun first =>
        { first with amount := ((operations.filter (fun op => mergeKey op = key)).map PaymentOperation.amount).sum }) := by
  rw [get?_collect, ← List.head?_filter]
  cases operations.filter (fun op => mergeKey op = key) with
  | nil => rfl
  | cons first rest => exact foldl_merge_some first rest

/-- Merging leaves the first operation of every key, but for its amount. -/
theorem map_mergeOperations {δ : Type} (view : PaymentOperation → δ)
    (h : ∀ (op : PaymentOperation) (amount : ℚ), view { op with amount := amount } = view op)
    (operations : List PaymentOperation) :
    (mergeOperations operations).map view = (firsts mergeKey operations).map view := by
  rw [mergeOperations, List.map_map]
  exact map_collect mergeKey merge view view (fun _ => rfl) (fun existing _ => h existing _) operations

end Merging

section Grouping

theorem foldl_push (group operations : List PaymentOperation) :
    operations.foldl (fun group op => some (push group op)) (some group) = some (group ++ operations) := by
  induction operations generalizing group with
  | nil => simp
  | cons op operations ih =>
      rw [List.foldl_cons, ih]
      simp [push]

theorem get?_group (operations : List PaymentOperation) (currency : String) :
    (collect PaymentOperation.currency push operations).get? currency =
      if operations.filter (fun op => op.currency = currency) = [] then none
      else some (operations.filter (fun op => op.currency = currency)) := by
  rw [get?_collect]
  cases operations.filter (fun op => op.currency = currency) with
  | nil => rfl
  | cons first rest => exact foldl_push [first] rest

/-- The operations of a batch are those of its currency, in their order. -/
theorem mem_group {operations : List PaymentOperation} {entry : String × List PaymentOperation}
    (h : entry ∈ (collect PaymentOperation.currency push operations).entries) :
    entry.2 = operations.filter (fun op => op.currency = entry.1) := by
  have hget := OrdMap.get?_of_mem _ h
  rw [get?_group] at hget
  split_ifs at hget
  exact (Option.some_inj.mp hget).symm

theorem totalAmount_of_mem {options : ResolvedOptions} {operations : List PaymentOperation} {batch : OptimizedBatch}
    (h : batch ∈ groupIntoBatches options operations) :
    batch.operations = operations.filter (fun op => op.currency = batch.currency) ∧
      batch.totalAmount = (batch.operations.map PaymentOperation.amount).sum := by
  obtain ⟨entry, hentry, hbatch⟩ := List.mem_filterMap.mp h
  unfold batchOf at hbatch
  split at hbatch
  · cases hbatch
  obtain rfl := Option.some_inj.mp hbatch
  exact ⟨mem_group hentry, rfl⟩

end Grouping

end SplitSdk.BatchPaymentOptimizer

namespace SplitSdk.NetValue

open BatchPaymentOptimizer GroupedFold Numbers OrderedMap

structure Route where
  source : String
  destination : String
  currency : String
  deriving DecidableEq

def routeOf (operation : PaymentOperation) : Route := ⟨operation.source, operation.destination, operation.currency⟩

def netValue (route : Route) (operations : List PaymentOperation) : ℚ :=
  ((operations.filter (fun op => routeOf op = route)).map PaymentOperation.amount).sum

def batchedOperations (batches : List OptimizedBatch) : List PaymentOperation := batches.flatMap OptimizedBatch.operations

def PreservesNetValue (options : BatchPaymentOptimizerOptions) (operations : List PaymentOperation) : Prop :=
  ∀ route, netValue route (batchedOperations (optimize options operations)) = netValue route operations

section Condition

def routeKey (route : Route) : String := route.source ++ "|" ++ route.destination ++ "|" ++ route.currency

/-- The operations that stand for all others once those with equal keys are merged. -/
def representatives (options : ResolvedOptions) (operations : List PaymentOperation) : List PaymentOperation :=
  if options.mergeDuplicates then firsts mergeKey operations else operations

/-- A route has an operation, and enough operations of its currency are left to form a batch. -/
def Batched (options : ResolvedOptions) (operations : List PaymentOperation) (route : Route) : Prop :=
  (∃ op ∈ representatives options operations, routeOf op = route) ∧
    ¬JsNumber.lt (.finite ((representatives options operations).countP (fun op => op.currency = route.currency)))
      options.minBatchSize

instance (options : ResolvedOptions) (operations : List PaymentOperation) (route : Route) :
    Decidable (Batched options operations route) :=
  inferInstanceAs (Decidable (_ ∧ _))

/-- What the operations of other routes add to a route because their keys are equal to its key. -/
def strayValue (route : Route) (operations : List PaymentOperation) : ℚ :=
  ((operations.filter (fun op => mergeKey op = routeKey route ∧ routeOf op ≠ route)).map PaymentOperation.amount).sum

/-- A batched route gets nothing from other routes, and one in no batch has no net value. -/
def Lossless (options : ResolvedOptions) (operations : List PaymentOperation) : Prop :=
  ∀ route,
    (Batched options operations route → options.mergeDuplicates → strayValue route operations = 0) ∧
      (¬Batched options operations route → netValue route operations = 0)

end Condition

section Sums

variable (route : Route)

theorem netValue_append (ops ops' : List PaymentOperation) :
    netValue route (ops ++ ops') = netValue route ops + netValue route ops' := by
  rw [netValue, List.filter_append, List.map_append, List.sum_append]
  rfl

theorem netValue_eq_sum (operations : List PaymentOperation) :
    netValue route operations = (operations.map (fun op => if routeOf op = route then op.amount else 0)).sum := by
  induction operations with
  | nil => rfl
  | cons op operations ih =>
      rw [List.map_cons, List.sum_cons, ← ih, netValue, netValue, List.filter_cons]
      by_cases hr : routeOf op = route
      · simp [hr]
      · simp [hr]

theorem netValue_eq_zero {operations : List PaymentOperation} (h : ∀ op ∈ operations, routeOf op ≠ route) :
    netValue route operations = 0 := by
  have hnil : operations.filter (fun op => routeOf op = route) = [] :=
    List.filter_eq_nil_iff.mpr (fun op hop => by simpa using h op hop)
  rw [netValue, hnil]
  rfl

/-- Only the operations of a currency count for its routes. -/
theorem netValue_currency (operations : List PaymentOperation) :
    netValue route (operations.filter (fun op => op.currency = route.currency)) = netValue route operations := by
  rw [netValue, List.filter_filter]
  congr 2
  apply List.filter_congr
  intro op _
  by_cases hr : routeOf op = route
  · simp [← hr, routeOf]
  · simp [hr]

theorem mergeKey_eq_routeKey {op : PaymentOperation} (h : routeOf op = route) : mergeKey op = routeKey route := by
  subst h
  rfl

/-- The amounts under the key of a route are those of the route and of its strays. -/
theorem sum_key (operations : List PaymentOperation) :
    ((operations.filter (fun op => mergeKey op = routeKey route)).map PaymentOperation.amount).sum =
      netValue route operations + strayValue route operations := by
  induction operations with
  | nil => exact (add_zero 0).symm
  | cons op operations ih =>
      have hkey : routeOf op = route → mergeKey op = routeKey route := mergeKey_eq_routeKey route
      simp only [netValue, strayValue, List.filter_cons] at ih ⊢
      by_cases hr : routeOf op = route
      · simp [hr, hkey hr, ih, add_assoc]
      · by_cases hk : mergeKey op = routeKey route
        · simp [hr, hk, ih]
          ring
        · simp [hr, hk, ih]

end Sums

section Grouping

variable (options : ResolvedOptions) (operations : List PaymentOperation) (route : Route)

theorem netValue_batches (groups : List (String × List PaymentOperation)) :
    netValue route (batchedOperations (groups.filterMap (batchOf options))) =
      (groups.map (fun group => if JsNumber.lt (.finite group.2.length) options.minBatchSize then 0
        else netValue route group.2)).sum := by
  induction groups with
  | nil => rfl
  | cons group groups ih =>
      rw [List.map_cons, List.sum_cons, ← ih]
      by_cases hsmall : JsNumber.lt (.finite group.2.length) options.minBatchSize
      · have hnone : batchOf options group = none := if_pos hsmall
        rw [List.filterMap_cons_none hnone, if_pos hsmall, zero_add]
      · obtain ⟨batch, hbatch, hoperations⟩ : ∃ batch, batchOf options group = some batch ∧ batch.operations = group.2 :=
          ⟨_, if_neg hsmall, rfl⟩
        rw [if_neg hsmall, List.filterMap_cons_some hbatch, batchedOperations, List.flatMap_cons, netValue_append,
          hoperations]
        rfl

/-- Grouping keeps the net value of the routes whose currency has operations enough. -/
theorem netValue_groupIntoBatches :
    netValue route (batchedOperations (groupIntoBatches options operations)) =
      if JsNumber.lt (.finite (operations.countP (fun op => op.currency = route.currency))) options.minBatchSize
      then 0 else netValue route operations := by
  rw [groupIntoBatches, netValue_batches, sum_of_key _ route.currency]
  · rw [get?_group, List.countP_eq_length_filter]
    by_cases hnil : operations.filter (fun op => op.currency = route.currency) = []
    · have hzero : netValue route operations = 0 := by
        rw [← netValue_currency, hnil]
        rfl
      rw [if_pos hnil, hzero, ite_self]
      rfl
    · rw [if_neg hnil, Option.elim_some, netValue_currency]
  · intro group hgroup hne
    have hzero : netValue route group.2 = 0 := by
      rw [mem_group hgroup]
      refine netValue_eq_zero route (fun op hop hr => hne ?_)
      rw [← of_decide_eq_true (List.mem_filter.mp hop).2, ← hr]
      rfl
    rw [hzero, ite_self]

end Grouping

section Merging

variable (operations : List PaymentOperation) (route : Route)

theorem netValue_mergeOperations [Decidable (∃ op ∈ firsts mergeKey operations, routeOf op = route)] :
    netValue route (mergeOperations operations) =
      if ∃ op ∈ firsts mergeKey operations, routeOf op = route
      then netValue route operations + strayValue route operations else 0 := by
  rw [netValue_eq_sum, mergeOperations, List.map_map, sum_of_key _ (routeKey route)]
  · rw [get?_merged, ← find?_firsts, sum_key]
    cases hfirst : (firsts mergeKey operations).find? (fun op => mergeKey op = routeKey route) with
    | none =>
        rw [if_neg]
        · rfl
        · rintro ⟨op, hop, hr⟩
          have hkey := List.find?_eq_none.mp hfirst op hop
          exact hkey (decide_eq_true (mergeKey_eq_routeKey route hr))
    | some first =>
        have hkey : mergeKey first = routeKey route := of_decide_eq_true (List.find?_some hfirst :)
        have hled : (∃ op ∈ firsts mergeKey operations, routeOf op = route) ↔ routeOf first = route := by
          constructor
          · rintro ⟨op, hop, hr⟩
            have he := eq_of_mem_firsts mergeKey hop (List.mem_of_find?_eq_some hfirst)
              ((mergeKey_eq_routeKey route hr).trans hkey.symm)
            exact he ▸ hr
          · intro hr
            exact ⟨first, List.mem_of_find?_eq_some hfirst, hr⟩
        rw [Option.map_some, Option.elim_some]
        exact if_congr hled.symm rfl rfl
  · intro entry hentry hne
    have hget := OrdMap.get?_of_mem _ hentry
    rw [get?_merged, Option.map_eq_some_iff] at hget
    obtain ⟨first, hfirst, he⟩ := hget
    have hkey : mergeKey first = entry.1 := of_decide_eq_true (List.find?_some hfirst :)
    rw [Function.comp_apply, if_neg]
    intro hr
    apply hne
    rw [← mergeKey_eq_routeKey route hr, ← hkey, ← he]
    rfl

end Merging

section Preservation

variable (options : BatchPaymentOptimizerOptions) (operations : List PaymentOperation)

theorem countP_mergeOperations (currency : String) :
    (mergeOperations operations).countP (fun op => op.currency = currency) =
      (firsts mergeKey operations).countP (fun op => op.currency = currency) := by
  have hmap := map_mergeOperations PaymentOperation.currency (fun _ _ => rfl) operations
  have hcount := congrArg (List.countP (fun c => c = currency)) hmap
  rw [List.countP_map, List.countP_map] at hcount
  exact hcount

/-- What a route is worth in the batches. -/
theorem netValue_optimize (route : Route) :
    netValue route (batchedOperations (optimize options operations)) =
      if Batched (resolveOptions options) operations route then
        netValue route operations + if (resolveOptions options).mergeDuplicates then strayValue route operations else 0
      else 0 := by
  rw [optimize, netValue_groupIntoBatches]
  unfold Batched representatives
  by_cases hmerge : (resolveOptions options).mergeDuplicates
  · simp only [if_pos hmerge, countP_mergeOperations, netValue_mergeOperations]
    split_ifs with hfew hboth hled hboth hboth
    · exact absurd hfew hboth.2
    · rfl
    · rfl
    · exact absurd ⟨hled, hfew⟩ hboth
    · exact absurd hboth.1 hled
    · rfl
  · simp only [if_neg hmerge, add_zero]
    split_ifs with hfew hled hled
    · exact absurd hfew hled.2
    · rfl
    · rfl
    · exact netValue_eq_zero route (fun op hop hr => hled ⟨⟨op, hop, hr⟩, hfew⟩)

/-- Optimisation preserves the net value of every route exactly for the lists without loss. -/
theorem optimize_preserves_iff :
    PreservesNetValue options operations ↔ Lossless (resolveOptions options) operations := by
  refine forall_congr' (fun route => ?_)
  rw [netValue_optimize]
  split_ifs with hbatched hmerge
  · rw [add_eq_left]
    exact ⟨fun h => ⟨fun _ _ => h, fun hnot => absurd hbatched hnot⟩, fun h => h.1 hbatched hmerge⟩
  · rw [add_zero]
    exact iff_of_true rfl ⟨fun _ h => absurd h hmerge, fun hnot => absurd hbatched hnot⟩
  · exact ⟨fun h => ⟨fun hb => absurd hb hbatched, fun _ => h.symm⟩, fun h => (h.2 hbatched).symm⟩

def joined : PaymentOperation := ⟨"1", "a|b", "c", 1, "XLM"⟩

def split : PaymentOperation := ⟨"2", "a", "b|c", 2, "XLM"⟩

/-- Two routes whose names join to one key: the second payment goes to the first route. -/
theorem optimize_misroutes : ¬PreservesNetValue {} [joined, split] := by
  intro h
  have hroute := h (routeOf joined)
  revert hroute
  decide +kernel

end Preservation

end SplitSdk.NetValue
