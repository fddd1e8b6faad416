import SplitSdk.AmmCalculator
import SplitSdk.ConstantProduct

namespace SplitSdk.AmmRouting

open AmmCalculator

section Data

structure RoutingPool where
  id : String
  reserves : List Reserve

structure RouteHop where
  poolId : String
  inputAsset : String
  outputAsset : String
  inputAmount : String
  outputAmount : String
  priceImpactPercent : String
  deriving DecidableEq

structure SwapRoute where
  hops : List RouteHop
  inputAsset : String
  outputAsset : String
  inputAmount : String
  outputAmount : String
  totalPriceImpactPercent : String
  deriving DecidableEq

end Data

section Routing

variable (inputAsset outputAsset inputAmount : String)

/-- The route of one hop through a pool. -/
def routeThrough (pool : RoutingPool) (outputAmount priceImpactPercent : String) : SwapRoute where
  hops := [⟨pool.id, inputAsset, outputAsset, inputAmount, outputAmount, priceImpactPercent⟩]
  inputAsset := inputAsset
  outputAsset := outputAsset
  inputAmount := inputAmount
  outputAmount := outputAmount
  totalPriceImpactPercent := priceImpactPercent

def has (pool : RoutingPool) (asset : String) : Bool := pool.reserves.any (fun r => r.asset = asset)

/-- A turn of the loop; the estimate's own output asset is not looked at. -/
def better (best : Option SwapRoute) (pool : RoutingPool) : Except Failure (Option SwapRoute) :=
  if !has pool inputAsset || !has pool outputAsset then .ok best
  else match estimateSwapOutput pool.reserves inputAmount inputAsset defaultMaxInputRatio with
    | .error _ => .ok best
    | .ok estimate => do
        let outputAmount ← bigInt estimate.outputAmount
        if outputAmount ≤ 0 then return best
        else
          let route := routeThrough inputAsset outputAsset inputAmount pool estimate.outputAmount
            estimate.priceImpactPercent
          match best with
          | none => return some route
          | some held => do
              let heldAmount ← bigInt held.outputAmount
              return if heldAmount < outputAmount then some route else best

def findBestRoute (pools : List RoutingPool) : Except Failure (Option SwapRoute) :=
  if inputAsset = outputAsset then .ok none else pools.foldlM (better inputAsset outputAsset inputAmount) none

end Routing

end SplitSdk.AmmRouting

namespace SplitSdk.BestRoute

open AmmCalculator AmmRouting BigIntText ConstantProduct Fallible

section Statement

variable (inputAsset outputAsset inputAmount : String) (amount : Int)

/-- What comes out of one reserve for an amount that goes into another one. -/
def outputFor (input output : Option Reserve) : Option Int :=
  match input.bind (fun r => ofString r.amount), output.bind (fun r => ofString r.amount) with
  | some x, some y =>
      if 0 < x ∧ 0 < y ∧ ratioExceedsLimit amount x defaultMaxInputRatio = .ok false then
        some (y - (x * y).tdiv (x + amount))
      else none
  | _, _ => none

def reserveOf (pool : RoutingPool) (asset : String) : Option Reserve := pool.reserves.find? (fun r => r.asset = asset)

/-- The reserve that is taken for that of the output asset. -/
def firstOther (pool : RoutingPool) : Option Reserve := pool.reserves.find? (fun r => r.asset ≠ inputAsset)

/-- What a pool gives for the swap, if it can serve it. -/
def served (pool : RoutingPool) : Option Int :=
  outputFor amount (reserveOf pool inputAsset) (reserveOf pool outputAsset)

/-- A route through a pool with some output. -/
def Names (route : SwapRoute) (pool : RoutingPool) (output : Int) : Prop :=
  ∃ impact, route = routeThrough inputAsset outputAsset inputAmount pool (toString output) impact

/-- There is no route where no pool has an output, and otherwise one with the largest output. -/
def Largest (output : RoutingPool → Option Int) (pools : List RoutingPool) (route : Option SwapRoute) : Prop :=
  (route = none ∧ ∀ pool ∈ pools, output pool = none) ∨
    ∃ found pool out, route = some found ∧ pool ∈ pools ∧ output pool = some out ∧
      Names inputAsset outputAsset inputAmount found pool out ∧ ∀ other ∈ pools, ∀ o ∈ output other, o ≤ out

def Best (pools : List RoutingPool) : Prop :=
  ∃ route, findBestRoute inputAsset outputAsset inputAmount pools = .ok route ∧
    Largest inputAsset outputAsset inputAmount (served inputAsset outputAsset amount) pools route

/-- If a pool has both assets, its first reserve of another asset than the input gives what the output asset's reserve gives. -/
def WellRead (pool : RoutingPool) : Prop :=
  has pool inputAsset → has pool outputAsset →
    outputFor amount (reserveOf pool inputAsset) (firstOther inputAsset pool) = served inputAsset outputAsset amount pool

/-- What a pool that has both assets gives in its first reserve of another asset than the input. -/
def reading (pool : RoutingPool) : Option Int :=
  if has pool inputAsset ∧ has pool outputAsset then
    outputFor amount (reserveOf pool inputAsset) (firstOther inputAsset pool)
  else none

/-- The pool is the first one with the largest reading. -/
def Leads (pools : List RoutingPool) (pool : RoutingPool) (out : Int) : Prop :=
  pools.find? (fun p => reading inputAsset outputAsset amount p = some out) = some pool ∧
    ∀ other ∈ pools, ∀ o ∈ reading inputAsset outputAsset amount other, o ≤ out

/-- The first pool with the largest reading gives this much of the output asset too, and no pool gives more. -/
def LeaderServes (pools : List RoutingPool) : Prop :=
  ((∀ pool ∈ pools, reading inputAsset outputAsset amount pool = none) →
      ∀ pool ∈ pools, served inputAsset outputAsset amount pool = none) ∧
    ∀ pool out, Leads inputAsset outputAsset amount pools pool out →
      (∃ named ∈ pools, named.id = pool.id ∧ served inputAsset outputAsset amount named = some out) ∧
        ∀ other ∈ pools, ∀ o ∈ served inputAsset outputAsset amount other, o ≤ out

end Statement

section Reading

variable {inputAsset outputAsset inputAmount : String} {amount : Int} {pool : RoutingPool}

theorem served_of_not_has (h : ¬(has pool inputAsset ∧ has pool outputAsset)) :
    served inputAsset outputAsset amount pool = none := by
  have hnone {asset : String} (hasset : ¬has pool asset) : reserveOf pool asset = none := by
    rw [reserveOf, List.find?_eq_none]
    intro r hr heq
    exact hasset (List.any_eq_true.mpr ⟨r, hr, heq⟩)
  rw [served, outputFor]
  rcases not_and_or.mp h with hinput | houtput
  · rw [hnone hinput]
    rfl
  · rw [hnone houtput]
    cases (reserveOf pool inputAsset).bind (fun r => ofString r.amount) <;> rfl

theorem wellRead_iff :
    WellRead inputAsset outputAsset amount pool ↔
      reading inputAsset outputAsset amount pool = served inputAsset outputAsset amount pool := by
  by_cases hboth : has pool inputAsset ∧ has pool outputAsset
  · rw [reading, if_pos hboth]
    exact ⟨fun h => h hboth.1 hboth.2, fun h _ _ => h⟩
  · rw [reading, if_neg hboth, served_of_not_has hboth]
    exact iff_of_true (fun hinput houtput => absurd ⟨hinput, houtput⟩ hboth) rfl

theorem output_pos {x y : Int} (hx : 0 < x) (hy : 0 < y) (hamount : 0 < amount) : 0 < y - (x * y).tdiv (x + amount) := by
  have hproduct := mul_pos hx hy
  have hlt : x * y < y * (x + amount) := by
    rw [mul_add, mul_comm y x]
    have := mul_pos hy hamount
    omega
  rw [Int.tdiv_eq_ediv_of_nonneg hproduct.le, sub_pos]
  exact Int.ediv_lt_of_lt_mul (by omega) hlt

theorem length_of_has (hne : inputAsset ≠ outputAsset) (h : has pool inputAsset ∧ has pool outputAsset) :
    2 ≤ pool.reserves.length := by
  obtain ⟨a, ha, hinput⟩ := List.any_eq_true.mp h.1
  obtain ⟨b, hb, houtput⟩ := List.any_eq_true.mp h.2
  have hdistinct : a ≠ b := by
    rintro rfl
    exact hne ((of_decide_eq_true hinput).symm.trans (of_decide_eq_true houtput))
  rcases hreserves : pool.reserves with _ | ⟨c, _ | ⟨d, reserves⟩⟩
  · rw [hreserves] at ha
    cases ha
  · rw [hreserves, List.mem_singleton] at ha hb
    exact absurd (ha.trans hb.symm) hdistinct
  · simp

variable (hne : inputAsset ≠ outputAsset) (hamount : ofString inputAmount = some amount) (hpos : 0 < amount)

include hne hamount hpos

/-- The estimate of a pool with both assets is made exactly where the reserves read have an output, and is this output. -/
theorem estimate_reading (h : has pool inputAsset ∧ has pool outputAsset) :
    match reading inputAsset outputAsset amount pool with
    | none => ∃ failure, estimateSwapOutput pool.reserves inputAmount inputAsset defaultMaxInputRatio = .error failure
    | some out => 0 < out ∧ ∃ estimate,
        estimateSwapOutput pool.reserves inputAmount inputAsset defaultMaxInputRatio = .ok estimate ∧
          estimate.outputAmount = toString out := by
  obtain ⟨input, hinput⟩ : ∃ input, reserveOf pool inputAsset = some input := by
    obtain ⟨a, ha, heq⟩ := List.any_eq_true.mp h.1
    exact Option.isSome_iff_exists.mp (List.find?_isSome.mpr ⟨a, ha, heq⟩)
  obtain ⟨output, houtput⟩ : ∃ output, firstOther inputAsset pool = some output := by
    obtain ⟨b, hb, heq⟩ := List.any_eq_true.mp h.2
    refine Option.isSome_iff_exists.mp (List.find?_isSome.mpr ⟨b, hb, decide_eq_true ?_⟩)
    exact (of_decide_eq_true heq).trans_ne hne.symm
  have hlength := length_of_has hne h
  rw [reading, if_pos h, hinput, houtput, estimateSwapOutput, if_neg (by omega)]
  rw [reserveOf] at hinput
  rw [firstOther] at houtput
  simp only [hinput, houtput, outputFor, Option.bind_some, bigInt]
  cases hx : ofString input.amount with
  | none => exact ⟨_, rfl⟩
  | some x =>
      cases hy : ofString output.amount with
      | none => exact ⟨_, rfl⟩
      | some y =>
          simp only [hamount]
          dsimp only [bind, Except.bind]
          by_cases hzero : x ≤ 0 ∨ y ≤ 0
          · rw [if_neg (by omega), if_pos hzero]
            exact ⟨_, rfl⟩
          rw [if_neg hzero, if_neg (not_le.mpr hpos)]
          rw [not_or, not_le, not_le] at hzero
          cases hlimit : ratioExceedsLimit amount x defaultMaxInputRatio with
          | error failure =>
              rw [if_neg (by simp)]
              exact ⟨_, rfl⟩
          | ok exceeds =>
              cases exceeds with
              | true =>
                  rw [if_neg (by simp)]
                  exact ⟨_, rfl⟩
              | false =>
                  rw [if_pos ⟨hzero.1, hzero.2, rfl⟩]
                  obtain ⟨estimate, hestimate, hout⟩ := swapEstimate_ok inputAsset output.asset x y amount
                  exact ⟨output_pos hzero.1 hzero.2 hpos, estimate, hestimate, hout⟩

end Reading

section Search

variable {inputAsset outputAsset inputAmount : String} {amount : Int} {pools : List RoutingPool} {pool : RoutingPool}

theorem Leads.reading {out : Int} (h : Leads inputAsset outputAsset amount pools pool out) :
    pool ∈ pools ∧ reading inputAsset outputAsset amount pool = some out :=
  ⟨List.mem_of_find?_eq_some h.1, by simpa using List.find?_some h.1⟩

theorem Leads.unique {other : RoutingPool} {out o : Int} (h : Leads inputAsset outputAsset amount pools pool out)
    (ho : Leads inputAsset outputAsset amount pools other o) : pool = other ∧ out = o := by
  obtain rfl : out = o := le_antisymm (ho.2 _ h.reading.1 _ h.reading.2) (h.2 _ ho.reading.1 _ ho.reading.2)
  exact ⟨Option.some.inj (h.1.symm.trans ho.1), rfl⟩

theorem Leads.append {out : Int} (h : Leads inputAsset outputAsset amount pools pool out) {other : RoutingPool}
    (hle : ∀ o ∈ BestRoute.reading inputAsset outputAsset amount other, o ≤ out) :
    Leads inputAsset outputAsset amount (pools ++ [other]) pool out := by
  constructor
  · rw [List.find?_append, h.1]
    rfl
  · rw [List.forall_mem_append]
    exact ⟨h.2, List.forall_mem_singleton.mpr hle⟩

theorem leads_last {out : Int} (h : reading inputAsset outputAsset amount pool = some out)
    (hlt : ∀ other ∈ pools, ∀ o ∈ reading inputAsset outputAsset amount other, o < out) :
    Leads inputAsset outputAsset amount (pools ++ [pool]) pool out := by
  constructor
  · have hnone : pools.find? (fun p => reading inputAsset outputAsset amount p = some out) = none := by
      rw [List.find?_eq_none]
      intro other hother heq
      exact absurd (hlt other hother out (of_decide_eq_true heq)) (lt_irrefl out)
    rw [List.find?_append, hnone, Option.none_or]
    simp [h]
  · rw [List.forall_mem_append]
    refine ⟨fun other hother o ho => (hlt other hother o ho).le, List.forall_mem_singleton.mpr fun o ho => ?_⟩
    exact (Option.some.inj (ho.symm.trans h)).le

/-- The route found so far: through the first pool with the largest reading. -/
def Chosen (inputAsset outputAsset inputAmount : String) (amount : Int) (pools : List RoutingPool)
    (route : Option SwapRoute) : Prop :=
  (route = none ∧ ∀ pool ∈ pools, reading inputAsset outputAsset amount pool = none) ∨
    ∃ found pool out, route = some found ∧ Leads inputAsset outputAsset amount pools pool out ∧
      Names inputAsset outputAsset inputAmount found pool out

theorem chosen_nil : Chosen inputAsset outputAsset inputAmount amount [] none := .inl ⟨rfl, by simp⟩

theorem chosen_skip {route : Option SwapRoute} (h : Chosen inputAsset outputAsset inputAmount amount pools route)
    (hnone : reading inputAsset outputAsset amount pool = none) :
    Chosen inputAsset outputAsset inputAmount amount (pools ++ [pool]) route := by
  obtain ⟨rfl, hall⟩ | ⟨found, leader, out, rfl, hleads, hnames⟩ := h
  · exact .inl ⟨rfl, List.forall_mem_append.mpr ⟨hall, List.forall_mem_singleton.mpr hnone⟩⟩
  · refine .inr ⟨found, leader, out, rfl, hleads.append ?_, hnames⟩
    rw [hnone]
    exact fun _ ho => nomatch ho

variable (hne : inputAsset ≠ outputAsset) (hamount : ofString inputAmount = some amount) (hpos : 0 < amount)

include hne hamount hpos

theorem better_of_none (hnone : reading inputAsset outputAsset amount pool = none) (best : Option SwapRoute) :
    better inputAsset outputAsset inputAmount best pool = .ok best := by
  unfold better
  by_cases hboth : has pool inputAsset ∧ has pool outputAsset
  · have hestimate := estimate_reading hne hamount hpos hboth
    rw [hnone] at hestimate
    obtain ⟨failure, hestimate⟩ := hestimate
    rw [if_neg (by simp [hboth]), hestimate]
  · rw [if_pos]
    rcases not_and_or.mp hboth with hinput | houtput
    · simp [hinput]
    · simp [houtput]

theorem better_of_some {out : Int} (hsome : reading inputAsset outputAsset amount pool = some out) :
    ∃ route, Names inputAsset outputAsset inputAmount route pool out ∧
      ∀ best, better inputAsset outputAsset inputAmount best pool = match best with
        | none => .ok (some route)
        | some held => bigInt held.outputAmount >>= fun heldAmount => .ok (if heldAmount < out then some route else best) := by
  have hboth : has pool inputAsset ∧ has pool outputAsset := by
    by_contra hboth
    rw [reading, if_neg hboth] at hsome
    cases hsome
  have hestimate := estimate_reading hne hamount hpos hboth
  rw [hsome] at hestimate
  obtain ⟨hout, estimate, hestimate, htext⟩ := hestimate
  refine ⟨routeThrough inputAsset outputAsset inputAmount pool (toString out) estimate.priceImpactPercent, ⟨_, rfl⟩, ?_⟩
  intro best
  have hread : bigInt (toString out) = .ok out := bigInt_eq_ok.mpr (ofString_toString out)
  unfold better
  rw [if_neg (by simp [hboth]), hestimate]
  dsimp only
  rw [htext, hread]
  dsimp only [bind, Except.bind]
  rw [if_neg (not_le.mpr hout)]
  cases best <;> rfl

theorem better_chosen {route : Option SwapRoute} (h : Chosen inputAsset outputAsset inputAmount amount pools route)
    (pool : RoutingPool) : ∃ next, better inputAsset outputAsset inputAmount route pool = .ok next ∧
      Chosen inputAsset outputAsset inputAmount amount (pools ++ [pool]) next := by
  cases hreading : reading inputAsset outputAsset amount pool with
  | none => exact ⟨route, better_of_none hne hamount hpos hreading route, chosen_skip h hreading⟩
  | some o =>
      obtain ⟨next, hnames, hbetter⟩ := better_of_some hne hamount hpos hreading
      rw [hbetter]
      obtain ⟨rfl, hall⟩ | ⟨found, leader, out, rfl, hleads, hfound⟩ := h
      · refine ⟨some next, rfl, .inr ⟨next, pool, o, rfl, leads_last hreading ?_, hnames⟩⟩
        intro other hother _ ho
        rw [hall other hother] at ho
        cases ho
      · obtain ⟨impact, rfl⟩ := hfound
        have hread : bigInt (toString out) = .ok out := bigInt_eq_ok.mpr (ofString_toString out)
        refine ⟨_, congrArg (· >>= _) hread, ?_⟩
        by_cases hlt : out < o
        · rw [if_pos hlt]
          refine .inr ⟨next, pool, o, rfl, leads_last hreading ?_, hnames⟩
          exact fun other hother p hp => (hleads.2 other hother p hp).trans_lt hlt
        · rw [if_neg hlt]
          refine .inr ⟨_, leader, out, rfl, hleads.append ?_, impact, rfl⟩
          rw [hreading]
          rintro p hp
          exact Option.some.inj hp ▸ not_lt.mp hlt

theorem findBestRoute_chosen (pools : List RoutingPool) :
    ∃ route, findBestRoute inputAsset outputAsset inputAmount pools = .ok route ∧
      Chosen inputAsset outputAsset inputAmount amount pools route := by
  rw [findBestRoute, if_neg hne]
  induction pools using List.reverseRecOn with
  | nil => exact ⟨none, rfl, chosen_nil⟩
  | append_singleton pools pool ih =>
      obtain ⟨route, hroute, hchosen⟩ := ih
      obtain ⟨next, hnext, hchosen⟩ := better_chosen hne hamount hpos hchosen pool
      refine ⟨next, ?_, hchosen⟩
      rw [List.foldlM_append, hroute]
      exact congrArg (· >>= pure) hnext

end Search

section Result

variable {inputAsset outputAsset inputAmount : String} {amount : Int} {pools : List RoutingPool} {pool : RoutingPool}

theorem names_inj {found : SwapRoute} {other : RoutingPool} {out o : Int}
    (h : Names inputAsset outputAsset inputAmount found pool out)
    (ho : Names inputAsset outputAsset inputAmount found other o) : pool.id = other.id ∧ out = o := by
  obtain ⟨impact, rfl⟩ := h
  obtain ⟨impact', heq⟩ := ho
  simp only [routeThrough, SwapRoute.mk.injEq, List.cons.injEq, RouteHop.mk.injEq] at heq
  exact ⟨heq.1.1.1, toString_inj heq.2.2.2.2.1⟩

theorem best_iff (hne : inputAsset ≠ outputAsset) (hamount : ofString inputAmount = some amount) (hpos : 0 < amount)
    (pools : List RoutingPool) :
    Best inputAsset outputAsset inputAmount amount pools ↔ LeaderServes inputAsset outputAsset amount pools := by
  obtain ⟨route, hroute, hchosen⟩ := findBestRoute_chosen hne hamount hpos pools
  have hbest : Best inputAsset outputAsset inputAmount amount pools ↔
      Largest inputAsset outputAsset inputAmount (served inputAsset outputAsset amount) pools route := by
    constructor
    · rintro ⟨other, hother, h⟩
      obtain rfl := Except.ok.inj (hroute.symm.trans hother)
      exact h
    · exact fun h => ⟨route, hroute, h⟩
  rw [hbest]
  obtain ⟨rfl, hall⟩ | ⟨found, leader, out, rfl, hleads, hnames⟩ := hchosen
  · constructor
    · rintro (⟨-, hserved⟩ | ⟨found, _, _, hfound, _⟩)
      · refine ⟨fun _ => hserved, fun pool out h => ?_⟩
        have hreading := h.reading.2
        rw [hall pool h.reading.1] at hreading
        cases hreading
      · cases hfound
    · exact fun h => .inl ⟨rfl, h.1 hall⟩
  · constructor
    · rintro (⟨hnone, -⟩ | ⟨other, named, o, hother, hmem, hserved, hnames', hle⟩)
      · cases hnone
      · obtain rfl := Option.some.inj hother
        obtain ⟨hid, rfl⟩ := names_inj hnames hnames'
        refine ⟨fun hall => ?_, fun pool p h => ?_⟩
        · have hreading := hleads.reading.2
          rw [hall leader hleads.reading.1] at hreading
          cases hreading
        · obtain ⟨rfl, rfl⟩ := hleads.unique h
          exact ⟨⟨named, hmem, hid.symm, hserved⟩, hle⟩
    · intro h
      obtain ⟨⟨named, hmem, hid, hserved⟩, hle⟩ := h.2 leader out hleads
      obtain ⟨impact, rfl⟩ := hnames
      refine .inr ⟨_, named, out, rfl, hmem, hserved, ⟨impact, ?_⟩, hle⟩
      simp only [routeThrough, hid]

/-- A pool of two assets is always well read. -/
theorem wellRead_pair (hne : inputAsset ≠ outputAsset) (a b : Reserve) (id : String) :
    WellRead inputAsset outputAsset amount ⟨id, [a, b]⟩ := by
  intro hinput houtput
  have hsame : firstOther inputAsset ⟨id, [a, b]⟩ = reserveOf ⟨id, [a, b]⟩ outputAsset := by
    simp only [has, List.any_cons, List.any_nil, Bool.or_false, Bool.or_eq_true, decide_eq_true_eq] at hinput houtput
    rcases hinput with rfl | rfl
    · have hb : b.asset = outputAsset := houtput.resolve_left hne
      simp [firstOther, reserveOf, hb, hne, hne.symm]
    · have ha : a.asset = outputAsset := houtput.resolve_right hne
      simp [firstOther, reserveOf, ha, hne.symm]
  rw [served, hsame]

theorem leaderServes_of_wellRead (h : ∀ pool ∈ pools, WellRead inputAsset outputAsset amount pool) :
    LeaderServes inputAsset outputAsset amount pools := by
  have hserved : ∀ pool ∈ pools, served inputAsset outputAsset amount pool = reading inputAsset outputAsset amount pool :=
    fun pool hpool => (wellRead_iff.mp (h pool hpool)).symm
  refine ⟨fun hall pool hpool => (hserved pool hpool).trans (hall pool hpool), fun pool out hleads => ⟨?_, ?_⟩⟩
  · exact ⟨pool, hleads.reading.1, rfl, (hserved pool hleads.reading.1).trans hleads.reading.2⟩
  · intro other hother o ho
    exact hleads.2 other hother o (hserved other hother ▸ ho)

theorem wellRead_of_singleton (h : LeaderServes inputAsset outputAsset amount [pool]) :
    WellRead inputAsset outputAsset amount pool := by
  rw [wellRead_iff]
  cases hreading : reading inputAsset outputAsset amount pool with
  | none => exact (h.1 (List.forall_mem_singleton.mpr hreading) pool List.mem_cons_self).symm
  | some out =>
      have hleads : Leads inputAsset outputAsset amount ([] ++ [pool]) pool out := leads_last hreading (by simp)
      obtain ⟨⟨named, hmem, -, hserved⟩, -⟩ := h.2 pool out hleads
      rw [List.mem_singleton.mp hmem] at hserved
      exact hserved.symm

/-- The route is a best one exactly if the first pool with the largest reading gives this much, and no pool more; on every choice
of the pools this is so exactly if every pool is well read. -/
theorem best_route_iff (pools : List RoutingPool) (inputAsset outputAsset inputAmount : String) (amount : Int)
    (hne : inputAsset ≠ outputAsset) (hamount : ofString inputAmount = some amount) (hpos : 0 < amount) :
    (Best inputAsset outputAsset inputAmount amount pools ↔ LeaderServes inputAsset outputAsset amount pools) ∧
      ((∀ candidates, candidates.Sublist pools → Best inputAsset outputAsset inputAmount amount candidates) ↔
        ∀ pool ∈ pools, WellRead inputAsset outputAsset amount pool) := by
  refine ⟨best_iff hne hamount hpos pools, ?_, ?_⟩
  · intro h pool hpool
    exact wellRead_of_singleton ((best_iff hne hamount hpos _).mp (h [pool] (List.singleton_sublist.mpr hpool)))
  · intro h candidates hsub
    exact (best_iff hne hamount hpos _).mpr (leaderServes_of_wellRead fun pool hpool => h pool (hsub.subset hpool))

theorem best_route_pair :
    Best "XLM" "USDC" "100" 100 [⟨"pool", [⟨"XLM", "1000"⟩, ⟨"USDC", "500"⟩]⟩] :=
  (best_route_iff _ "XLM" "USDC" "100" 100 (by decide) (by rfl) (by decide)).2.mpr
    (List.forall_mem_singleton.mpr (wellRead_pair (by decide) _ _ "pool")) _ (List.Sublist.refl _)

/-- A pool with a third asset before the output asset: the route promises what comes out of the third asset's reserve. -/
theorem third_asset_promised :
    ¬Best "XLM" "USDC" "100" 100 [⟨"pool", [⟨"XLM", "1000"⟩, ⟨"EURC", "900"⟩, ⟨"USDC", "500"⟩]⟩] := by
  rw [best_iff (by decide) (by decide) (by decide)]
  intro h
  have hread := wellRead_of_singleton h (by decide) (by decide)
  revert hread
  decide +kernel

end Result

end SplitSdk.BestRoute
