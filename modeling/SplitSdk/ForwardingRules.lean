import SplitSdk.Numbers
import SplitSdk.StableSorting
import Mathlib.Data.List.Infix

namespace SplitSdk.ForwardingRules

open Numbers StableSorting

section Data

/-- An object has its identity, its elements if it is an array, and the properties that can be read by name, inherited ones
included; the reading of one may throw. -/
inductive Value
  | undefined
  | null
  | bool (b : Bool)
  | number (x : JsNumber)
  | bigint (n : Int)
  | string (s : String)
  | symbol (ref : Nat)
  | object (ref : Nat) (elements : Option (List Value)) (properties : List (String × Except String Value))

structure Payment where
  id : String
  properties : List (String × Except String Value)

inductive Operator
  | eq | neq | gt | gte | lt | lte | «in» | contains | other
  deriving DecidableEq

structure RuleCondition where
  field : String
  operator : Operator
  value : Value

structure ForwardingRule where
  id : String
  priority : Option JsNumber := none
  conditions : List RuleCondition
  forwardTo : String
  terminal : Option Bool := none
  enabled : Option Bool := none

structure ForwardingDecision where
  paymentId : String
  forwarded : Bool
  destination : Option String
  matchedRuleId : Option String
  reason : String
  deriving DecidableEq

inductive RulesEngineEvent
  | evaluated (ruleId paymentId : String) (matched : Bool)
  | skipped (ruleId paymentId reason : String)
  | decided (decision : ForwardingDecision)
  | error (paymentId error : String)
  deriving DecidableEq

end Data

section Conditions

def Value.truthy : Value → Bool
  | .undefined | .null => false
  | .bool b => b
  | .number x => x ≠ .nan && x ≠ .finite 0
  | .bigint n => n ≠ 0
  | .string s => s ≠ ""
  | .symbol _ | .object .. => true

/-- A property of an object. -/
def Value.get : Value → String → Except String Value
  | .object _ _ properties, field => (properties.lookup field).getD (.ok .undefined)
  | _, _ => .ok .undefined

/-- `===`. -/
def strictEquals : Value → Value → Bool
  | .undefined, .undefined | .null, .null => true
  | .bool a, .bool b => a = b
  | .number x, .number y => x = y && x ≠ .nan
  | .bigint m, .bigint n => m = n
  | .string s, .string t => s = t
  | .symbol ref, .symbol ref' => ref = ref'
  | .object ref _ _, .object ref' _ _ => ref = ref'
  | _, _ => false

/-- The equality of `includes`. -/
def sameValueZero : Value → Value → Bool
  | .number .nan, .number .nan => true
  | actual, expected => strictEquals actual expected

def getField (payment : Payment) (field : String) : Except String Value :=
  match payment.properties.lookup field with
  | some value => value
  | none => do
      let metadata ← (payment.properties.lookup "metadata").getD (.ok .undefined)
      if metadata.truthy then metadata.get field else .ok .undefined

def compareNumbers (holds : JsNumber → JsNumber → Bool) : Value → Value → Bool
  | .number actual, .number expected => holds actual expected
  | _, _ => false

def compare (actual : Value) (operator : Operator) (expected : Value) : Bool :=
  match operator with
  | .eq => strictEquals actual expected
  | .neq => !strictEquals actual expected
  | .gt => compareNumbers (fun actual expected => expected.lt actual) actual expected
  | .gte => compareNumbers (fun actual expected => expected.le actual) actual expected
  | .lt => compareNumbers (fun actual expected => actual.lt expected) actual expected
  | .lte => compareNumbers (fun actual expected => actual.le expected) actual expected
  | .in =>
      match expected with
      | .object _ (some elements) _ => elements.any (fun element => sameValueZero element actual)
      | _ => false
  | .contains =>
      match actual, expected with
      | .string actual, .string expected => expected.toList <:+: actual.toList
      | _, _ => false
  | .other => false

def holds (payment : Payment) (condition : RuleCondition) : Except String Bool := do
  let actual ← getField payment condition.field
  return compare actual condition.operator condition.value

/-- `conditions.every`, which stops at a condition that does not hold. -/
def everyHolds (payment : Payment) : List RuleCondition → Except String Bool
  | [] => .ok true
  | condition :: conditions => do
      if ← holds payment condition then everyHolds payment conditions else .ok false

def evaluateRule (rule : ForwardingRule) (payment : Payment) : Except String Bool := everyHolds payment rule.conditions

end Conditions

section Sorting

def ForwardingRule.rank (rule : ForwardingRule) : JsNumber := rule.priority.getD (.finite 0)

/-- The rules in descending order of priority, and in their own order where the priorities are the same. -/
structure StableDescending (rules ordered : List ForwardingRule) : Prop where
  descending : ordered.Pairwise (fun a b => b.rank.le a.rank)
  stable : ∀ rank, ordered.filter (fun rule => rule.rank = rank) = rules.filter (fun rule => rule.rank = rank)

/-- `sort` with the comparison of `evaluate`. What it does with a priority of `NaN` is left to the platform. -/
structure Sorter where
  sort : List ForwardingRule → List ForwardingRule
  perm : ∀ rules, (sort rules).Perm rules
  sorted : ∀ rules, (∀ rule ∈ rules, rule.rank ≠ .nan) → StableDescending rules (sort rules)

/-- A rule of priority `NaN` comes last. -/
def descends (a b : ForwardingRule) : Bool := b.rank = .nan || b.rank.le a.rank

theorem descends_iff {a b : ForwardingRule} : descends a b ↔ b.rank = .nan ∨ b.rank.le a.rank := by
  rw [descends, Bool.or_eq_true, decide_eq_true_eq]

theorem descends_trans (a b c : ForwardingRule) (hab : descends a b) (hbc : descends b c) : descends a c := by
  rw [descends_iff] at *
  rcases hbc with hc | hbc
  · exact .inl hc
  · rcases hab with hb | hab
    · rw [hb, JsNumber.le_nan] at hbc
      cases hbc
    · exact .inr (JsNumber.le_trans hbc hab)

theorem descends_total (a b : ForwardingRule) : descends a b || descends b a := by
  rw [Bool.or_eq_true, descends_iff, descends_iff]
  by_cases ha : a.rank = .nan
  · exact .inr (.inl ha)
  · by_cases hb : b.rank = .nan
    · exact .inl (.inl hb)
    · exact (Bool.or_eq_true _ _ ▸ JsNumber.le_total hb ha).imp .inr .inr

theorem stableDescending_mergeSort {rules : List ForwardingRule} (h : ∀ rule ∈ rules, rule.rank ≠ .nan) :
    StableDescending rules (rules.mergeSort descends) where
  descending := by
    have hsorted := List.pairwise_mergeSort descends_trans descends_total rules
    refine hsorted.imp_of_mem (fun {a b} _ hb hle => ?_)
    exact (descends_iff.mp hle).resolve_left (h b (List.mem_mergeSort.mp hb))
  stable rank := by
    refine filter_mergeSort descends_trans descends_total (fun a hmem b _ ha hb => descends_iff.mpr (.inr ?_))
    rw [of_decide_eq_true ha, of_decide_eq_true hb]
    exact JsNumber.le_self (of_decide_eq_true ha ▸ h a hmem)

def mergeSorter : Sorter where
  sort rules := rules.mergeSort descends
  perm rules := List.mergeSort_perm rules descends
  sorted _ h := stableDescending_mergeSort h

end Sorting

section Engine

def noMatch (payment : Payment) : ForwardingDecision :=
  ⟨payment.id, false, none, none, "no matching rule"⟩

def matchedBy (payment : Payment) (rule : ForwardingRule) : ForwardingDecision :=
  ⟨payment.id, true, some rule.forwardTo, some rule.id, s!"matched rule {rule.id}"⟩

/-- The decision and what is emitted; listeners change nothing. -/
def evaluateFrom (payment : Payment) : List ForwardingRule → ForwardingDecision × List RulesEngineEvent
  | [] => (noMatch payment, [.decided (noMatch payment)])
  | rule :: rules =>
      if rule.enabled = some false then
        let (decision, events) := evaluateFrom payment rules
        (decision, .skipped rule.id payment.id "disabled" :: events)
      else
        match evaluateRule rule payment with
        | .error error =>
            let (decision, events) := evaluateFrom payment rules
            (decision, .error payment.id error :: events)
        | .ok matched =>
            if matched then
              (matchedBy payment rule, [.evaluated rule.id payment.id matched, .decided (matchedBy payment rule)])
            else if rule.terminal = some true then
              (noMatch payment, [.evaluated rule.id payment.id matched, .decided (noMatch payment)])
            else
              let (decision, events) := evaluateFrom payment rules
              (decision, .evaluated rule.id payment.id matched :: events)

def evaluate (sorter : Sorter) (rules : List ForwardingRule) (payment : Payment) :
    ForwardingDecision × List RulesEngineEvent :=
  evaluateFrom payment (sorter.sort rules)

end Engine

section Statement

variable (payment : Payment)

/-- The rule is enabled and all of its conditions hold without error. -/
def Applies (rule : ForwardingRule) : Prop :=
  rule.enabled ≠ some false ∧ ∀ condition ∈ rule.conditions, holds payment condition = .ok true

/-- The rule is terminal and does not match. -/
def Stops (rule : ForwardingRule) : Prop :=
  rule.enabled ≠ some false ∧ evaluateRule rule payment = .ok false ∧ rule.terminal = some true

/-- The first rule that applies, and the rules before it. -/
def First (ordered before : List ForwardingRule) (rule : ForwardingRule) : Prop :=
  Applies payment rule ∧ (∀ earlier ∈ before, ¬Applies payment earlier) ∧ ∃ after, ordered = before ++ rule :: after

structure Decides (ordered : List ForwardingRule) (decision : ForwardingDecision) : Prop where
  forwards : ∀ before rule, First payment ordered before rule →
    decision.forwarded ∧ decision.destination = some rule.forwardTo
  refuses : decision.forwarded = false ↔ ∀ rule ∈ ordered, ¬Applies payment rule

/-- No terminal rule that does not match comes before the first one that applies. -/
def Unstopped (ordered : List ForwardingRule) : Prop :=
  ∀ before rule, First payment ordered before rule → ∀ earlier ∈ before, ¬Stops payment earlier

end Statement

section Decision

variable {payment : Payment} {rule : ForwardingRule} {rules : List ForwardingRule} {decision : ForwardingDecision}

theorem everyHolds_eq_true_iff (conditions : List RuleCondition) :
    everyHolds payment conditions = .ok true ↔ ∀ condition ∈ conditions, holds payment condition = .ok true := by
  induction conditions with
  | nil => simp [everyHolds]
  | cons condition conditions ih =>
      rw [everyHolds, List.forall_mem_cons, ← ih]
      cases holds payment condition with
      | error error => exact iff_of_false (fun h => by cases h) (fun h => by cases h.1)
      | ok held =>
          cases held with
          | false => exact iff_of_false (fun h => by cases h) (fun h => by cases h.1)
          | true => exact (and_iff_right rfl).symm

theorem applies_iff : Applies payment rule ↔ rule.enabled ≠ some false ∧ evaluateRule rule payment = .ok true :=
  and_congr_right (fun _ => (everyHolds_eq_true_iff rule.conditions).symm)

theorem first_cons_iff {before : List ForwardingRule} {first : ForwardingRule} :
    First payment (rule :: rules) before first ↔
      Applies payment rule ∧ before = [] ∧ first = rule ∨
        ¬Applies payment rule ∧ ∃ before', before = rule :: before' ∧ First payment rules before' first := by
  constructor
  · rintro ⟨happlies, hbefore, after, hsplit⟩
    cases before with
    | nil =>
        obtain ⟨rfl, rfl⟩ := List.cons.inj hsplit
        exact .inl ⟨happlies, rfl, rfl⟩
    | cons earlier before =>
        obtain ⟨rfl, rfl⟩ := List.cons.inj hsplit
        rw [List.forall_mem_cons] at hbefore
        exact .inr ⟨hbefore.1, before, rfl, happlies, hbefore.2, after, rfl⟩
  · rintro (⟨happlies, rfl, rfl⟩ | ⟨hnot, before, rfl, happlies, hbefore, after, rfl⟩)
    · exact ⟨happlies, by simp, rules, rfl⟩
    · exact ⟨happlies, List.forall_mem_cons.mpr ⟨hnot, hbefore⟩, after, rfl⟩

theorem exists_first (h : ∃ rule ∈ rules, Applies payment rule) : ∃ before rule, First payment rules before rule := by
  induction rules with
  | nil => simp at h
  | cons first rules ih =>
      by_cases hfirst : Applies payment first
      · exact ⟨[], first, first_cons_iff.mpr (.inl ⟨hfirst, rfl, rfl⟩)⟩
      · rw [List.exists_mem_cons_iff, or_iff_right hfirst] at h
        obtain ⟨before, rule, hrule⟩ := ih h
        exact ⟨first :: before, rule, first_cons_iff.mpr (.inr ⟨hfirst, before, rfl, hrule⟩)⟩

/-- A rule that neither applies nor stops is passed over. -/
theorem decides_cons_iff (h : ¬Applies payment rule) :
    Decides payment (rule :: rules) decision ↔ Decides payment rules decision := by
  have hfirst (before first) : First payment (rule :: rules) before first ↔
      ∃ before', before = rule :: before' ∧ First payment rules before' first :=
    first_cons_iff.trans ((or_iff_right (fun hand => h hand.1)).trans (and_iff_right h))
  constructor
  · rintro ⟨hforwards, hrefuses⟩
    refine ⟨fun before first hmem => hforwards (rule :: before) first ((hfirst _ _).mpr ⟨before, rfl, hmem⟩), ?_⟩
    rw [hrefuses, List.forall_mem_cons, and_iff_right h]
  · rintro ⟨hforwards, hrefuses⟩
    refine ⟨fun before first hmem => ?_, ?_⟩
    · obtain ⟨before', -, hbefore'⟩ := (hfirst _ _).mp hmem
      exact hforwards before' first hbefore'
    · rw [hrefuses, List.forall_mem_cons, and_iff_right h]

theorem unstopped_cons_iff (h : ¬Applies payment rule) (hstops : ¬Stops payment rule) :
    Unstopped payment (rule :: rules) ↔ Unstopped payment rules := by
  constructor
  · intro hall before first hfirst
    have hmem := hall (rule :: before) first (first_cons_iff.mpr (.inr ⟨h, before, rfl, hfirst⟩))
    exact (List.forall_mem_cons.mp hmem).2
  · intro hall before first hfirst
    rcases first_cons_iff.mp hfirst with ⟨happlies, -, -⟩ | ⟨-, before', rfl, hfirst'⟩
    · exact absurd happlies h
    · exact List.forall_mem_cons.mpr ⟨hstops, hall before' first hfirst'⟩

theorem decides_matched (h : Applies payment rule) : Decides payment (rule :: rules) (matchedBy payment rule) := by
  refine ⟨fun before first hfirst => ?_, iff_of_false Bool.false_ne_true.symm (fun hall => hall rule List.mem_cons_self h)⟩
  rcases first_cons_iff.mp hfirst with ⟨-, -, rfl⟩ | ⟨hnot, -⟩
  · exact ⟨rfl, rfl⟩
  · exact absurd h hnot

theorem unstopped_matched (h : Applies payment rule) : Unstopped payment (rule :: rules) := by
  intro before first hfirst
  rcases first_cons_iff.mp hfirst with ⟨-, rfl, -⟩ | ⟨hnot, -⟩
  · simp
  · exact absurd h hnot

theorem decides_noMatch_iff : Decides payment rules (noMatch payment) ↔ ∀ rule ∈ rules, ¬Applies payment rule := by
  constructor
  · exact fun hdecides => hdecides.refuses.mp rfl
  · intro hnone
    refine ⟨fun before first hfirst => ?_, iff_of_true rfl hnone⟩
    obtain ⟨happlies, -, after, rfl⟩ := hfirst
    exact absurd happlies (hnone first (List.mem_append_right _ List.mem_cons_self))

/-- After a rule that stops none may apply. -/
theorem unstopped_of_stops_iff (hstops : Stops payment rule) :
    Unstopped payment (rule :: rules) ↔ ∀ other ∈ rule :: rules, ¬Applies payment other := by
  have hnot : ¬Applies payment rule := fun happlies => by
    cases (applies_iff.mp happlies).2.symm.trans hstops.2.1
  constructor
  · intro hall other hother happlies
    obtain ⟨before, first, hfirst⟩ := exists_first ⟨other, hother, happlies⟩
    rcases first_cons_iff.mp hfirst with ⟨happlies, -, -⟩ | ⟨-, before', rfl, -⟩
    · exact hnot happlies
    · exact hall _ _ hfirst rule List.mem_cons_self hstops
  · intro hnone before first hfirst
    obtain ⟨happlies, -, after, hsplit⟩ := hfirst
    exact absurd happlies (hnone first (hsplit ▸ List.mem_append_right _ List.mem_cons_self))

theorem decides_evaluateFrom_iff (rules : List ForwardingRule) :
    Decides payment rules (evaluateFrom payment rules).1 ↔ Unstopped payment rules := by
  induction rules with
  | nil => exact iff_of_true (decides_noMatch_iff.mpr (by simp)) (fun _ _ hfirst => by simp [First] at hfirst)
  | cons rule rules ih =>
      have hpassed (h : ¬Applies payment rule) (hstops : ¬Stops payment rule) :
          Decides payment (rule :: rules) (evaluateFrom payment rules).1 ↔ Unstopped payment (rule :: rules) := by
        rw [decides_cons_iff h, unstopped_cons_iff h hstops, ih]
      unfold evaluateFrom
      by_cases henabled : rule.enabled = some false
      · rw [if_pos henabled]
        exact hpassed (fun happlies => happlies.1 henabled) (fun hstops => hstops.1 henabled)
      · rw [if_neg henabled]
        cases hrule : evaluateRule rule payment with
        | error error =>
            refine hpassed (fun happlies => ?_) (fun hstops => ?_)
            · cases hrule.symm.trans (applies_iff.mp happlies).2
            · cases hrule.symm.trans hstops.2.1
        | ok matched =>
            cases matched with
            | true =>
                have happlies : Applies payment rule := applies_iff.mpr ⟨henabled, hrule⟩
                exact iff_of_true (decides_matched happlies) (unstopped_matched happlies)
            | false =>
                have hnot : ¬Applies payment rule := fun happlies => by cases hrule.symm.trans (applies_iff.mp happlies).2
                dsimp only
                rw [if_neg Bool.false_ne_true]
                by_cases hterminal : rule.terminal = some true
                · rw [if_pos hterminal]
                  exact decides_noMatch_iff.trans (unstopped_of_stops_iff ⟨henabled, hrule, hterminal⟩).symm
                · rw [if_neg hterminal]
                  exact hpassed hnot (fun hstops => hterminal hstops.2.2)

/-- The first rule that applies decides, exactly if no terminal rule that does not match comes before it. -/
theorem forwarding_iff (sorter : Sorter) (rules : List ForwardingRule) (payment : Payment) :
    Decides payment (sorter.sort rules) (evaluate sorter rules payment).1 ↔ Unstopped payment (sorter.sort rules) :=
  decides_evaluateFrom_iff (sorter.sort rules)

def usdPayment : Payment := ⟨"p1", [("id", .ok (.string "p1")), ("currency", .ok (.string "USD"))]⟩

/-- A terminal rule for another currency before one that applies to everything. -/
def terminalFirst : List ForwardingRule :=
  [{ id := "eur", priority := some (.finite 10), conditions := [⟨"currency", .eq, .string "EUR"⟩], forwardTo := "A"
     terminal := some true },
    { id := "rest", conditions := [], forwardTo := "B" }]

theorem forwarding_fails : ¬Decides usdPayment (mergeSorter.sort terminalFirst)
    (evaluate mergeSorter terminalFirst usdPayment).1 := by
  have hsort : mergeSorter.sort terminalFirst = terminalFirst := List.mergeSort_of_pairwise (by decide)
  have hrefused : (evaluateFrom usdPayment terminalFirst).1.forwarded = false := by rfl
  unfold evaluate
  rw [hsort]
  intro hdecides
  have hnone := hdecides.refuses.mp hrefused _ (List.mem_cons_of_mem _ List.mem_cons_self)
  exact hnone ⟨by decide, by simp⟩

end Decision

end SplitSdk.ForwardingRules
