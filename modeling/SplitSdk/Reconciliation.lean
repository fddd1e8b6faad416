import SplitSdk.BigIntText
import SplitSdk.Fallible
import SplitSdk.GreedyMatching

namespace SplitSdk.Reconciliation

open Fallible GreedyMatching
open Numbers hiding ofString

section Model

structure Payment where
  payer : String
  amount : Int
  timestamp : Option JsNumber := none
  deriving DecidableEq

/-- What the engine reads of a record of Horizon. -/
structure PaymentOperationRecord where
  type : String
  sender : String
  asset_type : String
  asset_code : Option String := none
  created_at : String
  amount : String
  deriving DecidableEq

structure ReconciliationDateRange where
  first : JsNumber
  last : JsNumber
  deriving DecidableEq

inductive Severity
  | info
  | warning
  | critical
  deriving DecidableEq

structure ReconciliationFinding where
  accountId : String
  assetCode : String
  expectedDelta : Int
  actualDelta : Int
  discrepancy : Int
  severity : Severity
  reason : Option String
  deriving DecidableEq

structure ReconciliationReport where
  accountId : String
  assetCode : String
  dateRange : ReconciliationDateRange
  findings : List ReconciliationFinding
  isBalanced : Bool
  deriving DecidableEq

structure ReconciliationEngine where
  payments : List Payment
  feeToleranceStroops : Int
  warningThresholdStroops : Int

def DEFAULT_FEE_TOLERANCE_STROOPS : Int := 100

def constructor (payments : List Payment) (feeToleranceStroops warningThresholdStroops : Option Int) : ReconciliationEngine where
  payments
  feeToleranceStroops := feeToleranceStroops.getD DEFAULT_FEE_TOLERANCE_STROOPS
  warningThresholdStroops := warningThresholdStroops.getD (feeToleranceStroops.getD DEFAULT_FEE_TOLERANCE_STROOPS * 10)

def withinRange (timestamp : Option JsNumber) (range : ReconciliationDateRange) : Bool :=
  match timestamp with
  | none => false
  | some timestamp => range.first.le timestamp && timestamp.le range.last

/-- `BigInt` of a part of an amount, which throws where it is no integer. -/
def bigInt (cs : List Char) : Except String Int :=
  match BigIntText.readBigInt (trim cs) with
  | some n => .ok n
  | none =>
      let text := String.ofList cs
      .error s!"Cannot convert {text} to a BigInt"

/-- The parts before and behind the first point, and not behind the second one. -/
def xlmStringToStroops (value : String) : Except String Int := do
  let whole := value.toList.takeWhile (· ≠ '.')
  let frac := ((value.toList.dropWhile (· ≠ '.')).drop 1).takeWhile (· ≠ '.')
  let units ← bigInt whole
  let part ← bigInt ((frac.rightpad 7 '0').take 7)
  return units * 10000000 + part

variable (engine : ReconciliationEngine)

def classify (discrepancy : Int) : Severity :=
  let abs := if discrepancy < 0 then -discrepancy else discrepancy
  if abs = 0 ∨ abs ≤ engine.feeToleranceStroops then .info
  else if abs ≤ engine.warningThresholdStroops then .warning
  else .critical

def consumeMatch (pool : List Int) (amount : Int) : Int × List Int :=
  if amount ∈ pool then (amount, pool.erase amount) else (0, pool)

def matchesAsset (record : PaymentOperationRecord) (assetCode : String) : Bool :=
  if assetCode = "native" then record.asset_type = "native"
  else record.asset_type ≠ "native" && record.asset_code = some assetCode

/-- The amounts of a page of records; `secondsOf` is `Math.floor` of the seconds of a date. -/
def fetchActualOutgoingAmounts (secondsOf : String → JsNumber) (records : List PaymentOperationRecord) (accountId assetCode : String)
    (dateRange : ReconciliationDateRange) : Except String (List Int) :=
  ((((records.filter (fun record => record.type = "payment")).filter (fun record => record.sender = accountId)).filter
    (fun record => matchesAsset record assetCode)).filter
    (fun record => withinRange (some (secondsOf record.created_at)) dateRange)).mapM (fun record => xlmStringToStroops record.amount)

def findingOf (accountId assetCode : String) (payment : Payment) (matchedAmount : Int) : ReconciliationFinding where
  accountId
  assetCode
  expectedDelta := payment.amount
  actualDelta := matchedAmount
  discrepancy := payment.amount - matchedAmount
  severity := classify engine (payment.amount - matchedAmount)
  reason := if matchedAmount = 0 then some "No matching on-chain payment found" else none

/-- The findings, each of which takes its match out of the amounts. -/
def findingsFrom (accountId assetCode : String) : List Int → List Payment → List ReconciliationFinding
  | _, [] => []
  | actualAmounts, payment :: expected =>
      let (matchedAmount, rest) := consumeMatch actualAmounts payment.amount
      findingOf engine accountId assetCode payment matchedAmount :: findingsFrom accountId assetCode rest expected

def expectedPayments (accountId : String) (dateRange : ReconciliationDateRange) : List Payment :=
  engine.payments.filter (fun p => p.payer = accountId && withinRange p.timestamp dateRange)

def reconcile (secondsOf : String → JsNumber) (records : List PaymentOperationRecord) (accountId assetCode : String)
    (dateRange : ReconciliationDateRange) : Except String ReconciliationReport := do
  let expected := expectedPayments engine accountId dateRange
  let actualAmounts ← fetchActualOutgoingAmounts secondsOf records accountId assetCode dateRange
  let findings := findingsFrom engine accountId assetCode actualAmounts expected
  return {
    accountId
    assetCode
    dateRange
    findings
    isBalanced := findings.all (fun f => f.discrepancy = 0) }

end Model

section Matching

variable {engine : ReconciliationEngine} {accountId assetCode : String} {pool : List Int} {expected : List Payment}

def amounts (expected : List Payment) : List Int := expected.map (fun payment => payment.amount)

/-- The findings are those of the payments that are found among the amounts. -/
theorem findingsFrom_eq (pool : List Int) (expected : List Payment) : findingsFrom engine accountId assetCode pool expected =
    (expected.zip (found pool (amounts expected))).map
      (fun entry => findingOf engine accountId assetCode entry.1 (if entry.2 then entry.1.amount else 0)) := by
  induction expected generalizing pool with
  | nil => rfl
  | cons payment expected ih =>
      rw [findingsFrom, amounts, List.map_cons, found, List.zip_cons_cons, List.map_cons, consumeMatch]
      by_cases hmem : payment.amount ∈ pool
      · rw [if_pos hmem]
        simp only [hmem, decide_true, if_true]
        exact congrArg _ (ih _)
      · rw [if_neg hmem, List.erase_of_not_mem hmem]
        simp only [hmem, decide_false, Bool.false_eq_true, if_false]
        exact congrArg _ (ih _)

theorem getElem?_findingsFrom (i : Nat) : (findingsFrom engine accountId assetCode pool expected)[i]? =
    expected[i]?.map (fun payment => findingOf engine accountId assetCode payment
      (if ((amounts expected).take i).count payment.amount < pool.count payment.amount then payment.amount else 0)) := by
  have hfound := getElem?_found pool (amounts expected) i
  rw [findingsFrom_eq, List.getElem?_map, List.zip, List.getElem?_zipWith, hfound, amounts, List.getElem?_map]
  cases expected[i]? with
  | none => rfl
  | some payment => simp

theorem zip_amounts (expected : List Payment) (bs : List Bool) :
    (amounts expected).zip bs = (expected.zip bs).map (fun entry => (entry.1.amount, entry.2)) := by
  rw [amounts, List.zip_map_left]
  rfl

/-- As many payments of an amount are matched as there are on both sides. -/
theorem count_actualDelta {a : Int} (ha : a ≠ 0) :
    ((findingsFrom engine accountId assetCode pool expected).map (fun f => f.actualDelta)).count a =
      min ((amounts expected).count a) (pool.count a) := by
  rw [← count_found, zip_amounts, findingsFrom_eq, List.map_map, List.count, List.count, List.countP_map, List.countP_map]
  refine List.countP_congr (fun entry _ => ?_)
  obtain ⟨payment, b⟩ := entry
  cases b with
  | true => simp [findingOf]
  | false => simp [findingOf, ha.symm]

theorem isBalanced_iff : (findingsFrom engine accountId assetCode pool expected).all (fun f => f.discrepancy = 0) ↔
    ∀ a, a ≠ 0 → (amounts expected).count a ≤ pool.count a := by
  rw [← all_found_iff, findingsFrom_eq, List.all_map, List.all_eq_true]
  rw [zip_amounts, List.forall_mem_map]
  refine forall₂_congr (fun entry _ => ?_)
  obtain ⟨payment, b⟩ := entry
  cases b with
  | true => simp [findingOf]
  | false => simp [findingOf]

end Matching

section Reports

variable {engine : ReconciliationEngine} {secondsOf : String → JsNumber} {records others : List PaymentOperationRecord}
  {accountId assetCode : String} {dateRange : ReconciliationDateRange} {report : ReconciliationReport}

/-- The payments of the ledger that a report is about. -/
def ledger (engine : ReconciliationEngine) (accountId : String) (dateRange : ReconciliationDateRange) : List Int :=
  amounts (expectedPayments engine accountId dateRange)

theorem reconcile_ok_iff : reconcile engine secondsOf records accountId assetCode dateRange = .ok report ↔
    ∃ actual, fetchActualOutgoingAmounts secondsOf records accountId assetCode dateRange = .ok actual ∧ report = {
      accountId, assetCode, dateRange
      findings := findingsFrom engine accountId assetCode actual (expectedPayments engine accountId dateRange)
      isBalanced := (findingsFrom engine accountId assetCode actual (expectedPayments engine accountId dateRange)).all
        (fun f => f.discrepancy = 0) } := by
  unfold reconcile
  rw [bind_eq_ok]
  refine exists_congr (fun actual => and_congr_right (fun _ => ?_))
  exact ⟨fun h => (Except.ok.inj h).symm, fun h => congrArg _ h.symm⟩

/-- Every payment on the chain stands for at most one payment of the ledger, and for the earliest ones of its amount; so that as many of
an amount are matched as there are on both sides, and a report is balanced exactly when no amount is missing on the chain. -/
theorem reconcile_matches (h : reconcile engine secondsOf records accountId assetCode dateRange = .ok report) :
    ∃ actual, fetchActualOutgoingAmounts secondsOf records accountId assetCode dateRange = .ok actual ∧
      (∀ i, report.findings[i]? = (expectedPayments engine accountId dateRange)[i]?.map (fun payment =>
        findingOf engine accountId assetCode payment
          (if ((ledger engine accountId dateRange).take i).count payment.amount < actual.count payment.amount then payment.amount else 0))) ∧
      (∀ a, a ≠ 0 → (report.findings.map (fun f => f.actualDelta)).count a =
        min ((ledger engine accountId dateRange).count a) (actual.count a)) ∧
      (report.isBalanced ↔ ∀ a, a ≠ 0 → (ledger engine accountId dateRange).count a ≤ actual.count a) := by
  obtain ⟨actual, hactual, rfl⟩ := reconcile_ok_iff.mp h
  exact ⟨actual, hactual, fun i => getElem?_findingsFrom i, fun a ha => count_actualDelta ha, isBalanced_iff⟩

def payer : ReconciliationEngine := constructor [⟨"G", 500, some (.finite 5)⟩, ⟨"G", 500, some (.finite 6)⟩, ⟨"G", 70, some (.finite 7)⟩] none none

/-- Two payments of an amount in the ledger, and one on the chain. -/
def page : List PaymentOperationRecord :=
  [⟨"payment", "G", "native", none, "1970", "0.0000070"⟩, ⟨"payment", "G", "native", none, "1970", "0.00005"⟩]

theorem reconcile_matches_page : ∃ report, reconcile payer (fun _ => .finite 6) page "G" "native" ⟨.finite 0, .finite 9⟩ = .ok report ∧
    ¬report.isBalanced ∧ (report.findings.map (fun f => f.actualDelta)).count 500 = 1 := by
  have h : reconcile payer (fun _ => .finite 6) page "G" "native" ⟨.finite 0, .finite 9⟩ = .ok _ := rfl
  obtain ⟨actual, hactual, -, hcount, hbalanced⟩ := reconcile_matches h
  obtain rfl : [70, 500] = actual := Except.ok.inj hactual
  exact ⟨_, h, fun hall => absurd (hbalanced.mp hall 500 (by decide)) (by decide), hcount 500 (by decide)⟩

/-- The order in which the records come makes no difference to a report. -/
theorem reconcile_order (hperm : others.Perm records) (h : reconcile engine secondsOf records accountId assetCode dateRange = .ok report) :
    reconcile engine secondsOf others accountId assetCode dateRange = .ok report := by
  obtain ⟨actual, hactual, rfl⟩ := reconcile_ok_iff.mp h
  obtain ⟨actual', hactual', hsame⟩ := mapM_perm ((((hperm.filter _).filter _).filter _).filter _) hactual
  refine reconcile_ok_iff.mpr ⟨actual', hactual', ?_⟩
  simp only [findingsFrom_eq, found_perm hsame]

theorem reconcile_order_page :
    reconcile payer (fun _ => .finite 6) page.reverse "G" "native" ⟨.finite 0, .finite 9⟩ =
      reconcile payer (fun _ => .finite 6) page "G" "native" ⟨.finite 0, .finite 9⟩ :=
  reconcile_order (List.reverse_perm page) rfl

end Reports

end SplitSdk.Reconciliation
