import SplitSdk.BigIntText
import SplitSdk.DaoGovernance
import SplitSdk.GroupedFold

namespace SplitSdk.PaymentAggregation

open GroupedFold OrderedMap
open Numbers (JsNumber fl)
open DaoGovernance (inherited)

section Data

structure PaymentLedger where
  payer : String
  amount : Int
  ledger : Int
  timestamp : Option Int := none
  deriving DecidableEq

/-- A ledger that is no whole number counts as none. -/
structure Payment where
  payer : String
  amount : Int
  ledger : Option Int := none
  timestamp : Option Int := none

structure Recipient where
  address : String
  amount : Int

structure Invoice where
  id : String
  recipients : List Recipient
  funded : Int
  payments : List Payment := []

structure PaymentAggregator where
  invoiceId : String
  invoiceTotal : Int
  baseFunded : Int := 0
  totalFunded : Int := 0
  percentFunded : JsNumber := .finite 0
  payerBreakdown : OrdMap String Int := .empty
  paymentCount : Nat := 0
  lastLedger : Int := 0
  payments : List PaymentLedger := []
  seenPayments : List String := []

structure PaymentSnapshotPayer where
  address : String
  amount : String

structure PaymentSnapshotPayment where
  payer : String
  amount : String
  ledger : Int
  timestamp : Option Int := none

structure PaymentSnapshot where
  snapshotId : String
  capturedAt : Int
  invoiceId : String
  invoiceTotal : String
  baseFunded : String
  totalFunded : String
  percentFunded : JsNumber
  payerBreakdown : List PaymentSnapshotPayer
  paymentCount : Nat
  lastLedger : Int
  payments : List PaymentSnapshotPayment

end Data

section Aggregator

variable (localeCompare : String → String → Int) (a : PaymentAggregator)

def PERCENT_SCALE : Int := 10000

def hasLedger (payment : Payment) : Option PaymentLedger :=
  payment.ledger.map (fun ledger => ⟨payment.payer, payment.amount, ledger, payment.timestamp⟩)

def paymentKey (payment : PaymentLedger) : String := s!"{payment.payer}:{payment.ledger}"

def comparePayments (p q : PaymentLedger) : Int :=
  let ledgerDelta := p.ledger - q.ledger
  if ledgerDelta ≠ 0 then ledgerDelta
  else
    let payerDelta := localeCompare p.payer q.payer
    if payerDelta ≠ 0 then payerDelta
    else if p.amount < q.amount then -1
    else if q.amount < p.amount then 1
    else 0

def sumAmounts (payments : List PaymentLedger) : Int := payments.foldl (fun total payment => total + payment.amount) 0

/-- The groups of an empty object. For a name that every object inherits there is something else than a group to be pushed to, and the
call throws. A name that is an array index would come before the others. -/
def groupBy (payments : List PaymentLedger) : Option (OrdMap String (List PaymentLedger)) :=
  if payments.any (fun payment => inherited.contains payment.payer) then none
  else some (collect PaymentLedger.payer (fun group payment => group.getD [] ++ [payment]) payments)

def addPaymentToHistory (payment : PaymentLedger) : PaymentAggregator :=
  let key := paymentKey payment
  if key ∈ a.seenPayments then a
  else
    { a with
      seenPayments := a.seenPayments ++ [key]
      payments := (a.payments ++ [payment]).mergeSort (fun p q => comparePayments localeCompare p q ≤ 0) }

def calculatePercent (totalFunded : Int) : JsNumber :=
  if a.invoiceTotal ≤ 0 then if 0 < totalFunded then .finite 100 else .finite 0
  else
    let cappedTotal := if a.invoiceTotal < totalFunded then a.invoiceTotal else totalFunded
    let scaledPercent := (cappedTotal * PERCENT_SCALE).tdiv a.invoiceTotal
    match fl scaledPercent with
    | .finite q => fl (q / 100)
    | x => x

/-- The sums of the groups. -/
def breakdownOf (groups : OrdMap String (List PaymentLedger)) : OrdMap String Int :=
  groups.entries.foldl (fun payerBreakdown group => payerBreakdown.set group.1 (sumAmounts group.2)) .empty

def recompute : Option PaymentAggregator :=
  let totalFunded := a.payments.foldl (fun totalFunded payment => totalFunded + payment.amount) a.baseFunded
  let lastLedger := a.payments.foldl (fun lastLedger payment => max lastLedger payment.ledger) 0
  (groupBy a.payments).map (fun groupedPayments =>
    { a with
      totalFunded
      percentFunded := calculatePercent a totalFunded
      payerBreakdown := breakdownOf groupedPayments
      paymentCount := a.payments.length
      lastLedger })

def ledgered (invoice : Invoice) : List PaymentLedger := invoice.payments.filterMap hasLedger

def constructor (invoice : Invoice) : Option PaymentAggregator :=
  let invoiceTotal := invoice.recipients.foldl (fun total recipient => total + recipient.amount) 0
  let ledgeredTotal := sumAmounts (ledgered invoice)
  let baseFunded := if ledgeredTotal < invoice.funded then invoice.funded - ledgeredTotal else 0
  let a : PaymentAggregator := { invoiceId := invoice.id, invoiceTotal, baseFunded }
  recompute ((ledgered invoice).foldl (addPaymentToHistory localeCompare) a)

def applyPayment (payment : PaymentLedger) : Option PaymentAggregator := recompute (addPaymentToHistory localeCompare a payment)

def snapshot (sha256Hex : String → String) (capturedAt : Int) : PaymentSnapshot where
  snapshotId := sha256Hex s!"{a.invoiceId}:{capturedAt}:{a.lastLedger}"
  capturedAt
  invoiceId := a.invoiceId
  invoiceTotal := toString a.invoiceTotal
  baseFunded := toString a.baseFunded
  totalFunded := toString a.totalFunded
  percentFunded := a.percentFunded
  payerBreakdown := (a.payerBreakdown.entries.mergeSort (fun left right => localeCompare left.1 right.1 ≤ 0)).map
    (fun (address, amount) => ⟨address, toString amount⟩)
  paymentCount := a.paymentCount
  lastLedger := a.lastLedger
  payments := a.payments.map (fun (payment : PaymentLedger) =>
    ⟨payment.payer, toString payment.amount, payment.ledger, payment.timestamp⟩)

/-- A payment of a snapshot, unless its amount is no bigint. -/
def restored (payment : PaymentSnapshotPayment) : Option PaymentLedger :=
  (BigIntText.ofString payment.amount).map (fun amount => ⟨payment.payer, amount, payment.ledger, payment.timestamp⟩)

def restore (snapshot : PaymentSnapshot) : Option PaymentAggregator := do
  let invoiceTotal ← BigIntText.ofString snapshot.invoiceTotal
  let baseFunded ← BigIntText.ofString snapshot.baseFunded
  let payments ← snapshot.payments.mapM restored
  recompute (payments.foldl (addPaymentToHistory localeCompare)
    { a with invoiceTotal, baseFunded, payments := [], seenPayments := [] })

end Aggregator

end SplitSdk.PaymentAggregation
