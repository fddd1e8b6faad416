import SplitSdk.OfflineQueue
import SplitSdk.SplitPreview

namespace SplitSdk.InvoiceDiff

open Numbers OfflineQueue SplitPreview

section Values

/-- What the fields of an invoice hold. -/
inductive Value
  | undefined
  | null
  | bool (b : Bool)
  | number (x : JsNumber)
  | bigint (n : Int)
  | string (s : String)
  | array (items : List Value)
  | object (fields : List (String × Value))

/-- `n === BigInt(x)`, or the message of the error that `BigInt` throws. -/
def equalsNumber (n : Int) : JsNumber → Except String Bool
  | .finite q =>
      if q.den = 1 then .ok (decide (q.num = n))
      else
        let text := Numbers.toString (.finite q)
        .error s!"The number {text} cannot be converted to a BigInt because it is not an integer"
  | x =>
      let text := Numbers.toString x
      .error s!"The number {text} cannot be converted to a BigInt because it is not an integer"

mutual

def valuesEqual : Value → Value → Except String Bool
  | .bigint a, .bigint b => .ok (decide (a = b))
  | .bigint a, .number b => equalsNumber a b
  | .number a, .bigint b => equalsNumber b a
  | .array a, .array b => if a.length ≠ b.length then .ok false else arraysEqual a b
  | .object a, .object b => if a.length ≠ b.length then .ok false else objectsEqual a b
  | .undefined, .undefined | .null, .null => .ok true
  | .bool a, .bool b => .ok (a == b)
  | .number a, .number b => .ok (a = b && a ≠ .nan)
  | .string a, .string b => .ok (a == b)
  | _, _ => .ok false

/-- The loop over two arrays of one length. -/
def arraysEqual : List Value → List Value → Except String Bool
  | [], _ | _, [] => .ok true
  | a :: as, b :: bs => do
      let same ← valuesEqual a b
      if same then arraysEqual as bs else return false

/-- The loop over the keys of the first object. -/
def objectsEqual : List (String × Value) → List (String × Value) → Except String Bool
  | [], _ => .ok true
  | (key, a) :: rest, fields =>
      match fields.lookup key with
      | none => .ok false
      | some b => do
          let same ← valuesEqual a b
          if same then objectsEqual rest fields else return false

end

def formatValue : Value → String
  | .undefined | .null => "(none)"
  | .bigint n => toString n
  | .array items =>
      let count := items.length
      s!"[{count} items]"
  | .object _ => "[object]"
  | .number x => Numbers.toString x
  | .bool b => if b then "true" else "false"
  | .string s => s

end Values

section Invoices

/-- An invoice; the fields that nothing but the comparison reads are kept by name. -/
structure Invoice extends Payouts where
  status : InvoiceStatus
  funded : Int
  payments : List Value := []
  others : List (String × Value) := []

def tierValue (tier : Tier) : Value := .object [("upTo", .bigint tier.upTo), ("bps", .number tier.bps)]

def ruleValue : SplitRule → Value
  | .fixed recipient amount =>
      .object [("kind", .string "Fixed"), ("recipient", .string recipient), ("amount", .bigint amount)]
  | .percentage recipient bps =>
      .object [("kind", .string "Percentage"), ("recipient", .string recipient), ("bps", .number bps)]
  | .tiered recipient tiers =>
      .object [("kind", .string "Tiered"), ("recipient", .string recipient), ("tiers", .array (tiers.map tierValue))]

def recipientValue (r : Recipient) : Value := .object [("address", .string r.address), ("amount", .bigint r.amount)]

/-- `invoice[field]`. -/
def Invoice.get (invoice : Invoice) (field : String) : Value :=
  if field = "recipients" then .array (invoice.recipients.map recipientValue)
  else if field = "funded" then .bigint invoice.funded
  else if field = "status" then .string invoice.status.text
  else if field = "payments" then .array invoice.payments
  else if field = "split_rules" then
    (invoice.splitRules.map (fun rules => Value.array (rules.map ruleValue))).getD .undefined
  else (invoice.others.lookup field).getD .undefined

def invoiceFields : List String :=
  ["id", "creator", "recipients", "token", "deadline", "funded", "status", "payments", "recurring", "memo",
    "scheduledReleaseDate", "clonedFrom", "groupId", "lastModifiedLedger", "prerequisites", "parentInvoiceId",
    "cloneDepth", "nft_gate", "forward_invoice_id", "penalty_deadline", "penalty_tiers", "allowed_callers",
    "split_rules", "auto_resolve_rules", "prerequisite_id"]

structure InvoiceDiffEntry where
  field : String
  before : Value
  after : Value

/-- The loop over the fields; an absent field differs from every other value. -/
def diffFields (a b : Invoice) : List String → Except String (List InvoiceDiffEntry)
  | [] => .ok []
  | field :: fields => do
      let before := a.get field
      let after := b.get field
      let same ← valuesEqual before after
      let rest ← diffFields a b fields
      return if same then rest else { field, before, after } :: rest

def diffInvoices (a b : Invoice) : Except String (List InvoiceDiffEntry) := diffFields a b invoiceFields

def buildChangeSummary (diff : List InvoiceDiffEntry) : String :=
  if diff.length = 0 then "No fields changed."
  else String.intercalate "; " (diff.map (fun entry =>
    let field := entry.field
    let before := formatValue entry.before
    let after := formatValue entry.after
    s!"{field}: {before} → {after}"))

end Invoices

end SplitSdk.InvoiceDiff
