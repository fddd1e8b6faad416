import SplitSdk.Fallible
import SplitSdk.NumberText
import Mathlib.Data.List.Sort

namespace SplitSdk.InvoiceQuery

open Numbers Fallible

section Data

inductive InvoiceStatus
  | pending | released | refunded | cancelled
  deriving DecidableEq

structure Recipient where
  amount : Int
  deriving DecidableEq

structure Invoice where
  id : String
  creator : String
  recipients : List Recipient
  status : InvoiceStatus := .pending
  funded : Int := 0
  createdAt : Option JsNumber := none
  memo : Option String := none
  tags : Option (List String) := none
  deriving DecidableEq

inductive InvoiceSort
  | newest | oldest | highest | lowest
  deriving DecidableEq

def invoiceSorts : List (String × InvoiceSort) :=
  [("newest", .newest), ("oldest", .oldest), ("highest", .highest), ("lowest", .lowest)]

def defaultQueryLimit : Nat := 20

structure InvoiceFilter where
  creator : Option String := none
  status : Option (List InvoiceStatus) := none
  minAmount : Option Int := none
  maxAmount : Option Int := none
  fromDate : Option JsNumber := none
  toDate : Option JsNumber := none
  tags : Option (List String) := none
  limit : Option JsNumber := none
  cursor : Option String := none
  sort : Option String := none

structure InvoicePage where
  items : List Invoice
  nextCursor : Option String
  total : Nat
  deriving DecidableEq

/-- A `RangeError` is thrown by a conversion to `bigint`. -/
inductive QueryError
  | validation (message : String)
  | range
  deriving DecidableEq

/-- What the platform's locale decides; of a comparison only the sign is kept. -/
structure TextLocale where
  toLowerCase : String → String
  localeCompare : String → String → Ordering
  consistent : Std.TransCmp localeCompare

end Data

section Fields

def invoiceTotal (invoice : Invoice) : Int :=
  if invoice.recipients.length > 0 then (invoice.recipients.map Recipient.amount).sum else invoice.funded

/-- Seconds or milliseconds, as milliseconds. -/
def toMs (date : JsNumber) : JsNumber :=
  if (JsNumber.finite (10 ^ 12)).lt date then date else date.mul (.finite 1000)

def createdAtMs (invoice : Invoice) : Option JsNumber :=
  match invoice.createdAt with
  | some (.finite q) => if q ≤ 0 then none else some (toMs (.finite q))
  | _ => none

def isTagChar (c : Char) : Bool := c.isAlphanum || c = '_' || c = '-'

/-- The matches of `#([\w-]+)`, without the `#`; the first argument is the tag that is being read. -/
def hashtags : Option (List Char) → List Char → List String
  | none, [] => []
  | some tag, [] => if tag = [] then [] else [String.ofList tag]
  | none, c :: cs => hashtags (if c = '#' then some [] else none) cs
  | some tag, c :: cs =>
      if isTagChar c then hashtags (some (tag ++ [c])) cs
      else (if tag = [] then [] else [String.ofList tag]) ++ hashtags (if c = '#' then some [] else none) cs

def getInvoiceTags (locale : TextLocale) (invoice : Invoice) : List String :=
  match invoice.tags with
  | some (tag :: tags) => (tag :: tags).map locale.toLowerCase
  | _ => (hashtags none (invoice.memo.getD "").toList).map locale.toLowerCase

end Fields

section Filters

structure ResolvedFilter where
  creator : Option String
  status : Option (List InvoiceStatus)
  minAmount : Option Int
  maxAmount : Option Int
  fromDate : Option JsNumber
  toDate : Option JsNumber
  tags : Option (List String)
  sort : InvoiceSort
  limit : Nat

def isInteger : JsNumber → Bool
  | .finite q => q.den = 1
  | _ => false

/-- Both bounds are given, and the first exceeds the second. -/
def inverted {α : Type} (less : α → α → Bool) (lower upper : Option α) : Bool :=
  lower.any (fun lower => upper.any (fun upper => less upper lower))

def validateFilter (filter : InvoiceFilter) : Except QueryError Unit :=
  if filter.limit.any (fun limit => !isInteger limit || limit.le (.finite 0)) then
    .error (.validation "InvoiceFilter.limit must be a positive integer")
  else if inverted (fun a b => decide (a < b)) filter.minAmount filter.maxAmount then
    .error (.validation "InvoiceFilter.minAmount must not exceed maxAmount")
  else if inverted JsNumber.lt filter.fromDate filter.toDate then
    .error (.validation "InvoiceFilter.fromDate must not exceed toDate")
  else if filter.sort.any (fun sort => (invoiceSorts.lookup sort).isNone) then
    let names := ", ".intercalate (invoiceSorts.map Prod.fst)
    .error (.validation s!"InvoiceFilter.sort must be one of: {names}")
  else .ok ()

/-- An integral number as a natural one. -/
def natValue : JsNumber → Nat
  | .finite q => q.num.toNat
  | _ => 0

def resolveFilter (locale : TextLocale) (filter : InvoiceFilter) : ResolvedFilter where
  creator := filter.creator
  status := filter.status
  minAmount := filter.minAmount
  maxAmount := filter.maxAmount
  fromDate := filter.fromDate
  toDate := filter.toDate
  tags := filter.tags.map (fun tags => tags.map locale.toLowerCase)
  sort := (filter.sort.bind (fun sort => invoiceSorts.lookup sort)).getD .newest
  limit := (filter.limit.map natValue).getD defaultQueryLimit

def «matches» (locale : TextLocale) (invoice : Invoice) (filter : ResolvedFilter) : Bool :=
  filter.creator.all (fun creator => invoice.creator = creator) &&
    filter.status.all (fun status => status.contains invoice.status) &&
    filter.minAmount.all (fun minAmount => minAmount ≤ invoiceTotal invoice) &&
    filter.maxAmount.all (fun maxAmount => invoiceTotal invoice ≤ maxAmount) &&
    ((filter.fromDate.isNone && filter.toDate.isNone) ||
      (createdAtMs invoice).any (fun created =>
        filter.fromDate.all (fun date => !created.lt (toMs date)) && filter.toDate.all (fun date => !(toMs date).lt created))) &&
    filter.tags.all (fun tags => tags.all (getInvoiceTags locale invoice).contains)

end Filters

section Cursors

def encodeCursor (offset : Nat) : String := s!"off:{offset}"

def decodeCursor : Option String → Except QueryError (Option Nat)
  | none => .ok none
  | some cursor =>
      if cursor.toList.take 4 ≠ "off:".toList then
        .error (.validation "Invalid cursor: expected an \"off:<n>\" cursor")
      else
        let offset := parseInt 10 (cursor.toList.drop 4)
        if !isInteger offset || offset.lt (.finite 0) then
          .error (.validation "Invalid cursor: offset must be a non-negative integer")
        else .ok (some (natValue offset))

end Cursors

section Sorting

def compareBig (a b : Int) : Ordering := if a < b then .lt else if b < a then .gt else .eq

/-- `BigInt(x)`, which throws where `x` is not an integer. -/
def toBigInt : JsNumber → Except QueryError Int
  | .finite q => if q.den = 1 then .ok q.num else .error .range
  | _ => .error .range

def dateKey (invoice : Invoice) : JsNumber := (createdAtMs invoice).getD (.finite 0)

def totalKey (invoice : Invoice) : Int := invoiceTotal invoice

def tieBreak (locale : TextLocale) (a b : Invoice) : Ordering := locale.localeCompare a.id b.id

/-- `sort` by keys that are converted in every comparison. A conversion may throw, and each element of two or more is
compared at least once, where a single one is not. -/
def sortByKey (locale : TextLocale) (key : Invoice → Except QueryError Int) (compareKeys : Int → Int → Ordering)
    (invoices : List Invoice) : Except QueryError (List Invoice) :=
  if invoices.length < 2 then .ok invoices
  else do
    let keyed ← invoices.mapM (fun invoice => do return (← key invoice, invoice))
    return (keyed.mergeSort (fun a b => ((compareKeys a.1 b.1).then (tieBreak locale a.2 b.2)).isLE)).map Prod.snd

def sortInvoices (locale : TextLocale) (invoices : List Invoice) : InvoiceSort → Except QueryError (List Invoice)
  | .newest => sortByKey locale (fun invoice => toBigInt (dateKey invoice)) (fun a b => compareBig b a) invoices
  | .oldest => sortByKey locale (fun invoice => toBigInt (dateKey invoice)) compareBig invoices
  | .highest => sortByKey locale (fun invoice => .ok (totalKey invoice)) (fun a b => compareBig b a) invoices
  | .lowest => sortByKey locale (fun invoice => .ok (totalKey invoice)) compareBig invoices

end Sorting

section Queries

/-- The length of an array is below 2^32. -/
structure InvoiceQueryEngine where
  invoices : List Invoice
  short : invoices.length < 2 ^ 32

/-- A sum of an offset and a limit that is rounded is beyond every array. -/
def pageAt (matched : List Invoice) (offset limit : Nat) : InvoicePage :=
  let total := matched.length
  let items := (matched.drop offset).take limit
  let nextOffset := offset + items.length
  ⟨items, if nextOffset < total then some (encodeCursor nextOffset) else none, total⟩

def query (locale : TextLocale) (engine : InvoiceQueryEngine) (filter : InvoiceFilter) : Except QueryError InvoicePage := do
  validateFilter filter
  let resolved := resolveFilter locale filter
  let offset := (← decodeCursor filter.cursor).getD 0
  let matched ← sortInvoices locale (engine.invoices.filter (fun invoice => «matches» locale invoice resolved)) resolved.sort
  return pageAt matched offset resolved.limit

end Queries

end SplitSdk.InvoiceQuery
