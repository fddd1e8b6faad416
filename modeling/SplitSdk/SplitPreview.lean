import SplitSdk.Numbers
import SplitSdk.OrderedMap

namespace SplitSdk.SplitPreview

open Numbers OrderedMap

section Data

structure Tier where
  upTo : Int
  bps : JsNumber
  deriving DecidableEq

inductive SplitRule
  | fixed (recipient : String) (amount : Int)
  | percentage (recipient : String) (bps : JsNumber)
  | tiered (recipient : String) (tiers : List Tier)
  deriving DecidableEq

namespace SplitRule

def recipient : SplitRule → String
  | .fixed recipient _ | .percentage recipient _ | .tiered recipient _ => recipient

def isFixed : SplitRule → Bool
  | .fixed _ _ => true
  | .percentage _ _ | .tiered _ _ => false

end SplitRule

structure Recipient where
  address : String
  amount : Int
  deriving DecidableEq

/-- What a preview reads of an invoice. -/
structure Payouts where
  recipients : List Recipient
  splitRules : Option (List SplitRule) := none
  deriving DecidableEq

structure SplitPreviewEntry where
  recipient : String
  amount : Int
  deriving DecidableEq

inductive Failure
  | rangeError (message : String)
  | duplicateRecipient (addresses : List String)
  deriving DecidableEq

inductive DedupMode
  | merge
  | reject
  deriving DecidableEq

end Data

section Deduplication

-- `toUpperCase` follows the tables of Unicode, of which nothing is needed here.
variable (toUpperCase : String → String)

def normalizeAccountId (address : String) : String := toUpperCase address

def countEntry (counts : OrdMap String Nat) (r : Recipient) : OrdMap String Nat :=
  let norm := normalizeAccountId toUpperCase r.address
  counts.set norm ((counts.get? norm).getD 0 + 1)

def mergeEntry (mode : DedupMode) (firstEntry : OrdMap String Recipient) (r : Recipient) : OrdMap String Recipient :=
  let norm := normalizeAccountId toUpperCase r.address
  match firstEntry.get? norm, mode with
  | none, _ => firstEntry.set norm r
  | some existing, .merge => firstEntry.set norm { existing with amount := existing.amount + r.amount }
  | some _, .reject => firstEntry

/-- One entry for each account, where it is first named. -/
def inOrder (firstEntry : OrdMap String Recipient) : List String → List Recipient → List Recipient
  | _, [] => []
  | added, r :: rest =>
      let norm := normalizeAccountId toUpperCase r.address
      if norm ∈ added then inOrder firstEntry added rest
      else (firstEntry.get? norm).toList ++ inOrder firstEntry (norm :: added) rest

def deduplicateRecipients (recipients : List Recipient) (mode : DedupMode) : Except Failure (List Recipient) :=
  let counts := recipients.foldl (countEntry toUpperCase) .empty
  let firstEntry := recipients.foldl (mergeEntry toUpperCase mode) .empty
  let duplicates := (counts.entries.filter (fun entry => 1 < entry.2)).filterMap
    (fun entry => (firstEntry.get? entry.1).map Recipient.address)
  if mode = .reject ∧ duplicates ≠ [] then .error (.duplicateRecipient duplicates)
  else .ok (inOrder toUpperCase firstEntry [] recipients)

end Deduplication

section Rules

/-- `BigInt(Math.max(0, Math.trunc(bps)))`. -/
def basisPoints (bps : JsNumber) : Except Failure Int :=
  match bps with
  | .finite q => .ok (max 0 (if 0 ≤ q then ⌊q⌋ else ⌈q⌉))
  | .infinity true => .ok 0
  | .nan | .infinity false =>
      let text := Numbers.toString bps
      .error (.rangeError s!"The number {text} cannot be converted to a BigInt because it is not an integer")

/-- The loop over the tiers, from the bound of the one before. -/
def tierTotal (funded : Int) : Int → Int → List Tier → Except Failure Int
  | _, total, [] => .ok total
  | lower, total, tier :: tiers =>
      if funded ≤ lower then .ok total
      else
        let bandTop := if funded < tier.upTo then funded else tier.upTo
        if lower < bandTop then do
          let bps ← basisPoints tier.bps
          tierTotal funded tier.upTo (total + ((bandTop - lower) * bps).tdiv 10000) tiers
        else tierTotal funded tier.upTo total tiers

def applyRule (rule : SplitRule) (funded remaining : Int) : Except Failure Int :=
  match rule with
  | .fixed _ amount =>
      let amount := if amount < 0 then 0 else amount
      .ok (if remaining < amount then remaining else amount)
  | .percentage _ bps => do
      let bps ← basisPoints bps
      return (funded * bps).tdiv 10000
  | .tiered _ tiers => tierTotal funded 0 0 tiers

/-- The loop over the rules. -/
def applyRules (funded : Int) : Int → List SplitRule → Except Failure (List SplitPreviewEntry)
  | _, [] => .ok []
  | remaining, rule :: rules => do
      let amount ← applyRule rule funded remaining
      let left := remaining - amount
      let entries ← applyRules funded (if left < 0 then 0 else left) rules
      return { recipient := rule.recipient, amount } :: entries

end Rules

section Preview

variable (toUpperCase : String → String) (invoice : Payouts)

def proportionalFallback (funded : Int) : Except Failure (List SplitPreviewEntry) := do
  let deduped ← deduplicateRecipients toUpperCase invoice.recipients .merge
  let totalOwed := (deduped.map Recipient.amount).sum
  let denominator := if totalOwed = 0 then 1 else totalOwed
  return deduped.map (fun r => { recipient := r.address, amount := (funded * r.amount).tdiv denominator })

def previewSplitRules (fundedAmount : Int) : Except Failure (List SplitPreviewEntry) :=
  let rules := invoice.splitRules.getD []
  if rules.length = 0 then proportionalFallback toUpperCase invoice fundedAmount
  else applyRules fundedAmount (if fundedAmount < 0 then 0 else fundedAmount) rules

end Preview

end SplitSdk.SplitPreview
