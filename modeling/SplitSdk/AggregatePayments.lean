import SplitSdk.BoundedLoop
import SplitSdk.Numbers

namespace SplitSdk.AggregatePayments

open BoundedLoop Numbers

inductive SplitStrategy
  | equal
  | proportional
  | custom
  /-- A value outside the union, which only an untyped caller can pass. -/
  | unknown (name : String)
  deriving DecidableEq

structure PaymentAllocation where
  invoiceId : Int
  amount : Int
  percentOfBudget : ℚ
  deriving DecidableEq

structure Recipient where
  amount : Int

structure Invoice where
  recipients : List Recipient
  funded : Int

/-- What a call can throw: a `ValidationError` with its context, the `RangeError`
of `BigInt`, or whatever a caller's fetcher rejects with. -/
inductive Thrown
  | validation (message : String) (context : List (String × String))
  | range (message : String)
  | rejected (reason : String)
  deriving DecidableEq

abbrev InvoiceRemainingFetcher := Int → Except Thrown Int

abbrev InvoiceSource := String → Except Thrown Invoice

inductive AmountLookup
  | map (get : Int → Option Int)
  | record (get : String → Option (Int ⊕ JsNumber))

structure AggregatePaymentsOptions where
  weights : Option (List JsNumber) := none
  remaining : Option AmountLookup := none
  targets : Option AmountLookup := none
  fetchRemaining : Option InvoiceRemainingFetcher := none
  invoiceSource : Option InvoiceSource := none

def weightScale : Int := 1_000_000
def percentScale : Int := 10_000
def weightSumTolerance : ℚ := 1 / 1_000_000
def maxAllocationPasses : Nat := 1_024

def remainingForInvoice (invoice : Invoice) : Int :=
  let target := (invoice.recipients.map (·.amount)).sum
  let remaining := target - invoice.funded
  if remaining > 0 then remaining else 0

def createInvoiceRemainingFetcher (source : InvoiceSource) : InvoiceRemainingFetcher :=
  fun invoiceId => (source (ToString.toString invoiceId)).map remainingForInvoice

def SplitStrategy.text : SplitStrategy → String
  | .equal => "equal"
  | .proportional => "proportional"
  | .custom => "custom"
  | .unknown name => name

def assertValidStrategy (strategy : SplitStrategy) : Except Thrown Unit :=
  if strategy ≠ .equal ∧ strategy ≠ .proportional ∧ strategy ≠ .custom then
    .error (.validation
      ("Unknown payment allocation strategy \"" ++ strategy.text ++
        "\". Expected \"equal\", \"proportional\" or \"custom\".") [("strategy", strategy.text)])
  else .ok ()

/-- The loop of `assertNoDuplicates`; the second argument is its set `seen`. -/
def assertNoDuplicates : List Int → List String → Except Thrown Unit
  | [], _ => .ok ()
  | invoiceId :: ids, seen =>
      let key := ToString.toString invoiceId
      if key ∈ seen then
        .error (.validation ("Duplicate invoice ID " ++ key ++ " in aggregatePayments input.")
          [("invoiceId", key)])
      else assertNoDuplicates ids (key :: seen)

def lookupAmount (source : Option AmountLookup) (invoiceId : Int) : Except Thrown (Option Int) :=
  match source with
  | none => .ok none
  | some (.map get) => .ok (get invoiceId)
  | some (.record get) =>
      match get (ToString.toString invoiceId) with
      | none => .ok none
      | some (.inl raw) => .ok (some raw)
      | some (.inr raw) =>
          match truncToBigInt raw with
          | some n => .ok (some n)
          | none => .error (.range ("The number " ++ Numbers.toString raw ++
              " cannot be converted to a BigInt because it is not an integer"))

/-- The checking loop of `resolveCustomWeights`; it leaves the sum of the weights. -/
def sumWeights : List JsNumber → ℚ → Except Thrown ℚ
  | [], sum => .ok sum
  | weight :: rest, sum =>
      match weight with
      | .finite q =>
          if q < 0 then .error (invalid weight) else sumWeights rest (sum + q)
      | _ => .error (invalid weight)
where
  invalid (weight : JsNumber) : Thrown :=
    .validation ("Custom weights must be finite, non-negative numbers (received " ++
      Numbers.toString weight ++ ").") [("weight", Numbers.toString weight)]

def scaleWeight : JsNumber → Int
  | .finite q => mathRound (q * weightScale)
  | _ => 0

def resolveCustomWeights (weights : Option (List JsNumber)) (invoiceCount : Nat) :
    Except Thrown (List Int) :=
  match weights with
  | none => .error (.validation
      "The \"custom\" strategy requires a `weights` array with one entry per invoice." [])
  | some weights =>
      if weights.length ≠ invoiceCount then
        .error (.validation ("Custom weights must contain one entry per invoice (expected " ++
          ToString.toString invoiceCount ++ ", received " ++ ToString.toString weights.length ++ ").")
          [("expected", ToString.toString invoiceCount),
            ("received", ToString.toString weights.length)])
      else do
        let sum ← sumWeights weights 0
        if |sum - 100| > weightSumTolerance then
          .error (.validation ("Custom weights must sum to 100 (received " ++
            Numbers.toString (.finite sum) ++ ").") [("sum", Numbers.toString (.finite sum))])
        else .ok (weights.map scaleWeight)

def chooseFetcher (options : AggregatePaymentsOptions)
    (defaultRemainingFetcher : Option InvoiceRemainingFetcher) : Option InvoiceRemainingFetcher :=
  match options.fetchRemaining with
  | some fetcher => some fetcher
  | none =>
      match options.invoiceSource with
      | some source => some (createInvoiceRemainingFetcher source)
      | none => defaultRemainingFetcher

def requireRemaining (invoiceId : Int) : Option Int → Except Thrown Int
  | none => .error (.validation ("No source of invoice remaining amounts available. Pass " ++
      "`remaining`, `fetchRemaining` or `invoiceSource`, or call " ++
      "registerInvoiceRemainingFetcher().") [("invoiceId", ToString.toString invoiceId)])
  | some amount => .ok (if amount > 0 then amount else 0)

def lookupOrFetch (options : AggregatePaymentsOptions) (fetcher : Option InvoiceRemainingFetcher)
    (invoiceId : Int) : Except Thrown (Option Int) := do
  match ← lookupAmount options.remaining invoiceId, fetcher with
  | none, some fetch => some <$> fetch invoiceId
  | found, _ => return found

def resolveRemaining (options : AggregatePaymentsOptions)
    (fetcher : Option InvoiceRemainingFetcher) (invoiceId : Int) : Except Thrown Int := do
  requireRemaining invoiceId (← lookupOrFetch options fetcher invoiceId)

def resolveRemainingAmounts (invoiceIds : List Int) (options : AggregatePaymentsOptions)
    (defaultRemainingFetcher : Option InvoiceRemainingFetcher) : Except Thrown (List Int) :=
  invoiceIds.mapM (resolveRemaining options (chooseFetcher options defaultRemainingFetcher))

def proportionalWeight (options : AggregatePaymentsOptions) (invoiceId amount : Int) :
    Except Thrown Int := do
  match ← lookupAmount options.targets invoiceId with
  | none => return amount
  | some target => return if target ≤ 0 then 0 else (amount * weightScale).tdiv target

def resolveWeights (strategy : SplitStrategy) (remaining : List Int)
    (options : AggregatePaymentsOptions) (invoiceIds : List Int) : Except Thrown (List Int) :=
  match strategy with
  | .equal => .ok (remaining.map (fun _ => 1))
  | .custom => resolveCustomWeights options.weights invoiceIds.length
  | _ => (invoiceIds.zip remaining).mapM (fun p => proportionalWeight options p.1 p.2)

structure Leftover where
  index : Nat
  remainder : Int

/-- The variables one pass over the active entries accumulates into. -/
structure Handout where
  allocations : List Int
  distributed : Int
  leftovers : List Leftover

/-- How a pass divides the pool: `numerator index / divisor`. -/
structure Division where
  proRata : Bool
  weightSum : Int
  evenDivisor : Int
  pool : Int

def Division.numerator (d : Division) (weights : List Int) (index : Nat) : Int :=
  if d.proRata then d.pool * weights.getD index 0 else d.pool

def Division.divisor (d : Division) : Int := if d.proRata then d.weightSum else d.evenDivisor

/-- The body of the loop over the active entries. -/
def handOut (weights remaining : List Int) (d : Division) (acc : Handout) (index : Nat) : Handout :=
  let numerator := d.numerator weights index
  let share := numerator.tdiv d.divisor
  let capacity := remaining.getD index 0 - acc.allocations.getD index 0
  let share := if share > capacity then capacity else share
  let leftovers := acc.leftovers ++ [⟨index, numerator.tmod d.divisor⟩]
  if share > 0 then
    ⟨acc.allocations.set index (acc.allocations.getD index 0 + share),
      acc.distributed + share, leftovers⟩
  else ⟨acc.allocations, acc.distributed, leftovers⟩

/-- The comparator of `leftovers.sort`: largest remainder first, then lowest index. -/
def before (a b : Leftover) : Bool :=
  if a.remainder = b.remainder then a.index ≤ b.index else b.remainder < a.remainder

/-- The loop that deals rounding dust, with its `break` and its two `continue`s. -/
def dealDust (weights remaining : List Int) (proRata : Bool) :
    List Leftover → List Int → Int → List Int × Int
  | [], allocations, pool => (allocations, pool)
  | ⟨index, _⟩ :: leftovers, allocations, pool =>
      if pool = 0 then (allocations, pool)
      else if allocations.getD index 0 ≥ remaining.getD index 0 then
        dealDust weights remaining proRata leftovers allocations pool
      else if proRata ∧ weights.getD index 0 = 0 then
        dealDust weights remaining proRata leftovers allocations pool
      else
        dealDust weights remaining proRata leftovers
          (allocations.set index (allocations.getD index 0 + 1)) (pool - 1)

/-- The variables of `allocateWithCaps` that survive from pass to pass. -/
structure AllocState where
  allocations : List Int
  active : List Nat
  pool : Int

def division (weights : List Int) (s : AllocState) : Division :=
  let weightSum := (s.active.map (weights.getD · 0)).sum
  ⟨weightSum > 0, weightSum, s.active.length, s.pool⟩

/-- One turn of the `while` loop. -/
def allocationPass (weights remaining : List Int) (s : AllocState) : AllocState :=
  let d := division weights s
  let h := s.active.foldl (handOut weights remaining d) ⟨s.allocations, 0, []⟩
  let pool := s.pool - h.distributed
  let active := s.active.filter (fun index => h.allocations.getD index 0 < remaining.getD index 0)
  if h.distributed > 0 ∨ pool = 0 ∨ active.length = 0 then ⟨h.allocations, active, pool⟩
  else
    let dealt := dealDust weights remaining d.proRata (h.leftovers.mergeSort before)
      h.allocations pool
    ⟨dealt.1, active, dealt.2⟩

/-- The loop guard without its bound on the passes. -/
def Unfinished (s : AllocState) : Prop := s.pool > 0 ∧ s.active.length > 0

instance : DecidablePred Unfinished := fun s => by unfold Unfinished; infer_instance

def allocationLoop (weights remaining : List Int) (limit : Nat) (s : AllocState) : AllocState :=
  loop Unfinished (allocationPass weights remaining) limit s

def initialAllocation (remaining : List Int) (pool : Int) : AllocState :=
  ⟨remaining.map (fun _ => 0),
    (List.range remaining.length).filter (fun index => remaining.getD index 0 > 0), pool⟩

def allocateWithCaps (weights remaining : List Int) (pool : Int) : List Int :=
  (allocationLoop weights remaining maxAllocationPasses (initialAllocation remaining pool)).allocations

def percentOfBudget (amount budget : Int) : ℚ := ((amount * percentScale).tdiv budget : Int) / 100

/-- Malformed custom weights are reported even when nothing is to be distributed. -/
def validateWeights (strategy : SplitStrategy) (options : AggregatePaymentsOptions)
    (invoiceCount : Nat) : Except Thrown Unit :=
  if strategy = .custom then
    (fun _ => ()) <$> resolveCustomWeights options.weights invoiceCount
  else .ok ()

/-- The part of `aggregatePayments` after the remaining amounts are known. -/
def allocateBudget (budget : Int) (invoiceIds : List Int) (strategy : SplitStrategy)
    (options : AggregatePaymentsOptions) (remaining : List Int) :
    Except Thrown (List PaymentAllocation) :=
  let totalRemaining := remaining.sum
  let distributable := if budget < totalRemaining then budget else totalRemaining
  if distributable = 0 then .ok (invoiceIds.map (⟨·, 0, 0⟩))
  else do
    let weights ← resolveWeights strategy remaining options invoiceIds
    let allocations := allocateWithCaps weights remaining distributable
    .ok ((invoiceIds.zip allocations).map (fun p => ⟨p.1, p.2, percentOfBudget p.2 budget⟩))

def aggregatePayments (budget : Int) (invoiceIds : List Int) (strategy : SplitStrategy)
    (options : AggregatePaymentsOptions)
    (defaultRemainingFetcher : Option InvoiceRemainingFetcher) :
    Except Thrown (List PaymentAllocation) := do
  assertValidStrategy strategy
  if budget < 0 then
    .error (.validation "aggregatePayments budget must not be negative"
      [("budget", ToString.toString budget)])
  else if invoiceIds.length = 0 then .ok []
  else do
    assertNoDuplicates invoiceIds []
    validateWeights strategy options invoiceIds.length
    let remaining ← resolveRemainingAmounts invoiceIds options defaultRemainingFetcher
    allocateBudget budget invoiceIds strategy options remaining

end SplitSdk.AggregatePayments
