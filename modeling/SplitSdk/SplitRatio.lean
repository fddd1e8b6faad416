import SplitSdk.NumberText
import Mathlib.Data.Rat.Floor
import Mathlib.Tactic.Linarith
import Mathlib.Tactic.Positivity

namespace SplitSdk.SplitRatio

open Numbers

section Data

structure RecipientShare where
  address : String
  share : ℚ

/-- The arrays of JavaScript have fewer than `2 ^ 32` elements. -/
structure SplitConfig where
  shares : List RecipientShare
  tolerance : Option ℚ := none
  minRatioPercent : Option ℚ := none
  bounded : shares.length < 2 ^ 32

structure SplitRatioValidationResult where
  valid : Bool
  errors : List String

structure Recipient where
  address : String
  amount : Int
  deriving DecidableEq

end Data

section Validation

variable (numberText toPrecision4 : ℚ → String)

def negativeError (share : RecipientShare) : String :=
  s!"Recipient {share.address} has a negative share ({numberText share.share}). Shares must be non-negative."

def zeroError (share : RecipientShare) : String :=
  s!"Recipient {share.address} has a zero share. Remove zero-weight entries."

def minimumError (minRatioPercent : ℚ) (share : RecipientShare) : String :=
  s!"Recipient {share.address} has a ratio of {toPrecision4 (share.share * 100)}% which is below the minimum " ++
    s!"{numberText minRatioPercent}%. Increase the recipient's share or set minRatioPercent to 0 to disable this check."

def duplicateErrors : List String → List RecipientShare → List String
  | _, [] => []
  | seen, share :: shares =>
      let rest := duplicateErrors (seen ++ [share.address]) shares
      if share.address ∈ seen then
        s!"Duplicate recipient address: {share.address}. Each recipient must appear only once." :: rest
      else rest

def sumError (sum tolerance : ℚ) : String :=
  s!"Share ratios sum to {numberText sum} but must sum to exactly 1.0 (tolerance: ±{numberText tolerance})."

def shareSum (shares : List RecipientShare) : ℚ := shares.foldl (fun acc s => acc + s.share) 0

def ratioErrors (config : SplitConfig) : List String :=
  let tolerance := config.tolerance.getD (1 / 10 ^ 9)
  let minRatioPercent := config.minRatioPercent.getD (1 / 100)
  (config.shares.filter (fun share => share.share < 0)).map (negativeError numberText) ++
    (config.shares.filter (fun share => share.share = 0)).map zeroError ++
    (if 0 < minRatioPercent then
      (config.shares.filter (fun share => 0 < share.share ∧ share.share < minRatioPercent / 100)).map
        (minimumError numberText toPrecision4 minRatioPercent)
    else []) ++
    duplicateErrors [] config.shares ++
    (if tolerance < |shareSum config.shares - 1| then [sumError numberText (shareSum config.shares) tolerance] else [])

def validateSplitRatios (config : SplitConfig) : SplitRatioValidationResult :=
  if config.shares = [] then ⟨false, ["At least one recipient share is required."]⟩
  else
    let errors := ratioErrors numberText toPrecision4 config
    ⟨errors.isEmpty, errors⟩

end Validation

section Amounts

/-- The turns of a loop that counts up to `Number(remainder)`. Beyond `2 ^ 53` the counter stands still and the loop does not end. -/
def loopCount (remainder : Int) : Option Nat :=
  match fl remainder with
  | .finite bound => if bound ≤ 2 ^ 53 then some ⌈bound⌉.toNat else none
  | .infinity negative => if negative then some 0 else none
  | .nan => some 0

/-- One more for each of the first entries; an entry after the last one is made from nothing. -/
def addOnes : Nat → List Int → List Int
  | 0, amounts => amounts
  | count + 1, [] => 1 :: addOnes count []
  | count + 1, amount :: amounts => (amount + 1) :: addOnes count amounts

def floored (total : Int) (share : ℚ) : Int := (total * ⌊share * 1000000⌋).tdiv 1000000

def ratiosToRecipients (config : SplitConfig) (total : Int) : Option (List Recipient) :=
  let amounts := config.shares.map (fun s => floored total s.share)
  let allocated := amounts.foldl (fun allocated amount => allocated + amount) 0
  let remainder := total - allocated
  (loopCount remainder).map (fun count =>
    config.shares.zipWith (fun s amount => ⟨s.address, amount⟩) (addOnes count amounts))

end Amounts

end SplitSdk.SplitRatio

namespace SplitSdk.SplitExactness

open Numbers SplitRatio

section Statement

/-- What remains of the exact amount of a share when the share is cut to millionths and the product to a whole stroop. -/
def lost (total : Nat) (share : ℚ) : ℚ := total * share - ⌊(total * ⌊share * 1000000⌋ : ℚ) / 1000000⌋

structure Splits (config : SplitConfig) (total : Nat) (recipients : List Recipient) : Prop where
  addresses : recipients.map Recipient.address = config.shares.map RecipientShare.address
  nonneg : ∀ recipient ∈ recipients, 0 ≤ recipient.amount
  sum : (recipients.map Recipient.amount).sum = total
  near : List.Forall₂ (fun recipient share => |(recipient.amount : ℚ) - total * share.share| < 1 + total / 1000000)
    recipients config.shares

def Exact (config : SplitConfig) (total : Nat) : Prop :=
  ∃ recipients, ratiosToRecipients config total = some recipients ∧ Splits config total recipients

end Statement

section Validation

variable {numberText toPrecision4 : ℚ → String} {config : SplitConfig}

theorem shareSum_eq (shares : List RecipientShare) : shareSum shares = (shares.map RecipientShare.share).sum := by
  have hfold (acc : ℚ) : shares.foldl (fun acc s => acc + s.share) acc = acc + (shares.map RecipientShare.share).sum := by
    induction shares generalizing acc with
    | nil => simp
    | cons s shares ih => rw [List.foldl_cons, ih, List.map_cons, List.sum_cons, add_assoc]
  exact (hfold 0).trans (zero_add _)

theorem ratioErrors_of_valid (h : (validateSplitRatios numberText toPrecision4 config).valid) :
    ratioErrors numberText toPrecision4 config = [] := by
  rw [validateSplitRatios] at h
  split_ifs at h with hempty
  exact List.isEmpty_iff.mp h

theorem positive_of_valid (h : (validateSplitRatios numberText toPrecision4 config).valid) :
    ∀ s ∈ config.shares, 0 < s.share := by
  have herrors := ratioErrors_of_valid h
  simp only [ratioErrors, List.append_eq_nil_iff, List.map_eq_nil_iff, List.filter_eq_nil_iff, decide_eq_true_eq] at herrors
  obtain ⟨⟨⟨⟨hnegative, hzero⟩, -⟩, -⟩, -⟩ := herrors
  exact fun s hs => lt_of_le_of_ne (not_lt.mp (hnegative s hs)) (Ne.symm (hzero s hs))

theorem sum_of_valid (htolerance : config.tolerance = some 0)
    (h : (validateSplitRatios numberText toPrecision4 config).valid) :
    (config.shares.map RecipientShare.share).sum = 1 := by
  have herrors := ratioErrors_of_valid h
  simp only [ratioErrors, List.append_eq_nil_iff, htolerance, Option.getD_some] at herrors
  have hsum := herrors.2
  split_ifs at hsum with hfar
  rw [← shareSum_eq]
  exact sub_eq_zero.mp (abs_nonpos_iff.mp (not_lt.mp hfar))

end Validation

section Floors

variable {total : Nat} {share : ℚ}

theorem floored_eq (h : 0 < share) : floored total share = ⌊(total * ⌊share * 1000000⌋ : ℚ) / 1000000⌋ := by
  have hunits : 0 ≤ ⌊share * 1000000⌋ := Int.floor_nonneg.mpr (by positivity)
  have hcast : ((total * ⌊share * 1000000⌋ : ℚ) / 1000000) =
      ((total * ⌊share * 1000000⌋ : Int) : ℚ) / ((1000000 : Nat) : ℚ) := by push_cast; rfl
  rw [floored, Int.tdiv_eq_ediv_of_nonneg (mul_nonneg (Int.natCast_nonneg total) hunits), hcast,
    Rat.floor_intCast_div_natCast]
  rfl

theorem lost_eq (h : 0 < share) : lost total share = total * share - floored total share := by
  rw [lost, floored_eq h]

theorem floored_nonneg (h : 0 < share) : 0 ≤ floored total share := by
  rw [floored_eq h]
  have hunits : 0 ≤ ⌊share * 1000000⌋ := Int.floor_nonneg.mpr (by positivity)
  exact Int.floor_nonneg.mpr (by positivity)

theorem lost_nonneg (total : Nat) (share : ℚ) : 0 ≤ lost total share := by
  have hunits := Int.floor_le (share * 1000000)
  have hfloor := Int.floor_le ((total * ⌊share * 1000000⌋ : ℚ) / 1000000)
  have hproduct := mul_le_mul_of_nonneg_left hunits (Nat.cast_nonneg (α := ℚ) total)
  rw [lost, sub_nonneg]
  linarith

theorem lost_lt (total : Nat) (share : ℚ) : lost total share < 1 + total / 1000000 := by
  have hunits := (Int.lt_floor_add_one (share * 1000000)).le
  have hfloor := Int.lt_floor_add_one ((total * ⌊share * 1000000⌋ : ℚ) / 1000000)
  have hproduct := mul_le_mul_of_nonneg_left hunits (Nat.cast_nonneg (α := ℚ) total)
  rw [lost]
  linarith

end Floors

section Amounts

variable (total : Nat)

/-- The recipients when the loop has taken some turns. -/
def paid (shares : List RecipientShare) (count : Nat) : List Recipient :=
  shares.zipWith (fun s amount => ⟨s.address, amount⟩) (addOnes count (shares.map (fun s => floored total s.share)))

/-- The stroop that a recipient gets in the loop. -/
def one (count : Nat) : Int := if count = 0 then 0 else 1

theorem paid_cons (s : RecipientShare) (shares : List RecipientShare) (count : Nat) :
    paid total (s :: shares) count =
      ⟨s.address, floored total s.share + one count⟩ :: paid total shares (count - 1) := by
  cases count with
  | zero => simp [paid, addOnes, one]
  | succ count => simp [paid, addOnes, one]

theorem paid_addresses (shares : List RecipientShare) (count : Nat) :
    (paid total shares count).map Recipient.address = shares.map RecipientShare.address := by
  induction shares generalizing count with
  | nil => rfl
  | cons s shares ih => rw [paid_cons, List.map_cons, List.map_cons, ih]

theorem paid_sum (shares : List RecipientShare) (count : Nat) :
    ((paid total shares count).map Recipient.amount).sum =
      (shares.map (fun s => floored total s.share)).sum + min count shares.length := by
  induction shares generalizing count with
  | nil => simp [paid]
  | cons s shares ih =>
      rw [paid_cons, List.map_cons, List.sum_cons, ih, List.map_cons, List.sum_cons, List.length_cons, one]
      dsimp only
      split_ifs <;> omega

theorem paid_near {shares : List RecipientShare} (hpositive : ∀ s ∈ shares, 0 < s.share) {count : Nat}
    (hcount : 0 < count → 0 < total) :
    List.Forall₂ (fun recipient share => |(recipient.amount : ℚ) - total * share.share| < 1 + total / 1000000)
      (paid total shares count) shares := by
  induction shares generalizing count with
  | nil => exact .nil
  | cons s shares ih =>
      rw [List.forall_mem_cons] at hpositive
      rw [paid_cons]
      refine .cons ?_ (ih hpositive.2 (fun h => hcount (by omega)))
      have hlost : lost total s.share = total * s.share - floored total s.share := lost_eq hpositive.1
      have hnonneg := lost_nonneg total s.share
      have hlt := lost_lt total s.share
      rw [abs_lt, one]
      split_ifs with hzero
      · push_cast
        constructor <;> linarith
      · have htotal : (0 : ℚ) < total := Nat.cast_pos.mpr (hcount (Nat.pos_of_ne_zero hzero))
        push_cast
        constructor <;> linarith

theorem paid_nonneg {shares : List RecipientShare} (hpositive : ∀ s ∈ shares, 0 < s.share) (count : Nat) :
    ∀ recipient ∈ paid total shares count, 0 ≤ recipient.amount := by
  induction shares generalizing count with
  | nil => exact List.forall_mem_nil _
  | cons s shares ih =>
      rw [List.forall_mem_cons] at hpositive
      rw [paid_cons, List.forall_mem_cons]
      refine ⟨add_nonneg (floored_nonneg hpositive.1) ?_, ih hpositive.2 _⟩
      rw [one]
      split_ifs <;> omega

end Amounts

section Loop

theorem loopCount_natCast {n : Nat} (h : n < 2 ^ 53) : loopCount n = some n := by
  have hdouble : fl (n : ℚ) = .finite n := NumberText.isDouble_natCast h
  have hle : (n : ℚ) ≤ 2 ^ 53 := by exact_mod_cast h.le
  unfold loopCount
  rw [Int.cast_natCast, hdouble]
  dsimp only
  rw [if_pos hle, Int.ceil_natCast, Int.toNat_natCast]

theorem sum_lost (total : Nat) {shares : List RecipientShare} (hpositive : ∀ s ∈ shares, 0 < s.share) :
    (shares.map (fun s => lost total s.share)).sum =
      total * (shares.map RecipientShare.share).sum - ((shares.map (fun s => floored total s.share)).sum : Int) := by
  induction shares with
  | nil => simp
  | cons s shares ih =>
      rw [List.forall_mem_cons] at hpositive
      simp only [List.map_cons, List.sum_cons, ih hpositive.2, lost_eq hpositive.1]
      push_cast
      ring

theorem ratiosToRecipients_eq (config : SplitConfig) (total : Nat) : ratiosToRecipients config total =
    (loopCount (total - (config.shares.map (fun s => floored total s.share)).sum)).map (paid total config.shares) := by
  rw [ratiosToRecipients, ← List.sum_eq_foldl]
  rfl

end Loop

section Result

/-- The amounts are exact when the loop has no more to deal out than one stroop for each recipient. -/
theorem split_exact_iff (numberText toPrecision4 : ℚ → String) (config : SplitConfig) (total : Nat)
    (htolerance : config.tolerance = some 0) (hvalid : (validateSplitRatios numberText toPrecision4 config).valid) :
    Exact config total ↔ (config.shares.map (fun s => lost total s.share)).sum ≤ config.shares.length := by
  have hpositive := positive_of_valid hvalid
  have hlost := sum_lost total hpositive
  rw [sum_of_valid htolerance hvalid, mul_one] at hlost
  rw [Exact, ratiosToRecipients_eq, hlost]
  constructor
  · rintro ⟨recipients, hrecipients, hsplits⟩
    obtain ⟨count, -, rfl⟩ := Option.map_eq_some_iff.mp hrecipients
    have hsum := hsplits.sum
    rw [paid_sum] at hsum
    have hfew : (total : Int) - (config.shares.map (fun s => floored total s.share)).sum ≤ config.shares.length := by
      omega
    exact_mod_cast hfew
  · intro hfew
    have hrest : 0 ≤ (total : Int) - (config.shares.map (fun s => floored total s.share)).sum := by
      have hnonneg : 0 ≤ (config.shares.map (fun s => lost total s.share)).sum := by
        apply List.sum_nonneg
        intro x hx
        obtain ⟨s, -, rfl⟩ := List.mem_map.mp hx
        exact lost_nonneg total s.share
      rw [sum_lost total hpositive, sum_of_valid htolerance hvalid, mul_one] at hnonneg
      exact_mod_cast hnonneg
    obtain ⟨rest, hrest⟩ := Int.eq_ofNat_of_zero_le hrest
    have hle : rest ≤ config.shares.length := by
      have : ((total : Int) - (config.shares.map (fun s => floored total s.share)).sum : Int) ≤ config.shares.length := by
        exact_mod_cast hfew
      omega
    have hbounded := config.bounded
    rw [hrest, loopCount_natCast (by omega)]
    refine ⟨_, rfl, paid_addresses total _ _, paid_nonneg total hpositive rest, ?_, ?_⟩
    · rw [paid_sum]
      omega
    · apply paid_near total hpositive
      intro hpos
      have hfloors : 0 ≤ (config.shares.map (fun s => floored total s.share)).sum := by
        apply List.sum_nonneg
        intro x hx
        obtain ⟨s, hs, rfl⟩ := List.mem_map.mp hx
        exact floored_nonneg (hpositive s hs)
      omega

/-- Shares that sum to one, so that no text is made. -/
def noText (_ : ℚ) : String := ""

def halves : SplitConfig where
  shares := [⟨"GA", 1 / 2⟩, ⟨"GB", 1 / 2⟩]
  tolerance := some 0
  bounded := by decide

theorem split_exact_halves : Exact halves 7 :=
  (split_exact_iff noText noText halves 7 rfl (by decide +kernel)).mpr (by decide +kernel)

def thirds : SplitConfig where
  shares := [⟨"GA", 1 / 3⟩, ⟨"GB", 1 / 3⟩, ⟨"GC", 1 / 3⟩]
  tolerance := some 0
  bounded := by decide

/-- Seven of the ten stroops that are left go to no recipient. -/
theorem split_exact_fail : thirds.tolerance = some 0 ∧ (validateSplitRatios noText noText thirds).valid ∧
    (ratiosToRecipients thirds (10000000 : Nat)).map (List.map Recipient.amount) = some [3333331, 3333331, 3333331] ∧
      ¬Exact thirds 10000000 := by
  have hfloors : thirds.shares.map (fun s => floored (10000000 : Nat) s.share) = [3333330, 3333330, 3333330] := by
    decide +kernel
  have hrest : ((10000000 : Nat) : Int) - (thirds.shares.map (fun s => floored (10000000 : Nat) s.share)).sum =
      (10 : Nat) := by
    rw [hfloors]
    norm_num
  have hpaid : (paid 10000000 thirds.shares 10).map Recipient.amount = [3333331, 3333331, 3333331] := by decide +kernel
  have hrecipients : ratiosToRecipients thirds (10000000 : Nat) = some (paid 10000000 thirds.shares 10) := by
    rw [ratiosToRecipients_eq, hrest, loopCount_natCast (by decide)]
    rfl
  refine ⟨rfl, by decide +kernel, hrecipients ▸ congrArg some hpaid, ?_⟩
  rintro ⟨recipients, hsome, hsplits⟩
  obtain rfl := Option.some.inj (hrecipients.symm.trans hsome)
  have hsum := hsplits.sum
  rw [hpaid] at hsum
  exact absurd hsum (by decide)

end Result

end SplitSdk.SplitExactness
