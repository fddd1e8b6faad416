import SplitSdk.Fallible
import SplitSdk.Numbers
import Mathlib.Algebra.BigOperators.Group.List.Basic
import Mathlib.Algebra.BigOperators.Ring.List
import Mathlib.Algebra.Order.BigOperators.Group.List
import Mathlib.Data.Rat.Floor
import Mathlib.Tactic.FieldSimp
import Mathlib.Tactic.Linarith

namespace SplitSdk.PaymentSplitCalculator

open Numbers

section Data

inductive SplitKind
  | percentage
  | fixed
  /-- What a caller may pass all the same. -/
  | unsupported
  deriving DecidableEq

structure SplitDefinition where
  recipientId : String
  kind : SplitKind
  value : JsNumber

structure SplitShare where
  recipientId : String
  amount : Int
  deriving DecidableEq

structure SplitResult where
  total : JsNumber
  shares : List SplitShare
  remainder : ℚ

inductive SplitEvent
  | computed (result : SplitResult)
  | error (message : String)

end Data

section Calculation

/-- The share of a definition; `none` is no definition, or one whose `recipientId` is no string. -/
def shareOf (total : ℚ) : Option SplitDefinition → Except String SplitShare
  | none => .error "Each split definition requires a non-empty recipientId"
  | some definition =>
      if definition.recipientId = "" then .error "Each split definition requires a non-empty recipientId"
      else match definition.value with
        | .finite value =>
            if value < 0 then .error s!"Invalid split value for recipient {definition.recipientId}"
            else match definition.kind with
              | .percentage =>
                  if 100 < value then .error s!"Percentage for recipient {definition.recipientId} exceeds 100"
                  else .ok ⟨definition.recipientId, mathRound (total * value / 100)⟩
              | .fixed => .ok ⟨definition.recipientId, mathRound value⟩
              | .unsupported => .error s!"Unsupported split kind for recipient {definition.recipientId}"
        | _ => .error s!"Invalid split value for recipient {definition.recipientId}"

/-- The loop that deals out the remainder, from share `index` on. -/
def dealOut : Nat → Nat → List SplitShare → List SplitShare
  | 0, _, shares => shares
  | turns + 1, index, shares =>
      dealOut turns (index + 1)
        (shares.modify (index % shares.length) (fun share => { share with amount := share.amount + 1 }))

def compute (distributeRemainder : Bool) (total : JsNumber) (definitions : List (Option SplitDefinition)) :
    Except String SplitResult :=
  let invalid := .error "Total amount must be a non-negative finite number"
  match total with
  | .finite amount =>
      if amount < 0 then invalid
      else do
        let shares ← definitions.mapM (shareOf amount)
        let allocated := (shares.map SplitShare.amount).sum
        if amount < allocated then .error "Split definitions allocate more than the total amount"
        else
          let remainder := amount - allocated
          if distributeRemainder ∧ 0 < remainder ∧ 0 < shares.length then
            -- one turn for each unit, a part of a unit counting as one
            return { total, shares := dealOut ⌈remainder⌉.toNat 0 shares, remainder := 0 }
          else return { total, shares, remainder }
  | _ => invalid

/-- A call, and what its listeners are called with. -/
def calculate (distributeRemainder : Bool) (total : JsNumber) (definitions : List (Option SplitDefinition)) :
    Except String SplitResult × SplitEvent :=
  match compute distributeRemainder total definitions with
  | .ok result => (.ok result, .computed result)
  | .error message => (.error message, .error message)

end Calculation

end SplitSdk.PaymentSplitCalculator

namespace SplitSdk.PercentageSplits

open Fallible Numbers PaymentSplitCalculator

section Rounding

/-- The parts of numbers that rounding down leaves over. -/
def fractions (xs : List ℚ) : ℚ := (xs.map Int.fract).sum

/-- How many numbers are rounded up. -/
def roundedUp (xs : List ℚ) : Nat := xs.countP (fun x => 1 / 2 ≤ Int.fract x)

theorem mathRound_eq (x : ℚ) : mathRound x = ⌊x⌋ + if 1 / 2 ≤ Int.fract x then 1 else 0 := by
  have hfloor := Int.self_sub_floor x
  have hnonneg := Int.fract_nonneg x
  have hlt := Int.fract_lt_one x
  rw [mathRound, Int.floor_eq_iff]
  split_ifs with h
  · push_cast
    constructor <;> linarith
  · rw [add_zero]
    constructor <;> linarith

/-- Rounded to the nearest, numbers sum to what they sum to, less their fractions and one more for each that is rounded up. -/
theorem sum_mathRound (xs : List ℚ) :
    (((xs.map mathRound).sum : Int) : ℚ) = xs.sum - fractions xs + roundedUp xs := by
  induction xs with
  | nil => simp [fractions, roundedUp]
  | cons x xs ih =>
      have hfloor := Int.self_sub_floor x
      have hfractions : fractions (x :: xs) = Int.fract x + fractions xs := List.sum_cons
      rw [List.map_cons, List.sum_cons, mathRound_eq, List.sum_cons, hfractions, roundedUp, List.countP_cons, ← roundedUp,
        Int.cast_add, ih]
      push_cast
      simp only [decide_eq_true_eq]
      split_ifs <;> linarith

end Rounding

section Statement

variable (distributeRemainder : Bool) (total : Nat) (definitions : List (Option SplitDefinition))

/-- The percentage of a definition that is accepted. -/
def percentageOf : Option SplitDefinition → Option ℚ
  | some ⟨recipientId, .percentage, .finite value⟩ =>
      if recipientId ≠ "" ∧ 0 ≤ value ∧ value ≤ 100 then some value else none
  | _ => none

/-- The definitions are percentages that sum to 100. -/
def Whole (percentages : List ℚ) : Prop :=
  definitions ≠ [] ∧ definitions.map percentageOf = percentages.map some ∧ percentages.sum = 100

structure Right : Prop where
  computes : ∀ percentages, Whole definitions percentages →
    ∃ result, (calculate distributeRemainder (.finite total) definitions).1 = .ok result
  sums : ∀ result, (calculate distributeRemainder (.finite total) definitions).1 = .ok result →
    ((result.shares.map SplitShare.amount).sum : ℚ) + result.remainder = total ∧
      (distributeRemainder → result.remainder = 0)

/-- No more shares are rounded up than units are lost by rounding down, and there is a recipient to deal a remainder to. -/
structure Fits : Prop where
  rounding : ∀ percentages, Whole definitions percentages →
    roundedUp (percentages.map (total * · / 100)) ≤ fractions (percentages.map (total * · / 100))
  recipients : distributeRemainder → definitions = [] → total = 0

end Statement

section Shares

theorem dealOut_sum (turns index : Nat) (shares : List SplitShare) (hne : shares ≠ []) :
    ((dealOut turns index shares).map SplitShare.amount).sum = (shares.map SplitShare.amount).sum + turns := by
  induction turns generalizing index shares with
  | zero => simp [dealOut]
  | succ turns ih =>
      have hlt : index % shares.length < shares.length := Nat.mod_lt _ (List.length_pos_iff.mpr hne)
      have hsum (k : Nat) (hk : k < shares.length) :
          ((shares.modify k (fun share => { share with amount := share.amount + 1 })).map SplitShare.amount).sum =
            (shares.map SplitShare.amount).sum + 1 := by
        clear ih hlt hne
        induction shares generalizing k with
        | nil => exact absurd hk (Nat.not_lt_zero k)
        | cons share shares ih =>
            cases k with
            | zero =>
                simp only [List.modify_zero_cons, List.map_cons, List.sum_cons]
                omega
            | succ k =>
                simp only [List.modify_succ_cons, List.map_cons, List.sum_cons]
                rw [ih k (by simpa using hk)]
                omega
      rw [dealOut, ih _ _ (by rw [Ne, ← List.length_eq_zero_iff, List.length_modify]; exact mt List.length_eq_zero_iff.mp hne),
        hsum _ hlt]
      push_cast
      omega

theorem shareOf_percentage (total : ℚ) {definition : Option SplitDefinition} {value : ℚ}
    (h : percentageOf definition = some value) :
    ∃ recipientId, shareOf total definition = .ok ⟨recipientId, mathRound (total * value / 100)⟩ := by
  unfold percentageOf at h
  split at h
  next recipientId percentage =>
    split_ifs at h with hvalid
    obtain rfl := Option.some.inj h
    obtain ⟨hid, hnonneg, hle⟩ := hvalid
    refine ⟨recipientId, ?_⟩
    rw [shareOf, if_neg hid]
    dsimp only
    rw [if_neg (not_lt.mpr hnonneg), if_neg (not_lt.mpr hle)]
  next => cases h

/-- The shares of percentages are computed, and each is its part of the total, rounded. -/
theorem shares_of_percentages (total : ℚ) {definitions : List (Option SplitDefinition)} {percentages : List ℚ}
    (h : definitions.map percentageOf = percentages.map some) :
    ∃ shares, definitions.mapM (shareOf total) = .ok shares ∧
      shares.map SplitShare.amount = (percentages.map (total * · / 100)).map mathRound := by
  induction definitions generalizing percentages with
  | nil =>
      obtain rfl : percentages = [] := by simpa using h.symm
      exact ⟨[], rfl, rfl⟩
  | cons definition definitions ih =>
      cases percentages with
      | nil => cases h
      | cons percentage percentages =>
          obtain ⟨hhead, htail⟩ := List.cons.inj h
          obtain ⟨recipientId, hshare⟩ := shareOf_percentage total hhead
          obtain ⟨shares, hshares, hamounts⟩ := ih htail
          refine ⟨⟨recipientId, mathRound (total * percentage / 100)⟩ :: shares, ?_, ?_⟩
          · rw [List.mapM_cons, hshare, hshares]
            rfl
          · rw [List.map_cons, hamounts]
            rfl

end Shares

section Result

variable {distributeRemainder : Bool} {total : Nat} {definitions : List (Option SplitDefinition)}

theorem calculate_fst (distributeRemainder : Bool) (total : JsNumber) (definitions : List (Option SplitDefinition)) :
    (calculate distributeRemainder total definitions).1 = compute distributeRemainder total definitions := by
  unfold calculate
  cases compute distributeRemainder total definitions <;> rfl

/-- What a call returns, or that the shares are too large. -/
theorem compute_of_shares {shares : List SplitShare} (h : definitions.mapM (shareOf total) = .ok shares) :
    compute distributeRemainder (.finite total) definitions =
      if (total : Int) < (shares.map SplitShare.amount).sum then
        .error "Split definitions allocate more than the total amount"
      else
        let remainder : ℚ := total - (shares.map SplitShare.amount).sum
        if distributeRemainder ∧ 0 < remainder ∧ 0 < shares.length then
          .ok { total := .finite total, shares := dealOut ⌈remainder⌉.toNat 0 shares, remainder := 0 }
        else .ok { total := .finite total, shares, remainder } := by
  have hcast : (total : ℚ) < (shares.map SplitShare.amount).sum ↔ (total : Int) < (shares.map SplitShare.amount).sum := by
    exact_mod_cast Iff.rfl
  rw [compute, if_neg (not_lt.mpr (Nat.cast_nonneg total)), h]
  change (if (total : ℚ) < _ then _ else _) = _
  simp only [hcast]
  rfl

/-- Shares and remainder sum to the total, and a remainder is left over only where there is no share. -/
theorem compute_spec {result : SplitResult} (h : compute distributeRemainder (.finite total) definitions = .ok result) :
    ((result.shares.map SplitShare.amount).sum : ℚ) + result.remainder = total ∧
      (distributeRemainder → definitions ≠ [] → result.remainder = 0) ∧ (definitions = [] → result.remainder = total) := by
  obtain ⟨shares, hshares⟩ : ∃ shares, definitions.mapM (shareOf total) = .ok shares := by
    rw [compute, if_neg (not_lt.mpr (Nat.cast_nonneg total))] at h
    obtain ⟨shares, hshares, -⟩ := bind_eq_ok.mp h
    exact ⟨shares, hshares⟩
  have hlength : shares.length = definitions.length := (mapM_forall₂ _ _ _ hshares).length_eq.symm
  rw [compute_of_shares hshares] at h
  split at h
  · cases h
  next hle =>
    have hrest : (total : Int) = (shares.map SplitShare.amount).sum + (total - (shares.map SplitShare.amount).sum).toNat := by
      omega
    dsimp only at h
    split at h
    next hdeal =>
      cases h
      have hne : shares ≠ [] := List.length_pos_iff.mp hdeal.2.2
      have hceil : ⌈(total : ℚ) - ((shares.map SplitShare.amount).sum : Int)⌉ = total - (shares.map SplitShare.amount).sum := by
        rw [← Int.cast_natCast total, ← Int.cast_sub, Int.ceil_intCast]
      refine ⟨?_, fun _ _ => rfl, fun hnil => ?_⟩
      · dsimp only
        rw [dealOut_sum _ _ _ hne, hceil, add_zero]
        exact_mod_cast hrest.symm
      · rw [hnil, List.length_nil] at hlength
        omega
    next hkeep =>
      cases h
      refine ⟨by ring, fun hdistribute hdefinitions => ?_, fun hnil => ?_⟩
      · have hpos : 0 < shares.length := hlength ▸ List.length_pos_iff.mpr hdefinitions
        have hnone : ¬0 < (total : ℚ) - (shares.map SplitShare.amount).sum := fun hlt => hkeep ⟨hdistribute, hlt, hpos⟩
        have hnonneg : (0 : ℚ) ≤ (total : ℚ) - (shares.map SplitShare.amount).sum := by
          rw [sub_nonneg]
          exact_mod_cast not_lt.mp hle
        exact le_antisymm (not_lt.mp hnone) hnonneg
      · have hempty : shares = [] := List.length_eq_zero_iff.mp (hlength.trans (congrArg List.length hnil))
        simp [hempty]

theorem sum_parts {percentages : List ℚ} (hsum : percentages.sum = 100) :
    (percentages.map (total * · / 100 : ℚ → ℚ)).sum = total := by
  have hmap : (fun x : ℚ => (total * x / 100 : ℚ)) = fun x : ℚ => (total / 100 : ℚ) * x := by
    funext x
    ring
  rw [hmap, List.sum_map_mul_left, List.map_id', hsum]
  ring

/-- Percentages that sum to 100 are computed exactly when no more of their shares are rounded up than rounding down leaves over. -/
theorem computes_iff {percentages : List ℚ} (h : Whole definitions percentages) :
    (∃ result, compute distributeRemainder (.finite total) definitions = .ok result) ↔
      (roundedUp (percentages.map (total * · / 100)) : ℚ) ≤ fractions (percentages.map (total * · / 100)) := by
  obtain ⟨-, hpercentages, hsum⟩ := h
  obtain ⟨shares, hshares, hamounts⟩ := shares_of_percentages (total : ℚ) hpercentages
  have hrounded := sum_mathRound (percentages.map (total * · / 100))
  rw [sum_parts hsum, ← hamounts] at hrounded
  have hfits : ¬(total : Int) < (shares.map SplitShare.amount).sum ↔
      (roundedUp (percentages.map (total * · / 100)) : ℚ) ≤ fractions (percentages.map (total * · / 100)) := by
    rw [not_lt, ← Int.cast_le (R := ℚ), hrounded, Int.cast_natCast]
    constructor <;> intro hle <;> linarith
  rw [← hfits, compute_of_shares hshares]
  constructor
  · rintro ⟨result, hresult⟩ hlt
    rw [if_pos hlt] at hresult
    cases hresult
  · intro hle
    rw [if_neg hle]
    dsimp only
    split
    · exact ⟨_, rfl⟩
    · exact ⟨_, rfl⟩

/-- A split of a whole is right exactly when it is not rounded up by more than it is rounded down, and a remainder has a recipient. -/
theorem percentage_split_iff (distributeRemainder : Bool) (total : Nat) (definitions : List (Option SplitDefinition)) :
    Right distributeRemainder total definitions ↔ Fits distributeRemainder total definitions := by
  constructor
  · intro hright
    have hcomputes := hright.computes
    have hsums := hright.sums
    simp only [calculate_fst] at hcomputes hsums
    refine ⟨fun percentages hwhole => (computes_iff hwhole).mp (hcomputes percentages hwhole), fun hdistribute hnil => ?_⟩
    subst hnil
    have hresult : ∃ result, compute distributeRemainder (.finite total) [] = .ok result := by
      have hempty : ([] : List (Option SplitDefinition)).mapM (shareOf total) = .ok [] := rfl
      rw [compute_of_shares hempty, if_neg (by simp)]
      simp
    obtain ⟨result, hresult⟩ := hresult
    have hremainder := (hsums result hresult).2 hdistribute
    rw [(compute_spec hresult).2.2 rfl] at hremainder
    exact_mod_cast hremainder
  · intro hfits
    refine ⟨fun percentages hwhole => ?_, fun result hresult => ?_⟩
    · rw [calculate_fst]
      exact (computes_iff hwhole).mpr (hfits.rounding percentages hwhole)
    · rw [calculate_fst] at hresult
      obtain ⟨hsum, hdealt, hnone⟩ := compute_spec hresult
      refine ⟨hsum, fun hdistribute => ?_⟩
      by_cases hnil : definitions = []
      · rw [hnone hnil, hfits.recipients hdistribute hnil, Nat.cast_zero]
      · exact hdealt hdistribute hnil

/-- Two halves. -/
def halves : List (Option SplitDefinition) :=
  [some ⟨"GA", .percentage, .finite 50⟩, some ⟨"GB", .percentage, .finite 50⟩]

theorem halves_of_one : Whole halves [50, 50] ∧
    (calculate false (.finite (1 : Nat)) halves).1.toOption.isNone ∧ ¬Right false 1 halves := by
  have hwhole : Whole halves [50, 50] := ⟨by simp [halves], by rfl, by norm_num⟩
  have hnone : (calculate false (.finite (1 : Nat)) halves).1.toOption.isNone := by decide +kernel
  refine ⟨hwhole, hnone, fun hright => ?_⟩
  obtain ⟨result, hresult⟩ := hright.computes _ hwhole
  rw [hresult] at hnone
  cases hnone

end Result

end SplitSdk.PercentageSplits
