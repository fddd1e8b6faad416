import Mathlib.Data.Option.Basic
import SplitSdk.AmmCalculator
import SplitSdk.Fallible
import SplitSdk.Interleaving

namespace SplitSdk.PoolShares

open AmmCalculator BigIntText Fallible Interleaving
open Numbers hiding ofString

section Backing

/-- A share of the pool stands for as much of a reserve as before: `R / T ≤ R' / T'`. -/
def KeepsBacking (R T R' T' : Int) : Prop := R * T' ≤ R' * T

variable {R T R' T' m : Int}

theorem keepsBacking_refl (R T : Int) : KeepsBacking R T R T := le_rfl

theorem KeepsBacking.trans {R'' T'' : Int} (hT' : 0 < T') (hT : 0 < T) (hT'' : 0 < T'')
    (h : KeepsBacking R T R' T') (h' : KeepsBacking R' T' R'' T'') : KeepsBacking R T R'' T'' := by
  refine le_of_mul_le_mul_right ?_ hT'
  calc R * T'' * T'
    _ = R * T' * T'' := by ring
    _ ≤ R' * T * T'' := mul_le_mul_of_nonneg_right h hT''.le
    _ = R' * T'' * T := by ring
    _ ≤ R'' * T' * T := mul_le_mul_of_nonneg_right h' hT.le
    _ = R'' * T * T' := by ring

/-- What a number of shares stands for, rounded down. -/
def portion (R T m : Int) : Int := R * m / T

theorem portion_mul_le (hT : 0 < T) (R m : Int) : portion R T m * T ≤ R * m := Int.ediv_mul_le _ hT.ne'

theorem portion_nonneg (hR : 0 ≤ R) (hT : 0 < T) (hm : 0 ≤ m) : 0 ≤ portion R T m :=
  Int.ediv_nonneg (mul_nonneg hR hm) hT.le

theorem portion_le (hR : 0 ≤ R) (hT : 0 < T) (hm : m ≤ T) : portion R T m ≤ R :=
  Int.ediv_le_of_le_mul hT (mul_le_mul_of_nonneg_left hm hR)

/-- Shares that are paid for at the rounded price keep the backing only where nothing is rounded off. -/
theorem keepsBacking_deposit_iff (hT : 0 < T) (R m : Int) :
    KeepsBacking R T (R + portion R T m) (T + m) ↔ T ∣ R * m := by
  have hle := portion_mul_le hT R m
  constructor
  · intro h
    refine ⟨portion R T m, ?_⟩
    unfold KeepsBacking at h
    linarith
  · intro h
    have := Int.ediv_mul_cancel h
    unfold KeepsBacking portion
    linarith

/-- Shares that are paid out at the rounded price always keep it. -/
theorem keepsBacking_withdraw (hT : 0 < T) (R m : Int) : KeepsBacking R T (R - portion R T m) (T - m) := by
  have := portion_mul_le hT R m
  unfold KeepsBacking
  linarith

end Backing

section Statement

/-- The two reserves and the total shares of a pool. -/
def amounts (pool : Pool) : Option (Int × Int × Int) :=
  match pool.reserves with
  | reserve0 :: reserve1 :: _ => do
      let reserveA ← ofString reserve0.amount
      let reserveB ← ofString reserve1.amount
      let totalShares ← ofString pool.totalShares
      return (reserveA, reserveB, totalShares)
  | _ => none

/-- The pool after amounts of both assets and shares have been added to it. -/
def settle (pool : Pool) (amountA amountB shares : Int) : Option Pool :=
  match pool.reserves with
  | reserve0 :: reserve1 :: rest => do
      let (reserveA, reserveB, totalShares) ← amounts pool
      return {
        reserves := { reserve0 with amount := toString (reserveA + amountA) } ::
          { reserve1 with amount := toString (reserveB + amountB) } :: rest
        totalShares := toString (totalShares + shares) }
  | _ => none

structure Flow where
  paid : Int := 0
  returned : Int := 0
  deriving DecidableEq

/-- A pool and what one party has paid into it and got out of it. -/
structure Account where
  pool : Pool
  owned : Int := 0
  flowA : Flow := {}
  flowB : Flow := {}
  deriving DecidableEq

inductive Trade
  | deposit (sharesToMint : String)
  | withdraw (sharesToBurn : String)

def deposit (s : Account) (sharesToMint : String) : Option Account := do
  let estimate ← (calculateDeposit s.pool sharesToMint).toOption
  let amountA ← ofString estimate.amountA
  let amountB ← ofString estimate.amountB
  let minted ← ofString estimate.sharesMinted
  let pool ← settle s.pool amountA amountB minted
  return {
    pool
    owned := s.owned + minted
    flowA := { s.flowA with paid := s.flowA.paid + amountA }
    flowB := { s.flowB with paid := s.flowB.paid + amountB } }

/-- The party burns no shares but its own. -/
def withdraw (s : Account) (sharesToBurn : String) : Option Account := do
  let estimate ← (calculateWithdraw s.pool sharesToBurn).toOption
  let amountA ← ofString estimate.amountA
  let amountB ← ofString estimate.amountB
  let burned ← ofString estimate.sharesBurned
  guard (burned ≤ s.owned)
  let pool ← settle s.pool (-amountA) (-amountB) (-burned)
  return {
    pool
    owned := s.owned - burned
    flowA := { s.flowA with returned := s.flowA.returned + amountA }
    flowB := { s.flowB with returned := s.flowB.returned + amountB } }

def trade (s : Account) : Trade → Option Account
  | .deposit sharesToMint => deposit s sharesToMint
  | .withdraw sharesToBurn => withdraw s sharesToBurn

/-- A deposit leaves every share of the pool with as much of both reserves as before. -/
def Undiluted (pool : Pool) (sharesToMint : String) : Prop :=
  ∃ R S T m estimate a b, amounts pool = some (R, S, T) ∧ ofString sharesToMint = some m ∧
    calculateDeposit pool sharesToMint = .ok estimate ∧ ofString estimate.amountA = some a ∧
      ofString estimate.amountB = some b ∧ KeepsBacking R T (R + a) (T + m) ∧ KeepsBacking S T (S + b) (T + m)

/-- The total shares divide what the amounts are computed from, so that nothing is rounded off. -/
def Exact (pool : Pool) (sharesToMint : String) : Prop :=
  ∀ x ∈ amounts pool, ∀ m ∈ ofString sharesToMint, 0 < m → x.2.2 ∣ x.1 * m ∧ x.2.2 ∣ x.2.1 * m

def ExactDeposit (s : Account) : Trade → Prop
  | .deposit sharesToMint => Exact s.pool sharesToMint
  | .withdraw _ => True

instance (pool : Pool) (sharesToMint : String) : Decidable (Exact pool sharesToMint) := by
  unfold Exact
  infer_instance

instance (s : Account) (e : Trade) : Decidable (ExactDeposit s e) := by
  cases e <;> unfold ExactDeposit <;> infer_instance

end Statement

section Amounts

variable {pool : Pool} {R S T : Int}

theorem amounts_settle (h : amounts pool = some (R, S, T)) (a b m : Int) :
    ∃ settled, settle pool a b m = some settled ∧ amounts settled = some (R + a, S + b, T + m) := by
  obtain ⟨reserves, totalShares⟩ := pool
  match reserves, h with
  | reserve0 :: reserve1 :: rest, h =>
      refine ⟨_, by rw [settle, h]; rfl, ?_⟩
      simp only [amounts, ofString_toString]
      rfl

/-- A count of shares that is not positive counts as none. -/
theorem proportionalAmounts_spec (h : amounts pool = some (R, S, T)) (hT : 0 < T) (hR : 0 ≤ R) (hS : 0 ≤ S)
    {sharesText : String} {m : Int} (hm : ofString sharesText = some m) :
    ∃ assetA assetB, proportionalAmounts pool sharesText =
      .ok (portion R T (max m 0), portion S T (max m 0), max m 0, assetA, assetB) := by
  obtain ⟨reserves, totalShares⟩ := pool
  match reserves, h with
  | reserve0 :: reserve1 :: rest, h =>
      simp only [amounts, Option.bind_eq_bind, Option.bind_eq_some_iff] at h
      obtain ⟨_, hR', _, hS', _, hT', heq⟩ := h
      cases heq
      refine ⟨reserve0.asset, reserve1.asset, ?_⟩
      rw [proportionalAmounts]
      simp only [bigInt_eq_ok.mpr hR', bigInt_eq_ok.mpr hS', bigInt_eq_ok.mpr hT', bigInt_eq_ok.mpr hm, bind,
        Except.bind, if_neg (not_le.mpr hT)]
      by_cases hpos : m ≤ 0
      · rw [if_pos hpos, max_eq_right hpos, portion, portion, mul_zero, mul_zero, Int.zero_ediv]
        rfl
      · rw [if_neg hpos, max_eq_left (not_le.mp hpos).le, portion, portion,
          Int.tdiv_eq_ediv_of_nonneg (mul_nonneg hR (not_le.mp hpos).le),
          Int.tdiv_eq_ediv_of_nonneg (mul_nonneg hS (not_le.mp hpos).le)]
        rfl

theorem calculateDeposit_spec (h : amounts pool = some (R, S, T)) (hT : 0 < T) (hR : 0 ≤ R) (hS : 0 ≤ S)
    {sharesToMint : String} {m : Int} (hm : ofString sharesToMint = some m) :
    ∃ estimate, calculateDeposit pool sharesToMint = .ok estimate ∧
      ofString estimate.amountA = some (portion R T (max m 0)) ∧
        ofString estimate.amountB = some (portion S T (max m 0)) ∧
          ofString estimate.sharesMinted = some (max m 0) := by
  obtain ⟨assetA, assetB, hamounts⟩ := proportionalAmounts_spec h hT hR hS hm
  rw [calculateDeposit, hamounts]
  exact ⟨_, rfl, ofString_toString _, ofString_toString _, ofString_toString _⟩

theorem calculateWithdraw_spec (h : amounts pool = some (R, S, T)) (hT : 0 < T) (hR : 0 ≤ R) (hS : 0 ≤ S)
    {sharesToBurn : String} {m : Int} (hm : ofString sharesToBurn = some m) :
    ∃ estimate, calculateWithdraw pool sharesToBurn = .ok estimate ∧
      ofString estimate.amountA = some (portion R T (max m 0)) ∧
        ofString estimate.amountB = some (portion S T (max m 0)) ∧
          ofString estimate.sharesBurned = some (max m 0) := by
  obtain ⟨assetA, assetB, hamounts⟩ := proportionalAmounts_spec h hT hR hS hm
  rw [calculateWithdraw, hamounts]
  exact ⟨_, rfl, ofString_toString _, ofString_toString _, ofString_toString _⟩

theorem proportionalAmounts_reads {sharesText : String} {x : Int × Int × Int × String × String}
    (h : proportionalAmounts pool sharesText = .ok x) : ∃ m, ofString sharesText = some m := by
  rw [proportionalAmounts] at h
  split at h
  · obtain ⟨_, -, h⟩ := bind_eq_ok.mp h
    obtain ⟨m, hm, -⟩ := bind_eq_ok.mp h
    exact ⟨m, bigInt_eq_ok.mp hm⟩
  · cases h

theorem undiluted_iff (h : amounts pool = some (R, S, T)) (hT : 0 < T) (hR : 0 ≤ R) (hS : 0 ≤ S)
    {sharesToMint : String} {m : Int} (hm : ofString sharesToMint = some m) (hpos : 0 < m) :
    Undiluted pool sharesToMint ↔ Exact pool sharesToMint := by
  have hmax : max m 0 = m := max_eq_left hpos.le
  obtain ⟨estimate, hestimate, ha, hb, -⟩ := calculateDeposit_spec h hT hR hS hm
  rw [hmax] at ha hb
  have hexact : Exact pool sharesToMint ↔ T ∣ R * m ∧ T ∣ S * m := by
    simp [Exact, h, hm, hpos]
  rw [hexact, ← keepsBacking_deposit_iff hT, ← keepsBacking_deposit_iff hT]
  constructor
  · rintro ⟨R', S', T', m', estimate', a, b, h', hm', hestimate', ha', hb', hA, hB⟩
    cases h.symm.trans h'
    cases hm.symm.trans hm'
    cases hestimate.symm.trans hestimate'
    cases ha.symm.trans ha'
    cases hb.symm.trans hb'
    exact ⟨hA, hB⟩
  · rintro ⟨hA, hB⟩
    exact ⟨R, S, T, m, estimate, _, _, h, hm, hestimate, ha, hb, hA, hB⟩

end Amounts

section Runs

variable {s t : Account} {e : Trade} {R₀ S₀ T₀ R T m : Int} {flow : Flow}

/-- One reserve of a pool that began with `R₀` behind `T₀` shares. -/
structure Fair (R₀ T₀ R T : Int) (flow : Flow) : Prop where
  reserve_nonneg : 0 ≤ R
  backing : KeepsBacking R₀ T₀ R T
  conserved : R = R₀ + flow.paid - flow.returned

theorem Fair.deposit (h : Fair R₀ T₀ R T flow) (hT₀ : 0 < T₀) (hT : 0 < T) (hm : 0 ≤ m) (hexact : T ∣ R * m) :
    Fair R₀ T₀ (R + portion R T m) (T + m) { flow with paid := flow.paid + portion R T m } where
  reserve_nonneg := add_nonneg h.reserve_nonneg (portion_nonneg h.reserve_nonneg hT hm)
  backing := h.backing.trans hT hT₀ (by omega) ((keepsBacking_deposit_iff hT R m).mpr hexact)
  conserved := by
    have := h.conserved
    dsimp only
    omega

theorem Fair.withdraw (h : Fair R₀ T₀ R T flow) (hT₀ : 0 < T₀) (hT : 0 < T) (hm : m < T) :
    Fair R₀ T₀ (R + -portion R T m) (T + -m) { flow with returned := flow.returned + portion R T m } where
  reserve_nonneg := by
    have := portion_le h.reserve_nonneg hT hm.le
    omega
  backing := h.backing.trans hT hT₀ (by omega) (keepsBacking_withdraw hT R m)
  conserved := by
    have := h.conserved
    dsimp only
    omega

/-- No reserve falls below what it began with while every share that is left has kept its backing. -/
theorem Fair.returned_le (h : Fair R₀ T₀ R T flow) (hR₀ : 0 ≤ R₀) (hT₀ : 0 < T₀) (hT : T₀ ≤ T) :
    flow.returned ≤ flow.paid := by
  have hgrown : R₀ ≤ R := by
    refine le_of_mul_le_mul_right ?_ hT₀
    exact (mul_le_mul_of_nonneg_left hT hR₀).trans h.backing
  have := h.conserved
  omega

/-- The party has its own shares beside those that were there before, and both reserves are fair to all of them. -/
def Solvent (R₀ S₀ T₀ : Int) (s : Account) : Prop :=
  ∃ R S T, amounts s.pool = some (R, S, T) ∧ 0 ≤ s.owned ∧ T = T₀ + s.owned ∧
    Fair R₀ T₀ R T s.flowA ∧ Fair S₀ T₀ S T s.flowB

theorem solvent_start {pool : Pool} (h : amounts pool = some (R₀, S₀, T₀)) (hR₀ : 0 ≤ R₀) (hS₀ : 0 ≤ S₀) :
    Solvent R₀ S₀ T₀ { pool } := by
  refine ⟨R₀, S₀, T₀, h, le_rfl, (add_zero T₀).symm, ⟨hR₀, keepsBacking_refl _ _, ?_⟩,
    ⟨hS₀, keepsBacking_refl _ _, ?_⟩⟩
  · exact (sub_zero _).symm.trans (congrArg (· - 0) (add_zero _).symm)
  · exact (sub_zero _).symm.trans (congrArg (· - 0) (add_zero _).symm)

theorem deposit_solvent {sharesToMint : String} (hT₀ : 0 < T₀) (hs : Solvent R₀ S₀ T₀ s)
    (hexact : Exact s.pool sharesToMint) (h : deposit s sharesToMint = some t) : Solvent R₀ S₀ T₀ t := by
  obtain ⟨R, S, T, hpool, howned, hT, hA, hB⟩ := hs
  simp only [deposit, Option.bind_eq_bind, Option.bind_eq_some_iff, toOption_eq_some] at h
  obtain ⟨estimate, hestimate, a, ha, b, hb, minted, hminted, pool, hsettle, heq⟩ := h
  cases heq
  obtain ⟨m, hm⟩ : ∃ m, ofString sharesToMint = some m := by
    obtain ⟨x, hx, -⟩ := bind_eq_ok.mp hestimate
    exact proportionalAmounts_reads hx
  have hTpos : 0 < T := by omega
  obtain ⟨estimate', hestimate', ha', hb', hminted'⟩ :=
    calculateDeposit_spec hpool hTpos hA.reserve_nonneg hB.reserve_nonneg hm
  cases hestimate.symm.trans hestimate'
  cases ha.symm.trans ha'
  cases hb.symm.trans hb'
  cases hminted.symm.trans hminted'
  obtain ⟨settled, hsettled, hpool'⟩ := amounts_settle hpool (portion R T (max m 0)) (portion S T (max m 0)) (max m 0)
  cases hsettle.symm.trans hsettled
  have hdvd : T ∣ R * max m 0 ∧ T ∣ S * max m 0 := by
    rcases le_or_gt m 0 with hneg | hpos
    · rw [max_eq_right hneg, mul_zero, mul_zero]
      exact ⟨dvd_zero T, dvd_zero T⟩
    · rw [max_eq_left hpos.le]
      exact hexact _ hpool _ hm hpos
  refine ⟨_, _, _, hpool', ?_, ?_, hA.deposit hT₀ hTpos (le_max_right _ _) hdvd.1,
    hB.deposit hT₀ hTpos (le_max_right _ _) hdvd.2⟩
  · exact add_nonneg howned (le_max_right _ _)
  · dsimp only
    omega

theorem withdraw_solvent {sharesToBurn : String} (hT₀ : 0 < T₀) (hs : Solvent R₀ S₀ T₀ s)
    (h : withdraw s sharesToBurn = some t) : Solvent R₀ S₀ T₀ t := by
  obtain ⟨R, S, T, hpool, howned, hT, hA, hB⟩ := hs
  simp only [withdraw, Option.bind_eq_bind, Option.bind_eq_some_iff, toOption_eq_some] at h
  obtain ⟨estimate, hestimate, a, ha, b, hb, burned, hburned, _, hguard, pool, hsettle, heq⟩ := h
  cases heq
  have hguard : burned ≤ s.owned := (Option.guard_eq_some' ()).mp hguard
  obtain ⟨m, hm⟩ : ∃ m, ofString sharesToBurn = some m := by
    obtain ⟨x, hx, -⟩ := bind_eq_ok.mp hestimate
    exact proportionalAmounts_reads hx
  have hTpos : 0 < T := by omega
  obtain ⟨estimate', hestimate', ha', hb', hburned'⟩ :=
    calculateWithdraw_spec hpool hTpos hA.reserve_nonneg hB.reserve_nonneg hm
  cases hestimate.symm.trans hestimate'
  cases ha.symm.trans ha'
  cases hb.symm.trans hb'
  cases hburned.symm.trans hburned'
  obtain ⟨settled, hsettled, hpool'⟩ :=
    amounts_settle hpool (-portion R T (max m 0)) (-portion S T (max m 0)) (-max m 0)
  cases hsettle.symm.trans hsettled
  refine ⟨_, _, _, hpool', ?_, ?_, hA.withdraw hT₀ hTpos (by omega), hB.withdraw hT₀ hTpos (by omega)⟩
  · exact sub_nonneg.mpr hguard
  · dsimp only
    omega

theorem trade_solvent (hT₀ : 0 < T₀) (hs : Solvent R₀ S₀ T₀ s) (hok : ExactDeposit s e) (h : trade s e = some t) :
    Solvent R₀ S₀ T₀ t := by
  cases e with
  | deposit sharesToMint => exact deposit_solvent hT₀ hs hok h
  | withdraw sharesToBurn => exact withdraw_solvent hT₀ hs h

end Runs

section Result

/-- A deposit dilutes nobody exactly when its amounts are not rounded; a party whose deposits are all of this kind gets no more of
either asset out of the pool than it has put in. -/
theorem deposits_undiluted_iff {pool : Pool} {R S T : Int} (hpool : amounts pool = some (R, S, T)) (hR : 0 ≤ R)
    (hS : 0 ≤ S) (hT : 0 < T) :
    (∀ sharesToMint m, ofString sharesToMint = some m → 0 < m →
      (Undiluted pool sharesToMint ↔ Exact pool sharesToMint)) ∧
      ∀ trades s, run trade { pool } trades = some s → Allowed trade ExactDeposit { pool } trades →
        s.flowA.returned ≤ s.flowA.paid ∧ s.flowB.returned ≤ s.flowB.paid := by
  refine ⟨fun _ _ hm hpos => undiluted_iff hpool hT hR hS hm hpos, fun trades s hrun hok => ?_⟩
  have hsolvent : Solvent R S T s := by
    have hstep : ∀ s e t, Solvent R S T s → ExactDeposit s e → trade s e = some t → Solvent R S T t :=
      fun s e t hs hok h => trade_solvent hT hs hok h
    exact run_invariant hstep _ s trades (solvent_start hpool hR hS) hok hrun
  obtain ⟨_, _, T', -, howned, hT', hA, hB⟩ := hsolvent
  exact ⟨hA.returned_le hR hT (by omega), hB.returned_le hS hT (by omega)⟩

def evenPool : Pool := { reserves := [⟨"XLM", "30"⟩, ⟨"USDC", "60"⟩], totalShares := "10" }

def evenTrades : List Trade := [.deposit "2", .withdraw "1"]

theorem evenTrades_run : run trade { pool := evenPool } evenTrades = some {
    pool := { reserves := [⟨"XLM", "33"⟩, ⟨"USDC", "66"⟩], totalShares := "11" }
    owned := 1
    flowA := { paid := 6, returned := 3 }
    flowB := { paid := 12, returned := 6 } } := by
  decide

theorem deposits_undiluted_even : Undiluted evenPool "2" ∧ (3 : Int) ≤ 6 ∧ (6 : Int) ≤ 12 := by
  have h := deposits_undiluted_iff (by decide +kernel : amounts evenPool = some (30, 60, 10))
    (by decide) (by decide) (by decide)
  exact ⟨(h.1 "2" 2 (by decide +kernel) (by decide)).mpr (by decide +kernel),
    h.2 evenTrades _ evenTrades_run (by decide +kernel)⟩

def unevenPool : Pool := { reserves := [⟨"XLM", "2"⟩, ⟨"USDC", "2"⟩], totalShares := "3" }

/-- Three shares that cost nothing, one after the other, give back one unit of each asset. -/
def unevenTrades : List Trade := [.deposit "1", .deposit "1", .deposit "1", .withdraw "3"]

theorem uneven_diluted : ¬ Undiluted unevenPool "1" ∧
    ∃ s ∈ run trade { pool := unevenPool } unevenTrades,
      s.flowA = { paid := 0, returned := 1 } ∧ s.flowB = { paid := 0, returned := 1 } := by
  refine ⟨?_, by decide +kernel⟩
  rw [undiluted_iff (by decide +kernel : amounts unevenPool = some (2, 2, 3)) (by decide) (by decide) (by decide)
    (by decide +kernel : ofString "1" = some 1) (by decide)]
  decide

end Result

end SplitSdk.PoolShares
