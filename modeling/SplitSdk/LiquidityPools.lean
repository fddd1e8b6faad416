import SplitSdk.Fallible
import SplitSdk.FloorQuotes
import SplitSdk.Interleaving
import SplitSdk.OrderedMap
import SplitSdk.PoolShares
import SplitSdk.RoundingMonotone

namespace SplitSdk.LiquidityPools

open BoundedLoop Fallible FloorQuotes Interleaving Numbers NumberText OrderedMap RoundingMonotone

section Model

inductive Failure
  | error (message : String)
  | rangeError (message : String)
  deriving DecidableEq

structure LiquidityPoolAsset where
  code : String
  amount : Int
  deriving DecidableEq

structure LiquidityPool where
  id : String
  fee : JsNumber
  assetA : LiquidityPoolAsset
  assetB : LiquidityPoolAsset
  totalShares : Int
  deriving DecidableEq

structure SwapEstimate where
  poolId : String
  inputAsset : String
  outputAsset : String
  inputAmount : Int
  outputAmount : Int
  priceImpactBps : JsNumber
  fee : Int
  deriving DecidableEq

structure PoolDepositResult where
  poolId : String
  sharesIssued : Int
  depositedA : Int
  depositedB : Int
  deriving DecidableEq

structure PoolWithdrawResult where
  poolId : String
  sharesRedeemed : Int
  receivedA : Int
  receivedB : Int
  deriving DecidableEq

inductive Side
  | A
  | B
  deriving DecidableEq

/-- `BigInt` of a number. -/
def bigInt (x : JsNumber) : Except Failure Int :=
  match x with
  | .finite q =>
      if q.den = 1 then .ok q.num
      else
        let text := Numbers.toString x
        .error (.rangeError s!"The number {text} cannot be converted to a BigInt because it is not an integer")
  | x =>
      let text := Numbers.toString x
      .error (.rangeError s!"The number {text} cannot be converted to a BigInt because it is not an integer")

/-- A quotient of two integers, which throws on the divisor zero. -/
def divide (x y : Int) : Except Failure Int := if y = 0 then .error (.rangeError "Division by zero") else .ok (x.tdiv y)

def calculateSwapOutput (inputAmount reserveIn reserveOut : Int) (feeBps : JsNumber) : Except Failure Int :=
  if inputAmount ≤ 0 then .error (.rangeError "inputAmount must be positive")
  else if reserveIn ≤ 0 ∨ reserveOut ≤ 0 then .error (.rangeError "reserves must be positive")
  else if feeBps.lt (.finite 0) ∨ (JsNumber.finite 10000).le feeBps then .error (.rangeError "feeBps must be in [0, 10000)")
  else do
    let feeMultiplier ← bigInt ((JsNumber.finite 10000).sub feeBps)
    divide (reserveOut * inputAmount * feeMultiplier) (reserveIn * 10000 + inputAmount * feeMultiplier)

def calculatePriceImpactBps (inputAmount outputAmount reserveIn reserveOut : Int) : JsNumber :=
  if inputAmount ≤ 0 ∨ outputAmount ≤ 0 then .finite 0
  else
    let spotNumerator := reserveOut * inputAmount * 10000
    let spotDenominator := reserveIn * outputAmount
    if spotDenominator = 0 then .finite 0
    else JsNumber.max (.finite 0) ((fl (spotNumerator.tdiv spotDenominator : Int)).sub (.finite 10000))

/-- The condition of the loop of `bigintSqrt`, whose state is `x` and `y`, and its body. -/
def falls (s : Int × Int) : Prop := s.2 < s.1

instance : DecidablePred falls := fun s => inferInstanceAs (Decidable (s.2 < s.1))

def improve (n : Int) (s : Int × Int) : Int × Int := (s.2, (s.2 + n.tdiv s.2).tdiv 2)

/-- The loop needs no more turns than `n`. -/
def bigintSqrt (n : Int) : Except Failure Int :=
  if n < 0 then .error (.rangeError "sqrt of negative")
  else if n = 0 then .ok 0
  else .ok (loop falls (improve n) n.toNat (n, (n + 1).tdiv 2)).1

structure LiquidityPoolClient where
  pools : OrdMap String LiquidityPool
  minLiquidityThreshold : Int := 1000000
  maxPriceImpactBps : JsNumber := .finite 200
  named : ∀ poolId pool, pools.get? poolId = some pool → pool.id = poolId

theorem named_set {pools : OrdMap String LiquidityPool} (h : ∀ poolId pool, pools.get? poolId = some pool → pool.id = poolId)
    (pool : LiquidityPool) (poolId : String) (other : LiquidityPool) (hother : (pools.set pool.id pool).get? poolId = some other) :
    other.id = poolId := by
  rw [OrdMap.get?_set] at hother
  split_ifs at hother with heq
  · rw [← Option.some.inj hother, heq]
  · exact h poolId other hother

variable (client : LiquidityPoolClient)

def registerPool (pool : LiquidityPool) : LiquidityPoolClient where
  pools := client.pools.set pool.id pool
  minLiquidityThreshold := client.minLiquidityThreshold
  maxPriceImpactBps := client.maxPriceImpactBps
  named := named_set client.named pool

def getPool (poolId : String) : Option LiquidityPool := client.pools.get? poolId

def LiquidityPool.assetIn (pool : LiquidityPool) : Side → LiquidityPoolAsset
  | .A => pool.assetA
  | .B => pool.assetB

def LiquidityPool.assetOut (pool : LiquidityPool) : Side → LiquidityPoolAsset
  | .A => pool.assetB
  | .B => pool.assetA

def notFound (poolId : String) : Failure := .error s!"Pool {poolId} not found"

def estimateSwap (poolId : String) (inputAsset : Side) (inputAmount : Int) : Except Failure SwapEstimate :=
  match getPool client poolId with
  | none => .error (notFound poolId)
  | some pool =>
      let reserveIn := (pool.assetIn inputAsset).amount
      let reserveOut := (pool.assetOut inputAsset).amount
      let totalLiquidity := pool.assetA.amount + pool.assetB.amount
      let threshold := client.minLiquidityThreshold
      if totalLiquidity < threshold then
        .error (.error s!"Pool {poolId} liquidity {totalLiquidity} below threshold {threshold}")
      else do
        let outputAmount ← calculateSwapOutput inputAmount reserveIn reserveOut pool.fee
        let priceImpactBps := calculatePriceImpactBps inputAmount outputAmount reserveIn reserveOut
        let fee ← bigInt pool.fee
        let impact := Numbers.toString priceImpactBps
        let allowed := Numbers.toString client.maxPriceImpactBps
        if client.maxPriceImpactBps.lt priceImpactBps then
          .error (.error s!"Price impact {impact} bps exceeds maximum allowed {allowed} bps for pool {poolId}")
        else return {
          poolId
          inputAsset := (pool.assetIn inputAsset).code
          outputAsset := (pool.assetOut inputAsset).code
          inputAmount
          outputAmount
          priceImpactBps
          fee := (inputAmount * fee).tdiv 10000 }

/-- The shares for a deposit: the root of the product at first, else the smaller of what each side is worth. -/
def sharesFor (pool : LiquidityPool) (amountA amountB : Int) : Except Failure Int :=
  if pool.totalShares = 0 then bigintSqrt (amountA * amountB)
  else do
    let sharesA ← divide (amountA * pool.totalShares) pool.assetA.amount
    let sharesB ← divide (amountB * pool.totalShares) pool.assetB.amount
    return if sharesA < sharesB then sharesA else sharesB

def simulateDeposit (poolId : String) (amountA amountB : Int) : Except Failure PoolDepositResult :=
  match getPool client poolId with
  | none => .error (notFound poolId)
  | some pool =>
      if amountA ≤ 0 ∨ amountB ≤ 0 then .error (.rangeError "deposit amounts must be positive")
      else do
        let sharesIssued ← sharesFor pool amountA amountB
        return ⟨poolId, sharesIssued, amountA, amountB⟩

def simulateWithdraw (poolId : String) (shares : Int) : Except Failure PoolWithdrawResult :=
  match getPool client poolId with
  | none => .error (notFound poolId)
  | some pool =>
      if shares ≤ 0 then .error (.rangeError "shares must be positive")
      else if pool.totalShares < shares then .error (.rangeError "shares exceed total supply")
      else do
        let receivedA ← divide (shares * pool.assetA.amount) pool.totalShares
        let receivedB ← divide (shares * pool.assetB.amount) pool.totalShares
        return ⟨poolId, shares, receivedA, receivedB⟩

end Model

section Orders

/-- What is asked of a pool, and carried out as the client estimates it. -/
inductive Order
  | swap (poolId : String) (inputAsset : Side) (inputAmount : Int)
  | deposit (poolId : String) (amountA amountB : Int)
  | withdraw (poolId : String) (shares : Int)
  deriving DecidableEq

def Order.poolId : Order → String
  | .swap poolId _ _ | .deposit poolId _ _ | .withdraw poolId _ => poolId

def LiquidityPool.swapped (pool : LiquidityPool) (inputAsset : Side) (estimate : SwapEstimate) : LiquidityPool :=
  match inputAsset with
  | .A => { pool with
      assetA.amount := pool.assetA.amount + estimate.inputAmount
      assetB.amount := pool.assetB.amount - estimate.outputAmount }
  | .B => { pool with
      assetA.amount := pool.assetA.amount - estimate.outputAmount
      assetB.amount := pool.assetB.amount + estimate.inputAmount }

def LiquidityPool.deposited (pool : LiquidityPool) (result : PoolDepositResult) : LiquidityPool :=
  { pool with
    assetA.amount := pool.assetA.amount + result.depositedA
    assetB.amount := pool.assetB.amount + result.depositedB
    totalShares := pool.totalShares + result.sharesIssued }

def LiquidityPool.withdrawn (pool : LiquidityPool) (result : PoolWithdrawResult) : LiquidityPool :=
  { pool with
    assetA.amount := pool.assetA.amount - result.receivedA
    assetB.amount := pool.assetB.amount - result.receivedB
    totalShares := pool.totalShares - result.sharesRedeemed }

/-- The pool after an order; none where the client throws. -/
def settled (client : LiquidityPoolClient) : Order → Option LiquidityPool
  | .swap poolId inputAsset inputAmount => do
      let pool ← getPool client poolId
      let estimate ← (estimateSwap client poolId inputAsset inputAmount).toOption
      return pool.swapped inputAsset estimate
  | .deposit poolId amountA amountB => do
      let pool ← getPool client poolId
      let result ← (simulateDeposit client poolId amountA amountB).toOption
      return pool.deposited result
  | .withdraw poolId shares => do
      let pool ← getPool client poolId
      let result ← (simulateWithdraw client poolId shares).toOption
      return pool.withdrawn result

/-- A client that throws changes nothing. -/
def step (client : LiquidityPoolClient) (order : Order) : Option LiquidityPoolClient :=
  some (match settled client order with
    | some pool => registerPool client pool
    | none => client)

end Orders

section Roots

/-- The state of the loop, in natural numbers. -/
def widen (s : Nat × Nat) : Int × Int := (s.1, s.2)

theorem loop_widen (n limit : Nat) (s : Nat × Nat) :
    loop falls (improve n) limit (widen s) = widen (loop NewtonRoots.guard (NewtonRoots.turn n) limit s) := by
  induction limit generalizing s with
  | zero => rfl
  | succ limit ih =>
      by_cases h : NewtonRoots.guard s
      · have hwide : falls (widen s) := Int.ofNat_lt.mpr h
        rw [loop_succ_of_guard h, loop_succ_of_guard hwide]
        exact ih (NewtonRoots.turn n s)
      · have hwide : ¬falls (widen s) := fun hlt => h (Int.ofNat_lt.mp hlt)
        rw [loop_of_not_guard h, loop_of_not_guard hwide]

theorem above_start {n : Nat} (hn : 0 < n) : NewtonRoots.Above n (n, (n + 1) / 2) :=
  ⟨by rw [NewtonRoots.next, Nat.div_self hn], hn, Nat.sqrt_le_self n⟩

theorem bigintSqrt_natCast (n : Nat) : bigintSqrt n = .ok (Nat.sqrt n : Int) := by
  rcases Nat.eq_zero_or_pos n with rfl | hn
  · rfl
  have hroot := (NewtonRoots.loop_eq_sqrt hn (above_start hn) le_rfl).1
  unfold bigintSqrt
  rw [if_neg (by omega), if_neg (by omega), Int.toNat_natCast, ← hroot]
  exact congrArg (fun s : Int × Int => Except.ok s.1) (loop_widen n n (n, (n + 1) / 2))

theorem ended_widen {n limit : Nat} {s : Nat × Nat} (h : Ended NewtonRoots.guard (NewtonRoots.turn n) limit s) :
    Ended falls (improve n) limit (widen s) := by
  rw [Ended, loop_widen]
  exact fun hlt => h (Int.ofNat_lt.mp hlt)

/-- The loop of the root ends by itself, at the largest integer whose square is no more than the product. -/
theorem root_reached (n : Nat) : Ended falls (improve n) n ((n : Int), ((n : Int) + 1).tdiv 2) ∧
    ∃ r : Int, bigintSqrt n = .ok r ∧ 0 ≤ r ∧ r * r ≤ n ∧ n < (r + 1) * (r + 1) := by
  refine ⟨?_, Nat.sqrt n, bigintSqrt_natCast n, Int.natCast_nonneg _, by exact_mod_cast Nat.sqrt_le n,
    by exact_mod_cast Nat.lt_succ_sqrt n⟩
  rcases Nat.eq_zero_or_pos n with rfl | hn
  · exact fun h => absurd h (by decide)
  · exact ended_widen (NewtonRoots.loop_eq_sqrt hn (above_start hn) le_rfl).2

end Roots

section Estimates

variable {client : LiquidityPoolClient} {pool : LiquidityPool} {poolId : String}

/-- The part of an input that counts, in ten thousandths. -/
def feeShare (feeBps : JsNumber) : Option Int := (bigInt ((JsNumber.finite 10000).sub feeBps)).toOption

theorem share_of_feeShare {feeBps : JsNumber} {m : Int} (h : feeShare feeBps = some m) (hlow : feeBps.lt (.finite 0) = false)
    (hhigh : (JsNumber.finite 10000).le feeBps = false) : Share m 10000 := by
  cases feeBps with
  | finite q =>
      have hq0 : 0 ≤ q := by simpa [JsNumber.lt] using hlow
      have hdouble : IsDouble (.finite 10000) := isDouble_natCast (by decide : 10000 < 2 ^ 53)
      have hq1 : q ≤ 10000 := le_of_not_ge (fun hle => by simp [JsNumber.finite_le_finite_iff.mpr hle] at hhigh)
      obtain ⟨r, hr, hr0, hr1⟩ := fl_between fl_zero hdouble (sub_nonneg.mpr hq1) (sub_le_self 10000 hq0)
      rw [feeShare, JsNumber.sub, hr, bigInt] at h
      split_ifs at h with hden
      · obtain rfl := Option.some.inj h
        have hnum : (r.num : ℚ) = r := Rat.coe_int_num_of_den_eq_one hden
        exact ⟨by exact_mod_cast hnum ▸ hr0, by exact_mod_cast hnum ▸ hr1, by decide⟩
      · simp [Except.toOption] at h
  | infinity negative => cases negative <;> simp [feeShare, JsNumber.sub, bigInt, Except.toOption] at h
  | nan => simp [feeShare, JsNumber.sub, bigInt, Except.toOption] at h

/-- What an amount is exchanged for. -/
theorem calculateSwapOutput_ok {inputAmount reserveIn reserveOut output : Int} {feeBps : JsNumber}
    (h : calculateSwapOutput inputAmount reserveIn reserveOut feeBps = .ok output) :
    0 < inputAmount ∧ 0 < reserveIn ∧ 0 < reserveOut ∧
      ∃ m, feeShare feeBps = some m ∧ Share m 10000 ∧ output = quote reserveIn reserveOut inputAmount m 10000 := by
  unfold calculateSwapOutput at h
  split_ifs at h with hin hres hfee
  rw [not_or] at hres hfee
  have hpos : 0 < inputAmount := not_le.mp hin
  have hx : 0 < reserveIn := not_le.mp hres.1
  have hy : 0 < reserveOut := not_le.mp hres.2
  refine ⟨hpos, hx, hy, ?_⟩
  cases hm : bigInt ((JsNumber.finite 10000).sub feeBps) with
  | error failure =>
      rw [hm] at h
      exact absurd h (by rintro ⟨⟩)
  | ok m =>
      have hshare := share_of_feeShare (by rw [feeShare, hm]; rfl) (by simpa using hfee.1) (by simpa using hfee.2)
      rw [hm] at h
      change divide _ _ = _ at h
      rw [divide, if_neg (hshare.denominator_pos hx hpos.le).ne'] at h
      refine ⟨m, by rw [feeShare, hm]; rfl, hshare, (Except.ok.inj h).symm.trans ?_⟩
      exact Int.tdiv_eq_ediv_of_nonneg (mul_nonneg (mul_nonneg hy.le hpos.le) hshare.nonneg)

theorem estimateSwap_ok {inputAsset : Side} {inputAmount : Int} {estimate : SwapEstimate} (hpool : getPool client poolId = some pool)
    (h : estimateSwap client poolId inputAsset inputAmount = .ok estimate) :
    estimate.inputAmount = inputAmount ∧ calculateSwapOutput inputAmount (pool.assetIn inputAsset).amount
      (pool.assetOut inputAsset).amount pool.fee = .ok estimate.outputAmount := by
  unfold estimateSwap at h
  rw [hpool] at h
  dsimp only at h
  split_ifs at h
  cases hout : calculateSwapOutput inputAmount (pool.assetIn inputAsset).amount (pool.assetOut inputAsset).amount pool.fee with
  | error failure =>
      rw [hout] at h
      exact absurd h (by rintro ⟨⟩)
  | ok output =>
      rw [hout] at h
      cases hfee : bigInt pool.fee with
      | error failure =>
          rw [hfee] at h
          exact absurd h (by rintro ⟨⟩)
      | ok fee =>
          rw [hfee] at h
          change (if _ then _ else _) = _ at h
          split_ifs at h
          rw [← Except.ok.inj h]
          exact ⟨rfl, rfl⟩

end Estimates

section Backing

variable {client after : LiquidityPoolClient} {pool other last : LiquidityPool} {poolId : String}

/-- The shares are no more than the root of the product of the reserves, and there are no reserves without shares. -/
structure Backed (pool : LiquidityPool) : Prop where
  assetA : 0 ≤ pool.assetA.amount
  assetB : 0 ≤ pool.assetB.amount
  shares : 0 ≤ pool.totalShares
  root : pool.totalShares * pool.totalShares ≤ pool.assetA.amount * pool.assetB.amount
  empty : pool.totalShares = 0 → pool.assetA.amount = 0 ∧ pool.assetB.amount = 0

/-- As much of the product of the reserves stands behind the square of a share as before. -/
def KeepsValue (pool other : LiquidityPool) : Prop :=
  pool.assetA.amount * pool.assetB.amount * (other.totalShares * other.totalShares) ≤
    other.assetA.amount * other.assetB.amount * (pool.totalShares * pool.totalShares)

theorem Backed.pos (h : Backed pool) (hshares : 0 < pool.totalShares) : 0 < pool.assetA.amount ∧ 0 < pool.assetB.amount := by
  have hproduct : 0 < pool.assetA.amount * pool.assetB.amount := lt_of_lt_of_le (mul_pos hshares hshares) h.root
  exact ⟨pos_of_mul_pos_left hproduct h.assetB, pos_of_mul_pos_right hproduct h.assetA⟩

theorem KeepsValue.trans (hpos : 0 < other.totalShares) (h : KeepsValue pool other) (h' : KeepsValue other last) :
    KeepsValue pool last := by
  unfold KeepsValue at *
  have hsquare := mul_pos hpos hpos
  refine le_of_mul_le_mul_right ?_ hsquare
  calc _ = pool.assetA.amount * pool.assetB.amount * (other.totalShares * other.totalShares) * (last.totalShares * last.totalShares) := by
        ring
    _ ≤ other.assetA.amount * other.assetB.amount * (pool.totalShares * pool.totalShares) * (last.totalShares * last.totalShares) :=
        mul_le_mul_of_nonneg_right h (mul_self_nonneg _)
    _ = other.assetA.amount * other.assetB.amount * (last.totalShares * last.totalShares) * (pool.totalShares * pool.totalShares) := by
        ring
    _ ≤ last.assetA.amount * last.assetB.amount * (other.totalShares * other.totalShares) * (pool.totalShares * pool.totalShares) :=
        mul_le_mul_of_nonneg_right h' (mul_self_nonneg _)
    _ = _ := by ring

/-- What keeps the value of a share keeps the shares backed. -/
theorem Backed.of_keepsValue (h : Backed pool) (hshares : 0 < pool.totalShares) (hvalue : KeepsValue pool other)
    (hA : 0 ≤ other.assetA.amount) (hB : 0 ≤ other.assetB.amount) (hT : 0 ≤ other.totalShares)
    (hempty : other.totalShares = 0 → other.assetA.amount = 0 ∧ other.assetB.amount = 0) : Backed other where
  assetA := hA
  assetB := hB
  shares := hT
  root := by
    refine le_of_mul_le_mul_left ?_ (mul_pos (h.pos hshares).1 (h.pos hshares).2)
    refine le_trans hvalue ?_
    rw [mul_comm (pool.assetA.amount * pool.assetB.amount)]
    exact mul_le_mul_of_nonneg_left h.root (mul_nonneg hA hB)
  empty := hempty

/-- What keeps the backing on both sides keeps the value of a share. -/
theorem keepsValue_of_sides (hA : PoolShares.KeepsBacking pool.assetA.amount pool.totalShares other.assetA.amount other.totalShares)
    (hB : PoolShares.KeepsBacking pool.assetB.amount pool.totalShares other.assetB.amount other.totalShares)
    (hpool : Backed pool) (hother : 0 ≤ other.assetA.amount) (hT : 0 ≤ other.totalShares) : KeepsValue pool other := by
  unfold KeepsValue
  calc _ = pool.assetA.amount * other.totalShares * (pool.assetB.amount * other.totalShares) := by ring
    _ ≤ other.assetA.amount * pool.totalShares * (other.assetB.amount * pool.totalShares) :=
        mul_le_mul hA hB (mul_nonneg hpool.assetB hT) (mul_nonneg hother hpool.shares)
    _ = _ := by ring

theorem product_sides (pool : LiquidityPool) (side : Side) :
    pool.assetA.amount * pool.assetB.amount = (pool.assetIn side).amount * (pool.assetOut side).amount := by
  cases side with
  | A => rfl
  | B => exact mul_comm _ _

theorem assetIn_swapped (pool : LiquidityPool) (side : Side) (estimate : SwapEstimate) :
    ((pool.swapped side estimate).assetIn side).amount = (pool.assetIn side).amount + estimate.inputAmount := by
  cases side <;> rfl

theorem assetOut_swapped (pool : LiquidityPool) (side : Side) (estimate : SwapEstimate) :
    ((pool.swapped side estimate).assetOut side).amount = (pool.assetOut side).amount - estimate.outputAmount := by
  cases side <;> rfl

theorem totalShares_swapped (pool : LiquidityPool) (side : Side) (estimate : SwapEstimate) :
    (pool.swapped side estimate).totalShares = pool.totalShares := by
  cases side <;> rfl

theorem Backed.swapped (h : Backed pool) {side : Side} {inputAmount : Int} {estimate : SwapEstimate}
    (hpool : getPool client poolId = some pool) (hok : estimateSwap client poolId side inputAmount = .ok estimate) :
    Backed (pool.swapped side estimate) ∧ KeepsValue pool (pool.swapped side estimate) := by
  obtain ⟨hinput, houtput⟩ := estimateSwap_ok hpool hok
  obtain ⟨hin, hx, hy, m, -, hshare, hquote⟩ := calculateSwapOutput_ok houtput
  have hshares : 0 < pool.totalShares := by
    refine lt_of_le_of_ne h.shares (fun h0 => ?_)
    obtain ⟨hA, hB⟩ := h.empty h0.symm
    cases side
    · exact hx.ne' hA
    · exact hx.ne' hB
  have hvalue : KeepsValue pool (pool.swapped side estimate) := by
    unfold KeepsValue
    rw [totalShares_swapped, product_sides pool side, product_sides (pool.swapped side estimate) side, assetIn_swapped,
      assetOut_swapped, hinput, hquote]
    exact mul_le_mul_of_nonneg_right (product_le hshare hx hy hin.le) (mul_self_nonneg _)
  have hinside : 0 ≤ ((pool.swapped side estimate).assetIn side).amount := by
    rw [assetIn_swapped, hinput]
    exact add_nonneg hx.le hin.le
  have houtside : 0 ≤ ((pool.swapped side estimate).assetOut side).amount := by
    rw [assetOut_swapped, hquote]
    exact sub_nonneg.mpr (quote_lt hshare hx hy hin.le).le
  refine ⟨h.of_keepsValue hshares hvalue ?_ ?_ ?_ ?_, hvalue⟩
  · cases side
    · exact hinside
    · exact houtside
  · cases side
    · exact houtside
    · exact hinside
  · exact h.shares.trans_eq (totalShares_swapped pool side estimate).symm
  · exact fun h0 => absurd h0 (by rw [totalShares_swapped]; exact hshares.ne')

/-- What a number of new shares for an amount costs on one side. -/
theorem keepsBacking_shares {R T amount shares : Int} (hR : 0 < R) (hle : shares ≤ amount * T / R) :
    PoolShares.KeepsBacking R T (R + amount) (T + shares) := by
  have := (Int.le_ediv_iff_mul_le hR).mp hle
  unfold PoolShares.KeepsBacking
  linarith

theorem sharesFor_spec (h : Backed pool) {amountA amountB : Int} (hA : 0 < amountA) (hB : 0 < amountB) :
    ∃ shares, sharesFor pool amountA amountB = .ok shares ∧ 0 ≤ shares ∧
      (pool.totalShares = 0 → 0 < shares ∧ shares * shares ≤ amountA * amountB) ∧
      (0 < pool.totalShares → shares ≤ amountA * pool.totalShares / pool.assetA.amount ∧
        shares ≤ amountB * pool.totalShares / pool.assetB.amount) := by
  unfold sharesFor
  split_ifs with hshares
  · obtain ⟨n, hn⟩ := Int.eq_ofNat_of_zero_le (mul_pos hA hB).le
    have hpos : 0 < n := by exact_mod_cast hn ▸ mul_pos hA hB
    rw [hn, bigintSqrt_natCast]
    refine ⟨_, rfl, Int.natCast_nonneg _, fun _ => ⟨by exact_mod_cast Nat.sqrt_pos.mpr hpos, by exact_mod_cast Nat.sqrt_le n⟩, ?_⟩
    exact fun hlt => absurd hshares hlt.ne'
  · have hpos : 0 < pool.totalShares := lt_of_le_of_ne h.shares (Ne.symm hshares)
    obtain ⟨hposA, hposB⟩ := h.pos hpos
    have hdivA := mul_nonneg hA.le h.shares
    have hdivB := mul_nonneg hB.le h.shares
    rw [divide, divide, if_neg hposA.ne', if_neg hposB.ne', Int.tdiv_eq_ediv_of_nonneg hdivA, Int.tdiv_eq_ediv_of_nonneg hdivB]
    have hnonnegA := Int.ediv_nonneg hdivA hposA.le
    have hnonnegB := Int.ediv_nonneg hdivB hposB.le
    refine ⟨_, rfl, ?_, fun h0 => absurd h0 hshares, fun _ => ?_⟩
    · split_ifs
      · exact hnonnegA
      · exact hnonnegB
    · split_ifs with hlt
      · exact ⟨le_rfl, hlt.le⟩
      · exact ⟨not_lt.mp hlt, le_rfl⟩

theorem Backed.deposited (h : Backed pool) {amountA amountB shares : Int} (hA : 0 < amountA) (hB : 0 < amountB)
    (hshares : sharesFor pool amountA amountB = .ok shares) :
    Backed (pool.deposited ⟨poolId, shares, amountA, amountB⟩) ∧
      KeepsValue pool (pool.deposited ⟨poolId, shares, amountA, amountB⟩) := by
  obtain ⟨issued, hok, hnonneg, hfirst, hlater⟩ := sharesFor_spec h hA hB
  obtain rfl := Except.ok.inj (hshares.symm.trans hok)
  rcases eq_or_lt_of_le h.shares with h0 | hpos
  · obtain ⟨hemptyA, hemptyB⟩ := h.empty h0.symm
    obtain ⟨hroot, hsquare⟩ := hfirst h0.symm
    have hvalue : KeepsValue pool (pool.deposited ⟨poolId, shares, amountA, amountB⟩) := by
      simp [KeepsValue, hemptyA, ← h0]
    refine ⟨⟨?_, ?_, ?_, ?_, fun hzero => ?_⟩, hvalue⟩
    all_goals simp only [LiquidityPool.deposited, hemptyA, hemptyB, ← h0, zero_add] at *
    · exact hA.le
    · exact hB.le
    · exact hnonneg
    · exact hsquare
    · exact absurd hzero hroot.ne'
  · obtain ⟨hposA, hposB⟩ := h.pos hpos
    obtain ⟨hleA, hleB⟩ := hlater hpos
    have hvalue : KeepsValue pool (pool.deposited ⟨poolId, shares, amountA, amountB⟩) :=
      keepsValue_of_sides (keepsBacking_shares hposA hleA) (keepsBacking_shares hposB hleB) h (add_nonneg hposA.le hA.le)
        (add_nonneg hpos.le hnonneg)
    refine ⟨h.of_keepsValue hpos hvalue (add_nonneg hposA.le hA.le) (add_nonneg hposB.le hB.le) (add_nonneg hpos.le hnonneg) ?_, hvalue⟩
    exact fun hzero => absurd hzero (add_pos_of_pos_of_nonneg hpos hnonneg).ne'

theorem Backed.withdrawn (h : Backed pool) {shares : Int} (hpos : 0 < shares) (hle : shares ≤ pool.totalShares) :
    Backed (pool.withdrawn ⟨poolId, shares, shares * pool.assetA.amount / pool.totalShares,
      shares * pool.assetB.amount / pool.totalShares⟩) ∧
    KeepsValue pool (pool.withdrawn ⟨poolId, shares, shares * pool.assetA.amount / pool.totalShares,
      shares * pool.assetB.amount / pool.totalShares⟩) := by
  have hT : 0 < pool.totalShares := hpos.trans_le hle
  rw [mul_comm shares, mul_comm shares]
  have hA : 0 ≤ pool.assetA.amount - PoolShares.portion pool.assetA.amount pool.totalShares shares :=
    sub_nonneg.mpr (PoolShares.portion_le h.assetA hT hle)
  have hB : 0 ≤ pool.assetB.amount - PoolShares.portion pool.assetB.amount pool.totalShares shares :=
    sub_nonneg.mpr (PoolShares.portion_le h.assetB hT hle)
  have hvalue : KeepsValue pool (pool.withdrawn ⟨poolId, shares, PoolShares.portion pool.assetA.amount pool.totalShares shares,
      PoolShares.portion pool.assetB.amount pool.totalShares shares⟩) :=
    keepsValue_of_sides (PoolShares.keepsBacking_withdraw hT _ shares) (PoolShares.keepsBacking_withdraw hT _ shares) h hA
      (sub_nonneg.mpr hle)
  refine ⟨h.of_keepsValue hT hvalue hA hB (sub_nonneg.mpr hle) (fun hzero => ?_), hvalue⟩
  obtain rfl : shares = pool.totalShares := (sub_eq_zero.mp hzero).symm
  exact ⟨by simp [LiquidityPool.withdrawn, hT.ne'], by simp [LiquidityPool.withdrawn, hT.ne']⟩

end Backing

section Runs

variable {client after : LiquidityPoolClient} {pool other : LiquidityPool} {poolId : String}

theorem simulateDeposit_ok {amountA amountB : Int} {result : PoolDepositResult} (hpool : getPool client poolId = some pool)
    (h : simulateDeposit client poolId amountA amountB = .ok result) : 0 < amountA ∧ 0 < amountB ∧
      ∃ shares, sharesFor pool amountA amountB = .ok shares ∧ result = ⟨poolId, shares, amountA, amountB⟩ := by
  unfold simulateDeposit at h
  rw [hpool] at h
  dsimp only at h
  split_ifs at h with hneg
  rw [not_or, not_le, not_le] at hneg
  cases hshares : sharesFor pool amountA amountB with
  | error failure =>
      rw [hshares] at h
      exact absurd h (by rintro ⟨⟩)
  | ok shares =>
      rw [hshares] at h
      exact ⟨hneg.1, hneg.2, shares, rfl, (Except.ok.inj h).symm⟩

theorem simulateWithdraw_ok {shares : Int} (hpool : getPool client poolId = some pool) (hbacked : Backed pool)
    {result : PoolWithdrawResult} (h : simulateWithdraw client poolId shares = .ok result) :
    0 < shares ∧ shares ≤ pool.totalShares ∧ result = ⟨poolId, shares, shares * pool.assetA.amount / pool.totalShares,
      shares * pool.assetB.amount / pool.totalShares⟩ := by
  unfold simulateWithdraw at h
  rw [hpool] at h
  dsimp only at h
  split_ifs at h with hneg hmany
  have hpos : 0 < shares := not_le.mp hneg
  have hT : 0 < pool.totalShares := hpos.trans_le (not_lt.mp hmany)
  rw [divide, divide, if_neg hT.ne', if_neg hT.ne', Int.tdiv_eq_ediv_of_nonneg (mul_nonneg hpos.le hbacked.assetA),
    Int.tdiv_eq_ediv_of_nonneg (mul_nonneg hpos.le hbacked.assetB)] at h
  exact ⟨hpos, not_lt.mp hmany, (Except.ok.inj h).symm⟩

/-- What an order makes of its pool. -/
theorem settled_spec {order : Order} (hbacked : ∀ poolId pool, getPool client poolId = some pool → Backed pool)
    (h : settled client order = some other) :
    ∃ pool, getPool client order.poolId = some pool ∧ other.id = order.poolId ∧ Backed other ∧ KeepsValue pool other := by
  cases order with
  | swap poolId side amount =>
      obtain ⟨pool, hpool, h⟩ := Option.bind_eq_some_iff.mp h
      obtain ⟨estimate, hestimate, h⟩ := Option.bind_eq_some_iff.mp h
      obtain rfl := Option.some.inj h
      have hspec := (hbacked poolId pool hpool).swapped hpool (toOption_eq_some.mp hestimate)
      refine ⟨pool, hpool, ?_, hspec⟩
      cases side <;> exact client.named poolId pool hpool
  | deposit poolId amountA amountB =>
      obtain ⟨pool, hpool, h⟩ := Option.bind_eq_some_iff.mp h
      obtain ⟨result, hresult, h⟩ := Option.bind_eq_some_iff.mp h
      obtain rfl := Option.some.inj h
      obtain ⟨hA, hB, shares, hshares, rfl⟩ := simulateDeposit_ok hpool (toOption_eq_some.mp hresult)
      exact ⟨pool, hpool, client.named poolId pool hpool, (hbacked poolId pool hpool).deposited hA hB hshares⟩
  | withdraw poolId shares =>
      obtain ⟨pool, hpool, h⟩ := Option.bind_eq_some_iff.mp h
      obtain ⟨result, hresult, h⟩ := Option.bind_eq_some_iff.mp h
      obtain rfl := Option.some.inj h
      have hpoolbacked := hbacked poolId pool hpool
      obtain ⟨hpos, hle, rfl⟩ := simulateWithdraw_ok hpool hpoolbacked (toOption_eq_some.mp hresult)
      exact ⟨pool, hpool, client.named poolId pool hpool, hpoolbacked.withdrawn hpos hle⟩

theorem getPool_registerPool (client : LiquidityPoolClient) (other : LiquidityPool) (poolId : String) :
    getPool (registerPool client other) poolId = if poolId = other.id then some other else getPool client poolId :=
  OrdMap.get?_set client.pools other.id poolId other

theorem backed_step {order : Order} (hbacked : ∀ poolId pool, getPool client poolId = some pool → Backed pool)
    (h : step client order = some after) : ∀ poolId pool, getPool after poolId = some pool → Backed pool := by
  obtain rfl := Option.some.inj h
  intro poolId pool hpool
  cases hsettled : settled client order with
  | none =>
      rw [hsettled] at hpool
      exact hbacked poolId pool hpool
  | some other =>
      obtain ⟨-, -, -, hother, -⟩ := settled_spec hbacked hsettled
      rw [hsettled, getPool_registerPool] at hpool
      split_ifs at hpool with heq
      · exact Option.some.inj hpool ▸ hother
      · exact hbacked poolId pool hpool

/-- Some shares of the pool are left when an order is a withdrawal. -/
def Leaves (poolId : String) (client : LiquidityPoolClient) : Order → Prop
  | .withdraw id shares => id = poolId → ∀ pool, getPool client poolId = some pool → shares < pool.totalShares
  | _ => True

/-- A pool that has some shares, which are worth at least what a share of the pool was. -/
def Worth (first : LiquidityPool) (poolId : String) (client : LiquidityPoolClient) : Prop :=
  ∃ pool, getPool client poolId = some pool ∧ 0 < pool.totalShares ∧ KeepsValue first pool

theorem totalShares_pos {order : Order} (hbacked : Backed pool) (hpos : 0 < pool.totalShares)
    (hpool : getPool client order.poolId = some pool) (hleaves : Leaves order.poolId client order)
    (h : settled client order = some other) : 0 < other.totalShares := by
  cases order with
  | swap poolId side amount =>
      obtain ⟨found, hfound, h⟩ := Option.bind_eq_some_iff.mp h
      obtain ⟨estimate, hestimate, h⟩ := Option.bind_eq_some_iff.mp h
      obtain rfl := Option.some.inj h
      obtain rfl := Option.some.inj (hpool.symm.trans hfound)
      rwa [totalShares_swapped]
  | deposit poolId amountA amountB =>
      obtain ⟨found, hfound, h⟩ := Option.bind_eq_some_iff.mp h
      obtain ⟨result, hresult, h⟩ := Option.bind_eq_some_iff.mp h
      obtain rfl := Option.some.inj h
      obtain rfl := Option.some.inj (hpool.symm.trans hfound)
      obtain ⟨hA, hB, shares, hshares, rfl⟩ := simulateDeposit_ok hpool (toOption_eq_some.mp hresult)
      obtain ⟨issued, hok, hnonneg, -⟩ := sharesFor_spec hbacked hA hB
      obtain rfl := Except.ok.inj (hshares.symm.trans hok)
      exact add_pos_of_pos_of_nonneg hpos hnonneg
  | withdraw poolId shares =>
      obtain ⟨found, hfound, h⟩ := Option.bind_eq_some_iff.mp h
      obtain ⟨result, hresult, h⟩ := Option.bind_eq_some_iff.mp h
      obtain rfl := Option.some.inj h
      obtain rfl := Option.some.inj (hpool.symm.trans hfound)
      obtain ⟨-, -, rfl⟩ := simulateWithdraw_ok hpool hbacked (toOption_eq_some.mp hresult)
      exact sub_pos.mpr (hleaves rfl pool hpool)

theorem worth_step {order : Order} (hbacked : ∀ poolId pool, getPool client poolId = some pool → Backed pool)
    (hworth : Worth pool poolId client) (hleaves : Leaves poolId client order) (h : step client order = some after) :
    Worth pool poolId after := by
  obtain ⟨found, hfound, hpos, hvalue⟩ := hworth
  obtain rfl := Option.some.inj h
  cases hsettled : settled client order with
  | none => exact ⟨found, hfound, hpos, hvalue⟩
  | some other =>
      obtain ⟨source, hsource, hid, -, hkeeps⟩ := settled_spec hbacked hsettled
      by_cases heq : poolId = order.poolId
      · subst heq
        obtain rfl := Option.some.inj (hfound.symm.trans hsource)
        refine ⟨other, ?_, totalShares_pos (hbacked _ _ hfound) hpos hfound hleaves hsettled, hvalue.trans hpos hkeeps⟩
        rw [getPool_registerPool, if_pos hid.symm]
      · refine ⟨found, ?_, hpos, hvalue⟩
        rw [getPool_registerPool, if_neg (fun h => heq (h.trans hid)), hfound]

theorem simulateDeposit_ne (hbacked : ∀ poolId pool, getPool client poolId = some pool → Backed pool) (amountA amountB : Int) :
    simulateDeposit client poolId amountA amountB ≠ .error (.rangeError "Division by zero") := by
  unfold simulateDeposit
  cases hpool : getPool client poolId with
  | none => exact Except.error.inj.mt (by rintro ⟨⟩)
  | some pool =>
      dsimp only
      split_ifs with hneg
      · decide
      · rw [not_or, not_le, not_le] at hneg
        obtain ⟨shares, hok, -⟩ := sharesFor_spec (hbacked poolId pool hpool) hneg.1 hneg.2
        rw [hok]
        rintro ⟨⟩

theorem simulateWithdraw_ne (client : LiquidityPoolClient) (poolId : String) (shares : Int) :
    simulateWithdraw client poolId shares ≠ .error (.rangeError "Division by zero") := by
  unfold simulateWithdraw
  cases hpool : getPool client poolId with
  | none => exact Except.error.inj.mt (by rintro ⟨⟩)
  | some pool =>
      dsimp only
      split_ifs with hneg hmany
      · decide
      · decide
      · have hT : pool.totalShares ≠ 0 := ((not_le.mp hneg).trans_le (not_lt.mp hmany)).ne'
        rw [divide, divide, if_neg hT, if_neg hT]
        rintro ⟨⟩

/-- However the pools of a client are traded in, what stays behind backs the shares: their square is never more than the product of
the reserves, no estimate divides by zero, and no run in which shares are left lowers what stands behind a share. -/
theorem shares_backed {orders : List Order} (hbacked : ∀ poolId pool, getPool client poolId = some pool → Backed pool)
    (hrun : run step client orders = some after) :
    (∀ poolId pool, getPool after poolId = some pool → Backed pool) ∧
    (∀ poolId amountA amountB shares, simulateDeposit after poolId amountA amountB ≠ .error (.rangeError "Division by zero") ∧
      simulateWithdraw after poolId shares ≠ .error (.rangeError "Division by zero")) ∧
    ∀ poolId pool other, getPool client poolId = some pool → getPool after poolId = some other → 0 < pool.totalShares →
      Allowed step (Leaves poolId) client orders → KeepsValue pool other := by
  have hafter := run_preserves (fun s order t hs ht => @backed_step s t order hs ht) hbacked hrun
  refine ⟨hafter, fun poolId a b shares => ⟨simulateDeposit_ne hafter a b, simulateWithdraw_ne after poolId shares⟩, ?_⟩
  intro poolId pool other hpool hother hpos hleaves
  have hstart : Worth pool poolId client := ⟨pool, hpool, hpos, le_refl _⟩
  obtain ⟨-, found, hfound, -, hvalue⟩ := run_invariant (I := fun s =>
    (∀ poolId pool, getPool s poolId = some pool → Backed pool) ∧ Worth pool poolId s)
    (fun s order t hs hok ht => ⟨backed_step hs.1 ht, worth_step hs.1 hs.2 hok ht⟩) client after orders ⟨hbacked, hstart⟩ hleaves hrun
  exact Option.some.inj (hfound.symm.trans hother) ▸ hvalue

def evenPool : LiquidityPool := ⟨"7", .finite 30, ⟨"XLM", 400000⟩, ⟨"USDC", 900000⟩, 600000⟩

theorem named_empty (poolId : String) (pool : LiquidityPool)
    (h : (OrdMap.empty : OrdMap String LiquidityPool).get? poolId = some pool) : pool.id = poolId :=
  absurd h (by rintro ⟨⟩)

/-- A client that knows one pool. -/
def evenClient : LiquidityPoolClient := registerPool { pools := .empty, named := named_empty } evenPool

theorem backed_evenClient : ∀ poolId pool, getPool evenClient poolId = some pool → Backed pool := by
  intro poolId pool h
  rw [evenClient, getPool_registerPool] at h
  split_ifs at h
  · obtain rfl := Option.some.inj h
    exact ⟨by decide, by decide, by decide, by decide, by decide⟩
  · exact absurd h (by rintro ⟨⟩)

/-- A deposit and a withdrawal of half of it. -/
theorem shares_backed_even : ∃ after, run step evenClient [.deposit "7" 200 450, .withdraw "7" 150] = some after ∧
    getPool after "7" = some ⟨"7", .finite 30, ⟨"XLM", 400100⟩, ⟨"USDC", 900225⟩, 600150⟩ ∧
    ∀ poolId pool, getPool after poolId = some pool → Backed pool :=
  ⟨_, rfl, rfl, (@shares_backed _ _ [.deposit "7" 200 450, .withdraw "7" 150] backed_evenClient rfl).1⟩

end Runs

section Splitting

variable {client : LiquidityPoolClient} {pool : LiquidityPool} {poolId : String} {inputAsset : Side}

/-- What some amounts bring, each swapped after the ones before it. -/
def outputs (poolId : String) (inputAsset : Side) : LiquidityPoolClient → List Int → Option (List Int)
  | _, [] => some []
  | client, amount :: amounts => do
      let estimate ← (estimateSwap client poolId inputAsset amount).toOption
      let after ← step client (.swap poolId inputAsset amount)
      let rest ← outputs poolId inputAsset after amounts
      return estimate.outputAmount :: rest

theorem outputs_cons {amount : Int} {amounts outs : List Int} (hpool : getPool client poolId = some pool)
    (h : outputs poolId inputAsset client (amount :: amounts) = some outs) :
    ∃ estimate after rest, estimateSwap client poolId inputAsset amount = .ok estimate ∧
      getPool after poolId = some (pool.swapped inputAsset estimate) ∧ outputs poolId inputAsset after amounts = some rest ∧
      outs = estimate.outputAmount :: rest := by
  obtain ⟨estimate, hestimate, h⟩ := Option.bind_eq_some_iff.mp h
  obtain ⟨after, hafter, h⟩ := Option.bind_eq_some_iff.mp h
  obtain ⟨rest, hrest, h⟩ := Option.bind_eq_some_iff.mp h
  refine ⟨estimate, after, rest, toOption_eq_some.mp hestimate, ?_, hrest, (Option.some.inj h).symm⟩
  obtain rfl := Option.some.inj hafter
  have hsettled : settled client (.swap poolId inputAsset amount) = some (pool.swapped inputAsset estimate) := by
    rw [settled, hpool, Option.bind_eq_bind, Option.bind_some, hestimate]
    rfl
  have hid : (pool.swapped inputAsset estimate).id = poolId := by
    cases inputAsset <;> exact client.named poolId pool hpool
  rw [hsettled, getPool_registerPool, if_pos hid.symm]

theorem fee_swapped (pool : LiquidityPool) (side : Side) (estimate : SwapEstimate) :
    (pool.swapped side estimate).fee = pool.fee := by
  cases side <;> rfl

theorem sum_outputs_le {m : Int} {amounts outs : List Int} (hpool : getPool client poolId = some pool)
    (hm : feeShare pool.fee = some m) (hshare : Share m 10000) (hx : 0 < (pool.assetIn inputAsset).amount)
    (hy : 0 < (pool.assetOut inputAsset).amount) (h : outputs poolId inputAsset client amounts = some outs) :
    0 ≤ amounts.sum ∧
      outs.sum ≤ quote (pool.assetIn inputAsset).amount (pool.assetOut inputAsset).amount amounts.sum m 10000 := by
  induction amounts generalizing client pool outs with
  | nil =>
      obtain rfl := Option.some.inj h
      exact ⟨le_refl 0, quote_nonneg hshare hx hy.le le_rfl⟩
  | cons amount amounts ih =>
      obtain ⟨estimate, after, rest, hestimate, hafter, hrest, rfl⟩ := outputs_cons hpool h
      obtain ⟨hinput, houtput⟩ := estimateSwap_ok hpool hestimate
      obtain ⟨hin, -, -, n, hn, -, hquote⟩ := calculateSwapOutput_ok houtput
      obtain rfl := Option.some.inj (hm.symm.trans hn)
      have hsplit := ih hafter (by rwa [fee_swapped]) (by rw [assetIn_swapped, hinput]; exact add_pos hx hin)
        (by rw [assetOut_swapped, hquote]; exact sub_pos.mpr (quote_lt hshare hx hy hin.le)) hrest
      rw [assetIn_swapped, assetOut_swapped, hinput, hquote] at hsplit
      rw [List.sum_cons, List.sum_cons, hquote]
      exact ⟨add_nonneg hin.le hsplit.1, (Int.add_le_add_left hsplit.2 _).trans (quote_split hshare hx hy hin.le hsplit.1)⟩

/-- An order that is swapped in parts never brings more than one that is swapped at once. -/
theorem parts_bring_no_more {amounts outs : List Int} {estimate : SwapEstimate}
    (hparts : outputs poolId inputAsset client amounts = some outs)
    (hwhole : estimateSwap client poolId inputAsset amounts.sum = .ok estimate) : outs.sum ≤ estimate.outputAmount := by
  cases hpool : getPool client poolId with
  | none =>
      rw [estimateSwap, hpool] at hwhole
      exact absurd hwhole (by rintro ⟨⟩)
  | some pool =>
      obtain ⟨-, houtput⟩ := estimateSwap_ok hpool hwhole
      obtain ⟨-, hx, hy, m, hm, hshare, hquote⟩ := calculateSwapOutput_ok houtput
      rw [hquote]
      exact (sum_outputs_le hpool hm hshare hx hy hparts).2

/-- A client without a limit estimates every amount in a pool that holds enough. -/
theorem estimateSwap_unlimited {amount : Int} (hpool : getPool client poolId = some pool) (hfee : pool.fee = .finite 30)
    (hmax : client.maxPriceImpactBps = .infinity false)
    (henough : client.minLiquidityThreshold ≤ pool.assetA.amount + pool.assetB.amount)
    (hin : 0 < amount)
    (hx : 0 < (pool.assetIn inputAsset).amount) (hy : 0 < (pool.assetOut inputAsset).amount) :
    ∃ estimate, estimateSwap client poolId inputAsset amount = .ok estimate ∧ estimate.inputAmount = amount ∧ estimate.outputAmount =
      ((pool.assetOut inputAsset).amount * amount * 9970).tdiv ((pool.assetIn inputAsset).amount * 10000 + amount * 9970) := by
  have hshare : (JsNumber.finite 10000).sub (.finite 30) = .finite 9970 := by
    have h : fl ((9970 : Nat) : ℚ) = .finite ((9970 : Nat) : ℚ) := isDouble_natCast (by decide)
    rw [JsNumber.sub]
    norm_num at h ⊢
    exact h
  have hrange : ¬((JsNumber.finite 30).lt (.finite 0) ∨ (JsNumber.finite 10000).le (.finite 30)) := by decide
  have hbigInt : bigInt (.finite 9970) = .ok 9970 := rfl
  have hfree : ∀ x, (JsNumber.infinity false).lt x = false := fun x => by cases x <;> rfl
  unfold estimateSwap calculateSwapOutput
  rw [hpool]
  dsimp only
  rw [if_neg henough.not_gt, if_neg hin.not_ge, if_neg (by omega), hfee, if_neg hrange, hshare, hbigInt, hmax]
  change ∃ estimate, (divide _ _ >>= _) = _ ∧ _
  rw [divide, if_neg (by positivity)]
  refine ⟨_, if_neg (by rw [hfree]; exact Bool.false_ne_true), rfl, rfl⟩

def openClient : LiquidityPoolClient :=
  registerPool { pools := .empty, named := named_empty, maxPriceImpactBps := .infinity false } evenPool

/-- A thousand at once, and in two halves. -/
theorem parts_bring_no_more_even : ∃ whole outs, estimateSwap openClient "7" .A ([500, 500] : List Int).sum = .ok whole ∧
    outputs "7" .A openClient [500, 500] = some outs ∧ outs.sum ≤ whole.outputAmount := by
  obtain ⟨whole, hwhole, -⟩ := @estimateSwap_unlimited openClient evenPool "7" .A 1000 rfl rfl rfl (by decide) (by decide) (by decide)
    (by decide)
  obtain ⟨first, hfirst, hinput, houtput⟩ := @estimateSwap_unlimited openClient evenPool "7" .A 500 rfl rfl rfl (by decide) (by decide)
    (by decide) (by decide)
  have hsettled : settled openClient (.swap "7" .A 500) = some (evenPool.swapped .A first) := by
    rw [settled, hfirst]
    rfl
  obtain ⟨second, hsecond, -⟩ := @estimateSwap_unlimited (registerPool openClient (evenPool.swapped .A first)) (evenPool.swapped .A first)
    "7" .A 500 rfl rfl rfl (by simp only [LiquidityPool.swapped, hinput, houtput]; decide) (by decide)
    (by rw [assetIn_swapped, hinput]; decide) (by rw [assetOut_swapped, houtput]; decide)
  have houts : outputs "7" .A openClient [500, 500] = some [first.outputAmount, second.outputAmount] := by
    rw [outputs, hfirst, step, hsettled]
    change (outputs "7" .A (registerPool openClient (evenPool.swapped .A first)) [500] >>= _) = _
    rw [outputs, hsecond]
    rfl
  exact ⟨whole, _, hwhole, houts, parts_bring_no_more houts hwhole⟩

end Splitting

end SplitSdk.LiquidityPools
