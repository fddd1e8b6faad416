import SplitSdk.BigIntText

namespace SplitSdk.AmmCalculator

open Numbers

section Data

structure Reserve where
  asset : String
  amount : String
  deriving DecidableEq

structure Pool where
  reserves : List Reserve
  totalShares : String
  deriving DecidableEq

inductive Failure
  | insufficientLiquidity (message reserveAmount inputAmount : String)
  | syntaxError (message : String)
  | rangeError (message : String)
  deriving DecidableEq

structure PoolSwapEstimate where
  outputAmount : String
  priceImpactPercent : String
  inputAsset : String
  outputAsset : String
  effectivePrice : String
  spotPrice : String
  deriving DecidableEq

structure DepositEstimate where
  amountA : String
  amountB : String
  sharesMinted : String
  assetA : String
  assetB : String
  deriving DecidableEq

structure WithdrawEstimate where
  amountA : String
  amountB : String
  sharesBurned : String
  assetA : String
  assetB : String
  deriving DecidableEq

end Data

section Helpers

def bigInt (s : String) : Except Failure Int :=
  match BigIntText.ofString s with
  | some n => .ok n
  | none => .error (.syntaxError s!"Cannot convert {s} to a BigInt")

theorem bigInt_eq_ok {s : String} {n : Int} : bigInt s = .ok n ↔ BigIntText.ofString s = some n := by
  unfold bigInt
  cases BigIntText.ofString s <;> simp

/-- `x.toFixed(0)`. -/
def toFixed : JsNumber → String
  | .finite q =>
      if 10 ^ 21 ≤ |q| then Numbers.toString (.finite q)
      else if q < 0 then "-" ++ toString (mathRound (-q)) else toString (mathRound q)
  | x => Numbers.toString x

/-- A number in units of `10 ^ -decimals`, as a decimal. -/
def formatMagnitude (abs decimals : Nat) : List Char :=
  let whole := abs / 10 ^ decimals
  let frac := abs % 10 ^ decimals
  let fracStr := (Nat.toDigits 10 frac).leftpad decimals '0'
  if 0 < decimals then Nat.toDigits 10 whole ++ '.' :: fracStr else Nat.toDigits 10 whole

def formatScaled (value : Int) (decimals : Nat) : List Char :=
  if value < 0 then '-' :: formatMagnitude value.natAbs decimals else formatMagnitude value.natAbs decimals

/-- Nothing where `BigInt` throws. -/
def parseMagnitude (clean : List Char) (decimals : Nat) : Option Int :=
  let (whole, rest) := clean.span (· ≠ '.')
  let frac := (rest.drop 1).takeWhile (· ≠ '.')
  let fracPadded := (frac.rightpad decimals '0').take decimals
  match BigIntText.readBigInt (trim (if whole = [] then ['0'] else whole)),
    BigIntText.readBigInt (trim (if fracPadded = [] then ['0'] else fracPadded)) with
  | some units, some part => some (units * 10 ^ decimals + part)
  | _, _ => none

def parseScaled (value : List Char) (decimals : Nat) : Option Int :=
  if value.head? = some '-' then (parseMagnitude value.tail decimals).map (fun scaled => -scaled)
  else parseMagnitude value decimals

def computeSpotPrice (reserveIn reserveOut : Int) : List Char :=
  if reserveIn ≤ 0 then ['0'] else formatScaled ((reserveOut * 10000000).tdiv reserveIn) 7

def computeEffectivePrice (outputAmount inputAmount : Int) : List Char :=
  if inputAmount ≤ 0 then ['0'] else formatScaled ((outputAmount * 10000000).tdiv inputAmount) 7

def computePriceImpact (spotPrice effectivePrice : List Char) : Option (List Char) :=
  match parseScaled spotPrice 7, parseScaled effectivePrice 7 with
  | some spot, some effective =>
      let diff := spot - effective
      if spot ≤ 0 ∨ diff ≤ 0 then some "0.00".toList else some (formatScaled ((diff * 10000).tdiv spot) 2)
  | _, _ => none

/-- `amountIn / reserveIn > maxRatio`, in millionths. -/
def ratioExceedsLimit (amountIn reserveIn : Int) (maxRatio : JsNumber) : Except Failure Bool :=
  if reserveIn ≤ 0 then .ok true
  else match maxRatio.mul (.finite 1000000) with
    | .finite q => .ok (decide (amountIn * 1000000 > reserveIn * mathRound q))
    | x =>
        let text := Numbers.toString x
        .error (.rangeError s!"The number {text} cannot be converted to a BigInt because it is not an integer")

end Helpers

section Swap

def defaultMaxInputRatio : JsNumber := fl (3 / 10)

variable (reserves : List Reserve) (inputAmount inputAsset : String) (maxRatio : JsNumber)

/-- The estimate for an amount that is within the limit. -/
def swapEstimate (reserveIn reserveOut amountIn : Int) (outputAsset : String) : Except Failure PoolSwapEstimate :=
  let k := reserveIn * reserveOut
  let newReserveIn := reserveIn + amountIn
  let newReserveOut := k.tdiv newReserveIn
  let outputAmount := reserveOut - newReserveOut
  let spotPrice := computeSpotPrice reserveIn reserveOut
  let effectivePrice := computeEffectivePrice outputAmount amountIn
  match computePriceImpact spotPrice effectivePrice with
  | some impact => .ok {
      outputAmount := toString outputAmount
      priceImpactPercent := String.ofList impact
      inputAsset
      outputAsset
      effectivePrice := String.ofList effectivePrice
      spotPrice := String.ofList spotPrice }
  | none => .error (.syntaxError "Cannot convert a price to a BigInt")

def estimateSwapOutput : Except Failure PoolSwapEstimate :=
  if reserves.length < 2 then
    .error (.insufficientLiquidity "Pool must have at least two reserve assets" "0" inputAmount)
  else match reserves.find? (fun r => r.asset = inputAsset), reserves.find? (fun r => r.asset ≠ inputAsset) with
    | some inputReserve, some outputReserve => do
        let reserveIn ← bigInt inputReserve.amount
        let reserveOut ← bigInt outputReserve.amount
        let amountIn ← bigInt inputAmount
        if reserveIn ≤ 0 ∨ reserveOut ≤ 0 then
          .error (.insufficientLiquidity "Pool has zero reserves" "0" inputAmount)
        else if amountIn ≤ 0 then
          return {
            outputAmount := "0"
            priceImpactPercent := "0.00"
            inputAsset
            outputAsset := outputReserve.asset
            effectivePrice := "0"
            spotPrice := String.ofList (computeSpotPrice reserveIn reserveOut) }
        else
          let exceeds ← ratioExceedsLimit amountIn reserveIn maxRatio
          if exceeds then
            let percent := toFixed (maxRatio.mul (.finite 100))
            .error (.insufficientLiquidity s!"Input amount exceeds {percent}% of pool reserves" inputReserve.amount
              inputAmount)
          else swapEstimate inputAsset reserveIn reserveOut amountIn outputReserve.asset
    | _, _ => .error (.insufficientLiquidity s!"Asset {inputAsset} not found in pool reserves" "0" inputAmount)

end Swap

section Shares

variable (pool : Pool)

/-- The amounts `(reserve * shares) / totalShares` of both assets, with the shares and the names of the assets; `calculateDeposit`
and `calculateWithdraw` return them under different names. -/
def proportionalAmounts (sharesText : String) : Except Failure (Int × Int × Int × String × String) :=
  match pool.reserves with
  | reserve0 :: reserve1 :: _ => do
      let totalShares ← bigInt pool.totalShares
      let shares ← bigInt sharesText
      if totalShares ≤ 0 then
        .error (.insufficientLiquidity "Pool has zero total shares" "0" sharesText)
      else
        let reserveA ← bigInt reserve0.amount
        let reserveB ← bigInt reserve1.amount
        if shares ≤ 0 then return (0, 0, 0, reserve0.asset, reserve1.asset)
        else
          return ((reserveA * shares).tdiv totalShares, (reserveB * shares).tdiv totalShares, shares,
            reserve0.asset, reserve1.asset)
  | _ => .error (.insufficientLiquidity "Pool must have at least two reserve assets" "0" sharesText)

def calculateDeposit (sharesToMint : String) : Except Failure DepositEstimate := do
  let (amountA, amountB, mint, assetA, assetB) ← proportionalAmounts pool sharesToMint
  return { amountA := toString amountA, amountB := toString amountB, sharesMinted := toString mint, assetA, assetB }

def calculateWithdraw (sharesToBurn : String) : Except Failure WithdrawEstimate := do
  let (amountA, amountB, burn, assetA, assetB) ← proportionalAmounts pool sharesToBurn
  return { amountA := toString amountA, amountB := toString amountB, sharesBurned := toString burn, assetA, assetB }

end Shares

end SplitSdk.AmmCalculator
