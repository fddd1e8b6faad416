import SplitSdk.OrderedMap
import Mathlib.Algebra.Order.Ring.Rat
import Mathlib.Data.Rat.Floor

namespace SplitSdk.Staking

open OrderedMap

section Data

structure StakingPool where
  id : String
  name : String
  token : String
  apy : ℚ
  minStake : ℚ
  lockupSeconds : ℚ

structure StakingPosition where
  poolId : String
  staked : ℚ
  rewards : ℚ
  stakedAt : ℚ
  lastAccruedAt : ℚ

structure StakingAnalytics where
  poolId : String
  staked : ℚ
  rewards : ℚ
  projectedAnnualYield : ℚ
  lockupRemainingSeconds : ℚ

inductive Failure
  | unknownPool (poolId : String)
  | stakeNotPositive
  | belowMinimum (minStake : ℚ)
  | noPosition (poolId : String)
  | locked (seconds : ℚ)
  | unstakeNotPositive
  | exceedsBalance

structure StakingManager where
  pools : OrdMap String StakingPool := .empty
  positions : OrdMap String StakingPosition := .empty

def msPerYear : ℚ := 365 * 24 * 60 * 60 * 1000

end Data

section Accrual

def calculateYield (principal apy elapsedMs : ℚ) : ℚ :=
  if principal ≤ 0 ∨ apy ≤ 0 ∨ elapsedMs ≤ 0 then 0 else principal * apy * (elapsedMs / msPerYear)

variable (position : StakingPosition) (pool : StakingPool) (now : ℚ)

def accrue : StakingPosition :=
  if now ≤ position.lastAccruedAt then position
  else { position with
    rewards := position.rewards + calculateYield position.staked pool.apy (now - position.lastAccruedAt)
    lastAccruedAt := now }

def lockupRemaining : ℚ :=
  if pool.lockupSeconds ≤ 0 then 0
  else
    let unlockAt := position.stakedAt + pool.lockupSeconds * 1000
    max 0 ⌈(unlockAt - now) / 1000⌉

/-- The rewards that could be claimed of a position. -/
def claimable : ℚ := position.rewards + calculateYield position.staked pool.apy (now - position.lastAccruedAt)

end Accrual

namespace StakingManager

variable (m : StakingManager)

def addPool (pool : StakingPool) : StakingManager := { m with pools := m.pools.set pool.id pool }

def requirePool (poolId : String) : Except Failure StakingPool :=
  match m.pools.get? poolId with
  | some pool => .ok pool
  | none => .error (.unknownPool poolId)

def put (poolId : String) (position : StakingPosition) : StakingManager :=
  { m with positions := m.positions.set poolId position }

variable (poolId : String) (now : ℚ)

def stake (amount : ℚ) : Except Failure StakingPosition × StakingManager :=
  match m.requirePool poolId with
  | .error failure => (.error failure, m)
  | .ok pool =>
      if amount ≤ 0 then (.error .stakeNotPositive, m)
      else match m.positions.get? poolId with
        | none =>
            if amount < pool.minStake then (.error (.belowMinimum pool.minStake), m)
            else
              let position := { poolId, staked := amount, rewards := 0, stakedAt := now, lastAccruedAt := now }
              (.ok position, m.put poolId position)
        | some existing =>
            let accrued := accrue existing pool now
            let position := { accrued with staked := accrued.staked + amount }
            (.ok position, m.put poolId position)

/-- What has accrued stays with the position where the call throws after it. -/
def unstake (amount : Option ℚ) : Except Failure StakingPosition × StakingManager :=
  match m.requirePool poolId with
  | .error failure => (.error failure, m)
  | .ok pool =>
      match m.positions.get? poolId with
      | none => (.error (.noPosition poolId), m)
      | some existing =>
          let position := accrue existing pool now
          let locked := lockupRemaining position pool now
          let withdraw := amount.getD position.staked
          if locked > 0 then (.error (.locked locked), m.put poolId position)
          else if withdraw ≤ 0 then (.error .unstakeNotPositive, m.put poolId position)
          else if withdraw > position.staked then (.error .exceedsBalance, m.put poolId position)
          else
            let left := { position with staked := position.staked - withdraw }
            if left.staked = 0 then (.ok left, { m with positions := m.positions.delete poolId })
            else (.ok left, m.put poolId left)

def claimRewards : Except Failure ℚ × StakingManager :=
  match m.requirePool poolId with
  | .error failure => (.error failure, m)
  | .ok pool =>
      match m.positions.get? poolId with
      | none => (.error (.noPosition poolId), m)
      | some existing =>
          let position := accrue existing pool now
          (.ok position.rewards, m.put poolId { position with rewards := 0 })

def getAnalytics : Except Failure StakingAnalytics :=
  match m.requirePool poolId with
  | .error failure => .error failure
  | .ok pool =>
      match m.positions.get? poolId with
      | none => .ok ⟨poolId, 0, 0, 0, 0⟩
      | some position => .ok {
          poolId
          staked := position.staked
          rewards := claimable position pool now
          projectedAnnualYield := position.staked * pool.apy
          lockupRemainingSeconds := lockupRemaining position pool now }

end StakingManager

section Accruals

variable {position : StakingPosition} {pool : StakingPool} {now later : ℚ}

theorem msPerYear_pos : 0 < msPerYear := by
  rw [msPerYear]
  norm_num

theorem calculateYield_zero (principal apy : ℚ) : calculateYield principal apy 0 = 0 := if_pos (.inr (.inr le_rfl))

/-- The guards of the yield only matter for a negative rate. -/
theorem calculateYield_eq {principal apy elapsedMs : ℚ} (hprincipal : 0 ≤ principal) (hapy : 0 ≤ apy) (helapsed : 0 ≤ elapsedMs) :
    calculateYield principal apy elapsedMs = principal * apy * (elapsedMs / msPerYear) := by
  rw [calculateYield]
  split_ifs with hguard
  · rcases hguard with h | h | h
    · rw [le_antisymm h hprincipal, zero_mul, zero_mul]
    · rw [le_antisymm h hapy, mul_zero, zero_mul]
    · rw [le_antisymm h helapsed, zero_div, mul_zero]
  · rfl

theorem accrue_kept (position : StakingPosition) (pool : StakingPool) (now : ℚ) :
    (accrue position pool now).staked = position.staked ∧ (accrue position pool now).stakedAt = position.stakedAt := by
  unfold accrue
  split_ifs <;> exact ⟨rfl, rfl⟩

/-- After the accrual all that can be claimed is in the record. -/
theorem accrue_spec (h : position.lastAccruedAt ≤ now) :
    (accrue position pool now).rewards = claimable position pool now ∧ (accrue position pool now).lastAccruedAt = now := by
  unfold accrue claimable
  split_ifs with hle
  · have heq := le_antisymm h hle
    refine ⟨?_, heq⟩
    rw [heq, sub_self, calculateYield_zero, add_zero]
  · exact ⟨rfl, rfl⟩

end Accruals

end SplitSdk.Staking
