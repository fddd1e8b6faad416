import SplitSdk.Staking
import SplitSdk.Interleaving
import Mathlib.Tactic.Ring
import Mathlib.Tactic.Linarith

namespace SplitSdk.StakingRewards

open Interleaving OrderedMap Staking

section History

/-- What came of the calls on a pool so far: the stakes less the unstakes, the claims, and the staked amount summed over time. -/
structure History where
  net : ℚ := 0
  claimed : ℚ := 0
  exposure : ℚ := 0

/-- The staked amount stands for a while. -/
def History.elapse (h : History) (time now : ℚ) : History := { h with exposure := h.exposure + h.net * (now - time) }

structure Account where
  manager : StakingManager
  time : ℚ
  histories : String → History

def start (time : ℚ) : Account := ⟨{}, time, fun _ => {}⟩

inductive Event
  | addPool (pool : StakingPool)
  | stake (poolId : String) (amount now : ℚ)
  | unstake (poolId : String) (amount : Option ℚ) (now : ℚ)
  | claimRewards (poolId : String) (now : ℚ)

variable (s : Account)

/-- The account after a call on a pool that leaves this manager and changes the pool's history. -/
def after (now : ℚ) (manager : StakingManager) (poolId : String) (change : History → History) : Account where
  manager := manager
  time := now
  histories := Function.update (fun p => (s.histories p).elapse s.time now) poolId
    (change ((s.histories poolId).elapse s.time now))

/-- A pool is registered once, and no call is earlier than the one before. -/
def step : Event → Option Account
  | .addPool pool => if s.manager.pools.has pool.id then none else some { s with manager := s.manager.addPool pool }
  | .stake poolId amount now =>
      if now < s.time then none
      else
        let (result, manager) := s.manager.stake poolId now amount
        some (after s now manager poolId (fun h => match result with
          | .ok _ => { h with net := h.net + amount }
          | .error _ => h))
  | .unstake poolId amount now =>
      if now < s.time then none
      else
        let (result, manager) := s.manager.unstake poolId now amount
        some (after s now manager poolId (fun h => match result with
          | .ok _ => { h with net := h.net - amount.getD h.net }
          | .error _ => h))
  | .claimRewards poolId now =>
      if now < s.time then none
      else
        let (result, manager) := s.manager.claimRewards poolId now
        some (after s now manager poolId (fun h => match result with
          | .ok claimed => { h with claimed := h.claimed + claimed }
          | .error _ => h))

/-- Whenever the analytics are asked for, they show what is staked, and with the claims the yield of all that was staked. -/
def Conserved : Prop :=
  ∀ poolId pool, s.manager.pools.get? poolId = some pool → ∀ now, s.time ≤ now →
    ∃ analytics, s.manager.getAnalytics poolId now = .ok analytics ∧ analytics.staked = (s.histories poolId).net ∧
      (s.histories poolId).claimed + analytics.rewards =
        pool.apy * (((s.histories poolId).elapse s.time now).exposure / msPerYear)

/-- Nothing is staked at a negative rate, and a position is only emptied when nothing can be claimed of it. -/
def Spares : Event → Prop
  | .stake poolId amount now => s.time ≤ now → ∀ pool ∈ s.manager.pools.get? poolId,
      0 < amount → pool.minStake ≤ amount → 0 ≤ pool.apy
  | .unstake poolId amount now => s.time ≤ now → ∀ pool ∈ s.manager.pools.get? poolId,
      ∀ position ∈ s.manager.positions.get? poolId, lockupRemaining position pool now ≤ 0 →
        amount.getD position.staked = position.staked → claimable position pool now = 0
  | _ => True

end History

section Pool

/-- The position holds what the history says, and its rewards have not been accrued ahead of time. -/
def Sound (time : ℚ) : Option StakingPosition → History → Prop
  | none, h => h.net = 0
  | some position, h => position.staked = h.net ∧ 0 < h.net ∧ position.lastAccruedAt ≤ time

def claimableOf (position : Option StakingPosition) (pool : StakingPool) (now : ℚ) : ℚ :=
  (position.map (fun p => claimable p pool now)).getD 0

/-- The claims and what can be claimed now come to the yield so far, at a rate that is not negative while something is staked. -/
def Balanced (pool : StakingPool) (time : ℚ) (position : Option StakingPosition) (h : History) : Prop :=
  h.claimed + claimableOf position pool time = pool.apy * (h.exposure / msPerYear) ∧ (0 < h.net → 0 ≤ pool.apy)

variable {pool : StakingPool} {time now : ℚ} {position : Option StakingPosition} {h : History}

theorem claimable_later {p : StakingPosition} (hstaked : 0 ≤ p.staked) (hapy : 0 ≤ pool.apy) (haccrued : p.lastAccruedAt ≤ time)
    (hnow : time ≤ now) :
    claimable p pool now = claimable p pool time + p.staked * pool.apy * ((now - time) / msPerYear) := by
  rw [claimable, claimable, calculateYield_eq hstaked hapy (sub_nonneg.mpr (haccrued.trans hnow)),
    calculateYield_eq hstaked hapy (sub_nonneg.mpr haccrued)]
  ring

theorem elapse_spec (hsound : Sound time position h) (hbalanced : Balanced pool time position h) (hnow : time ≤ now) :
    Sound now position (h.elapse time now) ∧ Balanced pool now position (h.elapse time now) := by
  cases position with
  | none =>
      have hnet : h.net = 0 := hsound
      refine ⟨hnet, ?_, hbalanced.2⟩
      rw [History.elapse, hnet, zero_mul, add_zero]
      exact hbalanced.1
  | some p =>
      obtain ⟨hstaked, hpos, haccrued⟩ := hsound
      refine ⟨⟨hstaked, hpos, haccrued.trans hnow⟩, ?_, hbalanced.2⟩
      have hlater := claimable_later (hstaked ▸ hpos.le) (hbalanced.2 hpos) haccrued hnow
      have heq : h.claimed + claimable p pool time = pool.apy * (h.exposure / msPerYear) := hbalanced.1
      change h.claimed + claimable p pool now = pool.apy * ((h.exposure + h.net * (now - time)) / msPerYear)
      rw [hlater, ← add_assoc, heq, hstaked]
      ring

/-- The balance at one time says what it is at all later ones. -/
theorem balance_kept_iff (hsound : Sound time position h) : (∀ now, time ≤ now →
    h.claimed + claimableOf position pool now = pool.apy * ((h.elapse time now).exposure / msPerYear)) ↔
      Balanced pool time position h := by
  constructor
  · intro hall
    have htime := hall time le_rfl
    rw [History.elapse, sub_self, mul_zero, add_zero] at htime
    refine ⟨htime, fun hpos => ?_⟩
    by_contra hneg
    have hnext := hall (time + 1) (by linarith)
    cases position with
    | none =>
        rw [show h.net = 0 from hsound] at hpos
        exact lt_irrefl 0 hpos
    | some p =>
        have hyield (elapsed : ℚ) : calculateYield p.staked pool.apy elapsed = 0 := if_pos (.inr (.inl (not_le.mp hneg).le))
        have hkept : claimableOf (some p) pool (time + 1) = claimableOf (some p) pool time := by
          simp only [claimableOf, Option.map_some, claimable, hyield]
        rw [hkept, htime, History.elapse, add_sub_cancel_left, mul_one] at hnext
        have hyear := msPerYear_pos
        have hzero : pool.apy * (h.net / msPerYear) = 0 := by
          rw [add_div, mul_add] at hnext
          linarith
        exact (mul_neg_of_neg_of_pos (not_le.mp hneg) (div_pos hpos hyear)).ne hzero
  · intro hbalanced now hnow
    exact (elapse_spec hsound hbalanced hnow).2.1

end Pool

section Calls

/-- A call on a pool touches this pool's position only. -/
def Frames (m m' : StakingManager) (poolId : String) : Prop :=
  m'.pools = m.pools ∧ ∀ q, q ≠ poolId → m'.positions.get? q = m.positions.get? q

variable {m : StakingManager} {poolId : String} {pool : StakingPool} {now : ℚ} {h : History}

theorem frames_refl : Frames m m poolId := ⟨rfl, fun _ _ => rfl⟩

theorem frames_put (position : StakingPosition) : Frames m (m.put poolId position) poolId :=
  ⟨rfl, fun q hq => (OrdMap.get?_set m.positions poolId q position).trans (if_neg hq)⟩

theorem get?_put (position : StakingPosition) : (m.put poolId position).positions.get? poolId = some position :=
  (OrdMap.get?_set m.positions poolId poolId position).trans (if_pos rfl)

theorem requirePool_eq (hpool : m.pools.get? poolId = some pool) : m.requirePool poolId = .ok pool := by
  rw [StakingManager.requirePool, hpool]

theorem requirePool_error (hpool : m.pools.get? poolId = none) : m.requirePool poolId = .error (.unknownPool poolId) := by
  rw [StakingManager.requirePool, hpool]

/-- A position after its accrual is as good as the one before. -/
theorem accrue_spares {position : StakingPosition} (hsound : Sound now (some position) h)
    (hbalanced : Balanced pool now (some position) h) :
    Sound now (some (accrue position pool now)) h ∧ Balanced pool now (some (accrue position pool now)) h := by
  obtain ⟨hrewards, haccrued⟩ : (accrue position pool now).rewards = claimable position pool now ∧
    (accrue position pool now).lastAccruedAt = now := accrue_spec hsound.2.2
  obtain ⟨hstaked, -⟩ := accrue_kept position pool now
  refine ⟨⟨hstaked.trans hsound.1, hsound.2.1, haccrued.le⟩, ?_, hbalanced.2⟩
  have hsame : claimableOf (some (accrue position pool now)) pool now = claimableOf (some position) pool now := by
    change claimable (accrue position pool now) pool now = claimable position pool now
    rw [claimable, haccrued, sub_self, calculateYield_zero, add_zero, hrewards]
  rw [hsame]
  exact hbalanced.1

theorem claimable_accrued {position : StakingPosition} (hsound : Sound now (some position) h) (pool : StakingPool)
    (staked rewards : ℚ) :
    claimableOf (some { accrue position pool now with staked, rewards }) pool now = rewards := by
  change rewards + calculateYield staked pool.apy (now - (accrue position pool now).lastAccruedAt) = rewards
  rw [(accrue_spec hsound.2.2).2, sub_self, calculateYield_zero, add_zero]

theorem stake_spec (hpool : m.pools.get? poolId = some pool) (hsound : Sound now (m.positions.get? poolId) h)
    (hbalanced : Balanced pool now (m.positions.get? poolId) h) (amount : ℚ) {out : Except Failure StakingPosition × StakingManager}
    (hout : m.stake poolId now amount = out) {h' : History}
    (hh : h' = match out.1 with
      | .ok _ => { h with net := h.net + amount }
      | .error _ => h) :
    Frames m out.2 poolId ∧ Sound now (out.2.positions.get? poolId) h' ∧
      (Balanced pool now (out.2.positions.get? poolId) h' ↔ (0 < amount → pool.minStake ≤ amount → 0 ≤ pool.apy)) := by
  rw [StakingManager.stake, requirePool_eq hpool] at hout
  dsimp only at hout
  by_cases hamount : amount ≤ 0
  · rw [if_pos hamount] at hout
    subst hout hh
    exact ⟨frames_refl, hsound, iff_of_true hbalanced (fun hpos => absurd hpos (not_lt.mpr hamount))⟩
  rw [if_neg hamount] at hout
  rw [not_le] at hamount
  cases hposition : m.positions.get? poolId with
  | none =>
      rw [hposition] at hout hsound hbalanced
      dsimp only at hout
      have hnet : h.net = 0 := hsound
      by_cases hmin : amount < pool.minStake
      · rw [if_pos hmin] at hout
        subst hout hh
        rw [hposition]
        exact ⟨frames_refl, hsound, iff_of_true hbalanced (fun _ hle => absurd hmin (not_lt.mpr hle))⟩
      · rw [if_neg hmin] at hout
        subst hout hh
        rw [get?_put]
        refine ⟨frames_put _, ⟨?_, ?_, le_rfl⟩, ?_⟩
        · exact (by rw [hnet, zero_add] : amount = h.net + amount)
        · exact (by rwa [hnet, zero_add] : 0 < h.net + amount)
        · constructor
          · intro hnext _ _
            exact hnext.2 (by rwa [hnet, zero_add] : 0 < h.net + amount)
          · intro hapy
            refine ⟨?_, fun _ => hapy hamount (not_lt.mp hmin)⟩
            have hclaimable : claimableOf (some ⟨poolId, amount, 0, now, now⟩) pool now = 0 := by
              change 0 + calculateYield amount pool.apy (now - now) = 0
              rw [sub_self, calculateYield_zero, add_zero]
            rw [hclaimable]
            exact hbalanced.1
  | some position =>
      rw [hposition] at hout hsound hbalanced
      dsimp only at hout
      subst hout hh
      rw [get?_put]
      obtain ⟨haccrued, hbalance⟩ := accrue_spares hsound hbalanced
      have hapy := hbalanced.2 hsound.2.1
      refine ⟨frames_put _, ⟨?_, add_pos hsound.2.1 hamount, haccrued.2.2⟩, iff_of_true ⟨?_, fun _ => hapy⟩ (fun _ _ => hapy)⟩
      · exact congrArg (· + amount) haccrued.1
      · have hkept := claimable_accrued hsound pool (accrue position pool now).staked (accrue position pool now).rewards
        rw [claimable_accrued hsound, ← hkept]
        exact hbalance.1

theorem unstake_spec (hpool : m.pools.get? poolId = some pool) (hsound : Sound now (m.positions.get? poolId) h)
    (hbalanced : Balanced pool now (m.positions.get? poolId) h) (amount : Option ℚ)
    {out : Except Failure StakingPosition × StakingManager} (hout : m.unstake poolId now amount = out) {h' : History}
    (hh : h' = match out.1 with
      | .ok _ => { h with net := h.net - amount.getD h.net }
      | .error _ => h) :
    Frames m out.2 poolId ∧ Sound now (out.2.positions.get? poolId) h' ∧
      (Balanced pool now (out.2.positions.get? poolId) h' ↔ ∀ position ∈ m.positions.get? poolId,
        lockupRemaining position pool now ≤ 0 → amount.getD position.staked = position.staked →
          claimable position pool now = 0) := by
  rw [StakingManager.unstake, requirePool_eq hpool] at hout
  dsimp only at hout
  cases hposition : m.positions.get? poolId with
  | none =>
      rw [hposition] at hout hsound hbalanced
      subst hout hh
      rw [hposition]
      exact ⟨frames_refl, hsound, iff_of_true hbalanced (fun _ hnone => nomatch hnone)⟩
  | some position =>
      rw [hposition] at hout hsound hbalanced
      dsimp only at hout
      obtain ⟨haccrued, hbalance⟩ := accrue_spares hsound hbalanced
      obtain ⟨hstaked, hopened⟩ := accrue_kept position pool now
      have hlockup : lockupRemaining (accrue position pool now) pool now = lockupRemaining position pool now := by
        rw [lockupRemaining, lockupRemaining, hopened]
      have hforall (P : StakingPosition → Prop) : (∀ p ∈ some position, P p) ↔ P position := by simp
      rw [hforall]
      rw [hlockup, hstaked] at hout
      have hnet := hsound.1
      -- the calls that throw leave the accrued position
      have hthrown (hcond : lockupRemaining position pool now ≤ 0 → amount.getD position.staked ≠ position.staked) :
          Frames m (m.put poolId (accrue position pool now)) poolId ∧
            Sound now ((m.put poolId (accrue position pool now)).positions.get? poolId) h ∧
              (Balanced pool now ((m.put poolId (accrue position pool now)).positions.get? poolId) h ↔
                (lockupRemaining position pool now ≤ 0 → amount.getD position.staked = position.staked →
                  claimable position pool now = 0)) := by
        rw [get?_put]
        exact ⟨frames_put _, haccrued, iff_of_true hbalance (fun hopen heq => absurd heq (hcond hopen))⟩
      by_cases hlocked : lockupRemaining position pool now > 0
      · rw [if_pos hlocked] at hout
        subst hout hh
        exact hthrown (fun hopen => absurd hlocked (not_lt.mpr hopen))
      rw [if_neg hlocked] at hout
      by_cases hzero : amount.getD position.staked ≤ 0
      · rw [if_pos hzero] at hout
        subst hout hh
        refine hthrown (fun _ heq => ?_)
        rw [heq, hnet] at hzero
        exact absurd hsound.2.1 (not_lt.mpr hzero)
      rw [if_neg hzero] at hout
      by_cases hexceeds : amount.getD position.staked > position.staked
      · rw [if_pos hexceeds] at hout
        subst hout hh
        exact hthrown (fun _ heq => absurd heq hexceeds.ne')
      rw [if_neg hexceeds] at hout
      by_cases hempty : position.staked - amount.getD position.staked = 0
      · rw [if_pos hempty] at hout
        subst hout hh
        have hgone : (m.positions.delete poolId).get? poolId = none :=
          (OrdMap.get?_delete m.positions poolId poolId).trans (if_pos rfl)
        refine ⟨⟨rfl, fun q hq => (OrdMap.get?_delete m.positions poolId q).trans (if_neg hq)⟩, ?_⟩
        dsimp only
        rw [hgone]
        have hnone : h.net - amount.getD h.net = 0 := hnet ▸ hempty
        refine ⟨hnone, ?_⟩
        have hclaimable : claimableOf none pool now = 0 := rfl
        have heq : h.claimed + claimable position pool now = pool.apy * (h.exposure / msPerYear) := hbalanced.1
        rw [Balanced, hclaimable, add_zero]
        constructor
        · intro hnext _ _
          exact left_eq_add.mp (hnext.1.trans heq.symm)
        · intro hcond
          refine ⟨?_, fun hpos => absurd hnone hpos.ne'⟩
          rw [hcond (not_lt.mp hlocked) (sub_eq_zero.mp hempty).symm, add_zero] at heq
          exact heq
      · rw [if_neg hempty] at hout
        subst hout hh
        rw [get?_put]
        have hapy := hbalanced.2 hsound.2.1
        have hleft : 0 < position.staked - amount.getD position.staked :=
          lt_of_le_of_ne (sub_nonneg.mpr (not_lt.mp hexceeds)) (Ne.symm hempty)
        have hkept := claimable_accrued hsound pool (accrue position pool now).staked (accrue position pool now).rewards
        refine ⟨frames_put _, ⟨?_, ?_, haccrued.2.2⟩, iff_of_true ⟨?_, fun _ => hapy⟩ ?_⟩
        · change position.staked - amount.getD position.staked = h.net - amount.getD h.net
          rw [hnet]
        · exact (hnet ▸ hleft : 0 < h.net - amount.getD h.net)
        · rw [claimable_accrued hsound, ← hkept]
          exact hbalance.1
        · exact fun _ heq => absurd (sub_eq_zero.mpr heq.symm) hempty

theorem claimRewards_spec (hpool : m.pools.get? poolId = some pool) (hsound : Sound now (m.positions.get? poolId) h)
    (hbalanced : Balanced pool now (m.positions.get? poolId) h) {out : Except Failure ℚ × StakingManager}
    (hout : m.claimRewards poolId now = out) {h' : History}
    (hh : h' = match out.1 with
      | .ok claimed => { h with claimed := h.claimed + claimed }
      | .error _ => h) :
    Frames m out.2 poolId ∧ Sound now (out.2.positions.get? poolId) h' ∧
      Balanced pool now (out.2.positions.get? poolId) h' := by
  rw [StakingManager.claimRewards, requirePool_eq hpool] at hout
  dsimp only at hout
  cases hposition : m.positions.get? poolId with
  | none =>
      rw [hposition] at hout hsound hbalanced
      subst hout hh
      rw [hposition]
      exact ⟨frames_refl, hsound, hbalanced⟩
  | some position =>
      rw [hposition] at hout hsound hbalanced
      dsimp only at hout
      subst hout hh
      rw [get?_put]
      obtain ⟨haccrued, hbalance⟩ := accrue_spares hsound hbalanced
      have hkept := claimable_accrued hsound pool (accrue position pool now).staked (accrue position pool now).rewards
      refine ⟨frames_put _, haccrued, ?_, hbalanced.2⟩
      rw [claimable_accrued hsound, add_zero]
      rw [← hbalance.1]
      exact congrArg (h.claimed + ·) hkept.symm

end Calls

section Runs

variable {s : Account}

/-- Every position is sound, and there is neither a position nor a history of an unknown pool. -/
def Kept (s : Account) : Prop :=
  ∀ poolId, Sound s.time (s.manager.positions.get? poolId) (s.histories poolId) ∧
    (s.manager.pools.get? poolId = none → s.manager.positions.get? poolId = none ∧ s.histories poolId = {})

def AllBalanced (s : Account) : Prop :=
  ∀ poolId pool, s.manager.pools.get? poolId = some pool →
    Balanced pool s.time (s.manager.positions.get? poolId) (s.histories poolId)

theorem conserved_iff (hkept : Kept s) : Conserved s ↔ AllBalanced s := by
  refine forall_congr' fun poolId => forall_congr' fun pool => imp_congr_right fun hpool => ?_
  rw [← balance_kept_iff (hkept poolId).1]
  refine forall_congr' fun now => imp_congr_right fun hnow => ?_
  have hsound := (hkept poolId).1
  rw [StakingManager.getAnalytics, requirePool_eq hpool]
  dsimp only
  cases hposition : s.manager.positions.get? poolId with
  | none =>
      rw [hposition] at hsound
      constructor
      · rintro ⟨analytics, heq, -, hrewards⟩
        cases heq
        exact hrewards
      · intro h
        exact ⟨_, rfl, hsound.symm, h⟩
  | some position =>
      rw [hposition] at hsound
      constructor
      · rintro ⟨analytics, heq, -, hrewards⟩
        cases heq
        exact hrewards
      · intro h
        exact ⟨_, rfl, hsound.1, h⟩

theorem elapse_empty (time now : ℚ) : ({} : History).elapse time now = {} := by
  rw [History.elapse, zero_mul, add_zero]

/-- A call that is right for its own pool is right for all. -/
theorem after_spec (hkept : Kept s) (hbalanced : AllBalanced s) {now : ℚ} (hnow : s.time ≤ now) {manager : StakingManager}
    {poolId : String} {change : History → History} {cond : StakingPool → Prop}
    (hunknown : s.manager.pools.get? poolId = none → manager = s.manager ∧ ∀ h, change h = h)
    (hknown : ∀ pool h, s.manager.pools.get? poolId = some pool →
      Sound now (s.manager.positions.get? poolId) h → Balanced pool now (s.manager.positions.get? poolId) h →
        Frames s.manager manager poolId ∧ Sound now (manager.positions.get? poolId) (change h) ∧
          (Balanced pool now (manager.positions.get? poolId) (change h) ↔ cond pool)) :
    Kept (after s now manager poolId change) ∧
      (AllBalanced (after s now manager poolId change) ↔ ∀ pool ∈ s.manager.pools.get? poolId, cond pool) := by
  have hlater (q : String) (pool : StakingPool) (hpool : s.manager.pools.get? q = some pool) :=
    elapse_spec (hkept q).1 (hbalanced q pool hpool) hnow
  have hempty (q : String) (hpool : s.manager.pools.get? q = none) :
      s.manager.positions.get? q = none ∧ (s.histories q).elapse s.time now = {} := by
    obtain ⟨hnone, hempty⟩ := (hkept q).2 hpool
    exact ⟨hnone, hempty ▸ elapse_empty s.time now⟩
  have hframes : Frames s.manager manager poolId := by
    cases hpool : s.manager.pools.get? poolId with
    | none =>
        rw [(hunknown hpool).1]
        exact frames_refl
    | some pool => exact (hknown pool _ hpool (hlater poolId pool hpool).1 (hlater poolId pool hpool).2).1
  have hown : (after s now manager poolId change).histories poolId = change ((s.histories poolId).elapse s.time now) := by
    simp only [after, Function.update_self]
  have hother {q : String} (hq : q ≠ poolId) :
      (after s now manager poolId change).histories q = (s.histories q).elapse s.time now := by
    simp only [after, Function.update_of_ne hq]
  have hpools : (after s now manager poolId change).manager.pools = s.manager.pools := hframes.1
  have hpositions : (after s now manager poolId change).manager.positions = manager.positions := rfl
  have htime : (after s now manager poolId change).time = now := rfl
  constructor
  · intro q
    rw [hpools, hpositions, htime]
    by_cases hq : q = poolId
    · subst hq
      rw [hown]
      cases hpool : s.manager.pools.get? q with
      | none =>
          obtain ⟨rfl, hsame⟩ := hunknown hpool
          rw [hsame, (hempty q hpool).1, (hempty q hpool).2]
          exact ⟨rfl, fun _ => ⟨rfl, rfl⟩⟩
      | some pool => exact ⟨(hknown pool _ hpool (hlater q pool hpool).1 (hlater q pool hpool).2).2.1, fun h => nomatch h⟩
    · rw [hother hq, hframes.2 q hq]
      cases hpool : s.manager.pools.get? q with
      | none =>
          rw [(hempty q hpool).1, (hempty q hpool).2]
          exact ⟨rfl, fun _ => ⟨rfl, rfl⟩⟩
      | some pool => exact ⟨(hlater q pool hpool).1, fun h => nomatch h⟩
  · unfold AllBalanced
    rw [hpools, hpositions, htime]
    constructor
    · intro hall pool hpool
      rw [← (hknown pool _ hpool (hlater poolId pool hpool).1 (hlater poolId pool hpool).2).2.2, ← hown]
      exact hall poolId pool hpool
    · intro hcond q pool hpool
      by_cases hq : q = poolId
      · subst hq
        rw [hown]
        exact (hknown pool _ hpool (hlater q pool hpool).1 (hlater q pool hpool).2).2.2.mpr (hcond pool hpool)
      · rw [hother hq, hframes.2 q hq]
        exact (hlater q pool hpool).2

theorem step_spec (hkept : Kept s) (hbalanced : AllBalanced s) {e : Event} {t : Account} (hstep : step s e = some t) :
    Kept t ∧ (AllBalanced t ↔ Spares s e) := by
  cases e with
  | addPool pool =>
      rw [step] at hstep
      split_ifs at hstep with hhas
      cases hstep
      have hnew : s.manager.pools.get? pool.id = none := by
        rw [OrdMap.has, Bool.not_eq_true, Option.isSome_eq_false_iff, Option.isNone_iff_eq_none] at hhas
        exact hhas
      have hget (q : String) : (s.manager.addPool pool).pools.get? q = if q = pool.id then some pool else
          s.manager.pools.get? q := OrdMap.get?_set s.manager.pools pool.id q pool
      refine ⟨fun q => ⟨(hkept q).1, fun hnone => (hkept q).2 ?_⟩, iff_of_true ?_ trivial⟩
      · rw [hget] at hnone
        split_ifs at hnone
        exact hnone
      · intro q other hother
        rw [hget] at hother
        split_ifs at hother with hq
        · obtain ⟨hnone, hempty⟩ := (hkept pool.id).2 hnew
          subst hq
          change Balanced other s.time (s.manager.positions.get? pool.id) (s.histories pool.id)
          rw [hnone, hempty]
          refine ⟨?_, fun h => absurd h (lt_irrefl 0)⟩
          change (0 : ℚ) + 0 = other.apy * (0 / msPerYear)
          rw [zero_div, mul_zero, add_zero]
        · exact hbalanced q other hother
  | stake poolId amount now =>
      rw [step] at hstep
      split_ifs at hstep with hnow
      rw [not_lt] at hnow
      cases hstep
      have hturn : Spares s (.stake poolId amount now) ↔ ∀ pool ∈ s.manager.pools.get? poolId,
          0 < amount → pool.minStake ≤ amount → 0 ≤ pool.apy := ⟨fun h => h hnow, fun h _ => h⟩
      rw [hturn]
      refine after_spec hkept hbalanced hnow (fun hpool => ?_) (fun pool h hpool hsound hbalance => ?_)
      · rw [requirePool_error hpool]
        exact ⟨rfl, fun _ => rfl⟩
      · exact stake_spec hpool hsound hbalance amount rfl rfl
  | unstake poolId amount now =>
      rw [step] at hstep
      split_ifs at hstep with hnow
      rw [not_lt] at hnow
      cases hstep
      have hturn : Spares s (.unstake poolId amount now) ↔ ∀ pool ∈ s.manager.pools.get? poolId,
          ∀ position ∈ s.manager.positions.get? poolId, lockupRemaining position pool now ≤ 0 →
            amount.getD position.staked = position.staked → claimable position pool now = 0 :=
        ⟨fun h => h hnow, fun h _ => h⟩
      rw [hturn]
      refine after_spec hkept hbalanced hnow (fun hpool => ?_) (fun pool h hpool hsound hbalance => ?_)
      · rw [requirePool_error hpool]
        exact ⟨rfl, fun _ => rfl⟩
      · exact unstake_spec hpool hsound hbalance amount rfl rfl
  | claimRewards poolId now =>
      rw [step] at hstep
      split_ifs at hstep with hnow
      rw [not_lt] at hnow
      cases hstep
      have hturn : Spares s (.claimRewards poolId now) ↔ ∀ pool ∈ s.manager.pools.get? poolId, True :=
        iff_of_true trivial (fun _ _ => trivial)
      rw [hturn]
      refine after_spec hkept hbalanced hnow (fun hpool => ?_) (fun pool h hpool hsound hbalance => ?_)
      · rw [requirePool_error hpool]
        exact ⟨rfl, fun _ => rfl⟩
      · obtain ⟨hframes, hkept, hnext⟩ := claimRewards_spec hpool hsound hbalance rfl rfl
        exact ⟨hframes, hkept, iff_of_true hnext trivial⟩

theorem spares_of_none {e : Event} (hstep : step s e = none) : Spares s e := by
  cases e with
  | addPool pool => trivial
  | stake poolId amount now =>
      intro hnow
      rw [step, if_neg (not_lt.mpr hnow)] at hstep
      cases hstep
  | unstake poolId amount now =>
      intro hnow
      rw [step, if_neg (not_lt.mpr hnow)] at hstep
      cases hstep
  | claimRewards poolId now => trivial

theorem start_spec (time : ℚ) : Kept (start time) ∧ AllBalanced (start time) :=
  ⟨fun _ => ⟨rfl, fun _ => ⟨rfl, rfl⟩⟩, fun _ _ h => nomatch h⟩

/-- Where a position is unstaked whole and the rewards are conserved, there was nothing to claim. -/
theorem claimable_of_emptied (hkept : Kept s) (hbalanced : AllBalanced s) {poolId : String} {now : ℚ}
    (hconserved : ∀ t, step s (.unstake poolId none now) = some t → Conserved t) (hnow : s.time ≤ now) {pool : StakingPool}
    (hpool : s.manager.pools.get? poolId = some pool) {position : StakingPosition}
    (hposition : s.manager.positions.get? poolId = some position) (hopen : lockupRemaining position pool now ≤ 0) :
    claimable position pool now = 0 := by
  cases hstep : step s (.unstake poolId none now) with
  | none =>
      rw [step, if_neg (not_lt.mpr hnow)] at hstep
      cases hstep
  | some t =>
      obtain ⟨hnext, hiff⟩ := step_spec hkept hbalanced hstep
      exact hiff.mp ((conserved_iff hnext).mp (hconserved t hstep)) hnow pool hpool position hposition hopen rfl

/-- In every state of a run the rewards are conserved, exactly if nothing is staked at a negative rate and no position is emptied
with rewards on it. -/
theorem rewards_conserved_iff (time : ℚ) (es : List Event) :
    Allowed step (fun s e => ∀ t, step s e = some t → Conserved t) (start time) es ↔
      Allowed step Spares (start time) es := by
  refine allowed_iff (I := fun s => Kept s ∧ AllBalanced s) ?_ ?_ (start_spec time) es
  · intro s e t hs hok hstep
    have hkept := (step_spec hs.1 hs.2 hstep).1
    exact ⟨hkept, (conserved_iff hkept).mp (hok t hstep)⟩
  · intro s e hs
    cases hstep : step s e with
    | none => exact iff_of_true (fun _ h => nomatch h) (spares_of_none hstep)
    | some t =>
        obtain ⟨hkept, hiff⟩ := step_spec hs.1 hs.2 hstep
        rw [← hiff, ← conserved_iff hkept]
        exact ⟨fun h => h t rfl, fun h _ ht => Option.some.inj ht ▸ h⟩

/-- A position that is unstaked whole after a year takes the rewards of the year with it. -/
theorem unclaimed_rewards_lost :
    ¬Allowed step (fun s e => ∀ t, step s e = some t → Conserved t) (start 0)
      [.addPool ⟨"p", "Pool", "XLM", 1 / 10, 1, 0⟩, .stake "p" 100 0, .unstake "p" none msPerYear] := by
  intro h
  obtain ⟨hkept, hbalanced⟩ := start_spec 0
  obtain ⟨hkept, hiff⟩ := step_spec hkept hbalanced (e := .addPool ⟨"p", "Pool", "XLM", 1 / 10, 1, 0⟩) rfl
  obtain ⟨hkept, hiff⟩ := step_spec hkept (hiff.mpr trivial) (e := .stake "p" 100 0) rfl
  have hbalanced := hiff.mpr (fun _ pool hpool _ _ => by
    cases hpool
    decide +kernel)
  have hlast := ((h.2 _ rfl).2 _ rfl).1
  have hclaimable := claimable_of_emptied hkept hbalanced hlast msPerYear_pos.le rfl rfl (le_of_eq (if_pos le_rfl))
  revert hclaimable
  decide +kernel

end Runs

end SplitSdk.StakingRewards
