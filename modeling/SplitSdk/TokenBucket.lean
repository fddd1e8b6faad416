import Mathlib.Data.Rat.Floor
import Mathlib.Tactic.FieldSimp
import Mathlib.Tactic.Linarith

namespace SplitSdk.TokenBucket

/-- A bucket of tokens that gets its whole capacity at the end of every period. It may be overdrawn by less than one. -/
structure Bucket where
  tokens : ℚ
  refilledAt : ℚ
  deriving DecidableEq

variable {capacity period origin : ℚ}

section Definitions

variable (capacity period origin : ℚ)

/-- The whole periods that have gone by. -/
def periods (b : Bucket) (now : ℚ) : Int := ⌊(now - b.refilledAt) / period⌋

def refill (b : Bucket) (now : ℚ) : Bucket :=
  if period ≤ now - b.refilledAt then
    ⟨min capacity (b.tokens + periods period b now * capacity), b.refilledAt + periods period b now * period⟩
  else b

def Bucket.take (b : Bucket) : Bucket := { b with tokens := b.tokens - 1 }

/-- The times from `lo` on, and before `hi`. -/
def countIn (times : List ℚ) (lo hi : ℚ) : Nat := times.countP (fun t => lo ≤ t ∧ t < hi)

def countFrom (times : List ℚ) (lo : ℚ) : Nat := times.countP (fun t => lo ≤ t)

/-- The bucket in its `k`-th period, when tokens were taken at the given times. -/
structure Metered (b : Bucket) (now : ℚ) (times : List ℚ) (k : Nat) : Prop where
  refilledAt : b.refilledAt = origin + k * period
  refilled : b.refilledAt ≤ now
  taken : ∀ t ∈ times, t < origin + (k + 1) * period
  above : -1 < b.tokens
  below : b.tokens ≤ capacity
  spent : ∀ a ≤ k, countFrom times (origin + a * period) + b.tokens ≤ (k - a + 1) * capacity
  bounded : ∀ a n : Nat, countIn times (origin + a * period) (origin + (a + n) * period) < n * capacity + 1

end Definitions

section Refill

variable {b : Bucket} {now later : ℚ}

theorem one_le_periods_iff (hperiod : 0 < period) : 1 ≤ periods period b now ↔ period ≤ now - b.refilledAt := by
  rw [periods, Int.le_floor, Int.cast_one, le_div_iff₀ hperiod, one_mul]

theorem refill_of_lt (h : now - b.refilledAt < period) : refill capacity period b now = b := if_neg (not_le.mpr h)

theorem refill_of_le (h : period ≤ now - b.refilledAt) : refill capacity period b now =
    ⟨min capacity (b.tokens + periods period b now * capacity), b.refilledAt + periods period b now * period⟩ := if_pos h

variable (capacity) in
/-- After a refill the period has not ended. -/
theorem lt_refill (hperiod : 0 < period) : now - (refill capacity period b now).refilledAt < period := by
  rcases lt_or_ge (now - b.refilledAt) period with hlt | hge
  · rwa [refill_of_lt hlt]
  · rw [refill_of_le hge]
    have hfloor : (now - b.refilledAt) / period < periods period b now + 1 := Int.lt_floor_add_one _
    rw [div_lt_iff₀ hperiod] at hfloor
    dsimp only
    linarith

variable (capacity) in
theorem refill_le (hperiod : 0 < period) (h : b.refilledAt ≤ now) : (refill capacity period b now).refilledAt ≤ now := by
  rcases lt_or_ge (now - b.refilledAt) period with hlt | hge
  · rwa [refill_of_lt hlt]
  · rw [refill_of_le hge]
    have hfloor : (periods period b now : ℚ) ≤ (now - b.refilledAt) / period := Int.floor_le _
    rw [le_div_iff₀ hperiod] at hfloor
    dsimp only
    linarith

variable (capacity) in
/-- The periods are counted together when the bucket was refilled in between. -/
theorem periods_refill (hperiod : 0 < period) (hge : period ≤ now - b.refilledAt) (later : ℚ) :
    periods period (refill capacity period b now) later + periods period b now = periods period b later := by
  rw [refill_of_le hge]
  unfold periods
  rw [← Int.floor_add_intCast]
  congr 1
  dsimp only
  field_simp
  ring

/-- A refill in between makes no difference. -/
theorem refill_refill (hcapacity : 0 < capacity) (hperiod : 0 < period) (h : b.refilledAt ≤ now) (hlater : now ≤ later) :
    refill capacity period (refill capacity period b now) later = refill capacity period b later := by
  rcases lt_or_ge (now - b.refilledAt) period with hlt | hge
  · rw [refill_of_lt hlt]
  · have hsum := periods_refill capacity hperiod hge later
    have hmore : period ≤ later - b.refilledAt := by linarith
    have hafter := refill_le capacity hperiod h
    have hfirst : (1 : ℚ) ≤ periods period b now := by exact_mod_cast (one_le_periods_iff hperiod).mpr hge
    have hp : (refill capacity period b now).tokens = min capacity (b.tokens + periods period b now * capacity) := by
      rw [refill_of_le hge]
    have hr : (refill capacity period b now).refilledAt = b.refilledAt + periods period b now * period := by
      rw [refill_of_le hge]
    rw [refill_of_le hmore, ← hsum]
    push_cast
    generalize refill capacity period b now = b' at hsum hafter hp hr ⊢
    rcases lt_or_ge (later - b'.refilledAt) period with hlt' | hge'
    · have hnone : periods period b' later = 0 := by
        rw [periods, Int.floor_eq_zero_iff]
        exact ⟨div_nonneg (by linarith) hperiod.le, (div_lt_one hperiod).mpr hlt'⟩
      rw [refill_of_lt hlt', hnone, Int.cast_zero, zero_add, ← hp, ← hr]
    · have hsecond : (1 : ℚ) ≤ periods period b' later := by exact_mod_cast (one_le_periods_iff hperiod).mpr hge'
      have hall : periods period b' later * capacity ≥ capacity := by nlinarith
      rw [refill_of_le hge', hp, hr]
      congr 1
      · rcases le_total capacity (b.tokens + periods period b now * capacity) with hfull | hless
        · rw [min_eq_left hfull, min_eq_left (by linarith), min_eq_left (by linarith)]
        · rw [min_eq_right hless]
          congr 1
          ring
      · ring

end Refill

section Metering

variable {b : Bucket} {now : ℚ} {times : List ℚ} {k : Nat}

theorem countFrom_eq_zero {lo : ℚ} (h : ∀ t ∈ times, t < lo) : countFrom times lo = 0 :=
  List.countP_eq_zero.mpr (fun t ht => by simpa using h t ht)

theorem countIn_le_countFrom (times : List ℚ) (lo hi : ℚ) : countIn times lo hi ≤ countFrom times lo :=
  List.countP_mono_left (fun _ _ h => decide_eq_true (of_decide_eq_true h).1)

theorem countFrom_anti (times : List ℚ) {lo lo' : ℚ} (h : lo ≤ lo') : countFrom times lo' ≤ countFrom times lo :=
  List.countP_mono_left (fun _ _ hle => decide_eq_true (h.trans (of_decide_eq_true hle)))

theorem countFrom_le_cons (t : ℚ) (times : List ℚ) (lo : ℚ) : countFrom times lo ≤ countFrom (t :: times) lo := by
  unfold countFrom
  rw [List.countP_cons]
  exact Nat.le_add_right _ _

theorem countFrom_cons_of_le {t lo : ℚ} (times : List ℚ) (h : lo ≤ t) :
    countFrom (t :: times) lo = countFrom times lo + 1 :=
  List.countP_cons_of_pos (decide_eq_true h)

theorem countFrom_cons_le (t : ℚ) (times : List ℚ) (lo : ℚ) : countFrom (t :: times) lo ≤ countFrom times lo + 1 := by
  unfold countFrom
  rw [List.countP_cons]
  split_ifs <;> omega

theorem metered_new (hcapacity : 0 < capacity) (origin : ℚ) :
    Metered capacity period origin ⟨capacity, origin⟩ origin [] 0 where
  refilledAt := by simp
  refilled := le_refl _
  taken := by simp
  above := by linarith
  below := le_refl _
  spent a ha := by simp [countFrom, Nat.le_zero.mp ha]
  bounded a n := by
    have := mul_nonneg (Nat.cast_nonneg (α := ℚ) n) hcapacity.le
    simp only [countIn, List.countP_nil, Nat.cast_zero]
    linarith

theorem Metered.origin_le (hperiod : 0 < period) (h : Metered capacity period origin b now times k) : origin ≤ now := by
  have hspan : (0 : ℚ) ≤ k * period := mul_nonneg (Nat.cast_nonneg k) hperiod.le
  have hrefilled := h.refilled
  rw [h.refilledAt] at hrefilled
  linarith

theorem Metered.later (h : Metered capacity period origin b now times k) {later : ℚ} (hlater : now ≤ later) :
    Metered capacity period origin b later times k :=
  { h with refilled := h.refilled.trans hlater }

theorem Metered.refill (hcapacity : 0 < capacity) (hperiod : 0 < period) (h : Metered capacity period origin b now times k) :
    ∃ k', Metered capacity period origin (refill capacity period b now) now times k' := by
  rcases lt_or_ge (now - b.refilledAt) period with hlt | hge
  · exact ⟨k, by rwa [refill_of_lt hlt]⟩
  · obtain ⟨p, hp⟩ := Int.eq_ofNat_of_zero_le (zero_le_one.trans ((one_le_periods_iff hperiod).mpr hge))
    have hle := refill_le capacity hperiod h.refilled
    rw [refill_of_le hge, hp, Int.cast_natCast] at hle ⊢
    have hp0 : (0 : ℚ) ≤ p := Nat.cast_nonneg p
    have hpcapacity : 0 ≤ p * capacity := mul_nonneg hp0 hcapacity.le
    refine ⟨k + p, ⟨?_, hle, fun t ht => ?_, ?_, min_le_left _ _, fun a ha => ?_, h.bounded⟩⟩
    · rw [h.refilledAt]
      push_cast
      ring
    · have hlt := h.taken t ht
      push_cast
      nlinarith
    · exact lt_min (by linarith) (by linarith [h.above])
    · rcases Nat.lt_or_ge k a with hlate | hearly
      · have hnone : countFrom times (origin + a * period) = 0 := by
          refine countFrom_eq_zero (fun t ht => (h.taken t ht).trans_le ?_)
          have hcast : (k : ℚ) + 1 ≤ a := by exact_mod_cast hlate
          nlinarith
        have hcast : (a : ℚ) ≤ (k + p : Nat) := by exact_mod_cast ha
        have hmin := min_le_left capacity (b.tokens + p * capacity)
        rw [hnone, Nat.cast_zero, zero_add]
        nlinarith
      · have hspent := h.spent a hearly
        have hmin := min_le_right capacity (b.tokens + p * capacity)
        push_cast
        linarith

theorem Metered.take (hcapacity : 0 < capacity) (hperiod : 0 < period) (h : Metered capacity period origin b now times k)
    (htokens : 0 < b.tokens) (hin : now - b.refilledAt < period) :
    Metered capacity period origin b.take now (now :: times) k := by
  have hlast := h.refilledAt
  have htaken : ∀ t ∈ now :: times, t < origin + (k + 1) * period := by
    refine List.forall_mem_cons.mpr ⟨?_, h.taken⟩
    linarith
  have hspent : ∀ a ≤ k, countFrom (now :: times) (origin + a * period) + (b.tokens - 1) ≤ (k - a + 1) * capacity := by
    intro a ha
    have hone : (countFrom (now :: times) (origin + a * period) : ℚ) ≤ countFrom times (origin + a * period) + 1 := by
      exact_mod_cast countFrom_cons_le now times _
    linarith [h.spent a ha]
  refine ⟨hlast, h.refilled, htaken, ?_, ?_, hspent, fun a n => ?_⟩
  · change -1 < b.tokens - 1
    linarith
  · change b.tokens - 1 ≤ capacity
    linarith [h.below]
  · have hn : (0 : ℚ) ≤ n := Nat.cast_nonneg n
    rcases Nat.lt_or_ge k (a + n) with hopen | hclosed
    · have hcount : (countIn (now :: times) (origin + a * period) (origin + (a + n) * period) : ℚ) ≤
          countFrom (now :: times) (origin + a * period) := by
        exact_mod_cast countIn_le_countFrom _ _ _
      rcases Nat.lt_or_ge k a with hlate | hearly
      · have hnone : countFrom (now :: times) (origin + a * period) = 0 := by
          refine countFrom_eq_zero (fun t ht => (htaken t ht).trans_le ?_)
          have hcast : (k : ℚ) + 1 ≤ a := by exact_mod_cast hlate
          nlinarith
        rw [hnone, Nat.cast_zero] at hcount
        nlinarith
      · have hcast : (k : ℚ) + 1 ≤ a + n := by exact_mod_cast hopen
        have hle := hspent a hearly
        nlinarith
    · -- the window has ended before this period
      have hcast : (a : ℚ) + n ≤ k := by exact_mod_cast hclosed
      have hsame : countIn (now :: times) (origin + a * period) (origin + (a + n) * period) =
          countIn times (origin + a * period) (origin + (a + n) * period) := by
        unfold countIn
        rw [List.countP_cons_of_neg]
        have hend : origin + (a + n) * period ≤ now := by
          have hrefilled := h.refilled
          nlinarith
        simp [not_lt.mpr hend]
      rw [hsame]
      exact h.bounded a n

/-- What was taken in the last period and the one before it, with what is left, is at most twice the capacity. -/
theorem Metered.spent_since (hcapacity : 0 < capacity) (h : Metered capacity period origin b now times k)
    {since : ℚ} (hsince : now - since < period) (horigin : origin ≤ since) :
    countFrom times since + b.tokens ≤ 2 * capacity := by
  have hlast := h.refilledAt
  have hrefilled := h.refilled
  cases k with
  | zero =>
      have hspent := h.spent 0 (le_refl 0)
      have hcount : (countFrom times since : ℚ) ≤ countFrom times origin := by
        exact_mod_cast countFrom_anti times horigin
      simp only [Nat.cast_zero, zero_mul, add_zero, sub_zero, zero_add, one_mul] at hspent
      linarith
  | succ k =>
      have hspent := h.spent k (Nat.le_succ k)
      push_cast at hspent hlast
      have hbefore : origin + k * period ≤ since := by linarith
      have hcount : (countFrom times since : ℚ) ≤ countFrom times (origin + k * period) := by
        exact_mod_cast countFrom_anti times hbefore
      linarith

end Metering

end SplitSdk.TokenBucket
