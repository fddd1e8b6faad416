import SplitSdk.RateLimiting

namespace SplitSdk.RetryAfter

open Interleaving OrderedMap RateLimiting

variable (l : RateLimiter) (key : Option String)

section Statement

/-- The limiter once nothing else has happened for `ms`. -/
def idle (ms : ℚ) : RateLimiter := { l with now := l.now + ms }

/-- A denied call is admitted when it is made again after the wait that it was answered with. -/
def Sufficient : Prop :=
  (l.tryAcquire key).1.allowed = false →
    ((idle (l.tryAcquire key).2 (l.tryAcquire key).1.retryAfterMs).tryAcquire key).1.allowed

instance : Decidable (Sufficient l key) := inferInstanceAs (Decidable (_ → _))

/-- The windows of the bucket that have elapsed since it was refilled. -/
def periods : Int := max 0 ⌊(l.now - l.lastRefillTime) / l.settings.windowMs⌋

/-- The tokens of the bucket and those of the windows that have elapsed. -/
def supply : ℚ := l.tokens + periods l * l.settings.maxTokens

/-- The start of the window that the bucket is in. -/
def currentStart : ℚ := l.lastRefillTime + periods l * l.settings.windowMs

/-- The key has used up a window that began after the one of the bucket. -/
def Overlaps : Prop :=
  ∃ k limit entry, l.keyLimit key = some (k, limit) ∧ l.store.get? k = some entry ∧ limit ≤ entry.count ∧
    currentStart l < entry.windowStart

end Statement

section Bucket

variable {l}

theorem windowMs_pos (settings : Settings) : (0 : ℚ) < settings.windowMs := zero_lt_one.trans_le settings.windowMs.2

theorem refill_of_le (h : l.settings.windowMs ≤ l.now - l.lastRefillTime) :
    l.refill = { l with tokens := min l.settings.maxTokens (supply l), lastRefillTime := currentStart l } := by
  have hfloor : 0 ≤ ⌊(l.now - l.lastRefillTime) / l.settings.windowMs⌋ :=
    Int.floor_nonneg.mpr (div_nonneg ((windowMs_pos _).le.trans h) (windowMs_pos _).le)
  rw [RateLimiter.refill, supply, currentStart, periods, max_eq_right hfloor]
  exact if_pos h

theorem refill_of_lt (h : l.now - l.lastRefillTime < l.settings.windowMs) :
    l.refill = l ∧ supply l = l.tokens ∧ currentStart l = l.lastRefillTime := by
  have hfloor : ⌊(l.now - l.lastRefillTime) / l.settings.windowMs⌋ ≤ 0 := by
    rw [← Int.lt_add_one_iff, Int.floor_lt, Int.cast_add, Int.cast_zero, Int.cast_one, zero_add,
      div_lt_one (windowMs_pos _)]
    exact h
  have hperiods : periods l = 0 := max_eq_left hfloor
  refine ⟨if_neg (not_le.mpr h), ?_, ?_⟩
  · rw [supply, hperiods, Int.cast_zero, zero_mul, add_zero]
  · rw [currentStart, hperiods, Int.cast_zero, zero_mul, add_zero]

theorem refill_tokens_nonpos : l.refill.tokens ≤ 0 ↔ supply l ≤ 0 := by
  rcases lt_or_ge (l.now - l.lastRefillTime) l.settings.windowMs.1 with h | h
  · rw [(refill_of_lt h).1, (refill_of_lt h).2.1]
  · rw [refill_of_le h, min_le_iff, or_iff_right (not_le.mpr l.settings.maxTokens.2)]

/-- An empty bucket holds what was supplied to it, and its window has begun. -/
theorem refill_exhausted (h : supply l ≤ 0) : l.refill = { l with tokens := supply l, lastRefillTime := currentStart l } := by
  rcases lt_or_ge (l.now - l.lastRefillTime) l.settings.windowMs.1 with hlt | hle
  · rw [(refill_of_lt hlt).2.1, (refill_of_lt hlt).2.2, (refill_of_lt hlt).1]
  · rw [refill_of_le hle, min_eq_right (h.trans l.settings.maxTokens.2.le)]

/-- The window of a bucket that was refilled has not elapsed. -/
theorem lt_currentStart : l.now < currentStart l + l.settings.windowMs := by
  rcases lt_or_ge (l.now - l.lastRefillTime) l.settings.windowMs.1 with hlt | hle
  · rw [(refill_of_lt hlt).2.2]
    linarith
  · have hfloor := Int.lt_floor_add_one ((l.now - l.lastRefillTime) / l.settings.windowMs.1)
    have hperiods : (⌊(l.now - l.lastRefillTime) / l.settings.windowMs⌋ : ℚ) ≤ periods l := by
      exact_mod_cast le_max_right _ _
    have hlt := (div_lt_iff₀ (windowMs_pos l.settings)).mp (hfloor.trans_le (add_le_add_left hperiods 1))
    rw [currentStart]
    linarith

theorem supply_pos (h : 0 < l.tokens) : 0 < supply l := by
  have hperiods : (0 : ℚ) ≤ periods l := by exact_mod_cast le_max_left _ _
  exact add_pos_of_pos_of_nonneg h (mul_nonneg hperiods l.settings.maxTokens.2.le)

end Bucket

section Calls

variable {l key}

theorem tryAcquire_exhausted (h : supply l ≤ 0) :
    l.tryAcquire key = (⟨false, 0, currentStart l + l.settings.windowMs - l.now⟩, l.refill) := by
  have hms : l.refill.msUntilRefill = currentStart l + l.settings.windowMs - l.now := by
    rw [RateLimiter.msUntilRefill, refill_exhausted h]
    dsimp only
    rw [max_eq_right (by linarith [lt_currentStart (l := l)])]
    ring
  rw [RateLimiter.tryAcquire, RateLimiter.evaluate, ← hms]
  exact if_pos (refill_tokens_nonpos.mpr h)

/-- A call is admitted when the bucket is not empty and the window of the key has room. -/
theorem tryAcquire_allowed_iff : (l.tryAcquire key).1.allowed ↔
    0 < supply l ∧ ∀ k limit, l.keyLimit key = some (k, limit) → (l.store.touch l.settings k l.now).1.count < limit := by
  have htokens : l.refill.tokens ≤ 0 ↔ supply l ≤ 0 := refill_tokens_nonpos
  have hkeys : l.refill.keyLimit key = l.keyLimit key := by rw [RateLimiter.keyLimit, RateLimiter.keyLimit, refill_settings]
  have hevaluated := evaluated l key true
  rw [← RateLimiter.tryAcquire] at hevaluated
  generalize l.tryAcquire key = answer at hevaluated
  cases hevaluated with
  | exhausted hempty => exact iff_of_false Bool.false_ne_true (fun h => absurd h.1 (not_lt.mpr (htokens.mp hempty)))
  | free hsome hkey =>
      refine iff_of_true rfl ⟨not_le.mp (mt htokens.mpr (not_le.mpr hsome)), fun k limit hlimit => ?_⟩
      cases hlimit.symm.trans (hkeys.symm.trans hkey)
  | full hsome hkey hfull =>
      rw [refill_store, refill_settings, refill_now] at hfull
      exact iff_of_false Bool.false_ne_true (fun h => absurd (h.2 _ _ (hkeys.symm.trans hkey)) (not_lt.mpr hfull))
  | admitted hsome hkey hroom =>
      rw [refill_store, refill_settings, refill_now] at hroom
      refine iff_of_true rfl ⟨not_le.mp (mt htokens.mpr (not_le.mpr hsome)), fun k limit hlimit => ?_⟩
      cases hlimit.symm.trans (hkeys.symm.trans hkey)
      exact hroom

/-- A call that is denied for its key is told the end of the key's window. -/
theorem tryAcquire_full {k : String} {limit : Nat} (h : 0 < supply l) (hkey : l.keyLimit key = some (k, limit))
    (hfull : limit ≤ (l.store.touch l.settings k l.now).1.count) :
    l.tryAcquire key = (⟨false, 0, (l.store.touch l.settings k l.now).1.windowStart + l.settings.windowMs - l.now⟩,
      { l.refill with store := (l.store.touch l.settings k l.now).2 }) := by
  have hsome : ¬l.refill.tokens ≤ 0 := fun hle => absurd h (not_lt.mpr (refill_tokens_nonpos.mp hle))
  have hkeys : l.refill.keyLimit key = some (k, limit) := by
    rw [← hkey, RateLimiter.keyLimit, RateLimiter.keyLimit, refill_settings]
  have hdenied : l.refill.store.evaluate l.refill.settings k l.refill.now limit true =
      (⟨false, 0, (l.store.touch l.settings k l.now).1.windowStart + l.settings.windowMs - l.now⟩,
        (l.store.touch l.settings k l.now).2) := by
    rw [refill_store, refill_settings, refill_now]
    exact if_pos hfull
  rw [RateLimiter.tryAcquire, RateLimiter.evaluate]
  dsimp only
  rw [if_neg hsome, hkeys]
  dsimp only
  rw [hdenied]
  rfl

end Calls

section Result

variable {l key}

theorem limit_pos {k : String} {limit : Nat} (h : l.keyLimit key = some (k, limit)) : 0 < limit := by
  obtain ⟨-, -, c, -, rfl⟩ := keyLimit_eq_some h
  exact c.2

/-- The entry of a key has room for a call unless it is used up and its window has not elapsed. -/
theorem touch_count_lt_iff {k : String} {limit : Nat} (hpos : 0 < limit) :
    (l.store.touch l.settings k l.now).1.count < limit ↔
      ∀ entry, l.store.get? k = some entry → limit ≤ entry.count → l.settings.windowMs.1 ≤ l.now - entry.windowStart := by
  cases hget : l.store.get? k with
  | none =>
      rw [touch_of_none _ _ _ hget]
      exact iff_of_true hpos nofun
  | some entry =>
      rw [touch_of_some _ _ _ hget, RateLimitStore.rolled]
      constructor
      · intro h other hother hfull
        cases hother
        by_contra hin
        rw [if_neg hin] at h
        exact absurd h (not_lt.mpr hfull)
      · intro h
        split_ifs with hover
        · exact hpos
        · exact not_le.mp (fun hfull => hover (h entry rfl hfull))

/-- The limiter at the end of the window that its empty bucket is in. -/
theorem idle_exhausted (h : supply l ≤ 0) : idle l.refill (currentStart l + l.settings.windowMs - l.now) =
    { l with tokens := supply l, lastRefillTime := currentStart l, now := currentStart l + l.settings.windowMs } := by
  rw [idle, refill_exhausted h]
  dsimp only
  rw [add_sub_cancel]

theorem supply_next (h : supply l ≤ 0) :
    supply (idle l.refill (currentStart l + l.settings.windowMs - l.now)) = supply l + l.settings.maxTokens := by
  have hone : (currentStart l + l.settings.windowMs - currentStart l) / (l.settings.windowMs : ℚ) = 1 := by
    rw [add_sub_cancel_left, div_self (windowMs_pos _).ne']
  rw [idle_exhausted h, supply, periods]
  dsimp only
  rw [hone, Int.floor_one, max_eq_right zero_le_one, Int.cast_one, one_mul]

theorem sufficient_of_exhausted (h : supply l ≤ 0) :
    ((idle l.refill (currentStart l + l.settings.windowMs - l.now)).tryAcquire key).1.allowed ↔
      0 < supply l + l.settings.maxTokens ∧ ¬Overlaps l key := by
  rw [tryAcquire_allowed_iff, supply_next h, idle_exhausted h]
  refine and_congr_right' ?_
  constructor
  · rintro hroom ⟨k, limit, entry, hkey, hget, hfull, hstart⟩
    have hover := (touch_count_lt_iff (limit_pos hkey)).mp (hroom k limit hkey) entry hget hfull
    dsimp only at hover
    linarith
  · intro hclear k limit hkey
    have hkey' : l.keyLimit key = some (k, limit) := hkey
    refine (touch_count_lt_iff (limit_pos hkey')).mpr (fun entry hget hfull => ?_)
    dsimp only at hget ⊢
    have hstart : entry.windowStart ≤ currentStart l :=
      not_lt.mp (fun hlt => hclear ⟨k, limit, entry, hkey', hget, hfull, hlt⟩)
    linarith

/-- After the end of the key's window the key has room again, and the bucket is no emptier. -/
theorem sufficient_of_full {k : String} {limit : Nat} (h : 0 < supply l) (hkey : l.keyLimit key = some (k, limit))
    (hfull : limit ≤ (l.store.touch l.settings k l.now).1.count) :
    ((idle (l.tryAcquire key).2 (l.tryAcquire key).1.retryAfterMs).tryAcquire key).1.allowed := by
  have htokens : 0 < l.refill.tokens := not_le.mp (fun hle => absurd h (not_lt.mpr (refill_tokens_nonpos.mp hle)))
  have hget := get?_touch_self l.store l.settings k l.now
  rw [tryAcquire_full h hkey hfull, tryAcquire_allowed_iff]
  refine ⟨supply_pos htokens, fun k' limit' hkey' => ?_⟩
  have hsame : l.keyLimit key = some (k', limit') := by
    rw [← hkey', RateLimiter.keyLimit, RateLimiter.keyLimit, idle]
    dsimp only
    rw [refill_settings]
  obtain ⟨rfl, rfl⟩ := Prod.mk.inj (Option.some.inj (hkey.symm.trans hsame))
  refine (touch_count_lt_iff (limit_pos hkey)).mpr (fun entry hentry _ => ?_)
  rw [idle] at hentry ⊢
  dsimp only at hentry ⊢
  rw [refill_settings, refill_now]
  obtain rfl := Option.some.inj (hget.symm.trans hentry)
  linarith

def shop : Settings := ⟨⟨2, by norm_num⟩, some ⟨1, le_refl 1⟩, ⟨1000, by norm_num⟩, ⟨10000, by norm_num⟩⟩

/-- The second key takes the last token half a window after the start. -/
def spending : List Event := [.elapse 500, .tryAcquire (some "a"), .tryAcquire (some "b")]

end Result

end SplitSdk.RetryAfter
