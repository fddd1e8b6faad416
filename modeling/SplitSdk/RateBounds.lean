import SplitSdk.RateLimiting
import SplitSdk.TokenBucket

namespace SplitSdk.RateBounds

open Interleaving Numbers OrderedMap RateLimiting TokenBucket

section Statement

/-- The requests that were granted, the windows that keys have had, and the keys that were evicted. -/
structure Ledger where
  grants : List (ℚ × Option String) := []
  windows : List (String × ℚ) := []
  evicted : List String := []

structure History where
  limiter : RateLimiter
  ledger : Ledger := {}

namespace Ledger

def note (g : Ledger) (l : RateLimiter) (key : Option String) (consume : Bool) : Ledger :=
  let (result, after) := l.evaluate key consume
  { grants := if consume ∧ result.allowed then (l.now, key) :: g.grants else g.grants
    windows := after.store.entries.map (fun entry => (entry.1, entry.2.windowStart)) ++ g.windows
    evicted := l.store.keys.filter (fun k => !after.store.has k) ++ g.evicted }

def noteQueue (g : Ledger) (l : RateLimiter) : List (Option String) → Ledger
  | [] => g
  | key :: keys => (g.note l key true).noteQueue (l.evaluate key true).2 keys

def times (g : Ledger) : List ℚ := g.grants.map Prod.fst

def timesOf (g : Ledger) (key : String) : List ℚ := (g.grants.filter (fun grant => grant.2 = some key)).map Prod.fst

def startsOf (g : Ledger) (key : String) : List ℚ := (g.windows.filter (fun window => window.1 = key)).map Prod.snd

end Ledger

def observe (h : History) : Event → Ledger
  | .elapse _ => h.ledger
  | .check key => h.ledger.note h.limiter key false
  | .tryAcquire key | .acquire key => h.ledger.note h.limiter key true
  | .timer => h.ledger.noteQueue h.limiter.refill h.limiter.queue

def observedStep (h : History) (e : Event) : Option History :=
  (step h.limiter e).map (fun limiter => ⟨limiter, observe h e⟩)

/-- In consecutive refill windows not more requests are granted than their tokens, and a part of one; in the windows of a
key that was never evicted not more than its limit. -/
structure Bounded (settings : Settings) (createdAt : ℚ) (g : Ledger) : Prop where
  refillWindows : ∀ a n : Nat, countIn g.times (createdAt + a * settings.windowMs) (createdAt + (a + n) * settings.windowMs) <
    n * settings.maxTokens.1 + 1
  keyWindows : ∀ limit ∈ settings.perKeyLimit, ∀ key, key ∉ g.evicted → ∀ windowStart ∈ g.startsOf key,
    countIn (g.timesOf key) windowStart (windowStart + settings.windowMs) ≤ limit.1

def begin (settings : Settings) (createdAt : ℚ) : History := { limiter := create settings createdAt }

end Statement

section Windows

variable {limit : Nat} {period now : ℚ} {times starts : List ℚ} {entry : WindowEntry}

/-- The entry of a key counts the requests of its last window, and the windows do not overlap. -/
structure Counted (limit : Nat) (period now : ℚ) (times starts : List ℚ) (entry : WindowEntry) : Prop where
  begun : entry.windowStart ≤ now
  ended : ∀ t ∈ times, t < entry.windowStart + period
  counted : countFrom times entry.windowStart = entry.count
  limited : entry.count ≤ limit
  earlier : ∀ start ∈ starts, start = entry.windowStart ∨ start + period ≤ entry.windowStart
  bounded : ∀ start ∈ starts, countIn times start (start + period) ≤ limit

theorem Counted.later (h : Counted limit period now times starts entry) {later : ℚ} (hlater : now ≤ later) :
    Counted limit period later times starts entry :=
  { h with begun := h.begun.trans hlater }

theorem counted_new : Counted limit period now [] [] ⟨now, 0⟩ where
  begun := le_refl _
  ended := by simp
  counted := rfl
  limited := Nat.zero_le _
  earlier := by simp
  bounded := by simp

theorem Counted.roll (h : Counted limit period now times starts entry) (hperiod : 0 < period)
    (hover : period ≤ now - entry.windowStart) : Counted limit period now times starts ⟨now, 0⟩ where
  begun := le_refl _
  ended t ht := by
    have hlt := h.ended t ht
    dsimp only
    linarith
  counted := countFrom_eq_zero (fun t ht => (h.ended t ht).trans_le (by dsimp only; linarith))
  limited := Nat.zero_le _
  earlier start hstart := by
    refine .inr ?_
    dsimp only
    rcases h.earlier start hstart with rfl | hearlier <;> linarith
  bounded := h.bounded

/-- The present window may be noted. -/
theorem Counted.note (h : Counted limit period now times starts entry) {starts' : List ℚ}
    (hstarts : ∀ start ∈ starts', start = entry.windowStart ∨ start ∈ starts) : Counted limit period now times starts' entry :=
  { h with
    earlier := fun start hstart => (hstarts start hstart).elim .inl (h.earlier start)
    bounded := fun start hstart => by
      rcases hstarts start hstart with rfl | hold
      · exact (countIn_le_countFrom _ _ _).trans (h.counted ▸ h.limited)
      · exact h.bounded start hold }

theorem Counted.grant (h : Counted limit period now times starts entry) (hin : now < entry.windowStart + period)
    (hroom : entry.count < limit) :
    Counted limit period now (now :: times) starts { entry with count := entry.count + 1 } := by
  have hbegun := h.begun
  have hcounted : countFrom (now :: times) entry.windowStart = entry.count + 1 := by
    rw [countFrom_cons_of_le times hbegun, h.counted]
  refine ⟨hbegun, List.forall_mem_cons.mpr ⟨hin, h.ended⟩, hcounted, hroom, h.earlier, fun start hstart => ?_⟩
  rcases h.earlier start hstart with rfl | hearlier
  · exact (countIn_le_countFrom _ _ _).trans (hcounted ▸ hroom)
  · -- the window has ended before this one
    have hout : ¬(start ≤ now ∧ now < start + period) := fun hmem => absurd hmem.2 (not_lt.mpr (hearlier.trans hbegun))
    rw [countIn, List.countP_cons_of_neg (by simpa using hout)]
    exact h.bounded start hstart

end Windows

section Tracking

variable {limit : Nat} {period : ℚ} {k : String} {l l' : RateLimiter} {g g' : Ledger}

/-- A key that was never evicted has an entry that counts its requests, or has had no request. -/
structure Tracked (limit : Nat) (period : ℚ) (k : String) (l : RateLimiter) (g : Ledger) : Prop where
  absent : l.store.get? k = none → g.startsOf k = [] ∧ (k ≠ "" → g.timesOf k = [])
  present : ∀ entry, l.store.get? k = some entry → k ≠ "" ∧ Counted limit period l.now (g.timesOf k) (g.startsOf k) entry

/-- Only the present windows are noted. -/
def Notes (k : String) (l' : RateLimiter) (g g' : Ledger) : Prop :=
  ∀ start ∈ g'.startsOf k, (∃ entry, l'.store.get? k = some entry ∧ start = entry.windowStart) ∨ start ∈ g.startsOf k

/-- The entry of another key is touched, or none. -/
theorem Tracked.keep (h : Tracked limit period k l g) (hget : l'.store.get? k = l.store.get? k) (hnow : l.now ≤ l'.now)
    (htimes : k ≠ "" → g'.timesOf k = g.timesOf k) (hnotes : Notes k l' g g') : Tracked limit period k l' g' := by
  refine ⟨fun hnone => ?_, fun entry hentry => ?_⟩
  · obtain ⟨hstarts, hnotimes⟩ := h.absent (hget ▸ hnone)
    refine ⟨List.eq_nil_iff_forall_not_mem.mpr (fun start hstart => ?_), fun hk => (htimes hk).trans (hnotimes hk)⟩
    rcases hnotes start hstart with ⟨entry, hentry, -⟩ | hold
    · cases hnone.symm.trans hentry
    · rw [hstarts] at hold
      cases hold
  · obtain ⟨hk, hcounted⟩ := h.present entry (hget ▸ hentry)
    refine ⟨hk, htimes hk ▸ (hcounted.later hnow).note (fun start hstart => ?_)⟩
    rcases hnotes start hstart with ⟨other, hother, rfl⟩ | hold
    · exact .inl (congrArg WindowEntry.windowStart (Option.some.inj (hother.symm.trans hentry)))
    · exact .inr hold

/-- The entry of the key is touched. -/
theorem Tracked.touched (h : Tracked limit period k l g) (hperiod : l.settings.windowMs.1 = period) (hk : k ≠ "") :
    Counted limit period l.now (g.timesOf k) (g.startsOf k) (l.store.touch l.settings k l.now).1 := by
  have hpos : 0 < period := hperiod ▸ zero_lt_one.trans_le l.settings.windowMs.2
  cases hget : l.store.get? k with
  | none =>
      obtain ⟨hstarts, htimes⟩ := h.absent hget
      rw [touch_of_none _ _ _ hget, hstarts, htimes hk]
      exact counted_new
  | some entry =>
      have hcounted := (h.present entry hget).2
      rw [touch_of_some _ _ _ hget]
      unfold RateLimitStore.rolled
      split_ifs with hover
      · exact hcounted.roll hpos (hperiod ▸ hover)
      · exact hcounted

theorem tracked_of_counted (hk : k ≠ "") {entry : WindowEntry} (hget : l'.store.get? k = some entry)
    (hcounted : Counted limit period l'.now (g'.timesOf k) (g.startsOf k) entry) (hnotes : Notes k l' g g') :
    Tracked limit period k l' g' := by
  refine ⟨fun hnone => ?_, fun other hother => ⟨hk, ?_⟩⟩
  · cases hnone.symm.trans hget
  · obtain rfl : entry = other := Option.some.inj (hget.symm.trans hother)
    refine hcounted.note (fun start hstart => ?_)
    rcases hnotes start hstart with ⟨other, hother, rfl⟩ | hold
    · exact .inl (congrArg WindowEntry.windowStart (Option.some.inj (hother.symm.trans hget)))
    · exact .inr hold

theorem notes_note (g : Ledger) (l : RateLimiter) (key : Option String) (consume : Bool) (k : String) :
    Notes k (l.evaluate key consume).2 g (g.note l key consume) := by
  intro start hstart
  obtain ⟨window, hwindow, rfl⟩ := List.mem_map.mp hstart
  obtain ⟨hmem, hk⟩ := List.mem_filter.mp hwindow
  obtain rfl := of_decide_eq_true hk
  rcases List.mem_append.mp hmem with hnew | hold
  · obtain ⟨entry, hentry, rfl⟩ := List.mem_map.mp hnew
    exact .inl ⟨entry.2, OrdMap.get?_of_mem _ hentry, rfl⟩
  · exact .inr (List.mem_map.mpr ⟨window, List.mem_filter.mpr ⟨hold, hk⟩, rfl⟩)

/-- A key that was not evicted is still there. -/
theorem get?_of_not_evicted {key : Option String} {consume : Bool} (hk : k ∉ (g.note l key consume).evicted)
    (hget : (l.evaluate key consume).2.store.get? k = l.store.get? k ∨ (l.evaluate key consume).2.store.get? k = none) :
    (l.evaluate key consume).2.store.get? k = l.store.get? k := by
  rcases hget with hsame | hnone
  · exact hsame
  · by_contra hne
    have hhad : k ∈ l.store.keys := by
      refine (OrdMap.has_iff l.store k).mp (Option.isSome_iff_ne_none.mpr (fun hbefore => hne ?_))
      rw [hnone, hbefore]
    refine hk (List.mem_append_left _ (List.mem_filter.mpr ⟨hhad, ?_⟩))
    change (!((l.evaluate key consume).2.store.get? k).isSome) = true
    rw [hnone]
    rfl

theorem timesOf_note (g : Ledger) (l : RateLimiter) (key : Option String) (consume : Bool) (k : String) :
    (g.note l key consume).timesOf k =
      if consume ∧ (l.evaluate key consume).1.allowed ∧ key = some k then l.now :: g.timesOf k else g.timesOf k := by
  unfold Ledger.timesOf Ledger.note
  dsimp only
  by_cases hgranted : consume ∧ (l.evaluate key consume).1.allowed
  · rw [if_pos hgranted]
    by_cases hkey : key = some k
    · rw [List.filter_cons_of_pos (by simpa using hkey), if_pos ⟨hgranted.1, hgranted.2, hkey⟩]
      rfl
    · rw [List.filter_cons_of_neg (by simpa using hkey), if_neg (fun hall => hkey hall.2.2)]
  · rw [if_neg hgranted, if_neg (fun hall => hgranted ⟨hall.1, hall.2.1⟩)]

theorem tracked_note {limit : Count} (hlimit : l.settings.perKeyLimit = some limit) (key : Option String) (consume : Bool)
    (h : k ∉ g.evicted → Tracked limit l.settings.windowMs k l g) (hk : k ∉ (g.note l key consume).evicted) :
    Tracked limit l.settings.windowMs k (l.evaluate key consume).2 (g.note l key consume) := by
  have htracked : Tracked limit l.settings.windowMs k l.refill g := by
    refine (h (fun hmem => hk (List.mem_append_right _ hmem))).keep ?_ ?_ (fun _ => rfl) (fun _ hstart => .inr hstart)
    · rw [refill_store]
    · rw [refill_now]
  have hnotes := notes_note g l key consume k
  have hkept := get?_of_not_evicted hk
  have htimes := timesOf_note g l key consume k
  have hevaluated := evaluated l key consume
  generalize g.note l key consume = g' at hnotes htimes ⊢
  generalize l.evaluate key consume = result at hevaluated hnotes hkept htimes ⊢
  rw [← refill_settings l] at htracked hlimit ⊢
  rw [← refill_store l] at hkept
  rw [← refill_now l] at htimes
  generalize l.refill = l at *
  cases hevaluated with
  | exhausted =>
      exact htracked.keep rfl (le_refl _) (fun _ => htimes.trans (if_neg (by simp))) hnotes
  | free htokens hkey =>
      refine htracked.keep rfl (le_refl _) (fun hne => htimes.trans (if_neg ?_)) hnotes
      rintro ⟨-, -, rfl⟩
      rcases keyLimit_eq_none hkey with hnone | hempty
      · cases hnone.symm.trans hlimit
      · exact hne hempty
  | @full htokens k' limit' hkey hfull retryAfterMs =>
      have hsame := htimes.trans (if_neg (by simp))
      rcases eq_or_ne k k' with rfl | hne
      · have hcounted := htracked.touched rfl (keyLimit_eq_some hkey).2.1
        exact tracked_of_counted (keyLimit_eq_some hkey).2.1 (get?_touch_self _ _ _ _) (hsame ▸ hcounted) hnotes
      · exact htracked.keep (hkept (get?_touch_of_ne _ _ _ hne)) (le_refl _) (fun _ => hsame) hnotes
  | @admitted htokens k' limit' hkey hroom =>
      obtain ⟨rfl, hk', c, hc, rfl⟩ := keyLimit_eq_some hkey
      obtain rfl : c = limit := Option.some.inj (hc.symm.trans hlimit)
      rcases eq_or_ne k k' with rfl | hne
      · have hcounted := htracked.touched rfl hk'
        refine tracked_of_counted hk' (get?_charged_self _ _ _) ?_ hnotes
        cases consume with
        | false =>
            rw [htimes.trans (if_neg (by simp))]
            exact hcounted
        | true =>
            have hin := lt_touch l.store l.settings k l.now
            rw [htimes.trans (if_pos ⟨rfl, rfl, rfl⟩)]
            exact hcounted.grant (by linarith only [hin]) hroom
      · refine htracked.keep (hkept (get?_charged_of_ne l consume hne)) (le_refl _) (fun _ => htimes.trans (if_neg ?_)) hnotes
        rintro ⟨-, -, heq⟩
        exact hne (Option.some.inj heq).symm

end Tracking

section Limiter

variable {settings : Settings} {createdAt : ℚ} {l : RateLimiter} {g : Ledger}

def bucket (l : RateLimiter) : Bucket := ⟨l.tokens, l.lastRefillTime⟩

theorem bucket_refill (l : RateLimiter) :
    bucket l.refill = TokenBucket.refill l.settings.maxTokens l.settings.windowMs (bucket l) l.now := by
  unfold RateLimiter.refill TokenBucket.refill
  exact apply_ite bucket _ _ _

structure Tallied (settings : Settings) (createdAt : ℚ) (l : RateLimiter) (g : Ledger) : Prop where
  configured : l.settings = settings
  metered : ∃ k, Metered settings.maxTokens settings.windowMs createdAt (bucket l) l.now g.times k
  tracked : ∀ limit ∈ settings.perKeyLimit, ∀ k ∉ g.evicted, Tracked limit.1 settings.windowMs k l g

theorem tallied_create (settings : Settings) (createdAt : ℚ) : Tallied settings createdAt (create settings createdAt) {} where
  configured := rfl
  metered := ⟨0, metered_new settings.maxTokens.2 createdAt⟩
  tracked _ _ _ _ := ⟨fun _ => ⟨rfl, fun _ => rfl⟩, fun _ hentry => by cases hentry⟩

theorem Tallied.bounded (h : Tallied settings createdAt l g) : Bounded settings createdAt g where
  refillWindows := by
    obtain ⟨k, hmetered⟩ := h.metered
    exact hmetered.bounded
  keyWindows limit hlimit key hkey windowStart hstart := by
    have htracked := h.tracked limit hlimit key hkey
    cases hget : l.store.get? key with
    | none =>
        rw [(htracked.absent hget).1] at hstart
        cases hstart
    | some entry => exact (htracked.present entry hget).2.bounded windowStart hstart

theorem Tallied.later (h : Tallied settings createdAt l g) {later : ℚ} (hlater : l.now ≤ later) :
    Tallied settings createdAt { l with now := later } g where
  configured := h.configured
  metered := h.metered.imp (fun _ hmetered => hmetered.later hlater)
  tracked limit hlimit k hk :=
    (h.tracked limit hlimit k hk).keep rfl hlater (fun _ => rfl) (fun _ hstart => .inr hstart)

theorem Tallied.refill (h : Tallied settings createdAt l g) : Tallied settings createdAt l.refill g where
  configured := (refill_settings l).trans h.configured
  metered := by
    obtain ⟨k, hmetered⟩ := h.metered
    rw [bucket_refill, refill_now, h.configured]
    exact hmetered.refill settings.maxTokens.2 (zero_lt_one.trans_le settings.windowMs.2)
  tracked limit hlimit k hk := by
    refine (h.tracked limit hlimit k hk).keep ?_ ?_ (fun _ => rfl) (fun _ hstart => .inr hstart)
    · rw [refill_store]
    · rw [refill_now]

theorem times_note (g : Ledger) (l : RateLimiter) (key : Option String) (consume : Bool) :
    (g.note l key consume).times =
      if consume ∧ (l.evaluate key consume).1.allowed then l.now :: g.times else g.times := by
  unfold Ledger.times Ledger.note
  dsimp only
  split_ifs <;> rfl

/-- The bucket loses a token for every request that is granted. -/
theorem metered_note {k : Nat} (h : Tallied settings createdAt l g) (key : Option String) (consume : Bool)
    (hmetered : Metered settings.maxTokens settings.windowMs createdAt (bucket l.refill) l.refill.now g.times k) :
    Metered settings.maxTokens settings.windowMs createdAt (bucket (l.evaluate key consume).2) (l.evaluate key consume).2.now
      (g.note l key consume).times k := by
  have hperiod : (0 : ℚ) < settings.windowMs := zero_lt_one.trans_le settings.windowMs.2
  have htimes := times_note g l key consume
  have hevaluated := evaluated l key consume
  have hin : l.refill.now - (bucket l.refill).refilledAt < settings.windowMs := by
    rw [bucket_refill, refill_now, h.configured]
    exact lt_refill settings.maxTokens hperiod
  rw [← refill_now l] at htimes
  generalize l.refill = l' at *
  have htake (htokens : 0 < l'.tokens) (htimes : (g.note l key consume).times = if consume then l'.now :: g.times else g.times) :
      Metered settings.maxTokens settings.windowMs createdAt ⟨taken l' consume, l'.lastRefillTime⟩ l'.now
        (g.note l key consume).times k := by
    rw [htimes]
    cases consume with
    | false => exact hmetered
    | true => exact hmetered.take settings.maxTokens.2 hperiod htokens hin
  generalize l.evaluate key consume = result at hevaluated htimes ⊢
  cases hevaluated with
  | exhausted =>
      rw [htimes.trans (if_neg (by simp))]
      exact hmetered
  | free htokens => exact htake htokens (htimes.trans (by simp))
  | full =>
      rw [htimes.trans (if_neg (by simp))]
      exact hmetered
  | admitted htokens => exact htake htokens (htimes.trans (by simp))

theorem settings_evaluate (l : RateLimiter) (key : Option String) (consume : Bool) :
    (l.evaluate key consume).2.settings = l.settings := by
  have hevaluated := evaluated l key consume
  rw [← refill_settings l]
  generalize l.evaluate key consume = result at hevaluated ⊢
  cases hevaluated <;> rfl

theorem tallied_note (h : Tallied settings createdAt l g) (key : Option String) (consume : Bool) :
    Tallied settings createdAt (l.evaluate key consume).2 (g.note l key consume) where
  configured := (settings_evaluate l key consume).trans h.configured
  metered := h.refill.metered.imp (fun _ hmetered => metered_note h key consume hmetered)
  tracked limit hlimit k hk := by
    have hconfigured := h.configured
    subst hconfigured
    exact tracked_note hlimit key consume (h.tracked limit hlimit k) hk

theorem tallied_drain (keys : List (Option String)) (h : Tallied settings createdAt l g) :
    Tallied settings createdAt (l.drain keys).2.2 (g.noteQueue l keys) := by
  induction keys generalizing l g with
  | nil => exact h
  | cons key keys ih =>
      rw [RateLimiter.drain]
      dsimp only
      split_ifs <;> exact ih (tallied_note h key true)

/-- The queue and its timer play no part. -/
theorem Tallied.queued (h : Tallied settings createdAt l g) (queue : List (Option String)) (timer : Option ℚ) :
    Tallied settings createdAt { l with queue, timer } g where
  configured := h.configured
  metered := h.metered
  tracked limit hlimit k hk := ⟨(h.tracked limit hlimit k hk).absent, (h.tracked limit hlimit k hk).present⟩

theorem tallied_step {h h' : History} {e : Event} (htallied : Tallied settings createdAt h.limiter h.ledger)
    (hstep : observedStep h e = some h') : Tallied settings createdAt h'.limiter h'.ledger := by
  obtain ⟨limiter, hlimiter, rfl⟩ := Option.map_eq_some_iff.mp hstep
  cases e with
  | elapse ms =>
      obtain ⟨hms, hnext⟩ := Option.ite_none_right_eq_some.mp hlimiter
      cases hnext
      exact htallied.later (le_add_of_nonneg_right hms)
  | check key =>
      cases hlimiter
      exact tallied_note htallied key false
  | tryAcquire key =>
      cases hlimiter
      exact tallied_note htallied key true
  | acquire key =>
      cases hlimiter
      have hnoted := tallied_note htallied key true
      unfold RateLimiter.acquire
      dsimp only
      split_ifs
      · exact hnoted
      · exact hnoted.queued _ _
      · exact hnoted.queued _ _
  | timer =>
      obtain ⟨-, hnext⟩ := Option.ite_none_right_eq_some.mp hlimiter
      cases hnext
      have hdrained := tallied_drain h.limiter.queue htallied.refill
      unfold RateLimiter.processTimer
      dsimp only
      split_ifs
      · exact hdrained.queued _ _
      · exact hdrained.queued _ _

/-- Whatever the settings, the requests that are granted stay within both budgets. -/
theorem bounded_grants (settings : Settings) (createdAt : ℚ) (es : List Event) :
    Allowed observedStep (fun h e => ∀ h', observedStep h e = some h' → Bounded settings createdAt h'.ledger)
      (begin settings createdAt) es := by
  refine allowed_of_invariant (I := fun h => Tallied settings createdAt h.limiter h.ledger)
    (fun h e h' hi _ hnext => tallied_step hi hnext) (fun h e hi _ h' hnext => (tallied_step hi hnext).bounded)
    (tallied_create settings createdAt) (allowed_of_forall (p := fun _ => True) _ (fun _ _ => trivial))

end Limiter

end SplitSdk.RateBounds
