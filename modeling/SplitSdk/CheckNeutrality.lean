import SplitSdk.RateBounds

namespace SplitSdk.CheckNeutrality

open Interleaving OrderedMap RateLimiting RateBounds TokenBucket

section Statement

/-- A limiter and what `tryAcquire` has answered, newest first. -/
structure Trial where
  limiter : RateLimiter
  results : List RateLimitCheck := []

def answers (t : Trial) : Event → List RateLimitCheck
  | .tryAcquire key => (t.limiter.tryAcquire key).1 :: t.results
  | _ => t.results

def trialStep (t : Trial) (e : Event) : Option Trial :=
  (step t.limiter e).map (fun limiter => ⟨limiter, answers t e⟩)

def start (settings : Settings) (createdAt : ℚ) : Trial := { limiter := create settings createdAt }

def isCheck : Event → Bool
  | .check _ => true
  | _ => false

/-- Checks and attempts, while time goes by. -/
def Direct : Event → Prop
  | .elapse _ | .check _ | .tryAcquire _ => True
  | .acquire _ | .timer => False

def results (settings : Settings) (createdAt : ℚ) (es : List Event) : Option (List RateLimitCheck) :=
  (run trialStep (start settings createdAt) es).map Trial.results

/-- The checks of a schedule do not change what the attempts are answered. -/
def Unchanged (settings : Settings) (createdAt : ℚ) (es : List Event) : Prop :=
  results settings createdAt es = results settings createdAt (es.filter (fun e => !isCheck e))

/-- Two refill windows do not have more tokens than a key may take in one of its own. -/
def NeverBinds (settings : Settings) : Prop := ∀ limit ∈ settings.perKeyLimit, 2 * settings.maxTokens.1 ≤ limit.1

/-- The key has no limit, the bucket is empty, or the key was used last and its window has not elapsed. -/
def Harmless (t : Trial) : Event → Prop
  | .check key =>
      ∀ k ∈ key, k ≠ "" → t.limiter.settings.perKeyLimit ≠ none → 0 < t.limiter.refill.tokens →
        ∃ entry, t.limiter.store.entries.getLast? = some (k, entry) ∧
          t.limiter.now - entry.windowStart < t.limiter.settings.windowMs
  | _ => True

end Statement

section Refills

variable {l l' : RateLimiter}

def pour (l : RateLimiter) (b : Bucket) : RateLimiter := { l with tokens := b.tokens, lastRefillTime := b.refilledAt }

theorem refill_eq_pour (l : RateLimiter) : l.refill = pour l (bucket l.refill) := by
  obtain ⟨tokens, lastRefillTime, h⟩ := refill_eq l
  rw [h]
  rfl

theorem period_pos (settings : Settings) : (0 : ℚ) < settings.windowMs := zero_lt_one.trans_le settings.windowMs.2

/-- A refill in between makes no difference to a limiter. -/
theorem bucket_refill_later (h : l.lastRefillTime ≤ l.now) {later : ℚ} (hlater : l.now ≤ later) :
    bucket { l with now := later }.refill =
      TokenBucket.refill l.settings.maxTokens l.settings.windowMs (bucket l.refill) later := by
  rw [bucket_refill, bucket_refill, refill_refill l.settings.maxTokens.2 (period_pos l.settings) h hlater]
  rfl

theorem bucket_refill_self (h : l.lastRefillTime ≤ l.now) :
    TokenBucket.refill l.settings.maxTokens l.settings.windowMs (bucket l.refill) l.now = bucket l.refill :=
  (bucket_refill_later h (le_refl _)).symm

theorem lastRefillTime_refill (h : l.lastRefillTime ≤ l.now) : l.refill.lastRefillTime ≤ l.refill.now := by
  have hle := refill_le (b := bucket l) l.settings.maxTokens (period_pos l.settings) h
  rw [← bucket_refill] at hle
  rw [refill_now]
  exact hle

theorem refill_pour_later (h : l.lastRefillTime ≤ l.now) {later : ℚ} (hlater : l.now ≤ later) :
    { l.refill with now := later }.refill = { l with now := later }.refill := by
  have hbucket : bucket { l.refill with now := later }.refill = bucket { l with now := later }.refill := by
    rw [bucket_refill_later h hlater, bucket_refill, refill_settings]
    rfl
  rw [refill_eq_pour { l.refill with now := later }, refill_eq_pour { l with now := later }, hbucket]
  generalize bucket { l with now := later }.refill = b
  rw [refill_eq_pour l]
  rfl

theorem refill_refill_limiter (h : l.lastRefillTime ≤ l.now) : l.refill.refill = l.refill := by
  have hnow : { l.refill with now := l.now } = l.refill := by
    rw [refill_eq_pour l]
    rfl
  have hsame := refill_pour_later h (le_refl l.now)
  rw [hnow] at hsame
  exact hsame

theorem evaluate_of_refill_eq (h : l.refill = l'.refill) (key : Option String) (consume : Bool) :
    l.evaluate key consume = l'.evaluate key consume := by
  unfold RateLimiter.evaluate
  rw [h]

theorem lastRefillTime_evaluate (h : l.lastRefillTime ≤ l.now) (key : Option String) (consume : Bool) :
    (l.evaluate key consume).2.lastRefillTime ≤ (l.evaluate key consume).2.now := by
  have hrefilled := lastRefillTime_refill h
  have hevaluated := evaluated l key consume
  generalize l.evaluate key consume = result at hevaluated ⊢
  cases hevaluated <;> exact hrefilled

end Refills

theorem trialStep_elapse (t : Trial) (ms : ℚ) : trialStep t (.elapse ms) =
    if 0 ≤ ms then some ⟨{ t.limiter with now := t.limiter.now + ms }, t.results⟩ else none := by
  unfold trialStep step
  dsimp only
  split_ifs <;> rfl

section Harmless

variable {l l' : RateLimiter}

theorem touch_last (store : RateLimitStore) (settings : Settings) {key : String} {now : ℚ} {entry : WindowEntry}
    (hlast : store.entries.getLast? = some (key, entry)) (hin : now - entry.windowStart < settings.windowMs) :
    (store.touch settings key now).2 = store := by
  have hget : store.get? key = some entry := OrdMap.get?_of_mem store (List.mem_of_getLast? hlast)
  have hrolled : RateLimitStore.rolled settings now entry = entry := if_neg (not_le.mpr hin)
  unfold RateLimitStore.touch
  rw [hget]
  dsimp only
  rw [hrolled]
  exact OrdMap.set_delete_last hlast

/-- A harmless check only refills the bucket. -/
theorem check_of_harmless {t : Trial} {key : Option String} (h : Harmless t (.check key)) :
    (t.limiter.check key).2 = t.limiter.refill := by
  have hevaluated := evaluated t.limiter key false
  unfold Harmless at h
  rw [← refill_store, ← refill_settings, ← refill_now] at h
  unfold RateLimiter.check
  generalize t.limiter.evaluate key false = result at hevaluated ⊢
  generalize t.limiter.refill = l at h hevaluated ⊢
  have hstore (htokens : 0 < l.tokens) {k : String} {limit : Nat} (hkey : l.keyLimit key = some (k, limit)) :
      (l.store.touch l.settings k l.now).2 = l.store := by
    obtain ⟨rfl, hk, c, hc, rfl⟩ := keyLimit_eq_some hkey
    obtain ⟨entry, hlast, hin⟩ := h k rfl hk (Option.ne_none_iff_exists'.mpr ⟨c, hc⟩) htokens
    exact touch_last l.store l.settings hlast hin
  cases hevaluated with
  | exhausted => rfl
  | free => rfl
  | full htokens hkey =>
      dsimp only
      rw [hstore htokens hkey]
  | admitted htokens hkey =>
      have hcharged := hstore htokens hkey
      unfold charged
      dsimp only
      rw [if_neg Bool.false_ne_true, hcharged]
      rfl

/-- Limiters that are alike once they are refilled. -/
structure Alike (t t' : Trial) : Prop where
  results : t.results = t'.results
  refilled : t.limiter.refill = t'.limiter.refill
  last : t.limiter.lastRefillTime ≤ t.limiter.now
  last' : t'.limiter.lastRefillTime ≤ t'.limiter.now

theorem unchanged_of_harmless {settings : Settings} {createdAt : ℚ} {es : List Event} (hdirect : ∀ e ∈ es, Direct e)
    (h : Allowed trialStep Harmless (start settings createdAt) es) : Unchanged settings createdAt es := by
  have hall : Allowed trialStep (fun _ e => Direct e) (start settings createdAt) es := allowed_of_forall _ hdirect
  have hrel := run_filter (R := Alike) isCheck ?_ ?_ ⟨rfl, rfl, le_refl _, le_refl _⟩ (allowed_and hall h)
  · unfold Unchanged results
    generalize run trialStep (start settings createdAt) es = last at hrel ⊢
    generalize run trialStep (start settings createdAt) (es.filter (fun e => !isCheck e)) = last' at hrel ⊢
    cases hrel with
    | none => rfl
    | some halike => exact congrArg some halike.results
  · intro t t' e hcheck halike hok
    cases e with
    | check key =>
        refine ⟨_, rfl, halike.results, ?_, ?_, halike.last'⟩
        · rw [check_of_harmless hok.2, refill_refill_limiter halike.last]
          exact halike.refilled
        · rw [check_of_harmless hok.2]
          exact lastRefillTime_refill halike.last
    | elapse | tryAcquire | acquire | timer => cases hcheck
  · intro t t' e hshown halike hok
    cases e with
    | elapse ms =>
        have hnow : t.limiter.now = t'.limiter.now := by
          rw [← refill_now, halike.refilled, refill_now]
        rw [trialStep_elapse, trialStep_elapse]
        split_ifs with hms
        · have hlater : t.limiter.now ≤ t.limiter.now + ms := le_add_of_nonneg_right hms
          have hlater' : t'.limiter.now ≤ t'.limiter.now + ms := le_add_of_nonneg_right hms
          refine .some ⟨halike.results, ?_, halike.last.trans hlater, halike.last'.trans hlater'⟩
          rw [← refill_pour_later halike.last hlater, ← refill_pour_later halike.last' hlater', halike.refilled, hnow]
        · exact .none
    | tryAcquire key =>
        have hsame := evaluate_of_refill_eq halike.refilled key true
        refine .some ⟨?_, ?_, lastRefillTime_evaluate halike.last key true, lastRefillTime_evaluate halike.last' key true⟩
        · exact congrArg₂ _ (congrArg Prod.fst hsame) halike.results
        · exact congrArg (fun result => result.2.refill) hsame
    | check => cases hshown
    | acquire | timer => exact hok.1.elim

end Harmless

section Loose

variable {settings : Settings} {createdAt now : ℚ} {l : RateLimiter} {times : List ℚ}

/-- An entry counts requests that have also taken tokens. -/
structure Paid (createdAt now : ℚ) (times : List ℚ) (entry : WindowEntry) : Prop where
  created : createdAt ≤ entry.windowStart
  begun : entry.windowStart ≤ now
  paid : entry.count ≤ countFrom times entry.windowStart

def Loose (settings : Settings) (createdAt : ℚ) (l : RateLimiter) : Prop :=
  l.settings = settings ∧ ∃ times k, Metered settings.maxTokens settings.windowMs createdAt (bucket l) l.now times k ∧
    ∀ key entry, l.store.get? key = some entry → Paid createdAt l.now times entry

theorem paid_new (h : createdAt ≤ now) : Paid createdAt now times ⟨now, 0⟩ := ⟨h, le_refl _, Nat.zero_le _⟩

theorem loose_create (settings : Settings) (createdAt : ℚ) : Loose settings createdAt (create settings createdAt) :=
  ⟨rfl, [], 0, metered_new settings.maxTokens.2 createdAt, fun _ _ hentry => by cases hentry⟩

theorem Loose.later (h : Loose settings createdAt l) {later : ℚ} (hlater : l.now ≤ later) :
    Loose settings createdAt { l with now := later } := by
  obtain ⟨hsettings, times, k, hmetered, hpaid⟩ := h
  refine ⟨hsettings, times, k, hmetered.later hlater, fun key entry hentry => ?_⟩
  have hold := hpaid key entry hentry
  exact { hold with begun := hold.begun.trans hlater }

theorem Loose.refill (h : Loose settings createdAt l) : Loose settings createdAt l.refill := by
  obtain ⟨hsettings, times, k, hmetered, hpaid⟩ := h
  obtain ⟨k', hrefilled⟩ := hmetered.refill settings.maxTokens.2 (period_pos settings)
  refine ⟨(refill_settings l).trans hsettings, times, k', ?_, ?_⟩
  · rw [bucket_refill, refill_now, hsettings]
    exact hrefilled
  · rw [refill_store, refill_now]
    exact hpaid

theorem Loose.last (h : Loose settings createdAt l) : l.lastRefillTime ≤ l.now := by
  obtain ⟨-, times, k, hmetered, -⟩ := h
  exact hmetered.refilled

/-- The entry that a request touches. -/
theorem paid_touch (hnow : createdAt ≤ l.now)
    (hpaid : ∀ key entry, l.store.get? key = some entry → Paid createdAt l.now times entry) (key : String) :
    Paid createdAt l.now times (l.store.touch l.settings key l.now).1 := by
  cases hget : l.store.get? key with
  | none =>
      rw [touch_of_none _ _ _ hget]
      exact paid_new hnow
  | some entry =>
      rw [touch_of_some _ _ _ hget]
      unfold RateLimitStore.rolled
      split_ifs
      · exact paid_new hnow
      · exact hpaid key entry hget

/-- What a bucket alone answers. -/
def answer (settings : Settings) (b : Bucket) (now : ℚ) (consume : Bool) : RateLimitCheck :=
  if b.tokens ≤ 0 then ⟨false, 0, max 0 (settings.windowMs - (now - b.refilledAt))⟩
  else ⟨true, ⌊if consume then b.tokens - 1 else b.tokens⌋, 0⟩

def spend (b : Bucket) (consume : Bool) : Bucket := if 0 < b.tokens ∧ consume then b.take else b

def charges (now : ℚ) (times : List ℚ) (consume : Bool) : List ℚ := if consume then now :: times else times

theorem Paid.charged {entry : WindowEntry} (h : Paid createdAt now times entry) (consume : Bool) :
    Paid createdAt now (charges now times consume) entry := by
  cases consume with
  | false => exact h
  | true => exact { h with paid := h.paid.trans (countFrom_le_cons now times _) }

theorem Paid.counted {entry : WindowEntry} (h : Paid createdAt now times entry) (consume : Bool) :
    Paid createdAt now (charges now times consume)
      (if consume then { entry with count := entry.count + 1 } else entry) := by
  cases consume with
  | false => exact h
  | true =>
      refine ⟨h.created, h.begun, ?_⟩
      change entry.count + 1 ≤ countFrom (now :: times) entry.windowStart
      rw [countFrom_cons_of_le times h.begun]
      exact Nat.succ_le_succ h.paid

theorem metered_taken {k : Nat} (consume : Bool) (htokens : 0 < l.tokens)
    (hin : l.now - (bucket l).refilledAt < settings.windowMs)
    (h : Metered settings.maxTokens settings.windowMs createdAt (bucket l) l.now times k) :
    Metered settings.maxTokens settings.windowMs createdAt ⟨taken l consume, l.lastRefillTime⟩ l.now
      (charges l.now times consume) k := by
  cases consume with
  | false => exact h
  | true => exact h.take settings.maxTokens.2 (period_pos settings) htokens hin

theorem spend_false (b : Bucket) : spend b false = b := if_neg (fun h => Bool.false_ne_true h.2)

theorem spend_bucket (consume : Bool) (htokens : 0 < l.tokens) :
    ⟨taken l consume, l.lastRefillTime⟩ = spend (bucket l) consume := by
  cases consume with
  | false => exact (spend_false _).symm
  | true => exact (if_pos ⟨htokens, rfl⟩).symm

theorem answer_exhausted (consume : Bool) (htokens : l.tokens ≤ 0) :
    answer l.settings (bucket l) l.now consume = ⟨false, 0, l.msUntilRefill⟩ := if_pos htokens

theorem answer_admitted (consume : Bool) (htokens : 0 < l.tokens) :
    answer l.settings (bucket l) l.now consume = ⟨true, ⌊taken l consume⌋, 0⟩ := if_neg (not_le.mpr htokens)

/-- What is left for the key is not less than what is left in the bucket. -/
theorem floor_taken_le {count limit : Nat} (consume : Bool) (h : (count : ℚ) + l.tokens ≤ limit) :
    ⌊taken l consume⌋ ≤ (limit : Int) - count - if consume then 1 else 0 := by
  have hfloor : (⌊taken l consume⌋ : ℚ) ≤ taken l consume := Int.floor_le _
  have hcast : (⌊taken l consume⌋ : ℚ) ≤ ((limit : Int) - count - if consume then 1 else 0 : Int) := by
    unfold taken at hfloor ⊢
    cases consume with
    | false =>
        push_cast
        simp only [Bool.false_eq_true, if_false] at hfloor ⊢
        linarith
    | true =>
        push_cast
        simp only [if_true] at hfloor ⊢
        linarith
  exact_mod_cast hcast

/-- A limit that never binds leaves the answer to the bucket. -/
theorem loose_evaluate (hnever : NeverBinds settings) (h : Loose settings createdAt l) (key : Option String) (consume : Bool) :
    (l.evaluate key consume).1 = answer settings (bucket l.refill) l.now consume ∧
      bucket (l.evaluate key consume).2 = spend (bucket l.refill) consume ∧
      (l.evaluate key consume).2.now = l.now ∧
      Loose settings createdAt (l.evaluate key consume).2 := by
  have hin : l.refill.now - (bucket l.refill).refilledAt < settings.windowMs := by
    rw [bucket_refill, refill_now, h.1]
    exact lt_refill settings.maxTokens (period_pos settings)
  have hloose := h.refill
  have hevaluated := evaluated l key consume
  rw [← refill_now l]
  generalize l.evaluate key consume = result at hevaluated ⊢
  generalize l.refill = l at hin hloose hevaluated ⊢
  obtain ⟨rfl, times, k, hmetered, hpaid⟩ := hloose
  have htouched := paid_touch (hmetered.origin_le (period_pos l.settings)) hpaid
  have hroom {k : String} {limit : Nat} (hkey : l.keyLimit key = some (k, limit)) :
      ((l.store.touch l.settings k l.now).1.count : ℚ) + l.tokens ≤ limit := by
    obtain ⟨-, -, c, hc, rfl⟩ := keyLimit_eq_some hkey
    have hspent := hmetered.spent_since l.settings.maxTokens.2 (lt_touch l.store l.settings k l.now) (htouched k).created
    have hcount : ((l.store.touch l.settings k l.now).1.count : ℚ) ≤
        countFrom times (l.store.touch l.settings k l.now).1.windowStart := by
      exact_mod_cast (htouched k).paid
    exact ((add_le_add_left hcount _).trans hspent).trans (hnever c hc)
  cases hevaluated with
  | exhausted htokens =>
      have hspend : spend (bucket l) consume = bucket l := if_neg (fun hboth => absurd htokens (not_le.mpr hboth.1))
      exact ⟨(answer_exhausted consume htokens).symm, hspend.symm, rfl, rfl, times, k, hmetered, hpaid⟩
  | free htokens hkey =>
      refine ⟨(answer_admitted consume htokens).symm, spend_bucket consume htokens, rfl, rfl, charges l.now times consume, k,
        metered_taken consume htokens hin hmetered, fun key entry hentry => ?_⟩
      exact (hpaid key entry hentry).charged consume
  | full htokens hkey hfull =>
      have hle := hroom hkey
      have hcount : ((_ : Nat) : ℚ) ≤ (l.store.touch l.settings _ l.now).1.count := Nat.cast_le.mpr hfull
      linarith
  | @admitted htokens key limit hkey =>
      have hleft := floor_taken_le consume (hroom hkey)
      refine ⟨?_, spend_bucket consume htokens, rfl, rfl, charges l.now times consume, k,
        metered_taken consume htokens hin hmetered, fun other entry hentry => ?_⟩
      · rw [answer_admitted consume htokens, min_eq_left hleft]
      · change (charged l consume key).get? other = some entry at hentry
        rcases eq_or_ne other key with rfl | hne
        · rw [get?_charged_self] at hentry
          cases hentry
          exact (htouched other).counted consume
        · rcases get?_charged_of_ne l consume hne with hsame | hnone
          · exact (hpaid other entry (hsame ▸ hentry)).charged consume
          · cases hnone.symm.trans hentry

/-- Limiters that have the same tokens. -/
structure Level (settings : Settings) (createdAt : ℚ) (t t' : Trial) : Prop where
  results : t.results = t'.results
  now : t.limiter.now = t'.limiter.now
  tokens : bucket t.limiter.refill = bucket t'.limiter.refill
  loose : Loose settings createdAt t.limiter
  loose' : Loose settings createdAt t'.limiter

/-- The bucket after an evaluation, when it is refilled at once. -/
theorem bucket_refill_evaluate (hnever : NeverBinds settings) (h : Loose settings createdAt l) (key : Option String)
    (consume : Bool) : bucket (l.evaluate key consume).2.refill =
      TokenBucket.refill settings.maxTokens settings.windowMs (spend (bucket l.refill) consume) l.now := by
  obtain ⟨-, htokens, hnow, hloose⟩ := loose_evaluate hnever h key consume
  rw [bucket_refill, htokens, hnow, hloose.1]

theorem level_later {t t' : Trial} (h : Level settings createdAt t t') {later : ℚ} (hlater : t.limiter.now ≤ later) :
    Level settings createdAt ⟨{ t.limiter with now := later }, t.results⟩ ⟨{ t'.limiter with now := later }, t'.results⟩ where
  results := h.results
  now := rfl
  tokens := by
    dsimp only
    rw [bucket_refill_later h.loose.last hlater, bucket_refill_later h.loose'.last (h.now ▸ hlater), h.tokens, h.loose.1,
      h.loose'.1]
  loose := h.loose.later hlater
  loose' := h.loose'.later (h.now ▸ hlater)

theorem unchanged_of_neverBinds (hnever : NeverBinds settings) (createdAt : ℚ) {es : List Event}
    (hdirect : ∀ e ∈ es, Direct e) : Unchanged settings createdAt es := by
  have hok : Allowed trialStep (fun _ e => Direct e) (start settings createdAt) es := allowed_of_forall _ hdirect
  have hrel := run_filter (R := Level settings createdAt) isCheck ?_ ?_
    ⟨rfl, rfl, rfl, loose_create settings createdAt, loose_create settings createdAt⟩ hok
  · unfold Unchanged results
    generalize run trialStep (start settings createdAt) es = last at hrel ⊢
    generalize run trialStep (start settings createdAt) (es.filter (fun e => !isCheck e)) = last' at hrel ⊢
    cases hrel with
    | none => rfl
    | some hlevel => exact congrArg some hlevel.results
  · intro t t' e hcheck hlevel _
    cases e with
    | check key =>
        obtain ⟨-, -, hnow, hloose⟩ := loose_evaluate hnever hlevel.loose key false
        refine ⟨_, rfl, hlevel.results, hnow.trans hlevel.now, ?_, hloose, hlevel.loose'⟩
        have hself := bucket_refill_self hlevel.loose.last
        rw [hlevel.loose.1] at hself
        have hevaluated := bucket_refill_evaluate hnever hlevel.loose key false
        rw [spend_false, hself] at hevaluated
        exact hevaluated.trans hlevel.tokens
    | elapse | tryAcquire | acquire | timer => cases hcheck
  · intro t t' e hshown hlevel hok
    cases e with
    | elapse ms =>
        rw [trialStep_elapse, trialStep_elapse, ← hlevel.now]
        split_ifs with hms
        · exact .some (level_later hlevel (le_add_of_nonneg_right hms))
        · exact .none
    | tryAcquire key =>
        obtain ⟨hanswer, -, hnow, hloose⟩ := loose_evaluate hnever hlevel.loose key true
        obtain ⟨hanswer', -, hnow', hloose'⟩ := loose_evaluate hnever hlevel.loose' key true
        refine .some ⟨?_, hnow.trans (hlevel.now.trans hnow'.symm), ?_, hloose, hloose'⟩
        · refine congrArg₂ _ (hanswer.trans ?_) hlevel.results
          rw [hlevel.tokens, hlevel.now]
          exact hanswer'.symm
        · refine (bucket_refill_evaluate hnever hlevel.loose key true).trans ?_
          rw [hlevel.tokens, hlevel.now]
          exact (bucket_refill_evaluate hnever hlevel.loose' key true).symm
    | check => cases hshown
    | acquire | timer => exact hok.elim

end Loose

section Binding

variable {settings : Settings} {key : String} {limit : Count} {now : ℚ} {b : Bucket} {stored : Option WindowEntry}

/-- The entry that a request finds. -/
def seen (settings : Settings) (now : ℚ) (stored : Option WindowEntry) : WindowEntry :=
  (stored.map (RateLimitStore.rolled settings now)).getD ⟨now, 0⟩

/-- What a run for one key needs to know of a limiter. -/
structure Stage (settings : Settings) (key : String) (now : ℚ) (b : Bucket) (stored : Option WindowEntry) (l : RateLimiter) :
    Prop where
  settings : l.settings = settings
  now : l.now = now
  last : l.lastRefillTime ≤ l.now
  tokens : bucket l.refill = b
  stored : l.store.get? key = stored

theorem Stage.touch {l : RateLimiter} (h : Stage settings key now b stored l) :
    (l.store.touch l.settings key l.now).1 = seen settings now stored := by
  rw [h.settings, h.now]
  cases stored with
  | none => exact touch_of_none _ _ _ h.stored
  | some entry => exact touch_of_some _ _ _ h.stored

theorem Stage.refill {l : RateLimiter} (h : Stage settings key now b stored l) : Stage settings key now b stored l.refill where
  settings := (refill_settings l).trans h.settings
  now := (refill_now l).trans h.now
  last := lastRefillTime_refill h.last
  tokens := by rw [refill_refill_limiter h.last, h.tokens]
  stored := by rw [refill_store, h.stored]

theorem refill_spend (hin : now - b.refilledAt < settings.windowMs) (consume : Bool) :
    TokenBucket.refill settings.maxTokens settings.windowMs (spend b consume) now = spend b consume := by
  refine refill_of_lt ?_
  unfold spend
  split_ifs <;> exact hin

theorem Stage.in_period {l : RateLimiter} (h : Stage settings key now b stored l) : now - b.refilledAt < settings.windowMs := by
  rw [← h.tokens, bucket_refill, h.settings, h.now]
  exact lt_refill settings.maxTokens (period_pos settings)

theorem keyLimit_some {l : RateLimiter} (hlimit : l.settings.perKeyLimit = some limit) (hkey : key ≠ "") :
    l.keyLimit (some key) = some (key, limit.1) := by
  simp [RateLimiter.keyLimit, Option.filter, hkey, hlimit]

def counted (entry : WindowEntry) (consume : Bool) : WindowEntry :=
  if consume then { entry with count := entry.count + 1 } else entry

/-- A request for the key, while the bucket has tokens. -/
theorem Stage.evaluate {l : RateLimiter} (h : Stage settings key now b stored l) (hlimit : settings.perKeyLimit = some limit)
    (hkey : key ≠ "") (htokens : 0 < b.tokens) (consume : Bool) :
    ((l.evaluate (some key) consume).1.allowed ↔ (seen settings now stored).count < limit) ∧
      ((seen settings now stored).count < limit →
        Stage settings key now (spend b consume) (some (counted (seen settings now stored) consume))
          (l.evaluate (some key) consume).2) := by
  have hin := h.in_period
  have hrefilled := h.refill
  have hbucket := h.tokens
  have hevaluated := evaluated l (some key) consume
  generalize l.evaluate (some key) consume = result at hevaluated ⊢
  generalize l.refill = l at hrefilled hbucket hevaluated
  subst hbucket
  have hlimited : l.keyLimit (some key) = some (key, limit.1) := keyLimit_some (hrefilled.settings ▸ hlimit) hkey
  have htouch := hrefilled.touch
  cases hevaluated with
  | exhausted hempty => exact absurd hempty (not_le.mpr htokens)
  | free _ hnone => cases hnone.symm.trans hlimited
  | full _ hsome hfull =>
      cases hsome.symm.trans hlimited
      rw [htouch] at hfull
      exact ⟨⟨fun hallowed => absurd hallowed Bool.false_ne_true, fun hroom => absurd hroom (not_lt.mpr hfull)⟩,
        fun hroom => absurd hroom (not_lt.mpr hfull)⟩
  | admitted htokens hsome hroom =>
      cases hsome.symm.trans hlimited
      rw [htouch] at hroom
      refine ⟨⟨fun _ => hroom, fun _ => rfl⟩, fun _ => ⟨hrefilled.settings, hrefilled.now, hrefilled.last, ?_, ?_⟩⟩
      · rw [bucket_refill]
        change TokenBucket.refill l.settings.maxTokens l.settings.windowMs ⟨taken l consume, l.lastRefillTime⟩ l.now = _
        rw [spend_bucket consume htokens, hrefilled.settings, hrefilled.now, refill_spend hin]
      · change (charged l consume key).get? key = _
        rw [get?_charged_self, htouch]
        rfl

theorem Stage.later {l : RateLimiter} (h : Stage settings key now b stored l) {later : ℚ} (hlater : now ≤ later) :
    Stage settings key later (TokenBucket.refill settings.maxTokens settings.windowMs b later) stored
      { l with now := later } where
  settings := h.settings
  now := rfl
  last := h.last.trans (h.now ▸ hlater)
  tokens := by rw [bucket_refill_later h.last (h.now ▸ hlater), h.tokens, h.settings]
  stored := h.stored

theorem seen_of_lt {entry : WindowEntry} (h : now - entry.windowStart < settings.windowMs) :
    seen settings now (some entry) = entry := if_neg (not_le.mpr h)

/-- What is stored after a number of attempts in one window. -/
def storedAfter (stored : Option WindowEntry) (windowStart : ℚ) (count n : Nat) : Option WindowEntry :=
  if n = 0 then stored else some ⟨windowStart, count + n⟩

/-- Attempts that are all granted. -/
theorem run_attempts {t : Trial} (h : Stage settings key now b stored t.limiter) (hlimit : settings.perKeyLimit = some limit)
    (hkey : key ≠ "") {windowStart : ℚ} {count n : Nat} (hseen : seen settings now stored = ⟨windowStart, count⟩)
    (hwindow : now - windowStart < settings.windowMs) (htokens : (n : ℚ) - 1 < b.tokens) (hroom : count + n ≤ limit) :
    ∃ t', run trialStep t (List.replicate n (.tryAcquire (some key))) = some t' ∧
      Stage settings key now ⟨b.tokens - n, b.refilledAt⟩ (storedAfter stored windowStart count n) t'.limiter := by
  induction n generalizing t b stored count with
  | zero =>
      refine ⟨t, rfl, ?_⟩
      rw [Nat.cast_zero, sub_zero]
      exact h
  | succ n ih =>
      have hn : (0 : ℚ) ≤ n := Nat.cast_nonneg n
      push_cast at htokens
      have hpos : 0 < b.tokens := by linarith
      have hless : (seen settings now stored).count < limit := by
        rw [hseen]
        exact (Nat.lt_add_of_pos_right (Nat.succ_pos n)).trans_le hroom
      have hnext := (h.evaluate hlimit hkey hpos true).2 hless
      have hspend : spend b true = b.take := if_pos ⟨hpos, rfl⟩
      have hcounted : counted (seen settings now stored) true = ⟨windowStart, count + 1⟩ := by
        rw [hseen]
        rfl
      rw [hspend, hcounted] at hnext
      have hleft : (n : ℚ) - 1 < b.take.tokens := by
        change (n : ℚ) - 1 < b.tokens - 1
        linarith
      obtain ⟨t', hrun, hstage⟩ :=
        ih (t := ⟨(t.limiter.tryAcquire (some key)).2, (t.limiter.tryAcquire (some key)).1 :: t.results⟩) hnext
          (seen_of_lt hwindow) hleft (by omega)
      refine ⟨t', run_step rfl hrun, ?_⟩
      have htaken : b.tokens - (n + 1 : Nat) = b.take.tokens - n := by
        change b.tokens - (n + 1 : Nat) = b.tokens - 1 - n
        push_cast
        ring
      have hstored : storedAfter stored windowStart count (n + 1) =
          storedAfter (some ⟨windowStart, count + 1⟩) windowStart (count + 1) n := by
        unfold storedAfter
        rw [if_neg (Nat.succ_ne_zero n)]
        split_ifs with hzero
        · rw [hzero]
        · rw [Nat.add_right_comm, Nat.add_assoc]
      rw [htaken, hstored]
      exact hstage

theorem seen_storedAfter {windowStart : ℚ} {count : Nat} (hseen : seen settings now stored = ⟨windowStart, count⟩)
    (hwindow : now - windowStart < settings.windowMs) (n : Nat) :
    seen settings now (storedAfter stored windowStart count n) = ⟨windowStart, count + n⟩ := by
  unfold storedAfter
  split_ifs with hzero
  · rw [hseen, hzero, Nat.add_zero]
  · exact seen_of_lt hwindow

variable (settings key) in
/-- Some attempts in the middle of a window, more of them when it has ended, and another one. -/
def attempts (early late : Nat) : List Event :=
  .elapse (settings.windowMs / 2) ::
    (List.replicate early (.tryAcquire (some key)) ++ .elapse (settings.windowMs / 2) ::
      (List.replicate late (.tryAcquire (some key)) ++ [.tryAcquire (some key)]))

theorem Stage.elapse {t : Trial} (h : Stage settings key now b stored t.limiter) {ms : ℚ} (hms : 0 ≤ ms) :
    ∃ t', trialStep t (.elapse ms) = some t' ∧
      Stage settings key (now + ms) (TokenBucket.refill settings.maxTokens settings.windowMs b (now + ms)) stored t'.limiter := by
  refine ⟨⟨{ t.limiter with now := t.limiter.now + ms }, t.results⟩, ?_, ?_⟩
  · rw [trialStep_elapse, if_pos hms]
  · rw [← h.now]
    rw [← h.now] at h
    exact h.later (le_add_of_nonneg_right hms)

theorem refill_first (settings : Settings) (tokens : ℚ) :
    TokenBucket.refill settings.maxTokens settings.windowMs ⟨tokens, 0⟩ (settings.windowMs / 2) = ⟨tokens, 0⟩ := by
  have hperiod := period_pos settings
  exact refill_of_lt (by dsimp only; linarith)

theorem refill_second (settings : Settings) (tokens : ℚ) :
    TokenBucket.refill settings.maxTokens settings.windowMs ⟨tokens, 0⟩ settings.windowMs =
      ⟨min settings.maxTokens (tokens + settings.maxTokens), settings.windowMs⟩ := by
  have hperiods : periods settings.windowMs ⟨tokens, 0⟩ settings.windowMs = 1 := by
    unfold periods
    dsimp only
    rw [sub_zero, div_self (period_pos settings).ne', Int.floor_one]
  rw [refill_of_le (by dsimp only; rw [sub_zero]), hperiods, Int.cast_one, one_mul, one_mul, zero_add]

/-- The entry at the end of the first refill window: it starts again only if it has begun with that window. -/
theorem seen_second (settings : Settings) {windowStart : ℚ} (hstart : 0 ≤ windowStart) (early : Nat) :
    seen settings settings.windowMs (some ⟨windowStart, early⟩) =
      if windowStart = 0 then ⟨settings.windowMs, 0⟩ else ⟨windowStart, early⟩ := by
  split_ifs with hzero
  · exact if_pos (by rw [hzero, sub_zero])
  · have hpos := lt_of_le_of_ne hstart (Ne.symm hzero)
    exact seen_of_lt (by dsimp only; linarith)

/-- The last answer, when the key's first window has begun at `windowStart`. -/
theorem last_attempt {t : Trial} {early late : Nat} (h : Stage settings key 0 ⟨settings.maxTokens, 0⟩ stored t.limiter)
    (hlimit : settings.perKeyLimit = some limit) (hkey : key ≠ "") {windowStart : ℚ}
    (hseen : seen settings (settings.windowMs / 2) stored = ⟨windowStart, 0⟩) (hstart : 0 ≤ windowStart)
    (hpos : 0 < early) (hearly : (early : ℚ) < settings.maxTokens + 1) (hsum : early + late = limit)
    (hlate : (late : ℚ) < min settings.maxTokens.1 (2 * settings.maxTokens - early)) :
    ∃ t', run trialStep t (attempts settings key early late) = some t' ∧
      ∃ last results, t'.results = last :: results ∧ (last.allowed ↔ windowStart = 0) := by
  have hperiod := period_pos settings
  have hhalf : 0 ≤ settings.windowMs.1 / 2 := by linarith
  obtain ⟨t₁, hrun₁, hstage₁⟩ := h.elapse hhalf
  rw [zero_add, refill_first] at hstage₁
  obtain ⟨t₂, hrun₂, hstage₂⟩ := run_attempts hstage₁ hlimit hkey hseen (by linarith) (by dsimp only; linarith)
    (n := early) (by omega)
  have hstored : storedAfter stored windowStart 0 early = some ⟨windowStart, early⟩ := by
    rw [storedAfter, if_neg hpos.ne', zero_add]
  rw [hstored] at hstage₂
  obtain ⟨t₃, hrun₃, hstage₃⟩ := hstage₂.elapse hhalf
  rw [add_halves, refill_second] at hstage₃
  have hmin : min settings.maxTokens.1 (settings.maxTokens.1 - early + settings.maxTokens) =
      min settings.maxTokens.1 (2 * settings.maxTokens - early) := by
    congr 1
    ring
  rw [hmin] at hstage₃
  have hwindow : settings.windowMs.1 - (if windowStart = 0 then settings.windowMs.1 else windowStart) < settings.windowMs := by
    split_ifs with hzero
    · linarith
    · linarith [lt_of_le_of_ne hstart (Ne.symm hzero)]
  have hfound : seen settings settings.windowMs (some ⟨windowStart, early⟩) =
      ⟨if windowStart = 0 then settings.windowMs.1 else windowStart, if windowStart = 0 then 0 else early⟩ := by
    rw [seen_second settings hstart]
    split_ifs <;> rfl
  obtain ⟨t₄, hrun₄, hstage₄⟩ := run_attempts hstage₃ hlimit hkey hfound hwindow (n := late) (by dsimp only; linarith)
    (by split_ifs <;> omega)
  refine ⟨_, run_step hrun₁ (run_append hrun₂ (run_step hrun₃ (run_append hrun₄ rfl))), _, _, rfl, ?_⟩
  refine (hstage₄.evaluate hlimit hkey (by dsimp only; linarith) true).1.trans ?_
  rw [seen_storedAfter hfound hwindow]
  split_ifs with hzero
  · exact ⟨fun _ => hzero, fun _ => by dsimp only; omega⟩
  · exact ⟨fun hless => by dsimp only at hless; omega, fun heq => absurd heq hzero⟩

/-- Enough attempts to use up the limit, while the bucket still has tokens. -/
theorem exists_budget {M : ℚ} (hM : 0 < M) (limit : Count) (h : (limit : ℚ) < 2 * M) :
    ∃ early late : Nat, 0 < early ∧ (early : ℚ) < M + 1 ∧ early + late = limit.1 ∧ (late : ℚ) < min M (2 * M - early) := by
  have hceil : M ≤ ⌈M⌉₊ := Nat.le_ceil M
  have hlast : (⌈M⌉₊ : ℚ) < M + 1 := Nat.ceil_lt_add_one hM.le
  have hpos : 0 < ⌈M⌉₊ := Nat.ceil_pos.mpr hM
  rcases Nat.le_total limit.1 ⌈M⌉₊ with hle | hge
  · have hcast : ((limit.1 : Nat) : ℚ) ≤ ⌈M⌉₊ := Nat.cast_le.mpr hle
    refine ⟨limit, 0, limit.2, hcast.trans_lt hlast, rfl, ?_⟩
    rw [Nat.cast_zero]
    exact lt_min hM (sub_pos.mpr h)
  · have hcast : ((limit.1 - ⌈M⌉₊ : Nat) : ℚ) = limit.1 - ⌈M⌉₊ := Nat.cast_sub hge
    refine ⟨⌈M⌉₊, limit.1 - ⌈M⌉₊, hpos, hlast, Nat.add_sub_of_le hge, ?_⟩
    rw [hcast]
    exact lt_min (by linarith) (by linarith)

variable (settings key) in
theorem stage_start : Stage settings key 0 ⟨settings.maxTokens, 0⟩ none (start settings 0).limiter where
  settings := rfl
  now := rfl
  last := le_refl _
  tokens := by
    rw [bucket_refill]
    exact refill_of_lt ((sub_self (0 : ℚ)).trans_lt (period_pos settings))
  stored := rfl

theorem neverBinds_of_unchanged (h : ∀ createdAt es, (∀ e ∈ es, Direct e) → Unchanged settings createdAt es) :
    NeverBinds settings := by
  intro limit hlimit
  by_contra hless
  obtain ⟨early, late, hpos, hearly, hsum, hlate⟩ := exists_budget settings.maxTokens.2 limit (not_le.mp hless)
  have hkey : "key" ≠ "" := by decide
  have hfresh := stage_start settings "key"
  have hchecked := (hfresh.evaluate hlimit hkey settings.maxTokens.2 false).2 limit.2
  rw [spend_false] at hchecked
  have hhalf : settings.windowMs.1 / 2 ≠ 0 := (half_pos (period_pos settings)).ne'
  obtain ⟨t, hrun, last, results, hresults, hlast⟩ := last_attempt hfresh hlimit hkey rfl
    (half_pos (period_pos settings)).le hpos hearly hsum hlate
  obtain ⟨t', hrun', last', results', hresults', hlast'⟩ := last_attempt
    (t := ⟨((start settings 0).limiter.check (some "key")).2, []⟩) hchecked hlimit hkey
    (seen_of_lt (by change settings.windowMs.1 / 2 - 0 < settings.windowMs; linarith [period_pos settings]))
    (le_refl 0) hpos hearly hsum hlate
  -- the check has begun the key's window, which then ends with the refill window
  have hsame := h 0 (.check (some "key") :: attempts settings "key" early late)
    (by simp [attempts, Direct, or_imp, forall_and])
  have hfilter : (Event.check (some "key") :: attempts settings "key" early late).filter (fun e => !isCheck e) =
      attempts settings "key" early late := by
    simp [attempts, isCheck]
  unfold Unchanged CheckNeutrality.results at hsame
  rw [hfilter, hrun, run_step rfl hrun', Option.map_some, Option.map_some, hresults, hresults'] at hsame
  obtain ⟨rfl, -⟩ := List.cons.inj (Option.some.inj hsame)
  exact hhalf (hlast.mp (hlast'.mpr rfl))

theorem wallet_tokens : (0 : ℚ) < 10 := by norm_num

theorem wallet_limit : 1 ≤ 1 := le_rfl

theorem wallet_window : (1 : ℚ) ≤ 1000 := by norm_num

theorem wallet_keys : 1 ≤ 10000 := by norm_num

def wallet : Settings := ⟨⟨10, wallet_tokens⟩, some ⟨1, wallet_limit⟩, ⟨1000, wallet_window⟩, ⟨10000, wallet_keys⟩⟩

def peeking : List Event :=
  [.check (some "wallet-1"), .elapse 900, .tryAcquire (some "wallet-1"), .elapse 100, .tryAcquire (some "wallet-1")]

end Binding

end SplitSdk.CheckNeutrality
