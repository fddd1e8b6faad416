import Mathlib.Tactic.Linarith
import Mathlib.Tactic.Positivity
import SplitSdk.Interleaving

namespace SplitSdk.ThrottledGrants

open Interleaving

section Throttle

/-- What headers have said; `none` stands for `Infinity`. -/
structure RateLimitInfo where
  limit : Option ℚ
  remaining : Option ℚ
  resetAt : ℚ

structure AdaptiveThrottleConfig where
  penaltyDurationMs : ℚ := 5000
  maxBackoffMs : ℚ := 60000

structure Bucket where
  limit : ℚ
  tokens : ℚ
  baseRefillRate : ℚ

/-- There is no bucket while the limit, the tokens and the rate are all `Infinity`. A timer that is armed has its delay. -/
structure AdaptiveThrottle where
  bucket : Option Bucket := none
  penalized : Bool := false
  penaltyTimer : Option ℚ := none
  lastRefillAt : ℚ
  queue : List Nat := []
  drainTimer : Option ℚ := none
  consecutiveBreaches : Nat := 0
  penaltyWindowStart : ℚ := 0

variable (config : AdaptiveThrottleConfig) (t : AdaptiveThrottle) (now : ℚ)

def effectiveRefillRate (b : Bucket) : ℚ := if t.penalized then b.baseRefillRate / 2 else b.baseRefillRate

def effectiveBackoffMs : ℚ :=
  if t.consecutiveBreaches = 0 then config.penaltyDurationMs
  else min (config.penaltyDurationMs * 2 ^ (t.consecutiveBreaches - 1)) config.maxBackoffMs

def refill : AdaptiveThrottle :=
  { t with
    bucket := t.bucket.map (fun b =>
      let elapsed := max 0 (now - t.lastRefillAt)
      { b with tokens := min b.limit (b.tokens + elapsed * effectiveRefillRate t b) }),
    lastRefillAt := now }

def scheduleDrain : AdaptiveThrottle :=
  if t.drainTimer ≠ none then t
  else if t.penalized then t
  else
    let delay := match t.bucket with
      | none => 50
      | some b =>
          let rate := effectiveRefillRate t b
          if 0 < rate then max 0 ((1 - b.tokens) / rate) else 50
    { t with drainTimer := some delay }

def update (info : RateLimitInfo) : AdaptiveThrottle :=
  let t := refill t now
  let t := if t.penalized = false ∧ 0 < t.consecutiveBreaches ∧ effectiveBackoffMs config t ≤ now - t.penaltyWindowStart then
      { t with consecutiveBreaches := 0 }
    else t
  match info.limit with
  | none => { t with bucket := none }
  | some limit =>
      let tokens := min (info.remaining.getD limit) limit
      let windowMs := max 1 (info.resetAt - now)
      { t with bucket := some { limit, tokens, baseRefillRate := limit / windowMs } }

def recordRateLimited : AdaptiveThrottle :=
  let t := refill t now
  let breaches := t.consecutiveBreaches + 1
  let backoffMs := min (config.penaltyDurationMs * 2 ^ (breaches - 1)) config.maxBackoffMs
  { t with penalized := true, consecutiveBreaches := breaches, penaltyWindowStart := now, penaltyTimer := some backoffMs }

/-- The penalty is over. -/
def recover : AdaptiveThrottle :=
  let t := { t with penaltyTimer := none, penalized := false }
  if t.queue = [] then t else scheduleDrain t

def hasToken (bucket : Option Bucket) : Bool := bucket.all (fun b => 1 ≤ b.tokens)

def takeToken (bucket : Option Bucket) : Option Bucket := bucket.map (fun b => { b with tokens := b.tokens - 1 })

/-- The requests that were granted come along. -/
def acquire (request : Nat) : AdaptiveThrottle × List Nat :=
  let t := refill t now
  if t.penalized = false ∧ hasToken t.bucket then ({ t with bucket := takeToken t.bucket }, [request])
  else (scheduleDrain { t with queue := t.queue ++ [request] }, [])

/-- The loop of `_drainQueue`: the bucket, who is granted, and who still waits. -/
def grantLoop : Option Bucket → List Nat → Option Bucket × List Nat × List Nat
  | bucket, [] => (bucket, [], [])
  | bucket, request :: queue =>
      if hasToken bucket then
        let (bucket, granted, rest) := grantLoop (takeToken bucket) queue
        (bucket, request :: granted, rest)
      else (bucket, [], request :: queue)

def drainQueue : AdaptiveThrottle × List Nat :=
  if t.penalized then (t, [])
  else
    let t := refill t now
    let (bucket, granted, queue) := grantLoop t.bucket t.queue
    let t := { t with bucket, queue }
    (if queue = [] then t else scheduleDrain t, granted)

end Throttle

section Statement

variable (config : AdaptiveThrottleConfig)

/-- The clock is read at each of these. -/
inductive Event
  | acquire (now : ℚ)
  | update (now : ℚ) (info : RateLimitInfo)
  | recordRateLimited (now : ℚ)
  | drainFired (now : ℚ)
  | penaltyFired

/-- The number of calls of `acquire` and the requests that were granted, in order, are kept beside the throttle. -/
structure History where
  throttle : AdaptiveThrottle
  acquired : Nat := 0
  granted : List Nat := []

def start (now : ℚ) : History := { throttle := { lastRefillAt := now } }

/-- What an event does to the throttle and whom it grants, when it can happen. -/
def act (h : History) : Event → Option (AdaptiveThrottle × List Nat)
  | .acquire now => some (acquire h.throttle now h.acquired)
  | .update now info => some (update config h.throttle now info, [])
  | .recordRateLimited now => some (recordRateLimited config h.throttle now, [])
  | .drainFired now =>
      if h.throttle.drainTimer = none then none else some (drainQueue { h.throttle with drainTimer := none } now)
  | .penaltyFired => if h.throttle.penaltyTimer = none then none else some (recover h.throttle, [])

def acquiredBy : Event → Nat
  | .acquire _ => 1
  | _ => 0

def next (h : History) (e : Event) (result : AdaptiveThrottle × List Nat) : History :=
  { throttle := result.1, acquired := h.acquired + acquiredBy e, granted := h.granted ++ result.2 }

def step (h : History) (e : Event) : Option History := (act config h e).map (next h e)

structure Fair (h : History) : Prop where
  armed : h.throttle.queue ≠ [] →
    if h.throttle.penalized then h.throttle.penaltyTimer ≠ none else h.throttle.drainTimer ≠ none
  bounded : ∀ b, h.throttle.bucket = some b → 0 ≤ b.tokens ∧ b.tokens ≤ b.limit
  /-- Requests are granted in the order in which they were made, and the others wait in that order. -/
  ordered : h.granted ++ h.throttle.queue = List.range h.acquired

structure Lawful (h : History) (e : Event) : Prop where
  fair : ∀ h', step config h e = some h' → Fair h'
  penalized : h.throttle.penalized = true → ∀ t granted, act config h e = some (t, granted) → granted = []

/-- A request that could be granted at once finds no other one waiting, and headers do not leave less than nothing. -/
def Spares (h : History) : Event → Prop
  | .acquire now =>
      h.throttle.penalized = false → hasToken (refill h.throttle now).bucket = true → h.throttle.queue = []
  | .update _ info => ∀ limit, info.limit = some limit → 0 ≤ min (info.remaining.getD limit) limit
  | _ => True

end Statement

section Operations

variable {config : AdaptiveThrottleConfig} {t : AdaptiveThrottle} {now : ℚ}

structure Filled (b : Bucket) : Prop where
  nonneg : 0 ≤ b.tokens
  le_limit : b.tokens ≤ b.limit
  rate : 0 ≤ b.baseRefillRate

theorem Filled.refill {b : Bucket} (hfilled : Filled b) (t : AdaptiveThrottle) (now : ℚ) :
    Filled { b with tokens := min b.limit (b.tokens + max 0 (now - t.lastRefillAt) * effectiveRefillRate t b) } := by
  obtain ⟨hnonneg, hle, hrate⟩ := hfilled
  have heffective : 0 ≤ effectiveRefillRate t b := by
    unfold effectiveRefillRate
    split_ifs
    · positivity
    · exact hrate
  have helapsed : 0 ≤ max 0 (now - t.lastRefillAt) := le_max_left _ _
  refine ⟨le_min (le_trans hnonneg hle) (by positivity), min_le_left _ _, hrate⟩

theorem filled_refill (h : ∀ b, t.bucket = some b → Filled b) (now : ℚ) :
    ∀ b, (refill t now).bucket = some b → Filled b := by
  intro b hb
  obtain ⟨b', hb', rfl⟩ := Option.map_eq_some_iff.mp hb
  exact (h b' hb').refill t now

theorem filled_takeToken {bucket : Option Bucket} (h : ∀ b, bucket = some b → Filled b) (htoken : hasToken bucket = true) :
    ∀ b, takeToken bucket = some b → Filled b := by
  intro b hb
  obtain ⟨b', rfl, rfl⟩ := Option.map_eq_some_iff.mp hb
  obtain ⟨hnonneg, hle, hrate⟩ := h b' rfl
  have hone : 1 ≤ b'.tokens := of_decide_eq_true htoken
  exact ⟨by simpa using hone, by dsimp only; linarith, hrate⟩

theorem filled_grantLoop {bucket : Option Bucket} (h : ∀ b, bucket = some b → Filled b) (queue : List Nat) :
    ∀ b, (grantLoop bucket queue).1 = some b → Filled b := by
  induction queue generalizing bucket with
  | nil => exact h
  | cons request queue ih =>
      unfold grantLoop
      by_cases htoken : hasToken bucket = true
      · rw [if_pos htoken]
        exact ih (filled_takeToken h htoken)
      · rw [if_neg htoken]
        exact h

/-- The loop takes the requests from the front. -/
theorem grantLoop_append (bucket : Option Bucket) (queue : List Nat) :
    (grantLoop bucket queue).2.1 ++ (grantLoop bucket queue).2.2 = queue := by
  induction queue generalizing bucket with
  | nil => rfl
  | cons request queue ih =>
      unfold grantLoop
      by_cases htoken : hasToken bucket = true
      · rw [if_pos htoken]
        exact congrArg (List.cons request) (ih (takeToken bucket))
      · rw [if_neg htoken]
        rfl

theorem scheduleDrain_bucket (t : AdaptiveThrottle) : (scheduleDrain t).bucket = t.bucket := by
  unfold scheduleDrain
  split_ifs <;> rfl

theorem scheduleDrain_queue (t : AdaptiveThrottle) : (scheduleDrain t).queue = t.queue := by
  unfold scheduleDrain
  split_ifs <;> rfl

theorem scheduleDrain_penalized (t : AdaptiveThrottle) : (scheduleDrain t).penalized = t.penalized := by
  unfold scheduleDrain
  split_ifs <;> rfl

theorem scheduleDrain_penaltyTimer (t : AdaptiveThrottle) : (scheduleDrain t).penaltyTimer = t.penaltyTimer := by
  unfold scheduleDrain
  split_ifs <;> rfl

/-- While there is no penalty a drain is scheduled. -/
theorem scheduleDrain_drainTimer (hpenalized : t.penalized = false) : (scheduleDrain t).drainTimer ≠ none := by
  unfold scheduleDrain
  by_cases harmed : t.drainTimer ≠ none
  · rw [if_pos harmed]
    exact harmed
  · rw [if_neg harmed, hpenalized]
    exact Option.some_ne_none _

end Operations

section Invariant

variable {config : AdaptiveThrottleConfig} {h : History} {now : ℚ}

structure Inv (h : History) : Prop where
  drains : h.throttle.queue ≠ [] → h.throttle.penalized = false → h.throttle.drainTimer ≠ none
  recovers : h.throttle.penalized = true → h.throttle.penaltyTimer ≠ none
  filled : ∀ b, h.throttle.bucket = some b → Filled b
  ordered : h.granted ++ h.throttle.queue = List.range h.acquired

theorem start_inv (now : ℚ) : Inv (start now) where
  drains hne := absurd rfl hne
  recovers hpenalized := absurd hpenalized Bool.false_ne_true
  filled _ hb := absurd hb (Option.some_ne_none _).symm
  ordered := rfl

theorem Inv.fair (hinv : Inv h) : Fair h where
  armed hne := by
    cases hpenalized : h.throttle.penalized with
    | true => exact hinv.recovers hpenalized
    | false => exact hinv.drains hne hpenalized
  bounded b hb := ⟨(hinv.filled b hb).nonneg, (hinv.filled b hb).le_limit⟩
  ordered := hinv.ordered

theorem inv_scheduleDrain {t : AdaptiveThrottle} {acquired : Nat} {granted : List Nat}
    (hrecovers : t.penalized = true → t.penaltyTimer ≠ none) (hfilled : ∀ b, t.bucket = some b → Filled b)
    (hordered : granted ++ t.queue = List.range acquired) : Inv ⟨scheduleDrain t, acquired, granted⟩ where
  drains _ hfree := scheduleDrain_drainTimer ((scheduleDrain_penalized t).symm.trans hfree)
  recovers hpenalized :=
    ne_of_eq_of_ne (scheduleDrain_penaltyTimer t) (hrecovers ((scheduleDrain_penalized t).symm.trans hpenalized))
  filled b hb := hfilled b ((scheduleDrain_bucket t).symm.trans hb)
  ordered := by
    change granted ++ (scheduleDrain t).queue = List.range acquired
    rwa [scheduleDrain_queue]

/-- A drain is scheduled as long as somebody waits. -/
theorem inv_ite_scheduleDrain {t : AdaptiveThrottle} {acquired : Nat} {granted : List Nat}
    (hrecovers : t.penalized = true → t.penaltyTimer ≠ none) (hfilled : ∀ b, t.bucket = some b → Filled b)
    (hordered : granted ++ t.queue = List.range acquired) :
    Inv ⟨if t.queue = [] then t else scheduleDrain t, acquired, granted⟩ := by
  by_cases hnone : t.queue = []
  · rw [if_pos hnone]
    exact ⟨fun hne => absurd hnone hne, hrecovers, hfilled, hordered⟩
  · rw [if_neg hnone]
    exact inv_scheduleDrain hrecovers hfilled hordered

/-- Only a request that overtakes others leaves the order. -/
theorem inv_acquire (hinv : Inv h) (hspares : Spares h (.acquire now)) :
    Inv (next h (.acquire now) (acquire h.throttle now h.acquired)) := by
  obtain ⟨hdrains, hrecovers, hfilled, hordered⟩ := hinv
  have hrefilled := filled_refill hfilled now
  unfold acquire
  dsimp only
  by_cases hgrant : (refill h.throttle now).penalized = false ∧ hasToken (refill h.throttle now).bucket = true
  · have hnone : h.throttle.queue = [] := hspares hgrant.1 hgrant.2
    rw [if_pos hgrant]
    refine ⟨hdrains, hrecovers, filled_takeToken hrefilled hgrant.2, ?_⟩
    change (h.granted ++ [h.acquired]) ++ h.throttle.queue = List.range (h.acquired + 1)
    rw [hnone, List.append_nil] at hordered ⊢
    rw [hordered, List.range_succ]
  · rw [if_neg hgrant]
    refine inv_scheduleDrain ?_ hrefilled ?_
    · exact hrecovers
    change (h.granted ++ []) ++ (h.throttle.queue ++ [h.acquired]) = List.range (h.acquired + 1)
    rw [List.append_nil, ← List.append_assoc, hordered, List.range_succ]

theorem inv_update (hinv : Inv h) {info : RateLimitInfo} (hspares : Spares h (.update now info)) :
    Inv (next h (.update now info) (update config h.throttle now info, [])) := by
  obtain ⟨hdrains, hrecovers, hfilled, hordered⟩ := hinv
  have hordered' : (h.granted ++ []) ++ h.throttle.queue = List.range (h.acquired + 0) := by
    rwa [List.append_nil, Nat.add_zero]
  unfold update
  cases hlimit : info.limit with
  | none =>
      dsimp only
      split_ifs
      · exact ⟨hdrains, hrecovers, fun b hb => absurd hb (Option.some_ne_none b).symm, hordered'⟩
      · exact ⟨hdrains, hrecovers, fun b hb => absurd hb (Option.some_ne_none b).symm, hordered'⟩
  | some limit =>
      have hnonneg := hspares limit hlimit
      have hfilled' : Filled ⟨limit, min (info.remaining.getD limit) limit, limit / max 1 (info.resetAt - now)⟩ := by
        have hlimit' : 0 ≤ limit := le_trans hnonneg (min_le_right _ _)
        have hwindow : 0 ≤ max 1 (info.resetAt - now) := le_trans zero_le_one (le_max_left _ _)
        exact ⟨hnonneg, min_le_right _ _, div_nonneg hlimit' hwindow⟩
      dsimp only
      split_ifs
      · exact ⟨hdrains, hrecovers, fun b hb => Option.some.inj hb ▸ hfilled', hordered'⟩
      · exact ⟨hdrains, hrecovers, fun b hb => Option.some.inj hb ▸ hfilled', hordered'⟩

theorem inv_recordRateLimited (hinv : Inv h) :
    Inv (next h (.recordRateLimited now) (recordRateLimited config h.throttle now, [])) where
  drains _ hfree := absurd hfree.symm Bool.false_ne_true
  recovers _ := Option.some_ne_none _
  filled := filled_refill hinv.filled now
  ordered := by
    change (h.granted ++ []) ++ h.throttle.queue = List.range (h.acquired + 0)
    rw [List.append_nil]
    exact hinv.ordered

theorem inv_recover (hinv : Inv h) : Inv (next h .penaltyFired (recover h.throttle, [])) := by
  refine inv_ite_scheduleDrain (t := { h.throttle with penaltyTimer := none, penalized := false })
    (fun hpenalized => absurd hpenalized Bool.false_ne_true) hinv.filled ?_
  change (h.granted ++ []) ++ h.throttle.queue = List.range (h.acquired + 0)
  rw [List.append_nil]
  exact hinv.ordered

theorem inv_drainQueue (hinv : Inv h) :
    Inv (next h (.drainFired now) (drainQueue { h.throttle with drainTimer := none } now)) := by
  obtain ⟨-, hrecovers, hfilled, hordered⟩ := hinv
  unfold drainQueue
  by_cases hpenalized : h.throttle.penalized = true
  · rw [if_pos hpenalized]
    refine ⟨fun _ hfree => absurd (hfree.symm.trans hpenalized) Bool.false_ne_true, hrecovers, hfilled, ?_⟩
    change (h.granted ++ []) ++ h.throttle.queue = _
    rwa [List.append_nil]
  · rw [if_neg hpenalized]
    have hrefilled := filled_refill (t := { h.throttle with drainTimer := none }) hfilled now
    dsimp only
    generalize hrefill : refill { h.throttle with drainTimer := none } now = t at hrefilled ⊢
    have hqueue : t.queue = h.throttle.queue := by rw [← hrefill]; rfl
    have hrecovers' : t.penalized = true → t.penaltyTimer ≠ none := by rw [← hrefill]; exact hrecovers
    have happend := grantLoop_append t.bucket t.queue
    have hloop := filled_grantLoop hrefilled t.queue
    generalize grantLoop t.bucket t.queue = result at happend hloop ⊢
    refine inv_ite_scheduleDrain (t := { t with bucket := result.1, queue := result.2.2 }) hrecovers' hloop ?_
    change (h.granted ++ result.2.1) ++ result.2.2 = _
    rw [List.append_assoc, happend, hqueue]
    exact hordered

theorem inv_step (hinv : Inv h) {e : Event} (hspares : Spares h e) {h' : History} (hstep : step config h e = some h') :
    Inv h' := by
  obtain ⟨result, hact, rfl⟩ := Option.map_eq_some_iff.mp hstep
  cases e with
  | acquire now =>
      obtain rfl := Option.some.inj hact
      exact inv_acquire hinv hspares
  | update now info =>
      obtain rfl := Option.some.inj hact
      exact inv_update hinv hspares
  | recordRateLimited now =>
      obtain rfl := Option.some.inj hact
      exact inv_recordRateLimited hinv
  | drainFired now =>
      obtain rfl := Option.some.inj (Option.ite_none_left_eq_some.mp hact).2
      exact inv_drainQueue hinv
  | penaltyFired =>
      obtain rfl := Option.some.inj (Option.ite_none_left_eq_some.mp hact).2
      exact inv_recover hinv

theorem granted_of_penalized (hpenalized : h.throttle.penalized = true) {e : Event} {t : AdaptiveThrottle}
    {granted : List Nat} (hact : act config h e = some (t, granted)) : granted = [] := by
  cases e with
  | acquire now =>
      have hgrant : ¬((refill h.throttle now).penalized = false ∧ hasToken (refill h.throttle now).bucket = true) :=
        fun hgrant => Bool.false_ne_true (hgrant.1.symm.trans hpenalized)
      have heq : acquire h.throttle now h.acquired = (t, granted) := Option.some.inj hact
      unfold acquire at heq
      simp only [hgrant, if_false] at heq
      exact (Prod.mk.inj heq).2.symm
  | update now info => exact (Prod.mk.inj (Option.some.inj hact)).2.symm
  | recordRateLimited now => exact (Prod.mk.inj (Option.some.inj hact)).2.symm
  | drainFired now =>
      have heq := Option.some.inj (Option.ite_none_left_eq_some.mp hact).2
      unfold drainQueue at heq
      rw [if_pos hpenalized] at heq
      exact (Prod.mk.inj heq).2.symm
  | penaltyFired =>
      have heq := Option.some.inj (Option.ite_none_left_eq_some.mp hact).2
      exact (Prod.mk.inj heq).2.symm

theorem lawful_of_spares (hinv : Inv h) {e : Event} (hspares : Spares h e) : Lawful config h e where
  fair _ hstep := (inv_step hinv hspares hstep).fair
  penalized hpenalized _ _ hact := granted_of_penalized hpenalized hact

theorem spares_of_lawful (hinv : Inv h) {e : Event} (hlawful : Lawful config h e) : Spares h e := by
  cases e with
  | acquire now =>
      intro hfree htoken
      have hgrant : (refill h.throttle now).penalized = false ∧ hasToken (refill h.throttle now).bucket = true :=
        ⟨hfree, htoken⟩
      have hordered := (hlawful.fair _ rfl).ordered
      unfold next acquire at hordered
      simp only [hgrant, and_self, if_true] at hordered
      change (h.granted ++ [h.acquired]) ++ h.throttle.queue = List.range (h.acquired + 1) at hordered
      rw [List.range_succ, ← hinv.ordered, List.append_assoc, List.append_assoc, List.append_right_inj] at hordered
      cases hqueue : h.throttle.queue with
      | nil => rfl
      | cons first queue =>
          -- the first of the queue would be the request that has just come
          rw [hqueue] at hordered
          have hmem : first ∈ List.range h.acquired := by
            rw [← hinv.ordered, hqueue]
            exact List.mem_append_right _ List.mem_cons_self
          have hsame : h.acquired = first := (List.cons.inj hordered).1
          exact absurd (List.mem_range.mp hmem) (hsame ▸ Nat.lt_irrefl _)
  | update now info =>
      intro limit hlimit
      have hbounded := (hlawful.fair _ rfl).bounded
      unfold next update at hbounded
      dsimp only at hbounded
      rw [hlimit] at hbounded
      exact (hbounded _ rfl).1
  | recordRateLimited now => trivial
  | drainFired now => trivial
  | penaltyFired => trivial

theorem lawful_iff (config : AdaptiveThrottleConfig) (h : History) (e : Event) (hinv : Inv h) :
    Lawful config h e ↔ Spares h e :=
  ⟨spares_of_lawful hinv, lawful_of_spares hinv⟩

/-- Nobody is stranded, granted too much or overtaken just when no request finds a token while others wait and no headers
leave less than nothing. -/
theorem throttle_fair_iff (config : AdaptiveThrottleConfig) (now : ℚ) (events : List Event) :
    Allowed (step config) (Lawful config) (start now) events ↔ Allowed (step config) Spares (start now) events :=
  allowed_iff (fun _ _ _ hinv hlawful hstep => inv_step hinv (spares_of_lawful hinv hlawful) hstep) (lawful_iff config)
    (start_inv now) events

/-- A request that comes when the token of a waiting one is there takes it. -/
theorem throttle_fair_fail :
    ¬∀ (config : AdaptiveThrottleConfig) (now : ℚ) (events : List Event),
      Allowed (step config) (Lawful config) (start now) events := by
  intro hall
  obtain ⟨-, hnext⟩ := hall {} 0 [.update 0 ⟨some 10, some 0, 1000⟩, .acquire 0, .acquire 100]
  obtain ⟨-, hnext⟩ := hnext _ rfl
  obtain ⟨hlawful, -⟩ := hnext _ rfl
  have hordered := (hlawful.fair _ rfl).ordered
  exact absurd hordered (by decide +kernel)

end Invariant

end SplitSdk.ThrottledGrants
