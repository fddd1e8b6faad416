import SplitSdk.Interleaving
import SplitSdk.OrderedMap
import SplitSdk.PlatformTimers

namespace SplitSdk.RateLimiting

open Numbers OrderedMap PlatformTimers

section Data

structure RateLimiterConfig where
  maxRequestsPerSecond : JsNumber
  perKeyLimit : Option JsNumber := none
  windowMs : Option JsNumber := none
  maxTrackedKeys : Option JsNumber := none

/-- An integer that is at least 1. -/
abbrev Count := {n : Nat // 1 ≤ n}

/-- A config that has passed the checks of the constructor. -/
structure Settings where
  maxTokens : {q : ℚ // 0 < q}
  perKeyLimit : Option Count
  windowMs : {q : ℚ // 1 ≤ q}
  maxKeys : Count

structure RateLimitCheck where
  allowed : Bool
  remaining : Int
  retryAfterMs : ℚ
  deriving DecidableEq

structure WindowEntry where
  windowStart : ℚ
  count : Nat
  deriving DecidableEq

abbrev RateLimitStore := OrdMap String WindowEntry

/-- Numbers are exact here. The queue is being processed as long as there is a timer, whose due time is kept. -/
structure RateLimiter where
  settings : Settings
  tokens : ℚ
  store : RateLimitStore := .empty
  lastRefillTime : ℚ
  queue : List (Option String) := []
  timer : Option ℚ := none
  now : ℚ

end Data

section Validation

def positive (message : String) : JsNumber → Except String {q : ℚ // 0 < q}
  | .finite q => if h : 0 < q then .ok ⟨q, h⟩ else .error message
  | _ => .error message

def atLeastOne (message : String) : JsNumber → Except String {q : ℚ // 1 ≤ q}
  | .finite q => if h : 1 ≤ q then .ok ⟨q, h⟩ else .error message
  | _ => .error message

def count (message : String) : JsNumber → Except String Count
  | .finite q => if h : q.den = 1 ∧ 1 ≤ q.num.toNat then .ok ⟨q.num.toNat, h.2⟩ else .error message
  | _ => .error message

/-- The checks of the constructors, of the limiter first and then of its store. -/
def RateLimiterConfig.validate (config : RateLimiterConfig) : Except String Settings := do
  let maxTokens ← positive "maxRequestsPerSecond must be a positive finite number" config.maxRequestsPerSecond
  let perKeyLimit ← config.perKeyLimit.mapM (count "perKeyLimit must be an integer of at least 1")
  let windowMs ← atLeastOne "windowMs must be a finite number of at least 1" (config.windowMs.getD (.finite 1000))
  let maxKeys ← count "maxKeys must be an integer of at least 1" (config.maxTrackedKeys.getD (.finite 10000))
  return ⟨maxTokens, perKeyLimit, windowMs, maxKeys⟩

theorem count_natCast (message : String) (n : Count) : count message (.finite n.1) = .ok n := by
  have hvalid : (n.1 : ℚ).den = 1 ∧ 1 ≤ (n.1 : ℚ).num.toNat := ⟨rfl, n.2⟩
  exact dif_pos hvalid

/-- Every settings value is that of a config. -/
theorem exists_config (settings : Settings) : ∃ config : RateLimiterConfig, config.validate = .ok settings := by
  obtain ⟨maxTokens, perKeyLimit, windowMs, maxKeys⟩ := settings
  have htokens (message : String) : positive message (.finite maxTokens) = .ok maxTokens := dif_pos maxTokens.2
  have hwindow (message : String) : atLeastOne message (.finite windowMs) = .ok windowMs := dif_pos windowMs.2
  refine ⟨⟨.finite maxTokens, perKeyLimit.map (fun limit => .finite limit.1), some (.finite windowMs), some (.finite maxKeys.1)⟩,
    ?_⟩
  unfold RateLimiterConfig.validate
  cases perKeyLimit with
  | none => simp [htokens, hwindow, count_natCast, bind, Except.bind, pure, Except.pure]
  | some limit => simp [htokens, hwindow, count_natCast, bind, Except.bind, pure, Except.pure]

end Validation

section Store

/-- The oldest entries are deleted while there is no room for another one. -/
def makeRoom (maxKeys : Nat) : List (String × WindowEntry) → List (String × WindowEntry)
  | [] => []
  | oldest :: entries => if maxKeys ≤ entries.length + 1 then makeRoom maxKeys entries else oldest :: entries

theorem makeRoom_sublist (maxKeys : Nat) (entries : List (String × WindowEntry)) :
    (makeRoom maxKeys entries).Sublist entries := by
  induction entries with
  | nil => exact .refl _
  | cons oldest entries ih =>
      rw [makeRoom]
      split_ifs
      · exact ih.cons oldest
      · exact .refl _

namespace RateLimitStore

variable (store : RateLimitStore) (settings : Settings) (key : String) (now : ℚ)

def evictOldest : RateLimitStore :=
  ⟨makeRoom settings.maxKeys store.entries, store.nodup.sublist ((makeRoom_sublist settings.maxKeys store.entries).map _)⟩

/-- An entry starts a new window when its window has elapsed. -/
def rolled (entry : WindowEntry) : WindowEntry :=
  if settings.windowMs ≤ now - entry.windowStart then ⟨now, 0⟩ else entry

/-- The entry of the key, as the most recently used one. -/
def touch : WindowEntry × RateLimitStore :=
  match store.get? key with
  | some entry => (rolled settings now entry, (store.delete key).set key (rolled settings now entry))
  | none => (⟨now, 0⟩, (store.evictOldest settings).set key ⟨now, 0⟩)

def evaluate (limit : Nat) (take : Bool) : RateLimitCheck × RateLimitStore :=
  let (entry, store) := store.touch settings key now
  if limit ≤ entry.count then (⟨false, 0, entry.windowStart + settings.windowMs - now⟩, store)
  else if take then (⟨true, limit - entry.count - 1, 0⟩, store.set key { entry with count := entry.count + 1 })
  else (⟨true, limit - entry.count, 0⟩, store)

end RateLimitStore

end Store

section Limiter

namespace RateLimiter

variable (l : RateLimiter)

def refill : RateLimiter :=
  let elapsed := l.now - l.lastRefillTime
  if l.settings.windowMs ≤ elapsed then
    let periods : Int := ⌊elapsed / l.settings.windowMs⌋
    { l with
      tokens := min l.settings.maxTokens (l.tokens + periods * l.settings.maxTokens)
      lastRefillTime := l.lastRefillTime + periods * l.settings.windowMs }
  else l

def msUntilRefill : ℚ := max 0 (l.settings.windowMs - (l.now - l.lastRefillTime))

/-- The limit of a key, unless the key is empty. -/
def keyLimit (key : Option String) : Option (String × Nat) :=
  (key.filter (fun key => key ≠ "")).bind (fun key => l.settings.perKeyLimit.map (fun limit => (key, limit.1)))

def evaluate (key : Option String) (consume : Bool) : RateLimitCheck × RateLimiter :=
  let l := l.refill
  if l.tokens ≤ 0 then (⟨false, 0, l.msUntilRefill⟩, l)
  else
    let taken := if consume then l.tokens - 1 else l.tokens
    match l.keyLimit key with
    | some (key, limit) =>
        let (keyResult, store) := l.store.evaluate l.settings key l.now limit consume
        if keyResult.allowed = false then (⟨false, 0, keyResult.retryAfterMs⟩, { l with store })
        else (⟨true, min ⌊taken⌋ keyResult.remaining, 0⟩, { l with store, tokens := taken })
    | none => (⟨true, ⌊taken⌋, 0⟩, { l with tokens := taken })

def check (key : Option String) : RateLimitCheck × RateLimiter := l.evaluate key false

def tryAcquire (key : Option String) : RateLimitCheck × RateLimiter := l.evaluate key true

/-- `_processQueue` up to the timer. -/
def processQueue : RateLimiter :=
  { l with timer := some (l.now + effectiveDelay (.finite l.msUntilRefill)) }

/-- Whether the slot is granted at once. -/
def acquire (key : Option String) : Bool × RateLimiter :=
  let (result, l) := l.evaluate key true
  if result.allowed then (true, l)
  else
    let l := { l with queue := l.queue ++ [key] }
    (false, if l.timer = none then l.processQueue else l)

/-- The loop over the queue: the keys that are granted, and those that are left. -/
def drain (l : RateLimiter) : List (Option String) → List (Option String) × List (Option String) × RateLimiter
  | [] => ([], [], l)
  | key :: keys =>
      let (result, l) := l.evaluate key true
      let (granted, left, l) := l.drain keys
      if result.allowed then (key :: granted, left, l) else (granted, key :: left, l)

/-- The callback of the timer. -/
def processTimer : List (Option String) × RateLimiter :=
  let (granted, left, l) := l.refill.drain l.queue
  let l := { l with queue := left, timer := none }
  (granted, if left = [] then l else l.processQueue)

end RateLimiter

def create (settings : Settings) (now : ℚ) : RateLimiter :=
  { settings, tokens := settings.maxTokens, lastRefillTime := now, now }

inductive Event
  | elapse (ms : ℚ)
  | check (key : Option String)
  | tryAcquire (key : Option String)
  | acquire (key : Option String)
  | timer
  deriving DecidableEq

def step (l : RateLimiter) : Event → Option RateLimiter
  | .elapse ms => if 0 ≤ ms then some { l with now := l.now + ms } else none
  | .check key => some (l.check key).2
  | .tryAcquire key => some (l.tryAcquire key).2
  | .acquire key => some (l.acquire key).2
  | .timer => if l.timer.any (fun due => due ≤ l.now) then some l.processTimer.2 else none

end Limiter

section Touching

variable (store : RateLimitStore) (settings : Settings) {key k : String} (now : ℚ)

open RateLimitStore

theorem get?_evictOldest (key : String) :
    (store.evictOldest settings).get? key = store.get? key ∨ (store.evictOldest settings).get? key = none := by
  cases hget : (store.evictOldest settings).get? key with
  | none => exact .inr rfl
  | some entry =>
      have hmem := (makeRoom_sublist settings.maxKeys store.entries).subset (OrdMap.get?_eq_some_iff.mp hget)
      exact .inl (OrdMap.get?_eq_some_iff.mpr hmem).symm

variable (key) in
theorem get?_touch_self : (store.touch settings key now).2.get? key = some (store.touch settings key now).1 := by
  unfold touch
  split <;> rw [OrdMap.get?_set, if_pos rfl]

/-- Another key keeps its entry or is evicted. -/
theorem get?_touch_of_ne (hk : k ≠ key) :
    (store.touch settings key now).2.get? k = store.get? k ∨ (store.touch settings key now).2.get? k = none := by
  unfold touch
  split
  · rw [OrdMap.get?_set, if_neg hk, OrdMap.get?_delete, if_neg hk]
    exact .inl rfl
  · rw [OrdMap.get?_set, if_neg hk]
    exact get?_evictOldest store settings k

theorem touch_of_some {entry : WindowEntry} (h : store.get? key = some entry) :
    (store.touch settings key now).1 = rolled settings now entry := by
  unfold touch
  rw [h]

theorem touch_of_none (h : store.get? key = none) : (store.touch settings key now).1 = ⟨now, 0⟩ := by
  unfold touch
  rw [h]

variable (key) in
/-- The window of an entry that was touched has not elapsed. -/
theorem lt_touch : now - (store.touch settings key now).1.windowStart < settings.windowMs := by
  have hpos : (0 : ℚ) < settings.windowMs := zero_lt_one.trans_le settings.windowMs.2
  cases hget : store.get? key with
  | none =>
      rw [touch_of_none store settings now hget]
      simpa using hpos
  | some entry =>
      rw [touch_of_some store settings now hget]
      unfold rolled
      split_ifs with hover
      · simpa using hpos
      · exact not_le.mp hover

end Touching

section Evaluation

variable (l : RateLimiter) (key : Option String) (consume : Bool)

def taken : ℚ := if consume then l.tokens - 1 else l.tokens

/-- The store after the entry of a key was touched, and a unit of it was taken. -/
def charged (k : String) : RateLimitStore :=
  let (entry, store) := l.store.touch l.settings k l.now
  if consume then store.set k { entry with count := entry.count + 1 } else store

variable {l key} in
theorem keyLimit_eq_some {k : String} {limit : Nat} (h : l.keyLimit key = some (k, limit)) :
    key = some k ∧ k ≠ "" ∧ ∃ c ∈ l.settings.perKeyLimit, c.1 = limit := by
  obtain ⟨k', hk', hlimit⟩ := Option.bind_eq_some_iff.mp h
  obtain ⟨c, hc, heq⟩ := Option.map_eq_some_iff.mp hlimit
  obtain ⟨hkey, hne⟩ := Option.filter_eq_some_iff.mp hk'
  cases heq
  exact ⟨hkey, of_decide_eq_true hne, c, hc, rfl⟩

variable {l} in
theorem keyLimit_eq_none {k : String} (h : l.keyLimit (some k) = none) : l.settings.perKeyLimit = none ∨ k = "" := by
  by_cases hk : k = ""
  · exact .inr hk
  · simpa [RateLimiter.keyLimit, Option.filter, hk] using h

theorem refill_eq : ∃ tokens lastRefillTime, l.refill = { l with tokens, lastRefillTime } := by
  unfold RateLimiter.refill
  dsimp only
  split_ifs <;> exact ⟨_, _, rfl⟩

@[simp] theorem refill_settings : l.refill.settings = l.settings := by
  obtain ⟨tokens, lastRefillTime, h⟩ := refill_eq l
  rw [h]

@[simp] theorem refill_store : l.refill.store = l.store := by
  obtain ⟨tokens, lastRefillTime, h⟩ := refill_eq l
  rw [h]

@[simp] theorem refill_now : l.refill.now = l.now := by
  obtain ⟨tokens, lastRefillTime, h⟩ := refill_eq l
  rw [h]

@[simp] theorem refill_queue : l.refill.queue = l.queue := by
  obtain ⟨tokens, lastRefillTime, h⟩ := refill_eq l
  rw [h]

theorem get?_charged_self (k : String) : (charged l consume k).get? k =
    some (if consume then
        { (l.store.touch l.settings k l.now).1 with count := (l.store.touch l.settings k l.now).1.count + 1 }
      else (l.store.touch l.settings k l.now).1) := by
  unfold charged
  dsimp only
  split_ifs
  · rw [OrdMap.get?_set, if_pos rfl]
  · exact get?_touch_self _ _ _ _

theorem get?_charged_of_ne {k k' : String} (hk : k ≠ k') :
    (charged l consume k').get? k = l.store.get? k ∨ (charged l consume k').get? k = none := by
  have htouch := get?_touch_of_ne l.store l.settings l.now hk
  unfold charged
  dsimp only
  split_ifs
  · rwa [OrdMap.get?_set, if_neg hk]
  · exact htouch

/-- What a limiter that was refilled answers. -/
inductive Evaluated : RateLimitCheck × RateLimiter → Prop
  | exhausted (htokens : l.tokens ≤ 0) : Evaluated (⟨false, 0, l.msUntilRefill⟩, l)
  | free (htokens : 0 < l.tokens) (hkey : l.keyLimit key = none) :
      Evaluated (⟨true, ⌊taken l consume⌋, 0⟩, { l with tokens := taken l consume })
  | full (htokens : 0 < l.tokens) {k : String} {limit : Nat} (hkey : l.keyLimit key = some (k, limit))
      (hfull : limit ≤ (l.store.touch l.settings k l.now).1.count) (retryAfterMs : ℚ) :
      Evaluated (⟨false, 0, retryAfterMs⟩, { l with store := (l.store.touch l.settings k l.now).2 })
  | admitted (htokens : 0 < l.tokens) {k : String} {limit : Nat} (hkey : l.keyLimit key = some (k, limit))
      (hroom : (l.store.touch l.settings k l.now).1.count < limit) :
      Evaluated
        (⟨true, min ⌊taken l consume⌋ (limit - (l.store.touch l.settings k l.now).1.count - if consume then 1 else 0), 0⟩,
          { l with store := charged l consume k, tokens := taken l consume })

theorem evaluate_full {k : String} {limit : Nat} (hfull : limit ≤ (l.store.touch l.settings k l.now).1.count) :
    ∃ retryAfterMs, l.store.evaluate l.settings k l.now limit consume =
      (⟨false, 0, retryAfterMs⟩, (l.store.touch l.settings k l.now).2) :=
  ⟨_, if_pos hfull⟩

theorem evaluate_room {k : String} {limit : Nat} (hroom : (l.store.touch l.settings k l.now).1.count < limit) :
    l.store.evaluate l.settings k l.now limit consume =
      (⟨true, limit - (l.store.touch l.settings k l.now).1.count - if consume then 1 else 0, 0⟩, charged l consume k) := by
  unfold RateLimitStore.evaluate charged
  dsimp only
  rw [if_neg (not_le.mpr hroom)]
  cases consume with
  | false => simp
  | true => simp

theorem evaluated : Evaluated l.refill key consume (l.evaluate key consume) := by
  unfold RateLimiter.evaluate
  dsimp only
  generalize l.refill = l
  by_cases htokens : l.tokens ≤ 0
  · rw [if_pos htokens]
    exact .exhausted htokens
  · rw [if_neg htokens]
    cases hkey : l.keyLimit key with
    | none => exact .free (not_le.mp htokens) hkey
    | some bound =>
        obtain ⟨k, limit⟩ := bound
        dsimp only
        rcases Nat.lt_or_ge (l.store.touch l.settings k l.now).1.count limit with hroom | hfull
        · rw [evaluate_room l consume hroom]
          exact .admitted (not_le.mp htokens) hkey hroom
        · obtain ⟨retryAfterMs, hdenied⟩ := evaluate_full l consume hfull
          rw [hdenied]
          exact .full (not_le.mp htokens) hkey hfull retryAfterMs

end Evaluation

end SplitSdk.RateLimiting
