import SplitSdk.Interleaving
import SplitSdk.PlatformTimers

namespace SplitSdk.ResilienceBreaker

open Numbers PlatformTimers

section Data

inductive CircuitState
  | closed
  | opened
  | halfOpen
  deriving DecidableEq

structure CircuitBreakerOptions where
  failureThreshold : JsNumber := .finite 5
  successThreshold : JsNumber := .finite 1
  openDurationMs : JsNumber := .finite 30000
  halfOpenProbeTimeoutMs : JsNumber := .finite 5000
  halfOpenProbeCount : JsNumber := .finite 1

structure CircuitBreaker where
  options : CircuitBreakerOptions
  state : CircuitState := .closed
  failureCount : Nat := 0
  successCount : Nat := 0
  lastFailureAt : ℚ := 0
  lastTransitionAt : ℚ := 0
  halfOpenProbesInFlight : Int := 0

inductive Reason
  | circuitOpen
  | probeLimitReached

/-- A call of `execute` that was let through. -/
structure Call where
  probe : Bool
  startedAt : ℚ
  settled : Bool := false
  deriving DecidableEq

/-- The breaker and all calls that were ever let through it. -/
structure System where
  breaker : CircuitBreaker
  calls : List Call := []
  now : ℚ := 0

end Data

section Operations

namespace CircuitBreaker

def transition (b : CircuitBreaker) (dateNow : ℚ) (next : CircuitState) : CircuitBreaker :=
  if b.state = next then b else { b with state := next, lastTransitionAt := dateNow }

def maybeExpireOpenState (b : CircuitBreaker) (dateNow : ℚ) : CircuitBreaker :=
  if b.state ≠ .opened then b
  else if b.options.openDurationMs.le (.finite (dateNow - b.lastFailureAt)) then
    { b with successCount := 0 }.transition dateNow .halfOpen
  else b

def onSuccess (b : CircuitBreaker) (dateNow : ℚ) : CircuitBreaker :=
  if b.state = .halfOpen then
    let b := { b with successCount := b.successCount + 1 }
    if b.options.successThreshold.le (.finite b.successCount) then
      { b with failureCount := 0, successCount := 0 }.transition dateNow .closed
    else b
  else { b with failureCount := 0 }

def onFailure (b : CircuitBreaker) (dateNow : ℚ) : CircuitBreaker :=
  let b := { b with lastFailureAt := dateNow }
  if b.state = .halfOpen then { b with successCount := 0 }.transition dateNow .opened
  else
    let b := { b with failureCount := b.failureCount + 1 }
    if b.options.failureThreshold.le (.finite b.failureCount) then b.transition dateNow .opened else b

def reset (b : CircuitBreaker) (dateNow : ℚ) : CircuitBreaker :=
  { b.transition dateNow .closed with failureCount := 0, successCount := 0, halfOpenProbesInFlight := 0 }

/-- `execute` up to the call of `fn`: why the call is rejected, or whether it is a probe. -/
def execute (b : CircuitBreaker) (dateNow : ℚ) : Except Reason Bool × CircuitBreaker :=
  let b := b.maybeExpireOpenState dateNow
  match b.state with
  | .opened => (.error .circuitOpen, b)
  | .halfOpen =>
      if b.options.halfOpenProbeCount.le (.finite b.halfOpenProbesInFlight) then (.error .probeLimitReached, b)
      else (.ok true, { b with halfOpenProbesInFlight := b.halfOpenProbesInFlight + 1 })
  | .closed => (.ok false, b)

/-- `execute` after `fn` has settled. -/
def settle (b : CircuitBreaker) (dateNow : ℚ) (probe succeeded : Bool) : CircuitBreaker :=
  let b := if succeeded then b.onSuccess dateNow else b.onFailure dateNow
  if probe then { b with halfOpenProbesInFlight := b.halfOpenProbesInFlight - 1 } else b

end CircuitBreaker

inductive Event
  | elapse (ms : ℚ)
  | execute
  | settle (call : Nat) (succeeded : Bool)
  | timeout (call : Nat)
  | reset

namespace System

def execute (s : System) : System :=
  match s.breaker.execute s.now with
  | (.error _, breaker) => { s with breaker }
  | (.ok probe, breaker) => { s with breaker, calls := s.calls ++ [⟨probe, s.now, false⟩] }

def settle (s : System) (i : Nat) (call : Call) (succeeded : Bool) : System :=
  { s with
    breaker := s.breaker.settle s.now call.probe succeeded
    calls := s.calls.set i { call with settled := true } }

/-- The call, unless its promise has been settled. -/
def running (s : System) (i : Nat) : Option Call := s.calls[i]?.filter (fun call => !call.settled)

/-- The timer of a probe is due. -/
def isDue (s : System) (call : Call) : Bool :=
  call.probe && decide (call.startedAt + effectiveDelay s.breaker.options.halfOpenProbeTimeoutMs ≤ s.now)

end System

def step (s : System) : Event → Option System
  | .elapse ms => if 0 ≤ ms then some { s with now := s.now + ms } else none
  | .execute => some s.execute
  | .settle i succeeded => (s.running i).map (fun call => s.settle i call succeeded)
  | .timeout i => ((s.running i).filter s.isDue).map (fun call => s.settle i call false)
  | .reset => some { s with breaker := s.breaker.reset s.now }

def start (options : CircuitBreakerOptions) : System := { breaker := { options } }

end Operations

section Breaker

variable (b : CircuitBreaker) (dateNow : ℚ)

theorem transition_options (next : CircuitState) : (b.transition dateNow next).options = b.options := by
  unfold CircuitBreaker.transition
  split_ifs <;> rfl

theorem transition_probes (next : CircuitState) :
    (b.transition dateNow next).halfOpenProbesInFlight = b.halfOpenProbesInFlight := by
  unfold CircuitBreaker.transition
  split_ifs <;> rfl

theorem maybeExpireOpenState_options : (b.maybeExpireOpenState dateNow).options = b.options := by
  unfold CircuitBreaker.maybeExpireOpenState
  split_ifs
  · rfl
  · exact transition_options _ _ _
  · rfl

theorem maybeExpireOpenState_probes :
    (b.maybeExpireOpenState dateNow).halfOpenProbesInFlight = b.halfOpenProbesInFlight := by
  unfold CircuitBreaker.maybeExpireOpenState
  split_ifs
  · rfl
  · exact transition_probes _ _ _
  · rfl

theorem settle_options (probe succeeded : Bool) : (b.settle dateNow probe succeeded).options = b.options := by
  unfold CircuitBreaker.settle CircuitBreaker.onSuccess CircuitBreaker.onFailure
  dsimp only
  split_ifs <;> first | rfl | exact transition_options _ _ _

theorem settle_probes (probe succeeded : Bool) :
    (b.settle dateNow probe succeeded).halfOpenProbesInFlight = b.halfOpenProbesInFlight - if probe then 1 else 0 := by
  have hcounted : (if succeeded then b.onSuccess dateNow else b.onFailure dateNow).halfOpenProbesInFlight =
      b.halfOpenProbesInFlight := by
    unfold CircuitBreaker.onSuccess CircuitBreaker.onFailure
    dsimp only
    split_ifs <;> first | rfl | exact transition_probes _ _ _
  unfold CircuitBreaker.settle
  cases probe with
  | false => simp [hcounted]
  | true => simp [hcounted]

end Breaker

section Execution

/-- What a call of `execute` does, after an open breaker has become half-open if it is time. -/
inductive Executed (s : System) (b : CircuitBreaker) : System → Prop
  | blocked (hstate : b.state = .opened) : Executed s b { s with breaker := b }
  | full (hstate : b.state = .halfOpen) (hfull : b.options.halfOpenProbeCount.le (.finite b.halfOpenProbesInFlight)) :
      Executed s b { s with breaker := b }
  | probing (hstate : b.state = .halfOpen)
      (hfree : b.options.halfOpenProbeCount.le (.finite b.halfOpenProbesInFlight) = false) :
      Executed s b
        { s with
          breaker := { b with halfOpenProbesInFlight := b.halfOpenProbesInFlight + 1 }
          calls := s.calls ++ [⟨true, s.now, false⟩] }
  | passed (hstate : b.state = .closed) :
      Executed s b { s with breaker := b, calls := s.calls ++ [⟨false, s.now, false⟩] }

theorem executed (s : System) : Executed s (s.breaker.maybeExpireOpenState s.now) s.execute := by
  unfold System.execute CircuitBreaker.execute
  dsimp only
  generalize s.breaker.maybeExpireOpenState s.now = b
  cases hstate : b.state with
  | opened => exact .blocked hstate
  | closed => exact .passed hstate
  | halfOpen =>
      dsimp only
      split_ifs with hfull
      · exact .full hstate hfull
      · have hprobing : Executed s b _ := .probing hstate (Bool.eq_false_iff.mpr hfull)
        rw [hstate] at hprobing
        exact hprobing

end Execution

end SplitSdk.ResilienceBreaker

namespace SplitSdk.ProbeLimit

open Interleaving Numbers ResilienceBreaker

section Statement

/-- The probes that have started and not settled. -/
def inFlight (s : System) : Nat := s.calls.countP (fun call => call.probe && !call.settled)

def limit (s : System) : JsNumber := s.breaker.options.halfOpenProbeCount

/-- The probes in flight are counted, and there are no more of them than allowed. -/
structure Held (s : System) : Prop where
  counted : s.breaker.halfOpenProbesInFlight = inFlight s
  limited : inFlight s = 0 ∨ (limit s).lt (.finite (inFlight s)) = false

/-- The breaker is reset only when no probe is in flight, and the limit does not end within a probe. -/
def CountsProbes (s : System) : Event → Prop
  | .execute =>
      (s.breaker.maybeExpireOpenState s.now).state = .halfOpen →
        (limit s).le (.finite (inFlight s)) ∨ (limit s).lt (.finite (inFlight s + 1 : Nat)) = false
  | .reset => inFlight s = 0
  | .elapse _ | .settle _ _ | .timeout _ => True

instance (s : System) : DecidablePred (CountsProbes s) := fun e => by
  unfold CountsProbes
  split <;> infer_instance

end Statement

section Steps

variable {s t : System}

theorem inFlight_push (call : Call) :
    inFlight { s with calls := s.calls ++ [call] } = inFlight s + if call.probe && !call.settled then 1 else 0 := by
  unfold inFlight
  rw [List.countP_append, List.countP_singleton]

theorem inFlight_settle {i : Nat} {call : Call} (hrunning : s.running i = some call) (succeeded : Bool) :
    inFlight (s.settle i call succeeded) + (if call.probe then 1 else 0) = inFlight s := by
  obtain ⟨hget, hunsettled⟩ := Option.filter_eq_some_iff.mp hrunning
  have hcount := countP_set (fun call => call.probe && !call.settled) (u := { call with settled := true }) hget
  simpa [hunsettled, inFlight, System.settle] using hcount

theorem Held.of_eq (hs : Held s) (hcounter : t.breaker.halfOpenProbesInFlight = s.breaker.halfOpenProbesInFlight)
    (hlimit : limit t = limit s) (hcalls : inFlight t = inFlight s) : Held t := by
  refine ⟨by rw [hcounter, hcalls]; exact hs.counted, ?_⟩
  rw [hlimit, hcalls]
  exact hs.limited

theorem held_settle (hs : Held s) {i : Nat} {call : Call} (hrunning : s.running i = some call) (succeeded : Bool) :
    Held (s.settle i call succeeded) := by
  have hfewer := inFlight_settle hrunning succeeded
  have hcounter := settle_probes s.breaker s.now call.probe succeeded
  have hlimit : limit (s.settle i call succeeded) = limit s :=
    congrArg CircuitBreakerOptions.halfOpenProbeCount (settle_options _ _ _ _)
  refine ⟨?_, ?_⟩
  · change (s.breaker.settle s.now call.probe succeeded).halfOpenProbesInFlight = _
    rw [hcounter, hs.counted, ← hfewer]
    split_ifs <;> simp
  · rw [hlimit]
    rcases hs.limited with hnone | hlimited
    · exact .inl (by omega)
    · exact .inr (JsNumber.lt_natCast_mono (by omega) hlimited)

theorem held_reset_iff : Held { s with breaker := s.breaker.reset s.now } ↔ inFlight s = 0 := by
  constructor
  · intro ht
    have hcounted : (0 : Int) = inFlight s := ht.counted
    omega
  · intro hnone
    have hcounted : (0 : Int) = inFlight s := by omega
    exact ⟨hcounted, .inl hnone⟩

theorem held_execute_iff (hs : Held s) : Held s.execute ↔ CountsProbes s .execute := by
  have hexecuted := executed s
  have hcounter := maybeExpireOpenState_probes s.breaker s.now
  have hlimit : (s.breaker.maybeExpireOpenState s.now).options.halfOpenProbeCount = limit s :=
    congrArg CircuitBreakerOptions.halfOpenProbeCount (maybeExpireOpenState_options _ _)
  unfold CountsProbes
  generalize s.breaker.maybeExpireOpenState s.now = b at hexecuted hcounter hlimit ⊢
  generalize s.execute = t at hexecuted ⊢
  have hcounted : ((b.halfOpenProbesInFlight : ℚ)) = inFlight s := by
    rw [hcounter, hs.counted]
    rfl
  cases hexecuted with
  | blocked hstate =>
      refine iff_of_true (hs.of_eq hcounter hlimit rfl) (fun hhalf => ?_)
      cases hstate.symm.trans hhalf
  | full hstate hfull =>
      rw [hlimit, hcounted] at hfull
      exact iff_of_true (hs.of_eq hcounter hlimit rfl) (fun _ => .inl hfull)
  | passed hstate =>
      refine iff_of_true (hs.of_eq hcounter hlimit (inFlight_push _)) (fun hhalf => ?_)
      cases hstate.symm.trans hhalf
  | probing hstate hfree =>
      rw [hlimit, hcounted] at hfree
      generalize hpushed : ({ s with
        breaker := { b with halfOpenProbesInFlight := b.halfOpenProbesInFlight + 1 }
        calls := s.calls ++ [⟨true, s.now, false⟩] } : System) = t
      have hmore : inFlight t = inFlight s + 1 := hpushed ▸ inFlight_push _
      have hsame : limit t = limit s := hpushed ▸ hlimit
      have hnext : t.breaker.halfOpenProbesInFlight = inFlight t := by
        rw [hmore, ← hpushed]
        dsimp only
        rw [hcounter, hs.counted]
        rfl
      constructor
      · intro ht _
        refine .inr (ht.limited.elim (fun hnone => by omega) (fun hlimited => ?_))
        rwa [hsame, hmore] at hlimited
      · intro hcounts
        refine ⟨hnext, .inr ?_⟩
        rw [hsame, hmore]
        exact (hcounts hstate).resolve_left (Bool.eq_false_iff.mp hfree)

theorem step_iff (hs : Held s) (e : Event) : (∀ t, step s e = some t → Held t) ↔ CountsProbes s e := by
  cases e with
  | elapse ms =>
      refine iff_of_true (fun t hstep => ?_) trivial
      rw [step] at hstep
      split_ifs at hstep
      cases hstep
      exact hs.of_eq rfl rfl rfl
  | settle i succeeded =>
      refine iff_of_true (fun t hstep => ?_) trivial
      obtain ⟨call, hrunning, rfl⟩ := Option.map_eq_some_iff.mp hstep
      exact held_settle hs hrunning succeeded
  | timeout i =>
      refine iff_of_true (fun t hstep => ?_) trivial
      obtain ⟨call, hdue, rfl⟩ := Option.map_eq_some_iff.mp hstep
      exact held_settle hs (Option.filter_eq_some_iff.mp hdue).1 false
  | reset => exact (forall_next_iff rfl).trans held_reset_iff
  | execute => exact (forall_next_iff rfl).trans (held_execute_iff hs)

end Steps

section Main

theorem held_start (options : CircuitBreakerOptions) : Held (start options) := ⟨rfl, .inl rfl⟩

/-- The number of probes in flight is counted and limited exactly if the breaker is never reset during a probe and the
limit does not end within one. -/
theorem probe_limit_iff (options : CircuitBreakerOptions) (es : List Event) :
    Allowed step (fun s e => ∀ t, step s e = some t → Held t) (start options) es ↔
      Allowed step CountsProbes (start options) es :=
  allowed_iff (I := Held) (fun _ _ _ _ hok hstep => hok _ hstep) (fun _ e hs => step_iff hs e) (held_start options) es

/-- A limit that is a whole number does not end within a probe. -/
theorem limit_natCast (m n : Nat) :
    (JsNumber.finite m).le (.finite n) ∨ (JsNumber.finite m).lt (.finite (n + 1 : Nat)) = false := by
  rcases Nat.lt_or_ge n m with hlt | hge
  · refine .inr (decide_eq_false (not_lt.mpr ?_))
    exact_mod_cast hlt
  · exact .inl (JsNumber.le_natCast_mono hge (by simp [JsNumber.le]))

/-- A failure opens the breaker, and it is reset while the probe that follows runs. -/
def resetSchedule : List Event :=
  [.execute, .settle 0 false, .elapse 30000, .execute, .reset]

theorem probe_limit_fails :
    ∃ s t, run step (start { failureThreshold := .finite 1 }) resetSchedule = some s ∧
      s.breaker.halfOpenProbesInFlight = 0 ∧ inFlight s = 1 ∧
      step s (.settle 1 true) = some t ∧ t.breaker.halfOpenProbesInFlight = -1 ∧ inFlight t = 0 := by
  have hfacts : (run step (start { failureThreshold := .finite 1 }) resetSchedule).any (fun s =>
      (s.breaker.halfOpenProbesInFlight = 0 ∧ inFlight s = 1) ∧ (step s (.settle 1 true)).any (fun t =>
        t.breaker.halfOpenProbesInFlight = -1 ∧ inFlight t = 0)) := by
    decide +kernel
  obtain ⟨s, hrun, hs⟩ := (Option.any_eq_true _ _).mp hfacts
  obtain ⟨⟨hcounter, hinFlight⟩, hnext⟩ := of_decide_eq_true hs
  obtain ⟨t, hstep, ht⟩ := (Option.any_eq_true _ _).mp hnext
  obtain ⟨hafter, hnone⟩ := of_decide_eq_true ht
  exact ⟨s, t, hrun, hcounter, hinFlight, hstep, hafter, hnone⟩

end Main

end SplitSdk.ProbeLimit
