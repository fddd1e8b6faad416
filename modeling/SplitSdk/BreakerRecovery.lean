import SplitSdk.ResilienceBreaker

namespace SplitSdk.BreakerRecovery

open Interleaving Numbers ResilienceBreaker

section Statement

/-- A run with the half-open period in which each call was started, if there was one, the successes since the breaker
became half-open, of calls that were started since then and of others, and the failures since the last success. -/
structure History where
  system : System
  startedIn : List (Option Nat) := []
  period : Nat := 0
  own : Nat := 0
  strays : Nat := 0
  failures : Nat := 0

namespace History

def breaker (h : History) : CircuitBreaker := h.system.breaker

/-- The call was started in the present period. -/
def IsOwn (h : History) (i : Nat) : Prop := h.startedIn[i]? = some (some h.period)

instance (h : History) (i : Nat) : Decidable (h.IsOwn i) := inferInstanceAs (Decidable (_ = _))

/-- The call makes the breaker half-open. -/
def BeginsPeriod (h : History) : Prop :=
  h.breaker.state = .opened ∧ (h.breaker.maybeExpireOpenState h.system.now).state = .halfOpen

instance (h : History) : Decidable h.BeginsPeriod := inferInstanceAs (Decidable (_ ∧ _))

def observeExecute (h : History) : History :=
  let period := if h.BeginsPeriod then h.period + 1 else h.period
  { h with
    period
    own := if h.BeginsPeriod then 0 else h.own
    strays := if h.BeginsPeriod then 0 else h.strays
    startedIn :=
      match (h.breaker.execute h.system.now).1 with
      | .error _ => h.startedIn
      | .ok probe => h.startedIn ++ [if probe then some period else none] }

def observeSettle (h : History) (i : Nat) (succeeded : Bool) : History :=
  if succeeded then
    { h with
      own := if h.IsOwn i then h.own + 1 else h.own
      strays := if h.IsOwn i then h.strays else h.strays + 1
      failures := 0 }
  else { h with failures := h.failures + 1 }

def observe (h : History) : Event → History
  | .execute => h.observeExecute
  | .settle i succeeded => h.observeSettle i succeeded
  | .timeout i => h.observeSettle i false
  | .elapse _ | .reset => h

end History

/-- A step of a run without `reset`. -/
def observedStep (h : History) : Event → Option History
  | .reset => none
  | e => (step h.system e).map (fun system => { h.observe e with system })

/-- A breaker closes only after enough successes of calls that were started in the half-open period, and opens only after
enough failures with no success in between. -/
structure Lawful (h h' : History) : Prop where
  closing : h.breaker.state = .halfOpen → h'.breaker.state = .closed →
    h.breaker.options.successThreshold.le (.finite h'.own)
  opening : h.breaker.state = .closed → h'.breaker.state ≠ .closed →
    h.breaker.options.failureThreshold.le (.finite h'.failures)

/-- When a success closes the breaker, then it and all others that were counted are of calls that were started in the
half-open period. -/
def ClosesOnOwn (h : History) : Event → Prop
  | .settle i true =>
      (h.system.running i).isSome → h.breaker.state = .halfOpen →
        h.breaker.options.successThreshold.le (.finite (h.breaker.successCount + 1 : Nat)) →
          h.breaker.options.successThreshold.le (.finite (0 : Nat)) ∨ h.strays = 0 ∧ h.IsOwn i
  | _ => True

instance (h : History) : DecidablePred (ClosesOnOwn h) := fun e => by
  unfold ClosesOnOwn
  split <;> infer_instance

def begin (options : CircuitBreakerOptions) : History := { system := start options }

end Statement

section Breaker

variable (b : CircuitBreaker) (dateNow : ℚ)

theorem transition_state (next : CircuitState) : (b.transition dateNow next).state = next := by
  unfold CircuitBreaker.transition
  split_ifs with h
  · exact h
  · rfl

/-- What a success does to the breaker. -/
inductive Succeeded (b b' : CircuitBreaker) : Prop
  | closing (hstate : b.state = .halfOpen) (hreached : b.options.successThreshold.le (.finite (b.successCount + 1 : Nat)))
      (hafter : b'.state = .closed) (hfailures : b'.failureCount = 0)
  | counting (hstate : b.state = .halfOpen)
      (hshort : b.options.successThreshold.le (.finite (b.successCount + 1 : Nat)) = false) (hafter : b'.state = .halfOpen)
      (hcount : b'.successCount = b.successCount + 1)
  | clearing (hstate : b.state ≠ .halfOpen) (hafter : b'.state = b.state) (hfailures : b'.failureCount = 0)

/-- What a failure does to the breaker. -/
inductive Failed (b b' : CircuitBreaker) : Prop
  | reopening (hstate : b.state = .halfOpen) (hafter : b'.state = .opened)
  | opening (hstate : b.state ≠ .halfOpen) (hreached : b.options.failureThreshold.le (.finite (b.failureCount + 1 : Nat)))
      (hafter : b'.state = .opened)
  | counting (hstate : b.state ≠ .halfOpen) (hafter : b'.state = b.state) (hcount : b'.failureCount = b.failureCount + 1)

variable {b} in
theorem Succeeded.withProbes {b' : CircuitBreaker} (h : Succeeded b b') (probes : Int) :
    Succeeded b { b' with halfOpenProbesInFlight := probes } := by
  cases h with
  | closing hstate hreached hafter hfailures => exact .closing hstate hreached hafter hfailures
  | counting hstate hshort hafter hcount => exact .counting hstate hshort hafter hcount
  | clearing hstate hafter hfailures => exact .clearing hstate hafter hfailures

variable {b} in
theorem Failed.withProbes {b' : CircuitBreaker} (h : Failed b b') (probes : Int) :
    Failed b { b' with halfOpenProbesInFlight := probes } := by
  cases h with
  | reopening hstate hafter => exact .reopening hstate hafter
  | opening hstate hreached hafter => exact .opening hstate hreached hafter
  | counting hstate hafter hcount => exact .counting hstate hafter hcount

theorem succeeded_settle (probe : Bool) : Succeeded b (b.settle dateNow probe true) := by
  have hsuccess : Succeeded b (b.onSuccess dateNow) := by
    unfold CircuitBreaker.onSuccess
    dsimp only
    split_ifs with hstate hreached
    · refine .closing hstate hreached (transition_state _ _ _) ?_
      unfold CircuitBreaker.transition
      split_ifs <;> rfl
    · exact .counting hstate (Bool.eq_false_iff.mpr hreached) hstate rfl
    · exact .clearing hstate rfl rfl
  cases probe with
  | false => exact hsuccess
  | true => exact hsuccess.withProbes _

theorem failed_settle (probe : Bool) : Failed b (b.settle dateNow probe false) := by
  have hfailure : Failed b (b.onFailure dateNow) := by
    unfold CircuitBreaker.onFailure
    dsimp only
    split_ifs with hstate hreached
    · exact .reopening hstate (transition_state _ _ _)
    · exact .opening hstate hreached (transition_state _ _ _)
    · exact .counting hstate rfl rfl
  cases probe with
  | false => exact hfailure
  | true => exact hfailure.withProbes _

/-- What the time does to the breaker. -/
inductive Expired (b : CircuitBreaker) : CircuitBreaker → Prop
  | kept : Expired b b
  | expired (hstate : b.state = .opened) {b' : CircuitBreaker} (hafter : b'.state = .halfOpen)
      (hcount : b'.successCount = 0) : Expired b b'

theorem expired (b : CircuitBreaker) (dateNow : ℚ) : Expired b (b.maybeExpireOpenState dateNow) := by
  unfold CircuitBreaker.maybeExpireOpenState
  split_ifs with hstate hdue
  · exact .kept
  · refine .expired (not_not.mp hstate) (transition_state _ _ _) ?_
    unfold CircuitBreaker.transition
    split_ifs <;> rfl
  · exact .kept

end Breaker

section Steps

variable {h h' : History}

structure Inv (h : History) : Prop where
  counted : h.breaker.state = .halfOpen → h.breaker.successCount = h.own + h.strays
  short : h.breaker.state = .halfOpen → h.breaker.successCount = 0 ∨
    h.breaker.options.successThreshold.le (.finite h.breaker.successCount) = false
  failures : h.breaker.state = .closed → h.breaker.failureCount ≤ h.failures

/-- Enough successes are of calls of the period if there are no others, or none is needed. -/
theorem reached_iff {threshold : JsNumber} {own strays : Nat} (isOwn : Prop) [Decidable isOwn]
    (hreached : threshold.le (.finite (own + strays + 1 : Nat)))
    (hshort : own + strays = 0 ∨ threshold.le (.finite (own + strays : Nat)) = false) :
    threshold.le (.finite (if isOwn then own + 1 else own : Nat)) ↔
      threshold.le (.finite (0 : Nat)) ∨ strays = 0 ∧ isOwn := by
  constructor
  · intro hown
    by_cases honly : strays = 0 ∧ isOwn
    · exact .inr honly
    · have hfew : (if isOwn then own + 1 else own) ≤ own + strays := by
        split_ifs with hisOwn
        · have hsome : strays ≠ 0 := fun hnone => honly ⟨hnone, hisOwn⟩
          omega
        · omega
      have hle := JsNumber.le_natCast_mono hfew hown
      rcases hshort with hnone | hunreached
      · rw [hnone] at hle
        exact .inl hle
      · rw [hunreached] at hle
        cases hle
  · rintro (hnone | ⟨rfl, hisOwn⟩)
    · exact JsNumber.le_natCast_mono (Nat.zero_le _) hnone
    · rwa [if_pos hisOwn]

theorem success_iff (hi : Inv h) (hb : Succeeded h.breaker h'.breaker) {i : Nat} (hrunning : (h.system.running i).isSome)
    (hown : h'.own = if h.IsOwn i then h.own + 1 else h.own) : Lawful h h' ↔ ClosesOnOwn h (.settle i true) := by
  cases hb with
  | closing hstate hreached hafter hfailures =>
      have hcount := hi.counted hstate
      have hiff := reached_iff (h.IsOwn i) (hcount ▸ hreached) (hcount ▸ hi.short hstate)
      rw [← hown] at hiff
      constructor
      · intro hlawful _ _ _
        exact hiff.mp (hlawful.closing hstate hafter)
      · intro hcloses
        refine ⟨fun _ _ => hiff.mpr (hcloses hrunning hstate hreached), fun hclosed => ?_⟩
        cases hstate.symm.trans hclosed
  | counting hstate hshort hafter hcount =>
      refine iff_of_true ⟨fun _ hclosed => ?_, fun hclosed => ?_⟩ (fun _ _ hreached => ?_)
      · cases hafter.symm.trans hclosed
      · cases hstate.symm.trans hclosed
      · cases hshort.symm.trans hreached
  | clearing hstate hafter hfailures =>
      refine iff_of_true ⟨fun hhalf => absurd hhalf hstate, fun hclosed hleft => ?_⟩ (fun _ hhalf => absurd hhalf hstate)
      exact absurd (hafter.trans hclosed) hleft

theorem inv_success (hi : Inv h) (hb : Succeeded h.breaker h'.breaker) (hoptions : h'.breaker.options = h.breaker.options)
    (hsum : h'.own + h'.strays = h.own + h.strays + 1) : Inv h' := by
  cases hb with
  | closing hstate hreached hafter hfailures =>
      refine ⟨fun hhalf => ?_, fun hhalf => ?_, fun _ => by omega⟩
      · cases hafter.symm.trans hhalf
      · cases hafter.symm.trans hhalf
  | counting hstate hshort hafter hcount =>
      refine ⟨fun _ => ?_, fun _ => .inr ?_, fun hclosed => ?_⟩
      · rw [hcount, hi.counted hstate, hsum]
      · rw [hcount, hoptions]
        exact hshort
      · cases hafter.symm.trans hclosed
  | clearing hstate hafter hfailures =>
      exact ⟨fun hhalf => absurd (hafter.symm.trans hhalf) hstate, fun hhalf => absurd (hafter.symm.trans hhalf) hstate,
        fun _ => by omega⟩

theorem lawful_failure (hi : Inv h) (hb : Failed h.breaker h'.breaker) (hfailures : h'.failures = h.failures + 1) :
    Lawful h h' := by
  cases hb with
  | reopening hstate hafter =>
      refine ⟨fun _ hclosed => ?_, fun hclosed => ?_⟩
      · cases hafter.symm.trans hclosed
      · cases hstate.symm.trans hclosed
  | opening hstate hreached hafter =>
      refine ⟨fun hhalf => absurd hhalf hstate, fun hclosed _ => ?_⟩
      have hle := hi.failures hclosed
      exact JsNumber.le_natCast_mono (by omega) hreached
  | counting hstate hafter hcount =>
      exact ⟨fun hhalf => absurd hhalf hstate, fun hclosed hleft => absurd (hafter.trans hclosed) hleft⟩

theorem inv_failure (hi : Inv h) (hb : Failed h.breaker h'.breaker) (hfailures : h'.failures = h.failures + 1) :
    Inv h' := by
  cases hb with
  | reopening hstate hafter | opening hstate hreached hafter =>
      refine ⟨fun hhalf => ?_, fun hhalf => ?_, fun hclosed => ?_⟩
      · cases hafter.symm.trans hhalf
      · cases hafter.symm.trans hhalf
      · cases hafter.symm.trans hclosed
  | counting hstate hafter hcount =>
      refine ⟨fun hhalf => absurd (hafter.symm.trans hhalf) hstate, fun hhalf => absurd (hafter.symm.trans hhalf) hstate,
        fun hclosed => ?_⟩
      have hle := hi.failures (hafter.symm.trans hclosed)
      omega

theorem breaker_execute (s : System) : ∃ probes, s.execute.breaker =
    { s.breaker.maybeExpireOpenState s.now with halfOpenProbesInFlight := probes } := by
  have hexecuted := executed s
  generalize s.execute = t at hexecuted ⊢
  cases hexecuted <;> exact ⟨_, rfl⟩

/-- A call that starts changes the breaker only by making it half-open. -/
theorem execute_spec (hi : Inv h) (hsystem : h' = { h.observeExecute with system := h.system.execute }) :
    Lawful h h' ∧ Inv h' := by
  obtain ⟨probes, hbreaker⟩ := breaker_execute h.system
  have hafter : h'.breaker = { h.breaker.maybeExpireOpenState h.system.now with halfOpenProbesInFlight := probes } := by
    rw [hsystem]
    exact hbreaker
  have hnew : h.BeginsPeriod → h'.own = 0 ∧ h'.strays = 0 := fun hbegins =>
    ⟨hsystem ▸ if_pos hbegins, hsystem ▸ if_pos hbegins⟩
  have hsame : ¬h.BeginsPeriod → h'.own = h.own ∧ h'.strays = h.strays := fun hbegins =>
    ⟨hsystem ▸ if_neg hbegins, hsystem ▸ if_neg hbegins⟩
  have hfailures : h'.failures = h.failures := hsystem ▸ rfl
  have hexpired := expired h.breaker h.system.now
  unfold History.BeginsPeriod at hnew hsame
  generalize h.breaker.maybeExpireOpenState h.system.now = b at hafter hnew hsame hexpired
  have hstate' : h'.breaker.state = b.state := by rw [hafter]
  have hcount' : h'.breaker.successCount = b.successCount := by rw [hafter]
  cases hexpired with
  | kept =>
      obtain ⟨hown, hstrays⟩ := hsame (fun ⟨hopened, hhalf⟩ => by cases hopened.symm.trans hhalf)
      refine ⟨⟨fun hhalf hclosed => ?_, fun hclosed hleft => absurd (hstate'.trans hclosed) hleft⟩, ?_⟩
      · cases hhalf.symm.trans (hstate'.symm.trans hclosed)
      · refine ⟨fun hhalf => ?_, fun hhalf => ?_, fun hclosed => ?_⟩
        · rw [hcount', hown, hstrays]
          exact hi.counted (hstate'.symm.trans hhalf)
        · rw [hafter]
          exact hi.short (hstate'.symm.trans hhalf)
        · rw [hfailures, hafter]
          exact hi.failures (hstate'.symm.trans hclosed)
  | expired hopened hhalf hcount =>
      obtain ⟨hown, hstrays⟩ := hnew ⟨hopened, hhalf⟩
      refine ⟨⟨fun hbefore => ?_, fun hclosed => ?_⟩, ?_⟩
      · cases hopened.symm.trans hbefore
      · cases hopened.symm.trans hclosed
      · refine ⟨fun _ => ?_, fun _ => .inl (hcount'.trans hcount), fun hclosed => ?_⟩
        · rw [hcount', hcount, hown, hstrays]
        · cases hhalf.symm.trans (hstate'.symm.trans hclosed)

/-- One step keeps the counts, and keeps the law exactly if it closes the breaker on the successes of the period. -/
theorem step_spec (hi : Inv h) (e : Event) :
    ((∀ h', observedStep h e = some h' → Lawful h h') ↔ ClosesOnOwn h e) ∧
      ∀ h', observedStep h e = some h' → Inv h' := by
  have hfail (i : Nat) (call : Call) :
      Lawful h { h.observeSettle i false with system := h.system.settle i call false } ∧
        Inv { h.observeSettle i false with system := h.system.settle i call false } :=
    ⟨lawful_failure hi (failed_settle _ _ _) rfl, inv_failure hi (failed_settle _ _ _) rfl⟩
  cases e with
  | reset => exact ⟨iff_of_true (fun _ hstep => by cases hstep) trivial, fun _ hstep => by cases hstep⟩
  | elapse ms =>
      have helapsed : ∀ h', observedStep h (.elapse ms) = some h' → Lawful h h' ∧ Inv h' := by
        intro h' hstep
        obtain ⟨system, hsystem, rfl⟩ := Option.map_eq_some_iff.mp hstep
        rw [step] at hsystem
        split_ifs at hsystem
        cases hsystem
        refine ⟨⟨fun hhalf hclosed => ?_, fun hclosed hleft => absurd hclosed hleft⟩, hi.counted, hi.short, hi.failures⟩
        cases hhalf.symm.trans hclosed
      exact ⟨iff_of_true (fun h' hstep => (helapsed h' hstep).1) trivial, fun h' hstep => (helapsed h' hstep).2⟩
  | execute =>
      obtain ⟨hlawful, hinv⟩ := execute_spec hi rfl
      exact ⟨(forall_next_iff rfl).trans (iff_of_true hlawful trivial), (forall_next_iff rfl).mpr hinv⟩
  | timeout i =>
      have hsettled : ∀ h', observedStep h (.timeout i) = some h' → Lawful h h' ∧ Inv h' := by
        intro h' hstep
        obtain ⟨system, hsystem, rfl⟩ := Option.map_eq_some_iff.mp hstep
        obtain ⟨call, hdue, rfl⟩ := Option.map_eq_some_iff.mp hsystem
        exact hfail i call
      exact ⟨iff_of_true (fun h' hstep => (hsettled h' hstep).1) trivial, fun h' hstep => (hsettled h' hstep).2⟩
  | settle i succeeded =>
      cases hrunning : h.system.running i with
      | none =>
          have hstuck : observedStep h (.settle i succeeded) = none := by
            rw [observedStep, step, hrunning]
            · rfl
            · simp
          have hvacuous : ∀ P : History → Prop, ∀ h', observedStep h (.settle i succeeded) = some h' → P h' := by
            intro P h' hstep
            cases hstuck.symm.trans hstep
          refine ⟨iff_of_true (hvacuous _) ?_, hvacuous _⟩
          cases succeeded with
          | false => trivial
          | true =>
              intro hsome
              rw [hrunning] at hsome
              cases hsome
      | some call =>
          have hstep : observedStep h (.settle i succeeded) =
              some { h.observeSettle i succeeded with system := h.system.settle i call succeeded } := by
            rw [observedStep, step, hrunning]
            · rfl
            · simp
          rw [forall_next_iff hstep, forall_next_iff hstep]
          cases succeeded with
          | false => exact ⟨iff_of_true (hfail i call).1 trivial, (hfail i call).2⟩
          | true =>
              refine ⟨success_iff hi (succeeded_settle _ _ _) (by rw [hrunning]; rfl) rfl,
                inv_success hi (succeeded_settle _ _ _) (settle_options _ _ _ _) ?_⟩
              change (if h.IsOwn i then h.own + 1 else h.own) + (if h.IsOwn i then h.strays else h.strays + 1) = _
              split_ifs <;> omega

end Steps

section Main

theorem inv_begin (options : CircuitBreakerOptions) : Inv (begin options) where
  counted hhalf := by cases hhalf
  short hhalf := by cases hhalf
  failures _ := Nat.le_refl 0

/-- Every closing and every opening of the breaker is lawful exactly if it is closed by successes of calls that were
started in the half-open period. -/
theorem breaker_recovery_iff (options : CircuitBreakerOptions) (es : List Event) :
    Allowed observedStep (fun h e => ∀ h', observedStep h e = some h' → Lawful h h') (begin options) es ↔
      Allowed observedStep ClosesOnOwn (begin options) es :=
  allowed_iff (fun _ e _ hi _ hstep => (step_spec hi e).2 _ hstep) (fun _ e hi => (step_spec hi e).1)
    (inv_begin options) es

/-- Two calls start while the breaker is closed. One fails, and opens it, and the other one succeeds during the probe. -/
def straySchedule : List Event :=
  [.execute, .execute, .settle 0 false, .elapse 30000, .execute]

theorem breaker_recovery_fails :
    ∃ h h', run observedStep (begin { failureThreshold := .finite 1 }) straySchedule = some h ∧
      observedStep h (.settle 1 true) = some h' ∧ ¬Lawful h h' := by
  have hfacts : (run observedStep (begin { failureThreshold := .finite 1 }) straySchedule).any (fun h =>
      h.breaker.state = .halfOpen ∧ (observedStep h (.settle 1 true)).any (fun h' =>
        h'.breaker.state = .closed ∧ h.breaker.options.successThreshold.le (.finite h'.own) = false)) := by
    decide +kernel
  obtain ⟨h, hrun, hh⟩ := (Option.any_eq_true _ _).mp hfacts
  obtain ⟨hstate, hnext⟩ := of_decide_eq_true hh
  obtain ⟨h', hstep, hh'⟩ := (Option.any_eq_true _ _).mp hnext
  obtain ⟨hclosed, hshort⟩ := of_decide_eq_true hh'
  refine ⟨h, h', hrun, hstep, fun hlawful => ?_⟩
  cases hshort.symm.trans (hlawful.closing hstate hclosed)

end Main

end SplitSdk.BreakerRecovery
