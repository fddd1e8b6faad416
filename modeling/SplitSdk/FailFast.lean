import SplitSdk.ResilientRpc

namespace SplitSdk.FailFast

open Interleaving Numbers ResilientRpc

section Statement

def state (c : ResilientRpcClient) : CircuitBreakerState := c.circuitBreaker.state

/-- At most one request is outstanding while the breaker is half-open. -/
def OneProbe (c : ResilientRpcClient) : Prop := state c = .halfOpen → c.outstanding ≤ 1

/-- No request is sent while the breaker is open, and a half-open one lets one request be outstanding. -/
structure FailsFast (c c' : ResilientRpcClient) : Prop where
  closed : c.requests.length < c'.requests.length → state c' ≠ .opened
  single : OneProbe c'

/-- An attempt that starts as a probe is the only one, no attempt starts after a back-off while the breaker is open, and
the timer does not make the breaker half-open while several requests are outstanding. -/
def WaitsForBreaker (c : ResilientRpcClient) : Event → Prop
  | .call =>
      (c.circuitBreaker.canExecute c.now).2.state = .halfOpen →
        (JsNumber.finite (0 : Nat)).lt (maxAttempts c.retryConfig) → c.outstanding = 0
  | .wake operation =>
      ∀ attempt ∈ c.slept operation, (JsNumber.finite (attempt + 1 : Nat)).lt (maxAttempts c.retryConfig) →
        state c ≠ .opened ∧ (state c = .halfOpen → c.outstanding = 0)
  | .resetTimer => c.circuitBreaker.resetDue.any (fun due => due ≤ c.now) → state c = .opened → c.outstanding ≤ 1
  | .elapse _ | .respond _ _ _ | .respondSecondary _ _ _ | .reset => True

instance (c : ResilientRpcClient) : DecidablePred (WaitsForBreaker c) := fun e => by
  unfold WaitsForBreaker
  split <;> infer_instance

end Statement

section Breaker

variable (b : CircuitBreaker) (dateNow : ℚ)

theorem recordFailure_ne_halfOpen : (b.recordFailure dateNow).state ≠ .halfOpen := by
  unfold CircuitBreaker.recordFailure CircuitBreaker.scheduleReset
  cases hstate : b.state with
  | closed =>
      dsimp only
      split_ifs <;> simp
  | halfOpen | opened => simp

theorem recordSuccess_ne_halfOpen : b.recordSuccess.state ≠ .halfOpen := by
  unfold CircuitBreaker.recordSuccess
  dsimp only
  split_ifs with hstate
  · simp
  · exact hstate

/-- Whether a call is let through. -/
theorem canExecute_eq : (b.canExecute dateNow).1 = true ↔ (b.canExecute dateNow).2.state ≠ .opened := by
  unfold CircuitBreaker.canExecute
  cases hstate : b.state with
  | closed | halfOpen => simp [hstate]
  | opened =>
      dsimp only
      split_ifs <;> simp [hstate]

end Breaker

section Steps

variable {c c' : ResilientRpcClient}

/-- Nothing is sent, and the breaker does not become half-open. -/
structure Quiet (c c' : ResilientRpcClient) : Prop where
  requests : c'.requests.length = c.requests.length
  outstanding : c'.outstanding ≤ c.outstanding
  halfOpen : state c' = .halfOpen → state c = .halfOpen

theorem Quiet.failsFast (h : Quiet c c') (hone : OneProbe c) : FailsFast c c' where
  closed hsent := absurd hsent (by rw [h.requests]; exact Nat.lt_irrefl _)
  single hhalf := h.outstanding.trans (hone (h.halfOpen hhalf))

theorem Quiet.trans {c'' : ResilientRpcClient} (h : Quiet c c') (h' : Quiet c' c'') : Quiet c c'' :=
  ⟨h'.requests.trans h.requests, h'.outstanding.trans h.outstanding, fun hhalf => h.halfOpen (h'.halfOpen hhalf)⟩

theorem quiet_giveUp (operation : Nat) : Quiet c (c.giveUp operation) :=
  ⟨rfl, Nat.le_refl _, fun hhalf => absurd hhalf (recordFailure_ne_halfOpen _ _)⟩

theorem quiet_resume (operation attempt : Nat) (random : JsNumber) (outcome : Outcome) :
    Quiet c (c.resume operation attempt random outcome) := by
  cases outcome with
  | fulfilled => exact ⟨rfl, Nat.le_refl _, fun hhalf => absurd hhalf (recordSuccess_ne_halfOpen _)⟩
  | rejected error =>
      unfold ResilientRpcClient.resume
      dsimp only
      split_ifs
      · exact ⟨rfl, Nat.le_refl _, id⟩
      · exact quiet_giveUp operation
      · exact quiet_giveUp operation
      · exact ⟨rfl, Nat.le_refl _, id⟩

theorem quiet_answer {i : Nat} {request request' : Request} (hget : c.requests[i]? = some request)
    (hprimary : request'.primary = none → request.primary = none) (random : JsNumber) :
    Quiet c (c.answer i request' random) := by
  have hset : Quiet c { c with requests := c.requests.set i request' } := by
    refine ⟨List.length_set, ?_, id⟩
    exact countP_set_le _ hget (fun hnone => decide_eq_true (hprimary (of_decide_eq_true hnone)))
  unfold ResilientRpcClient.answer
  dsimp only
  split
  · split_ifs
    · exact hset.trans (quiet_resume _ _ _ _)
    · exact hset
  · exact hset

/-- An attempt that sends a request must not meet an open breaker, or another request at a half-open one. -/
theorem attempt_iff {d : ResilientRpcClient} (hd : d.requests = c.requests) (operation attempt : Nat) :
    FailsFast d (c.attempt operation attempt) ↔
      ((JsNumber.finite attempt).lt (maxAttempts c.retryConfig) →
        state c ≠ .opened ∧ (state c = .halfOpen → c.outstanding = 0)) := by
  unfold ResilientRpcClient.attempt
  split_ifs with hmore
  · generalize hsent : ({ c.moveTo operation (.awaiting c.requests.length attempt) with
      requests := c.requests ++ [c.invoke operation] } : ResilientRpcClient) = c'
    have hstate : state c' = state c := hsent ▸ rfl
    have hlonger : d.requests.length < c'.requests.length := by
      rw [hd, ← hsent, List.length_append]
      exact Nat.lt_succ_self _
    have houtstanding : c'.outstanding = c.outstanding + 1 := by
      rw [← hsent]
      unfold ResilientRpcClient.outstanding
      rw [List.countP_append]
      rfl
    constructor
    · intro hfast _
      refine ⟨hstate ▸ hfast.closed hlonger, fun hhalf => ?_⟩
      have hone := hfast.single (hstate.trans hhalf)
      omega
    · intro hwaits
      obtain ⟨hclosed, hnone⟩ := hwaits hmore
      refine ⟨fun _ => hstate ▸ hclosed, fun hhalf => ?_⟩
      rw [houtstanding, hnone (hstate.symm.trans hhalf)]
  · refine iff_of_true ⟨fun hsent => ?_, fun hhalf => ?_⟩ (fun hless => absurd hless hmore)
    · rw [hd] at hsent
      exact absurd hsent (Nat.lt_irrefl _)
    · exact absurd hhalf (recordFailure_ne_halfOpen _ _)

theorem call_iff : FailsFast c c.executeWithResilience ↔ WaitsForBreaker c .call := by
  have hallowed := canExecute_eq c.circuitBreaker c.now
  unfold ResilientRpcClient.executeWithResilience WaitsForBreaker
  dsimp only
  generalize c.circuitBreaker.canExecute c.now = result at hallowed ⊢
  split_ifs with hgo
  · refine Iff.trans (attempt_iff (by exact rfl) _ _) ?_
    exact ⟨fun hwaits hhalf hmore => (hwaits hmore).2 hhalf, fun hwaits hmore =>
      ⟨hallowed.mp hgo, fun hhalf => hwaits hhalf hmore⟩⟩
  · have hopened : result.2.state = .opened := not_not.mp (fun hne => hgo (hallowed.mpr hne))
    refine iff_of_true ⟨fun hsent => absurd hsent (Nat.lt_irrefl _), fun hhalf => ?_⟩ (fun hhalf => ?_)
    · cases hopened.symm.trans hhalf
    · cases hopened.symm.trans hhalf

theorem step_iff (hone : OneProbe c) (e : Event) : (∀ c', step c e = some c' → FailsFast c c') ↔ WaitsForBreaker c e := by
  cases e with
  | elapse ms =>
      refine iff_of_true (fun c' hstep => ?_) trivial
      rw [step] at hstep
      split_ifs at hstep
      cases hstep
      exact Quiet.failsFast ⟨rfl, Nat.le_refl _, id⟩ hone
  | call => exact (forall_next_iff rfl).trans call_iff
  | respond i outcome random =>
      refine iff_of_true (fun c' hstep => ?_) trivial
      obtain ⟨request, hrequest, rfl⟩ := Option.map_eq_some_iff.mp hstep
      exact (quiet_answer (Option.filter_eq_some_iff.mp hrequest).1 (by simp) random).failsFast hone
  | respondSecondary i outcome random =>
      refine iff_of_true (fun c' hstep => ?_) trivial
      obtain ⟨request, hrequest, rfl⟩ := Option.map_eq_some_iff.mp hstep
      exact Quiet.failsFast (quiet_answer (Option.filter_eq_some_iff.mp hrequest).1 (by exact id) random) hone
  | wake operation =>
      unfold WaitsForBreaker step
      dsimp only
      cases hslept : c.slept operation with
      | none => exact iff_of_true (fun c' hstep => by cases hstep) (fun attempt hmem => by cases hmem)
      | some attempt =>
          have hiff := attempt_iff (c := c) (d := c) rfl operation (attempt + 1)
          constructor
          · intro hall other hother
            cases hother
            exact hiff.mp (hall _ rfl)
          · intro hwaits c' hstep
            cases hstep
            exact hiff.mpr (hwaits attempt rfl)
  | resetTimer =>
      unfold WaitsForBreaker step
      split_ifs with hdue
      · constructor
        · intro hall _ hopened
          exact (hall _ rfl).single (if_pos hopened)
        · intro hwaits c' hstep
          cases hstep
          refine ⟨fun hsent => absurd hsent (Nat.lt_irrefl _), fun hhalf => ?_⟩
          by_cases hopened : state c = .opened
          · exact hwaits hdue hopened
          · exact hone ((if_neg hopened).symm.trans hhalf)
      · exact iff_of_true (fun c' hstep => by cases hstep) (fun hless => absurd hless hdue)
  | reset =>
      have hquiet : Quiet c { c with circuitBreaker := c.circuitBreaker.reset } :=
        ⟨rfl, Nat.le_refl _, fun hhalf => by cases hhalf⟩
      exact (forall_next_iff rfl).trans (iff_of_true (hquiet.failsFast hone) trivial)

end Steps

section Main

def start (hasSecondary : Bool) (retryConfig : RetryConfig) (config : CircuitBreakerConfig) : ResilientRpcClient :=
  { hasSecondary, retryConfig, circuitBreaker := { config } }

/-- The client fails fast in every step exactly if every attempt waits for the breaker. -/
theorem fails_fast_iff (hasSecondary : Bool) (retryConfig : RetryConfig) (config : CircuitBreakerConfig) (es : List Event) :
    Allowed step (fun c e => ∀ c', step c e = some c' → FailsFast c c') (start hasSecondary retryConfig config) es ↔
      Allowed step WaitsForBreaker (start hasSecondary retryConfig config) es :=
  allowed_iff (I := OneProbe) (fun _ _ _ _ hok hstep => (hok _ hstep).single) (fun _ e hone => step_iff hone e)
    (fun hhalf => by cases hhalf) es

/-- Two operations fail once and sleep. The first one fails again, and opens the breaker. -/
def sleepingSchedule : List Event :=
  [.call, .call, .respond 0 (.rejected (.stellarSplit "RPC_ERROR")) (.finite 0),
    .respond 1 (.rejected (.stellarSplit "RPC_ERROR")) (.finite 0), .elapse 500, .wake 0,
    .respond 2 (.rejected (.stellarSplit "RPC_ERROR")) (.finite 0)]

/-- The second operation sends its next request while the breaker is open. -/
theorem fails_fast_fails :
    ∃ c c', run step (start false { maxRetries := .finite 2, jitter := false } { failureThreshold := .finite 1 })
        sleepingSchedule = some c ∧ step c (.wake 1) = some c' ∧ ¬FailsFast c c' := by
  have hfacts : (run step (start false { maxRetries := .finite 2, jitter := false } { failureThreshold := .finite 1 })
      sleepingSchedule).any (fun c => (step c (.wake 1)).any (fun c' =>
        c.requests.length < c'.requests.length ∧ state c' = .opened)) := by
    decide +kernel
  obtain ⟨c, hrun, hc⟩ := (Option.any_eq_true _ _).mp hfacts
  obtain ⟨c', hstep, hc'⟩ := (Option.any_eq_true _ _).mp hc
  obtain ⟨hsent, hopened⟩ := of_decide_eq_true hc'
  exact ⟨c, c', hrun, hstep, fun hfast => hfast.closed hsent hopened⟩

end Main

end SplitSdk.FailFast
