import SplitSdk.RetryEngine

namespace SplitSdk.RetryCircuit

open Interleaving Numbers RetryEngine

section Statement

variable (config : RetryConfig)

/-- The attempts that matter for the circuit. -/
def isCounted : Attempt → Bool
  | .success | .failure .transient => true
  | .failure _ => false

/-- The last of these attempts, as many as are asked for, were all transient failures. -/
def Trailing (k : Nat) (past : List Attempt) : Prop := List.replicate k (.failure .transient) <:+ past.filter isCounted

structure Lawful (h : History) : Prop where
  openings : ∀ past ∈ h.openings, ∃ k : Nat, config.circuitBreakerThreshold.le (.finite k) ∧ Trailing k past
  contract : ∀ call ∈ h.calls, ∀ i, call.failures[i]? = some .contract → call.attempt = i + 1

/-- An attempt fits its call: a success comes in a call whose class is transient or while no failure is counted, a failure of a transient
call is transient, and one of a rate limited call is no contract error unless it is the last attempt. -/
def Fits (engine : Engine) (call : Call) : Outcome → Prop
  | .fulfilled => call.errorClass = some .transient ∨ engine.consecutiveTransientFailures = 0
  | .rejected error =>
      (call.errorClass = some .transient → classifyError error = .transient) ∧
        (call.errorClass = some .rateLimit → classifyError error = .contract →
          config.rateLimit.maxAttempts.le (.finite call.attempt))

def Fitting (h : History) : Event → Prop
  | .settle i _ outcome _ => ∀ call, h.calls[i]? = some call → Fits config h.engine call outcome
  | _ => True

instance (engine : Engine) (call : Call) : DecidablePred (Fits config engine call)
  | .fulfilled => inferInstanceAs (Decidable (_ ∨ _))
  | .rejected _ => inferInstanceAs (Decidable ((_ → _) ∧ (_ → _ → _)))

instance (h : History) : DecidablePred (Fitting config h)
  | .settle i _ outcome _ =>
      match hcall : h.calls[i]? with
      | none => .isTrue (fun call hsome => by cases hcall.symm.trans hsome)
      | some call => decidable_of_iff (Fits config h.engine call outcome)
          ⟨fun hfits call' hcall' => Option.some.inj (hcall.symm.trans hcall') ▸ hfits, fun hfits => hfits call hcall⟩
  | .execute _ _ _ | .query _ | .wake _ _ => .isTrue trivial

end Statement

section Trailing

variable {k : Nat} {past : List Attempt}

theorem trailing_zero (past : List Attempt) : Trailing 0 past := List.nil_suffix

theorem trailing_mono {j : Nat} (hle : j ≤ k) (h : Trailing k past) : Trailing j past := by
  refine List.IsSuffix.trans ?_ h
  rw [← Nat.sub_add_cancel hle, List.replicate_add]
  exact List.suffix_append _ _

theorem trailing_succ (h : Trailing k past) : Trailing (k + 1) (past ++ [.failure .transient]) := by
  obtain ⟨before, hbefore⟩ := h
  refine ⟨before, ?_⟩
  rw [List.filter_append, ← hbefore, List.replicate_succ', List.append_assoc]
  rfl

theorem trailing_failure (h : Trailing k past) (errorClass : ErrorClass) : Trailing k (past ++ [.failure errorClass]) := by
  cases errorClass with
  | transient => exact trailing_mono (Nat.le_succ k) (trailing_succ h)
  | rateLimit | contract =>
      unfold Trailing
      rw [List.filter_append]
      exact (List.append_nil _).symm ▸ h

end Trailing

section Calls

variable {config : RetryConfig} {engine : Engine} {call : Call} {now start : Int} {error : AttemptError} {random : ℚ × ℚ}

/-- A call that goes on has not met a contract error. -/
def CallSound (call : Call) : Prop :=
  match call.phase with
  | .attempting _ =>
      call.failures.length + 1 = call.attempt ∧ .contract ∉ call.failures ∧ call.errorClass ≠ some .contract
  | .sleeping _ => call.failures.length = call.attempt ∧ .contract ∉ call.failures ∧ call.errorClass ≠ some .contract
  | .ended _ => ∀ i, call.failures[i]? = some .contract → call.attempt = i + 1

theorem CallSound.contract (h : CallSound call) {i : Nat} (hi : call.failures[i]? = some .contract) : call.attempt = i + 1 := by
  unfold CallSound at h
  split at h
  next => exact absurd (List.mem_of_getElem? hi) h.2.1
  next => exact absurd (List.mem_of_getElem? hi) h.2.1
  next => exact h i hi

theorem isCircuitOpen_count (config : RetryConfig) (engine : Engine) (now : Int) :
    (isCircuitOpen config engine now).2.consecutiveTransientFailures ≤ engine.consecutiveTransientFailures := by
  unfold isCircuitOpen
  split
  next => exact le_refl _
  next =>
    split_ifs
    · exact Nat.zero_le _
    · exact le_refl _

theorem execute_spec (config : RetryConfig) (engine : Engine) (now : Int) (methodName : String) (start : Int) :
    CallSound (execute config engine now methodName start).1 ∧
      (execute config engine now methodName start).2 = (isCircuitOpen config engine now).2 := by
  unfold execute
  rcases isCircuitOpen config engine now with ⟨_ | _, engine⟩
  · exact ⟨⟨rfl, List.not_mem_nil, fun hclass => (by cases hclass)⟩, rfl⟩
  · exact ⟨fun i hi => (by cases hi), rfl⟩

theorem succeed_sound (engine : Engine) (now start : Int) (hcall : CallSound call) : CallSound (succeed engine now call start).1 := fun _ hi => hcall.contract hi

theorem succeed_count (hfits : Fits config engine call .fulfilled) :
    (succeed engine now call start).2.consecutiveTransientFailures = 0 := by
  unfold succeed
  dsimp only
  split_ifs with htransient
  · rfl
  · exact hfits.resolve_left htransient

theorem fail_engine (config : RetryConfig) (engine : Engine) (now : Int) (call : Call) (start : Int) (error : AttemptError)
    (random : ℚ × ℚ) :
    (fail config engine now call start error random).2.2.consecutiveTransientFailures =
      (countFailure engine (call.errorClass.getD (classifyError error))).consecutiveTransientFailures := by
  have hrecord : (countFailure (recordMethod engine call.methodName false (now - start))
      (call.errorClass.getD (classifyError error))).consecutiveTransientFailures =
      (countFailure engine (call.errorClass.getD (classifyError error))).consecutiveTransientFailures := by
    unfold countFailure
    split_ifs <;> rfl
  rw [← hrecord]
  unfold fail
  dsimp only
  split_ifs <;> rfl

theorem fail_opened (hopened : (fail config engine now call start error random).1 = true) :
    config.circuitBreakerThreshold.le
      (.finite ((fail config engine now call start error random).2.2.consecutiveTransientFailures : Nat)) := by
  unfold fail at hopened ⊢
  dsimp only at hopened ⊢
  split_ifs at hopened ⊢ with hopens hlast
  exact hopens.2

/-- With an attempt that fits, what is counted is a transient failure. -/
theorem transient_of_fits (hfits : Fits config engine call (.rejected error))
    (htransient : call.errorClass.getD (classifyError error) = .transient) : classifyError error = .transient := by
  cases hclass : call.errorClass with
  | none =>
      rw [hclass] at htransient
      exact htransient
  | some errorClass =>
      rw [hclass] at htransient
      exact hfits.1 (hclass.trans (congrArg some htransient))

theorem fail_trailing (now start : Int) (random : ℚ × ℚ) (hfits : Fits config engine call (.rejected error)) {past : List Attempt}
    (h : Trailing engine.consecutiveTransientFailures past) :
    Trailing (fail config engine now call start error random).2.2.consecutiveTransientFailures
      (past ++ [.failure (classifyError error)]) := by
  rw [fail_engine]
  unfold countFailure
  split_ifs with htransient
  · rw [transient_of_fits hfits htransient]
    exact trailing_succ h
  · exact trailing_failure h _

theorem getElem?_failures {errorClass : ErrorClass} {i : Nat} (hfree : .contract ∉ call.failures)
    (hi : (call.failures ++ [errorClass])[i]? = some .contract) : i = call.failures.length := by
  rcases of_getElem?_push hi with ⟨hi, -⟩ | hold
  · exact hi
  · exact absurd (List.mem_of_getElem? hold) hfree

/-- A contract error ends the call. -/
theorem not_contract_of_sleeping (hfits : Fits config engine call (.rejected error)) (hclass : call.errorClass ≠ some .contract)
    (hlast : ¬ (call.errorClass.getD (classifyError error) = .contract ∨
      (config.strategy (call.errorClass.getD (classifyError error))).maxAttempts.le (.finite call.attempt))) :
    classifyError error ≠ .contract := by
  intro hcontract
  obtain ⟨hcontract', hattempts⟩ := not_or.mp hlast
  cases herror : call.errorClass with
  | none =>
      rw [herror] at hcontract'
      exact hcontract' hcontract
  | some errorClass =>
      cases errorClass with
      | transient => cases hcontract.symm.trans (hfits.1 herror)
      | rateLimit =>
          rw [herror] at hattempts
          exact hattempts (hfits.2 herror hcontract)
      | contract => exact hclass herror

theorem fail_sound (hstart : call.phase = .attempting start) (hcall : CallSound call)
    (hfits : Fits config engine call (.rejected error)) :
    CallSound (fail config engine now call start error random).2.1 := by
  simp only [CallSound, hstart] at hcall
  obtain ⟨hattempt, hfree, hclass⟩ := hcall
  have hended (i : Nat) (hi : (call.failures ++ [classifyError error])[i]? = some .contract) : call.attempt = i + 1 := by
    rw [getElem?_failures hfree hi]
    exact hattempt.symm
  unfold fail
  dsimp only
  split_ifs with hopens hlast
  · exact hended
  · exact hended
  · have hcontract := not_contract_of_sleeping hfits hclass hlast
    refine ⟨List.length_append.trans hattempt, fun hmem => ?_, fun hsome => ?_⟩
    · rcases List.mem_append.mp hmem with hold | hnew
      · exact hfree hold
      · exact hcontract (List.mem_singleton.mp hnew).symm
    · exact hlast (.inl (Option.some.inj hsome))

end Calls

section Runs

variable {config : RetryConfig} {h t : History}

structure Sound (config : RetryConfig) (h : History) : Prop where
  trailing : Trailing h.engine.consecutiveTransientFailures h.attempts
  openings : ∀ past ∈ h.openings, ∃ k : Nat, config.circuitBreakerThreshold.le (.finite k) ∧ Trailing k past
  calls : ∀ call ∈ h.calls, CallSound call

theorem settle_sound (hsound : Sound config h) {i : Nat} {call : Call} {start now : Int} {random : ℚ × ℚ} {outcome : Outcome}
    (hcall : h.calls[i]? = some call) (hstart : call.phase = .attempting start) (hfits : Fits config h.engine call outcome) :
    Sound config (settle config h i call start now random outcome) := by
  have hcallSound := hsound.calls call (List.mem_of_getElem? hcall)
  cases outcome with
  | fulfilled =>
      refine ⟨?_, hsound.openings, forall_mem_set hsound.calls (succeed_sound h.engine now start hcallSound)⟩
      change Trailing (succeed h.engine now call start).2.consecutiveTransientFailures _
      rw [succeed_count hfits]
      exact trailing_zero _
  | rejected error =>
      have htrailing := fail_trailing now start random hfits hsound.trailing
      refine ⟨htrailing, fun past hpast => ?_, forall_mem_set hsound.calls (fail_sound hstart hcallSound hfits)⟩
      cases hopened : (fail config h.engine now call start error random).1 with
      | false => exact hsound.openings past (by simpa only [settle, hopened, if_false, Bool.false_eq_true] using hpast)
      | true =>
          simp only [settle, hopened, if_true] at hpast
          rcases List.mem_append.mp hpast with hold | hnew
          · exact hsound.openings past hold
          · obtain rfl := List.mem_singleton.mp hnew
            exact ⟨_, fail_opened hopened, htrailing⟩

theorem step_sound {e : Event} (hsound : Sound config h) (hfits : Fitting config h e) (hstep : step config h e = some t) :
    Sound config t := by
  cases e with
  | execute methodName now start =>
      obtain ⟨hcall, hengine⟩ := execute_spec config h.engine now methodName start
      change some { h with
        engine := (execute config h.engine now methodName start).2
        calls := h.calls ++ [(execute config h.engine now methodName start).1] } = some t at hstep
      generalize execute config h.engine now methodName start = result at hcall hengine hstep
      cases hstep
      refine ⟨?_, hsound.openings, fun call hmem => ?_⟩
      · dsimp only
        rw [hengine]
        exact trailing_mono (isCircuitOpen_count config h.engine now) hsound.trailing
      · rcases List.mem_append.mp hmem with hold | hnew
        · exact hsound.calls call hold
        · exact List.mem_singleton.mp hnew ▸ hcall
  | query now =>
      cases hstep
      exact ⟨trailing_mono (isCircuitOpen_count config h.engine now) hsound.trailing, hsound.openings, hsound.calls⟩
  | settle i now outcome random =>
      obtain ⟨call, hcall, hsettle⟩ := Option.bind_eq_some_iff.mp hstep
      split at hsettle
      next start hstart =>
        cases hsettle
        exact settle_sound hsound hcall hstart (hfits call hcall)
      next => cases hsettle
  | wake i start =>
      obtain ⟨call, hcall, hwake⟩ := Option.bind_eq_some_iff.mp hstep
      split at hwake
      next delay hsleeping =>
        cases hwake
        have hcallSound := hsound.calls call (List.mem_of_getElem? hcall)
        simp only [CallSound, hsleeping] at hcallSound
        refine ⟨hsound.trailing, hsound.openings, forall_mem_set hsound.calls ?_⟩
        exact ⟨congrArg Nat.succ hcallSound.1, hcallSound.2⟩
      next => cases hwake

theorem lawful_of_sound (hsound : Sound config h) : Lawful config h :=
  ⟨hsound.openings, fun call hcall _ hi => (hsound.calls call hcall).contract hi⟩

/-- In a run whose attempts all fit their calls the circuit opens only after as many transient failures in a row as it takes, and no
attempt follows a contract error in its call. -/
theorem circuit_lawful (config : RetryConfig) (events : List Event) (t : History)
    (hfits : Allowed (step config) (Fitting config) {} events) (hrun : run (step config) {} events = some t) :
    Lawful config t := by
  refine lawful_of_sound (run_invariant (fun h e t => step_sound) {} t events ?_ hfits hrun)
  exact ⟨trailing_zero _, fun past hpast => absurd hpast List.not_mem_nil, fun call hcall => absurd hcall List.not_mem_nil⟩

/-- Three attempts a call, and a number of failures after which the circuit opens. -/
def thrice (threshold : Nat) : RetryConfig where
  transient := { maxAttempts := .finite 3, initialDelayMs := 100, backoffMultiplier := 2 }
  rateLimit := { maxAttempts := .finite 3, initialDelayMs := 100, backoffMultiplier := 2 }
  contract := { maxAttempts := .finite 1, initialDelayMs := 0, backoffMultiplier := 1 }
  circuitBreakerThreshold := .finite threshold
  circuitResetMs := .finite 1000

/-- A call that fails, waits and then has success. -/
def recovers : List Event :=
  [.execute "call" 0 0, .settle 0 1 (.rejected .other) (0, 0), .wake 0 101, .settle 0 102 .fulfilled (0, 0)]

theorem circuit_lawful_recovers : ∃ t, run (step (thrice 2)) {} recovers = some t ∧ Lawful (thrice 2) t := by
  have hsome : (run (step (thrice 2)) {} recovers).isSome := by rfl
  obtain ⟨t, hrun⟩ := Option.isSome_iff_exists.mp hsome
  exact ⟨t, hrun, circuit_lawful (thrice 2) recovers t (by decide) hrun⟩

/-- A success at the first attempt of another call comes between two failures, and the circuit opens. A contract error at the second
attempt of a call is followed by a third one. -/
theorem circuit_lawful_fail :
    (∃ t, run (step (thrice 2)) {} [.execute "first" 0 0, .execute "second" 0 0, .settle 0 1 (.rejected .other) (0, 0),
        .settle 1 2 .fulfilled (0, 0), .wake 0 101, .settle 0 102 (.rejected .other) (0, 0)] = some t ∧ ¬ Lawful (thrice 2) t) ∧
      ∃ t, run (step (thrice 3)) {} [.execute "call" 0 0, .settle 0 1 (.rejected .other) (0, 0), .wake 0 101,
        .settle 0 102 (.rejected (.error "Error(Contract, #1)" none)) (0, 0), .wake 0 302] = some t ∧ ¬ Lawful (thrice 3) t := by
  constructor
  · have hopenings : (run (step (thrice 2)) {} [.execute "first" 0 0, .execute "second" 0 0,
        .settle 0 1 (.rejected .other) (0, 0), .settle 1 2 .fulfilled (0, 0), .wake 0 101,
        .settle 0 102 (.rejected .other) (0, 0)]).map History.openings =
          some [[.failure .transient, .success, .failure .transient]] := by
      rfl
    obtain ⟨t, hrun, ht⟩ := Option.map_eq_some_iff.mp hopenings
    refine ⟨t, hrun, fun hlawful => ?_⟩
    obtain ⟨k, hk, htrailing⟩ := hlawful.openings _ (ht ▸ List.mem_singleton_self _)
    have htwo : 2 ≤ k := by exact_mod_cast JsNumber.finite_le_finite_iff.mp hk
    exact absurd (trailing_mono htwo htrailing) (by unfold Trailing; decide)
  · have hcalls : (run (step (thrice 3)) {} [.execute "call" 0 0, .settle 0 1 (.rejected .other) (0, 0), .wake 0 101,
        .settle 0 102 (.rejected (.error "Error(Contract, #1)" none)) (0, 0), .wake 0 302]).map
          (fun h => h.calls.map (fun call => (call.failures, call.attempt))) = some [([.transient, .contract], 3)] := by
      rfl
    obtain ⟨t, hrun, ht⟩ := Option.map_eq_some_iff.mp hcalls
    refine ⟨t, hrun, fun hlawful => ?_⟩
    obtain ⟨call, hcall, hfailures⟩ := List.mem_map.mp (ht ▸ List.mem_singleton_self _)
    have hattempt := hlawful.contract call hcall 1 (by rw [(Prod.mk.inj hfailures).1]; rfl)
    rw [(Prod.mk.inj hfailures).2] at hattempt
    cases hattempt

end Runs

end SplitSdk.RetryCircuit
