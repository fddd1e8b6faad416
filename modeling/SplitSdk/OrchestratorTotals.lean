import SplitSdk.PaymentOrchestrator

namespace SplitSdk.OrchestratorTotals

open Interleaving PaymentOrchestrator OrchestratorOnce

/-- Every payment that was queued and not drained is counted. -/
def CountsAll (s : State) : Prop := (getStatus s).total + s.drained = s.entries.length

/-- `process()` takes at most one payment, and only while none is being processed;
and no listener of `payment:completed` throws. -/
def OneAtATime (s : State) : Action → Prop
  | .process => s.queue = [] ∨ (s.queue.length = 1 ∧ s.processing = none)
  | action => QuietCompletion s action

/-- The payments in the hands of `process()` calls. -/
def inHand (s : State) : Nat := (s.processes.map (fun proc => (owned proc).length)).sum

structure Inv (s : State) : Prop where
  counts : CountsAll s
  inHand : inHand s ≤ (getStatus s).processing

theorem getStatus_total (s : State) : (getStatus s).total =
    s.queue.length + (getStatus s).processing + s.completed.length + s.failed.length := rfl

theorem initial_inv : Inv {} := ⟨rfl, Nat.le_refl 0⟩

section Resume

variable {s : State} {r : Nat} {proc : Process} (h : s.processes[r]? = some proc)

include h in
theorem inHand_moveTo (next : Process) :
    inHand (moveTo s r next) + (owned proc).length = inHand s + (owned next).length :=
  sum_set (fun proc => (owned proc).length) s.processes r proc next h

include h in
theorem owned_le_processing (hi : Inv s) : (owned proc).length ≤ (getStatus s).processing :=
  (le_sum (fun proc => (owned proc).length) s.processes r proc h).trans hi.inHand

theorem processing_le_one (s : State) : (getStatus s).processing ≤ 1 := by
  simp only [getStatus]
  split <;> omega

/-- A call that moves on without bringing a payment to an end changes no counter. -/
theorem inv_of_same (hi : Inv s) {t : State} (hstatus : getStatus t = getStatus s)
    (hentries : t.entries.length = s.entries.length) (hdrained : t.drained = s.drained)
    (hle : inHand t ≤ inHand s) : Inv t := by
  have hc := hi.counts
  have hh := hi.inHand
  refine ⟨?_, ?_⟩
  · simp only [CountsAll, hstatus, hentries, hdrained] at hc ⊢
    exact hc
  · rw [hstatus]
    exact hle.trans hh

include h in
/-- A payment in hand is the only one, and it is the one counted as being processed;
when it ends it moves to `completed` or `failed`. -/
theorem inv_of_end (hi : Inv s) (p : Ref) (batch : List Ref) (howned : owned proc = p :: batch)
    {t : State} {next : Process} (hnext : owned next = batch)
    (hprocesses : t.processes = s.processes.set r next) (hprocessing : t.processing = none)
    (hqueue : t.queue = s.queue) (hentries : t.entries.length = s.entries.length)
    (hdrained : t.drained = s.drained)
    (hended : t.completed.length + t.failed.length = s.completed.length + s.failed.length + 1) :
    Inv t := by
  have hc := hi.counts
  have hh := hi.inHand
  have hone := processing_le_one s
  have hown := owned_le_processing h hi
  have hset := sum_set (fun proc => (owned proc).length) s.processes r proc next h
  rw [howned, List.length_cons] at hown
  simp only [howned, hnext, List.length_cons] at hset
  refine ⟨?_, ?_⟩
  · simp only [CountsAll, getStatus, hprocessing, hqueue, hentries, hdrained] at hc ⊢
    simp only [getStatus] at hown hone
    simp only [Option.isSome_none, Bool.false_eq_true, if_false]
    omega
  · simp only [inHand, hprocesses, getStatus, hprocessing, Option.isSome_none, Bool.false_eq_true,
      if_false] at hh hset ⊢
    simp only [getStatus] at hown hone
    omega

end Resume

theorem resume_inv (options : Options) {s t : State} (r : Nat) (outcome : Outcome) (hi : Inv s)
    (hquiet : QuietCompletion s (.resume r outcome))
    (hstep : step options s (.resume r outcome) = some t) : Inv t := by
  obtain ⟨⟨batch, position⟩, h, ht⟩ := Option.bind_eq_some_iff.mp hstep
  have hmove (next : Process) := inHand_moveTo h next
  have hown := owned_le_processing h hi
  have hone := processing_le_one s
  cases position with
  | nextPayment =>
      cases outcome <;> cases ht
      cases batch with
      | nil => exact inv_of_same hi rfl rfl rfl (by have := hmove ⟨[], .returned⟩; simp only [owned] at this; exact this.le)
      | cons p batch =>
          have hm := hmove ⟨batch, .notifyProcessing p⟩
          simp only [owned, List.length_cons] at hm hown
          have hsome : (getStatus s).processing = 1 := by omega
          refine inv_of_same hi ?_ (by simp [takeNext, attempt, moveTo, update]) rfl ?_
          · simp only [getStatus] at hsome ⊢
            simp [takeNext, attempt, moveTo, update, hsome]
          · simp only [inHand, takeNext, attempt, moveTo, update] at hm ⊢
            omega
  | notifyProcessing q =>
      cases outcome with
      | done =>
          cases ht
          refine inv_of_same hi rfl (by simp [moveTo, update]) rfl ?_
          have := hmove ⟨batch, .awaitExecutor q⟩
          simp only [inHand, moveTo, update, owned] at this ⊢
          omega
      | threw e =>
          cases ht
          refine inv_of_same hi rfl rfl rfl ?_
          have := hmove ⟨[], .rejected e⟩
          simp only [owned, List.length_nil] at this
          omega
  | awaitExecutor q =>
      cases outcome with
      | done =>
          cases ht
          exact inv_of_end h hi q batch rfl rfl rfl rfl rfl
            (by simp [moveTo, update]) rfl (by simp [moveTo, update]; omega)
      | threw e =>
          cases ht
          refine inv_of_same hi rfl (by simp [catchError, moveTo, update]) rfl ?_
          have := hmove ⟨batch, .notifyFailed q e (canRetry options (attemptsOf s q))⟩
          simp only [inHand, catchError, moveTo, update, owned, attemptsOf] at this ⊢
          omega
  | notifyCompleted q tx =>
      cases outcome with
      | done =>
          cases ht
          refine inv_of_same hi rfl rfl rfl ?_
          have := hmove ⟨batch, .nextPayment⟩
          simp only [owned] at this
          dsimp only
          omega
      | threw e => exact absurd rfl (hquiet _ h q tx)
  | notifyFailed q e retry =>
      cases outcome with
      | done =>
          cases retry <;> cases ht
          · exact inv_of_end h hi q batch rfl rfl rfl rfl rfl
              (by simp [moveTo, update]) rfl (by simp [moveTo, update]; omega)
          · refine inv_of_same hi rfl rfl rfl ?_
            have := hmove ⟨batch, .awaitDelay q
              (options.baseRetryDelayMs * 2 ^ ((attemptsOf s q : Int) - 1))⟩
            simp only [owned] at this
            dsimp only
            omega
      | threw e' =>
          have hdrop : t = moveTo s r ⟨[], .rejected e'⟩ := by cases retry <;> cases ht <;> rfl
          subst hdrop
          refine inv_of_same hi rfl rfl rfl ?_
          have := hmove ⟨[], .rejected e'⟩
          simp only [owned, List.length_nil] at this
          omega
  | awaitDelay q ms =>
      cases outcome <;> cases ht
      refine inv_of_same hi rfl (by simp [attempt, moveTo, update]) rfl ?_
      have := hmove ⟨batch, .notifyProcessing q⟩
      simp only [inHand, attempt, moveTo, update, owned] at this ⊢
      omega
  | returned | rejected => cases outcome <;> cases ht

/-- `process()` finds nothing to do, or it takes the one payment there is and starts it. -/
theorem process_inv {s : State} (hi : Inv s)
    (hok : s.queue = [] ∨ (s.queue.length = 1 ∧ s.processing = none)) : Inv (process s) := by
  have hc := hi.counts
  have hh := hi.inHand
  rcases hok with hq | ⟨hone, hnone⟩
  · refine inv_of_same hi ?_ ?_ ?_ ?_
    · simp [getStatus, process, takeNext, moveTo, hq]
    · simp [process, takeNext, moveTo, hq]
    · simp [process, takeNext, moveTo, hq]
    · simp [inHand, process, takeNext, moveTo, hq, owned]
  · obtain ⟨p, hq⟩ := List.length_eq_one_iff.mp hone
    have hin : inHand s = 0 := by simpa [getStatus, hnone] using hh
    simp only [inHand] at hin
    refine ⟨?_, ?_⟩
    · simp only [CountsAll, getStatus, hnone, hq] at hc
      simp [CountsAll, getStatus, process, takeNext, attempt, moveTo, update, hq]
      simp at hc
      omega
    · have hnew : (owned ⟨[], .notifyProcessing p⟩).length = 1 := rfl
      simp [inHand, getStatus, process, takeNext, attempt, moveTo, update, hq, hin, hnew]

theorem step_inv (options : Options) (s : State) (action : Action) (t : State) (hi : Inv s)
    (hok : OneAtATime s action) (hstep : step options s action = some t) : Inv t := by
  have hc := hi.counts
  simp only [CountsAll, getStatus_total] at hc
  cases action with
  | queue params id =>
      cases hstep
      refine ⟨?_, hi.inHand⟩
      have hq : (getStatus (queue s params id)).processing = (getStatus s).processing := rfl
      simp only [CountsAll, getStatus_total, hq]
      simp only [queue, List.length_append, List.length_singleton]
      omega
  | process => cases hstep; exact process_inv hi hok
  | drain =>
      cases hstep
      refine ⟨?_, hi.inHand⟩
      have hq : (getStatus (drain s)).processing = (getStatus s).processing := rfl
      simp only [CountsAll, getStatus_total, hq]
      simp only [drain, List.length_nil]
      omega
  | resume r outcome => exact resume_inv options r outcome hi hok hstep

/-- No payment disappears from the counters and none is counted twice, in every run in
which `process()` never has two payments to look after. -/
theorem getStatus_counts_all (options : Options) (actions : List Action) (s : State)
    (hok : Allowed (step options) OneAtATime {} actions)
    (hrun : run (step options) {} actions = some s) :
    (getStatus s).total = s.entries.length - s.drained := by
  have := (run_invariant (step_inv options) {} s actions initial_inv hok hrun).counts
  simp only [CountsAll] at this
  omega

theorem getStatus_counts_all_single :
    (getStatus ((run (step {}) {} [.queue onePayment "", .process, .resume 0 (.done "")]).getD
      {})).total = 1 := by
  refine getStatus_counts_all {} [.queue onePayment "", .process, .resume 0 (.done "")] _ ?_ rfl
  simp only [Allowed, OneAtATime, QuietCompletion, true_and]
  rintro t ⟨⟩
  exact ⟨.inr ⟨rfl, rfl⟩, fun _ _ _ _ => trivial⟩

/-- Of two waiting payments `process()` starts one; the other is in no list any more. -/
theorem queueTwo_total :
    ∃ s, run (step {}) {} [.queue onePayment "", .queue onePayment "", .process] = some s ∧
      s.entries.length - s.drained = 2 ∧ (getStatus s).total = 1 :=
  ⟨_, rfl, rfl, rfl⟩

end SplitSdk.OrchestratorTotals
