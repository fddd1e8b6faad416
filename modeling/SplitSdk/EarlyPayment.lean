import SplitSdk.Interleaving
import SplitSdk.PaymentBatchScheduler
import SplitSdk.ScheduledPaymentManager

namespace SplitSdk.EarlyPayment

open Interleaving Numbers PlatformTimers

section ScheduledPayments

open ScheduledPaymentManager

variable {s t : Manager}

/-- The timers that the event sets are for times that they can wait for, and the clock is not set back. -/
def InTime (s : Manager) : Event → Prop
  | .schedule _ _ _ executeAt _ => InRange (executeAt.mul (.finite 1000)) s.now
  | .restart loads => ∀ entry ∈ pendingEntries (load s loads), InRange (dueAt entry) s.now
  | .setClock now => s.now ≤ now
  | _ => True

instance (s : Manager) (e : Event) : Decidable (InTime s e) := by
  cases e <;> unfold InTime <;> infer_instance

structure OnTime (s : Manager) : Prop where
  /-- What the clock shows when the timer is due is not before the time of the entry. -/
  timers : ∀ timer, some timer ∈ s.platform → ∀ entry ∈ s.payments, entry.id = timer.callback →
    NotBefore (timer.due - s.uptime + s.now) (dueAt entry)
  calls : ∀ call ∈ s.calls, NotBefore call.time (dueAt call.payment)

/-- A timer that was just set. -/
theorem notBefore_of_set {due : JsNumber} {now uptime : ℚ} (h : InRange due now) :
    NotBefore (uptime + effectiveDelay (delayUntil due now) - uptime + now) due := by
  have heq : uptime + effectiveDelay (delayUntil due now) - uptime + now =
      now + effectiveDelay (delayUntil due now) := by
    ring
  rw [heq]
  exact notBefore_of_inRange h

theorem schedule_onTime (hi : Issued s) (h : OnTime s) {id invoiceId : String} {amount : Int}
    {executeAt : JsNumber}
    (saves : Bool) (hfresh : id ∉ s.issued) (hrange : InRange (executeAt.mul (.finite 1000)) s.now) :
    OnTime (schedule s id invoiceId amount executeAt saves) := by
  refine ⟨?_, h.calls⟩
  intro timer htimer entry hentry hid
  rcases mem_setTimeout htimer with hold | rfl
  · rcases List.mem_append.mp hentry with hbefore | hnew
    · exact h.timers timer hold entry hbefore hid
    · obtain rfl := List.mem_singleton.mp hnew
      exact absurd (hi.armed (mem_armed hold)) (hid ▸ hfresh)
  · rcases List.mem_append.mp hentry with hbefore | hnew
    · exact absurd (hi.payments.subset (List.mem_map_of_mem hbefore)) (hid ▸ hfresh)
    · obtain rfl := List.mem_singleton.mp hnew
      exact notBefore_of_set hrange

theorem cancel_onTime (h : OnTime s) (id : String) (saves : Bool) : OnTime (cancel s id saves) := by
  rcases cancel_cases s id saves with hsame | ⟨place, live, -, -, -, hcancel⟩
  · rwa [hsame]
  · rw [hcancel]
    refine ⟨?_, h.calls⟩
    intro timer htimer entry hentry hid
    obtain ⟨i, before, hbefore, heq, -⟩ := mem_setStatus hentry
    rw [heq] at hid ⊢
    exact h.timers timer (mem_disarm htimer) before (List.mem_of_getElem? hbefore) hid

/-- A timer fires when the time of its entry has come. -/
theorem pay_onTime (h : OnTime s) {handle place : Nat} {timer : Timer String} {live : ScheduledPayment}
    (timers : OrderedMap.OrdMap String Nat) (htimer : s.platform[handle]? = some (some timer))
    (hdue : timer.due ≤ s.uptime)
    (hlive : s.payments[place]? = some live) (hid : live.id = timer.callback) : OnTime { s with
      platform := clearTimeout s.platform handle
      timers
      calls := s.calls ++ [{ place, payment := live, time := s.now }] } := by
  refine ⟨fun other hother => h.timers other (mem_clearTimeout hother), ?_⟩
  intro call hcall
  rcases List.mem_append.mp hcall with hold | hnew
  · exact h.calls call hold
  · obtain rfl := List.mem_singleton.mp hnew
    have hnow := h.timers timer (List.mem_of_getElem? htimer) live (List.mem_of_getElem? hlive) hid
    exact hnow.mono (by linarith)

theorem settled_onTime (h : OnTime s) {k : Nat} {call : PayCall} (hcall : s.calls[k]? = some call)
    (resolves saves : Bool) :
    OnTime (settled s k call resolves saves) := by
  refine ⟨?_, ?_⟩
  · intro timer htimer entry hentry hid
    obtain ⟨i, before, hbefore, heq, -⟩ := mem_setStatus hentry
    rw [heq] at hid ⊢
    exact h.timers timer htimer before (List.mem_of_getElem? hbefore) hid
  · apply forall_mem_set h.calls
    exact h.calls call (List.mem_of_getElem? hcall)

theorem restart_onTime (hi : Issued s) (h : OnTime s) {loads : Bool}
    (hrange : ∀ entry ∈ pendingEntries (load s loads), InRange (dueAt entry) s.now) :
    OnTime (restart s loads) := by
  have hload := (hi.restart loads).payments
  obtain ⟨platform, timers, heq, -, hmem⟩ := restart_eq s loads
  rw [heq] at hload ⊢
  refine ⟨?_, ?_⟩
  · intro timer htimer entry hentry hid
    obtain ⟨armed, harmed, rfl⟩ := hmem timer htimer
    obtain rfl : entry = armed := hload.eq_of_id hentry (List.mem_of_mem_filter harmed) hid
    exact notBefore_of_set (hrange entry harmed)
  · intro call hcall
    obtain ⟨before, hbefore, rfl⟩ := List.mem_map.mp hcall
    rw [forget_payment, forget_time]
    exact h.calls before hbefore

/-- The clock may be ahead of the timers by more than before. -/
theorem OnTime.later (h : OnTime s) {now uptime : ℚ} (hlater : s.now - s.uptime ≤ now - uptime) :
    OnTime { s with now, uptime } := by
  refine ⟨fun timer htimer entry hentry hid => ?_, h.calls⟩
  exact (h.timers timer htimer entry hentry hid).mono (by linarith)

theorem step_onTime (e : Event) (hi : Issued s) (h : OnTime s) (hok : InTime s e)
    (hstep : step s e = some t) : OnTime t := by
  cases moves_of_step hstep with
  | schedule invoiceId amount executeAt saves hfresh => exact schedule_onTime hi h saves hfresh hok
  | cancel id saves => exact cancel_onTime h id saves
  | skip handle timers htimer => exact ⟨fun other hother => h.timers other (mem_clearTimeout hother), h.calls⟩
  | pay handle timers htimer hdue hlive hid hstatus => exact pay_onTime h timers htimer hdue hlive hid
  | settled resolves saves hcall hflight => exact settled_onTime h hcall resolves saves
  | restart loads => exact restart_onTime hi h hok
  | elapse hms => exact h.later (by linarith)
  | setClock now => exact h.later (by linarith [show s.now ≤ now from hok])

theorem start_onTime (persistent : Bool) (now : ℚ) : OnTime (start persistent now) := ⟨nofun, nofun⟩

theorem reached_onTime {persistent : Bool} {now : ℚ} {es : List Event}
    (h : Reaches step InTime (start persistent now) es s) : OnTime s := by
  refine (run_invariant (I := fun s => Issued s ∧ OnTime s) ?_ _ _ es ?_ h.allowed h.run).2
  · intro s e t hi hok hstep
    exact ⟨step_issued e hi.1 hstep, step_onTime e hi.1 hi.2 hok hstep⟩
  · exact ⟨start_issued persistent now, start_onTime persistent now⟩

end ScheduledPayments

section PaymentBatches

open PaymentBatchScheduler

variable {P : Type} {s t : Scheduler P}

/-- The timers that the event sets are for times that they can wait for, the clock is not set back,
and `execute` is left to the timers. -/
def BatchInTime (s : Scheduler P) : Event P → Prop
  | .schedule _ scheduledAt _ => InRange scheduledAt s.now
  | .execute _ => False
  | .setClock now => s.now ≤ now
  | _ => True

instance (s : Scheduler P) (e : Event P) : Decidable (BatchInTime s e) := by
  cases e <;> unfold BatchInTime <;> infer_instance

structure BatchOnTime (s : Scheduler P) : Prop where
  timers : ∀ timer, some timer ∈ s.platform → ∃ batch, s.batches.get? timer.callback = some batch ∧
    NotBefore (timer.due - s.uptime + s.now) batch.scheduledAt
  executions : ∀ execution ∈ s.executions, ∃ batch, s.batches.get? execution.batch = some batch ∧
    NotBefore execution.time batch.scheduledAt

/-- A batch that changes keeps the time that it is scheduled at. -/
theorem setBatch_due {id other : String} {batch held : PaymentBatch P} {time : ℚ}
    (next : PaymentBatch P)
    (hbatch : s.batches.get? id = some batch) (hnext : next.scheduledAt = batch.scheduledAt)
    (hheld : s.batches.get? other = some held) (htime : NotBefore time held.scheduledAt) :
    ∃ batch, (setBatch s id next).batches.get? other = some batch ∧
      NotBefore time batch.scheduledAt := by
  by_cases hid : other = id
  · subst hid
    obtain rfl : batch = held := Option.some.inj (hbatch.symm.trans hheld)
    exact ⟨next, by rw [setBatch, OrderedMap.OrdMap.get?_set, if_pos rfl], hnext.symm ▸ htime⟩
  · exact ⟨held, by rw [setBatch, OrderedMap.OrdMap.get?_set, if_neg hid, hheld], htime⟩

theorem BatchOnTime.setBatch (h : BatchOnTime s) {id : String} {batch : PaymentBatch P}
    (next : PaymentBatch P)
    (hbatch : s.batches.get? id = some batch) (hnext : next.scheduledAt = batch.scheduledAt) :
    BatchOnTime (setBatch s id next) := by
  refine ⟨?_, ?_⟩
  · intro timer htimer
    obtain ⟨held, hheld, htime⟩ := h.timers timer htimer
    exact setBatch_due next hbatch hnext hheld htime
  · intro execution hexecution
    obtain ⟨held, hheld, htime⟩ := h.executions execution hexecution
    exact setBatch_due next hbatch hnext hheld htime

theorem BatchOnTime.fewerTimers (h : BatchOnTime s) {platform : Timers String}
    (timers : OrderedMap.OrdMap String Nat)
    (hsub : ∀ timer, some timer ∈ platform → some timer ∈ s.platform) :
    BatchOnTime { s with platform, timers } :=
  ⟨fun timer htimer => h.timers timer (hsub timer htimer), h.executions⟩

theorem BatchOnTime.setExecution (h : BatchOnTime s) {k : Nat} {execution next : Execution}
    (hexecution : s.executions[k]? = some execution) (hbatch : next.batch = execution.batch)
    (htime : next.time = execution.time) : BatchOnTime (setExecution s k next) := by
  refine ⟨h.timers, forall_mem_set h.executions ?_⟩
  rw [hbatch, htime]
  exact h.executions execution (List.mem_of_getElem? hexecution)

theorem schedule_batchOnTime (h : BatchOnTime s) (payments : List P) {scheduledAt : JsNumber}
    (id : Option String)
    (hrange : InRange scheduledAt s.now) : BatchOnTime (schedule s payments scheduledAt id).1 := by
  rcases schedule_cases s payments scheduledAt id with
    ⟨sequence, heq⟩ | ⟨newId, sequence, timers, hnew, heq⟩
  · rw [heq]
    exact ⟨h.timers, h.executions⟩
  · rw [heq]
    -- what is known of another batch is untouched by the new one
    have hkeep {other : String} {time : ℚ}
        (hheld : ∃ batch, s.batches.get? other = some batch ∧ NotBefore time batch.scheduledAt) :
        ∃ batch, (s.batches.set newId { payments, scheduledAt, createdAt := s.now }).get? other = some batch ∧
          NotBefore time batch.scheduledAt := by
      obtain ⟨held, hheld, htime⟩ := hheld
      refine ⟨held, ?_, htime⟩
      rw [OrderedMap.OrdMap.get?_set, if_neg, hheld]
      rintro rfl
      nomatch hheld.symm.trans hnew
    refine ⟨?_, fun execution hexecution => hkeep (h.executions execution hexecution)⟩
    intro timer htimer
    rcases mem_setTimeout htimer with hold | rfl
    · exact hkeep (h.timers timer hold)
    · exact ⟨_, by rw [OrderedMap.OrdMap.get?_set, if_pos rfl], notBefore_of_set hrange⟩

/-- A timer fires when the time of its batch has come. -/
theorem fire_batchOnTime (h : BatchOnTime s) {handle : Nat} {timer : Timer String}
    (htimer : s.platform[handle]? = some (some timer)) (hdue : timer.due ≤ s.uptime) :
    BatchOnTime (timeout { s with platform := clearTimeout s.platform handle } timer.callback) := by
  unfold timeout
  have hfewer : BatchOnTime { s with
      platform := clearTimeout s.platform handle
      timers := s.timers.delete timer.callback } :=
    h.fewerTimers _ (fun _ => mem_clearTimeout)
  rcases execute_cases { s with
      platform := clearTimeout s.platform handle
      timers := s.timers.delete timer.callback } timer.callback with hsame | ⟨batch, hbatch, -, heq⟩
  · rwa [hsame]
  · rw [heq]
    obtain ⟨platform, timers, hdisarm, hsub⟩ := disarmTimer_eq
      { s with
        platform := clearTimeout s.platform handle
        timers := s.timers.delete timer.callback } timer.callback
    rw [hdisarm]
    have hkept := (hfewer.fewerTimers timers hsub).setBatch { batch with status := .executing } hbatch rfl
    refine ⟨hkept.timers, ?_⟩
    intro execution hexecution
    rcases List.mem_append.mp hexecution with hold | hnew
    · exact hkept.executions execution hold
    · rw [List.mem_singleton.mp hnew]
      obtain ⟨held, hheld, htime⟩ := h.timers timer (List.mem_of_getElem? htimer)
      exact setBatch_due (s := s) { batch with status := .executing } hbatch rfl hheld
        (htime.mono (by linarith))

theorem succeed_batchOnTime (h : BatchOnTime s) {k : Nat} {execution : Execution}
    {batch : PaymentBatch P}
    (hexecuting : executing s k = some (execution, batch)) :
    BatchOnTime (answered s k execution batch (.ok ())) := by
  obtain ⟨hexecution, hbatch⟩ := executing_eq_some hexecuting
  have hset := h.setBatch { batch with status := .executed, executedAt := some s.now } hbatch rfl
  exact hset.setExecution hexecution rfl rfl

theorem fail_batchOnTime (h : BatchOnTime s) {k : Nat} {execution : Execution} {batch : PaymentBatch P}
    (hexecuting : executing s k = some (execution, batch)) (message : String) :
    BatchOnTime (fail s k execution batch message) := by
  obtain ⟨hexecution, hbatch⟩ := executing_eq_some hexecuting
  have hset := h.setBatch { batch with status := .failed, error := some message } hbatch rfl
  exact hset.setExecution hexecution rfl rfl

theorem BatchOnTime.later (h : BatchOnTime s) {now uptime : ℚ}
    (hlater : s.now - s.uptime ≤ now - uptime) :
    BatchOnTime { s with now, uptime } := by
  refine ⟨fun timer htimer => ?_, h.executions⟩
  obtain ⟨batch, hbatch, htime⟩ := h.timers timer htimer
  exact ⟨batch, hbatch, htime.mono (by linarith)⟩

theorem step_batchOnTime (e : Event P) (h : BatchOnTime s) (hok : BatchInTime s e)
    (hstep : step s e = some t) :
    BatchOnTime t := by
  cases moves_of_step hstep with
  | schedule payments scheduledAt id => exact schedule_batchOnTime h payments id hok
  | cancel id =>
      rcases cancel_cases s id with hsame | ⟨batch, hbatch, -, heq⟩
      · rwa [hsame]
      · obtain ⟨platform, timers, hdisarm, hsub⟩ := disarmTimer_eq s id
        rw [heq, hdisarm]
        exact (h.fewerTimers timers hsub).setBatch { batch with status := .cancelled } hbatch rfl
  | dispose =>
      obtain ⟨platform, timers, heq, hsub⟩ := dispose_eq s
      rw [heq]
      exact h.fewerTimers timers hsub
  | execute id => exact hok.elim
  | fire htimer hdue => exact fire_batchOnTime h htimer hdue
  | answered answer hexecuting hposition =>
      cases answer with
      | ok _ => exact succeed_batchOnTime h hexecuting
      | error message => exact fail_batchOnTime h hexecuting message
  | notifiedExecuted answer hexecuting hposition =>
      cases answer with
      | ok _ => exact h.setExecution (executing_eq_some hexecuting).1 rfl rfl
      | error message => exact fail_batchOnTime h hexecuting message
  | notifiedFailed answer hexecuting hposition =>
      cases answer with
      | ok _ => exact h.setExecution (executing_eq_some hexecuting).1 rfl rfl
      | error message => exact h.setExecution (executing_eq_some hexecuting).1 rfl rfl
  | elapse hms => exact h.later (by linarith)
  | setClock now => exact h.later (by linarith [show s.now ≤ now from hok])

theorem start_batchOnTime (maxBatchSize : JsNumber) (now : ℚ) :
    BatchOnTime (start (P := P) maxBatchSize now) := ⟨nofun, nofun⟩

theorem reached_batchOnTime {maxBatchSize : JsNumber} {now : ℚ} {es : List (Event P)}
    (h : Reaches step BatchInTime (start maxBatchSize now) es s) : BatchOnTime s :=
  run_invariant (fun _ e _ hi hok hstep => step_batchOnTime e hi hok hstep) _ _ es
    (start_batchOnTime maxBatchSize now) h.allowed h.run

end PaymentBatches

section Result

/-- A payment is made, and a batch is executed, when its time has come. -/
theorem no_early_payment {P : Type} (persistent : Bool) (maxBatchSize : JsNumber) (now : ℚ)
    (es : List ScheduledPaymentManager.Event) (fs : List (PaymentBatchScheduler.Event P))
    (s : ScheduledPaymentManager.Manager)
    (t : PaymentBatchScheduler.Scheduler P) :
    (Reaches ScheduledPaymentManager.step InTime (ScheduledPaymentManager.start persistent now) es s →
      ∀ call ∈ s.calls, NotBefore call.time (ScheduledPaymentManager.dueAt call.payment)) ∧
    (Reaches PaymentBatchScheduler.step BatchInTime (PaymentBatchScheduler.start maxBatchSize now) fs t →
      ∀ execution ∈ t.executions, ∃ batch, t.batches.get? execution.batch = some batch ∧
        NotBefore execution.time batch.scheduledAt) :=
  ⟨fun h => (reached_onTime h).calls, fun h => (reached_batchOnTime h).executions⟩

end Result

section Runs

open ScheduledPaymentManager in
/-- A payment and a batch for a time thirty days away are made after a millisecond. -/
theorem paid_a_month_early :
    (∃ s ∈ run step (start true 0) [.schedule "a" "inv-1" 5 (.finite 2592000) true, .elapse 1, .fire 0],
      ∃ call ∈ s.calls, call.time = 1 ∧ ¬NotBefore call.time (dueAt call.payment)) ∧
    ∃ s ∈ run PaymentBatchScheduler.step (PaymentBatchScheduler.start (P := Nat) (.finite 100) 0)
        [.schedule [5] (.finite 2592000000) (some "b"), .elapse 1, .fire 0],
      ∃ execution ∈ s.executions, execution.time = 1 ∧
        ∃ batch ∈ s.batches.get? execution.batch, ¬NotBefore execution.time batch.scheduledAt := by
  decide +kernel

def hourly : List ScheduledPaymentManager.Event :=
  [.schedule "a" "inv-1" 5 (.finite 3600) true, .elapse 1800000, .restart true, .elapse 1800000,
    .fire 0]

def hourlyBatch : List (PaymentBatchScheduler.Event Nat) :=
  [.schedule [5] (.finite 3600000) (some "b"), .elapse 3600000, .fire 0]

theorem paid_after_an_hour :
    (∃ s ∈ run ScheduledPaymentManager.step (ScheduledPaymentManager.start true 0) hourly,
      s.calls.length = 1 ∧
        ∀ call ∈ s.calls, NotBefore call.time (ScheduledPaymentManager.dueAt call.payment)) ∧
    ∃ s ∈ run PaymentBatchScheduler.step (PaymentBatchScheduler.start (.finite 100) 0) hourlyBatch,
      s.executions.length = 1 ∧
        ∀ execution ∈ s.executions, ∃ batch, s.batches.get? execution.batch = some batch ∧
        NotBefore execution.time batch.scheduledAt := by
  have hpaid : ∃ s ∈ run ScheduledPaymentManager.step (ScheduledPaymentManager.start true 0) hourly,
    s.calls.length = 1 := by
    decide +kernel
  have hexecuted : ∃ s ∈ run PaymentBatchScheduler.step (PaymentBatchScheduler.start (.finite 100) 0) hourlyBatch,
      s.executions.length = 1 := by
    decide +kernel
  obtain ⟨s, hs, hcalls⟩ := hpaid
  obtain ⟨t, ht, hexecutions⟩ := hexecuted
  obtain ⟨hpayments, hbatches⟩ := no_early_payment true (.finite 100) 0 hourly hourlyBatch s t
  exact ⟨⟨s, hs, hcalls, hpayments ⟨hs, by decide +kernel⟩⟩, t, ht, hexecutions,
    hbatches ⟨ht, by decide +kernel⟩⟩

end Runs

end SplitSdk.EarlyPayment
