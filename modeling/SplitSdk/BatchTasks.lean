import SplitSdk.InvoiceBatch

namespace SplitSdk.BatchTasks

open Interleaving InvoiceBatch
open ConcurrencyLimiter hiding Event step

section Statement

/-- Success is reported for just those calls of `submitPayment` that were resolved before the timeout, with their hashes. -/
structure Matches (task : Task) (result : BatchInvoiceResult) : Prop where
  invoiceId : result.invoiceId = task.invoiceId
  status : result.status = .success ↔ task.resolved.isSome
  txHash : result.txHash = task.resolved

/-- No handler that is called by an action of a task throws. -/
def QuietAction (config : InvoiceBatchConfig) (task : Task) : Action → Prop
  | .proceed listeners => config.amounts task.invoiceId = none → emit listeners = none
  | .conclude _ audience =>
      (∀ txHash, task.stage = .released (.ok txHash) → emit audience.batchInvoiceSettled = none) ∧
        ∀ error, task.stage = .released (.error error) → emit audience.batchInvoiceFailed = none
  | _ => True

end Statement

section Outcomes

variable {config : InvoiceBatchConfig} {invoiceId : String} {now : Int} {shared : Shared} {error : Failure}
  {listeners : Listeners} {audience : Audience}

def count (shared : Shared) : Nat := shared.metrics.completed + shared.metrics.failed

theorem finish_spec (shared : Shared) (result : BatchInvoiceResult) (thrown : Option Failure) :
    (finish shared result thrown).2.limiter = shared.limiter ∧ count (finish shared result thrown).2 = count shared := by
  cases thrown <;> exact ⟨rfl, rfl⟩

theorem reportFailure_spec (invoiceId : String) (shared : Shared) (error : String) (listeners : Listeners) :
    (reportFailure invoiceId shared error listeners).2.limiter = shared.limiter ∧
      count (reportFailure invoiceId shared error listeners).2 = count shared + 1 :=
  finish_spec { shared with metrics := { shared.metrics with failed := shared.metrics.failed + 1 } } _ _

theorem reportFailure_quiet (error : String) (h : emit listeners = none) :
    (reportFailure invoiceId shared error listeners).1 = .ok { invoiceId, status := .failed, error := some error } := by
  rw [reportFailure, h]
  rfl

theorem reportFailure_loud (error : String) {thrown : Failure} (h : emit listeners = some thrown) :
    (reportFailure invoiceId shared error listeners).1 = .error thrown := by
  rw [reportFailure, h]
  rfl

/-- The pause and the counter of the timeouts have no part in the outcome. -/
theorem caught_eq (config : InvoiceBatchConfig) (invoiceId : String) (now : Int) (shared : Shared) (error : Failure)
    (listeners : Listeners) :
    ∃ shared' : Shared, shared'.limiter = shared.limiter ∧ count shared' = count shared ∧
      caught config invoiceId now shared error listeners = reportFailure invoiceId shared' error.text listeners := by
  unfold caught
  refine ⟨_, ?_, ?_, rfl⟩
  · split_ifs <;> rfl
  · split_ifs <;> rfl

theorem caught_spec (config : InvoiceBatchConfig) (invoiceId : String) (now : Int) (shared : Shared) (error : Failure)
    (listeners : Listeners) :
    (caught config invoiceId now shared error listeners).2.limiter = shared.limiter ∧
      count (caught config invoiceId now shared error listeners).2 = count shared + 1 := by
  obtain ⟨shared', hlimiter, hcount, heq⟩ := caught_eq config invoiceId now shared error listeners
  rw [heq, (reportFailure_spec _ _ _ _).1, (reportFailure_spec _ _ _ _).2, hlimiter, hcount]
  exact ⟨rfl, rfl⟩

theorem conclude_error :
    conclude config invoiceId now shared (.error error) audience =
      caught config invoiceId now shared error audience.batchInvoiceFailed := rfl

theorem conclude_quiet_ok {txHash : String} (h : emit audience.batchInvoiceSettled = none) :
    (conclude config invoiceId now shared (.ok txHash) audience).1 =
        .ok { invoiceId, status := .success, txHash := some txHash } ∧
      (conclude config invoiceId now shared (.ok txHash) audience).2.limiter = shared.limiter ∧
      count (conclude config invoiceId now shared (.ok txHash) audience).2 = count shared + 1 := by
  unfold conclude
  rw [h]
  exact ⟨rfl, rfl, Nat.add_right_comm _ _ _⟩

/-- The payment that was counted as completed is counted as failed, too. -/
theorem conclude_loud_ok {txHash : String} {thrown : Failure} (h : emit audience.batchInvoiceSettled = some thrown) :
    (conclude config invoiceId now shared (.ok txHash) audience).2.limiter = shared.limiter ∧
      count (conclude config invoiceId now shared (.ok txHash) audience).2 = count shared + 2 := by
  unfold conclude
  rw [h]
  obtain ⟨hlimiter, hcount⟩ := caught_spec config invoiceId now
    { shared with metrics := { shared.metrics with completed := shared.metrics.completed + 1 } } thrown
    audience.batchInvoiceFailed
  refine ⟨hlimiter, hcount.trans ?_⟩
  unfold count
  dsimp only
  omega

theorem conclude_spec (config : InvoiceBatchConfig) (invoiceId : String) (now : Int) (shared : Shared)
    (outcome : Except Failure String) (audience : Audience) :
    (conclude config invoiceId now shared outcome audience).2.limiter = shared.limiter ∧
      count shared + 1 ≤ count (conclude config invoiceId now shared outcome audience).2 := by
  cases outcome with
  | error error =>
      obtain ⟨hlimiter, hcount⟩ := caught_spec config invoiceId now shared error audience.batchInvoiceFailed
      exact ⟨hlimiter, hcount.ge⟩
  | ok txHash =>
      cases hemit : emit audience.batchInvoiceSettled with
      | none =>
          obtain ⟨-, hlimiter, hcount⟩ := conclude_quiet_ok hemit
          exact ⟨hlimiter, hcount.ge⟩
      | some thrown =>
          obtain ⟨hlimiter, hcount⟩ := conclude_loud_ok hemit
          exact ⟨hlimiter, Nat.le_of_succ_le hcount.ge⟩

end Outcomes

section Actions

def rank : Stage → Nat
  | .waiting => 0
  | .cleared => 1
  | .acquiring _ => 2
  | .granted _ => 3
  | .submitting => 4
  | .settled _ => 5
  | .released _ => 6
  | .finished _ => 7

def finished (task : Task) : Bool :=
  match task.stage with
  | .finished _ => true
  | _ => false

/-- The task has a slot of the limiter. -/
def holds (task : Task) : Bool :=
  match task.stage with
  | .granted _ | .submitting | .settled _ => true
  | _ => false

def acquires (task : Task) : Bool :=
  match task.stage with
  | .acquiring _ => true
  | _ => false

theorem rank_le (stage : Stage) : rank stage ≤ 7 := by
  cases stage <;> exact Nat.le_of_ble_eq_true rfl

/-- The actions one by one. -/
inductive Acts (config : InvoiceBatchConfig) (shared : Shared) (slot : Nat) (task : Task) : Action → Task → Shared → Prop
  | check {now : Int} (stage : task.stage = .waiting) :
      Acts config shared slot task (.check now) { task with stage := .cleared } shared
  | missing {listeners : Listeners} (stage : task.stage = .cleared) (amount : config.amounts task.invoiceId = none)
      (error : String) :
      Acts config shared slot task (.proceed listeners)
        { task with stage := .finished (reportFailure task.invoiceId shared error listeners).1 }
        (reportFailure task.invoiceId shared error listeners).2
  | grant {listeners : Listeners} (stage : task.stage = .cleared) {amount : Int}
      (lookup : config.amounts task.invoiceId = some amount) (limiter : Limiter)
      (acquire : acquire config.maxConcurrent shared.limiter slot = (true, limiter)) :
      Acts config shared slot task (.proceed listeners) { task with stage := .granted amount } { shared with limiter }
  | wait {listeners : Listeners} (stage : task.stage = .cleared) {amount : Int}
      (lookup : config.amounts task.invoiceId = some amount) (limiter : Limiter)
      (acquire : acquire config.maxConcurrent shared.limiter slot = (false, limiter)) :
      Acts config shared slot task (.proceed listeners) { task with stage := .acquiring amount } { shared with limiter }
  | resume {amount : Int} (stage : task.stage = .acquiring amount) (limiter : Limiter)
      (resume : resume shared.limiter = some (slot, limiter)) :
      Acts config shared slot task .resume { task with stage := .granted amount } { shared with limiter }
  | submit {amount : Int} (stage : task.stage = .granted amount) (params : PaymentParams) :
      Acts config shared slot task .submit { task with stage := .submitting, calls := task.calls ++ [params] } shared
  | settle {answer : Answer} (stage : task.stage = .submitting) (outcome : Except Failure String) :
      Acts config shared slot task (.settle answer)
        { task with stage := .settled outcome, resolved := outcome.toOption } shared
  | release {outcome : Except Failure String} (stage : task.stage = .settled outcome) :
      Acts config shared slot task .release { task with stage := .released outcome }
        { shared with limiter := release shared.limiter }
  | conclude {outcome : Except Failure String} {now : Int} {audience : Audience} (stage : task.stage = .released outcome) :
      Acts config shared slot task (.conclude now audience)
        { task with stage := .finished (conclude config task.invoiceId now shared outcome audience).1 }
        (conclude config task.invoiceId now shared outcome audience).2

variable {config : InvoiceBatchConfig} {shared shared' : Shared} {slot : Nat} {task task' : Task} {action : Action}

theorem act_spec (h : act config shared slot task action = some (task', shared')) :
    Acts config shared slot task action task' shared' := by
  unfold act at h
  split at h
  next hstage =>
    split_ifs at h
    cases h
    exact .check hstage
  next hstage =>
    split at h
    next hamount =>
      cases h
      exact .missing hstage hamount _
    next hlookup =>
      cases hacquire : acquire config.maxConcurrent shared.limiter slot with
      | mk granted limiter =>
          rw [hacquire] at h
          cases granted with
          | true =>
              cases h
              exact .grant hstage hlookup limiter hacquire
          | false =>
              cases h
              exact .wait hstage hlookup limiter hacquire
  next hstage =>
    split at h
    next caller limiter hresume =>
      split_ifs at h with hcaller
      cases h
      exact .resume hstage limiter (hcaller ▸ hresume)
    next => cases h
  next hstage =>
    cases h
    exact .submit hstage _
  next hstage =>
    obtain ⟨outcome, -, heq⟩ := Option.map_eq_some_iff.mp h
    cases heq
    exact .settle hstage outcome
  next hstage =>
    cases h
    exact .release hstage
  next hstage =>
    cases h
    exact .conclude hstage
  next => cases h

theorem acts_rank (h : Acts config shared slot task action task' shared') : rank task.stage + 1 ≤ rank task'.stage := by
  cases h <;> simp only [rank, *] <;> decide

theorem acts_invoiceId (h : Acts config shared slot task action task' shared') : task'.invoiceId = task.invoiceId := by
  cases h <;> rfl

/-- The action is no longer possible after the end of the task. -/
theorem not_finished_of_acts (h : Acts config shared slot task action task' shared') : finished task = false := by
  have hrank := acts_rank h
  have hle := rank_le task'.stage
  unfold finished
  split
  next hstage =>
    rw [hstage, rank] at hrank
    omega
  next => rfl

end Actions

section Tasks

/-- What `submitPayment` was called for so far, and how it ended. -/
def TaskSound (task : Task) : Prop :=
  match task.stage with
  | .waiting | .cleared | .acquiring _ | .granted _ => task.calls = [] ∧ task.resolved = none
  | .submitting => task.calls.length = 1 ∧ task.resolved = none
  | .settled outcome | .released outcome => task.calls.length = 1 ∧ task.resolved = outcome.toOption
  | .finished _ => task.calls.length ≤ 1

/-- A task that has ended has its result. -/
def Honest (task : Task) : Prop :=
  ∀ outcome, task.stage = .finished outcome → ∃ result, outcome = .ok result ∧ Matches task result

theorem TaskSound.calls {task : Task} (h : TaskSound task) : task.calls.length ≤ 1 := by
  unfold TaskSound at h
  split at h
  next => exact h.1 ▸ Nat.zero_le _
  next => exact h.1 ▸ Nat.zero_le _
  next => exact h.1 ▸ Nat.zero_le _
  next => exact h.1 ▸ Nat.zero_le _
  next => exact h.1.le
  next => exact h.1.le
  next => exact h.1.le
  next => exact h

variable {config : InvoiceBatchConfig} {shared shared' : Shared} {slot : Nat} {task task' : Task} {action : Action}

theorem acts_sound (h : Acts config shared slot task action task' shared') (hsound : TaskSound task) : TaskSound task' := by
  have hcalls := hsound.calls
  cases h with
  | check hstage => simpa only [TaskSound, hstage] using hsound
  | missing => exact hcalls
  | grant hstage => simpa only [TaskSound, hstage] using hsound
  | wait hstage => simpa only [TaskSound, hstage] using hsound
  | resume hstage => simpa only [TaskSound, hstage] using hsound
  | submit hstage params =>
      simp only [TaskSound, hstage] at hsound
      exact ⟨by rw [hsound.1]; rfl, hsound.2⟩
  | settle hstage outcome =>
      simp only [TaskSound, hstage] at hsound
      exact ⟨hsound.1, rfl⟩
  | release hstage => simpa only [TaskSound, hstage] using hsound
  | conclude => exact hcalls

theorem matches_failed {invoiceId error : String} (hid : invoiceId = task.invoiceId) (h : task.resolved = none) :
    Matches task { invoiceId, status := .failed, error := some error } := by
  refine ⟨hid, ?_, h.symm⟩
  rw [h]
  exact ⟨fun hstatus => PaymentStatus.noConfusion hstatus, fun hsome => Bool.noConfusion hsome⟩

theorem matches_success {invoiceId txHash : String} (hid : invoiceId = task.invoiceId) (h : task.resolved = some txHash) :
    Matches task { invoiceId, status := .success, txHash := some txHash } := by
  refine ⟨hid, ?_, h.symm⟩
  rw [h]
  exact iff_of_true rfl rfl

theorem conclude_quiet (shared : Shared) {outcome : Except Failure String} {now : Int} {audience : Audience}
    (hstage : task.stage = .released outcome) (hquiet : QuietAction config task (.conclude now audience))
    (hsound : TaskSound task) :
    (∃ result, (conclude config task.invoiceId now shared outcome audience).1 = .ok result ∧ Matches task result) ∧
      count (conclude config task.invoiceId now shared outcome audience).2 = count shared + 1 := by
  simp only [TaskSound, hstage] at hsound
  cases outcome with
  | ok txHash =>
      obtain ⟨hresult, -, hcount⟩ := conclude_quiet_ok (hquiet.1 txHash hstage)
      exact ⟨⟨_, hresult, matches_success rfl hsound.2⟩, hcount⟩
  | error error =>
      have hemit := hquiet.2 error hstage
      obtain ⟨shared', -, -, heq⟩ := caught_eq config task.invoiceId now shared error audience.batchInvoiceFailed
      have hresult : (conclude config task.invoiceId now shared (.error error) audience).1 =
          .ok { invoiceId := task.invoiceId, status := .failed, error := some error.text } := by
        rw [conclude_error, heq]
        exact reportFailure_quiet error.text hemit
      exact ⟨⟨_, hresult, matches_failed rfl hsound.2⟩, (caught_spec _ _ _ _ _ _).2⟩

/-- What an action that is no end of a task leaves as it is. -/
theorem acts_unfinished (h : Acts config shared slot task action task' shared') (hunfinished : finished task' = false) :
    count shared' = count shared := by
  cases h with
  | missing => cases hunfinished
  | conclude => cases hunfinished
  | _ => rfl

theorem honest_of_unfinished (h : finished task = false) : Honest task := by
  intro outcome hstage
  unfold finished at h
  rw [hstage] at h
  cases h

theorem acts_honest (h : Acts config shared slot task action task' shared') (hquiet : QuietAction config task action)
    (hsound : TaskSound task) : Honest task' ∧ count shared' = count shared + if finished task' then 1 else 0 := by
  cases h with
  | missing hstage hamount error =>
      simp only [TaskSound, hstage] at hsound
      refine ⟨?_, (reportFailure_spec _ _ _ _).2⟩
      rintro _ ⟨⟩
      exact ⟨_, reportFailure_quiet error (hquiet hamount), matches_failed rfl hsound.2⟩
  | conclude hstage =>
      obtain ⟨⟨result, hresult, hmatches⟩, hcount⟩ := conclude_quiet shared hstage hquiet hsound
      refine ⟨?_, hcount⟩
      rintro _ ⟨⟩
      exact ⟨result, hresult, ⟨hmatches.invoiceId, hmatches.status, hmatches.txHash⟩⟩
  | _ => exact ⟨honest_of_unfinished rfl, rfl⟩

theorem acts_count (h : Acts config shared slot task action task' shared') :
    count shared + (if finished task' then 1 else 0) ≤ count shared' := by
  cases h with
  | missing => exact (reportFailure_spec _ _ _ _).2.ge
  | conclude => exact (conclude_spec _ _ _ _ _ _).2
  | _ => exact le_refl _

/-- A handler that throws is paid for: a payment counts twice, or a task ends without a result. -/
theorem acts_loud (h : Acts config shared slot task action task' shared') (hloud : ¬ QuietAction config task action) :
    count shared + (if finished task' then 1 else 0) < count shared' ∨ ∃ error, task'.stage = .finished (.error error) := by
  cases h with
  | missing hstage hamount error =>
      obtain ⟨thrown, hthrown⟩ := Option.ne_none_iff_exists'.mp (fun hemit => hloud (fun _ => hemit))
      exact .inr ⟨thrown, congrArg Stage.finished (reportFailure_loud error hthrown)⟩
  | @conclude outcome now audience hstage =>
      cases outcome with
      | ok txHash =>
          refine .inl ?_
          obtain ⟨thrown, hthrown⟩ := Option.ne_none_iff_exists'.mp (fun hemit : emit audience.batchInvoiceSettled = none =>
            hloud ⟨fun _ _ => hemit, fun error herror => by cases hstage.symm.trans herror⟩)
          exact (conclude_loud_ok hthrown).2.ge
      | error error =>
          refine .inr ?_
          obtain ⟨thrown, hthrown⟩ := Option.ne_none_iff_exists'.mp (fun hemit : emit audience.batchInvoiceFailed = none =>
            hloud ⟨fun txHash hok => (by cases hstage.symm.trans hok), fun _ _ => hemit⟩)
          obtain ⟨shared', -, -, heq⟩ := caught_eq config task.invoiceId now shared error audience.batchInvoiceFailed
          refine ⟨thrown, congrArg Stage.finished ?_⟩
          rw [conclude_error, heq]
          exact reportFailure_loud error.text hthrown
  | grant _ hlookup => exact absurd (fun hnone => by cases hlookup.symm.trans hnone) hloud
  | wait _ hlookup => exact absurd (fun hnone => by cases hlookup.symm.trans hnone) hloud
  | _ => exact absurd trivial hloud

end Tasks

section Slots

variable {config : InvoiceBatchConfig} {shared shared' : Shared} {slot : Nat} {task task' : Task} {action : Action}
  {tasks : List Task}

def Acquiring (tasks : List Task) (slot : Nat) : Prop := ∃ task, tasks[slot]? = some task ∧ acquires task

/-- The limiter knows the tasks that have a slot and those that wait for one. -/
structure Slots (config : InvoiceBatchConfig) (limiter : Limiter) (tasks : List Task) : Prop where
  held : limiter.active = tasks.countP holds
  nodup : (queue limiter).Nodup
  queued : ∀ slot, slot ∈ queue limiter ↔ Acquiring tasks slot
  busy : Busy config.maxConcurrent limiter

theorem slots_init : Slots config {} [] := by
  refine ⟨rfl, List.nodup_nil, fun slot => iff_of_false List.not_mem_nil ?_, fun hne => absurd rfl hne⟩
  rintro ⟨task, htask, -⟩
  cases htask

theorem acquiring_push (hacquires : acquires task = false) : Acquiring (tasks ++ [task]) slot ↔ Acquiring tasks slot := by
  constructor
  · rintro ⟨other, hother, hother'⟩
    rcases of_getElem?_push hother with ⟨-, rfl⟩ | hold
    · cases hacquires.symm.trans hother'
    · exact ⟨other, hold, hother'⟩
  · rintro ⟨other, hother, hother'⟩
    have hlt := (List.getElem?_eq_some_iff.mp hother).1
    exact ⟨other, (List.getElem?_append_left hlt).trans hother, hother'⟩

theorem acquiring_set {j : Nat} (htask : tasks[slot]? = some task) :
    Acquiring (tasks.set slot task') j ↔ if j = slot then acquires task' = true else Acquiring tasks j := by
  have hlt := (List.getElem?_eq_some_iff.mp htask).1
  split_ifs with hj
  · subst hj
    unfold Acquiring
    rw [List.getElem?_set_self hlt]
    exact ⟨fun ⟨other, hother, hacquires⟩ => Option.some.inj hother ▸ hacquires, fun hacquires => ⟨_, rfl, hacquires⟩⟩
  · unfold Acquiring
    rw [List.getElem?_set_ne (Ne.symm hj)]

theorem acquiring_iff (htask : tasks[slot]? = some task) : Acquiring tasks slot ↔ acquires task = true := by
  unfold Acquiring
  rw [htask]
  exact ⟨fun ⟨other, hother, hacquires⟩ => Option.some.inj hother ▸ hacquires, fun hacquires => ⟨_, rfl, hacquires⟩⟩

theorem slots_push (h : Slots config shared.limiter tasks) (hholds : holds task = false) (hacquires : acquires task = false) :
    Slots config shared.limiter (tasks ++ [task]) := by
  refine ⟨?_, h.nodup, fun slot => (h.queued slot).trans (acquiring_push hacquires).symm, h.busy⟩
  rw [List.countP_append, List.countP_singleton, hholds, ← h.held]
  rfl

/-- The task neither gets nor gives back a slot, and does not wait for one. -/
theorem slots_set_same (h : Slots config shared.limiter tasks) (htask : tasks[slot]? = some task)
    (hlimiter : shared'.limiter = shared.limiter) (hholds : holds task' = holds task)
    (hacquires : acquires task' = acquires task) :
    Slots config shared'.limiter (tasks.set slot task') := by
  rw [hlimiter]
  refine ⟨h.held.trans (countP_set_same holds htask hholds).symm, h.nodup, fun j => ?_, h.busy⟩
  rw [h.queued, acquiring_set htask]
  split_ifs with hj
  · rw [hj, acquiring_iff htask, hacquires]
  · exact Iff.rfl

theorem slots_acts (h : Slots config shared.limiter tasks) (htask : tasks[slot]? = some task)
    (hacts : Acts config shared slot task action task' shared') :
    Slots config shared'.limiter (tasks.set slot task') := by
  have hcount := countP_set holds (u := task') htask
  cases hacts with
  | check hstage => exact slots_set_same h htask rfl (by simp only [holds, hstage]) (by simp only [acquires, hstage])
  | missing hstage =>
      exact slots_set_same h htask (reportFailure_spec _ _ _ _).1 (by simp only [holds, hstage])
        (by simp only [acquires, hstage])
  | submit hstage => exact slots_set_same h htask rfl (by simp only [holds, hstage]) (by simp only [acquires, hstage])
  | settle hstage => exact slots_set_same h htask rfl (by simp only [holds, hstage]) (by simp only [acquires, hstage])
  | conclude hstage =>
      exact slots_set_same h htask (conclude_spec _ _ _ _ _ _).1 (by simp only [holds, hstage])
        (by simp only [acquires, hstage])
  | grant hstage _ limiter hacquire =>
      obtain ⟨-, rfl⟩ := acquire_granted hacquire
      refine ⟨?_, h.nodup, fun j => ?_, acquire_busy h.busy hacquire⟩
      · simp only [holds, hstage] at hcount
        rw [h.held]
        exact hcount.symm
      · refine (h.queued j).trans ?_
        rw [acquiring_set htask]
        split_ifs with hj
        · rw [hj, acquiring_iff htask]
          simp only [acquires, hstage]
        · exact Iff.rfl
  | wait hstage _ limiter hacquire =>
      obtain ⟨-, rfl⟩ := acquire_refused hacquire
      have hnew : slot ∉ queue shared.limiter := by
        rw [h.queued, acquiring_iff htask]
        simp only [acquires, hstage]
        decide
      refine ⟨?_, ?_, fun j => ?_, acquire_busy h.busy hacquire⟩
      · simp only [holds, hstage] at hcount
        exact h.held.trans hcount.symm
      · rw [queue_push]
        exact (List.perm_append_singleton slot _).nodup_iff.mpr (List.nodup_cons.mpr ⟨hnew, h.nodup⟩)
      · rw [queue_push, List.mem_append, h.queued, List.mem_singleton, acquiring_set htask]
        split_ifs with hj
        · exact iff_of_true (.inr hj) rfl
        · exact or_iff_left hj
  | resume hstage limiter hresume =>
      obtain ⟨hqueue, hactive, -, -⟩ := resume_spec hresume
      have hnodup := hqueue ▸ h.nodup
      refine ⟨?_, hnodup.of_cons, fun j => ?_, resume_busy h.busy hresume⟩
      · simp only [holds, hstage] at hcount
        rw [hactive, h.held]
        exact hcount.symm
      · have hold := h.queued j
        rw [hqueue, List.mem_cons] at hold
        rw [acquiring_set htask]
        split_ifs with hj
        · subst hj
          exact iff_of_false (List.nodup_cons.mp hnodup).1 Bool.false_ne_true
        · rw [← hold, or_iff_right hj]
  | release hstage =>
      simp only [holds, hstage, if_true, Bool.false_eq_true, if_false, Nat.add_zero] at hcount
      have hactive : 0 < shared.limiter.active := by
        rw [h.held, ← hcount]
        exact Nat.succ_pos _
      refine ⟨?_, ?_, fun j => ?_, release_busy h.busy hactive⟩
      · dsimp only
        rw [release_active, h.held, ← hcount]
        rfl
      · dsimp only
        rw [release_queue]
        exact h.nodup
      · dsimp only
        rw [release_queue, h.queued, acquiring_set htask]
        split_ifs with hj
        · rw [hj, acquiring_iff htask]
          simp only [acquires, hstage]
        · exact Iff.rfl

end Slots

end SplitSdk.BatchTasks
