import SplitSdk.Interleaving
import SplitSdk.PaymentBatchScheduler

namespace SplitSdk.BatchOutcome

open Interleaving OrderedMap PaymentBatchScheduler PlatformTimers

section Statement

variable {P : Type}

structure Truthful (s : Scheduler P) : Prop where
  once : (s.executions.map Execution.batch).Nodup
  executed : ∀ execution ∈ s.executions, execution.succeeded →
    ∃ batch, s.batches.get? execution.batch = some batch ∧ batch.status = .executed
  cancelled : ∀ id batch, s.batches.get? id = some batch → batch.status = .cancelled →
    id ∉ s.executions.map Execution.batch

/-- The event leads to no untruthful state. -/
def Lawful (s : Scheduler P) (e : Event P) : Prop := ∀ t, step s e = some t → Truthful t

/-- No listener of `executed` throws. -/
def Sound (s : Scheduler P) : Event P → Prop
  | .notified k (.error _) => ∀ execution ∈ s.executions[k]?, execution.position ≠ .notifyingExecuted
  | _ => True

end Statement

section Invariant

variable {P : Type} {s t : Scheduler P}

/-- The status that a batch has during its execution. -/
def Matches (execution : Execution) (status : BatchStatus) : Prop :=
  match execution.position with
  | .awaitingExecutor => execution.succeeded = false ∧ status = .executing
  | .notifyingExecuted => execution.succeeded = true ∧ status = .executed
  | .notifyingFailed | .rejected _ => execution.succeeded = false ∧ status = .failed
  | .returned => status = if execution.succeeded then .executed else .failed

def Agrees (s : Scheduler P) (execution : Execution) : Prop :=
  ∃ batch, s.batches.get? execution.batch = some batch ∧ Matches execution batch.status

structure Inv (s : Scheduler P) : Prop where
  once : (s.executions.map Execution.batch).Nodup
  agrees : ∀ execution ∈ s.executions, Agrees s execution

theorem Matches.executed {execution : Execution} {status : BatchStatus} (h : Matches execution status)
    (hsucceeded : execution.succeeded) : status = .executed := by
  unfold Matches at h
  split at h
  · nomatch h.1.symm.trans hsucceeded
  · exact h.2
  · nomatch h.1.symm.trans hsucceeded
  · nomatch h.1.symm.trans hsucceeded
  · rwa [if_pos hsucceeded] at h

theorem Matches.begun {execution : Execution} {status : BatchStatus} (h : Matches execution status) :
    status ≠ .scheduled ∧ status ≠ .cancelled := by
  unfold Matches at h
  split at h
  · rw [h.2]
    exact ⟨nofun, nofun⟩
  · rw [h.2]
    exact ⟨nofun, nofun⟩
  · rw [h.2]
    exact ⟨nofun, nofun⟩
  · rw [h.2]
    exact ⟨nofun, nofun⟩
  · rw [h]
    split <;> exact ⟨nofun, nofun⟩

theorem Agrees.begun {execution : Execution} {batch : PaymentBatch P} (h : Agrees s execution)
    (hbatch : s.batches.get? execution.batch = some batch) :
    batch.status ≠ .scheduled ∧ batch.status ≠ .cancelled := by
  obtain ⟨held, hheld, hmatches⟩ := h
  obtain rfl : held = batch := Option.some.inj (hheld.symm.trans hbatch)
  exact hmatches.begun

theorem Inv.truthful (h : Inv s) : Truthful s := by
  refine ⟨h.once, ?_, ?_⟩
  · intro execution hexecution hsucceeded
    obtain ⟨batch, hbatch, hmatches⟩ := h.agrees execution hexecution
    exact ⟨batch, hbatch, hmatches.executed hsucceeded⟩
  · intro id batch hbatch hcancelled hmem
    obtain ⟨execution, hexecution, rfl⟩ := List.mem_map.mp hmem
    exact ((h.agrees execution hexecution).begun hbatch).2 hcancelled

/-- A batch that is still scheduled has not been executed. -/
theorem Inv.not_executed (h : Inv s) {id : String} {batch : PaymentBatch P}
    (hbatch : s.batches.get? id = some batch)
    (hstatus : batch.status = .scheduled) : id ∉ s.executions.map Execution.batch := by
  intro hmem
  obtain ⟨execution, hexecution, rfl⟩ := List.mem_map.mp hmem
  exact ((h.agrees execution hexecution).begun hbatch).1 hstatus

theorem Inv.not_executed_new (h : Inv s) {id : String} (hnew : s.batches.get? id = none) :
    id ∉ s.executions.map Execution.batch := by
  intro hmem
  obtain ⟨execution, hexecution, rfl⟩ := List.mem_map.mp hmem
  obtain ⟨batch, hbatch, -⟩ := h.agrees execution hexecution
  nomatch hnew.symm.trans hbatch

/-- The batches of the executions are as before. -/
theorem Inv.congr (h : Inv s) (hexecutions : t.executions = s.executions)
    (hbatches : ∀ id ∈ s.executions.map Execution.batch, t.batches.get? id = s.batches.get? id) :
    Inv t := by
  refine ⟨hexecutions ▸ h.once, ?_⟩
  intro execution hexecution
  rw [hexecutions] at hexecution
  obtain ⟨batch, hbatch, hmatches⟩ := h.agrees execution hexecution
  exact ⟨batch, (hbatches _ (List.mem_map_of_mem hexecution)).trans hbatch, hmatches⟩

theorem get?_set_of_notMem {id : String} {ids : List String} (hid : id ∉ ids)
    (batches : OrdMap String (PaymentBatch P)) (batch : PaymentBatch P) :
    ∀ other ∈ ids, (batches.set id batch).get? other = batches.get? other := by
  intro other hother
  rw [OrdMap.get?_set, if_neg]
  rintro rfl
  exact hid hother

/-- One execution moves on, with its batch, and the others keep theirs. -/
theorem Inv.move (h : Inv s) {k : Nat} {execution next : Execution}
    (hexecution : s.executions[k]? = some execution)
    (hexecutions : t.executions = s.executions.set k next) (hbatch : next.batch = execution.batch)
    (hothers : ∀ id, id ≠ execution.batch → t.batches.get? id = s.batches.get? id)
    (hnext : Agrees t next) : Inv t := by
  refine ⟨?_, ?_⟩
  · rw [hexecutions, map_set Execution.batch hexecution hbatch]
    exact h.once
  · intro other hother
    rw [hexecutions] at hother
    obtain ⟨j, hj⟩ := List.mem_iff_getElem?.mp hother
    rcases of_getElem?_set hj with ⟨-, rfl⟩ | ⟨hne, hold⟩
    · exact hnext
    · obtain ⟨batch, hheld, hmatches⟩ := h.agrees other (List.mem_of_getElem? hold)
      have hother : other.batch ≠ execution.batch :=
        fun heq => hne (eq_of_nodup_map Execution.batch h.once hold hexecution heq)
      exact ⟨batch, (hothers _ hother).trans hheld, hmatches⟩

end Invariant

section Steps

variable {P : Type} {s t : Scheduler P}

theorem Inv.timers (h : Inv s) (platform : Timers String) (timers : OrdMap String Nat) :
    Inv { s with platform, timers } :=
  h.congr rfl (fun _ _ => rfl)

theorem schedule_inv (h : Inv s) (payments : List P) (scheduledAt : Numbers.JsNumber)
    (id : Option String) :
    Inv (schedule s payments scheduledAt id).1 := by
  rcases schedule_cases s payments scheduledAt id with
    ⟨sequence, heq⟩ | ⟨newId, sequence, timers, hnew, heq⟩
  · rw [heq]
    exact h.congr rfl (fun _ _ => rfl)
  · rw [heq]
    exact h.congr rfl (get?_set_of_notMem (h.not_executed_new hnew) s.batches _)

theorem cancel_inv (h : Inv s) (id : String) : Inv (cancel s id).1 := by
  rcases cancel_cases s id with hsame | ⟨batch, hbatch, hstatus, heq⟩
  · rwa [hsame]
  · rw [heq]
    exact h.congr rfl (get?_set_of_notMem (h.not_executed hbatch hstatus) s.batches _)

theorem execute_inv (h : Inv s) (id : String) : Inv (execute s id) := by
  rcases execute_cases s id with hsame | ⟨batch, hbatch, hstatus, heq⟩
  · rwa [hsame]
  · have hnot := h.not_executed hbatch hstatus
    have hbegun : Inv (setBatch (disarmTimer s id) id { batch with status := .executing }) :=
      h.congr rfl (get?_set_of_notMem hnot s.batches _)
    rw [heq]
    refine ⟨?_, ?_⟩
    · rw [List.map_append]
      exact List.nodup_append'.mpr ⟨h.once, List.nodup_singleton id, List.disjoint_singleton.mpr hnot⟩
    · intro execution hexecution
      rcases List.mem_append.mp hexecution with hold | hnew
      · exact hbegun.agrees execution hold
      · rw [List.mem_singleton.mp hnew]
        exact ⟨_, (OrdMap.get?_set s.batches id id _).trans (if_pos rfl), rfl, rfl⟩

/-- An execution moves on and gives its batch another status. -/
theorem Inv.moveBatch (h : Inv s) {k : Nat} {execution next : Execution} {batch : PaymentBatch P}
    (hexecution : s.executions[k]? = some execution) (hbatch : next.batch = execution.batch)
    (hmatches : Matches next batch.status) :
    Inv (setExecution (setBatch s execution.batch batch) k next) := by
  have hset (id : String) := OrdMap.get?_set s.batches execution.batch id batch
  refine h.move hexecution rfl hbatch (fun id hid => (hset id).trans (if_neg hid)) ?_
  exact ⟨batch, (hset next.batch).trans (if_pos hbatch), hmatches⟩

theorem Inv.moveOnly (h : Inv s) {k : Nat} {execution next : Execution} {batch : PaymentBatch P}
    (hexecuting : executing s k = some (execution, batch)) (hbatch : next.batch = execution.batch)
    (hmatches : Matches execution batch.status → Matches next batch.status) :
    Inv (setExecution s k next) := by
  obtain ⟨hexecution, hget⟩ := executing_eq_some hexecuting
  refine h.move hexecution rfl hbatch (fun _ _ => rfl) ?_
  obtain ⟨held, hheld, hheldMatches⟩ := h.agrees execution (List.mem_of_getElem? hexecution)
  obtain rfl : held = batch := Option.some.inj (hheld.symm.trans hget)
  exact ⟨held, hbatch.symm ▸ hget, hmatches hheldMatches⟩

theorem answered_inv (h : Inv s) {k : Nat} {execution : Execution} {batch : PaymentBatch P}
    (hexecuting : executing s k = some (execution, batch))
    (hposition : execution.position = .awaitingExecutor)
    (answer : Except String Unit) : Inv (answered s k execution batch answer) := by
  obtain ⟨hexecution, hget⟩ := executing_eq_some hexecuting
  cases answer with
  | ok _ => exact h.moveBatch hexecution rfl ⟨rfl, rfl⟩
  | error message =>
      obtain ⟨held, -, hmatches⟩ := h.agrees execution (List.mem_of_getElem? hexecution)
      unfold Matches at hmatches
      rw [hposition] at hmatches
      exact h.moveBatch hexecution rfl ⟨hmatches.1, rfl⟩

theorem notifiedFailed_inv (h : Inv s) {k : Nat} {execution : Execution} {batch : PaymentBatch P}
    (hexecuting : executing s k = some (execution, batch))
    (hposition : execution.position = .notifyingFailed)
    (answer : Except String Unit) : Inv (notifiedFailed s k execution answer) := by
  have hfailed (hmatches : Matches execution batch.status) :
    execution.succeeded = false ∧ batch.status = .failed := by
    unfold Matches at hmatches
    rwa [hposition] at hmatches
  cases answer with
  | ok _ =>
      refine h.moveOnly hexecuting rfl (fun hmatches => ?_)
      obtain ⟨hnot, hstatus⟩ := hfailed hmatches
      exact hstatus.trans (if_neg (by simp [hnot])).symm
  | error message => exact h.moveOnly hexecuting rfl hfailed

theorem notifiedExecuted_inv (h : Inv s) {k : Nat} {execution : Execution} {batch : PaymentBatch P}
    (hexecuting : executing s k = some (execution, batch))
    (hposition : execution.position = .notifyingExecuted) :
    Inv (notifiedExecuted s k execution batch (.ok ())) := by
  refine h.moveOnly hexecuting rfl (fun hmatches => ?_)
  unfold Matches at hmatches
  rw [hposition] at hmatches
  exact hmatches.2.trans (if_pos hmatches.1).symm

/-- The batch fails although its executor has succeeded. -/
theorem throwing_listener (h : Inv s) (message : String) {k : Nat} {execution : Execution}
    {batch : PaymentBatch P}
    (hexecuting : executing s k = some (execution, batch))
    (hposition : execution.position = .notifyingExecuted) :
    ¬Truthful (notifiedExecuted s k execution batch (.error message)) := by
  intro htruthful
  obtain ⟨hexecution, -⟩ := executing_eq_some hexecuting
  obtain ⟨held, -, hmatches⟩ := h.agrees execution (List.mem_of_getElem? hexecution)
  unfold Matches at hmatches
  rw [hposition] at hmatches
  have hmem : { execution with position := .notifyingFailed } ∈
      s.executions.set k { execution with position := .notifyingFailed } :=
    List.mem_of_getElem? (List.getElem?_set_self (List.getElem?_eq_some_iff.mp hexecution).1)
  obtain ⟨after, hafter, hstatus⟩ := htruthful.executed _ hmem hmatches.1
  have hget := (OrdMap.get?_set s.batches execution.batch execution.batch
    { batch with status := .failed, error := some message }).trans (if_pos rfl)
  obtain rfl := Option.some.inj (hafter.symm.trans hget)
  nomatch hstatus

theorem step_inv (e : Event P) (h : Inv s) (hsound : Sound s e) (hstep : step s e = some t) :
    Inv t := by
  cases moves_of_step hstep with
  | schedule payments scheduledAt id => exact schedule_inv h payments scheduledAt id
  | cancel id => exact cancel_inv h id
  | dispose =>
      obtain ⟨platform, timers, heq, -⟩ := dispose_eq s
      rw [heq]
      exact h.timers platform timers
  | execute id => exact execute_inv h id
  | fire htimer hdue => exact execute_inv (h.timers _ _) _
  | answered answer hexecuting hposition => exact answered_inv h hexecuting hposition answer
  | notifiedExecuted answer hexecuting hposition =>
      cases answer with
      | ok _ => exact notifiedExecuted_inv h hexecuting hposition
      | error message => exact absurd hposition (hsound _ (executing_eq_some hexecuting).1)
  | notifiedFailed answer hexecuting hposition => exact notifiedFailed_inv h hexecuting hposition answer
  | elapse hms => exact h.congr rfl (fun _ _ => rfl)
  | setClock now => exact h.congr rfl (fun _ _ => rfl)

end Steps

section Result

variable {P : Type} {s t : Scheduler P}

theorem lawful_iff_sound (h : Inv s) (e : Event P) : Lawful s e ↔ Sound s e := by
  refine ⟨fun hlawful => ?_, fun hsound t ht => (step_inv e h hsound ht).truthful⟩
  cases e with
  | notified k answer =>
      cases answer with
      | ok _ => trivial
      | error message =>
          intro execution hexecution hposition
          obtain ⟨batch, hbatch, -⟩ := h.agrees execution (List.mem_of_getElem? hexecution)
          have hexecuting : executing s k = some (execution, batch) := by
            rw [executing, show s.executions[k]? = some execution from hexecution, Option.bind_some,
              hbatch]
            rfl
          refine throwing_listener h message hexecuting hposition (hlawful _ ?_)
          rw [step, hexecuting]
          dsimp only
          rw [hposition]
  | _ => trivial

theorem start_inv (maxBatchSize : Numbers.JsNumber) (now : ℚ) :
    Inv (start (P := P) maxBatchSize now) := ⟨.nil, nofun⟩

/-- The outcomes of the batches are what their statuses say exactly when no listener of `executed` throws. -/
theorem truthful_iff (maxBatchSize : Numbers.JsNumber) (now : ℚ) (es : List (Event P)) :
    Allowed step Lawful (start maxBatchSize now) es ↔ Allowed step Sound (start maxBatchSize now) es :=
  allowed_iff (fun _ e _ hi hlawful hstep => step_inv e hi ((lawful_iff_sound hi e).mp hlawful) hstep)
    (fun _ e hi => lawful_iff_sound hi e) (start_inv maxBatchSize now) es

end Result

section Runs

def oneBatch : List (Event Nat) :=
  [.schedule [5] (.finite 0) (some "b"), .execute "b", .answered 0 (.ok ())]

/-- The payments were made, and the batch says that it has failed. -/
theorem failed_after_success :
    ∃ s ∈ run step (start (.finite 100) 0) (oneBatch ++ [.notified 0 (.error "listener")]),
    s.executions.map Execution.succeeded = [true] ∧
      (s.batches.get? "b").map PaymentBatch.status = some .failed := by
  decide

end Runs

end SplitSdk.BatchOutcome
