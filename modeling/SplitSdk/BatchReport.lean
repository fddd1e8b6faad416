import SplitSdk.BatchTasks

namespace SplitSdk.BatchReport

open Interleaving InvoiceBatch BatchTasks
open ConcurrencyLimiter hiding Event step

section Statement

variable (invoiceIds : List String) (config : InvoiceBatchConfig)

structure Truthful (s : Process) : Prop where
  once : (s.yielded.map Prod.fst).Perm (List.range invoiceIds.length)
  elements : s.tasks.map Task.invoiceId = invoiceIds
  calls : ∀ task ∈ s.tasks, task.calls.length ≤ 1
  results : ∀ slot result, (slot, result) ∈ s.yielded → ∃ task, s.tasks[slot]? = some task ∧ Matches task result
  counted : s.shared.metrics.completed + s.shared.metrics.failed = invoiceIds.length

/-- `process` has thrown or returned. -/
def Ended (s : Process) : Prop := s.thrown.isSome ∨ s.inFlight = []

def Quiet (s : Process) : Event → Prop
  | .act slot action => ∀ task, s.tasks[slot]? = some task → QuietAction config task action
  | .race _ => True

end Statement

section Invariant

variable {invoiceIds : List String} {config : InvoiceBatchConfig} {s t : Process}

structure Sound (invoiceIds : List String) (config : InvoiceBatchConfig) (s : Process) : Prop where
  tasks : ∀ task ∈ s.tasks, TaskSound task
  elements : s.tasks.map Task.invoiceId = invoiceIds.take s.tasks.length
  flight : (s.inFlight ++ s.yielded.map Prod.fst).Perm (List.range s.tasks.length)
  results : ∀ slot result, (slot, result) ∈ s.yielded → s.tasks[slot]?.map Task.stage = some (.finished (.ok result))
  thrown : s.thrown.isSome → s.inFlight ≠ [] ∧ ∃ task ∈ s.tasks, ∃ error, task.stage = .finished (.error error)
  counted : s.tasks.countP finished ≤ count s.shared
  slots : Slots config s.shared.limiter s.tasks

/-- Every element of the list has its task as soon as none is in flight. -/
def Launched (invoiceIds : List String) (s : Process) : Prop := s.inFlight = [] → s.tasks.length = invoiceIds.length

/-- So far every task that has ended has a result and is counted once. -/
structure Clean (s : Process) : Prop where
  honest : ∀ task ∈ s.tasks, Honest task
  counted : count s.shared = s.tasks.countP finished

/-- A payment was counted twice, or a task has ended without a result. -/
def Spoiled (s : Process) : Prop :=
  s.tasks.countP finished < count s.shared ∨ ∃ task ∈ s.tasks, ∃ error, task.stage = .finished (.error error)

theorem launch_spec (invoiceIds : List String) (s : Process) :
    launch invoiceIds s = s ∧ invoiceIds.length ≤ s.tasks.length ∨
      ∃ invoiceId shared, invoiceIds[s.tasks.length]? = some invoiceId ∧ shared.limiter = s.shared.limiter ∧
        count shared = count s.shared ∧
        launch invoiceIds s = { s with
          shared
          tasks := s.tasks ++ [{ invoiceId }]
          inFlight := s.inFlight ++ [s.tasks.length] } := by
  unfold launch
  cases hnext : invoiceIds[s.tasks.length]? with
  | none => exact .inl ⟨rfl, List.getElem?_eq_none_iff.mp hnext⟩
  | some invoiceId =>
      let metrics := { s.shared.metrics with
        active := s.shared.metrics.active + 1
        queued := s.shared.metrics.queued + 1 }
      exact .inr ⟨invoiceId, { s.shared with metrics }, rfl, rfl, rfl, rfl⟩

theorem Sound.length_le (h : Sound invoiceIds config s) : s.tasks.length ≤ invoiceIds.length := by
  have hlength := congrArg List.length h.elements
  rw [List.length_map, List.length_take] at hlength
  omega

theorem launch_launched (hlength : s.tasks.length ≤ invoiceIds.length) : Launched invoiceIds (launch invoiceIds s) := by
  intro hempty
  rcases launch_spec invoiceIds s with ⟨heq, hle⟩ | ⟨invoiceId, shared, -, -, -, heq⟩
  · rw [heq]
    exact hlength.antisymm hle
  · rw [heq] at hempty
    exact absurd hempty (List.concat_ne_nil _ _)

theorem countP_launch (tasks : List InvoiceBatch.Task) (invoiceId : String) :
    (tasks ++ [({ invoiceId := invoiceId } : InvoiceBatch.Task)]).countP finished = tasks.countP finished := by
  rw [List.countP_append]
  rfl

theorem launch_sound (h : Sound invoiceIds config s) : Sound invoiceIds config (launch invoiceIds s) := by
  rcases launch_spec invoiceIds s with ⟨heq, -⟩ | ⟨invoiceId, shared, hnext, hlimiter, hcount, heq⟩
  · rw [heq]
    exact h
  · rw [heq]
    obtain ⟨hlt, rfl⟩ := List.getElem?_eq_some_iff.mp hnext
    refine ⟨?_, ?_, ?_, fun slot result hyielded => ?_, fun hthrown => ?_, ?_, ?_⟩
    · rintro task htask
      rcases List.mem_append.mp htask with hold | hnew
      · exact h.tasks task hold
      · obtain rfl := List.mem_singleton.mp hnew
        exact ⟨rfl, rfl⟩
    · dsimp only
      rw [List.map_append, h.elements, List.length_append, List.length_singleton, List.map_singleton]
      exact List.take_append_getElem hlt
    · have hflight := h.flight
      dsimp only
      rw [List.length_append, List.length_singleton, List.range_succ, List.append_assoc]
      exact (List.perm_append_comm.append_left _).trans
        ((List.append_assoc _ _ _).symm ▸ hflight.append_right [s.tasks.length])
    · have hold := h.results slot result hyielded
      obtain ⟨task, htask, -⟩ := Option.map_eq_some_iff.mp hold
      dsimp only
      rw [List.getElem?_append_left (List.getElem?_eq_some_iff.mp htask).1]
      exact hold
    · obtain ⟨-, task, htask, herror⟩ := h.thrown hthrown
      exact ⟨List.concat_ne_nil _ _, task, List.mem_append_left _ htask, herror⟩
    · dsimp only
      rw [countP_launch, hcount]
      exact h.counted
    · exact hlimiter.symm ▸ slots_push h.slots rfl rfl

theorem launch_clean (h : Clean s) : Clean (launch invoiceIds s) := by
  rcases launch_spec invoiceIds s with ⟨heq, -⟩ | ⟨invoiceId, shared, -, -, hcount, heq⟩
  · rw [heq]
    exact h
  · rw [heq]
    refine ⟨?_, ?_⟩
    · rintro task htask
      rcases List.mem_append.mp htask with hold | hnew
      · exact h.honest task hold
      · obtain rfl := List.mem_singleton.mp hnew
        exact honest_of_unfinished rfl
    · dsimp only
      rw [countP_launch, hcount]
      exact h.counted

theorem launch_spoiled (h : Spoiled s) : Spoiled (launch invoiceIds s) := by
  rcases launch_spec invoiceIds s with ⟨heq, -⟩ | ⟨invoiceId, shared, -, -, hcount, heq⟩
  · rw [heq]
    exact h
  · rw [heq]
    rcases h with hlt | ⟨task, htask, herror⟩
    · refine .inl ?_
      dsimp only
      rw [countP_launch, hcount]
      exact hlt
    · exact .inr ⟨task, List.mem_append_left _ htask, herror⟩

end Invariant

section Steps

variable {invoiceIds : List String} {config : InvoiceBatchConfig} {s t : Process} {slot : Nat} {action : Action}
  {task task' : InvoiceBatch.Task} {shared : Shared}

theorem act_step (h : step invoiceIds config s (.act slot action) = some t) :
    ∃ task task' shared, s.tasks[slot]? = some task ∧ Acts config s.shared slot task action task' shared ∧
      t = { s with tasks := s.tasks.set slot task', shared } := by
  obtain ⟨task, htask, h⟩ := Option.bind_eq_some_iff.mp h
  obtain ⟨⟨task', shared⟩, hact, rfl⟩ := Option.map_eq_some_iff.mp h
  exact ⟨task, task', shared, htask, act_spec hact, rfl⟩

theorem launch_yield (invoiceIds : List String) (s : Process) (inFlight : List Nat) (yield : Nat × BatchInvoiceResult) :
    { launch invoiceIds { s with inFlight } with
        yielded := (launch invoiceIds { s with inFlight }).yielded ++ [yield] } =
      launch invoiceIds { s with inFlight, yielded := s.yielded ++ [yield] } := by
  unfold launch
  dsimp only
  cases invoiceIds[s.tasks.length]? <;> rfl

inductive Races (invoiceIds : List String) (s : Process) (slot : Nat) : Process → Prop
  | yields {task : InvoiceBatch.Task} {result : BatchInvoiceResult} (task_eq : s.tasks[slot]? = some task)
      (stage : task.stage = .finished (.ok result)) :
      Races invoiceIds s slot
        (launch invoiceIds { s with inFlight := s.inFlight.erase slot, yielded := s.yielded ++ [(slot, result)] })
  | throws {task : InvoiceBatch.Task} {error : Failure} (task_eq : s.tasks[slot]? = some task)
      (stage : task.stage = .finished (.error error)) : Races invoiceIds s slot { s with thrown := some error }

theorem race_spec (h : race invoiceIds s slot = some t) :
    s.thrown = none ∧ slot ∈ s.inFlight ∧ Races invoiceIds s slot t := by
  unfold race at h
  split_ifs at h with hracing
  refine ⟨hracing.1, hracing.2, ?_⟩
  split at h
  next result hstage =>
    cases h
    obtain ⟨task, htask, hstage⟩ := Option.map_eq_some_iff.mp hstage
    rw [launch_yield]
    exact .yields htask hstage
  next error hstage =>
    cases h
    obtain ⟨task, htask, hstage⟩ := Option.map_eq_some_iff.mp hstage
    exact .throws htask hstage
  next => cases h

theorem finished_iff : finished task = true ↔ ∃ outcome, task.stage = .finished outcome := by
  unfold finished
  constructor
  · intro h
    split at h
    next outcome hstage => exact ⟨outcome, hstage⟩
    next => cases h
  · rintro ⟨outcome, hstage⟩
    rw [hstage]

/-- A task that has ended is no longer the one that moves on. -/
theorem finished_set {tasks : List InvoiceBatch.Task} {j : Nat} {other : InvoiceBatch.Task} {outcome}
    (htask : tasks[slot]? = some task) (hunfinished : finished task = false) (hother : tasks[j]? = some other)
    (hstage : other.stage = .finished outcome) :
    (tasks.set slot task')[j]? = some other := by
  have hne : slot ≠ j := by
    rintro rfl
    obtain rfl := Option.some.inj (htask.symm.trans hother)
    cases hunfinished.symm.trans (finished_iff.mpr ⟨_, hstage⟩)
  exact (List.getElem?_set_ne hne).trans hother

theorem error_set {tasks : List InvoiceBatch.Task} (htask : tasks[slot]? = some task) (hunfinished : finished task = false)
    (h : ∃ other ∈ tasks, ∃ error, other.stage = .finished (.error error)) :
    ∃ other ∈ tasks.set slot task', ∃ error, other.stage = .finished (.error error) := by
  obtain ⟨other, hother, error, hstage⟩ := h
  obtain ⟨j, hj⟩ := List.mem_iff_getElem?.mp hother
  exact ⟨other, List.mem_of_getElem? (finished_set htask hunfinished hj hstage), error, hstage⟩

theorem countP_finished (htask : s.tasks[slot]? = some task) (hunfinished : finished task = false) :
    (s.tasks.set slot task').countP finished = s.tasks.countP finished + if finished task' then 1 else 0 := by
  have hcount := countP_set finished (u := task') htask
  rw [hunfinished] at hcount
  exact hcount

theorem sound_act (h : Sound invoiceIds config s) (htask : s.tasks[slot]? = some task)
    (hacts : Acts config s.shared slot task action task' shared) :
    Sound invoiceIds config { s with tasks := s.tasks.set slot task', shared } := by
  have hunfinished := not_finished_of_acts hacts
  have hlength : (s.tasks.set slot task').length = s.tasks.length := List.length_set
  refine ⟨?_, ?_, ?_, fun j result hyielded => ?_, fun hthrown => ?_, ?_, slots_acts h.slots htask hacts⟩
  · exact forall_mem_set h.tasks (acts_sound hacts (h.tasks task (List.mem_of_getElem? htask)))
  · rw [hlength, ← h.elements]
    exact map_set Task.invoiceId htask (acts_invoiceId hacts)
  · rw [hlength]
    exact h.flight
  · obtain ⟨other, hother, hstage⟩ := Option.map_eq_some_iff.mp (h.results j result hyielded)
    exact Option.map_eq_some_iff.mpr ⟨other, finished_set htask hunfinished hother hstage, hstage⟩
  · exact ⟨(h.thrown hthrown).1, error_set htask hunfinished (h.thrown hthrown).2⟩
  · rw [countP_finished htask hunfinished]
    exact (Nat.add_le_add_right h.counted _).trans (acts_count hacts)

theorem sound_race (h : Sound invoiceIds config s) (hnone : s.thrown = none) (hmem : slot ∈ s.inFlight) (hraces : Races invoiceIds s slot t) :
    Sound invoiceIds config t := by
  cases hraces with
  | @yields task result htask hstage =>
      refine launch_sound ⟨h.tasks, h.elements, ?_, fun j other hyielded => ?_, ?_, h.counted, h.slots⟩
      · have hflight := ((List.perm_cons_erase hmem).append_right (s.yielded.map Prod.fst)).symm.trans h.flight
        rw [List.map_append]
        exact (List.perm_middle.symm.trans (((List.perm_append_singleton slot _).symm.append_left _))).symm.trans hflight
      · rcases List.mem_append.mp hyielded with hold | hnew
        · exact h.results j other hold
        · cases List.mem_singleton.mp hnew
          exact Option.map_eq_some_iff.mpr ⟨task, htask, hstage⟩
      · intro hsome
        rw [hnone] at hsome
        cases hsome
  | @throws task error htask hstage =>
      exact ⟨h.tasks, h.elements, h.flight, h.results,
        fun _ => ⟨List.ne_nil_of_mem hmem, task, List.mem_of_getElem? htask, error, hstage⟩, h.counted, h.slots⟩

theorem step_sound {e : InvoiceBatch.Event} (h : Sound invoiceIds config s) (hstep : step invoiceIds config s e = some t) :
    Sound invoiceIds config t := by
  cases e with
  | act slot action =>
      obtain ⟨task, task', shared, htask, hacts, rfl⟩ := act_step hstep
      exact sound_act h htask hacts
  | race slot =>
      obtain ⟨hnone, hmem, hraces⟩ := race_spec hstep
      exact sound_race h hnone hmem hraces

theorem step_launched {e : InvoiceBatch.Event} (h : Sound invoiceIds config s) (hlaunched : Launched invoiceIds s)
    (hstep : step invoiceIds config s e = some t) : Launched invoiceIds t := by
  cases e with
  | act slot action =>
      obtain ⟨task, task', shared, -, -, rfl⟩ := act_step hstep
      exact fun hempty => List.length_set.trans (hlaunched hempty)
  | race slot =>
      obtain ⟨hnone, hmem, hraces⟩ := race_spec hstep
      cases hraces with
      | yields => exact launch_launched h.length_le
      | throws => exact hlaunched

theorem clean_act (h : Sound invoiceIds config s) (hclean : Clean s) (htask : s.tasks[slot]? = some task)
    (hacts : Acts config s.shared slot task action task' shared) (hquiet : QuietAction config task action) :
    Clean { s with tasks := s.tasks.set slot task', shared } := by
  obtain ⟨hhonest, hcount⟩ := acts_honest hacts hquiet (h.tasks task (List.mem_of_getElem? htask))
  refine ⟨forall_mem_set hclean.honest hhonest, ?_⟩
  dsimp only
  rw [countP_finished htask (not_finished_of_acts hacts), hcount, hclean.counted]

theorem step_clean {e : InvoiceBatch.Event} (h : Sound invoiceIds config s) (hclean : Clean s) (hquiet : Quiet config s e)
    (hstep : step invoiceIds config s e = some t) : Clean t := by
  cases e with
  | act slot action =>
      obtain ⟨task, task', shared, htask, hacts, rfl⟩ := act_step hstep
      exact clean_act h hclean htask hacts (hquiet task htask)
  | race slot =>
      obtain ⟨-, -, hraces⟩ := race_spec hstep
      cases hraces with
      | yields => exact launch_clean ⟨hclean.honest, hclean.counted⟩
      | throws => exact ⟨hclean.honest, hclean.counted⟩

theorem spoiled_act (h : Spoiled s) (htask : s.tasks[slot]? = some task)
    (hacts : Acts config s.shared slot task action task' shared) :
    Spoiled { s with tasks := s.tasks.set slot task', shared } := by
  have hunfinished := not_finished_of_acts hacts
  rcases h with hlt | herror
  · refine .inl ?_
    dsimp only
    rw [countP_finished htask hunfinished]
    exact (Nat.add_lt_add_right hlt _).trans_le (acts_count hacts)
  · exact .inr (error_set htask hunfinished herror)

theorem step_spoiled {e : InvoiceBatch.Event} (h : Spoiled s) (hstep : step invoiceIds config s e = some t) : Spoiled t := by
  cases e with
  | act slot action =>
      obtain ⟨task, task', shared, htask, hacts, rfl⟩ := act_step hstep
      exact spoiled_act h htask hacts
  | race slot =>
      obtain ⟨-, -, hraces⟩ := race_spec hstep
      cases hraces with
      | yields => exact launch_spoiled h
      | throws => exact h

theorem step_loud {e : InvoiceBatch.Event} (h : Sound invoiceIds config s) (hloud : ¬ Quiet config s e)
    (hstep : step invoiceIds config s e = some t) : Spoiled t := by
  cases e with
  | act slot action =>
      obtain ⟨task, task', shared, htask, hacts, rfl⟩ := act_step hstep
      have hloud : ¬ QuietAction config task action :=
        fun hquiet => hloud (fun other hother => Option.some.inj (htask.symm.trans hother) ▸ hquiet)
      rcases acts_loud hacts hloud with hlt | ⟨error, herror⟩
      · refine .inl ?_
        dsimp only
        rw [countP_finished htask (not_finished_of_acts hacts)]
        exact (Nat.add_le_add_right h.counted _).trans_lt hlt
      · have hlt := (List.getElem?_eq_some_iff.mp htask).1
        exact .inr ⟨task', List.mem_of_getElem? (List.getElem?_set_self hlt), error, herror⟩
  | race slot => exact absurd trivial hloud

end Steps

section Progress

variable {invoiceIds : List String} {config : InvoiceBatchConfig} {s t : Process} {slot : Nat}
  {task : InvoiceBatch.Task}

/-- The actions of all tasks so far, and the outcomes that the loop has taken. -/
def taken (s : Process) : Nat :=
  (s.tasks.map (fun task => rank task.stage)).sum + s.yielded.length + if s.thrown.isSome then 1 else 0

theorem taken_launch (invoiceIds : List String) (s : Process) : taken (launch invoiceIds s) = taken s := by
  rcases launch_spec invoiceIds s with ⟨heq, -⟩ | ⟨invoiceId, shared, -, -, -, heq⟩
  · rw [heq]
  · rw [heq, taken, taken]
    dsimp only
    rw [List.map_append, List.sum_append]
    rfl

theorem step_taken {e : InvoiceBatch.Event} (hstep : step invoiceIds config s e = some t) : taken s + 1 ≤ taken t := by
  cases e with
  | act slot action =>
      obtain ⟨task, task', shared, htask, hacts, rfl⟩ := act_step hstep
      have hrank := acts_rank hacts
      have hsum := sum_set (fun task : InvoiceBatch.Task => rank task.stage) s.tasks slot task task' htask
      unfold taken
      dsimp only at hsum ⊢
      omega
  | race slot =>
      obtain ⟨hnone, -, hraces⟩ := race_spec hstep
      cases hraces with
      | yields =>
          rw [taken_launch, taken, taken]
          dsimp only
          rw [List.length_append, List.length_singleton]
          omega
      | throws =>
          rw [taken, taken, hnone]
          exact le_refl _

theorem run_taken {events : List InvoiceBatch.Event} (hrun : run (step invoiceIds config) s events = some t) :
    taken s + events.length ≤ taken t := by
  induction events generalizing s with
  | nil =>
      cases hrun
      exact le_refl _
  | cons e events ih =>
      obtain ⟨u, hu, hrest⟩ := run_cons hrun
      have hfirst := step_taken hu
      have hlater := ih hrest
      rw [List.length_cons]
      omega

theorem sum_rank_le (tasks : List InvoiceBatch.Task) : (tasks.map (fun task => rank task.stage)).sum ≤ 7 * tasks.length := by
  induction tasks with
  | nil => exact le_refl _
  | cons task tasks ih =>
      have hrank := rank_le task.stage
      rw [List.map_cons, List.sum_cons, List.length_cons]
      omega

theorem taken_le (h : Sound invoiceIds config s) : taken s ≤ 8 * invoiceIds.length := by
  have hlength := h.length_le
  have hsum := sum_rank_le s.tasks
  have hflight := h.flight.length_eq
  rw [List.length_append, List.length_map, List.length_range] at hflight
  unfold taken
  split_ifs with hthrown
  · have hpos := List.length_pos_iff.mpr (h.thrown hthrown).1
    omega
  · omega

theorem can_act (action : Action) (htask : s.tasks[slot]? = some task)
    (hact : (act config s.shared slot task action).isSome) :
    ∃ e t, step invoiceIds config s e = some t := by
  obtain ⟨outcome, houtcome⟩ := Option.isSome_iff_exists.mp hact
  refine ⟨.act slot action, { s with tasks := s.tasks.set slot outcome.1, shared := outcome.2 }, ?_⟩
  rw [step, htask, Option.bind_some, houtcome]
  rfl

theorem can_go_on_of_holds (htask : s.tasks[slot]? = some task) (hholds : holds task) :
    ∃ e t, step invoiceIds config s e = some t := by
  cases hstage : task.stage with
  | granted amount => exact can_act .submit htask (by simp only [act, hstage]; rfl)
  | submitting => exact can_act (.settle (.resolved "")) htask (by simp only [act, hstage]; rfl)
  | settled outcome => exact can_act .release htask (by simp only [act, hstage]; rfl)
  | _ =>
      unfold holds at hholds
      rw [hstage] at hholds
      cases hholds

theorem acquires_iff : acquires task = true ↔ ∃ amount, task.stage = .acquiring amount := by
  unfold acquires
  constructor
  · intro h
    split at h
    next amount hstage => exact ⟨amount, hstage⟩
    next => cases h
  · rintro ⟨amount, hstage⟩
    rw [hstage]

/-- Somebody who waits for a slot was woken, or all slots are held. -/
theorem can_go_on_of_acquires (h : Sound invoiceIds config s) (htask : s.tasks[slot]? = some task) (hacquires : acquires task) :
    ∃ e t, step invoiceIds config s e = some t := by
  have hqueued := (h.slots.queued slot).mpr ⟨task, htask, hacquires⟩
  cases hwoken : s.shared.limiter.woken with
  | cons first woken =>
      have hresume : resume s.shared.limiter = some (first, { s.shared.limiter with
          active := s.shared.limiter.active + 1
          woken }) := by
        rw [resume, hwoken]
      obtain ⟨other, hother, hother'⟩ := (h.slots.queued first).mp (by
        rw [queue, hwoken]
        exact List.mem_cons_self)
      obtain ⟨amount, hstage⟩ := acquires_iff.mp hother'
      exact can_act .resume hother (by simp only [act, hstage, hresume, if_pos]; rfl)
  | nil =>
      rw [queue, hwoken] at hqueued
      have hbusy := h.slots.busy (List.ne_nil_of_mem hqueued)
      rw [hwoken, h.slots.held] at hbusy
      obtain ⟨other, hother, hholds⟩ := List.countP_pos_iff.mp (config.maxConcurrent.2.trans hbusy)
      obtain ⟨j, hj⟩ := List.mem_iff_getElem?.mp hother
      exact can_go_on_of_holds hj hholds

theorem can_go_on (h : Sound invoiceIds config s) (hended : ¬ Ended s) : ∃ e t, step invoiceIds config s e = some t := by
  obtain ⟨hnone, hflight⟩ := not_or.mp hended
  obtain ⟨slot, hslot⟩ := List.exists_mem_of_ne_nil _ hflight
  have hlt := List.mem_range.mp (h.flight.subset (List.mem_append_left _ hslot))
  have htask := List.getElem?_eq_getElem hlt
  generalize s.tasks[slot] = task at htask
  cases hstage : task.stage with
  | waiting => exact can_act (.check s.shared.pausedUntil) htask (by simp only [act, hstage, le_refl, if_pos]; rfl)
  | cleared =>
      refine can_act (.proceed {}) htask ?_
      simp only [act, hstage]
      cases config.amounts task.invoiceId <;> rfl
  | acquiring amount => exact can_go_on_of_acquires h htask (acquires_iff.mpr ⟨amount, hstage⟩)
  | granted => exact can_go_on_of_holds htask (by simp only [holds, hstage])
  | submitting => exact can_go_on_of_holds htask (by simp only [holds, hstage])
  | settled => exact can_go_on_of_holds htask (by simp only [holds, hstage])
  | released outcome => exact can_act (.conclude 0 {}) htask (by simp only [act, hstage]; rfl)
  | finished outcome =>
      have hracing : s.thrown = none ∧ slot ∈ s.inFlight := ⟨Option.not_isSome_iff_eq_none.mp hnone, hslot⟩
      refine ⟨.race slot, ?_⟩
      rw [step, race, if_pos hracing, htask, Option.map_some, hstage]
      cases outcome <;> exact ⟨_, rfl⟩

end Progress

section Reports

variable {invoiceIds : List String} {config : InvoiceBatchConfig} {s t : Process}

theorem launches_invariant {P : Process → Prop} (h : ∀ s, P s → P (launch invoiceIds s)) (n : Nat) (hs : P s) :
    P (launches invoiceIds n s) := by
  induction n generalizing s with
  | zero => exact hs
  | succ n ih => exact ih (h s hs)

theorem launches_succ (invoiceIds : List String) (n : Nat) (s : Process) :
    launches invoiceIds (n + 1) s = launch invoiceIds (launches invoiceIds n s) := by
  induction n generalizing s with
  | zero => rfl
  | succ n ih => exact ih (launch invoiceIds s)

theorem launches_sound (invoiceIds : List String) (config : InvoiceBatchConfig) (n : Nat) :
    Sound invoiceIds config (launches invoiceIds n {}) := by
  refine launches_invariant (P := Sound invoiceIds config) (fun s => launch_sound) n
    ⟨?_, rfl, List.Perm.nil, ?_, ?_, le_refl _, slots_init⟩
  · exact fun task htask => absurd htask List.not_mem_nil
  · exact fun slot result hyielded => absurd hyielded List.not_mem_nil
  · exact fun hsome => Bool.noConfusion hsome

theorem start_sound (invoiceIds : List String) (config : InvoiceBatchConfig) :
    Sound invoiceIds config (start invoiceIds config) := launches_sound invoiceIds config _

theorem start_launched (invoiceIds : List String) (config : InvoiceBatchConfig) :
    Launched invoiceIds (start invoiceIds config) := by
  unfold start
  cases hn : min config.maxConcurrent.1 invoiceIds.length with
  | zero =>
      have hone := config.maxConcurrent.2
      intro
      change 0 = invoiceIds.length
      omega
  | succ n =>
      -- the last launch is made in a state with at most one task an element
      rw [launches_succ]
      exact launch_launched (launches_sound invoiceIds config n).length_le

theorem start_clean (invoiceIds : List String) (config : InvoiceBatchConfig) : Clean (start invoiceIds config) := by
  refine launches_invariant (P := Clean) (fun s => launch_clean) _ ⟨?_, rfl⟩
  exact fun task htask => absurd htask List.not_mem_nil

theorem start_taken (invoiceIds : List String) (config : InvoiceBatchConfig) : taken (start invoiceIds config) = 0 :=
  launches_invariant (P := fun s => taken s = 0) (fun s hs => (taken_launch invoiceIds s).trans hs) _ rfl

theorem length_tasks_of_once (h : Sound invoiceIds config s)
    (honce : (s.yielded.map Prod.fst).Perm (List.range invoiceIds.length)) : s.tasks.length = invoiceIds.length := by
  have hlength := h.length_le
  have hflight := h.flight.length_eq
  have hyielded := honce.length_eq
  rw [List.length_append, List.length_range] at hflight
  rw [List.length_range] at hyielded
  omega

/-- Every task has ended with a result when one is yielded for every element. -/
theorem stages_of_once (h : Sound invoiceIds config s)
    (honce : (s.yielded.map Prod.fst).Perm (List.range invoiceIds.length)) :
    ∀ task ∈ s.tasks, ∃ result, task.stage = .finished (.ok result) := by
  intro task htask
  obtain ⟨slot, hslot⟩ := List.mem_iff_getElem?.mp htask
  have hlt := (List.getElem?_eq_some_iff.mp hslot).1
  rw [length_tasks_of_once h honce] at hlt
  obtain ⟨⟨_, result⟩, hyielded, rfl⟩ := List.mem_map.mp (honce.mem_iff.mpr (List.mem_range.mpr hlt))
  have hstage := h.results _ _ hyielded
  rw [hslot] at hstage
  exact ⟨result, Option.some.inj hstage⟩

theorem countP_of_once (h : Sound invoiceIds config s)
    (honce : (s.yielded.map Prod.fst).Perm (List.range invoiceIds.length)) :
    s.tasks.countP finished = invoiceIds.length := by
  rw [← length_tasks_of_once h honce, List.countP_eq_length]
  intro task htask
  obtain ⟨result, hstage⟩ := stages_of_once h honce task htask
  exact finished_iff.mpr ⟨_, hstage⟩

theorem not_spoiled (h : Sound invoiceIds config s) (htruthful : Truthful invoiceIds s) : ¬ Spoiled s := by
  rintro (hlt | ⟨task, htask, error, herror⟩)
  · rw [countP_of_once h htruthful.once] at hlt
    exact hlt.ne htruthful.counted.symm
  · obtain ⟨result, hstage⟩ := stages_of_once h htruthful.once task htask
    cases hstage.symm.trans herror

theorem truthful_of_clean (h : Sound invoiceIds config s) (hlaunched : Launched invoiceIds s) (hclean : Clean s)
    (hended : Ended s) : Truthful invoiceIds s := by
  have hempty : s.inFlight = [] := by
    rcases hended with hthrown | hempty
    · obtain ⟨-, task, htask, error, herror⟩ := h.thrown hthrown
      obtain ⟨result, hresult, -⟩ := hclean.honest task htask _ herror
      cases hresult
    · exact hempty
  have honce : (s.yielded.map Prod.fst).Perm (List.range invoiceIds.length) := by
    have hflight := h.flight
    rwa [hempty, List.nil_append, hlaunched hempty] at hflight
  refine ⟨honce, ?_, fun task htask => (h.tasks task htask).calls, fun slot result hyielded => ?_, ?_⟩
  · rw [h.elements, hlaunched hempty, List.take_length]
  · obtain ⟨task, htask, hstage⟩ := Option.map_eq_some_iff.mp (h.results slot result hyielded)
    obtain ⟨result', hresult, hmatches⟩ := hclean.honest task (List.mem_of_getElem? htask) _ hstage
    cases hresult
    exact ⟨task, htask, hmatches⟩
  · exact hclean.counted.trans (countP_of_once h honce)

/-- No handler throws, whether it is called or not. -/
def Silent : InvoiceBatch.Event → Prop
  | .act _ (.proceed listeners) => emit listeners = none
  | .act _ (.conclude _ audience) => emit audience.batchInvoiceSettled = none ∧ emit audience.batchInvoiceFailed = none
  | _ => True

theorem allowed_of_silent {events : List InvoiceBatch.Event} (h : ∀ e ∈ events, Silent e) :
    Allowed (step invoiceIds config) (Quiet config) s events := by
  refine allowed_mono (fun s e hsilent => ?_) (allowed_of_forall s h)
  cases e with
  | race => trivial
  | act slot action =>
      intro task htask
      cases action with
      | proceed => exact fun _ => hsilent
      | conclude => exact ⟨fun _ _ => hsilent.1, fun _ _ => hsilent.2⟩
      | _ => trivial

def steps (audience : Audience) : List InvoiceBatch.Event :=
  [.act 0 (.check 0), .act 0 (.proceed {}), .act 0 .submit, .act 0 (.settle (.resolved "hash")), .act 0 .release,
    .act 0 (.conclude 0 audience), .race 0]

end Reports

end SplitSdk.BatchReport
