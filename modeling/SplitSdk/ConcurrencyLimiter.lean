import Mathlib.Algebra.Order.Group.Nat
import SplitSdk.Interleaving

namespace SplitSdk.ConcurrencyLimiter

open Interleaving

section Limiter

abbrev Limit := {limit : Nat // 1 ≤ limit}

/-- Callers are known by their numbers. One that was woken is no waiter any more, and is still to take its slot. -/
structure Limiter where
  active : Nat := 0
  waiters : List Nat := []
  woken : List Nat := []
  deriving DecidableEq

variable (limit : Limit) (l : Limiter)

/-- The call of `acquire`, and whether the slot is granted at once. -/
def acquire (caller : Nat) : Bool × Limiter :=
  if l.active < limit.1 then (true, { l with active := l.active + 1 })
  else (false, { l with waiters := l.waiters ++ [caller] })

/-- The end of an `acquire` that had to wait. Those that were woken resume in the order in which they were woken. -/
def resume : Option (Nat × Limiter) :=
  match l.woken with
  | [] => none
  | caller :: woken => some (caller, { l with active := l.active + 1, woken })

def release : Limiter :=
  match l.waiters with
  | [] => { l with active := l.active - 1 }
  | next :: waiters => { active := l.active - 1, waiters, woken := l.woken ++ [next] }

/-- Those that wait for a slot or were woken for one, in the order in which they will resume. -/
def queue : List Nat := l.woken ++ l.waiters

/-- Nobody waits beside a slot that no woken caller will take. -/
def Busy : Prop := l.waiters ≠ [] → limit.1 ≤ l.active + l.woken.length

variable {limit l} {caller : Nat} {granted : Bool} {l' : Limiter}

theorem acquire_granted (h : acquire limit l caller = (true, l')) :
    l.active < limit.1 ∧ l' = { l with active := l.active + 1 } := by
  unfold acquire at h
  split_ifs at h with hfree
  · exact ⟨hfree, (congrArg Prod.snd h).symm⟩
  · cases congrArg Prod.fst h

theorem acquire_refused (h : acquire limit l caller = (false, l')) :
    ¬ l.active < limit.1 ∧ l' = { l with waiters := l.waiters ++ [caller] } := by
  unfold acquire at h
  split_ifs at h with hfree
  · cases congrArg Prod.fst h
  · exact ⟨hfree, (congrArg Prod.snd h).symm⟩

theorem queue_push (l : Limiter) (caller : Nat) : queue { l with waiters := l.waiters ++ [caller] } = queue l ++ [caller] :=
  (List.append_assoc _ _ _).symm

theorem resume_spec (h : resume l = some (caller, l')) :
    queue l = caller :: queue l' ∧ l'.active = l.active + 1 ∧ l.woken.length = l'.woken.length + 1 ∧ l'.waiters = l.waiters := by
  unfold resume at h
  unfold queue
  cases hwoken : l.woken with
  | nil =>
      rw [hwoken] at h
      cases h
  | cons first woken =>
      rw [hwoken] at h
      cases h
      exact ⟨rfl, rfl, rfl, rfl⟩

theorem release_nil (h : l.waiters = []) : release l = ⟨l.active - 1, [], l.woken⟩ := by
  rw [release, h]

theorem release_cons {next : Nat} {waiters : List Nat} (h : l.waiters = next :: waiters) :
    release l = ⟨l.active - 1, waiters, l.woken ++ [next]⟩ := by
  rw [release, h]

theorem release_queue (l : Limiter) : queue (release l) = queue l := by
  unfold queue
  cases hwaiters : l.waiters with
  | nil => rw [release_nil hwaiters]
  | cons next waiters =>
      rw [release_cons hwaiters]
      exact List.append_assoc _ _ _

theorem release_active (l : Limiter) : (release l).active = l.active - 1 := by
  cases hwaiters : l.waiters with
  | nil => rw [release_nil hwaiters]
  | cons next waiters => rw [release_cons hwaiters]

theorem release_woken (l : Limiter) : (release l).woken.length ≤ l.woken.length + 1 := by
  cases hwaiters : l.waiters with
  | nil =>
      rw [release_nil hwaiters]
      exact Nat.le_succ _
  | cons next waiters =>
      rw [release_cons hwaiters, List.length_append]
      exact le_refl _

theorem acquire_busy (h : Busy limit l) (hacquire : acquire limit l caller = (granted, l')) : Busy limit l' := by
  cases granted with
  | true =>
      obtain ⟨-, rfl⟩ := acquire_granted hacquire
      intro hwaiters
      have hbusy := h hwaiters
      dsimp only
      omega
  | false =>
      obtain ⟨hfull, rfl⟩ := acquire_refused hacquire
      exact fun _ => Nat.le_trans (Nat.not_lt.mp hfull) (Nat.le_add_right _ _)

theorem resume_busy (h : Busy limit l) (hresume : resume l = some (caller, l')) : Busy limit l' := by
  obtain ⟨-, hactive, hwoken, hwaiters⟩ := resume_spec hresume
  intro hsome
  have hbusy := h (hwaiters ▸ hsome)
  omega

theorem release_busy (h : Busy limit l) (hactive : 0 < l.active) : Busy limit (release l) := by
  cases hwaiters : l.waiters with
  | nil =>
      rw [release_nil hwaiters]
      exact fun hsome => absurd rfl hsome
  | cons next waiters =>
      have hbusy := h (hwaiters ▸ List.cons_ne_nil _ _)
      rw [release_cons hwaiters]
      intro
      dsimp only
      rw [List.length_append, List.length_singleton]
      omega

end Limiter

section Statement

variable (limit : Limit)

/-- A call of `run` is an `acquire` with its completion. -/
inductive Event
  | acquire
  | resume
  | complete (caller : Nat)

/-- The slots that are held, and who has waited and who was served after a wait, in order, are kept beside the limiter. -/
structure History where
  limiter : Limiter := {}
  callers : Nat := 0
  held : List Nat := []
  waited : List Nat := []
  served : List Nat := []
  deriving DecidableEq

def step (h : History) : Event → Option History
  | .acquire =>
      match acquire limit h.limiter h.callers with
      | (true, limiter) => some { h with limiter, callers := h.callers + 1, held := h.held ++ [h.callers] }
      | (false, limiter) => some { h with limiter, callers := h.callers + 1, waited := h.waited ++ [h.callers] }
  | .resume =>
      (resume h.limiter).map (fun (caller, limiter) =>
        { h with limiter, held := h.held ++ [caller], served := h.served ++ [caller] })
  | .complete caller =>
      if caller ∈ h.held then some { h with limiter := release h.limiter, held := h.held.erase caller } else none

structure Bounded (h : History) : Prop where
  bound : h.held.length ≤ limit.1
  order : h.served <+: h.waited

/-- After the step, and however many of the woken callers resume next. -/
def Lawful (h : History) (e : Event) : Prop :=
  ∀ t, step limit h e = some t → ∀ n u, run (step limit) t (List.replicate n .resume) = some u → Bounded limit u

/-- A caller gets a slot at once only where there is one left for each of the woken. -/
def Spares (h : History) : Event → Prop
  | .acquire => h.limiter.active < limit.1 → h.limiter.active + h.limiter.woken.length < limit.1
  | _ => True

end Statement

section Invariant

variable {limit : Limit} {h t : History}

structure Sound (h : History) : Prop where
  counted : h.limiter.active = h.held.length
  order : h.waited = h.served ++ queue h.limiter

/-- The slots that are held and those that woken callers will take. -/
def claimed (h : History) : Nat := h.limiter.active + h.limiter.woken.length

theorem resumption (hsound : Sound h) (hstep : step limit h .resume = some t) :
    Sound t ∧ claimed t = claimed h ∧ t.held.length = h.held.length + 1 := by
  obtain ⟨⟨caller, limiter⟩, hresume, rfl⟩ := Option.map_eq_some_iff.mp hstep
  obtain ⟨hqueue, hactive, hwoken, -⟩ := resume_spec hresume
  refine ⟨⟨?_, ?_⟩, ?_, List.length_append⟩
  · rw [List.length_append, ← hsound.counted]
    exact hactive
  · rw [hsound.order, hqueue]
    exact (List.append_assoc h.served [caller] _).symm
  · unfold claimed
    rw [hactive, hwoken]
    exact Nat.add_right_comm _ _ _

theorem completion {caller : Nat} (hsound : Sound h) (hstep : step limit h (.complete caller) = some t) :
    Sound t ∧ claimed t ≤ claimed h := by
  change (if caller ∈ h.held then _ else none) = _ at hstep
  split_ifs at hstep with hmem
  cases hstep
  have hlength := List.length_erase_of_mem hmem
  have hpos := List.length_pos_of_mem hmem
  have hwoken := release_woken h.limiter
  refine ⟨⟨?_, ?_⟩, ?_⟩
  · rw [release_active, hlength, hsound.counted]
  · rw [release_queue]
    exact hsound.order
  · unfold claimed
    rw [release_active, hsound.counted]
    dsimp only
    omega

theorem acquisition (hsound : Sound h) (hstep : step limit h .acquire = some t) :
    Sound t ∧ claimed t = if h.limiter.active < limit.1 then claimed h + 1 else claimed h := by
  unfold step at hstep
  generalize hacquire : acquire limit h.limiter h.callers = result at hstep
  obtain ⟨granted, limiter⟩ := result
  cases granted with
  | true =>
      obtain ⟨hfree, rfl⟩ := acquire_granted hacquire
      cases hstep
      rw [if_pos hfree]
      refine ⟨⟨?_, hsound.order⟩, Nat.add_right_comm _ _ _⟩
      rw [List.length_append, ← hsound.counted]
      rfl
  | false =>
      obtain ⟨hfull, rfl⟩ := acquire_refused hacquire
      cases hstep
      rw [if_neg hfull]
      refine ⟨⟨hsound.counted, ?_⟩, rfl⟩
      dsimp only
      rw [queue_push, hsound.order, List.append_assoc]

/-- What a number of resumptions in a row does. -/
theorem resumes_spec (n : Nat) (hsound : Sound h) (hrun : run (step limit) h (List.replicate n .resume) = some t) :
    Sound t ∧ claimed t = claimed h ∧ t.held.length = h.held.length + n := by
  induction n generalizing h with
  | zero =>
      cases hrun
      exact ⟨hsound, rfl, rfl⟩
  | succ n ih =>
      obtain ⟨u, hu, hrest⟩ := run_cons hrun
      obtain ⟨hsound', hclaimed, hheld⟩ := resumption hsound hu
      obtain ⟨hsound'', hclaimed', hheld'⟩ := ih hsound' hrest
      exact ⟨hsound'', hclaimed'.trans hclaimed, by omega⟩

/-- All that were woken can resume. -/
theorem exists_resumes (limit : Limit) (h : History) :
    ∃ t, run (step limit) h (List.replicate h.limiter.woken.length .resume) = some t := by
  generalize hwoken : h.limiter.woken = woken
  induction woken generalizing h with
  | nil => exact ⟨h, rfl⟩
  | cons caller woken ih =>
      have hresume : resume h.limiter = some (caller, { h.limiter with active := h.limiter.active + 1, woken }) := by
        rw [resume, hwoken]
      have hstep : step limit h .resume = some _ := congrArg (Option.map _) hresume
      obtain ⟨t, ht⟩ := ih { h with
        limiter := { h.limiter with active := h.limiter.active + 1, woken }
        held := h.held ++ [caller]
        served := h.served ++ [caller] } rfl
      exact ⟨t, run_step hstep ht⟩

theorem bounded_of_claimed (hsound : Sound h) (hclaimed : claimed h ≤ limit.1) : Bounded limit h := by
  refine ⟨?_, ?_⟩
  · rw [← hsound.counted]
    exact (Nat.le_add_right _ _).trans hclaimed
  · rw [hsound.order]
    exact List.prefix_append _ _

theorem lawful_of_claimed {e : Event} (hsound : ∀ t, step limit h e = some t → Sound t)
    (hclaimed : ∀ t, step limit h e = some t → claimed t ≤ limit.1) : Lawful limit h e := by
  intro t ht n u hu
  obtain ⟨hsound', hsame, -⟩ := resumes_spec n (hsound t ht) hu
  exact bounded_of_claimed hsound' (hsame ▸ hclaimed t ht)

theorem step_sound {e : Event} (hsound : Sound h) (hstep : step limit h e = some t) : Sound t := by
  cases e with
  | acquire => exact (acquisition hsound hstep).1
  | resume => exact (resumption hsound hstep).1
  | complete caller => exact (completion hsound hstep).1

theorem exists_acquire (limit : Limit) (h : History) : ∃ t, step limit h .acquire = some t := by
  unfold step
  cases acquire limit h.limiter h.callers with
  | mk granted limiter => cases granted <;> exact ⟨_, rfl⟩

theorem lawful_iff (hsound : Sound h) (hclaimed : claimed h ≤ limit.1) (e : Event) : Lawful limit h e ↔ Spares limit h e := by
  cases e with
  | acquire =>
      constructor
      · intro hlawful hfree
        obtain ⟨t, ht⟩ := exists_acquire limit h
        obtain ⟨hsound', hsum⟩ := acquisition hsound ht
        obtain ⟨u, hu⟩ := exists_resumes limit t
        have hbound := (hlawful t ht _ u hu).bound
        rw [(resumes_spec _ hsound' hu).2.2, ← hsound'.counted] at hbound
        rw [if_pos hfree] at hsum
        exact hsum.symm.le.trans hbound
      · intro hspares
        refine lawful_of_claimed (fun t ht => step_sound hsound ht) (fun t ht => ?_)
        rw [(acquisition hsound ht).2]
        split_ifs with hfree
        · exact hspares hfree
        · exact hclaimed
  | resume =>
      refine iff_of_true (lawful_of_claimed (fun t ht => step_sound hsound ht) (fun t ht => ?_)) trivial
      exact (resumption hsound ht).2.1.le.trans hclaimed
  | complete caller =>
      refine iff_of_true (lawful_of_claimed (fun t ht => step_sound hsound ht) (fun t ht => ?_)) trivial
      exact (completion hsound ht).2.trans hclaimed

theorem step_claimed {e : Event} (hsound : Sound h) (hclaimed : claimed h ≤ limit.1) (hlawful : Lawful limit h e)
    (hstep : step limit h e = some t) : claimed t ≤ limit.1 := by
  have hspares := (lawful_iff hsound hclaimed e).mp hlawful
  cases e with
  | acquire =>
      rw [(acquisition hsound hstep).2]
      split_ifs with hfree
      · exact hspares hfree
      · exact hclaimed
  | resume => exact (resumption hsound hstep).2.1.le.trans hclaimed
  | complete caller => exact (completion hsound hstep).2.trans hclaimed

/-- The slots stay within the limit just as long as no caller is let in on a slot that a woken one is about to take. -/
theorem slots_bounded_iff (limit : Limit) (events : List Event) :
    Allowed (step limit) (Lawful limit) {} events ↔ Allowed (step limit) (Spares limit) {} events := by
  refine allowed_iff (I := fun h => Sound h ∧ claimed h ≤ limit.1) (fun h e t hinv hlawful hstep => ?_)
    (fun h e hinv => lawful_iff hinv.1 hinv.2 e) ⟨⟨rfl, rfl⟩, Nat.zero_le _⟩ events
  exact ⟨step_sound hinv.1 hstep, step_claimed hinv.1 hinv.2 hlawful hstep⟩

/-- With one slot: a caller comes between a release and the resumption of the waiter that it has woken. -/
theorem slots_bounded_fail :
    let one : Limit := ⟨1, le_refl 1⟩
    (run (step one) {} [.acquire, .acquire, .complete 0, .acquire, .resume]).map (fun h => h.held) = some [2, 1] := by
  decide

end Invariant

end SplitSdk.ConcurrencyLimiter
