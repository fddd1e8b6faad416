import SplitSdk.ComponentRuns
import SplitSdk.OrderedMap

namespace SplitSdk.StatusPolling

open ComponentRuns Interleaving OrderedMap Relation

section Model

def TERMINAL_STATUSES : List String := ["Released", "Refunded", "Cancelled"]

/-- The payload of `invoiceStatusChanged`, without the invoice and the time. -/
structure StatusChange where
  previous : String
  current : String
  deriving DecidableEq

/-- What a fetch comes to. A listener may throw when it is told of a change. -/
inductive Answer
  | failed
  | status (newStatus : String) (throws : Bool)
  deriving DecidableEq

/-- The last four fields are not in the source: the fetches that have had no answer yet, those after which an error was caught, and what
listeners were told. -/
structure InvoiceStatusPoller where
  invoiceId : String
  maxAttempts : Nat := 1000
  status : String := "Pending"
  attempts : Nat := 0
  pending : List Nat := []
  nextTimer : Nat := 0
  timer : Option Nat := none
  stopped : Bool := false
  inFlight : Bool := false
  fetching : Nat := 0
  failures : Nat := 0
  changes : List StatusChange := []
  settled : List String := []
  deriving DecidableEq

namespace InvoiceStatusPoller

variable (p : InvoiceStatusPoller)

def schedulePoll : InvoiceStatusPoller :=
  if p.stopped then p
  else { p with pending := p.pending ++ [p.nextTimer], nextTimer := p.nextTimer + 1, timer := some p.nextTimer }

/-- Until the fetch is at its `await`. -/
def poll : InvoiceStatusPoller :=
  if p.stopped then p
  else if p.inFlight then p.schedulePoll
  else { p with inFlight := true, attempts := p.attempts + 1, fetching := p.fetching + 1 }

/-- A timer that was set before the last one is not cleared. -/
def stop : InvoiceStatusPoller :=
  { p with stopped := true, pending := p.pending.filter (fun t => some t ≠ p.timer), timer := none }

def fire (t : Nat) : InvoiceStatusPoller := { p with pending := p.pending.erase t }.poll

def change (newStatus : String) : InvoiceStatusPoller :=
  if newStatus ≠ p.status then { p with status := newStatus, changes := p.changes ++ [⟨p.status, newStatus⟩] } else p

/-- Polling is over after this answer. -/
def ends : Answer → Bool
  | .failed => false
  | .status newStatus throws =>
      !(throws && newStatus ≠ p.status) && (newStatus ∈ TERMINAL_STATUSES || p.maxAttempts ≤ p.attempts)

def answered : Answer → InvoiceStatusPoller
  | .failed => { p with inFlight := false, fetching := p.fetching - 1, failures := p.failures + 1 }.schedulePoll
  | .status newStatus throws =>
      let q := { p with inFlight := false, fetching := p.fetching - 1 }.change newStatus
      if throws && newStatus ≠ p.status then { q with failures := p.failures + 1 }.schedulePoll
      else if newStatus ∈ TERMINAL_STATUSES then { q with stopped := true, settled := p.settled ++ [newStatus] }
      else if p.maxAttempts ≤ p.attempts then { q with stopped := true }
      else q.schedulePoll

end InvoiceStatusPoller

open InvoiceStatusPoller

/-- All pollers that were ever made, and the places of the active ones. -/
structure Pollers where
  pollers : List InvoiceStatusPoller := []
  activePollers : OrdMap String Nat := OrdMap.empty

/-- Listeners that call a poller themselves are left out. -/
inductive Event
  | construct (invoiceId : String) (maxAttempts : Nat)
  | start (k : Nat)
  | stop (k : Nat)
  | stopAll
  | fire (k : Nat) (t : Nat)
  | answer (k : Nat) (answer : Answer)

variable (s : Pollers)

def put (k : Nat) (p : InvoiceStatusPoller) : Pollers := { s with pollers := s.pollers.set k p }

/-- Whoever is registered for the invoice is no longer active. -/
def unregister (invoiceId : String) : Pollers := { s with activePollers := s.activePollers.delete invoiceId }

def stopAt (k : Nat) (p : InvoiceStatusPoller) : Pollers := unregister (put s k p.stop) p.invoiceId

/-- The poller that is registered for the invoice is stopped first. -/
def replaced (invoiceId : String) : Pollers :=
  match s.activePollers.get? invoiceId with
  | some k =>
      match s.pollers[k]? with
      | some p => if p.stopped then s else stopAt s k p
      | none => s
  | none => s

def construct (invoiceId : String) (maxAttempts : Nat) : Pollers :=
  let r := replaced s invoiceId
  { pollers := r.pollers ++ [{ invoiceId, maxAttempts }], activePollers := r.activePollers.set invoiceId r.pollers.length }

def stopAll : Pollers :=
  { pollers := s.pollers.mapIdx (fun k p => if k ∈ s.activePollers.entries.map Prod.snd then p.stop else p)
    activePollers := OrdMap.empty }

def answerAt (k : Nat) (p : InvoiceStatusPoller) (answer : Answer) : Pollers :=
  if p.ends answer then unregister (put s k (p.answered answer)) p.invoiceId else put s k (p.answered answer)

def step : Event → Option Pollers
  | .construct invoiceId maxAttempts => some (construct s invoiceId maxAttempts)
  | .start k => (s.pollers[k]?).map (fun p => put s k p.poll)
  | .stop k => (s.pollers[k]?).map (fun p => stopAt s k p)
  | .stopAll => some (stopAll s)
  | .fire k t => (s.pollers[k]?).bind (fun p => if t ∈ p.pending then some (put s k (p.fire t)) else none)
  | .answer k answer => (s.pollers[k]?).bind (fun p => if 0 < p.fetching then some (answerAt s k p answer) else none)

end Model

section Turns

variable {p q : InvoiceStatusPoller}

/-- What can happen to a poller. -/
inductive Turn (p : InvoiceStatusPoller) : InvoiceStatusPoller → Prop
  | poll : Turn p p.poll
  | stop : Turn p p.stop
  | fire (t : Nat) : Turn p (p.fire t)
  | answered (answer : Answer) (h : 0 < p.fetching) : Turn p (p.answered answer)

def IsNew (p : InvoiceStatusPoller) : Prop := ∃ invoiceId maxAttempts, p = { invoiceId, maxAttempts }

variable {s t : Pollers} {e : Event}

theorem replaced_grows (s : Pollers) (invoiceId : String) : Grows Turn IsNew s.pollers (replaced s invoiceId).pollers := by
  unfold replaced
  split
  · split
    · rename_i p hp
      split_ifs
      · exact .refl _
      · exact .set hp .stop
    · exact .refl _
  · exact .refl _

theorem step_grows (s : Pollers) (e : Event) (t : Pollers) (h : step s e = some t) : Grows Turn IsNew s.pollers t.pollers := by
  cases e with
  | construct invoiceId maxAttempts =>
      obtain rfl := Option.some.inj h
      exact (replaced_grows s invoiceId).trans (.push ⟨invoiceId, maxAttempts, rfl⟩ _)
  | start k =>
      obtain ⟨p, hp, rfl⟩ := Option.map_eq_some_iff.mp h
      exact .set hp .poll
  | stop k =>
      obtain ⟨p, hp, rfl⟩ := Option.map_eq_some_iff.mp h
      exact .set hp .stop
  | stopAll =>
      obtain rfl := Option.some.inj h
      refine .mapIdx (fun k p _ => ?_)
      split_ifs
      · exact .single .stop
      · exact .refl
  | fire k time =>
      obtain ⟨p, hp, hfire⟩ := Option.bind_eq_some_iff.mp h
      split_ifs at hfire
      obtain rfl := Option.some.inj hfire
      exact .set hp (.fire time)
  | answer k answer =>
      obtain ⟨p, hp, hanswer⟩ := Option.bind_eq_some_iff.mp h
      split_ifs at hanswer with hfetching
      obtain rfl := Option.some.inj hanswer
      unfold answerAt
      split_ifs
      · exact .set hp (.answered answer hfetching)
      · exact .set hp (.answered answer hfetching)

end Turns

section Soundness

variable {p q : InvoiceStatusPoller} {a b : String} {changes : List StatusChange}

/-- The changes lead from one status to another, and each begins where the one before it ended. -/
def Leads (a : String) : List StatusChange → String → Prop
  | [], b => a = b
  | change :: changes, b => change.previous = a ∧ change.current ≠ a ∧ Leads change.current changes b

theorem Leads.concat (h : Leads a changes b) {c : String} (hne : c ≠ b) : Leads a (changes ++ [⟨b, c⟩]) c := by
  induction changes generalizing a with
  | nil =>
      obtain rfl : a = b := h
      exact ⟨rfl, hne, rfl⟩
  | cons change changes ih => exact ⟨h.1, h.2.1, ih h.2.2⟩

structure Sound (p : InvoiceStatusPoller) : Prop where
  /-- There is one fetch at a time. -/
  fetching : p.fetching = if p.inFlight then 1 else 0
  leads : Leads "Pending" p.changes p.status
  /-- Only errors let a poller go on beyond its maximum. -/
  budget : p.attempts ≤ max 1 p.maxAttempts + p.failures
  spare : p.stopped = false → p.inFlight = false → p.attempts < max 1 p.maxAttempts + p.failures
  /-- The callback is told once, at the end. -/
  settled : p.settled = [] ∨ p.settled = [p.status] ∧ p.status ∈ TERMINAL_STATUSES ∧ p.stopped ∧ p.fetching = 0

theorem sound_new (h : IsNew p) : Sound p := by
  obtain ⟨invoiceId, maxAttempts, rfl⟩ := h
  exact ⟨rfl, rfl, Nat.zero_le _, fun _ _ => Nat.lt_of_lt_of_le Nat.one_pos (Nat.le_max_left 1 maxAttempts), .inl rfl⟩

theorem sound_schedulePoll (h : Sound p) : Sound p.schedulePoll := by
  unfold InvoiceStatusPoller.schedulePoll
  split_ifs
  · exact h
  · exact ⟨h.fetching, h.leads, h.budget, h.spare, h.settled⟩

theorem sound_poll (h : Sound p) : Sound p.poll := by
  unfold InvoiceStatusPoller.poll
  split_ifs with hstopped hflight
  · exact h
  · exact sound_schedulePoll h
  · have hfalse := Bool.eq_false_iff.mpr hstopped
    have hidle := Bool.eq_false_iff.mpr hflight
    have hfetching := h.fetching
    rw [hidle] at hfetching
    refine ⟨by rw [hfetching]; rfl, h.leads, h.spare hfalse hidle, fun _ hbad => Bool.noConfusion hbad, .inl ?_⟩
    exact h.settled.resolve_right (fun hsettled => hstopped hsettled.2.2.1)

theorem sound_stop (h : Sound p) : Sound p.stop :=
  ⟨h.fetching, h.leads, h.budget, fun hbad => Bool.noConfusion hbad, h.settled.imp_right (fun hs => ⟨hs.1, hs.2.1, rfl, hs.2.2.2⟩)⟩

theorem sound_fire (h : Sound p) (t : Nat) : Sound (p.fire t) :=
  sound_poll ⟨h.fetching, h.leads, h.budget, h.spare, h.settled⟩

theorem change_eq (p : InvoiceStatusPoller) (newStatus : String) : p.change newStatus =
    { p with status := newStatus, changes := if newStatus ≠ p.status then p.changes ++ [⟨p.status, newStatus⟩] else p.changes } := by
  unfold InvoiceStatusPoller.change
  split_ifs with hne
  · rfl
  · rw [not_not.mp hne]

theorem leads_change (h : Leads a p.changes p.status) (newStatus : String) :
    Leads a (if newStatus ≠ p.status then p.changes ++ [⟨p.status, newStatus⟩] else p.changes) newStatus := by
  split_ifs with hne
  · exact h.concat hne
  · exact not_not.mp hne ▸ h

theorem sound_answered (h : Sound p) (hfetching : 0 < p.fetching) (answer : Answer) : Sound (p.answered answer) := by
  obtain ⟨hone, hleads, hbudget, -, hsettled⟩ := h
  have hnone : p.settled = [] := hsettled.resolve_right (fun hs => absurd hs.2.2.2 (Nat.ne_of_gt hfetching))
  have hzero : p.fetching - 1 = 0 := by
    rw [hone]
    split_ifs <;> rfl
  cases answer with
  | failed => exact sound_schedulePoll ⟨hzero, hleads, Nat.le_succ_of_le hbudget, fun _ _ => Nat.lt_succ_of_le hbudget, .inl hnone⟩
  | status newStatus throws =>
      have hchanged := leads_change hleads newStatus
      rw [InvoiceStatusPoller.answered, change_eq]
      dsimp only
      generalize (if newStatus ≠ p.status then p.changes ++ [⟨p.status, newStatus⟩] else p.changes) = news at hchanged ⊢
      split_ifs with hthrows hterminal hmax
      · exact sound_schedulePoll ⟨hzero, hchanged, Nat.le_succ_of_le hbudget, fun _ _ => Nat.lt_succ_of_le hbudget, .inl hnone⟩
      · exact ⟨hzero, hchanged, hbudget, fun hbad => Bool.noConfusion hbad, .inr ⟨by rw [hnone]; rfl, hterminal, rfl, hzero⟩⟩
      · exact ⟨hzero, hchanged, hbudget, fun hbad => Bool.noConfusion hbad, .inl hnone⟩
      · refine sound_schedulePoll ⟨hzero, hchanged, hbudget, fun _ _ => ?_, .inl hnone⟩
        dsimp only
        omega

theorem sound_turn (p q : InvoiceStatusPoller) (h : Sound p) (hturn : Turn p q) : Sound q := by
  cases hturn with
  | poll => exact sound_poll h
  | stop => exact sound_stop h
  | fire t => exact sound_fire h t
  | answered answer hfetching => exact sound_answered h hfetching answer

end Soundness

section Registry

variable {p q : InvoiceStatusPoller} {s t : Pollers} {k : Nat} {e : Event}

/-- Who is registered for an invoice polls for it and has not been stopped. -/
def Registered (s : Pollers) : Prop :=
  ∀ invoiceId k, s.activePollers.get? invoiceId = some k → ∃ p, s.pollers[k]? = some p ∧ p.invoiceId = invoiceId ∧ p.stopped = false

@[simp] theorem schedulePoll_invoiceId (p : InvoiceStatusPoller) : p.schedulePoll.invoiceId = p.invoiceId := by
  unfold InvoiceStatusPoller.schedulePoll
  split_ifs <;> rfl

@[simp] theorem schedulePoll_stopped (p : InvoiceStatusPoller) : p.schedulePoll.stopped = p.stopped := by
  unfold InvoiceStatusPoller.schedulePoll
  split_ifs <;> rfl

@[simp] theorem poll_invoiceId (p : InvoiceStatusPoller) : p.poll.invoiceId = p.invoiceId := by
  unfold InvoiceStatusPoller.poll
  split_ifs <;> simp

@[simp] theorem poll_stopped (p : InvoiceStatusPoller) : p.poll.stopped = p.stopped := by
  unfold InvoiceStatusPoller.poll
  split_ifs <;> simp

theorem answered_invoiceId (p : InvoiceStatusPoller) (answer : Answer) : (p.answered answer).invoiceId = p.invoiceId := by
  cases answer with
  | failed => simp [InvoiceStatusPoller.answered]
  | status newStatus throws =>
      rw [InvoiceStatusPoller.answered, change_eq]
      dsimp only
      split_ifs <;> simp

theorem answered_stopped (p : InvoiceStatusPoller) (answer : Answer) : (p.answered answer).stopped = (p.stopped || p.ends answer) := by
  cases answer with
  | failed => simp [InvoiceStatusPoller.answered, InvoiceStatusPoller.ends]
  | status newStatus throws =>
      rw [InvoiceStatusPoller.answered, InvoiceStatusPoller.ends, change_eq]
      dsimp only
      split_ifs <;> grind [schedulePoll_stopped]

theorem registered_empty : Registered {} := by
  intro invoiceId k hk
  nomatch hk

theorem registered_put (h : Registered s) (hp : s.pollers[k]? = some p) (hid : q.invoiceId = p.invoiceId)
    (hstopped : q.stopped = p.stopped) : Registered (put s k q) := by
  intro invoiceId j hj
  obtain ⟨r, hr, hfor, hlive⟩ := h invoiceId j hj
  rcases eq_or_ne k j with rfl | hne
  · obtain rfl := Option.some.inj (hp.symm.trans hr)
    exact ⟨q, List.getElem?_set_self (List.getElem?_eq_some_iff.mp hp).1, hid.trans hfor, hstopped.trans hlive⟩
  · exact ⟨r, (List.getElem?_set_ne hne).trans hr, hfor, hlive⟩

theorem registered_unregister (h : Registered s) (hp : s.pollers[k]? = some p) (q : InvoiceStatusPoller) :
    Registered (unregister (put s k q) p.invoiceId) := by
  intro invoiceId j hj
  rw [unregister, OrdMap.get?_delete] at hj
  split_ifs at hj with hother
  obtain ⟨r, hr, hfor, hlive⟩ := h invoiceId j hj
  have hne : k ≠ j := by
    rintro rfl
    obtain rfl := Option.some.inj (hp.symm.trans hr)
    exact hother hfor.symm
  exact ⟨r, (List.getElem?_set_ne hne).trans hr, hfor, hlive⟩

theorem registered_replaced (h : Registered s) (invoiceId : String) : Registered (replaced s invoiceId) := by
  unfold replaced
  split
  · split
    · rename_i p hp
      split_ifs
      · exact h
      · exact registered_unregister h hp p.stop
    · exact h
  · exact h

theorem registered_construct (h : Registered s) (invoiceId : String) (maxAttempts : Nat) : Registered (construct s invoiceId maxAttempts) := by
  intro other j hj
  rw [construct, OrdMap.get?_set] at hj
  split_ifs at hj with hsame
  · obtain rfl := Option.some.inj hj
    exact ⟨_, List.getElem?_concat_length, hsame.symm, rfl⟩
  · obtain ⟨p, hp, hfor, hlive⟩ := registered_replaced h invoiceId other j hj
    exact ⟨p, (List.getElem?_append_left (List.getElem?_eq_some_iff.mp hp).1).trans hp, hfor, hlive⟩

theorem registered_step (s : Pollers) (e : Event) (t : Pollers) (hreg : Registered s) (h : step s e = some t) : Registered t := by
  cases e with
  | construct invoiceId maxAttempts =>
      obtain rfl := Option.some.inj h
      exact registered_construct hreg invoiceId maxAttempts
  | start k =>
      obtain ⟨p, hp, rfl⟩ := Option.map_eq_some_iff.mp h
      exact registered_put hreg hp (poll_invoiceId p) (poll_stopped p)
  | stop k =>
      obtain ⟨p, hp, rfl⟩ := Option.map_eq_some_iff.mp h
      exact registered_unregister hreg hp p.stop
  | stopAll =>
      obtain rfl := Option.some.inj h
      intro invoiceId k hk
      nomatch hk
  | fire k time =>
      obtain ⟨p, hp, hfire⟩ := Option.bind_eq_some_iff.mp h
      split_ifs at hfire
      obtain rfl := Option.some.inj hfire
      exact registered_put hreg hp (poll_invoiceId _) (poll_stopped _)
  | answer k answer =>
      obtain ⟨p, hp, hanswer⟩ := Option.bind_eq_some_iff.mp h
      split_ifs at hanswer
      obtain rfl := Option.some.inj hanswer
      unfold answerAt
      split_ifs with hends
      · exact registered_unregister hreg hp _
      · refine registered_put hreg hp (answered_invoiceId p answer) ?_
        rw [answered_stopped, Bool.eq_false_iff.mpr hends, Bool.or_false]

end Registry

section Quiet

variable {p q r : InvoiceStatusPoller}

/-- What a poller that has been stopped can still come to. -/
structure Quiet (p q : InvoiceStatusPoller) : Prop where
  stopped : q.stopped = true
  attempts : q.attempts = p.attempts
  changes : p.changes <+: q.changes ∧ q.changes.length + q.fetching ≤ p.changes.length + p.fetching
  settled : p.settled <+: q.settled ∧ q.settled.length + q.fetching ≤ p.settled.length + p.fetching

theorem quiet_refl (h : p.stopped = true) : Quiet p p :=
  ⟨h, rfl, ⟨List.prefix_rfl, Nat.le_refl _⟩, List.prefix_rfl, Nat.le_refl _⟩

theorem quiet_schedulePoll (h : Quiet p q) : Quiet p q.schedulePoll := by
  rw [InvoiceStatusPoller.schedulePoll, if_pos h.stopped]
  exact h

theorem quiet_poll (h : Quiet p q) : Quiet p q.poll := by
  rw [InvoiceStatusPoller.poll, if_pos h.stopped]
  exact h

theorem quiet_answered (h : Quiet p q) (hfetching : 0 < q.fetching) (answer : Answer) : Quiet p (q.answered answer) := by
  obtain ⟨hstopped, hattempts, ⟨hchanges, hfew⟩, hsettled, hless⟩ := h
  cases answer with
  | failed =>
      exact quiet_schedulePoll ⟨hstopped, hattempts, ⟨hchanges, by dsimp only; omega⟩, hsettled, by dsimp only; omega⟩
  | status newStatus throws =>
      have hnews : q.changes <+: (if newStatus ≠ q.status then q.changes ++ [⟨q.status, newStatus⟩] else q.changes) ∧
          (if newStatus ≠ q.status then q.changes ++ [⟨q.status, newStatus⟩] else q.changes).length ≤ q.changes.length + 1 := by
        split_ifs
        · exact ⟨List.prefix_append _ _, by simp⟩
        · exact ⟨List.prefix_rfl, Nat.le_succ _⟩
      rw [InvoiceStatusPoller.answered, change_eq]
      dsimp only
      generalize (if newStatus ≠ q.status then q.changes ++ [⟨q.status, newStatus⟩] else q.changes) = news at hnews ⊢
      have hnew := hchanges.trans hnews.1
      have hone : (q.settled ++ [newStatus]).length = q.settled.length + 1 := List.length_append
      split_ifs
      · exact quiet_schedulePoll ⟨hstopped, hattempts, ⟨hnew, by dsimp only; omega⟩, hsettled, by dsimp only; omega⟩
      · exact ⟨rfl, hattempts, ⟨hnew, by dsimp only; omega⟩, hsettled.trans (List.prefix_append _ _), by dsimp only; omega⟩
      · exact ⟨rfl, hattempts, ⟨hnew, by dsimp only; omega⟩, hsettled, by dsimp only; omega⟩
      · exact quiet_schedulePoll ⟨hstopped, hattempts, ⟨hnew, by dsimp only; omega⟩, hsettled, by dsimp only; omega⟩

theorem quiet_turn (h : Quiet p q) (hturn : Turn q r) : Quiet p r := by
  cases hturn with
  | poll => exact quiet_poll h
  | stop => exact ⟨rfl, h.attempts, h.changes, h.settled⟩
  | fire t => exact quiet_poll ⟨h.stopped, h.attempts, h.changes, h.settled⟩
  | answered answer hfetching => exact quiet_answered h hfetching answer

end Quiet

section Coverage

variable {s t : Pollers} {p q : InvoiceStatusPoller} {k : Nat} {e : Event}

/-- Who has not been stopped is registered. -/
def Covered (s : Pollers) : Prop := ∀ k p, s.pollers[k]? = some p → p.stopped = false → s.activePollers.get? p.invoiceId = some k

/-- A poller that has been stopped is not stopped again, and gets no answer that would end its polling. -/
def Orderly (s : Pollers) : Event → Prop
  | .stop k => ∀ p, s.pollers[k]? = some p → p.stopped = false
  | .answer k answer => ∀ p, s.pollers[k]? = some p → p.ends answer → p.stopped = false
  | _ => True

instance (s : Pollers) : (e : Event) → Decidable (Orderly s e)
  | .stop k => inferInstanceAs (Decidable (∀ p, s.pollers[k]? = some p → p.stopped = false))
  | .answer k answer => inferInstanceAs (Decidable (∀ p, s.pollers[k]? = some p → p.ends answer → p.stopped = false))
  | .construct _ _ | .start _ | .stopAll | .fire _ _ => inferInstanceAs (Decidable True)

theorem covered_put (h : Covered s) (hp : s.pollers[k]? = some p) (hid : q.invoiceId = p.invoiceId)
    (hstopped : q.stopped = p.stopped) : Covered (put s k q) := by
  intro j r hr hlive
  rcases eq_or_ne k j with rfl | hne
  · obtain rfl := Option.some.inj ((List.getElem?_set_self (List.getElem?_eq_some_iff.mp hp).1).symm.trans hr)
    rw [hid]
    exact h k p hp (hstopped.symm.trans hlive)
  · exact h j r ((List.getElem?_set_ne hne).symm.trans hr) hlive

theorem covered_unregister (h : Covered s) (hp : s.pollers[k]? = some p) (hlive : p.stopped = false) (hq : q.stopped = true) :
    Covered (unregister (put s k q) p.invoiceId) := by
  intro j r hr hrlive
  rcases eq_or_ne k j with rfl | hne
  · obtain rfl := Option.some.inj ((List.getElem?_set_self (List.getElem?_eq_some_iff.mp hp).1).symm.trans hr)
    exact absurd (hq.symm.trans hrlive) Bool.true_eq_false.mp
  · have hcovered := h j r ((List.getElem?_set_ne hne).symm.trans hr) hrlive
    rw [unregister, OrdMap.get?_delete, if_neg]
    · exact hcovered
    · intro hsame
      rw [hsame, h k p hp hlive] at hcovered
      exact hne (Option.some.inj hcovered)

/-- No poller is left for the invoice. -/
theorem covered_replaced (hreg : Registered s) (h : Covered s) (invoiceId : String) :
    Covered (replaced s invoiceId) ∧ (replaced s invoiceId).activePollers.get? invoiceId = none := by
  unfold replaced
  split
  · rename_i k hk
    obtain ⟨p, hp, hfor, hlive⟩ := hreg invoiceId k hk
    rw [hp]
    dsimp only
    rw [if_neg (Bool.eq_false_iff.mp hlive)]
    refine ⟨covered_unregister h hp hlive rfl, ?_⟩
    rw [stopAt, unregister, OrdMap.get?_delete, if_pos hfor.symm]
  · rename_i hnone
    exact ⟨h, hnone⟩

theorem covered_construct (hreg : Registered s) (h : Covered s) (invoiceId : String) (maxAttempts : Nat) :
    Covered (construct s invoiceId maxAttempts) := by
  obtain ⟨hcovered, hnone⟩ := covered_replaced hreg h invoiceId
  intro j r hr hlive
  rw [construct, OrdMap.get?_set]
  rcases Nat.lt_or_ge j (replaced s invoiceId).pollers.length with hlt | hge
  · have hold := hcovered j r ((List.getElem?_append_left hlt).symm.trans hr) hlive
    rw [if_neg]
    · exact hold
    · intro hsame
      rw [hsame, hnone] at hold
      nomatch hold
  · have hnew := (List.getElem?_append_right hge).symm.trans hr
    rw [List.getElem?_singleton] at hnew
    split_ifs at hnew with hzero
    obtain rfl := Option.some.inj hnew
    rw [if_pos rfl]
    exact congrArg some (by omega)

theorem covered_step (s : Pollers) (e : Event) (t : Pollers) (hs : Registered s ∧ Covered s) (hok : Orderly s e) (h : step s e = some t) :
    Registered t ∧ Covered t := by
  refine ⟨registered_step s e t hs.1 h, ?_⟩
  obtain ⟨hreg, hcovered⟩ := hs
  cases e with
  | construct invoiceId maxAttempts =>
      obtain rfl := Option.some.inj h
      exact covered_construct hreg hcovered invoiceId maxAttempts
  | start k =>
      obtain ⟨p, hp, rfl⟩ := Option.map_eq_some_iff.mp h
      exact covered_put hcovered hp (poll_invoiceId p) (poll_stopped p)
  | stop k =>
      obtain ⟨p, hp, rfl⟩ := Option.map_eq_some_iff.mp h
      exact covered_unregister hcovered hp (hok p hp) rfl
  | stopAll =>
      obtain rfl := Option.some.inj h
      intro k q hq hlive
      obtain ⟨p, hp, rfl⟩ := Option.map_eq_some_iff.mp ((List.getElem?_mapIdx).symm.trans hq)
      split_ifs at hlive with hmem
      · nomatch hlive
      · exact absurd (List.mem_map.mpr ⟨_, OrdMap.mem_of_get? (hcovered k p hp hlive), rfl⟩) hmem
  | fire k time =>
      obtain ⟨p, hp, hfire⟩ := Option.bind_eq_some_iff.mp h
      split_ifs at hfire
      obtain rfl := Option.some.inj hfire
      exact covered_put hcovered hp (poll_invoiceId _) (poll_stopped _)
  | answer k answer =>
      obtain ⟨p, hp, hanswer⟩ := Option.bind_eq_some_iff.mp h
      split_ifs at hanswer
      obtain rfl := Option.some.inj hanswer
      unfold answerAt
      split_ifs with hends
      · refine covered_unregister hcovered hp (hok p hp hends) ?_
        rw [answered_stopped, hends, Bool.or_true]
      · refine covered_put hcovered hp (answered_invoiceId p answer) ?_
        rw [answered_stopped, Bool.eq_false_iff.mpr hends, Bool.or_false]

end Coverage

section Samples

/-- The first poller is stopped while its fetch is in flight, and another one is made. -/
def sampleSteps : List Event := [.construct "7" 3, .start 0, .stop 0]

def sampleRest : List Event := [.construct "7" 3, .answer 0 (.status "Funded" false)]

def samplePollers : Pollers := (run step {} sampleSteps).getD {}

def sampleLater : Pollers := (run step samplePollers sampleRest).getD {}

def samplePoller : InvoiceStatusPoller := { invoiceId := "7", maxAttempts := 3, attempts := 1, stopped := true, inFlight := true, fetching := 1 }

theorem run_sampleSteps : run step {} sampleSteps = some samplePollers := rfl

theorem run_sampleRest : run step samplePollers sampleRest = some sampleLater := rfl

end Samples

section Runs

variable {s t : Pollers} {es : List Event} {k : Nat} {p : InvoiceStatusPoller}

/-- However the calls, the timers and the answers come, each poller is sound, and the registry holds none that was stopped. -/
theorem run_sound (h : run step {} es = some s) : (∀ p ∈ s.pollers, Sound p) ∧ Registered s :=
  ⟨(run_grows step_grows h).forall (fun _ => sound_new) sound_turn (fun _ hp => absurd hp List.not_mem_nil),
    run_preserves registered_step registered_empty h⟩

theorem run_sound_later : (∀ p ∈ samplePollers.pollers, Sound p) ∧ Registered samplePollers := run_sound run_sampleSteps

/-- After a poller is stopped it makes no attempt, and tells of no more than the fetch that was in flight brings. -/
theorem run_quiet (h : run step s es = some t) (hp : s.pollers[k]? = some p) (hstopped : p.stopped = true) :
    ∃ q, t.pollers[k]? = some q ∧ Quiet p q := by
  obtain ⟨q, hq, hturns⟩ := (run_grows step_grows h).kept k p hp
  refine ⟨q, hq, ?_⟩
  clear hq
  induction hturns with
  | refl => exact quiet_refl hstopped
  | tail _ hturn ih => exact quiet_turn ih hturn

theorem run_quiet_later : ∃ q, sampleLater.pollers[0]? = some q ∧ Quiet samplePoller q := run_quiet run_sampleRest rfl rfl

/-- Where the stopped pollers stay out of the way, there is one poller at a time for each invoice, and it is the one that is registered. -/
theorem one_poller (hok : Allowed step Orderly {} es) (h : run step {} es = some s) (hp : s.pollers[k]? = some p)
    (hlive : p.stopped = false) : s.activePollers.get? p.invoiceId = some k ∧
      ∀ j q, s.pollers[j]? = some q → q.stopped = false → q.invoiceId = p.invoiceId → j = k := by
  obtain ⟨-, hcovered⟩ := run_invariant covered_step _ _ _ ⟨registered_empty, fun _ _ hk => nomatch hk⟩ hok h
  refine ⟨hcovered k p hp hlive, fun j q hq hqlive hsame => ?_⟩
  have hj := hcovered j q hq hqlive
  rw [hsame, hcovered k p hp hlive] at hj
  exact (Option.some.inj hj).symm

theorem one_poller_later : sampleLater.activePollers.get? "7" = some 1 ∧
    ∀ j q, sampleLater.pollers[j]? = some q → q.stopped = false → q.invoiceId = "7" → j = 1 :=
  one_poller (p := { invoiceId := "7", maxAttempts := 3 }) (by decide) (run_append run_sampleSteps run_sampleRest) rfl rfl

end Runs

end SplitSdk.StatusPolling
