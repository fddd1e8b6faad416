import SplitSdk.Interleaving
import SplitSdk.ScheduledPaymentManager

namespace SplitSdk.PaymentOnce

open Interleaving PlatformTimers ScheduledPaymentManager

section Statement

/-- A call of `pay` for the entry that may have paid. -/
def Attempt (id : String) (call : PayCall) : Prop := call.payment.id = id ∧ call.outcome ≠ .rejected

instance (id : String) : DecidablePred (Attempt id) := fun _ => inferInstanceAs (Decidable (_ ∧ _))

def attempts (s : Manager) (id : String) : Nat := s.calls.countP (fun call => Attempt id call)

/-- The storage holds the entry as failed. -/
def StoredFailed (s : Manager) (id : String) : Prop :=
  ∃ stored ∈ s.storage, ∃ entry ∈ stored, entry.id = id ∧ entry.status = .failed

instance (s : Manager) (id : String) : Decidable (StoredFailed s id) :=
  inferInstanceAs (Decidable (∃ stored ∈ s.storage, ∃ entry ∈ stored, entry.id = id ∧ entry.status = .failed))

/-- No call of `pay` succeeds for an entry that was cancelled meanwhile, and no entry that is still stored as pending
after a call that may have paid is loaded. -/
def Sound (s : Manager) : Event → Prop
  | .settled k true _ => ∀ call ∈ s.calls[k]?, ∀ live ∈ s.payments[call.place]?,
      ¬(live.status = .failed ∧ StoredFailed s live.id)
  | .restart loads => ∀ entry ∈ pendingEntries (load s loads), attempts s entry.id = 0
  | _ => True

/-- The entry is pending, and the cancel stores it as failed. -/
def TakesEffect (s : Manager) (id : String) (saves : Bool) : Prop :=
  (∃ entry ∈ s.payments, entry.id = id ∧ entry.status = .pending) ∧ StoredFailed (cancel s id saves) id

instance (s : Manager) (id : String) (saves : Bool) : Decidable (TakesEffect s id saves) :=
  inferInstanceAs (Decidable (_ ∧ _))

/-- After `s` the entry is not paid, nor is it ever reported as executed. -/
structure Withdrawn (id : String) (s t : Manager) : Prop where
  calls : ∀ (k : Nat) (call : PayCall), t.calls[k]? = some call → call.payment.id = id →
    ∃ before : PayCall, s.calls[k]? = some before ∧
      (call.outcome = .resolved → before.outcome = .resolved)
  listed : ∀ entry ∈ t.payments, entry.id = id → entry.status ≠ .executed
  stored : ∀ stored ∈ t.storage, ∀ entry ∈ stored, entry.id = id → entry.status ≠ .executed

end Statement

section Attempts

variable {s t : Manager}

/-- A call that waits for its answer is at the place of its entry. -/
def Placed (s : Manager) (call : PayCall) : Prop :=
  call.outcome = .inFlight → ∃ entry, s.payments[call.place]? = some entry ∧ entry.id = call.payment.id

structure Once (s : Manager) : Prop where
  armed : (armed s.platform).Nodup
  fresh : ∀ id ∈ PlatformTimers.armed s.platform, attempts s id = 0
  once : ∀ id, attempts s id ≤ 1
  placed : ∀ call ∈ s.calls, Placed s call

theorem attempts_eq_zero (hi : Issued s) {id : String} (hid : id ∉ s.issued) : attempts s id = 0 := by
  refine List.countP_eq_zero.mpr ?_
  intro call hcall hattempt
  obtain ⟨heq, -⟩ := of_decide_eq_true hattempt
  exact hid (heq ▸ hi.calls call hcall)

theorem attempts_append (s : Manager) (call : PayCall) (id : String) :
    (s.calls ++ [call]).countP (fun call => Attempt id call) =
      attempts s id + if Attempt id call then 1 else 0 := by
  rw [List.countP_append, List.countP_singleton]
  simp [attempts]

/-- A call that is answered is no further attempt. -/
theorem attempts_set {k : Nat} {call : PayCall} (next : PayCall) (hcall : s.calls[k]? = some call)
    (hattempt : ∀ id, Attempt id next → Attempt id call) (id : String) :
    (s.calls.set k next).countP (fun call => Attempt id call) ≤ attempts s id :=
  countP_set_le (fun call => Attempt id call) hcall
    (fun hnext => decide_eq_true (hattempt id (of_decide_eq_true hnext)))

theorem forget_attempt (id : String) (call : PayCall) : Attempt id (forget call) ↔ Attempt id call := by
  unfold forget
  split
  · rename_i hflight
    simp [Attempt, hflight]
  · rfl

theorem attempts_forget (s : Manager) (id : String) :
    (s.calls.map forget).countP (fun call => Attempt id call) = attempts s id := by
  rw [List.countP_map, attempts]
  congr 1
  funext call
  exact decide_eq_decide.mpr (forget_attempt id call)

/-- The entries may get others behind them and other statuses. -/
theorem Placed.mono {call : PayCall} (h : Placed s call)
    (hkeep : ∀ (i : Nat) (entry : ScheduledPayment), s.payments[i]? = some entry →
      ∃ after : ScheduledPayment, t.payments[i]? = some after ∧ after.id = entry.id) :
    Placed t call := by
  intro hflight
  obtain ⟨entry, hentry, hid⟩ := h hflight
  obtain ⟨after, hafter, heq⟩ := hkeep _ entry hentry
  exact ⟨after, hafter, heq.trans hid⟩

theorem setStatus_keeps (s : Manager) (place : Nat) (status : Status) (i : Nat)
    (entry : ScheduledPayment) (h : s.payments[i]? = some entry) :
    ∃ after, (setStatus s place status).payments[i]? = some after ∧ after.id = entry.id := by
  rw [setStatus, List.getElem?_modify, h]
  refine ⟨_, rfl, ?_⟩
  split_ifs <;> rfl

end Attempts

section Steps

variable {s t : Manager}

theorem schedule_once (hi : Issued s) (h : Once s) {id : String} (hfresh : id ∉ s.issued)
    (invoiceId : String) (amount : Int)
    (executeAt : Numbers.JsNumber) (saves : Bool) :
    Once (schedule s id invoiceId amount executeAt saves) := by
  have harmed : armed (schedule s id invoiceId amount executeAt saves).platform = armed s.platform ++ [id] :=
    armed_setTimeout _ _ _ _
  refine ⟨?_, ?_, h.once, fun call hcall => (h.placed call hcall).mono ?_⟩
  · rw [harmed]
    exact List.nodup_append'.mpr ⟨h.armed, List.nodup_singleton id,
      List.disjoint_singleton.mpr (fun hmem => hfresh (hi.armed hmem))⟩
  · rw [harmed]
    intro other hother
    rcases List.mem_append.mp hother with hold | hnew
    · exact h.fresh other hold
    · rw [List.mem_singleton.mp hnew]
      exact attempts_eq_zero hi hfresh
  · intro i entry hentry
    exact ⟨entry, List.getElem?_append_left (List.getElem?_eq_some_iff.mp hentry).1 ▸ hentry, rfl⟩

theorem cancel_once (h : Once s) (id : String) (saves : Bool) : Once (cancel s id saves) := by
  rcases cancel_cases s id saves with hsame | ⟨place, entry, -, -, -, hcancel⟩
  · rwa [hsame]
  · rw [hcancel]
    have hsub := armed_disarm_sublist s id
    exact ⟨h.armed.sublist hsub, fun other hother => h.fresh other (hsub.subset hother), h.once,
      fun call hcall => (h.placed call hcall).mono (setStatus_keeps (disarm s id) place .failed)⟩

theorem skip_once (h : Once s) (handle : Nat) (timers : OrderedMap.OrdMap String Nat) :
    Once { s with platform := clearTimeout s.platform handle, timers } := by
  have hsub := armed_clearTimeout_sublist s.platform handle
  exact ⟨h.armed.sublist hsub, fun other hother => h.fresh other (hsub.subset hother), h.once, h.placed⟩

/-- The timer that fires is the only one for its entry, and nothing was paid for it before. -/
theorem pay_once (h : Once s) {handle place : Nat} {timer : Timer String} {live : ScheduledPayment}
    (timers : OrderedMap.OrdMap String Nat) (htimer : s.platform[handle]? = some (some timer))
    (hlive : s.payments[place]? = some live) (hid : live.id = timer.callback) : Once { s with
      platform := clearTimeout s.platform handle
      timers
      calls := s.calls ++ [{ place, payment := live, time := s.now }] } := by
  have hsub := armed_clearTimeout_sublist s.platform handle
  have hperm := armed_perm htimer
  obtain ⟨hgone, hnodup⟩ := List.nodup_cons.mp (hperm.nodup_iff.mp h.armed)
  have hcallback : attempts s timer.callback = 0 := h.fresh _ (hperm.mem_iff.mpr List.mem_cons_self)
  refine ⟨hnodup, ?_, ?_, ?_⟩
  · intro other hother
    have hne : ¬Attempt other { place, payment := live, time := s.now } := by
      rintro ⟨heq, -⟩
      exact hgone (hid ▸ heq ▸ hother)
    refine (attempts_append s _ other).trans ?_
    rw [if_neg hne]
    exact h.fresh other (hsub.subset hother)
  · intro other
    refine (attempts_append s _ other).trans_le ?_
    split_ifs with hattempt
    · obtain rfl : timer.callback = other := hid.symm.trans hattempt.1
      rw [hcallback]
    · exact h.once other
  · intro call hcall
    rcases List.mem_append.mp hcall with hold | hnew
    · exact h.placed call hold
    · rw [List.mem_singleton.mp hnew]
      exact fun _ => ⟨live, hlive, rfl⟩

theorem settled_once (h : Once s) {k : Nat} {call : PayCall} (hcall : s.calls[k]? = some call)
    (hflight : call.outcome = .inFlight)
    (resolves saves : Bool) : Once (settled s k call resolves saves) := by
  have hattempts := attempts_set { call with outcome := if resolves then .resolved else .rejected } hcall
    (fun id hnext => ⟨hnext.1, by rw [hflight]; exact nofun⟩)
  refine ⟨h.armed, fun id hid => Nat.le_zero.mp ((hattempts id).trans_eq (h.fresh id hid)),
    fun id => (hattempts id).trans (h.once id), ?_⟩
  intro other hother
  rcases List.mem_or_eq_of_mem_set hother with hold | rfl
  · exact (h.placed other hold).mono (setStatus_keeps _ call.place _)
  · intro hanswered
    cases resolves <;> nomatch hanswered

theorem restart_once (hi : Issued s) (h : Once s) {loads : Bool}
    (hsound : Sound s (.restart loads)) : Once (restart s loads) := by
  have hload := (hi.restart loads).payments
  obtain ⟨platform, timers, heq, harmed, -⟩ := restart_eq s loads
  rw [heq] at hload ⊢
  refine ⟨?_, ?_, fun id => (attempts_forget s id).trans_le (h.once id), ?_⟩
  · rw [harmed]
    exact hload.nodup.sublist (List.filter_sublist.map _)
  · rw [harmed]
    intro id hid
    obtain ⟨entry, hentry, rfl⟩ := List.mem_map.mp hid
    exact (attempts_forget s entry.id).trans (hsound entry hentry)
  · intro call hcall hflight
    obtain ⟨before, -, rfl⟩ := List.mem_map.mp hcall
    exact absurd hflight (forget_outcome before)

theorem step_once (e : Event) (hi : Issued s) (h : Once s) (hsound : Sound s e)
    (hstep : step s e = some t) : Once t := by
  cases moves_of_step hstep with
  | schedule invoiceId amount executeAt saves hfresh =>
      exact schedule_once hi h hfresh invoiceId amount executeAt saves
  | cancel id saves => exact cancel_once h id saves
  | skip handle timers htimer => exact skip_once h handle timers
  | pay handle timers htimer hdue hlive hid hstatus => exact pay_once h timers htimer hlive hid
  | settled resolves saves hcall hflight => exact settled_once h hcall hflight resolves saves
  | restart loads => exact restart_once hi h hsound
  | elapse hms => exact ⟨h.armed, h.fresh, h.once, h.placed⟩
  | setClock now => exact ⟨h.armed, h.fresh, h.once, h.placed⟩

theorem start_once (persistent : Bool) (now : ℚ) : Once (start persistent now) :=
  ⟨.nil, nofun, fun _ => Nat.zero_le _, nofun⟩

end Steps

section Cancels

variable {id : String} {s t u : Manager}

/-- What a cancel that takes effect leaves behind. -/
structure Cancelled (id : String) (s : Manager) : Prop where
  issued : id ∈ s.issued
  listed : ∀ entry ∈ s.payments, entry.id = id → entry.status = .failed ∧ StoredFailed s id
  stored : ∀ stored ∈ s.storage, ∀ entry ∈ stored, entry.id = id → entry.status = .failed

theorem storedFailed_save (h : StoredFailed s id) {entry : ScheduledPayment}
    (hentry : entry ∈ s.payments) (hid : entry.id = id)
    (hstatus : entry.status = .failed) (works : Bool) : StoredFailed (save s works) id := by
  cases works with
  | false => exact h
  | true =>
      obtain ⟨stored, hstored, -⟩ := h
      refine ⟨s.payments.map reloaded, ?_, reloaded entry, List.mem_map_of_mem hentry, hid, hstatus⟩
      exact congrArg (Option.map _) hstored

theorem Cancelled.save (h : Cancelled id s) (works : Bool) : Cancelled id (save s works) := by
  refine ⟨h.issued, ?_, ?_⟩
  · intro entry hentry hid
    obtain ⟨hstatus, hstored⟩ := h.listed entry hentry hid
    exact ⟨hstatus, storedFailed_save hstored hentry hid hstatus works⟩
  · intro stored hstored entry hentry hid
    rcases save_storage hstored with hold | rfl
    · exact h.stored stored hold entry hentry hid
    · obtain ⟨before, hbefore, rfl⟩ := List.mem_map.mp hentry
      exact (h.listed before hbefore hid).1

theorem Cancelled.setStatus (h : Cancelled id s) {place : Nat} {status : Status}
    (hother : status = .failed ∨ ∀ live ∈ s.payments[place]?, live.id ≠ id) :
    Cancelled id (setStatus s place status) := by
  refine ⟨h.issued, ?_, h.stored⟩
  intro entry hentry hid
  obtain ⟨i, before, hbefore, heq, hstatus⟩ := mem_setStatus hentry
  have hbeforeId : before.id = id := (congrArg ScheduledPayment.id heq).symm.trans hid
  obtain ⟨hfailed, hstored⟩ := h.listed before (List.mem_of_getElem? hbefore) hbeforeId
  refine ⟨?_, hstored⟩
  rw [hstatus]
  split_ifs with hplace
  · rcases hother with hfailed' | hne
    · exact hfailed'
    · subst hplace
      exact absurd hbeforeId (hne before hbefore)
  · exact hfailed

theorem failed_of_storedFailed (hi : Issued s) (h : StoredFailed s id) :
    ∀ stored ∈ s.storage, ∀ entry ∈ stored, entry.id = id → entry.status = .failed := by
  intro stored hstored entry hentry hid
  obtain ⟨held, hheld, failed, hfailed, hfailedId, hstatus⟩ := h
  obtain rfl : held = stored := Option.some.inj (hheld.symm.trans hstored)
  obtain rfl := (hi.stored held hstored).eq_of_id hentry hfailed (hid.trans hfailedId.symm)
  exact hstatus

theorem cancelled_of_takesEffect (hi : Issued s) {saves : Bool} (h : TakesEffect s id saves) :
    Cancelled id (cancel s id saves) := by
  obtain ⟨⟨entry, hentry, rfl, hstatus⟩, hfailed⟩ := h
  have hafter : Issued (cancel s entry.id saves) := hi.cancel entry.id saves
  refine ⟨?_, ?_, failed_of_storedFailed hafter hfailed⟩
  · have hissued := hi.payments.subset (List.mem_map_of_mem hentry)
    rcases cancel_cases s entry.id saves with hsame | ⟨place, live, -, -, -, hcancel⟩
    · rwa [hsame]
    · rwa [hcancel]
  · obtain ⟨place, hfind⟩ := find_of_mem hi.payments hentry
    have hcancel : cancel s entry.id saves = save (setStatus (disarm s entry.id) place .failed) saves := by
      rw [cancel, hfind]
      exact if_pos hstatus
    have hlive : (cancel s entry.id saves).payments[place]? = some { entry with status := .failed } := by
      rw [hcancel]
      refine (List.getElem?_modify_eq _ place s.payments).trans ?_
      rw [(find_eq_some hfind).1]
      rfl
    intro other hother hid
    obtain rfl := hafter.payments.eq_of_id hother (List.mem_of_getElem? hlive) hid
    exact ⟨rfl, hfailed⟩

/-- No call is made for a cancelled entry and none is answered with success. -/
def Kept (id : String) (s t : Manager) : Prop :=
  ∀ (k : Nat) (call : PayCall), t.calls[k]? = some call → call.payment.id = id →
    ∃ before : PayCall, s.calls[k]? = some before ∧
      (call.outcome = .resolved → before.outcome = .resolved)

theorem schedule_cancelled (h : Cancelled id s) {other : String} (hfresh : other ∉ s.issued)
    (invoiceId : String) (amount : Int)
    (executeAt : Numbers.JsNumber) (saves : Bool) :
    Cancelled id (schedule s other invoiceId amount executeAt saves) := by
  have hpushed : Cancelled id { s with
      payments := s.payments ++ [⟨other, invoiceId, amount, executeAt, .pending⟩]
      issued := other :: s.issued } := by
    refine ⟨List.mem_cons_of_mem _ h.issued, ?_, h.stored⟩
    intro entry hentry hid
    rcases List.mem_append.mp hentry with hold | hnew
    · exact h.listed entry hold hid
    · obtain rfl := List.mem_singleton.mp hnew
      exact absurd h.issued (hid ▸ hfresh)
  have hsaved := hpushed.save saves
  exact ⟨hsaved.issued, hsaved.listed, hsaved.stored⟩

theorem cancel_cancelled (h : Cancelled id s) (other : String) (saves : Bool) :
    Cancelled id (cancel s other saves) := by
  rcases cancel_cases s other saves with hsame | ⟨place, live, -, -, -, hcancel⟩
  · rwa [hsame]
  · have hdisarm : Cancelled id (disarm s other) := ⟨h.issued, h.listed, h.stored⟩
    rw [hcancel]
    exact (hdisarm.setStatus (.inl rfl)).save saves

/-- The call that is answered with success is for an entry that was not cancelled. -/
theorem resolved_other (ho : Once s) (h : Cancelled id s) {k : Nat} {call : PayCall} {saves : Bool}
    (hcall : s.calls[k]? = some call)
    (hflight : call.outcome = .inFlight) (hsound : Sound s (.settled k true saves)) :
    call.payment.id ≠ id := by
  intro hid
  obtain ⟨live, hlive, hliveId⟩ := ho.placed call (List.mem_of_getElem? hcall) hflight
  obtain ⟨hfailed, hstored⟩ := h.listed live (List.mem_of_getElem? hlive) (hliveId.trans hid)
  exact hsound call hcall live hlive ⟨hfailed, (hliveId.trans hid).symm ▸ hstored⟩

theorem settled_cancelled (ho : Once s) (h : Cancelled id s) {k : Nat} {call : PayCall}
    (hcall : s.calls[k]? = some call)
    (hflight : call.outcome = .inFlight) {resolves saves : Bool}
    (hsound : Sound s (.settled k resolves saves)) :
    Cancelled id (settled s k call resolves saves) := by
  have hanswered : Cancelled id { s with
      calls := s.calls.set k { call with outcome := if resolves then .resolved else .rejected } } :=
    ⟨h.issued, h.listed, h.stored⟩
  refine (hanswered.setStatus ?_).save saves
  cases resolves with
  | false => exact .inl rfl
  | true =>
      refine .inr (fun live hlive hid => ?_)
      obtain ⟨entry, hentry, hentryId⟩ := ho.placed call (List.mem_of_getElem? hcall) hflight
      obtain rfl : entry = live := Option.some.inj (hentry.symm.trans hlive)
      exact resolved_other ho h hcall hflight hsound (hentryId.symm.trans hid)

theorem settled_kept (ho : Once t) (h : Cancelled id t) (hk : Kept id s t) {k : Nat}
    {call : PayCall} (hcall : t.calls[k]? = some call)
    (hflight : call.outcome = .inFlight) {resolves saves : Bool}
    (hsound : Sound t (.settled k resolves saves)) :
    Kept id s (settled t k call resolves saves) := by
  intro j other hother hid
  rcases of_getElem?_set hother with ⟨rfl, rfl⟩ | ⟨-, hold⟩
  · obtain ⟨before, hbefore, -⟩ := hk _ call hcall hid
    refine ⟨before, hbefore, fun hresolved => ?_⟩
    cases resolves with
    | false => nomatch hresolved
    | true =>
        have hother : call.payment.id ≠ id := resolved_other ho h hcall hflight hsound
        exact absurd hid hother
  · exact hk j other hold hid

theorem restart_cancelled (h : Cancelled id s) (loads : Bool) : Cancelled id (restart s loads) := by
  obtain ⟨platform, timers, heq, -, -⟩ := restart_eq s loads
  rw [heq]
  refine ⟨h.issued, ?_, h.stored⟩
  intro entry hentry hid
  obtain ⟨stored, hstored, -, hmem⟩ := mem_load hentry
  have hfailed := h.stored stored hstored entry hmem hid
  exact ⟨hfailed, stored, hstored, entry, hmem, hid, hfailed⟩

theorem restart_kept (hk : Kept id s t) (loads : Bool) : Kept id s (restart t loads) := by
  obtain ⟨platform, timers, heq, -, -⟩ := restart_eq t loads
  rw [heq]
  intro k call hcall hid
  obtain ⟨before, hbefore, rfl⟩ := Option.map_eq_some_iff.mp (List.getElem?_map.symm.trans hcall)
  rw [forget_payment] at hid
  obtain ⟨first, hfirst, houtcome⟩ := hk k before hbefore hid
  refine ⟨first, hfirst, fun hresolved => houtcome ?_⟩
  unfold forget at hresolved
  split at hresolved
  · nomatch hresolved
  · exact hresolved

/-- A call of `pay` is made for an entry that is pending, so for another one. -/
theorem pay_kept (h : Cancelled id t) (hk : Kept id s t) {place : Nat} {live : ScheduledPayment}
    (platform : Timers String)
    (timers : OrderedMap.OrdMap String Nat) (hlive : t.payments[place]? = some live)
    (hstatus : live.status = .pending) :
    Kept id s { t with platform, timers, calls := t.calls ++ [{ place, payment := live, time := t.now }] } := by
  intro k call hcall hid
  rcases of_getElem?_push hcall with ⟨-, rfl⟩ | hold
  · nomatch hstatus.symm.trans (h.listed live (List.mem_of_getElem? hlive) hid).1
  · exact hk k call hold hid

theorem cancel_calls (s : Manager) (id : String) (saves : Bool) :
    (cancel s id saves).calls = s.calls := by
  rcases cancel_cases s id saves with hsame | ⟨place, live, -, -, -, hcancel⟩
  · rw [hsame]
  · rw [hcancel]
    rfl

theorem step_cancelled (e : Event) (ho : Once t) (h : Cancelled id t) (hk : Kept id s t)
    (hsound : Sound t e)
    (hstep : step t e = some u) : Cancelled id u ∧ Kept id s u := by
  cases moves_of_step hstep with
  | schedule invoiceId amount executeAt saves hfresh =>
      exact ⟨schedule_cancelled h hfresh invoiceId amount executeAt saves, hk⟩
  | cancel other saves =>
      refine ⟨cancel_cancelled h other saves, ?_⟩
      rw [Kept, cancel_calls]
      exact hk
  | skip handle timers htimer => exact ⟨⟨h.issued, h.listed, h.stored⟩, hk⟩
  | pay handle timers htimer hdue hlive hid hstatus => exact ⟨⟨h.issued, h.listed, h.stored⟩,
      pay_kept h hk _ timers hlive hstatus⟩
  | settled resolves saves hcall hflight =>
      exact ⟨settled_cancelled ho h hcall hflight hsound, settled_kept ho h hk hcall hflight hsound⟩
  | restart loads => exact ⟨restart_cancelled h loads, restart_kept hk loads⟩
  | elapse hms => exact ⟨⟨h.issued, h.listed, h.stored⟩, hk⟩
  | setClock now => exact ⟨⟨h.issued, h.listed, h.stored⟩, hk⟩

end Cancels

section Result

variable {s t : Manager} {es : List Event}

theorem step_both {u v : Manager} {e : Event} (h : Issued u ∧ Once u) (hsound : Sound u e)
    (hstep : step u e = some v) :
    Issued v ∧ Once v :=
  ⟨step_issued e h.1 hstep, step_once e h.1 h.2 hsound hstep⟩

theorem reached_both {persistent : Bool} {now : ℚ}
    (h : Reaches step Sound (start persistent now) es s) : Issued s ∧ Once s :=
  run_invariant (fun _ _ _ hi hok hstep => step_both hi hok hstep) _ _ es
    ⟨start_issued persistent now, start_once persistent now⟩ h.allowed h.run

theorem withdrawn_of_cancelled {id : String} (h : Cancelled id t) (hk : Kept id s t) :
    Withdrawn id s t := by
  refine ⟨hk, fun entry hentry hid hexecuted => ?_, fun stored hstored entry hentry hid hexecuted => ?_⟩
  · nomatch (h.listed entry hentry hid).1.symm.trans hexecuted
  · nomatch (h.stored stored hstored entry hentry hid).symm.trans hexecuted

theorem cancel_withdraws {persistent : Bool} {now : ℚ} {id : String} {saves : Bool} {fs : List Event}
    (h : Reaches step Sound (start persistent now) es s) (heffect : TakesEffect s id saves)
    (h' : Reaches step Sound (cancel s id saves) fs t) : Withdrawn id (cancel s id saves) t := by
  obtain ⟨hi, ho⟩ := reached_both h
  have hcancelled := cancelled_of_takesEffect hi heffect
  have hinv := run_invariant
    (I := fun u => (Issued u ∧ Once u) ∧ Cancelled id u ∧ Kept id (cancel s id saves) u)
    (fun u e v hu hok hstep => ⟨step_both hu.1 hok hstep, step_cancelled e hu.1.2 hu.2.1 hu.2.2 hok hstep⟩)
    (cancel s id saves) t fs ⟨⟨hi.cancel id saves, cancel_once ho id saves⟩, hcancelled,
      fun k call hcall _ => ⟨call, hcall, fun hresolved => hresolved⟩⟩
    h'.allowed h'.run
  exact withdrawn_of_cancelled hinv.2.1 hinv.2.2

/-- An entry is paid at most once, and not after it was cancelled, however the process is restarted in between. -/
theorem paid_at_most_once {persistent : Bool} {now : ℚ}
    (h : Reaches step Sound (start persistent now) es s) :
    (∀ id, attempts s id ≤ 1) ∧
      ∀ (id : String) (saves : Bool) (fs : List Event) (t : Manager), TakesEffect s id saves →
        Reaches step Sound (cancel s id saves) fs t → Withdrawn id (cancel s id saves) t :=
  ⟨(reached_both h).2.once, fun _ _ _ _ heffect h' => cancel_withdraws h heffect h'⟩

end Result

section Runs

instance (s : Manager) (e : Event) : Decidable (Sound s e) :=
  match e with
  | .settled k true _ => inferInstanceAs (Decidable (∀ call ∈ s.calls[k]?, ∀ live ∈ s.payments[call.place]?,
      ¬(live.status = .failed ∧ StoredFailed s live.id)))
  | .restart loads => inferInstanceAs (Decidable (∀ entry ∈ pendingEntries (load s loads), attempts s entry.id = 0))
  | .settled _ false _ | .schedule _ _ _ _ _ | .cancel _ _ | .fire _ | .elapse _ | .setClock _ => .isTrue trivial

/-- One entry of an hour after the start, with its timer fired. -/
def inFlight : List Event := [.schedule "a" "inv-1" 5 (.finite 3600) true, .elapse 3600000, .fire 0]

/-- A process that ends during the payment leaves the next one to pay again, and a payment that was cancelled
during it is reported as executed. -/
theorem paid_twice :
    (∃ s ∈ run step (start true 0) (inFlight ++ [.restart true, .elapse 1, .fire 0]),
      attempts s "a" = 2) ∧
    ∃ s ∈ run step (start true 0) inFlight, TakesEffect s "a" true ∧
      ∃ t ∈ run step (cancel s "a" true) [.settled 0 true true],
        t.payments.map ScheduledPayment.status = [.executed] := by
  decide +kernel

def scheduled : List Event := [.schedule "a" "inv-1" 5 (.finite 3600) true]

theorem paid_or_cancelled_before_restart :
    (∃ s ∈ run step (start true 0) (inFlight ++ [.settled 0 true true, .restart true]),
      s.calls.length = 1 ∧ ∀ id, attempts s id ≤ 1) ∧
    ∃ s ∈ run step (start true 0) scheduled,
      ∃ t ∈ run step (cancel s "a" true) [.restart true, .elapse 3600000],
      t.payments.length = 1 ∧ Withdrawn "a" (cancel s "a" true) t := by
  constructor
  · have hpaid : ∃ s ∈ run step (start true 0) (inFlight ++ [.settled 0 true true, .restart true]),
      s.calls.length = 1 := by
      decide +kernel
    obtain ⟨s, hs, hcalls⟩ := hpaid
    exact ⟨s, hs, hcalls, (paid_at_most_once ⟨hs, by decide +kernel⟩).1⟩
  · have hcancelled : ∃ s ∈ run step (start true 0) scheduled, TakesEffect s "a" true ∧
        Allowed step Sound (cancel s "a" true) [.restart true, .elapse 3600000] ∧
          ∃ t ∈ run step (cancel s "a" true) [.restart true, .elapse 3600000],
            t.payments.length = 1 := by
      decide
    obtain ⟨s, hs, heffect, hallowed, t, ht, hpayments⟩ := hcancelled
    exact ⟨s, hs, t, ht, hpayments,
      (paid_at_most_once ⟨hs, by decide⟩).2 "a" true _ t heffect ⟨ht, hallowed⟩⟩

end Runs

end SplitSdk.PaymentOnce
