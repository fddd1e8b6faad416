import SplitSdk.Interleaving
import SplitSdk.OrderedMap
import SplitSdk.PlatformTimers

namespace SplitSdk.ScheduledPaymentManager

open Numbers OrderedMap PlatformTimers

section Data

inductive Status
  | pending
  | executed
  | failed
  deriving DecidableEq

structure ScheduledPayment where
  id : String
  invoiceId : String
  amount : Int
  executeAt : JsNumber
  status : Status
  deriving DecidableEq

/-- What became of a call of `pay`. Its answer is lost when the process ends first. -/
inductive Outcome
  | inFlight
  | resolved
  | rejected
  | lost
  deriving DecidableEq

/-- A call of `pay` for the entry at `place`, with what the entry was and the time then. -/
structure PayCall where
  place : Nat
  payment : ScheduledPayment
  time : ℚ
  outcome : Outcome := .inFlight
  deriving DecidableEq

/-- The manager of the running process, the timers of its platform, the storage that outlives it, and all
calls of `pay` by this process and the ones before it. `storage` is `none` where there is no `localStorage`. -/
structure Manager where
  payments : List ScheduledPayment := []
  timers : OrdMap String Nat := .empty
  platform : Timers String := []
  storage : Option (List ScheduledPayment)
  calls : List PayCall := []
  issued : List String := []
  now : ℚ
  uptime : ℚ := 0

end Data

section Operations

variable (s : Manager)

def start (persistent : Bool) (now : ℚ) : Manager where
  storage := if persistent then some [] else none
  now := now

/-- `executeAt * 1000`. -/
def dueAt (payment : ScheduledPayment) : JsNumber := payment.executeAt.mul (.finite 1000)

/-- An entry after `serialize` and `deserialize`. A time that is no finite number comes back as `null`, which is 0
when multiplied. -/
def reloaded (payment : ScheduledPayment) : ScheduledPayment :=
  { payment with
    executeAt := match payment.executeAt with
      | .finite q => .finite q
      | _ => .finite 0 }

/-- `save`, which does nothing when the storage throws. -/
def save (works : Bool) : Manager :=
  { s with storage := if works then s.storage.map (fun _ => s.payments.map reloaded) else s.storage }

def load (works : Bool) : List ScheduledPayment := if works then s.storage.getD [] else []

/-- The first entry with the id, and its place. -/
def find (id : String) : Option (Nat × ScheduledPayment) :=
  (s.payments.findIdx? (fun payment => payment.id = id)).bind
    (fun place => (s.payments[place]?).map (fun payment => (place, payment)))

def setStatus (place : Nat) (status : Status) : Manager :=
  { s with payments := s.payments.modify place (fun payment => { payment with status }) }

/-- The timer's callback keeps the id of the entry. -/
def arm (entry : ScheduledPayment) : Manager :=
  { s with
    platform := setTimeout s.platform s.uptime entry.id (delayUntil (dueAt entry) s.now)
    timers := s.timers.set entry.id s.platform.length }

def schedule (id invoiceId : String) (amount : Int) (executeAt : JsNumber) (saves : Bool) : Manager :=
  let entry : ScheduledPayment := ⟨id, invoiceId, amount, executeAt, .pending⟩
  arm (save { s with payments := s.payments ++ [entry], issued := id :: s.issued } saves) entry

def disarm (id : String) : Manager :=
  { s with
    platform := match s.timers.get? id with
      | some handle => clearTimeout s.platform handle
      | none => s.platform
    timers := s.timers.delete id }

def cancel (scheduleId : String) (saves : Bool) : Manager :=
  match find s scheduleId with
  | some (place, entry) =>
      if entry.status = .pending then save (setStatus (disarm s scheduleId) place .failed) saves else s
  | none => s

/-- The callback of a timer, up to its `await`. -/
def timeout (id : String) : Manager :=
  match find s id with
  | some (place, live) =>
      if live.status = .pending then
        { s with
          timers := s.timers.delete id
          calls := s.calls ++ [{ place, payment := live, time := s.now }] }
      else { s with timers := s.timers.delete id }
  | none => { s with timers := s.timers.delete id }

/-- The rest of the callback, after `pay` has resolved or rejected. -/
def settled (k : Nat) (call : PayCall) (resolves : Bool) (saves : Bool) : Manager :=
  let outcome := if resolves then Outcome.resolved else .rejected
  let status := if resolves then Status.executed else .failed
  save (setStatus { s with calls := s.calls.set k { call with outcome } } call.place status) saves

def forget (call : PayCall) : PayCall := if call.outcome = .inFlight then { call with outcome := .lost } else call

def pendingEntries (payments : List ScheduledPayment) : List ScheduledPayment :=
  payments.filter (fun payment => payment.status = .pending)

/-- The process ends, and the next one makes a manager. -/
def restart (loads : Bool) : Manager :=
  let payments := load s loads
  (pendingEntries payments).foldl arm
    { s with payments, timers := .empty, platform := [], calls := s.calls.map forget }

end Operations

section Runs

inductive Event
  | schedule (id invoiceId : String) (amount : Int) (executeAt : JsNumber) (saves : Bool)
  | cancel (scheduleId : String) (saves : Bool)
  | fire (handle : Nat)
  | settled (k : Nat) (resolves saves : Bool)
  | restart (loads : Bool)
  | elapse (ms : ℚ)
  /-- The clock that `Date.now` reads is set. Timers go on as before. -/
  | setClock (now : ℚ)

/-- `randomUUID` gives no id a second time. -/
def step (s : Manager) : Event → Option Manager
  | .schedule id invoiceId amount executeAt saves =>
      if id ∈ s.issued then none else some (schedule s id invoiceId amount executeAt saves)
  | .cancel scheduleId saves => some (cancel s scheduleId saves)
  | .fire handle =>
      (fire s.platform s.uptime handle).map (fun (id, platform) => timeout { s with platform } id)
  | .settled k resolves saves =>
      match s.calls[k]? with
      | some call => if call.outcome = .inFlight then some (settled s k call resolves saves) else none
      | none => none
  | .restart loads => some (restart s loads)
  | .elapse ms => if 0 ≤ ms then some { s with now := s.now + ms, uptime := s.uptime + ms } else none
  | .setClock now => some { s with now }

end Runs

section Entries

variable {s : Manager}

theorem find_eq_some {id : String} {place : Nat} {payment : ScheduledPayment}
    (h : find s id = some (place, payment)) :
    s.payments[place]? = some payment ∧ payment.id = id := by
  obtain ⟨i, hi, hmap⟩ := Option.bind_eq_some_iff.mp h
  obtain ⟨found, hfound, heq⟩ := Option.map_eq_some_iff.mp hmap
  obtain ⟨rfl, rfl⟩ := Prod.mk.inj heq
  obtain ⟨hlt, hid, _⟩ := List.findIdx?_eq_some_iff_getElem.mp hi
  refine ⟨hfound, ?_⟩
  obtain rfl := Option.some.inj ((List.getElem?_eq_getElem hlt).symm.trans hfound)
  exact of_decide_eq_true hid

theorem mem_setStatus {place : Nat} {status : Status} {payment : ScheduledPayment}
    (h : payment ∈ (setStatus s place status).payments) :
    ∃ i, ∃ before, s.payments[i]? = some before ∧ payment = { before with status := payment.status } ∧
      payment.status = if i = place then status else before.status := by
  obtain ⟨i, hi⟩ := List.mem_iff_getElem?.mp h
  rw [setStatus, List.getElem?_modify] at hi
  obtain ⟨before, hbefore, heq⟩ := Option.map_eq_some_iff.mp hi
  refine ⟨i, before, hbefore, ?_⟩
  split_ifs at heq with hplace <;> subst heq
  · exact ⟨rfl, (if_pos hplace.symm).symm⟩
  · exact ⟨rfl, (if_neg (Ne.symm hplace)).symm⟩

theorem map_id_setStatus (s : Manager) (place : Nat) (status : Status) :
    (setStatus s place status).payments.map ScheduledPayment.id = s.payments.map ScheduledPayment.id := by
  refine Interleaving.map_modify ScheduledPayment.id _ ?_ s.payments place
  exact fun _ => rfl

theorem map_id_reloaded (payments : List ScheduledPayment) :
    (payments.map reloaded).map ScheduledPayment.id = payments.map ScheduledPayment.id := by
  rw [List.map_map]
  rfl

theorem save_storage {works : Bool} {stored : List ScheduledPayment}
    (h : stored ∈ (save s works).storage) :
    stored ∈ s.storage ∨ stored = s.payments.map reloaded := by
  cases works with
  | true =>
      obtain ⟨_, _, heq⟩ := Option.map_eq_some_iff.mp h
      exact .inr heq.symm
  | false => exact .inl h

end Entries

section Restart

theorem foldl_arm (entries : List ScheduledPayment) (s : Manager) :
    ∃ platform timers, entries.foldl arm s = { s with platform, timers } ∧
      armed platform = armed s.platform ++ entries.map ScheduledPayment.id ∧
      ∀ timer, some timer ∈ platform → some timer ∈ s.platform ∨
        ∃ entry ∈ entries, 
          timer = ⟨s.uptime + effectiveDelay (delayUntil (dueAt entry) s.now), entry.id⟩ := by
  induction entries generalizing s with
  | nil => exact ⟨s.platform, s.timers, rfl, (List.append_nil _).symm, fun _ => .inl⟩
  | cons entry entries ih =>
      obtain ⟨platform, timers, heq, harmed, hmem⟩ := ih (arm s entry)
      refine ⟨platform, timers, heq, ?_, ?_⟩
      · rw [harmed, arm, armed_setTimeout, List.append_assoc]
        rfl
      · intro timer htimer
        rcases hmem timer htimer with hold | ⟨other, hother, hnew⟩
        · rcases mem_setTimeout hold with hold | hnew
          · exact .inl hold
          · exact .inr ⟨entry, List.mem_cons_self, hnew⟩
        · exact .inr ⟨other, List.mem_cons_of_mem _ hother, hnew⟩

theorem restart_eq (s : Manager) (loads : Bool) :
    ∃ platform timers,
      restart s loads =
        { s with payments := load s loads, platform, timers, calls := s.calls.map forget } ∧
      armed platform = (pendingEntries (load s loads)).map ScheduledPayment.id ∧
      ∀ timer, some timer ∈ platform → ∃ entry ∈ pendingEntries (load s loads),
        timer = ⟨s.uptime + effectiveDelay (delayUntil (dueAt entry) s.now), entry.id⟩ := by
  obtain ⟨platform, timers, heq, harmed, hmem⟩ := foldl_arm (pendingEntries (load s loads))
    { s with payments := load s loads, timers := .empty, platform := [], calls := s.calls.map forget }
  refine ⟨platform, timers, heq, harmed, fun timer htimer => ?_⟩
  rcases hmem timer htimer with hold | hnew
  · nomatch hold
  · exact hnew

theorem mem_load {s : Manager} {loads : Bool} {entry : ScheduledPayment} (h : entry ∈ load s loads) :
    ∃ stored ∈ s.storage, load s loads = stored ∧ entry ∈ stored := by
  unfold load at h ⊢
  split_ifs at h ⊢
  · cases hstorage : s.storage with
    | none =>
        rw [hstorage] at h
        nomatch h
    | some stored =>
        rw [hstorage] at h
        exact ⟨stored, rfl, rfl, h⟩
  · nomatch h

end Restart

section Identifiers

/-- Entries whose ids are distinct and were given out. -/
structure Distinct (issued : List String) (payments : List ScheduledPayment) : Prop where
  nodup : (payments.map ScheduledPayment.id).Nodup
  subset : payments.map ScheduledPayment.id ⊆ issued

structure Issued (s : Manager) : Prop where
  payments : Distinct s.issued s.payments
  stored : ∀ stored ∈ s.storage, Distinct s.issued stored
  armed : armed s.platform ⊆ s.issued
  calls : ∀ call ∈ s.calls, call.payment.id ∈ s.issued

variable {s t : Manager}

theorem Distinct.congr {issued : List String} {payments others : List ScheduledPayment}
    (h : Distinct issued payments)
    (heq : others.map ScheduledPayment.id = payments.map ScheduledPayment.id) :
    Distinct issued others :=
  ⟨heq ▸ h.nodup, heq ▸ h.subset⟩

theorem Distinct.eq_of_id {issued : List String} {payments : List ScheduledPayment}
    (h : Distinct issued payments)
    {p q : ScheduledPayment} (hp : p ∈ payments) (hq : q ∈ payments) (hid : p.id = q.id) : p = q :=
  List.inj_on_of_nodup_map h.nodup hp hq hid

theorem find_of_mem {issued : List String} (h : Distinct issued s.payments) {entry : ScheduledPayment}
    (hentry : entry ∈ s.payments) : ∃ place, find s entry.id = some (place, entry) := by
  have hsome : (s.payments.findIdx? (fun payment => payment.id = entry.id)).isSome := by
    rw [List.findIdx?_isSome]
    exact List.any_eq_true.mpr ⟨entry, hentry, decide_eq_true rfl⟩
  obtain ⟨place, hplace⟩ := Option.isSome_iff_exists.mp hsome
  obtain ⟨hlt, hid, -⟩ := List.findIdx?_eq_some_iff_getElem.mp hplace
  refine ⟨place, ?_⟩
  rw [find, hplace, Option.bind_some, List.getElem?_eq_getElem hlt, Option.map_some,
    h.eq_of_id (List.getElem_mem hlt) hentry (of_decide_eq_true hid)]

theorem start_issued (persistent : Bool) (now : ℚ) : Issued (start persistent now) := by
  refine ⟨⟨.nil, nofun⟩, ?_, nofun, nofun⟩
  intro stored hstored
  cases persistent with
  | true =>
      obtain rfl := Option.some.inj hstored
      exact ⟨.nil, nofun⟩
  | false => nomatch hstored

theorem Issued.save (h : Issued s) (works : Bool) : Issued (save s works) := by
  refine ⟨h.payments, ?_, h.armed, h.calls⟩
  intro stored hstored
  rcases save_storage hstored with hold | rfl
  · exact h.stored stored hold
  · exact h.payments.congr (map_id_reloaded _)

theorem Issued.setStatus (h : Issued s) (place : Nat) (status : Status) :
    Issued (setStatus s place status) :=
  ⟨h.payments.congr (map_id_setStatus s place status), h.stored, h.armed, h.calls⟩

theorem Issued.arm (h : Issued s) {entry : ScheduledPayment} (hentry : entry.id ∈ s.issued) :
    Issued (arm s entry) := by
  refine ⟨h.payments, h.stored, ?_, h.calls⟩
  rw [ScheduledPaymentManager.arm, armed_setTimeout]
  exact List.append_subset.mpr ⟨h.armed, List.cons_subset.mpr ⟨hentry, List.nil_subset _⟩⟩

theorem Issued.push (h : Issued s) (entry : ScheduledPayment) (hfresh : entry.id ∉ s.issued) :
    Issued { s with payments := s.payments ++ [entry], issued := entry.id :: s.issued } := by
  have hmono : s.issued ⊆ entry.id :: s.issued := List.subset_cons_self _ _
  refine ⟨⟨?_, ?_⟩, fun stored hstored => ?_, List.Subset.trans h.armed hmono,
    fun call hcall => hmono (h.calls call hcall)⟩
  · rw [List.map_append]
    refine List.nodup_append'.mpr ⟨h.payments.nodup, List.nodup_singleton _, ?_⟩
    exact List.disjoint_singleton.mpr (fun hmem => hfresh (h.payments.subset hmem))
  · rw [List.map_append]
    exact List.append_subset.mpr ⟨List.Subset.trans h.payments.subset hmono,
      List.cons_subset.mpr ⟨List.mem_cons_self, List.nil_subset _⟩⟩
  · exact ⟨(h.stored stored hstored).nodup, List.Subset.trans (h.stored stored hstored).subset hmono⟩

theorem forget_payment (call : PayCall) : (forget call).payment = call.payment := by
  unfold forget
  split <;> rfl

theorem forget_time (call : PayCall) : (forget call).time = call.time := by
  unfold forget
  split <;> rfl

theorem forget_outcome (call : PayCall) : (forget call).outcome ≠ .inFlight := by
  unfold forget
  split
  · nofun
  · assumption

theorem Issued.restart (h : Issued s) (loads : Bool) : Issued (restart s loads) := by
  have hload : Distinct s.issued (load s loads) := by
    unfold load
    split
    · cases hstorage : s.storage with
      | none => exact ⟨.nil, nofun⟩
      | some stored => exact h.stored stored hstorage
    · exact ⟨.nil, nofun⟩
  obtain ⟨platform, timers, heq, harmed, -⟩ := restart_eq s loads
  rw [heq]
  refine ⟨hload, h.stored, ?_, ?_⟩
  · rw [harmed]
    exact List.Subset.trans (List.map_subset _ List.filter_sublist.subset) hload.subset
  · intro call hcall
    obtain ⟨before, hbefore, rfl⟩ := List.mem_map.mp hcall
    rw [forget_payment]
    exact h.calls before hbefore

/-- What a cancel does. -/
theorem cancel_cases (s : Manager) (id : String) (saves : Bool) :
    cancel s id saves = s ∨ ∃ place entry, s.payments[place]? = some entry ∧ entry.id = id ∧
      entry.status = .pending ∧
      cancel s id saves = save (setStatus (disarm s id) place .failed) saves := by
  unfold cancel
  split
  · rename_i place entry hfind
    obtain ⟨hentry, hid⟩ := find_eq_some hfind
    by_cases hstatus : entry.status = .pending
    · exact .inr ⟨place, entry, hentry, hid, hstatus, if_pos hstatus⟩
    · exact .inl (if_neg hstatus)
  · exact .inl rfl

theorem armed_disarm_sublist (s : Manager) (id : String) :
    (armed (disarm s id).platform).Sublist (armed s.platform) := by
  unfold disarm
  split
  · exact armed_clearTimeout_sublist _ _
  · exact .refl _

theorem mem_disarm {id : String} {timer : Timer String} (h : some timer ∈ (disarm s id).platform) :
    some timer ∈ s.platform := by
  unfold disarm at h
  split at h
  · exact mem_clearTimeout h
  · exact h

theorem Issued.cancel (h : Issued s) (id : String) (saves : Bool) : Issued (cancel s id saves) := by
  rcases cancel_cases s id saves with hsame | ⟨place, entry, -, -, -, hcancel⟩
  · rwa [hsame]
  · rw [hcancel]
    have hdisarm : Issued (disarm s id) :=
      ⟨h.payments, h.stored, List.Subset.trans (armed_disarm_sublist s id).subset h.armed, h.calls⟩
    exact (hdisarm.setStatus place .failed).save saves

end Identifiers

section Steps

variable {s t : Manager}

/-- What an event does. A timer that fires calls `pay` for the live entry when it is still pending. -/
inductive Moves (s : Manager) : Event → Manager → Prop
  | schedule {id} (invoiceId amount executeAt saves) (hfresh : id ∉ s.issued) :
      Moves s (.schedule id invoiceId amount executeAt saves) (schedule s id invoiceId amount executeAt saves)
  | cancel (id saves) : Moves s (.cancel id saves) (cancel s id saves)
  | skip {timer} (handle timers) (htimer : s.platform[handle]? = some (some timer)) :
      Moves s (.fire handle) { s with platform := clearTimeout s.platform handle, timers }
  | pay {timer place live} (handle timers) (htimer : s.platform[handle]? = some (some timer))
      (hdue : timer.due ≤ s.uptime) (hlive : s.payments[place]? = some live) (hid : live.id = timer.callback) (hstatus : live.status = .pending) :
      Moves s (.fire handle) { s with
        platform := clearTimeout s.platform handle
        timers
        calls := s.calls ++ [{ place, payment := live, time := s.now }] }
  | settled {k call} (resolves saves) (hcall : s.calls[k]? = some call) (hflight : call.outcome = .inFlight) :
      Moves s (.settled k resolves saves) (settled s k call resolves saves)
  | restart (loads) : Moves s (.restart loads) (restart s loads)
  | elapse {ms} (hms : 0 ≤ ms) :
      Moves s (.elapse ms) { s with now := s.now + ms, uptime := s.uptime + ms }
  | setClock (now) : Moves s (.setClock now) { s with now }

theorem moves_of_fire {handle : Nat} (h : step s (.fire handle) = some t) :
    Moves s (.fire handle) t := by
  obtain ⟨⟨id, platform⟩, hfire, rfl⟩ := Option.map_eq_some_iff.mp h
  obtain ⟨timer, htimer, hdue, rfl, rfl⟩ := fire_eq_some hfire
  dsimp only
  unfold timeout
  split
  · rename_i place live hfind
    obtain ⟨hlive, hid⟩ := find_eq_some hfind
    by_cases hstatus : live.status = .pending
    · rw [if_pos hstatus]
      exact .pay handle _ htimer hdue hlive hid hstatus
    · rw [if_neg hstatus]
      exact .skip handle _ htimer
  · exact .skip handle _ htimer

theorem moves_of_step {e : Event} (h : step s e = some t) : Moves s e t := by
  cases e with
  | schedule id invoiceId amount executeAt saves =>
      rw [step] at h
      split at h
      · nomatch h
      · rename_i hfresh
        obtain rfl := Option.some.inj h
        exact .schedule invoiceId amount executeAt saves hfresh
  | cancel id saves =>
      obtain rfl := Option.some.inj h
      exact .cancel id saves
  | fire handle => exact moves_of_fire h
  | settled k resolves saves =>
      rw [step] at h
      split at h
      · rename_i call hcall
        split at h
        · rename_i hflight
          obtain rfl := Option.some.inj h
          exact .settled resolves saves hcall hflight
        · nomatch h
      · nomatch h
  | restart loads =>
      obtain rfl := Option.some.inj h
      exact .restart loads
  | elapse ms =>
      rw [step] at h
      split at h
      · rename_i hms
        obtain rfl := Option.some.inj h
        exact .elapse hms
      · nomatch h
  | setClock now =>
      obtain rfl := Option.some.inj h
      exact .setClock now

theorem Issued.clearTimeout (h : Issued s) (handle : Nat) (timers : OrdMap String Nat) :
    Issued { s with platform := clearTimeout s.platform handle, timers } :=
  ⟨h.payments, h.stored, List.Subset.trans (armed_clearTimeout_sublist _ _).subset h.armed, h.calls⟩

theorem Issued.settled (h : Issued s) {k : Nat} {call : PayCall} (hcall : s.calls[k]? = some call)
    (resolves saves : Bool) :
    Issued (settled s k call resolves saves) := by
  have hcalls : Issued { s with
      calls := s.calls.set k { call with outcome := if resolves then .resolved else .rejected } } := by
    refine ⟨h.payments, h.stored, h.armed, Interleaving.forall_mem_set h.calls ?_⟩
    exact h.calls call (List.mem_of_getElem? hcall)
  exact (hcalls.setStatus call.place _).save saves

theorem step_issued (e : Event) (h : Issued s) (hstep : step s e = some t) : Issued t := by
  cases moves_of_step hstep with
  | schedule invoiceId amount executeAt saves hfresh =>
      exact ((h.push ⟨_, invoiceId, amount, executeAt, .pending⟩ hfresh).save saves).arm List.mem_cons_self
  | cancel id saves => exact h.cancel id saves
  | skip handle timers htimer => exact h.clearTimeout handle timers
  | pay handle timers htimer hdue hlive hid hstatus =>
      have hcleared := h.clearTimeout handle timers
      refine ⟨hcleared.payments, hcleared.stored, hcleared.armed, ?_⟩
      intro call hcall
      rcases List.mem_append.mp hcall with hold | hnew
      · exact h.calls call hold
      · rw [List.mem_singleton.mp hnew]
        exact h.payments.subset (List.mem_map_of_mem (List.mem_of_getElem? hlive))
  | settled resolves saves hcall hflight => exact h.settled hcall resolves saves
  | restart loads => exact h.restart loads
  | elapse hms => exact ⟨h.payments, h.stored, h.armed, h.calls⟩
  | setClock now => exact ⟨h.payments, h.stored, h.armed, h.calls⟩

end Steps

end SplitSdk.ScheduledPaymentManager
