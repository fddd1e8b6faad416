import SplitSdk.Interleaving
import SplitSdk.InvoiceStream

namespace SplitSdk.PollingLoops

open Interleaving InvoiceStream Numbers OrderedMap StreamDeduplicator

section Order

/-- The timers that are armed and the polls that run. -/
def load (sub : Subscription) : Nat := sub.timers.countP Option.isSome + sub.polls.countP Option.isSome

/-- Nothing follows the first unsubscribe but more of them. -/
def Quiet (log : List Note) : Prop := log.Pairwise (fun a b => a = .unsubscribed → b = .unsubscribed)

def active (sub : Subscription) : Bool := .unsubscribed ∉ sub.log

/-- Each subscription has one poll or one timer at most and is silent once unsubscribed, and the active ones are counted. -/
structure InOrder (s : Streams) : Prop where
  single : ∀ sub ∈ s.subscriptions, load sub ≤ 1
  quiet : ∀ sub ∈ s.subscriptions, Quiet sub.log
  count : s.subscriptionCount = s.subscriptions.countP active
  limit : s.subscriptions.countP active ≤ maxSubscriptions

/-- The loop over the events comes to a function of the subscriber. -/
def Brings (sub : Subscription) (seen : Option Deduplicator) (batch : Batch) (events : List EventResponse) : Prop :=
  match (loop sub seen batch events).2 with
  | .threw => False
  | .calls _ _ _ => True
  | .done batch => batch.hasChanges ∧ sub.receiver = .handler ∧ batch.eventsSinceLastPoll ≠ []

/-- The page is shown again only when no listening subscription has a timer or a poll, each subscription is unsubscribed once, and what
is left of an answer brings nothing to one that is. -/
def InTurn (s : Streams) : Event → Prop
  | .visibilityChange false => s.calling = none → ∀ sub ∈ s.subscriptions, sub.listening → load sub = 0
  | .unsubscribe k => ∀ sub, s.subscriptions[k]? = some sub → sub.stopped = false
  | .events k p (some events) => s.calling = none → ∀ sub, s.running k p = some (sub, .events) → sub.stopped →
      ¬ Brings sub (s.seenBy sub) { maxLedger := sub.lastLedger.getD (.finite 0) } events
  | .returns false => ∀ k p, s.calling = some (k, p) → ∀ sub batch rest,
      s.running k p = some (sub, .callback batch rest) → sub.stopped → ¬ Brings sub (s.seenBy sub) batch rest
  | _ => True

end Order

section Moves

variable {sub sub' : Subscription} {p : Nat} {stage : Stage}

/-- What the variables of a subscription tell about its past. -/
structure Linked (sub : Subscription) : Prop where
  stopped : sub.stopped = true ↔ Note.unsubscribed ∈ sub.log
  listening : sub.listening = true → sub.stopped = false

/-- A part of a poll: it leaves one note or none, and the load is at most `n` after it. -/
structure Moves (sub sub' : Subscription) (note : Option Note) (n : Nat) : Prop where
  stopped : sub'.stopped = sub.stopped
  listening : sub'.listening = sub.listening
  log : sub'.log = sub.log ++ note.toList
  load : load sub' ≤ n

theorem quiet_append {log : List Note} {note : Note} (hnote : note ≠ .unsubscribed) (h : Quiet log) :
    Quiet (log ++ [note]) ↔ Note.unsubscribed ∉ log := by
  unfold Quiet at h ⊢
  rw [List.pairwise_append]
  constructor
  · intro hquiet hmem
    exact hnote (hquiet.2.2 _ hmem note (List.mem_singleton_self note) rfl)
  · intro hnot
    refine ⟨h, List.pairwise_singleton _ _, ?_⟩
    intro a ha b _ heq
    exact absurd (heq ▸ ha) hnot

theorem load_arm (sub : Subscription) : load sub.arm = load sub + 1 := by
  simp only [load, Subscription.arm, List.countP_append, List.countP_singleton, Option.isSome_some, if_true]
  omega

theorem load_clearTimer (sub : Subscription) : load sub.clearTimer ≤ load sub := by
  unfold load Subscription.clearTimer
  cases sub.timerId with
  | none => exact le_rfl
  | some timerId =>
      refine Nat.add_le_add_right ?_ _
      dsimp only
      cases htimer : sub.timers[timerId]? with
      | none => rw [List.set_eq_of_length_le (List.getElem?_eq_none_iff.mp htimer)]
      | some timer => exact countP_set_le _ htimer (by simp)

theorem clearTimer_same (sub : Subscription) : sub.clearTimer.stopped = sub.stopped ∧
    sub.clearTimer.listening = sub.listening ∧ sub.clearTimer.log = sub.log := by
  unfold Subscription.clearTimer
  cases sub.timerId <;> exact ⟨rfl, rfl, rfl⟩

theorem poll_of_stopped (h : sub.stopped = true) : sub.poll = sub.clearTimer := by
  simp [Subscription.poll, h]

theorem poll_of_paused (h : sub.stopped = false) (hpaused : sub.paused = true) : sub.poll = sub.clearTimer.arm := by
  simp [Subscription.poll, h, hpaused]

/-- A poll of a subscription that is neither stopped nor paused starts to run. -/
theorem poll_moves_of_running (h : sub.stopped = false) (hpaused : sub.paused = false) :
    Moves sub sub.poll (some .polled) (load sub + 1) ∧ load sub.poll = load sub + 1 := by
  have hpoll : load sub.poll = load sub + 1 := by
    simp [load, Subscription.poll, h, hpaused, List.countP_append, Nat.add_assoc]
  refine ⟨⟨?_, ?_, ?_, hpoll.le⟩, hpoll⟩
  all_goals simp [Subscription.poll, h, hpaused]

theorem poll_moves (sub : Subscription) : ∃ note, (note = none ∨ note = some .polled ∧ sub.stopped = false) ∧
    Moves sub sub.poll note (load sub + 1) := by
  obtain ⟨hstopped, hlistening, hlog⟩ := clearTimer_same sub
  have hload := load_clearTimer sub
  cases h : sub.stopped with
  | true =>
      refine ⟨none, .inl rfl, ?_⟩
      rw [poll_of_stopped h]
      exact ⟨hstopped, hlistening, by rw [hlog, Option.toList_none, List.append_nil], hload.trans (Nat.le_succ _)⟩
  | false =>
      cases hpaused : sub.paused with
      | true =>
          refine ⟨none, .inl rfl, ?_⟩
          rw [poll_of_paused h hpaused]
          refine ⟨hstopped, hlistening, ?_, (load_arm _).trans_le (Nat.add_le_add_right hload 1)⟩
          rw [Option.toList_none, List.append_nil]
          exact hlog
      | false => exact ⟨some .polled, .inr ⟨rfl, rfl⟩, (poll_moves_of_running h hpaused).1⟩

/-- The end of a poll makes room for the next timer. -/
theorem endPoll_moves (hstage : sub.polls[p]?.join = some stage) : Moves sub (sub.endPoll p) none (load sub) := by
  have hcount := countP_set (u := none) Option.isSome (Option.join_eq_some_iff.mp hstage)
  simp only [Option.isSome_some, if_true, Option.isSome_none, Bool.false_eq_true, if_false] at hcount
  unfold Subscription.endPoll
  split_ifs
  · refine ⟨rfl, rfl, (List.append_nil _).symm, ?_⟩
    rw [load_arm]
    dsimp only [load]
    omega
  · refine ⟨rfl, rfl, (List.append_nil _).symm, ?_⟩
    dsimp only [load]
    omega

theorem call_moves (hstage : sub.polls[p]?.join = some stage) (stage' : Stage) (call : Call) :
    Moves sub (sub.call p stage' call) (some (.delivered call)) (load sub) := by
  refine ⟨rfl, rfl, rfl, ?_⟩
  dsimp only [load, Subscription.call]
  rw [countP_set_same (u := some stage') Option.isSome (Option.join_eq_some_iff.mp hstage) rfl]

theorem finish_moves (hstage : sub.polls[p]?.join = some stage) (seen : Option Deduplicator) (maxLedger : JsNumber) :
    Moves sub (finish sub p seen maxLedger).sub none (load sub) := by
  have hstage' : { sub with lastLedger := some (maxLedger.add (.finite 1)) }.polls[p]?.join = some stage := hstage
  have h := endPoll_moves hstage'
  exact ⟨h.stopped, h.listening, h.log, h.load⟩

/-- The back-off has nothing to do with how a subscription moves. -/
theorem Moves.of_backoff {note : Option Note} {n unchangedCount : Nat} {backoffMs : JsNumber}
    (h : Moves { sub with backoffMs, unchangedCount } sub' note n) : Moves sub sub' note n :=
  ⟨h.stopped, h.listening, h.log, h.load⟩

/-- A call of the subscriber is noted exactly if `brings` holds. -/
def Tells (note : Option Note) (brings : Prop) : Prop :=
  note = none ∧ ¬ brings ∨ ∃ call, note = some (.delivered call) ∧ brings

theorem Tells.none_iff {note : Option Note} {brings : Prop} (h : Tells note brings) : note = none ↔ ¬ brings := by
  rcases h with ⟨rfl, hnot⟩ | ⟨call, rfl, hbrings⟩
  · exact iff_of_true rfl hnot
  · exact iff_of_false (Option.some_ne_none _) (not_not_intro hbrings)

theorem Tells.note_ne {note : Option Note} {brings : Prop} (h : Tells note brings) : note ≠ some .unsubscribed := by
  rcases h with ⟨rfl, -⟩ | ⟨call, rfl, -⟩ <;> simp

/-- The rest of a poll calls a function of the subscriber exactly if the events bring something. -/
theorem proceed_moves (hstage : sub.polls[p]?.join = some stage) (seen : Option Deduplicator) (batch : Batch)
    (events : List EventResponse) : ∃ note, Moves sub (proceed sub p seen batch events).sub note (load sub) ∧
      Tells note (Brings sub seen batch events) := by
  have hstage' (backoffMs : JsNumber) (unchangedCount : Nat) :
      { sub with backoffMs, unchangedCount }.polls[p]?.join = some stage := hstage
  unfold proceed Brings
  obtain ⟨seen', outcome⟩ := loop sub seen batch events
  cases outcome with
  | threw => exact ⟨none, endPoll_moves hstage, .inl ⟨rfl, id⟩⟩
  | calls call batch rest => exact ⟨_, call_moves hstage _ call, .inr ⟨call, rfl, trivial⟩⟩
  | done batch =>
      dsimp only
      by_cases hchanges : batch.hasChanges
      · rw [if_pos hchanges]
        by_cases hhandler : sub.receiver = .handler ∧ batch.eventsSinceLastPoll ≠ []
        · rw [if_pos hhandler]
          exact ⟨_, .of_backoff (call_moves (hstage' _ _) _ _), .inr ⟨_, rfl, hchanges, hhandler⟩⟩
        · rw [if_neg hhandler]
          exact ⟨none, .of_backoff (finish_moves (hstage' _ _) _ _), .inl ⟨rfl, fun hbrings => hhandler hbrings.2⟩⟩
      · rw [if_neg hchanges]
        exact ⟨none, .of_backoff (finish_moves (hstage' _ _) _ _), .inl ⟨rfl, fun hbrings => hchanges hbrings.1⟩⟩

end Moves

section Advances

variable {s t : Streams} {k p : Nat} {sub sub' : Subscription} {note : Option Note}

structure Inv (s : Streams) : Prop where
  linked : ∀ sub ∈ s.subscriptions, Linked sub
  inOrder : InOrder s

/-- One subscription moves on, and the others and the count stay. -/
structure Advances (s t : Streams) (k : Nat) (sub sub' : Subscription) (note : Option Note) : Prop where
  found : s.subscriptions[k]? = some sub
  count : t.subscriptionCount = s.subscriptionCount
  subs : t.subscriptions = s.subscriptions.set k sub'
  moves : Moves sub sub' note (load sub)
  note : note ≠ some .unsubscribed

theorem Advances.mem_log_iff (h : Advances s t k sub sub' note) : Note.unsubscribed ∈ sub'.log ↔ Note.unsubscribed ∈ sub.log := by
  rw [h.moves.log, List.mem_append, Option.mem_toList, or_iff_left h.note]

theorem Advances.linked (h : Advances s t k sub sub' note) (hs : ∀ sub ∈ s.subscriptions, Linked sub) :
    ∀ sub ∈ t.subscriptions, Linked sub := by
  have hsub := hs sub (List.mem_of_getElem? h.found)
  rw [h.subs]
  refine forall_mem_set hs ⟨?_, ?_⟩
  · rw [h.mem_log_iff, h.moves.stopped]
    exact hsub.stopped
  · rw [h.moves.listening, h.moves.stopped]
    exact hsub.listening

theorem Advances.countP (h : Advances s t k sub sub' note) : t.subscriptions.countP active = s.subscriptions.countP active := by
  rw [h.subs]
  refine countP_set_same active h.found ?_
  unfold active
  rw [decide_eq_decide, not_iff_not]
  exact h.mem_log_iff

/-- Order is kept exactly if the subscription is not stopped where it leaves a note. -/
theorem Advances.inOrder_iff (h : Advances s t k sub sub' note) (hs : Inv s) :
    InOrder t ↔ note = none ∨ sub.stopped = false := by
  have hmem := List.mem_of_getElem? h.found
  have hquiet := hs.inOrder.quiet sub hmem
  have hstopped : sub.stopped = false ↔ Note.unsubscribed ∉ sub.log := by
    rw [← (hs.linked sub hmem).stopped, Bool.not_eq_true]
  have hmove : Quiet sub'.log ↔ note = none ∨ sub.stopped = false := by
    rw [h.moves.log, hstopped]
    cases note with
    | none => simp [hquiet]
    | some note =>
        rw [Option.toList_some, quiet_append (fun heq => h.note (heq ▸ rfl)) hquiet]
        simp
  rw [← hmove]
  constructor
  · intro ht
    have hlt : k < s.subscriptions.length := (List.getElem?_eq_some_iff.mp h.found).1
    exact ht.quiet sub' (h.subs ▸ List.mem_set hlt sub')
  · intro hlog
    refine ⟨?_, ?_, ?_, ?_⟩
    · rw [h.subs]
      exact forall_mem_set hs.inOrder.single (h.moves.load.trans (hs.inOrder.single sub hmem))
    · rw [h.subs]
      exact forall_mem_set hs.inOrder.quiet hlog
    · rw [h.count, h.countP]
      exact hs.inOrder.count
    · rw [h.countP]
      exact hs.inOrder.limit

theorem running_iff {stage : Stage} : s.running k p = some (sub, stage) ↔
    s.subscriptions[k]? = some sub ∧ sub.polls[p]?.join = some stage := by
  simp only [Streams.running, Option.bind_eq_some_iff, Option.map_eq_some_iff, Prod.mk.injEq]
  constructor
  · rintro ⟨sub', hsub, stage', hstage, rfl, rfl⟩
    exact ⟨hsub, hstage⟩
  · rintro ⟨hsub, hstage⟩
    exact ⟨sub, hsub, stage, hstage, rfl, rfl⟩

theorem Moves.weaken {n m : Nat} (h : Moves sub sub' note n) (hle : n ≤ m) : Moves sub sub' note m :=
  ⟨h.stopped, h.listening, h.log, h.load.trans hle⟩

theorem timer_advances {timerId : Nat} (h : step s (.timer k timerId) = some t) :
    ∃ sub sub' note, Advances s t k sub sub' note ∧ (note = none ∨ sub.stopped = false) := by
  dsimp only [step] at h
  split_ifs at h
  obtain ⟨sub, hsub, h⟩ := Option.bind_eq_some_iff.mp h
  obtain ⟨delay, hdelay, rfl⟩ := Option.map_eq_some_iff.mp h
  obtain ⟨note, hnote, hmoves⟩ := poll_moves { sub with timers := sub.timers.set timerId none }
  have hcount := countP_set (u := none) Option.isSome (Option.join_eq_some_iff.mp hdelay)
  simp only [Option.isSome_some, if_true, Option.isSome_none, Bool.false_eq_true, if_false] at hcount
  refine ⟨sub, _, note, ⟨hsub, rfl, rfl, ⟨hmoves.stopped, hmoves.listening, hmoves.log, hmoves.load.trans ?_⟩, ?_⟩, ?_⟩
  · dsimp only [load]
    omega
  · rcases hnote with rfl | ⟨rfl, -⟩ <;> simp
  · exact hnote.imp_right And.right

theorem latestLedger_advances {answer : Option JsNumber} (h : step s (.latestLedger k p answer) = some t) :
    ∃ sub sub', Advances s t k sub sub' none := by
  dsimp only [step] at h
  split_ifs at h
  split at h
  · rename_i sub sequence hrunning
    cases h
    obtain ⟨hsub, hstage⟩ := running_iff.mp hrunning
    refine ⟨sub, _, hsub, rfl, rfl, ⟨rfl, rfl, (List.append_nil _).symm, ?_⟩, nofun⟩
    dsimp only [load]
    rw [countP_set_same (u := some .events) Option.isSome (Option.join_eq_some_iff.mp hstage) rfl]
  · rename_i sub hrunning
    cases h
    obtain ⟨hsub, hstage⟩ := running_iff.mp hrunning
    exact ⟨sub, _, hsub, rfl, rfl, endPoll_moves hstage, nofun⟩
  · cases h

theorem events_advances {answer : Option (List EventResponse)} (h : step s (.events k p answer) = some t) :
    ∃ sub sub' note, s.calling = none ∧ s.running k p = some (sub, .events) ∧ Advances s t k sub sub' note ∧
      Tells note (∃ events, answer = some events ∧
        Brings sub (s.seenBy sub) { maxLedger := sub.lastLedger.getD (.finite 0) } events) := by
  dsimp only [step] at h
  split_ifs at h with hcalling
  split at h
  · rename_i sub hrunning
    cases h
    obtain ⟨hsub, hstage⟩ := running_iff.mp hrunning
    cases answer with
    | none =>
        refine ⟨sub, _, none, hcalling, hrunning, ⟨hsub, rfl, rfl, endPoll_moves hstage, nofun⟩, ?_⟩
        exact .inl ⟨rfl, fun ⟨_, hanswer, _⟩ => nomatch hanswer⟩
    | some events =>
        obtain ⟨note, hmoves, htells⟩ := proceed_moves hstage (s.seenBy sub)
          { maxLedger := sub.lastLedger.getD (.finite 0) } events
        refine ⟨sub, _, note, hcalling, hrunning, ⟨hsub, rfl, rfl, hmoves, htells.note_ne⟩, ?_⟩
        simpa only [Option.some.injEq, exists_eq_left'] using htells
  · cases h

theorem returns_advances {threw : Bool} (h : step s (.returns threw) = some t) :
    ∃ k p sub sub' stage note, s.calling = some (k, p) ∧ s.running k p = some (sub, stage) ∧
      Advances s t k sub sub' note ∧
      Tells note (threw = false ∧ ∃ batch rest, stage = .callback batch rest ∧ Brings sub (s.seenBy sub) batch rest) := by
  dsimp only [step] at h
  obtain ⟨⟨k, p⟩, hcalling, h⟩ := Option.bind_eq_some_iff.mp h
  dsimp only [Streams.returned] at h
  split at h
  · rename_i sub batch rest hrunning
    cases h
    obtain ⟨hsub, hstage⟩ := running_iff.mp hrunning
    cases threw with
    | true =>
        refine ⟨k, p, sub, _, _, none, hcalling, hrunning, ⟨hsub, rfl, rfl, endPoll_moves hstage, nofun⟩, ?_⟩
        exact .inl ⟨rfl, fun hfalse => nomatch hfalse.1⟩
    | false =>
        obtain ⟨note, hmoves, htells⟩ := proceed_moves hstage (s.seenBy sub) batch rest
        refine ⟨k, p, sub, _, _, note, hcalling, hrunning, ⟨hsub, rfl, rfl, hmoves, htells.note_ne⟩, ?_⟩
        simpa [Stage.callback.injEq, and_assoc] using htells
  · rename_i sub maxLedger hrunning
    cases h
    obtain ⟨hsub, hstage⟩ := running_iff.mp hrunning
    refine ⟨k, p, sub, _, _, none, hcalling, hrunning, ⟨hsub, rfl, rfl, ?_, nofun⟩, ?_⟩
    · cases threw
      · exact finish_moves hstage _ _
      · exact endPoll_moves hstage
    · exact .inl ⟨rfl, fun ⟨_, _, _, hfalse, _⟩ => nomatch hfalse⟩
  · cases h

end Advances

section Subscribers

variable {s t : Streams} {k : Nat} {sub : Subscription}

theorem active_iff (hlinked : Linked sub) : active sub ↔ sub.stopped = false := by
  rw [active, decide_eq_true_eq, ← hlinked.stopped, Bool.not_eq_true]

theorem clearTimer_paused (sub : Subscription) : Moves sub sub.clearTimer none (load sub) := by
  obtain ⟨hstopped, hlistening, hlog⟩ := clearTimer_same sub
  refine ⟨hstopped, hlistening, ?_, load_clearTimer sub⟩
  rw [Option.toList_none, List.append_nil]
  exact hlog

/-- A new subscription starts with a poll. -/
theorem subscribe_inv {args : SubscribeArgs} (hs : Inv s) (h : step s (.subscribe args) = some t) : Inv t := by
  dsimp only [step, Streams.subscribeToInvoice] at h
  split_ifs at h with hfull
  · cases h
    exact hs
  · cases h
    have hpoll (sub : Subscription) (hstopped : sub.stopped = false) (hpaused : sub.paused = false) (hlog : sub.log = [])
        (hload : load sub = 0) : load sub.poll ≤ 1 ∧ sub.poll.log = [.polled] ∧ sub.poll.stopped = false := by
      have hmoves := (poll_moves_of_running hstopped hpaused).1
      refine ⟨hmoves.load.trans (by rw [hload]), ?_, hmoves.stopped.trans hstopped⟩
      rw [hmoves.log, hlog]
      rfl
    generalize hnew : Subscription.poll _ = new
    obtain ⟨hload, hlog, hstopped⟩ : load new ≤ 1 ∧ new.log = [.polled] ∧ new.stopped = false :=
      hnew ▸ hpoll _ rfl rfl rfl rfl
    have hactive : active new = true := by simp [active, hlog]
    have hcountP : (s.subscriptions ++ [new]).countP active = s.subscriptions.countP active + 1 := by
      rw [List.countP_append, List.countP_singleton, if_pos hactive]
    have hcount := hs.inOrder.count
    refine ⟨List.forall_mem_append.mpr ⟨hs.linked, List.forall_mem_singleton.mpr ?_⟩, ?_, ?_, ?_, ?_⟩
    · exact ⟨by simp [hlog, hstopped], fun _ => hstopped⟩
    · exact List.forall_mem_append.mpr ⟨hs.inOrder.single, List.forall_mem_singleton.mpr hload⟩
    · refine List.forall_mem_append.mpr ⟨hs.inOrder.quiet, List.forall_mem_singleton.mpr ?_⟩
      rw [hlog]
      exact List.pairwise_singleton _ _
    · dsimp only [Except.toOption, Option.getD_some]
      rw [hcountP, hcount]
      rfl
    · dsimp only [Except.toOption, Option.getD_some]
      rw [hcountP]
      omega

/-- A call of unsubscribe keeps order exactly if it is the first one. -/
theorem unsubscribe_iff (hs : Inv s) (h : step s (.unsubscribe k) = some t) : ∃ sub, s.subscriptions[k]? = some sub ∧
    (∀ sub ∈ t.subscriptions, Linked sub) ∧ (InOrder t ↔ sub.stopped = false) := by
  dsimp only [step] at h
  obtain ⟨sub, hsub, rfl⟩ := Option.map_eq_some_iff.mp h
  have hmem := List.mem_of_getElem? hsub
  have hclear := clearTimer_paused { sub with stopped := true, paused := false }
  have hlog : sub.unsubscribe.log = sub.log ++ [.unsubscribed] := rfl
  have hactive : active sub.unsubscribe = false := by simp [active, hlog]
  have hcountP := countP_set active (u := sub.unsubscribe) hsub
  simp only [hactive, active_iff (hs.linked sub hmem), Bool.false_eq_true, if_false, Nat.add_zero] at hcountP
  have hcount := hs.inOrder.count
  refine ⟨sub, hsub, forall_mem_set hs.linked ⟨?_, nofun⟩, ?_⟩
  · exact iff_of_true hclear.stopped (by simp [hlog])
  · constructor
    · intro ht
      have htcount : s.subscriptionCount - 1 = ((s.subscriptions.set k sub.unsubscribe).countP active : Nat) := ht.count
      by_contra hstopped
      rw [if_neg hstopped] at hcountP
      omega
    · intro hstopped
      rw [if_pos hstopped] at hcountP
      refine ⟨forall_mem_set hs.inOrder.single (hclear.load.trans (hs.inOrder.single sub hmem)),
        forall_mem_set hs.inOrder.quiet ?_, ?_, ?_⟩
      · rw [hlog]
        refine List.pairwise_append.mpr ⟨hs.inOrder.quiet sub hmem, List.pairwise_singleton _ _, ?_⟩
        intro a _ b hb _
        exact List.mem_singleton.mp hb
      · show s.subscriptionCount - 1 = ((s.subscriptions.set k sub.unsubscribe).countP active : Nat)
        omega
      · show (s.subscriptions.set k sub.unsubscribe).countP active ≤ maxSubscriptions
        have := hs.inOrder.limit
        omega

/-- A page that is shown starts a poll of each subscription that listens. -/
theorem visibilityChange_spec (hlinked : Linked sub) (hquiet : Quiet sub.log) (hidden : Bool) :
    Linked (sub.visibilityChange hidden) ∧ Quiet (sub.visibilityChange hidden).log ∧
      active (sub.visibilityChange hidden) = active sub ∧
      load (sub.visibilityChange hidden) = load sub + if sub.listening ∧ hidden = false then 1 else 0 := by
  unfold Subscription.visibilityChange
  by_cases hlistening : sub.listening
  · rw [if_pos hlistening]
    cases hidden with
    | true => exact ⟨⟨hlinked.stopped, hlinked.listening⟩, hquiet, rfl, by simp [load, Subscription.pause]⟩
    | false =>
        have hstopped := hlinked.listening hlistening
        have hnot : Note.unsubscribed ∉ sub.log := by
          rw [← hlinked.stopped, Bool.not_eq_true]
          exact hstopped
        have hstopped' : { sub with paused := false }.stopped = false := hstopped
        obtain ⟨hmoves, hload⟩ := poll_moves_of_running hstopped' rfl
        have hlog : sub.resume.log = sub.log ++ [.polled] := hmoves.log
        have hmem : Note.unsubscribed ∈ sub.resume.log ↔ Note.unsubscribed ∈ sub.log := by simp [hlog]
        rw [if_neg Bool.false_ne_true]
        refine ⟨⟨?_, fun _ => hmoves.stopped.trans hstopped⟩, ?_, ?_, ?_⟩
        · rw [hmem, ← hlinked.stopped]
          exact Bool.eq_iff_iff.mp hmoves.stopped
        · rw [hlog]
          have hnote : Note.polled ≠ .unsubscribed := nofun
          exact (quiet_append hnote hquiet).mpr hnot
        · exact decide_eq_decide.mpr (not_iff_not.mpr hmem)
        · rw [if_pos ⟨hlistening, rfl⟩]
          exact hload
  · rw [if_neg hlistening, if_neg (fun h => hlistening h.1)]
    exact ⟨hlinked, hquiet, rfl, rfl⟩

end Subscribers

section Runs

variable {s t : Streams} {e : Event}

theorem visibilityChange_iff {hidden : Bool} (hs : Inv s) (h : step s (.visibilityChange hidden) = some t) :
    (∀ sub ∈ t.subscriptions, Linked sub) ∧
      (InOrder t ↔ ∀ sub ∈ s.subscriptions, sub.listening → hidden = false → load sub = 0) := by
  dsimp only [step] at h
  split_ifs at h
  cases h
  have hspec (sub : Subscription) (hsub : sub ∈ s.subscriptions) :=
    visibilityChange_spec (hs.linked sub hsub) (hs.inOrder.quiet sub hsub) hidden
  have hcountP : (s.subscriptions.map (fun sub => sub.visibilityChange hidden)).countP active =
      s.subscriptions.countP active := by
    rw [List.countP_map]
    refine List.countP_congr (fun sub hsub => ?_)
    rw [Function.comp_apply, (hspec sub hsub).2.2.1]
  refine ⟨List.forall_mem_map.mpr (fun sub hsub => (hspec sub hsub).1), ?_⟩
  constructor
  · intro ht sub hsub hlistening hhidden
    have hload := ht.single _ (List.mem_map_of_mem hsub)
    rw [(hspec sub hsub).2.2.2, if_pos ⟨hlistening, hhidden⟩] at hload
    omega
  · intro hfree
    refine ⟨List.forall_mem_map.mpr (fun sub hsub => ?_), List.forall_mem_map.mpr (fun sub hsub => (hspec sub hsub).2.1), ?_, ?_⟩
    · rw [(hspec sub hsub).2.2.2]
      split_ifs with hshown
      · rw [hfree sub hsub hshown.1 hshown.2]
      · exact hs.inOrder.single sub hsub
    · rw [hcountP]
      exact hs.inOrder.count
    · rw [hcountP]
      exact hs.inOrder.limit

/-- One step: what a subscription tells about its past stays true, and order is kept exactly if the step is in turn. -/
theorem step_spec (hs : Inv s) (h : step s e = some t) :
    (∀ sub ∈ t.subscriptions, Linked sub) ∧ (InOrder t ↔ InTurn s e) := by
  cases e with
  | subscribe args =>
      have ht := subscribe_inv hs h
      exact ⟨ht.linked, iff_of_true ht.inOrder trivial⟩
  | visibilityChange hidden =>
      obtain ⟨hlinked, hiff⟩ := visibilityChange_iff hs h
      refine ⟨hlinked, hiff.trans ?_⟩
      cases hidden with
      | true => exact iff_of_true (fun _ _ _ hfalse => nomatch hfalse) trivial
      | false =>
          have hcalling : s.calling = none := by
            dsimp only [step] at h
            exact (Option.ite_none_right_eq_some.mp h).1
          exact ⟨fun hfree _ sub hsub hlistening => hfree sub hsub hlistening rfl,
            fun hturn sub hsub hlistening _ => hturn hcalling sub hsub hlistening⟩
  | timer k timerId =>
      obtain ⟨sub, sub', note, hadvances, hnote⟩ := timer_advances h
      exact ⟨hadvances.linked hs.linked, iff_of_true ((hadvances.inOrder_iff hs).mpr hnote) trivial⟩
  | latestLedger k p answer =>
      obtain ⟨sub, sub', hadvances⟩ := latestLedger_advances h
      exact ⟨hadvances.linked hs.linked, iff_of_true ((hadvances.inOrder_iff hs).mpr (.inl rfl)) trivial⟩
  | events k p answer =>
      obtain ⟨sub, sub', note, hcalling, hrunning, hadvances, htells⟩ := events_advances h
      refine ⟨hadvances.linked hs.linked, ?_⟩
      rw [hadvances.inOrder_iff hs, htells.none_iff, ← Bool.not_eq_true sub.stopped, ← imp_iff_or_not]
      cases answer with
      | none => exact iff_of_true (fun _ ⟨_, hanswer, _⟩ => nomatch hanswer) trivial
      | some events =>
          constructor
          · intro hsilent _ other hother hstopped hbrings
            obtain rfl : sub = other := (Prod.mk.inj (Option.some.inj (hrunning.symm.trans hother))).1
            exact hsilent hstopped ⟨events, rfl, hbrings⟩
          · rintro hturn hstopped ⟨_, hanswer, hbrings⟩
            cases hanswer
            exact hturn hcalling sub hrunning hstopped hbrings
  | returns threw =>
      obtain ⟨k, p, sub, sub', stage, note, hcalling, hrunning, hadvances, htells⟩ := returns_advances h
      refine ⟨hadvances.linked hs.linked, ?_⟩
      rw [hadvances.inOrder_iff hs, htells.none_iff, ← Bool.not_eq_true sub.stopped, ← imp_iff_or_not]
      cases threw with
      | true => exact iff_of_true (fun _ hfalse => nomatch hfalse.1) trivial
      | false =>
          constructor
          · intro hsilent k' p' hcalling' other batch rest hother hstopped hbrings
            obtain ⟨rfl, rfl⟩ := Prod.mk.inj (Option.some.inj (hcalling.symm.trans hcalling'))
            obtain ⟨rfl, rfl⟩ := Prod.mk.inj (Option.some.inj (hrunning.symm.trans hother))
            exact hsilent hstopped ⟨rfl, batch, rest, rfl, hbrings⟩
          · rintro hturn hstopped ⟨-, batch, rest, rfl, hbrings⟩
            exact hturn k p hcalling sub batch rest hrunning hstopped hbrings
  | unsubscribe k =>
      obtain ⟨sub, hsub, hlinked, hiff⟩ := unsubscribe_iff hs h
      refine ⟨hlinked, hiff.trans ?_⟩
      constructor
      · intro hstopped other hother
        obtain rfl : sub = other := Option.some.inj (hsub.symm.trans hother)
        exact hstopped
      · exact fun hturn => hturn sub hsub

/-- A step that cannot be taken is in turn. -/
theorem inTurn_of_none (h : step s e = none) : InTurn s e := by
  cases e with
  | subscribe args => trivial
  | timer k timerId => trivial
  | latestLedger k p answer => trivial
  | visibilityChange hidden =>
      cases hidden with
      | true => trivial
      | false =>
          intro hcalling
          dsimp only [step] at h
          rw [if_pos hcalling] at h
          cases h
  | events k p answer =>
      cases answer with
      | none => trivial
      | some events =>
          intro hcalling sub hrunning
          dsimp only [step] at h
          rw [if_pos hcalling, hrunning] at h
          cases h
  | returns threw =>
      cases threw with
      | true => trivial
      | false =>
          intro k p hcalling sub batch rest hrunning
          dsimp only [step] at h
          rw [hcalling, Option.bind_some, Streams.returned, hrunning] at h
          cases h
  | unsubscribe k =>
      intro sub hsub
      dsimp only [step] at h
      rw [hsub] at h
      cases h

theorem start_inv (documentDefined : Bool) (cursors : OrdMap String String) (dedups : List Deduplicator) :
    Inv (start documentDefined cursors dedups) where
  linked := fun _ hmem => absurd hmem List.not_mem_nil
  inOrder := ⟨fun _ hmem => absurd hmem List.not_mem_nil, fun _ hmem => absurd hmem List.not_mem_nil, rfl, Nat.zero_le _⟩

/-- All subscriptions stay in order throughout a run exactly if every step of it is in turn. -/
theorem one_loop_each_iff (documentDefined : Bool) (cursors : OrdMap String String) (dedups : List Deduplicator)
    (es : List Event) :
    Allowed step (fun s e => ∀ t, step s e = some t → InOrder t) (start documentDefined cursors dedups) es ↔
      Allowed step InTurn (start documentDefined cursors dedups) es := by
  refine allowed_iff (I := Inv) ?_ ?_ (start_inv documentDefined cursors dedups) es
  · intro s e t hs hok h
    exact ⟨(step_spec hs h).1, hok t h⟩
  · intro s e hs
    rcases Option.eq_none_or_eq_some (step s e) with h | ⟨t, h⟩
    · refine iff_of_true (fun t ht => ?_) (inTurn_of_none h)
      rw [h] at ht
      cases ht
    · rw [forall_next_iff h, (step_spec hs h).2]

/-- A page that is hidden and shown again while a poll is under way gets a second poll. -/
theorem second_poll_started : ∃ s t, run step (start true .empty [])
      [.subscribe ⟨"C", "1", .handler, .finite 5000, none⟩, .visibilityChange true] = some s ∧
    step s (.visibilityChange false) = some t ∧ InOrder s ∧ ¬ InOrder t := by
  refine ⟨_, _, rfl, rfl, ⟨?_, ?_, rfl, ?_⟩, fun h => ?_⟩
  · exact List.forall_mem_singleton.mpr le_rfl
  · exact List.forall_mem_singleton.mpr (List.pairwise_singleton _ _)
  · decide
  · exact absurd (h.single _ List.mem_cons_self) (by decide)

end Runs

end SplitSdk.PollingLoops
