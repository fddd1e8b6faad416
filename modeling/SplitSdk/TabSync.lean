import SplitSdk.BroadcastChannels
import SplitSdk.Interleaving

namespace SplitSdk.TabSync

open BroadcastChannels Interleaving

section Model

/-- The events, with what the handler reads of their payload. -/
inductive TabSyncEvent
  | invoiceInvalidated (invoiceId : String)
  | cacheCleared
  | invoiceUpdated (invoiceId : String)
  | tabPing
  deriving DecidableEq

/-- The calls of a client that the plugin wraps. -/
inductive ClientCall
  | invalidateCache (invoiceId : String)
  | clearCache
  deriving DecidableEq

variable {ι : Type}

/-- The tabs, named by their `tabId`: their channels, and the calls that came to the methods of their clients as these were before
the plugin, in order. -/
structure Tabs (ι : Type) where
  channel : Channel ι TabSyncEvent
  calls : ι → List ClientCall

def start : Tabs ι := ⟨closed, fun _ => []⟩

/-- All tabs have their channels open, and nothing has been posted yet. -/
def allConnected : Tabs ι := ⟨⟨fun _ => true, fun _ => []⟩, fun _ => []⟩

variable [DecidableEq ι]

/-- `_post`, which does nothing without a channel. -/
def Tabs.post (s : Tabs ι) (i : ι) (event : TabSyncEvent) : Tabs ι := { s with channel := BroadcastChannels.post s.channel i event }

/-- `origInvalidate` or `origClear`. -/
def Tabs.original (s : Tabs ι) (i : ι) (call : ClientCall) : Tabs ι :=
  { s with calls := Function.update s.calls i (s.calls i ++ [call]) }

def ClientCall.event : ClientCall → TabSyncEvent
  | .invalidateCache invoiceId => .invoiceInvalidated invoiceId
  | .clearCache => .cacheCleared

/-- A call of the method of a client, which is wrapped where the plugin is installed. -/
def Tabs.call (installed : ι → Bool) (s : Tabs ι) (i : ι) (call : ClientCall) : Tabs ι :=
  if installed i then (s.original i call).post i call.event else s.original i call

/-- The call that an event is answered with. -/
def TabSyncEvent.call : TabSyncEvent → Option ClientCall
  | .invoiceInvalidated invoiceId | .invoiceUpdated invoiceId => some (.invalidateCache invoiceId)
  | .cacheCleared => some .clearCache
  | .tabPing => none

/-- `_handleEvent`, on the client of the tab. -/
def Tabs.handleEvent (installed : ι → Bool) (s : Tabs ι) (i : ι) (event : TabSyncEvent) : Tabs ι :=
  match event.call with
  | some call => s.call installed i call
  | none => s

/-- The handler of the channel, which passes over what its own tab has sent. -/
def Tabs.receive (installed : ι → Bool) (s : Tabs ι) (i : ι) (message : ι × TabSyncEvent) : Tabs ι :=
  if message.1 = i then s else s.handleEvent installed i message.2

inductive Event (ι : Type)
  /-- Without a `BroadcastChannel` in the browser there is no channel. -/
  | connect (i : ι) (available : Bool)
  | disconnect (i : ι)
  /-- The application calls the client. -/
  | call (i : ι) (call : ClientCall)
  | broadcastInvoiceUpdate (i : ι) (invoiceId : String)
  | ping (i : ι)
  | deliver (i : ι)

def step (installed : ι → Bool) (s : Tabs ι) : Event ι → Option (Tabs ι)
  | .connect i available =>
      some (if s.channel.isOpen i || !available then s else { s with channel := join s.channel i })
  | .disconnect i => some { s with channel := leave s.channel i }
  | .call i call => some (s.call installed i call)
  | .broadcastInvoiceUpdate i invoiceId => some (s.post i (.invoiceUpdated invoiceId))
  | .ping i => some (s.post i .tabPing)
  | .deliver i =>
      match s.channel.inbox i with
      | [] => none
      | message :: rest => some (Tabs.receive installed { s with channel := withInbox s.channel i rest } i message)

end Model

section Senders

variable {ι : Type} [DecidableEq ι] {installed : ι → Bool} {s t : Tabs ι}

theorem foreign_call (h : Foreign s.channel) (i : ι) (call : ClientCall) : Foreign (s.call installed i call).channel := by
  unfold Tabs.call
  split_ifs
  · exact h.post i call.event
  · exact h

theorem foreign_receive (h : Foreign s.channel) (i : ι) (message : ι × TabSyncEvent) :
    Foreign (s.receive installed i message).channel := by
  unfold Tabs.receive Tabs.handleEvent
  split_ifs
  · exact h
  · cases message.2.call with
    | none => exact h
    | some call => exact foreign_call h i call

theorem step_deliver {i : ι} (h : step installed s (.deliver i) = some t) :
    ∃ message rest, s.channel.inbox i = message :: rest ∧
      t = Tabs.receive installed { s with channel := withInbox s.channel i rest } i message := by
  cases hinbox : s.channel.inbox i with
  | nil => simp [step, hinbox] at h
  | cons message rest =>
      simp only [step, hinbox, Option.some.injEq] at h
      exact ⟨message, rest, rfl, h.symm⟩

/-- No tab ever hears of its own events. -/
theorem foreign_step {event : Event ι} (h : Foreign s.channel) (hstep : step installed s event = some t) : Foreign t.channel := by
  cases event with
  | connect i available =>
      obtain rfl := Option.some.inj hstep
      split_ifs
      · exact h
      · exact h.reset _ i
  | disconnect i =>
      obtain rfl := Option.some.inj hstep
      exact h.reset _ i
  | call i call =>
      obtain rfl := Option.some.inj hstep
      exact foreign_call h i call
  | broadcastInvoiceUpdate i invoiceId =>
      obtain rfl := Option.some.inj hstep
      exact h.post i _
  | ping i =>
      obtain rfl := Option.some.inj hstep
      exact h.post i _
  | deliver i =>
      obtain ⟨message, rest, hinbox, rfl⟩ := step_deliver hstep
      exact foreign_receive (h.withInbox (fun m hm => hinbox ▸ List.mem_cons_of_mem _ hm)) i message

end Senders

section Delivery

variable {ι : Type} {s t : Tabs ι} {i j : ι} {awaited : ClientCall} {known : Nat}

/-- Tab `j` is called for what was posted by `i`, or has it before itself. -/
structure Awaits (known : Nat) (i j : ι) (awaited : ClientCall) (s : Tabs ι) : Prop where
  isOpen : s.channel.isOpen j
  known_le : known ≤ (s.calls j).length
  waiting : awaited ∈ (s.calls j).drop known ∨ (i, awaited.event) ∈ s.channel.inbox j

theorem Awaits.mono (h : Awaits known i j awaited s) (hopen : t.channel.isOpen j) (hcalls : s.calls j <+: t.calls j)
    (hinbox : (i, awaited.event) ∈ s.channel.inbox j → awaited ∈ (t.calls j).drop known ∨ (i, awaited.event) ∈ t.channel.inbox j) :
    Awaits known i j awaited t := by
  refine ⟨hopen, h.known_le.trans hcalls.length_le, ?_⟩
  rcases h.waiting with hdone | hwaiting
  · exact .inl ((hcalls.drop known).subset hdone)
  · exact hinbox hwaiting

variable [DecidableEq ι] {installed : ι → Bool}

theorem original_calls (s : Tabs ι) (k : ι) (done : ClientCall) :
    (s.original k done).calls = Function.update s.calls k (s.calls k ++ [done]) := rfl

theorem mem_post {c : Channel ι TabSyncEvent} {message : ι × TabSyncEvent} (h : message ∈ c.inbox j) (k : ι) (event : TabSyncEvent) :
    message ∈ (BroadcastChannels.post c k event).inbox j := by
  simp only [BroadcastChannels.post]
  split_ifs
  · exact List.mem_append_left _ h
  · exact h

theorem mem_post_new {c : Channel ι TabSyncEvent} (hij : i ≠ j) (hi : c.isOpen i) (hj : c.isOpen j) {event : TabSyncEvent} :
    (i, event) ∈ (BroadcastChannels.post c i event).inbox j := by
  have hto : (c.isOpen i && c.isOpen j && decide (j ≠ i)) = true := by
    rw [hi, hj, decide_eq_true hij.symm]
    rfl
  simp only [BroadcastChannels.post]
  rw [if_pos hto]
  exact List.mem_append_right _ List.mem_cons_self

theorem calls_original (s : Tabs ι) (k j : ι) (done : ClientCall) : s.calls j <+: (s.original k done).calls j := by
  rw [original_calls]
  rcases eq_or_ne j k with rfl | hne
  · rw [Function.update_self]
    exact List.prefix_append _ _
  · rw [Function.update_of_ne hne]

theorem Awaits.post (h : Awaits known i j awaited s) (k : ι) (event : TabSyncEvent) : Awaits known i j awaited (s.post k event) :=
  h.mono h.isOpen (List.prefix_refl _) (fun hw => .inr (mem_post hw k event))

theorem Awaits.call (h : Awaits known i j awaited s) (k : ι) (done : ClientCall) : Awaits known i j awaited (s.call installed k done) := by
  have horiginal : Awaits known i j awaited (s.original k done) := h.mono h.isOpen (calls_original s k j done) .inr
  unfold Tabs.call
  split_ifs
  · exact horiginal.post k done.event
  · exact horiginal

theorem Awaits.receive (h : Awaits known i j awaited s) (k : ι) (message : ι × TabSyncEvent) :
    Awaits known i j awaited (s.receive installed k message) := by
  unfold Tabs.receive Tabs.handleEvent
  split_ifs
  · exact h
  · cases message.2.call with
    | none => exact h
    | some done => exact h.call k done

theorem isOpen_receive (s : Tabs ι) (k : ι) (message : ι × TabSyncEvent) :
    (s.receive installed k message).channel.isOpen = s.channel.isOpen := by
  unfold Tabs.receive Tabs.handleEvent
  split_ifs
  · rfl
  · cases message.2.call with
    | none => rfl
    | some done =>
        dsimp only
        unfold Tabs.call
        split_ifs <;> rfl

theorem call_event (call : ClientCall) : call.event.call = some call := by
  cases call <;> rfl

/-- The call that a tab makes of what has come to it. -/
theorem mem_calls_receive (hij : i ≠ j) (hle : known ≤ (s.calls j).length) :
    awaited ∈ ((s.receive installed j (i, awaited.event)).calls j).drop known := by
  have hcalls : ((s.receive installed j (i, awaited.event)).calls j) = s.calls j ++ [awaited] := by
    rw [Tabs.receive, if_neg hij, Tabs.handleEvent, call_event]
    dsimp only
    unfold Tabs.call
    split_ifs
    · exact Function.update_self j _ s.calls
    · exact Function.update_self j _ s.calls
  rw [hcalls, List.drop_append_of_le_length hle]
  exact List.mem_append_right _ List.mem_cons_self

theorem Awaits.step {event : Event ι} (hij : i ≠ j) (h : Awaits known i j awaited s) (hstay : event ≠ .disconnect j)
    (hstep : step installed s event = some t) : Awaits known i j awaited t := by
  cases event with
  | connect k available =>
      obtain rfl := Option.some.inj hstep
      split_ifs with hopen
      · exact h
      · have hne : j ≠ k := by
          rintro rfl
          exact hopen (by rw [h.isOpen, Bool.true_or])
        refine h.mono ?_ (List.prefix_refl _) (fun hw => .inr ?_)
        · exact (Function.update_of_ne hne true s.channel.isOpen).trans h.isOpen
        · rwa [inbox_join, Function.update_of_ne hne]
  | disconnect k =>
      obtain rfl := Option.some.inj hstep
      have hne : j ≠ k := fun heq => hstay (congrArg Event.disconnect heq.symm)
      refine h.mono ?_ (List.prefix_refl _) (fun hw => .inr ?_)
      · exact (Function.update_of_ne hne false s.channel.isOpen).trans h.isOpen
      · rwa [inbox_leave, Function.update_of_ne hne]
  | call k done =>
      obtain rfl := Option.some.inj hstep
      exact h.call k done
  | broadcastInvoiceUpdate k invoiceId =>
      obtain rfl := Option.some.inj hstep
      exact h.post k _
  | ping k =>
      obtain rfl := Option.some.inj hstep
      exact h.post k _
  | deliver k =>
      obtain ⟨message, rest, hinbox, rfl⟩ := step_deliver hstep
      by_cases hhead : k = j ∧ message = (i, awaited.event)
      · obtain ⟨rfl, rfl⟩ := hhead
        have hdone := @mem_calls_receive _ { s with channel := withInbox s.channel k rest } _ _ awaited _ _ installed hij h.known_le
        have hlength := List.length_pos_of_mem hdone
        rw [List.length_drop] at hlength
        refine ⟨?_, by omega, .inl hdone⟩
        rw [isOpen_receive]
        exact h.isOpen
      · refine Awaits.receive ?_ k message
        refine h.mono h.isOpen (List.prefix_refl _) (fun hw => .inr ?_)
        rw [inbox_withInbox]
        rcases eq_or_ne j k with rfl | hne
        · rw [hinbox] at hw
          rw [Function.update_self]
          exact (List.mem_cons.mp hw).resolve_left (fun heq => hhead ⟨rfl, heq.symm⟩)
        · rwa [Function.update_of_ne hne]

/-- What a client with the plugin was called for comes to every other connected tab: until that tab leaves, its client has been called
for the same, or the event is still before it. -/
theorem delivered_or_waiting {events : List (Event ι)} (hij : i ≠ j) (hi : s.channel.isOpen i) (hj : s.channel.isOpen j)
    (hinstalled : installed i) (hstay : ∀ e ∈ events, e ≠ .disconnect j)
    (hrun : run (step installed) (s.call installed i awaited) events = some t) :
    awaited ∈ (t.calls j).drop (s.calls j).length ∨ (i, awaited.event) ∈ t.channel.inbox j := by
  have hposted : Awaits (s.calls j).length i j awaited (s.call installed i awaited) := by
    have hinitial := calls_original s i j awaited
    unfold Tabs.call
    rw [if_pos hinstalled]
    refine ⟨hj, hinitial.length_le, .inr ?_⟩
    exact mem_post_new hij hi hj
  have hallowed : Allowed (step installed) (fun _ e => e ≠ .disconnect j) (s.call installed i awaited) events :=
    allowed_of_forall _ hstay
  exact (run_invariant (fun u e v (hu : Awaits _ i j awaited u) he hstep => hu.step hij he hstep) _ _ _ hposted hallowed
    hrun).waiting

/-- The event of the first of two tabs is delivered to the second one. -/
theorem delivered_or_waiting_two : ∃ t, run (step (fun _ => true)) ((allConnected : Tabs (Fin 2)).call (fun _ => true) 0 .clearCache)
    [.deliver 1] = some t ∧ (ClientCall.clearCache ∈ (t.calls 1).drop 0 ∨ (0, TabSyncEvent.cacheCleared) ∈ t.channel.inbox 1) :=
  ⟨_, rfl, @delivered_or_waiting _ allConnected _ 0 1 .clearCache _ (fun _ => true) [.deliver 1] (by decide) rfl rfl rfl (by simp) rfl⟩

end Delivery

section Echoes

variable {ι : Type}

/-- No tab comes or goes. -/
def Stays : Event ι → Prop
  | .connect .. | .disconnect _ => False
  | _ => True

def isCall : Event ι → Bool
  | .call .. => true
  | _ => false

def isUpdate : Event ι → Bool
  | .broadcastInvoiceUpdate .. => true
  | _ => false

variable [Fintype ι]

/-- The calls that came to all clients. -/
def totalCalls (s : Tabs ι) : Nat := ∑ i, (s.calls i).length

/-- The copies of events on their way that a client is still to be called for. -/
def unanswered (s : Tabs ι) : Nat := inFlight (fun event : TabSyncEvent => event.call.isSome) s.channel

/-- What is on its way and what has come to the clients add up to what was posted: every call is posted to all other tabs again. -/
structure Balanced (calls updates : Nat) (s : Tabs ι) : Prop where
  isOpen : ∀ j, s.channel.isOpen j
  foreign : Foreign s.channel
  balance : unanswered s + totalCalls s = calls + (Fintype.card ι - 1) * (totalCalls s + updates)

theorem balanced_start : Balanced 0 0 (allConnected : Tabs ι) := by
  refine ⟨fun _ => rfl, fun _ _ h => absurd h List.not_mem_nil, ?_⟩
  simp [unanswered, inFlight, totalCalls, allConnected]

variable [DecidableEq ι] {s t : Tabs ι} {calls updates : Nat}

theorem totalCalls_original (s : Tabs ι) (i : ι) (call : ClientCall) : totalCalls (s.original i call) = totalCalls s + 1 := by
  have hlength : ∀ j, (Function.update s.calls i (s.calls i ++ [call]) j).length = (s.calls j).length + if j = i then 1 else 0 := by
    intro j
    rcases eq_or_ne j i with rfl | hne
    · rw [Function.update_self, if_pos rfl, List.length_append, List.length_singleton]
    · rw [Function.update_of_ne hne, if_neg hne, Nat.add_zero]
  rw [totalCalls, Tabs.original, Finset.sum_congr rfl (fun j _ => hlength j), Finset.sum_add_distrib, Finset.sum_ite_eq',
    if_pos (Finset.mem_univ i), totalCalls]

theorem unanswered_call (hopen : ∀ j, s.channel.isOpen j) (i : ι) (call : ClientCall) :
    unanswered (s.call (fun _ => true) i call) = unanswered s + (Fintype.card ι - 1) ∧
      totalCalls (s.call (fun _ => true) i call) = totalCalls s + 1 := by
  have hcall : call.event.call.isSome := by cases call <;> rfl
  constructor
  · exact (inFlight_post _ hopen i call.event).trans (congrArg _ (if_pos hcall))
  · exact totalCalls_original s i call

theorem Balanced.deliver {i : ι} (h : Balanced calls updates s) (hstep : step (fun _ => true) s (.deliver i) = some t) :
    Balanced calls updates t := by
  have hforeign := foreign_step h.foreign hstep
  obtain ⟨message, rest, hinbox, rfl⟩ := step_deliver hstep
  have hsender : message.1 ≠ i := h.foreign i message (hinbox ▸ List.mem_cons_self)
  have htake := inFlight_take (fun event : TabSyncEvent => event.call.isSome) hinbox
  have hbalance := h.balance
  unfold Tabs.receive Tabs.handleEvent at hforeign ⊢
  rw [if_neg hsender] at hforeign ⊢
  cases hcall : message.2.call with
  | none =>
      rw [hcall] at htake hforeign
      exact ⟨h.isOpen, hforeign, (congrArg (· + totalCalls s) htake).trans hbalance⟩
  | some call =>
      rw [hcall] at htake hforeign
      obtain ⟨hposted, hcalls⟩ := unanswered_call (s := { s with channel := withInbox s.channel i rest }) h.isOpen i call
      have hsame : totalCalls { s with channel := withInbox s.channel i rest } = totalCalls s := rfl
      have htaken : unanswered { s with channel := withInbox s.channel i rest } + 1 = unanswered s := htake
      refine ⟨h.isOpen, hforeign, ?_⟩
      dsimp only at hposted hcalls ⊢
      rw [hposted, hcalls, hsame]
      rw [Nat.add_right_comm, Nat.mul_add, Nat.mul_add, Nat.mul_one]
      rw [Nat.mul_add] at hbalance
      omega

theorem Balanced.step {event : Event ι} (h : Balanced calls updates s) (hstays : Stays event)
    (hstep : step (fun _ => true) s event = some t) :
    Balanced (calls + if isCall event then 1 else 0) (updates + if isUpdate event then 1 else 0) t := by
  have hbalance := h.balance
  cases event with
  | connect => exact hstays.elim
  | disconnect => exact hstays.elim
  | call i call =>
      have hforeign := foreign_step h.foreign hstep
      obtain rfl := Option.some.inj hstep
      obtain ⟨hposted, hcalls⟩ := unanswered_call h.isOpen i call
      refine ⟨h.isOpen, hforeign, ?_⟩
      rw [hposted, hcalls]
      simp only [isCall, isUpdate, if_true, Bool.false_eq_true, if_false, Nat.mul_add] at hbalance ⊢
      omega
  | broadcastInvoiceUpdate i invoiceId =>
      have hforeign := foreign_step h.foreign hstep
      obtain rfl := Option.some.inj hstep
      have hposted : unanswered (s.post i (.invoiceUpdated invoiceId)) = unanswered s + (Fintype.card ι - 1) :=
        inFlight_post _ h.isOpen i _
      refine ⟨h.isOpen, hforeign, ?_⟩
      have hsame : totalCalls (s.post i (.invoiceUpdated invoiceId)) = totalCalls s := rfl
      rw [hposted, hsame]
      simp only [isCall, isUpdate, if_true, Bool.false_eq_true, if_false, Nat.mul_add] at hbalance ⊢
      omega
  | ping i =>
      have hforeign := foreign_step h.foreign hstep
      obtain rfl := Option.some.inj hstep
      have hposted : unanswered (s.post i .tabPing) = unanswered s := inFlight_post _ h.isOpen i _
      exact ⟨h.isOpen, hforeign, (congrArg (· + totalCalls s) hposted).trans hbalance⟩
  | deliver i => exact h.deliver hstep

theorem Balanced.run {events : List (Event ι)} (h : Balanced calls updates s) (hstay : ∀ e ∈ events, Stays e)
    (hrun : run (TabSync.step (fun _ => true)) s events = some t) :
    Balanced (calls + events.countP isCall) (updates + events.countP isUpdate) t := by
  induction events generalizing s calls updates with
  | nil =>
      obtain rfl := Option.some.inj hrun
      exact h
  | cons e events ih =>
      obtain ⟨he, hes⟩ := List.forall_mem_cons.mp hstay
      obtain ⟨u, hu, hrest⟩ := run_cons hrun
      have hnext := ih (h.step he hu) hes hrest
      rw [List.countP_cons, List.countP_cons]
      convert hnext using 1 <;> omega

/-- With the plugin in two tabs or more, a call or an update leads to events between them without end: as long as no tab comes or
goes, in whatever order events are delivered, there are at least as many events left to answer as there were calls and updates. -/
theorem never_settles {events : List (Event ι)} (hstay : ∀ e ∈ events, Stays e)
    (hrun : run (step (fun _ => true)) allConnected events = some t) :
    unanswered t + totalCalls t = events.countP isCall + (Fintype.card ι - 1) * (totalCalls t + events.countP isUpdate) ∧
    (2 ≤ Fintype.card ι → events.countP isCall + events.countP isUpdate ≤ unanswered t ∧
      (0 < events.countP isCall + events.countP isUpdate → ∃ i u, step (fun _ => true) t (.deliver i) = some u)) := by
  have hbalanced := balanced_start.run hstay hrun
  rw [Nat.zero_add, Nat.zero_add] at hbalanced
  have hbalance := hbalanced.balance
  refine ⟨hbalance, fun htwo => ?_⟩
  have hle : events.countP isCall + events.countP isUpdate ≤ unanswered t := by
    have hmul := Nat.mul_le_mul_right (totalCalls t + events.countP isUpdate) (show 1 ≤ Fintype.card ι - 1 by omega)
    rw [Nat.one_mul] at hmul
    omega
  refine ⟨hle, fun hpos => ?_⟩
  obtain ⟨i, message, rest, hinbox⟩ := exists_message _ (hpos.trans_le hle)
  exact ⟨i, _, by rw [step, hinbox]⟩

/-- Two tabs answer each other. -/
theorem never_settles_two : ∃ i u, step (fun _ => true)
    (((allConnected : Tabs (Fin 2)).call (fun _ => true) 0 (.invalidateCache "7"))) (.deliver i) = some u :=
  ((@never_settles _ _ _ _ [.call 0 (.invalidateCache "7")] (by simp [Stays]) rfl).2 le_rfl).2 (by decide)

end Echoes

end SplitSdk.TabSync
