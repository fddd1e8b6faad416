import SplitSdk.SubscriptionManager
import SplitSdk.EventScan
import SplitSdk.InvoiceSubscription

namespace SplitSdk.CallbackFailures

open EventDelivery (isWatched isWatched_of_error isWatched_of_none isWatched_of_some)
open EventScan Interleaving InvoiceEvents InvoiceSubscription PlatformTimers

variable {config : SubscriptionConfig} {contract : String → EventResponse} {invoiceId : String}

section Statement

/-- No other event that was returned has the key of this one. -/
def DistinctKey (contract : String → EventResponse) (s : SubscriptionState) (id : String) : Prop :=
  ∀ id' ∈ s.returned, computeEventKey (contract id') = computeEventKey (contract id) → id' = id

instance (s : SubscriptionState) (id : String) : Decidable (DistinctKey contract s id) :=
  inferInstanceAs (Decidable (∀ id' ∈ s.returned, _ → id' = id))

def Handed (contract : String → EventResponse) (s : SubscriptionState) (id : String) : Prop :=
  contract id ∈ s.handed.map Prod.fst

/-- Every event of the invoice with a key of its own was passed to the callback. -/
def LosesNothing (contract : String → EventResponse) (invoiceId : String) (s : SubscriptionState) : Prop :=
  ∀ id ∈ s.settled, isWatched invoiceId (contract id) → DistinctKey contract s id → Handed contract s id

/-- The persisted cursor is not beyond such an event that was not passed to the callback. -/
def CursorSafe (contract : String → EventResponse) (invoiceId : String) (s : SubscriptionState) : Prop :=
  ∀ cursor ∈ s.cursor, ∀ id ∈ s.settled, isWatched invoiceId (contract id) → DistinctKey contract s id →
    (contract id).ledger < cursor → Handed contract s id

/-- The callback throws on none of the new events of an answer but the last one, and when an event cannot be
parsed, there are none. -/
def Harmless (contract : String → EventResponse) (invoiceId : String) (s : SubscriptionState) : Event → Prop
  | .events _ (some ids) environment =>
      let batch := collected contract invoiceId s ids
      if batch.2 then ∀ event ∈ batch.1.newEvents.dropLast, ¬(environment.callback event.2).throws
      else batch.1.newEvents.isEmpty
  | _ => True

instance (s : SubscriptionState) : DecidablePred (Harmless contract invoiceId s) := fun e => by
  cases e with
  | events k ids environment => cases ids <;> unfold Harmless <;> infer_instance
  | _ => exact .isTrue trivial

end Statement

section Loops

/-- The events that the callback is called with: those up to the first one on which it throws. -/
def called (callback : InvoiceEvent → Reaction) : List (EventResponse × InvoiceEvent) → List (EventResponse × InvoiceEvent)
  | [] => []
  | event :: events => if (callback event.2).throws then [event] else event :: called callback events

theorem called_of_harmless {callback : InvoiceEvent → Reaction} {events : List (EventResponse × InvoiceEvent)}
    (h : ∀ event ∈ events.dropLast, ¬(callback event.2).throws) : called callback events = events := by
  induction events with
  | nil => rfl
  | cons event events ih =>
      cases events with
      | nil => exact ite_self _
      | cons next events =>
          rw [List.dropLast_cons_cons, List.forall_mem_cons] at h
          rw [called, if_neg h.1, ih h.2]

theorem called_subset (callback : InvoiceEvent → Reaction) (events : List (EventResponse × InvoiceEvent)) :
    called callback events ⊆ events := by
  induction events with
  | nil => exact List.Subset.refl _
  | cons event events ih =>
      rw [called]
      split_ifs
      · exact List.cons_subset_cons _ (List.nil_subset _)
      · exact List.cons_subset_cons _ ih

/-- The loop over an answer takes the events of the invoice whose keys are new. -/
theorem collect_scanned {seconds : Int} {c c' : Collected} {done : Bool} {events : List EventResponse}
    (h : collect invoiceId seconds c events = (c', done)) :
    ∃ taken, Scanned computeEventKey (fun event => isWatched invoiceId event) c.seenEventKeys events c'.seenEventKeys
      (taken.map Prod.fst) done ∧ c'.newEvents = c.newEvents ++ taken := by
  induction events generalizing c with
  | nil =>
      cases h
      exact ⟨[], .nil _, (List.append_nil _).symm⟩
  | cons event events ih =>
      rw [collect] at h
      dsimp only at h
      split_ifs at h with hseen
      · obtain ⟨taken, hscan, hnew⟩ := ih h
        exact ⟨taken, .known hseen hscan, hnew⟩
      · split at h
        · rename_i hparse
          cases h
          exact ⟨[], .givenUp (by simp [isWatched_of_error hparse]), (List.append_nil _).symm⟩
        · rename_i hparse
          obtain ⟨taken, hscan, hnew⟩ := ih h
          exact ⟨taken, .other (by simp [isWatched_of_none hparse]) hscan, hnew⟩
        · rename_i invoiceEvent hparse
          split_ifs at h with hid
          · obtain ⟨taken, hscan, hnew⟩ := ih h
            exact ⟨taken, .other (mt (isWatched_of_some hparse).mp hid) hscan, hnew⟩
          · obtain ⟨taken, hscan, hnew⟩ := ih h
            refine ⟨(event, invoiceEvent) :: taken, .fresh hseen ((isWatched_of_some hparse).mpr (not_not.mp hid)) hscan, ?_⟩
            rw [hnew, List.append_assoc, List.singleton_append]

end Loops

section Account

/-- The part of a subscription that says what it has done with the events. -/
structure Account where
  returned : List String
  settled : List String
  seenEventKeys : List String
  handed : List (EventResponse × InvoiceEvent)
  cursor : Option Nat

def account (s : SubscriptionState) : Account := ⟨s.returned, s.settled, s.seenEventKeys, s.handed, s.cursor⟩

theorem account_poll (s : SubscriptionState) : account (poll s) = account s := by
  unfold poll
  split_ifs <;> rfl

theorem account_scheduleReconnect (listenerThrows : Bool) (s : SubscriptionState) :
    account (scheduleReconnect config listenerThrows s) = account s := by
  unfold scheduleReconnect
  dsimp only
  split_ifs <;> rfl

theorem account_scheduleNextPoll (s : SubscriptionState) : account (scheduleNextPoll config s) = account s := by
  unfold scheduleNextPoll
  split_ifs <;> rfl

theorem account_wakeUp (s : SubscriptionState) (wakeup : Wakeup) : account (wakeUp config s wakeup) = account s := by
  cases wakeup <;> exact account_poll _

theorem account_command (s : SubscriptionState) (c : Command) : account (command s c) = account s := by
  cases c with
  | pause => rfl
  | resume =>
      unfold command
      split_ifs
      · rfl
      · exact account_poll _
  | unsubscribe =>
      unfold command
      split_ifs <;> rfl

theorem account_commands (s : SubscriptionState) (cs : List Command) : account (cs.foldl command s) = account s := by
  induction cs generalizing s with
  | nil => rfl
  | cons c cs ih => rw [List.foldl_cons, ih, account_command]

theorem account_deliver {callback : InvoiceEvent → Reaction} {s t : SubscriptionState} {done : Bool}
    {events : List (EventResponse × InvoiceEvent)} (h : deliver callback s events = (t, done)) :
    account t = { account s with handed := s.handed ++ called callback events } := by
  induction events generalizing s with
  | nil =>
      cases h
      rw [called, List.append_nil]
      rfl
  | cons event events ih =>
      rw [deliver] at h
      have hcommands := account_commands { s with pendingCallback := true, handed := s.handed ++ [event] }
        (callback event.2).commands
      generalize (callback event.2).commands.foldl command
        { s with pendingCallback := true, handed := s.handed ++ [event] } = after at h hcommands
      have haccount : account { after with pendingCallback := false } = { account s with handed := s.handed ++ [event] } :=
        hcommands
      rw [called]
      split_ifs at h ⊢
      · cases h
        exact haccount
      · have hhanded : after.handed = s.handed ++ [event] := congrArg Account.handed hcommands
        rw [ih h, haccount]
        simp [hhanded]

theorem account_handOver (environment : Environment) (s : SubscriptionState)
    (events : List (EventResponse × InvoiceEvent)) :
    account (handOver config environment s events) =
      { account s with handed := s.handed ++ called environment.callback events, cursor := s.lastLedger } := by
  unfold handOver
  dsimp only
  split
  · rename_i ht
    rw [account_scheduleNextPoll, account_deliver ht]
    rfl
  · rename_i ht
    rw [account_scheduleReconnect, account_deliver ht]
    rfl

/-- What a poll makes of an answer. -/
theorem account_received (s : SubscriptionState) (ids : List String) (environment : Environment) :
    account (received config contract invoiceId s ids environment) =
      let batch := collected contract invoiceId s ids
      { returned := s.returned ++ ids
        settled := if batch.2 then s.settled ++ ids else s.settled
        seenEventKeys := batch.1.seenEventKeys
        handed := if batch.2 then s.handed ++ called environment.callback batch.1.newEvents else s.handed
        cursor := if batch.2 ∧ ¬batch.1.newEvents.isEmpty then some (batch.1.maxLedger + 1) else s.cursor } := by
  unfold received
  dsimp only
  rcases collected contract invoiceId s ids with ⟨c, _ | _⟩
  · rw [account_scheduleReconnect]
    rfl
  · dsimp only
    rw [if_pos rfl, if_pos rfl]
    by_cases hempty : c.newEvents.isEmpty
    · rw [if_pos hempty, if_neg (fun h => h.2 hempty), account_scheduleNextPoll, List.isEmpty_iff.mp hempty, called,
        List.append_nil]
      rfl
    · rw [if_neg hempty, if_pos ⟨rfl, hempty⟩, account_handOver]
      rfl

/-- A step that is not the answer to a poll leaves the account as it is. -/
theorem account_step {s t : SubscriptionState} {e : Event} (h : step config contract invoiceId s e = some t) :
    account t = account s ∨ ∃ k ids environment, e = .events k (some ids) environment ∧
      account t = account (received config contract invoiceId s ids environment) := by
  cases e with
  | elapse ms =>
      left
      rw [step] at h
      split_ifs at h
      cases h
      rfl
  | fire handle =>
      left
      obtain ⟨fired, -, rfl⟩ := Option.map_eq_some_iff.mp h
      exact account_wakeUp _ _
  | latestLedger k sequence listenerThrows =>
      left
      unfold step at h
      dsimp only at h
      split at h
      · cases h
        rfl
      · cases h
        exact account_scheduleReconnect _ _
      · cases h
  | events k ids environment =>
      unfold step at h
      dsimp only at h
      split at h
      · rename_i ids _
        cases h
        right
        refine ⟨k, ids, environment, rfl, ?_⟩
        rw [account_received, account_received]
        rfl
      · cases h
        exact .inl (account_scheduleReconnect _ _)
      · cases h
  | command c =>
      left
      cases h
      exact account_command s c

end Account

section Invariant

/-- The events are accounted for, and a batch that was gone through was returned. -/
structure Inv (contract : String → EventResponse) (invoiceId : String) (a : Account) : Prop where
  accounted : Accounted computeEventKey (fun event => isWatched invoiceId event) contract a.returned a.settled
    a.seenEventKeys (a.handed.map Prod.fst)
  settled : a.settled ⊆ a.returned

variable (contract invoiceId) in
theorem collected_scanned (s : SubscriptionState) (ids : List String) :
    Scanned computeEventKey (fun event => isWatched invoiceId event) s.seenEventKeys (ids.map contract)
      (collected contract invoiceId s ids).1.seenEventKeys ((collected contract invoiceId s ids).1.newEvents.map Prod.fst)
      (collected contract invoiceId s ids).2 := by
  obtain ⟨taken, hscan, hnew⟩ := collect_scanned (Prod.eta (collected contract invoiceId s ids)).symm
  rw [hnew]
  exact hscan

theorem inv_create (active : Nat) (storedCursor : Option Nat) (now : ℚ) :
    Inv contract invoiceId (account (createInvoiceSubscription config active storedCursor now)) := by
  rw [createInvoiceSubscription, account_poll]
  exact ⟨accounted_nil, List.Subset.refl _⟩

/-- A harmless answer hands over everything that is new in it. -/
theorem handed_of_harmless {s : SubscriptionState} {k : Nat} {ids : List String} {environment : Environment}
    (hok : Harmless contract invoiceId s (.events k (some ids) environment)) :
    (if (collected contract invoiceId s ids).2
      then s.handed ++ called environment.callback (collected contract invoiceId s ids).1.newEvents else s.handed) =
      s.handed ++ (collected contract invoiceId s ids).1.newEvents := by
  unfold Harmless at hok
  dsimp only at hok
  split_ifs at hok ⊢
  · rw [called_of_harmless hok]
  · rw [List.isEmpty_iff.mp hok, List.append_nil]

theorem step_inv {s t : SubscriptionState} {e : Event} (hi : Inv contract invoiceId (account s))
    (hok : Harmless contract invoiceId s e) (h : step config contract invoiceId s e = some t) :
    Inv contract invoiceId (account t) := by
  rcases account_step h with hsame | ⟨k, ids, environment, rfl, haccount⟩
  · rw [hsame]
    exact hi
  · rw [haccount, account_received]
    dsimp only
    rw [handed_of_harmless hok]
    constructor
    · have hscan := hi.accounted.scan (collected_scanned contract invoiceId s ids)
      rw [← List.map_append] at hscan
      exact hscan
    · dsimp only
      split_ifs
      · exact List.append_subset.mpr ⟨List.subset_append_of_subset_left _ hi.settled, List.subset_append_right _ _⟩
      · exact List.subset_append_of_subset_left _ hi.settled

theorem run_inv {es : List Event} {s t : SubscriptionState} (hi : Inv contract invoiceId (account s))
    (h : Allowed (step config contract invoiceId) (Harmless contract invoiceId) s es)
    (hrun : run (step config contract invoiceId) s es = some t) : Inv contract invoiceId (account t) :=
  run_invariant (I := fun s => Inv contract invoiceId (account s)) (fun _ _ _ hi hok h => step_inv hi hok h) s t es hi h hrun

end Invariant

section Main

theorem losesNothing_of_inv {s : SubscriptionState} (hi : Inv contract invoiceId (account s)) :
    LosesNothing contract invoiceId s :=
  fun _ hid hwatched hdistinct => hi.accounted.handed_of_distinct hid hwatched hdistinct

end Main

section Losses

/-- A key that was seen without any event with it being handed over. -/
def Lost (key : String) (s : SubscriptionState) : Prop :=
  key ∈ s.seenEventKeys ∧ ∀ entry ∈ s.handed, computeEventKey entry.1 ≠ key

instance (key : String) (s : SubscriptionState) : Decidable (Lost key s) := inferInstanceAs (Decidable (_ ∧ _))

/-- What is lost once is never handed over, whatever comes later. -/
theorem step_lost {key : String} {s t : SubscriptionState} {e : Event} (hlost : Lost key s)
    (h : step config contract invoiceId s e = some t) : Lost key t := by
  suffices hsuff : key ∈ (account t).seenEventKeys ∧ ∀ entry ∈ (account t).handed, computeEventKey entry.1 ≠ key from hsuff
  rcases account_step h with hsame | ⟨k, ids, environment, rfl, haccount⟩
  · rw [hsame]
    exact hlost
  · rw [haccount, account_received]
    have hscan := collected_scanned contract invoiceId s ids
    have hnew : ∀ entry ∈ called environment.callback (collected contract invoiceId s ids).1.newEvents,
        computeEventKey entry.1 ≠ key := fun entry hentry hkey =>
      hscan.taken_new entry.1 (List.mem_map_of_mem (called_subset _ _ hentry)) (hkey ▸ hlost.1)
    refine ⟨hscan.subset hlost.1, ?_⟩
    dsimp only
    split_ifs
    · exact List.forall_mem_append.mpr ⟨hlost.2, hnew⟩
    · exact hlost.2

theorem not_handed_of_lost {s : SubscriptionState} {id : String} (h : Lost (computeEventKey (contract id)) s) :
    ¬Handed contract s id := by
  intro hhanded
  obtain ⟨entry, hentry, he⟩ := List.mem_map.mp hhanded
  exact h.2 entry hentry (congrArg computeEventKey he)

end Losses

section Sample

def released : EventResponse := ⟨100, .array [.string "released", .string "7"], .object [("amount", .bigint 5)]⟩

def cancelled : EventResponse := ⟨100, .array [.string "cancelled", .string "7"], .undefined⟩

def settledInvoice (id : String) : EventResponse := if id = "1" then released else cancelled

def throwingOn (type : String) : Environment := { callback := fun event => { throws := event.type = type } }

def created : SubscriptionState := createInvoiceSubscription {} 0 none 0

def answers (type : String) : List Event :=
  [.latestLedger 0 (some 100) false, .events 0 (some ["1", "2"]) (throwingOn type)]

def after (type : String) : Option SubscriptionState := run (step {} settledInvoice "7") created (answers type)

end Sample

end SplitSdk.CallbackFailures
