import SplitSdk.CallbackFailures

namespace SplitSdk.EventIdentity

open EventDelivery (isWatched)
open CallbackFailures EventScan Interleaving InvoiceEvents

variable (contract : String → EventResponse) (invoiceId : String)

section Subscription

open InvoiceSubscription

/-- Every event of the invoice in an answer that was gone through was passed to the callback. -/
def CallbackHasAll (s : SubscriptionState) : Prop :=
  HandedEach (fun event => isWatched invoiceId event) contract s.settled (s.handed.map Prod.fst)

/-- No event of the invoice shares its key with another event that was returned. -/
def KeysApart (returned : List String) : Prop :=
  KeysIdentify computeEventKey (fun event => isWatched invoiceId event) contract returned

instance (returned : List String) : Decidable (KeysApart contract invoiceId returned) :=
  inferInstanceAs (Decidable (∀ id ∈ returned, ∀ id' ∈ returned,
    isWatched invoiceId (contract id) → computeEventKey (contract id') = computeEventKey (contract id) → id' = id))

/-- An answer brings no event that collides with another one, and the callback loses none of its events. -/
def Identified (s : SubscriptionState) (e : Event) : Prop :=
  Harmless contract invoiceId s e ∧
    match e with
    | .events _ (some ids) _ => KeysApart contract invoiceId (s.returned ++ ids)
    | _ => True

instance (s : SubscriptionState) : DecidablePred (Identified contract invoiceId s) := fun e =>
  have : Decidable (match e with
      | .events _ (some ids) _ => KeysApart contract invoiceId (s.returned ++ ids)
      | _ => True) := by
    split <;> infer_instance
  inferInstanceAs (Decidable (_ ∧ _))

variable {contract invoiceId} {config : SubscriptionConfig}

theorem callbackHasAll {active : Nat} {storedCursor : Option Nat} {now : ℚ} {es : List Event} {t : SubscriptionState}
    (h : Allowed (step config contract invoiceId) (Identified contract invoiceId)
      (createInvoiceSubscription config active storedCursor now) es)
    (hrun : run (step config contract invoiceId) (createInvoiceSubscription config active storedCursor now) es = some t) :
    CallbackHasAll contract invoiceId t := by
  have hstep : ∀ s e u, Inv contract invoiceId (account s) ∧ KeysApart contract invoiceId (account s).returned →
      Identified contract invoiceId s e → step config contract invoiceId s e = some u →
      Inv contract invoiceId (account u) ∧ KeysApart contract invoiceId (account u).returned := by
    intro s e u hi hok hu
    refine ⟨step_inv hi.1 hok.1 hu, ?_⟩
    rcases account_step hu with hsame | ⟨k, ids, environment, rfl, haccount⟩
    · rw [hsame]
      exact hi.2
    · rw [haccount, account_received]
      exact hok.2
  have hstart : KeysApart contract invoiceId (account (createInvoiceSubscription config active storedCursor now)).returned := by
    rw [createInvoiceSubscription, account_poll]
    exact fun id hid => absurd hid List.not_mem_nil
  have hinv := run_invariant hstep _ t es ⟨inv_create active storedCursor now, hstart⟩ h hrun
  exact hinv.1.accounted.handedEach hinv.2 hinv.1.settled

end Subscription

section Manager

open SubscriptionManager

/-- One poll: the answers of `getLatestLedger` and `getEvents`, `none` when the calls reject. -/
structure Poll where
  latest : Option Nat
  ids : Option (List String)
  now : Int

/-- A subscription of the manager with the events that its polls got, and those that they went through. -/
structure Watch where
  state : InvoiceSubscriptionState
  returned : List String := []
  settled : List String := []

/-- The events that a poll asks for are only returned when it comes to ask for them. -/
def Poll.returned (w : Watch) (p : Poll) : List String :=
  if w.state.stopped ∨ (w.state.lastLedger.or p.latest).isNone then [] else p.ids.getD []

def pollStep (options : SubscriptionOptions) (w : Watch) (p : Poll) : Option Watch :=
  let next := poll options w.state p.latest (fun _ => p.ids.map (List.map contract)) p.now
  some
    { state := next.1
      returned := w.returned ++ p.returned w
      settled := if next.2 = .connected then w.settled ++ p.returned w else w.settled }

def start (options : SubscriptionOptions) (cursor : Option EventCursor) : Watch := { state := subscribe options invoiceId cursor }

def HandlersHaveAll (w : Watch) : Prop :=
  HandedEach (fun event => isWatched invoiceId event) contract w.settled (w.state.delivered.map Prod.fst)

def PollIdentified (w : Watch) (p : Poll) : Prop := KeysApart contract invoiceId (w.returned ++ p.returned w)

instance (w : Watch) : DecidablePred (PollIdentified contract invoiceId w) := fun _ =>
  inferInstanceAs (Decidable (KeysApart ..))

variable {contract invoiceId} {options : SubscriptionOptions}

def collectedOf (p : Progress) : InvoiceSubscription.Collected := ⟨p.maxLedger, p.seenEventKeys, p.delivered⟩

/-- The two loops over an answer collect the same events. -/
theorem collect_of_deliver {now : Int} {p q : Progress} {done : Bool} {events : List EventResponse}
    (h : deliver invoiceId now p events = (q, done)) :
    InvoiceSubscription.collect invoiceId (now / 1000) (collectedOf p) events = (collectedOf q, done) := by
  induction events generalizing p with
  | nil =>
      cases h
      rfl
  | cons event events ih =>
      rw [deliver] at h
      rw [InvoiceSubscription.collect]
      dsimp only [collectedOf] at h ⊢
      by_cases hseen : computeEventKey event ∈ p.seenEventKeys
      · exact (if_pos hseen).trans (ih ((if_pos hseen).symm.trans h))
      · replace h := (if_neg hseen).symm.trans h
        refine (if_neg hseen).trans ?_
        cases hparse : parseInvoiceEvent event (now / 1000) with
        | error e =>
            rw [hparse] at h
            cases h
            rfl
        | ok parsed =>
            rw [hparse] at h
            cases parsed with
            | none => exact ih h
            | some parsed =>
                dsimp only at h ⊢
                split_ifs at h ⊢
                · exact ih h
                · exact ih h

theorem deliver_scanned {now : Int} {p q : Progress} {done : Bool} {events : List EventResponse}
    (h : deliver invoiceId now p events = (q, done)) :
    ∃ taken, Scanned computeEventKey (fun event => isWatched invoiceId event) p.seenEventKeys events q.seenEventKeys
      (taken.map Prod.fst) done ∧ q.delivered = p.delivered ++ taken :=
  collect_scanned (collect_of_deliver h)

/-- The part of a watch that says what was done with the events. -/
def Inv (contract : String → EventResponse) (invoiceId : String) (w : Watch) : Prop :=
  Accounted computeEventKey (fun event => isWatched invoiceId event) contract w.returned w.settled
      w.state.seenEventKeys (w.state.delivered.map Prod.fst) ∧
    w.settled ⊆ w.returned ∧ w.state.invoiceId = invoiceId

variable (options) in
theorem disconnected_same (s : InvoiceSubscriptionState) :
    (disconnected options s).seenEventKeys = s.seenEventKeys ∧ (disconnected options s).delivered = s.delivered ∧
      (disconnected options s).invoiceId = s.invoiceId := by
  unfold disconnected
  dsimp only
  split_ifs <;> exact ⟨rfl, rfl, rfl⟩

/-- What the manager makes of an answer. -/
theorem received_scanned {s t : InvoiceSubscriptionState} {outcome : PollOutcome} {lastLedger : Nat} {now : Int}
    {events : List EventResponse} (h : received options s lastLedger (some events) now = (t, outcome)) :
    ∃ taken, Scanned computeEventKey (fun event => isWatched s.invoiceId event) s.seenEventKeys events t.seenEventKeys
        (taken.map Prod.fst) (outcome = .connected) ∧
      t.delivered = s.delivered ++ taken ∧ t.invoiceId = s.invoiceId := by
  unfold received at h
  dsimp only at h
  split at h
  · rename_i p hdeliver
    cases h
    obtain ⟨hseen, hdelivered, hid⟩ := disconnected_same options
      { s with lastLedger := some lastLedger, seenEventKeys := p.seenEventKeys, delivered := p.delivered }
    obtain ⟨taken, hscan, htaken⟩ := deliver_scanned hdeliver
    exact ⟨taken, hseen ▸ hscan, hdelivered.trans htaken, hid⟩
  · rename_i p hdeliver
    cases h
    obtain ⟨taken, hscan, htaken⟩ := deliver_scanned hdeliver
    exact ⟨taken, hscan, htaken, rfl⟩

theorem poll_eq (s : InvoiceSubscriptionState) (latest : Option Nat) (getEvents : Nat → Option (List EventResponse))
    (now : Int) (hstopped : ¬s.stopped) :
    poll options s latest getEvents now = (s.lastLedger.or latest).elim (disconnected options s, .failed)
      (fun lastLedger => received options s lastLedger (getEvents lastLedger) now) := by
  rw [poll.eq_def, if_neg hstopped]
  cases s.lastLedger <;> cases latest <;> rfl

variable (contract options) in
/-- A poll that gets no events leaves the account as it is. -/
theorem poll_cases (w : Watch) (p : Poll) :
    let next := poll options w.state p.latest (fun _ => p.ids.map (List.map contract)) p.now
    (p.returned w = [] ∧ next.2 ≠ .connected ∧ next.1.seenEventKeys = w.state.seenEventKeys ∧
        next.1.delivered = w.state.delivered ∧ next.1.invoiceId = w.state.invoiceId) ∨
      ∃ lastLedger, next = received options w.state lastLedger (some ((p.returned w).map contract)) p.now := by
  dsimp only
  by_cases hstopped : w.state.stopped
  · left
    rw [poll.eq_def, if_pos hstopped]
    exact ⟨if_pos (.inl hstopped), by simp, rfl, rfl, rfl⟩
  · rw [poll_eq _ _ _ _ hstopped]
    cases hledger : w.state.lastLedger.or p.latest with
    | none =>
        left
        refine ⟨if_pos (.inr (by rw [hledger]; rfl)), by simp, ?_⟩
        exact disconnected_same options w.state
    | some lastLedger =>
        have hreturned : p.returned w = p.ids.getD [] := if_neg (by rw [hledger]; simp [hstopped])
        rw [hreturned]
        cases p.ids with
        | none =>
            left
            refine ⟨rfl, by simp [received], ?_⟩
            exact disconnected_same options { w.state with lastLedger := some lastLedger }
        | some ids => exact .inr ⟨lastLedger, rfl⟩

theorem pollStep_inv {w v : Watch} {p : Poll} (hi : Inv contract invoiceId w)
    (h : pollStep contract options w p = some v) : Inv contract invoiceId v := by
  obtain rfl := Option.some_inj.mp h
  obtain ⟨haccounted, hsettled, hid⟩ := hi
  rcases poll_cases contract options w p with
    ⟨hnone, hnot, hseen, hdelivered, hsame⟩ | ⟨lastLedger, hnext⟩
  · rw [hnone, if_neg hnot, List.append_nil]
    refine ⟨?_, hsettled, hsame.trans hid⟩
    dsimp only
    rw [hseen, hdelivered]
    exact haccounted
  · obtain ⟨taken, hscan, hdelivered, hsame⟩ := received_scanned (Prod.eta (received options w.state lastLedger
      (some ((p.returned w).map contract)) p.now)).symm
    rw [hid] at hscan
    rw [hnext]
    refine ⟨?_, ?_, hsame.trans hid⟩
    · have hall := haccounted.scan hscan
      rw [← List.map_append, ← hdelivered] at hall
      simpa only [decide_eq_true_eq] using hall
    · dsimp only
      split_ifs
      · exact List.append_subset.mpr ⟨List.subset_append_of_subset_left _ hsettled, List.subset_append_right _ _⟩
      · exact List.subset_append_of_subset_left _ hsettled

theorem handlersHaveAll {cursor : Option EventCursor} {polls : List Poll} {w : Watch}
    (h : Allowed (pollStep contract options) (PollIdentified contract invoiceId) (start invoiceId options cursor) polls)
    (hrun : run (pollStep contract options) (start invoiceId options cursor) polls = some w) :
    HandlersHaveAll contract invoiceId w := by
  have hstep : ∀ u p v, Inv contract invoiceId u ∧ KeysApart contract invoiceId u.returned →
      PollIdentified contract invoiceId u p → pollStep contract options u p = some v →
      Inv contract invoiceId v ∧ KeysApart contract invoiceId v.returned := by
    intro u p v hi hok hv
    refine ⟨pollStep_inv hi.1 hv, ?_⟩
    obtain rfl := Option.some_inj.mp hv
    exact hok
  have hstart : KeysApart contract invoiceId (start invoiceId options cursor).returned :=
    fun id hid => absurd hid List.not_mem_nil
  have hinv := run_invariant hstep _ w polls ⟨⟨accounted_nil, List.Subset.refl _, rfl⟩, hstart⟩ h hrun
  exact hinv.1.1.handedEach hinv.2 hinv.1.2.1

end Manager

section Main

/-- While no two events share a key, both loops deliver every event that they are answered with. -/
theorem distinct_keys_all_delivered (contract : String → EventResponse) (invoiceId : String) :
    (∀ (config : InvoiceSubscription.SubscriptionConfig) (active : Nat) (storedCursor : Option Nat) (now : ℚ)
        (es : List InvoiceSubscription.Event) (t : InvoiceSubscription.SubscriptionState),
      Allowed (InvoiceSubscription.step config contract invoiceId) (Identified contract invoiceId)
        (InvoiceSubscription.createInvoiceSubscription config active storedCursor now) es →
      run (InvoiceSubscription.step config contract invoiceId)
        (InvoiceSubscription.createInvoiceSubscription config active storedCursor now) es = some t →
      CallbackHasAll contract invoiceId t) ∧
    ∀ (options : SubscriptionManager.SubscriptionOptions) (cursor : Option SubscriptionManager.EventCursor)
        (polls : List Poll) (w : Watch),
      Allowed (pollStep contract options) (PollIdentified contract invoiceId) (start invoiceId options cursor) polls →
      run (pollStep contract options) (start invoiceId options cursor) polls = some w →
      HandlersHaveAll contract invoiceId w :=
  ⟨fun _ _ _ _ _ _ => callbackHasAll, fun _ _ _ _ => handlersHaveAll⟩

end Main

section Sample

def paid (amount : Int) : EventResponse :=
  ⟨100, .array [.string "payment", .string "7"], .object [("payer", .string "G"), ("amount", .bigint amount)]⟩

/-- Two payments in one ledger, and a later one. -/
def payments (id : String) : EventResponse :=
  if id = "1" then paid 5 else if id = "2" then paid 6 else { paid 7 with ledger := 101 }

def subscribed (ids : List String) : Option InvoiceSubscription.SubscriptionState :=
  run (InvoiceSubscription.step {} payments "7") created [.latestLedger 0 (some 100) false, .events 0 (some ids) {}]

def polled (ids : List String) : Option Watch := run (pollStep payments {}) (start "7" {} none) [⟨some 100, some ids, 0⟩]

theorem distinct_keys_all_delivered_pair :
    (∃ t, subscribed ["1", "3"] = some t ∧ CallbackHasAll payments "7" t) ∧
      ∃ w, polled ["1", "3"] = some w ∧ HandlersHaveAll payments "7" w := by
  obtain ⟨t, ht⟩ := Option.isSome_iff_exists.mp (by rfl : (subscribed ["1", "3"]).isSome)
  obtain ⟨w, hw⟩ := Option.isSome_iff_exists.mp (by decide : (polled ["1", "3"]).isSome)
  have hall := distinct_keys_all_delivered payments "7"
  exact ⟨⟨t, ht, hall.1 {} 0 none 0 _ t (by decide) ht⟩, ⟨w, hw, hall.2 {} none _ w (by decide +kernel) hw⟩⟩

theorem not_handedEach_of_single {handed : List EventResponse} (h : handed.length ≤ 1) :
    ¬HandedEach (fun event => isWatched "7" event) payments ["1", "2"] handed := by
  rintro ⟨place, hplace, hinj⟩
  have hzero : ∀ id ∈ ["1", "2"], place id = 0 := by
    intro id hid
    have hwatched : isWatched "7" (payments id) := by
      revert id
      decide
    obtain ⟨hlt, -⟩ := List.getElem?_eq_some_iff.mp (hplace id hid hwatched)
    omega
  have he := hinj "1" (by decide) "2" (by decide) (by rfl) (by decide)
    ((hzero "1" (by decide)).trans (hzero "2" (by decide)).symm)
  exact absurd he (by decide)

/-- Of two payments in one ledger only one is delivered, by either loop. -/
theorem second_payment_dropped :
    (∃ t, subscribed ["1", "2"] = some t ∧ ¬CallbackHasAll payments "7" t) ∧
      ∃ w, polled ["1", "2"] = some w ∧ ¬HandlersHaveAll payments "7" w := by
  have hsub : (subscribed ["1", "2"]).any (fun t => t.settled = ["1", "2"] ∧ (t.handed.map Prod.fst).length ≤ 1) := by
    rfl
  have hpoll : (polled ["1", "2"]).any (fun w => w.settled = ["1", "2"] ∧
      (w.state.delivered.map Prod.fst).length ≤ 1) := by decide
  obtain ⟨t, ht, hfacts⟩ := (Option.any_eq_true _ _).mp hsub
  obtain ⟨w, hw, hfacts'⟩ := (Option.any_eq_true _ _).mp hpoll
  obtain ⟨hsettled, hlength⟩ := of_decide_eq_true hfacts
  obtain ⟨hsettled', hlength'⟩ := of_decide_eq_true hfacts'
  refine ⟨⟨t, ht, fun h => ?_⟩, ⟨w, hw, fun h => ?_⟩⟩
  · rw [CallbackHasAll, hsettled] at h
    exact not_handedEach_of_single hlength h
  · rw [HandlersHaveAll, hsettled'] at h
    exact not_handedEach_of_single hlength' h

end Sample

end SplitSdk.EventIdentity
