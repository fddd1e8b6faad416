import SplitSdk.InvoiceEvents
import SplitSdk.Interleaving
import SplitSdk.NumberText

namespace SplitSdk.SubscriptionManager

open InvoiceEvents

section Data

/-- A persisted position; `lastLedger` is the first ledger that is not processed yet. -/
structure EventCursor where
  invoiceId : String
  lastLedger : Nat
  lastEventId : Option String
  updatedAt : Int

/-- `maxRetries` is `none` when it is infinite. -/
structure SubscriptionOptions where
  initialBackoffMs : ℚ := 1000
  maxBackoffMs : ℚ := 30000
  backoffMultiplier : ℚ := 2
  maxRetries : Option Nat := none

/-- A subscription. `delivered` are the events that its handlers got, each with the event of the contract
it was made from. -/
structure InvoiceSubscriptionState where
  invoiceId : String
  seenEventKeys : List String := []
  lastLedger : Option Nat
  lastEventId : Option String
  backoffMs : ℚ
  retryAttempt : Nat := 0
  stopped : Bool := false
  cursor : Option EventCursor
  delivered : List (EventResponse × InvoiceEvent) := []

/-- What one poll has collected on its way through the events. -/
structure Progress where
  maxLedger : Nat
  seenEventKeys : List String
  lastDeliveredEventId : Option String
  deliveredAny : Bool := false
  delivered : List (EventResponse × InvoiceEvent)

inductive PollOutcome
  | skipped
  | connected
  | failed
  deriving DecidableEq

end Data

section Operations

def subscribe (options : SubscriptionOptions) (invoiceId : String) (cursor : Option EventCursor) :
    InvoiceSubscriptionState where
  invoiceId := invoiceId
  lastLedger := cursor.map EventCursor.lastLedger
  lastEventId := cursor.bind EventCursor.lastEventId
  backoffMs := options.initialBackoffMs
  cursor := cursor

/-- The loop over the events of a response; an event that cannot be parsed ends it. -/
def deliver (invoiceId : String) (now : Int) : Progress → List EventResponse → Progress × Bool
  | p, [] => (p, true)
  | p, raw :: events =>
      let p := { p with maxLedger := max p.maxLedger raw.ledger }
      if computeEventKey raw ∈ p.seenEventKeys then deliver invoiceId now p events
      else
        let p := { p with seenEventKeys := computeEventKey raw :: p.seenEventKeys }
        match parseInvoiceEvent raw (now / 1000) with
        | .error _ => (p, false)
        | .ok none => deliver invoiceId now p events
        | .ok (some parsed) =>
            if parsed.invoiceId ≠ invoiceId then deliver invoiceId now p events
            else
              let p := { p with
                delivered := p.delivered ++ [(raw, parsed)]
                deliveredAny := true
                lastDeliveredEventId := some parsed.eventId }
              deliver invoiceId now p events

/-- The `catch` branch of a poll, up to the next poll. -/
def disconnected (options : SubscriptionOptions) (s : InvoiceSubscriptionState) : InvoiceSubscriptionState :=
  let s := { s with retryAttempt := s.retryAttempt + 1 }
  if options.maxRetries.any (fun maxRetries => s.retryAttempt > maxRetries) then { s with stopped := true }
  else { s with backoffMs := min (s.backoffMs * options.backoffMultiplier) options.maxBackoffMs }

/-- The poll from the answer of `getEvents`, `none` when it rejects. -/
def received (options : SubscriptionOptions) (s : InvoiceSubscriptionState) (lastLedger : Nat)
    (response : Option (List EventResponse)) (now : Int) : InvoiceSubscriptionState × PollOutcome :=
  let s := { s with lastLedger := some lastLedger }
  match response with
  | none => (disconnected options s, .failed)
  | some events =>
      let start : Progress :=
        { maxLedger := lastLedger, seenEventKeys := s.seenEventKeys, lastDeliveredEventId := s.lastEventId,
          delivered := s.delivered }
      match deliver s.invoiceId now start events with
      | (p, false) =>
          (disconnected options { s with seenEventKeys := p.seenEventKeys, delivered := p.delivered }, .failed)
      | (p, true) =>
          let cursor : EventCursor :=
            { invoiceId := s.invoiceId, lastLedger := p.maxLedger + 1, lastEventId := p.lastDeliveredEventId,
              updatedAt := now }
          ({ s with
              seenEventKeys := p.seenEventKeys
              delivered := p.delivered
              lastLedger := some (p.maxLedger + 1)
              lastEventId := p.lastDeliveredEventId
              cursor := if p.deliveredAny then some cursor else s.cursor
              retryAttempt := 0
              backoffMs := options.initialBackoffMs }, .connected)

/-- One poll; `getLatestLedger` is only asked without a cursor, and the answers are `none` when the calls reject. -/
def poll (options : SubscriptionOptions) (s : InvoiceSubscriptionState) (latest : Option Nat)
    (getEvents : Nat → Option (List EventResponse)) (now : Int) : InvoiceSubscriptionState × PollOutcome :=
  if s.stopped then (s, .skipped)
  else match s.lastLedger with
    | some lastLedger => received options s lastLedger (getEvents lastLedger) now
    | none =>
        match latest with
        | none => (disconnected options s, .failed)
        | some lastLedger => received options s lastLedger (getEvents lastLedger) now

end Operations

end SplitSdk.SubscriptionManager

namespace SplitSdk.EventDelivery

open Interleaving NumberText InvoiceEvents SubscriptionManager

section Statement

/-- The events of the ledgers from `first` up to, and without, `bound`. -/
def between (chain : Nat → List EventResponse) (first bound : Nat) : List EventResponse :=
  (List.range' first (bound - first)).flatMap chain

/-- A poll at a time at which `closed` is the last closed ledger. -/
structure Poll where
  closed : Nat
  now : Int

/-- A successful poll of a server that answers with the events of the closed ledgers. -/
def step (options : SubscriptionOptions) (chain : Nat → List EventResponse) (s : InvoiceSubscriptionState)
    (p : Poll) : Option InvoiceSubscriptionState :=
  match poll options s (some p.closed) (fun startLedger => some (between chain startLedger (p.closed + 1))) p.now with
  | (t, .connected) => some t
  | _ => none

def isWatched (invoiceId : String) (event : EventResponse) : Bool :=
  match parseInvoiceEvent event 0 with
  | .ok (some parsed) => parsed.invoiceId = invoiceId
  | _ => false

/-- Every event of the invoice differs in its key from those before it in its ledger. -/
def DistinctKeys (chain : Nat → List EventResponse) (invoiceId : String) : Prop :=
  ∀ n, (chain n).Pairwise (fun a b => isWatched invoiceId b → computeEventKey a ≠ computeEventKey b)

/-- A poll whose cursor is beyond the last closed ledger passes the ledger at the cursor by:
there is no event of the invoice in it. -/
def NoGap (chain : Nat → List EventResponse) (s : InvoiceSubscriptionState) (p : Poll) : Prop :=
  ∀ cursor ∈ s.lastLedger, p.closed < cursor → ∀ event ∈ chain cursor, ¬isWatched s.invoiceId event

instance (chain : Nat → List EventResponse) (s : InvoiceSubscriptionState) (p : Poll) : Decidable (NoGap chain s p) := by
  unfold NoGap
  infer_instance

end Statement

section Keys

theorem computeEventKey_ledger {a b : EventResponse} (h : computeEventKey a = computeEventKey b) :
    a.ledger = b.ledger := by
  have hspan : ∀ (n : Nat) (text : String), (n.repr ++ ":" ++ text).toList.span Char.isDigit =
      (Nat.toDigits 10 n, ':' :: text.toList) := by
    intro n text
    rw [String.append_assoc, String.toList_append, String.toList_append, Nat.repr, String.toList_ofList]
    exact span_digits _ (allDigits_toDigits n) (by simp)
  have hdigits : Nat.toDigits 10 a.ledger = Nat.toDigits 10 b.ledger := by
    have := congrArg (fun key => (key.toList.span Char.isDigit).1) h
    simpa only [computeEventKey, hspan] using this
  exact Option.some.inj ((readDigits_toDigits a.ledger).symm.trans ((congrArg _ hdigits).trans (readDigits_toDigits b.ledger)))

end Keys

section Parse

/-- Only the time stamps of an event depend on the time. -/
theorem eventFields_isSome (eventType : String) (data : JsValue) (ledger : Nat) (now now' : Int) :
    (eventFields eventType data ledger now).map Option.isSome =
      (eventFields eventType data ledger now').map Option.isSome := by
  unfold eventFields
  split
  · rfl
  · cases bigIntField (data.get "amount") <;> rfl
  · rfl
  · rfl
  · rfl
  · rfl
  · rfl

theorem parseInvoiceEvent_invoiceId (event : EventResponse) (now now' : Int) :
    (parseInvoiceEvent event now).map (Option.map InvoiceEvent.invoiceId) =
      (parseInvoiceEvent event now').map (Option.map InvoiceEvent.invoiceId) := by
  unfold parseInvoiceEvent
  split
  · rename_i eventType topic _
    cases extractInvoiceId event (.string eventType :: topic) with
    | none => rfl
    | some invoiceId =>
        dsimp only
        split_ifs
        · rfl
        · have h := eventFields_isSome eventType (parseEventValue event.value) event.ledger now now'
          revert h
          generalize eventFields eventType (parseEventValue event.value) event.ledger now = fields
          generalize eventFields eventType (parseEventValue event.value) event.ledger now' = fields'
          intro h
          rcases fields with e | _ | fields <;> rcases fields' with e' | _ | fields' <;>
            simp_all [Except.map]
  · rfl

theorem isWatched_of_none {event : EventResponse} {now : Int} {invoiceId : String}
    (h : parseInvoiceEvent event now = .ok none) : isWatched invoiceId event = false := by
  have hid := parseInvoiceEvent_invoiceId event now 0
  rw [h] at hid
  unfold isWatched
  rcases hparse : parseInvoiceEvent event 0 with _ | _ | parsed
  · rfl
  · rfl
  · rw [hparse] at hid
    cases hid

theorem isWatched_of_error {event : EventResponse} {now : Int} {invoiceId : String} {e : Failure}
    (h : parseInvoiceEvent event now = .error e) : isWatched invoiceId event = false := by
  have hid := parseInvoiceEvent_invoiceId event now 0
  rw [h] at hid
  unfold isWatched
  rcases hparse : parseInvoiceEvent event 0 with _ | _ | parsed
  · rfl
  · rfl
  · rw [hparse] at hid
    cases hid

theorem isWatched_of_some {event : EventResponse} {now : Int} {invoiceId : String} {parsed : InvoiceEvent}
    (h : parseInvoiceEvent event now = .ok (some parsed)) :
    isWatched invoiceId event ↔ parsed.invoiceId = invoiceId := by
  have hid := parseInvoiceEvent_invoiceId event now 0
  rw [h] at hid
  unfold isWatched
  rcases hparse : parseInvoiceEvent event 0 with _ | _ | parsed'
  · rw [hparse] at hid
    cases hid
  · rw [hparse] at hid
    cases hid
  · rw [hparse] at hid
    have hid : parsed.invoiceId = parsed'.invoiceId := Option.some.inj (Except.ok.inj hid)
    rw [hid]
    exact decide_eq_true_iff

end Parse

section Loop

variable {invoiceId : String} {now : Int}

/-- The loop hands over the watched events when none of their keys was seen before. -/
theorem deliver_spec (events : List EventResponse) (p q : Progress) (h : deliver invoiceId now p events = (q, true))
    (hkeys : events.Pairwise (fun a b => isWatched invoiceId b → computeEventKey a ≠ computeEventKey b))
    (hseen : ∀ event ∈ events, isWatched invoiceId event → computeEventKey event ∉ p.seenEventKeys) :
    q.delivered.map Prod.fst = p.delivered.map Prod.fst ++ events.filter (isWatched invoiceId) ∧
      q.maxLedger = (events.map EventResponse.ledger).foldl max p.maxLedger ∧
      ∀ key ∈ q.seenEventKeys, key ∈ p.seenEventKeys ∨ ∃ event ∈ events, computeEventKey event = key := by
  induction events generalizing p with
  | nil =>
      obtain rfl : p = q := congrArg Prod.fst h
      exact ⟨by simp, rfl, fun key hkey => .inl hkey⟩
  | cons raw events ih =>
      obtain ⟨hraw, hkeys⟩ := List.pairwise_cons.mp hkeys
      obtain ⟨hnew, hseen⟩ := List.forall_mem_cons.mp hseen
      -- A key that this event adds is not the key of a watched event behind it.
      have hseen' : ∀ event ∈ events, isWatched invoiceId event →
          computeEventKey event ∉ computeEventKey raw :: p.seenEventKeys := by
        intro event hevent hwatched hmem
        rcases List.mem_cons.mp hmem with hkey | hmem
        · exact hraw event hevent hwatched hkey.symm
        · exact hseen event hevent hwatched hmem
      have hkeysOf : ∀ {key : String}, (key ∈ computeEventKey raw :: p.seenEventKeys ∨
          ∃ event ∈ events, computeEventKey event = key) →
          key ∈ p.seenEventKeys ∨ ∃ event ∈ raw :: events, computeEventKey event = key := by
        rintro key (hmem | ⟨event, hevent, hkey⟩)
        · rcases List.mem_cons.mp hmem with rfl | hmem
          · exact .inr ⟨raw, List.mem_cons_self, rfl⟩
          · exact .inl hmem
        · exact .inr ⟨event, List.mem_cons_of_mem _ hevent, hkey⟩
      rw [deliver] at h
      dsimp only at h
      split_ifs at h with hold
      · obtain ⟨hdelivered, hmax, hseen''⟩ := ih _ h hkeys hseen
        have hunwatched : isWatched invoiceId raw = false := by
          rw [← Bool.not_eq_true]
          exact fun hwatched => hnew hwatched hold
        refine ⟨?_, hmax, ?_⟩
        · rw [hdelivered, List.filter_cons_of_neg (by rw [hunwatched]; exact Bool.false_ne_true)]
        · exact fun key hkey => hkeysOf ((hseen'' key hkey).imp_left (List.mem_cons_of_mem _))
      · split at h
        · nomatch h
        · rename_i hparse
          obtain ⟨hdelivered, hmax, hseen''⟩ := ih _ h hkeys hseen'
          refine ⟨?_, hmax, fun key hkey => hkeysOf (hseen'' key hkey)⟩
          rw [hdelivered, List.filter_cons_of_neg (by rw [isWatched_of_none hparse]; exact Bool.false_ne_true)]
        · rename_i parsed hparse
          split_ifs at h with hid
          · obtain ⟨hdelivered, hmax, hseen''⟩ := ih _ h hkeys hseen'
            refine ⟨?_, hmax, fun key hkey => hkeysOf (hseen'' key hkey)⟩
            rw [hdelivered, List.filter_cons_of_neg (mt (isWatched_of_some hparse).mp hid)]
          · obtain ⟨hdelivered, hmax, hseen''⟩ := ih _ h hkeys hseen'
            refine ⟨?_, hmax, fun key hkey => hkeysOf (hseen'' key hkey)⟩
            rw [hdelivered, List.filter_cons_of_pos ((isWatched_of_some hparse).mpr (not_not.mp hid))]
            simp

end Loop

section Ledgers

variable (chain : Nat → List EventResponse)

theorem between_eq_nil {first bound : Nat} (h : bound ≤ first) : between chain first bound = [] := by
  rw [between, Nat.sub_eq_zero_of_le h]
  rfl

theorem mem_between {first bound : Nat} {event : EventResponse} :
    event ∈ between chain first bound ↔ ∃ n, first ≤ n ∧ n < bound ∧ event ∈ chain n := by
  simp only [between, List.mem_flatMap, List.mem_range'_1]
  constructor
  · rintro ⟨n, ⟨hfirst, hbound⟩, h⟩
    exact ⟨n, hfirst, by omega, h⟩
  · rintro ⟨n, hfirst, hbound, h⟩
    exact ⟨n, ⟨hfirst, by omega⟩, h⟩

theorem between_append {first mid bound : Nat} (hmid : first ≤ mid) (hbound : mid ≤ bound) :
    between chain first bound = between chain first mid ++ between chain mid bound := by
  obtain ⟨m, rfl⟩ := Nat.exists_eq_add_of_le hmid
  obtain ⟨n, rfl⟩ := Nat.exists_eq_add_of_le hbound
  rw [between, between, between, ← List.flatMap_append, Nat.add_assoc, Nat.add_sub_cancel_left, Nat.add_sub_cancel_left,
    ← Nat.add_assoc, Nat.add_sub_cancel_left, ← List.range'_append_1]

/-- The watched events of some ledgers. -/
def watched (chain : Nat → List EventResponse) (invoiceId : String) (first bound : Nat) : List EventResponse :=
  (between chain first bound).filter (isWatched invoiceId)

theorem watched_append (invoiceId : String) {first mid bound : Nat} (hmid : first ≤ mid) (hbound : mid ≤ bound) :
    watched chain invoiceId first bound = watched chain invoiceId first mid ++ watched chain invoiceId mid bound := by
  rw [watched, between_append chain hmid hbound, List.filter_append]
  rfl

theorem watched_eq_nil (invoiceId : String) (first bound : Nat)
    (h : ∀ n, first ≤ n → n < bound → ∀ event ∈ chain n, ¬isWatched invoiceId event) :
    watched chain invoiceId first bound = [] := by
  rw [watched, List.filter_eq_nil_iff]
  intro event hevent
  obtain ⟨n, hfirst, hbound, hmem⟩ := (mem_between chain).mp hevent
  exact h n hfirst hbound event hmem

theorem pairwise_between {invoiceId : String} (hledger : ∀ n, ∀ event ∈ chain n, event.ledger = n)
    (hkeys : DistinctKeys chain invoiceId) (first bound : Nat) :
    (between chain first bound).Pairwise
      (fun a b => isWatched invoiceId b → computeEventKey a ≠ computeEventKey b) := by
  rw [between, List.pairwise_flatMap]
  refine ⟨fun n _ => hkeys n, ?_⟩
  refine (List.pairwise_lt_range' 1).imp ?_
  intro m n hmn a ha b hb _ hkey
  have := computeEventKey_ledger hkey
  rw [hledger m a ha, hledger n b hb] at this
  omega

theorem le_foldl_max (xs : List Nat) (a : Nat) :
    a ≤ xs.foldl max a ∧ (∀ x ∈ xs, x ≤ xs.foldl max a) ∧ (xs.foldl max a = a ∨ xs.foldl max a ∈ xs) := by
  induction xs generalizing a with
  | nil => exact ⟨Nat.le_refl a, nofun, .inl rfl⟩
  | cons x xs ih =>
      obtain ⟨hle, hall, heq⟩ := ih (max a x)
      rw [List.foldl_cons]
      refine ⟨(Nat.le_max_left a x).trans hle,
        List.forall_mem_cons.mpr ⟨(Nat.le_max_right a x).trans hle, hall⟩, ?_⟩
      rcases heq with heq | hmem
      · rw [heq]
        rcases Nat.le_total a x with h | h
        · exact .inr (by rw [Nat.max_eq_right h]; exact List.mem_cons_self)
        · exact .inl (Nat.max_eq_left h)
      · exact .inr (List.mem_cons_of_mem _ hmem)

end Ledgers

section Invariant

/-- The state after polls from the ledger `first` on, the ledgers below `top` being closed at the last of them. -/
structure Inv (chain : Nat → List EventResponse) (invoiceId : String) (first top cursor : Nat)
    (s : InvoiceSubscriptionState) : Prop where
  same : s.invoiceId = invoiceId
  lastLedger : s.lastLedger = some cursor
  from_le : first ≤ cursor
  delivered : s.delivered.map Prod.fst = watched chain invoiceId first cursor
  seen : ∀ key ∈ s.seenEventKeys, ∃ event : EventResponse, event.ledger < cursor ∧ computeEventKey event = key
  behind : ∀ n, cursor ≤ n → n < top → chain n = []
  ahead : ∀ n, first ≤ n → top ≤ n → n < cursor → ∀ event ∈ chain n, ¬isWatched invoiceId event

variable {options : SubscriptionOptions} {chain : Nat → List EventResponse} {invoiceId : String}
variable {s t : InvoiceSubscriptionState} {p : Poll} {first top cursor : Nat}

theorem Inv.delivered_top (hi : Inv chain invoiceId first top cursor s) :
    s.delivered.map Prod.fst = watched chain invoiceId first top := by
  rw [hi.delivered]
  rcases Nat.le_total cursor top with h | h
  · rw [watched_append chain invoiceId hi.from_le h, watched_eq_nil chain invoiceId cursor top, List.append_nil]
    intro n hn htop event hevent
    rw [hi.behind n hn htop] at hevent
    nomatch hevent
  · rcases Nat.le_total first top with h' | h'
    · rw [watched_append chain invoiceId h' h, watched_eq_nil chain invoiceId top cursor, List.append_nil]
      exact fun n hn hcursor => hi.ahead n (h'.trans hn) hn hcursor
    · rw [watched_eq_nil chain invoiceId first top (fun n hn htop => absurd (hn.trans_lt htop) (by omega))]
      exact watched_eq_nil chain invoiceId first cursor (fun n hn hcursor => hi.ahead n hn (h'.trans hn) hcursor)

/-- A poll that succeeds moves the cursor past everything it was given. -/
theorem step_spec (h : step options chain s p = some t) (hlast : s.lastLedger = some cursor) :
    ∃ q, deliver s.invoiceId p.now
        { maxLedger := cursor, seenEventKeys := s.seenEventKeys, lastDeliveredEventId := s.lastEventId,
          delivered := s.delivered } (between chain cursor (p.closed + 1)) = (q, true) ∧
      t.invoiceId = s.invoiceId ∧ t.lastLedger = some (q.maxLedger + 1) ∧ t.seenEventKeys = q.seenEventKeys ∧
      t.delivered = q.delivered := by
  unfold step poll at h
  rw [hlast] at h
  cases hstopped : s.stopped with
  | true => simp [hstopped] at h
  | false =>
      simp only [hstopped, Bool.false_eq_true, if_false, received] at h
      split at h
      · rename_i hreceived
        split at hreceived
        · cases hreceived
        · rename_i q hq
          obtain rfl := Option.some.inj h
          obtain rfl := congrArg Prod.fst hreceived
          exact ⟨q, hq, rfl, rfl, rfl, rfl⟩
      · nomatch h

theorem step_inv (hledger : ∀ n, ∀ event ∈ chain n, event.ledger = n) (hkeys : DistinctKeys chain invoiceId)
    (hi : Inv chain invoiceId first top cursor s) (htop : top ≤ p.closed + 1) (hok : NoGap chain s p)
    (h : step options chain s p = some t) : ∃ cursor', Inv chain invoiceId first (p.closed + 1) cursor' t := by
  obtain ⟨q, hq, hid, hlast, hseen, hdelivered⟩ := step_spec h hi.lastLedger
  rw [hi.same] at hq
  have hfresh : ∀ event ∈ between chain cursor (p.closed + 1), isWatched invoiceId event →
      computeEventKey event ∉ s.seenEventKeys := by
    intro event hevent _ hmem
    obtain ⟨n, hn, _, hmem'⟩ := (mem_between chain).mp hevent
    obtain ⟨event', hlt, hkey⟩ := hi.seen _ hmem
    have := computeEventKey_ledger hkey
    rw [hledger n event hmem'] at this
    omega
  obtain ⟨hhanded, hmax, hkeysOf⟩ := deliver_spec _ _ q hq (pairwise_between chain hledger hkeys _ _) hfresh
  obtain ⟨hle, hall, hbound⟩ := le_foldl_max ((between chain cursor (p.closed + 1)).map EventResponse.ledger) cursor
  rw [← hmax] at hle hall hbound
  have hpassed : ∀ n, cursor ≤ n → n < p.closed + 1 → ∀ event ∈ chain n, n ≤ q.maxLedger := by
    intro n hn hclosed event hevent
    have := hall event.ledger (List.mem_map_of_mem ((mem_between chain).mpr ⟨n, hn, hclosed, hevent⟩))
    rwa [hledger n event hevent] at this
  have hbound : q.maxLedger = cursor ∨ q.maxLedger ≤ p.closed := by
    refine hbound.imp_right ?_
    intro hmem
    obtain ⟨event, hevent, heq⟩ := List.mem_map.mp hmem
    obtain ⟨n, _, hclosed, hmem'⟩ := (mem_between chain).mp hevent
    rw [hledger n event hmem'] at heq
    omega
  have hgap : p.closed < cursor → ∀ event ∈ chain cursor, ¬isWatched invoiceId event := by
    intro hclosed event hevent
    rw [← hi.same]
    exact hok cursor hi.lastLedger hclosed event hevent
  refine ⟨q.maxLedger + 1, hid.trans hi.same, hlast, hi.from_le.trans (by omega), ?_, ?_, ?_, ?_⟩
  · rw [hdelivered, hhanded, hi.delivered, watched_append chain invoiceId hi.from_le (Nat.le_succ_of_le hle)]
    refine congrArg _ ?_
    change watched chain invoiceId cursor (p.closed + 1) = _
    rcases Nat.lt_or_ge p.closed cursor with hclosed | hclosed
    · have heq : q.maxLedger = cursor := by omega
      rw [heq, watched_eq_nil chain invoiceId cursor (p.closed + 1) (fun n hn hlt => absurd hlt (by omega))]
      refine (watched_eq_nil chain invoiceId cursor (cursor + 1) ?_).symm
      intro n hn hlt
      obtain rfl : n = cursor := by omega
      exact hgap hclosed
    · rw [watched_append chain invoiceId (Nat.le_succ_of_le hle) (by omega : q.maxLedger + 1 ≤ p.closed + 1),
        watched_eq_nil chain invoiceId (q.maxLedger + 1) (p.closed + 1), List.append_nil]
      intro n hn hlt event hevent
      exact absurd (hpassed n (by omega) hlt event hevent) (by omega)
  · intro key hkey
    rw [hseen] at hkey
    rcases hkeysOf key hkey with hmem | ⟨event, hevent, heq⟩
    · obtain ⟨event, hlt, heq⟩ := hi.seen key hmem
      exact ⟨event, by omega, heq⟩
    · exact ⟨event, Nat.lt_succ_of_le (hall _ (List.mem_map_of_mem hevent)), heq⟩
  · intro n hn hlt
    refine List.eq_nil_iff_forall_not_mem.mpr ?_
    intro event hevent
    exact absurd (hpassed n (by omega) hlt event hevent) (by omega)
  · intro n hfirst hn hlt
    have heq : q.maxLedger = cursor := by omega
    rcases Nat.lt_or_ge n cursor with hncursor | hncursor
    · exact hi.ahead n hfirst (by omega) hncursor
    · obtain rfl : n = cursor := by omega
      exact hgap (by omega)

theorem run_inv {polls : List Poll} (hledger : ∀ n, ∀ event ∈ chain n, event.ledger = n)
    (hkeys : DistinctKeys chain invoiceId) (hi : Inv chain invoiceId first top cursor s)
    (htop : ∀ p ∈ polls, top ≤ p.closed + 1) (hgrows : polls.Pairwise (fun p q => p.closed ≤ q.closed))
    (hok : Allowed (step options chain) (NoGap chain) s polls) (h : run (step options chain) s polls = some t) :
    ∃ cursor', Inv chain invoiceId first ((polls.getLast?.map (fun p => p.closed + 1)).getD top) cursor' t := by
  induction polls generalizing s top cursor with
  | nil =>
      cases h
      exact ⟨cursor, hi⟩
  | cons p polls ih =>
      obtain ⟨hnext, hgrows⟩ := List.pairwise_cons.mp hgrows
      obtain ⟨u, hu, hrun⟩ := run_cons h
      obtain ⟨cursor', hi'⟩ := step_inv hledger hkeys hi (htop p List.mem_cons_self) hok.1 hu
      have := ih hi' (fun q hq => Nat.succ_le_succ (hnext q hq)) hgrows (hok.2 u hu) hrun
      cases polls with
      | nil => exact this
      | cons q polls => exact this

end Invariant

section Result

/-- The first ledger that is asked for: the persisted cursor, or the last closed ledger at the first poll. -/
def initialLedger (cursor : Option EventCursor) (polls : List Poll) : Nat :=
  (cursor.map EventCursor.lastLedger).getD ((polls.head?.map Poll.closed).getD 0)

variable {options : SubscriptionOptions} {chain : Nat → List EventResponse} {invoiceId : String}

theorem first_poll (cursor : Option EventCursor) (p : Poll) (polls : List Poll)
    (hok : NoGap chain (subscribe options invoiceId cursor) p) :
    ∃ s, Inv chain invoiceId (initialLedger cursor (p :: polls)) 0 (initialLedger cursor (p :: polls)) s ∧
      NoGap chain s p ∧ step options chain (subscribe options invoiceId cursor) p = step options chain s p := by
  have hinv : ∀ s : InvoiceSubscriptionState, ∀ first, s.invoiceId = invoiceId → s.lastLedger = some first →
      s.delivered = [] → s.seenEventKeys = [] → Inv chain invoiceId first 0 first s := by
    intro s first hid hlast hdelivered hseen
    refine ⟨hid, hlast, Nat.le_refl _, ?_, ?_, nofun, fun n hfirst _ hlt => absurd hlt (by omega)⟩
    · rw [hdelivered, watched, between_eq_nil chain (Nat.le_refl _)]
      rfl
    · rw [hseen]
      nofun
  cases cursor with
  | some cursor => exact ⟨_, hinv _ _ rfl rfl rfl rfl, hok, rfl⟩
  | none =>
      refine ⟨{ subscribe options invoiceId none with lastLedger := some p.closed }, hinv _ _ rfl rfl rfl rfl, ?_, rfl⟩
      intro cursor hcursor hclosed
      obtain rfl : p.closed = cursor := Option.some.inj hcursor
      omega

/-- After polls without a gap the handlers have got exactly the events of the invoice, each of them once,
from the first ledger up to the last one that was closed. -/
theorem events_delivered (cursor : Option EventCursor) (polls : List Poll) (last : Poll) (t : InvoiceSubscriptionState)
    (hledger : ∀ n, ∀ event ∈ chain n, event.ledger = n) (hkeys : DistinctKeys chain invoiceId)
    (hgrows : (polls ++ [last]).Pairwise (fun p q => p.closed ≤ q.closed))
    (hgap : Allowed (step options chain) (NoGap chain) (subscribe options invoiceId cursor) (polls ++ [last]))
    (hrun : run (step options chain) (subscribe options invoiceId cursor) (polls ++ [last]) = some t) :
    t.delivered.map Prod.fst =
      (between chain (initialLedger cursor (polls ++ [last])) (last.closed + 1)).filter (isWatched invoiceId) := by
  have htop : ((polls ++ [last]).getLast?.map (fun p => p.closed + 1)).getD 0 = last.closed + 1 := by
    rw [List.getLast?_concat, Option.map_some, Option.getD_some]
  cases hpolls : polls ++ [last] with
  | nil => exact absurd hpolls (by simp)
  | cons p more =>
      rw [hpolls] at hgrows hgap hrun htop
      obtain ⟨u, hu, hrest⟩ := run_cons hrun
      obtain ⟨s, hi, hok, hstep⟩ := first_poll cursor p more hgap.1
      obtain ⟨_, hinv⟩ := run_inv hledger hkeys hi (fun _ _ => Nat.zero_le _) hgrows
        ⟨hok, fun v hv => hgap.2 v (hstep.trans hv)⟩ (run_step (hstep.symm.trans hu) hrest)
      rw [htop] at hinv
      exact hinv.delivered_top

end Result

section Runs

def paid : EventResponse where
  ledger := 101
  topic := .array [.string "payment", .string "inv-1"]
  value := .object [("payer", .string "GABC"), ("amount", .string "1000")]

/-- A payment in ledger 101 and nothing else. -/
def onePayment : Nat → List EventResponse := fun n => if n = 101 then [paid] else []

theorem onePayment_ledger (n : Nat) (event : EventResponse) (h : event ∈ onePayment n) : event.ledger = n := by
  unfold onePayment at h
  split_ifs at h with hn
  · rw [List.mem_singleton.mp h, hn]
    rfl
  · nomatch h

theorem onePayment_keys : DistinctKeys onePayment "inv-1" := by
  intro n
  unfold onePayment
  split_ifs
  · exact List.pairwise_singleton _ _
  · exact .nil

theorem events_delivered_paid : ∃ t : InvoiceSubscriptionState,
    run (step {} onePayment) (subscribe {} "inv-1" none) ([⟨100, 0⟩] ++ [⟨101, 3000⟩]) = some t ∧
    t.delivered.map Prod.fst = (between onePayment 100 102).filter (isWatched "inv-1") := by
  obtain ⟨t, ht⟩ := Option.isSome_iff_exists.mp (by rfl :
    (run (step {} onePayment) (subscribe {} "inv-1" none) ([⟨100, 0⟩] ++ [⟨101, 3000⟩])).isSome)
  exact ⟨t, ht, events_delivered none [⟨100, 0⟩] ⟨101, 3000⟩ t onePayment_ledger onePayment_keys (by decide)
    (by decide) ht⟩

/-- The second poll comes before ledger 101 is closed, and the third one asks from ledger 102 on. -/
theorem poll_skips_payment : ∃ t : InvoiceSubscriptionState,
    run (step {} onePayment) (subscribe {} "inv-1" none) [⟨100, 0⟩, ⟨100, 3000⟩, ⟨101, 6000⟩] = some t ∧
    t.delivered.map Prod.fst = [] ∧ paid ∈ onePayment 101 ∧ isWatched "inv-1" paid :=
  ⟨_, rfl, rfl, List.mem_singleton_self paid, by rfl⟩

end Runs

end SplitSdk.EventDelivery
