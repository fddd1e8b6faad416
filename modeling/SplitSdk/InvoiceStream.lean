import SplitSdk.BigIntText
import SplitSdk.OrderedMap
import SplitSdk.StreamDeduplicator

namespace SplitSdk.InvoiceStream

open Numbers OrderedMap StreamDeduplicator

section Data

/-- What the code tells apart among the values in an event. -/
inductive Datum
  | text (s : String)
  | number (x : JsNumber)
  | bigint (n : Int)
  | other
  deriving DecidableEq

structure EventValue where
  invoiceId : Datum
  payer : Datum
  amount : Datum
  deriving DecidableEq

/-- A topic that is no array is `none`, and so is a value that has no fields. -/
structure EventResponse where
  ledger : JsNumber
  pagingToken : String
  topic : Option (List Datum)
  value : Option EventValue
  deriving DecidableEq

structure Payment where
  payer : String
  amount : Int
  deriving DecidableEq

inductive SSEInvoiceEventType
  | paymentReceived
  | invoiceReleased
  | invoiceRefunded
  deriving DecidableEq

/-- The data of an event with a payment are its payer and the text of its amount. -/
structure SSEInvoiceEvent where
  type : SSEInvoiceEventType
  invoiceId : String
  data : Option (String × String)
  deriving DecidableEq

/-- `handlerOrCallbacks`: one function for each batch, or an object that may have each of three callbacks. -/
inductive Receiver
  | handler
  | callbacks (onPayment onReleased onRefunded : Bool)
  deriving DecidableEq

/-- A call of a function of the subscriber. -/
inductive Call
  | onPayment (payment : Payment)
  | onReleased
  | onRefunded
  | handler (events : List SSEInvoiceEvent)
  deriving DecidableEq

/-- What the loop over the events of an answer has found so far. -/
structure Batch where
  maxLedger : JsNumber
  hasChanges : Bool := false
  eventsSinceLastPoll : List SSEInvoiceEvent := []
  deriving DecidableEq

/-- What a running poll waits for: an answer of the server, or the return of a function that it has called. -/
inductive Stage
  | latest
  | events
  | callback (batch : Batch) (rest : List EventResponse)
  | handler (maxLedger : JsNumber)
  deriving DecidableEq

/-- What a subscription has done, in order. -/
inductive Note
  | polled
  | delivered (call : Call)
  | unsubscribed
  deriving DecidableEq

/-- The variables of one call of `subscribeToInvoice`. A timer that has fired or was cleared and a poll that has ended are `none`. -/
structure Subscription where
  contractId : String
  invoiceId : String
  receiver : Receiver
  initialIntervalMs : JsNumber
  dedup : Option Nat
  resumeLedger : Option JsNumber
  stopped : Bool := false
  paused : Bool := false
  listening : Bool
  lastLedger : Option JsNumber := none
  backoffMs : JsNumber
  unchangedCount : Nat := 0
  timerId : Option Nat := none
  timers : List (Option JsNumber) := []
  polls : List (Option Stage) := []
  log : List Note := []

structure TooManySubscriptionsError where
  maxSubscriptions : Nat := 10
  deriving DecidableEq

def TooManySubscriptionsError.message (error : TooManySubscriptionsError) : String :=
  let maxSubscriptions := error.maxSubscriptions
  s!"Maximum concurrent subscriptions ({maxSubscriptions}) exceeded"

/-- The module with all that was subscribed. A deduplicator may be handed to several subscriptions; `calling` is the subscription and
the poll whose call of a user function has not returned. -/
structure Streams where
  subscriptionCount : Int := 0
  subscriptions : List Subscription := []
  cursors : OrdMap String String
  dedups : List Deduplicator
  documentDefined : Bool
  calling : Option (Nat × Nat) := none

end Data

section Extraction

def Datum.asId : Datum → Option String
  | .text s => some s
  | .number x => some (Numbers.toString x)
  | .bigint n => some (ToString.toString n)
  | .other => none

/-- `BigInt(amount)`, which throws on a text or a number that is no integer. -/
def Datum.toBigInt : Datum → Option Int
  | .text s => BigIntText.ofString s
  | .number (.finite q) => if q.den = 1 then some q.num else none
  | .number _ => none
  | .bigint n => some n
  | .other => none

def convertToInvoiceEvent (eventType invoiceId : String) (payment : Option Payment) : Option SSEInvoiceEvent :=
  let data := payment.map (fun payment => (payment.payer, ToString.toString payment.amount))
  if eventType = "payment" then some ⟨.paymentReceived, invoiceId, data⟩
  else if eventType = "released" then some ⟨.invoiceReleased, invoiceId, data⟩
  else if eventType = "refunded" then some ⟨.invoiceRefunded, invoiceId, data⟩
  else none

def extractInvoiceId (event : EventResponse) : Option String :=
  ((event.topic.bind (fun topic => topic[1]?)).bind Datum.asId).or (event.value.bind (fun value => value.invoiceId.asId))

def extractPayment (event : EventResponse) : Except Unit (Option Payment) :=
  match event.value with
  | none => .ok none
  | some value =>
      match value.payer, value.amount with
      | .text _, .other => .ok none
      | .text payer, amount =>
          match amount.toBigInt with
          | none => .error ()
          | some amount => .ok (some ⟨payer, amount⟩)
      | _, _ => .ok none

end Extraction

section Batches

variable (sub : Subscription)

def callbackFor (eventType : String) (payment : Option Payment) : Option Call :=
  match sub.receiver with
  | .handler => none
  | .callbacks onPayment onReleased onRefunded =>
      if eventType = "payment" ∧ onPayment then payment.map .onPayment
      else if eventType = "released" ∧ onReleased then some .onReleased
      else if eventType = "refunded" ∧ onRefunded then some .onRefunded
      else none

/-- `!dedup || dedup.filter(..)`. -/
def passes (seen : Option Deduplicator) (token : String) : Bool × Option Deduplicator :=
  match seen with
  | none => (true, none)
  | some d => ((filter d token).1, some (filter d token).2)

/-- One round of the loop over the events, up to the callback that it calls. -/
def handleEvent (seen : Option Deduplicator) (batch : Batch) (event : EventResponse) :
    Option Deduplicator × Except Unit (Batch × Option Call) :=
  let batch := { batch with maxLedger := if batch.maxLedger.lt event.ledger then event.ledger else batch.maxLedger }
  match event.topic with
  | some (.text eventType :: _) =>
      if eventType = "" ∨ extractInvoiceId event ≠ some sub.invoiceId then (seen, .ok (batch, none))
      else
        let (fresh, seen) := passes seen event.pagingToken
        if !fresh then (seen, .ok (batch, none))
        else
          let batch := { batch with hasChanges := true }
          match if eventType = "payment" then extractPayment event else .ok none with
          | .error () => (seen, .error ())
          | .ok payment =>
              match convertToInvoiceEvent eventType sub.invoiceId payment with
              | none => (seen, .ok (batch, none))
              | some invoiceEvent =>
                  (seen, .ok ({ batch with eventsSinceLastPoll := batch.eventsSinceLastPoll ++ [invoiceEvent] },
                    callbackFor sub eventType payment))
  | _ => (seen, .ok (batch, none))

/-- How the loop ends: an amount was no integer, a callback is called before the rest, or all events are through. -/
inductive Outcome
  | threw
  | calls (call : Call) (batch : Batch) (rest : List EventResponse)
  | done (batch : Batch)

def loop : Option Deduplicator → Batch → List EventResponse → Option Deduplicator × Outcome
  | seen, batch, [] => (seen, .done batch)
  | seen, batch, event :: events =>
      match handleEvent sub seen batch event with
      | (seen, .error ()) => (seen, .threw)
      | (seen, .ok (batch, some call)) => (seen, .calls call batch events)
      | (seen, .ok (batch, none)) => loop seen batch events

end Batches

section Polls

def unchangedThreshold : Nat := 3

def maxBackoffMs : JsNumber := .finite 30000

namespace Subscription

variable (sub : Subscription)

def streamId : String :=
  let contractId := sub.contractId
  let invoiceId := sub.invoiceId
  s!"contract:{contractId}:invoice:{invoiceId}"

/-- `timerId = setTimeout(poll, backoffMs)`. -/
def arm : Subscription :=
  { sub with timers := sub.timers ++ [some sub.backoffMs], timerId := some sub.timers.length }

def clearTimer : Subscription :=
  match sub.timerId with
  | none => sub
  | some timerId => { sub with timers := sub.timers.set timerId none, timerId := none }

/-- The part of a poll before it first waits. -/
def poll : Subscription :=
  if sub.stopped || sub.paused then if sub.stopped then sub.clearTimer else sub.clearTimer.arm
  else
    let lastLedger := sub.lastLedger.or sub.resumeLedger
    { sub with
      lastLedger
      polls := sub.polls ++ [some (if lastLedger.isNone then .latest else .events)]
      log := sub.log ++ [.polled] }

def pause : Subscription := { sub with paused := true }

def resume : Subscription := { sub with paused := false }.poll

/-- What the handler of `visibilitychange` does, while it is set up. -/
def visibilityChange (hidden : Bool) : Subscription :=
  if sub.listening then if hidden then sub.pause else sub.resume else sub

def unsubscribe : Subscription :=
  { { sub with stopped := true, paused := false }.clearTimer with
    listening := false
    log := sub.log ++ [.unsubscribed] }

/-- The end of a poll, after its `catch`. -/
def endPoll (p : Nat) : Subscription :=
  if !sub.stopped && !sub.paused then { sub with polls := sub.polls.set p none }.arm
  else { sub with polls := sub.polls.set p none }

def call (p : Nat) (stage : Stage) (call : Call) : Subscription :=
  { sub with polls := sub.polls.set p (some stage), log := sub.log ++ [.delivered call] }

end Subscription

/-- What a poll has done when it waits again or has ended. -/
structure Progress where
  sub : Subscription
  seen : Option Deduplicator
  calling : Bool := false
  cursor : Option String := none

/-- The part of a poll after the handler. -/
def finish (sub : Subscription) (p : Nat) (seen : Option Deduplicator) (maxLedger : JsNumber) : Progress :=
  let lastLedger := maxLedger.add (.finite 1)
  { sub := { sub with lastLedger := some lastLedger }.endPoll p, seen, cursor := some (Numbers.toString lastLedger) }

/-- The part of a poll from a round of the loop on, up to the next function that it calls. -/
def proceed (sub : Subscription) (p : Nat) (seen : Option Deduplicator) (batch : Batch) (events : List EventResponse) :
    Progress :=
  match loop sub seen batch events with
  | (seen, .threw) => { sub := sub.endPoll p, seen }
  | (seen, .calls call batch rest) => { sub := sub.call p (.callback batch rest) call, seen, calling := true }
  | (seen, .done batch) =>
      if batch.hasChanges then
        let sub := { sub with backoffMs := sub.initialIntervalMs, unchangedCount := 0 }
        if sub.receiver = .handler ∧ batch.eventsSinceLastPoll ≠ [] then
          { sub := sub.call p (.handler batch.maxLedger) (.handler batch.eventsSinceLastPoll), seen, calling := true }
        else finish sub p seen batch.maxLedger
      else
        let unchangedCount := sub.unchangedCount + 1
        let backoffMs := if unchangedCount ≥ unchangedThreshold then maxBackoffMs else sub.backoffMs
        finish { sub with unchangedCount, backoffMs } p seen batch.maxLedger

end Polls

section Steps

def maxSubscriptions : Nat := 10

structure SubscribeArgs where
  contractId : String
  invoiceId : String
  receiver : Receiver
  intervalMs : JsNumber := .finite 5000
  dedup : Option Nat := none
  deriving DecidableEq

/-- The ledger in a stored cursor, if it is a positive number. -/
def resumeLedger (storedCursor : Option String) : Option JsNumber :=
  (storedCursor.map (fun cursor => parseInt 10 cursor.toList)).filter (fun parsed => JsNumber.lt (.finite 0) parsed)

/-- What happens: a call of `subscribeToInvoice` or of a function that it returned, the page is hidden or shown, a timer fires, a request
is answered or fails, and a function of the subscriber returns or throws. -/
inductive Event
  | subscribe (args : SubscribeArgs)
  | visibilityChange (hidden : Bool)
  | timer (k timerId : Nat)
  | latestLedger (k p : Nat) (answer : Option JsNumber)
  | events (k p : Nat) (answer : Option (List EventResponse))
  | returns (threw : Bool)
  | unsubscribe (k : Nat)
  deriving DecidableEq

namespace Streams

variable (s : Streams)

def subscribeToInvoice (args : SubscribeArgs) : Except TooManySubscriptionsError Streams :=
  if s.subscriptionCount ≥ maxSubscriptions then .error ⟨maxSubscriptions⟩
  else
    let sub : Subscription :=
      { contractId := args.contractId, invoiceId := args.invoiceId, receiver := args.receiver
        initialIntervalMs := args.intervalMs, dedup := args.dedup, resumeLedger := none
        listening := s.documentDefined, backoffMs := args.intervalMs }
    let sub := { sub with resumeLedger := resumeLedger (s.cursors.get? sub.streamId) }
    .ok { s with subscriptionCount := s.subscriptionCount + 1, subscriptions := s.subscriptions ++ [sub.poll] }

def put (k : Nat) (sub : Subscription) : Streams := { s with subscriptions := s.subscriptions.set k sub }

def seenBy (sub : Subscription) : Option Deduplicator := sub.dedup.bind (fun d => s.dedups[d]?)

def settle (k p : Nat) (progress : Progress) : Streams :=
  { s.put k progress.sub with
    dedups := match progress.sub.dedup, progress.seen with
      | some d, some seen => s.dedups.set d seen
      | _, _ => s.dedups
    cursors := match progress.cursor with
      | some cursor => s.cursors.set progress.sub.streamId cursor
      | none => s.cursors
    calling := if progress.calling then some (k, p) else none }

/-- The subscription and the stage of a running poll. -/
def running (k p : Nat) : Option (Subscription × Stage) :=
  s.subscriptions[k]?.bind (fun sub => sub.polls[p]?.join.map (fun stage => (sub, stage)))

/-- A call that fails at once leaves the poll at its end. -/
def answered (k p : Nat) (sub : Subscription) (answer : Option (List EventResponse)) : Streams :=
  match answer with
  | none => s.put k (sub.endPoll p)
  | some events => s.settle k p (proceed sub p (s.seenBy sub) { maxLedger := sub.lastLedger.getD (.finite 0) } events)

def returned (k p : Nat) (threw : Bool) : Option Streams :=
  match s.running k p with
  | some (sub, .callback batch rest) =>
      some (s.settle k p (if threw then { sub := sub.endPoll p, seen := s.seenBy sub }
        else proceed sub p (s.seenBy sub) batch rest))
  | some (sub, .handler maxLedger) =>
      some (s.settle k p (if threw then { sub := sub.endPoll p, seen := s.seenBy sub }
        else finish sub p (s.seenBy sub) maxLedger))
  | _ => none

end Streams

/-- While a function of the subscriber runs, nothing happens but what it does. -/
def step (s : Streams) : Event → Option Streams
  | .subscribe args => some (s.subscribeToInvoice args |>.toOption.getD s)
  | .unsubscribe k => s.subscriptions[k]?.map
      (fun sub => { s.put k sub.unsubscribe with subscriptionCount := s.subscriptionCount - 1 })
  | .returns threw => s.calling.bind (fun call => s.returned call.1 call.2 threw)
  | .visibilityChange hidden =>
      if s.calling = none then some { s with subscriptions := s.subscriptions.map (fun sub => sub.visibilityChange hidden) }
      else none
  | .timer k timerId =>
      if s.calling = none then
        s.subscriptions[k]?.bind (fun sub => sub.timers[timerId]?.join.map
          (fun _ => s.put k { sub with timers := sub.timers.set timerId none }.poll))
      else none
  | .latestLedger k p answer =>
      if s.calling = none then
        match s.running k p, answer with
        | some (sub, .latest), some sequence =>
            some (s.put k { sub with lastLedger := some sequence, polls := sub.polls.set p (some .events) })
        | some (sub, .latest), none => some (s.put k (sub.endPoll p))
        | _, _ => none
      else none
  | .events k p answer =>
      if s.calling = none then
        match s.running k p with
        | some (sub, .events) => some (s.answered k p sub answer)
        | _ => none
      else none

def start (documentDefined : Bool) (cursors : OrdMap String String) (dedups : List Deduplicator) : Streams :=
  { cursors, dedups, documentDefined }

end Steps

end SplitSdk.InvoiceStream
