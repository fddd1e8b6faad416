import SplitSdk.InvoiceEvents
import SplitSdk.PlatformTimers

namespace SplitSdk.InvoiceSubscription

open InvoiceEvents Numbers PlatformTimers

section Data

/-- The options spread over the defaults. -/
structure SubscriptionConfig where
  pollIntervalMs : JsNumber := .finite 3000
  maxRetries : JsNumber := .finite 5
  initialBackoffMs : JsNumber := .finite 1000
  maxBackoffMs : JsNumber := .finite 30000
  backoffMultiplier : JsNumber := .finite 2

/-- What a timer was set for. -/
inductive Wakeup
  | poll
  | reconnect
  deriving DecidableEq

/-- Where a poll waits. -/
inductive Position
  | latestLedger
  | events (startLedger : Nat)
  | returned
  deriving DecidableEq

/-- A subscription with the platform's timers. `cursor` is the persisted cursor, and `handed` are the
events that the callback was called with, each with the event of the contract it was made from. The ids
in `returned` are those of all events in the answers to the polls, and in `settled` of the events in
those answers that a poll went through to the end. -/
structure SubscriptionState where
  stopped : Bool
  paused : Bool := false
  lastLedger : Option Nat
  retryCount : Nat := 0
  seenEventKeys : List String := []
  pollTimer : Option Nat := none
  reconnectTimer : Option Nat := none
  backoffMs : JsNumber
  pendingCallback : Bool := false
  timers : Timers Wakeup := []
  now : ℚ
  polls : List Position := []
  cursor : Option Nat
  handed : List (EventResponse × InvoiceEvent) := []
  returned : List String := []
  settled : List String := []

inductive Command
  | pause
  | resume
  | unsubscribe

/-- What the callback does with an event. -/
structure Reaction where
  commands : List Command := []
  throws : Bool := false

/-- What the loop over the events of an answer has collected. -/
structure Collected where
  maxLedger : Nat
  seenEventKeys : List String
  newEvents : List (EventResponse × InvoiceEvent)

end Data

section Operations

/-- `Math.min(x, y)`. -/
def mathMin (x y : JsNumber) : JsNumber := if x = .nan ∨ y = .nan then .nan else if x.lt y then x else y

def maxConcurrentSubscriptions : Nat := 10

def clearTimers (s : SubscriptionState) : SubscriptionState :=
  { s with
    timers := ([s.pollTimer, s.reconnectTimer].filterMap id).foldl clearTimeout s.timers
    pollTimer := none
    reconnectTimer := none }

/-- `poll` up to its first `await`. -/
def poll (s : SubscriptionState) : SubscriptionState :=
  if s.stopped ∨ s.paused ∨ s.pendingCallback then s
  else { s with polls := s.polls ++ [s.lastLedger.elim .latestLedger .events] }

/-- A subscription that is created next to `active` others. -/
def createInvoiceSubscription (config : SubscriptionConfig) (active : Nat) (storedCursor : Option Nat) (now : ℚ) :
    SubscriptionState :=
  poll
    { stopped := maxConcurrentSubscriptions ≤ active
      lastLedger := storedCursor.filter (0 < ·)
      backoffMs := config.initialBackoffMs
      now := now
      cursor := storedCursor }

/-- The listener of the lifecycle events may throw, too. -/
def scheduleReconnect (config : SubscriptionConfig) (listenerThrows : Bool) (s : SubscriptionState) :
    SubscriptionState :=
  if s.stopped then s
  else
    let s := { s with retryCount := s.retryCount + 1 }
    if listenerThrows then s
    else if config.maxRetries.lt (.finite s.retryCount) then clearTimers { s with stopped := true }
    else
      let delay := mathMin s.backoffMs config.maxBackoffMs
      { s with timers := setTimeout s.timers s.now .reconnect delay, reconnectTimer := some s.timers.length }

def command (s : SubscriptionState) : Command → SubscriptionState
  | .pause => clearTimers { s with paused := true }
  | .resume => if s.stopped then s else poll { s with paused := false }
  | .unsubscribe => if s.stopped then s else clearTimers { s with stopped := true }

/-- The loop over the events of an answer; an event that cannot be parsed ends it. -/
def collect (invoiceId : String) (seconds : Int) : Collected → List EventResponse → Collected × Bool
  | c, [] => (c, true)
  | c, event :: events =>
      let c := { c with maxLedger := max c.maxLedger event.ledger }
      let eventKey := computeEventKey event
      if eventKey ∈ c.seenEventKeys then collect invoiceId seconds c events
      else
        let c := { c with seenEventKeys := eventKey :: c.seenEventKeys }
        match parseInvoiceEvent event seconds with
        | .error _ => (c, false)
        | .ok none => collect invoiceId seconds c events
        | .ok (some invoiceEvent) =>
            if invoiceEvent.invoiceId ≠ invoiceId then collect invoiceId seconds c events
            else collect invoiceId seconds { c with newEvents := c.newEvents ++ [(event, invoiceEvent)] } events

/-- The loop that calls the callback; an exception of the callback ends it. -/
def deliver (callback : InvoiceEvent → Reaction) :
    SubscriptionState → List (EventResponse × InvoiceEvent) → SubscriptionState × Bool
  | s, [] => (s, true)
  | s, event :: events =>
      let reaction := callback event.2
      let s := reaction.commands.foldl command { s with pendingCallback := true, handed := s.handed ++ [event] }
      let s := { s with pendingCallback := false }
      if reaction.throws then (s, false) else deliver callback s events

/-- The end of a poll that has succeeded. -/
def scheduleNextPoll (config : SubscriptionConfig) (s : SubscriptionState) : SubscriptionState :=
  if s.stopped ∨ s.paused then s
  else { s with timers := setTimeout s.timers s.now .poll config.pollIntervalMs, pollTimer := some s.timers.length }

/-- How the environment takes part in an answer: what the callback and the listener of the lifecycle events do. -/
structure Environment where
  callback : InvoiceEvent → Reaction := fun _ => {}
  listenerThrows : Bool := false

/-- The end of a poll that has new events. The cursor is persisted first. -/
def handOver (config : SubscriptionConfig) (environment : Environment) (s : SubscriptionState)
    (newEvents : List (EventResponse × InvoiceEvent)) : SubscriptionState :=
  let s := { s with retryCount := 0, backoffMs := config.initialBackoffMs, cursor := s.lastLedger }
  match deliver environment.callback s newEvents with
  | (s, true) => scheduleNextPoll config s
  | (s, false) => scheduleReconnect config environment.listenerThrows s

/-- What a poll collects from an answer. The contract's events are given by their ids. -/
def collected (contract : String → EventResponse) (invoiceId : String) (s : SubscriptionState) (ids : List String) :
    Collected × Bool :=
  collect invoiceId (s.now / 1000).floor
    { maxLedger := s.lastLedger.getD 0, seenEventKeys := s.seenEventKeys, newEvents := [] } (ids.map contract)

/-- The poll from the answer of `getEvents`. -/
def received (config : SubscriptionConfig) (contract : String → EventResponse) (invoiceId : String)
    (s : SubscriptionState) (ids : List String) (environment : Environment) : SubscriptionState :=
  let batch := collected contract invoiceId s ids
  let s := { s with returned := s.returned ++ ids }
  match batch with
  | (c, false) => scheduleReconnect config environment.listenerThrows { s with seenEventKeys := c.seenEventKeys }
  | (c, true) =>
      let s := { s with
        seenEventKeys := c.seenEventKeys
        lastLedger := some (c.maxLedger + 1)
        settled := s.settled ++ ids }
      if c.newEvents.isEmpty then scheduleNextPoll config s
      else handOver config environment s c.newEvents

/-- What happens next. An answer is `none` when the call rejects. -/
inductive Event
  | elapse (ms : ℚ)
  | fire (handle : Nat)
  | latestLedger (poll : Nat) (sequence : Option Nat) (listenerThrows : Bool)
  | events (poll : Nat) (ids : Option (List String)) (environment : Environment)
  | command (command : Command)

def wakeUp (config : SubscriptionConfig) (s : SubscriptionState) : Wakeup → SubscriptionState
  | .poll => poll s
  | .reconnect => poll { s with backoffMs := mathMin (s.backoffMs.mul config.backoffMultiplier) config.maxBackoffMs }

def step (config : SubscriptionConfig) (contract : String → EventResponse) (invoiceId : String)
    (s : SubscriptionState) : Event → Option SubscriptionState
  | .elapse ms => if 0 ≤ ms then some { s with now := s.now + ms } else none
  | .fire handle => (fire s.timers s.now handle).map (fun fired => wakeUp config { s with timers := fired.2 } fired.1)
  | .latestLedger k sequence listenerThrows =>
      match s.polls[k]?, sequence with
      | some .latestLedger, some sequence =>
          some { s with lastLedger := some sequence, polls := s.polls.set k (.events sequence) }
      | some .latestLedger, none =>
          some (scheduleReconnect config listenerThrows { s with polls := s.polls.set k .returned })
      | _, _ => none
  | .events k ids environment =>
      match s.polls[k]?, ids with
      | some (.events _), some ids =>
          some (received config contract invoiceId { s with polls := s.polls.set k .returned } ids environment)
      | some (.events _), none =>
          some (scheduleReconnect config environment.listenerThrows { s with polls := s.polls.set k .returned })
      | _, _ => none
  | .command c => some (command s c)

end Operations

end SplitSdk.InvoiceSubscription
