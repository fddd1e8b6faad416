import Mathlib.Data.List.Basic

namespace SplitSdk.ContractEventSubscriber

section Data

/-- An event as the server sends it, with values of type `ρ`. The contract and the paging token are looked up under two names each. -/
structure RawEvent (ρ : Type) where
  id : String
  ledger : Nat
  contractId : Option String
  contract_id : Option String := none
  topic : Option (List ρ)
  value : ρ
  pagingToken : Option String
  paging_token : Option String := none

structure ParsedContractEvent (δ : Type) where
  ledger : Nat
  contractId : String
  topics : List δ
  data : δ
  id : String
  pagingToken : String

def parseEvent {ρ δ : Type} (decodeScVal : ρ → δ) (raw : RawEvent ρ) : ParsedContractEvent δ where
  id := raw.id
  ledger := raw.ledger
  contractId := (raw.contractId.or raw.contract_id).getD ""
  topics := (raw.topic.getD []).map decodeScVal
  data := decodeScVal raw.value
  pagingToken := (raw.pagingToken.or raw.paging_token).getD ""

/-- Where a loop waits: for the cursor, for a page, at a `yield` with the rest of the batch, for the cursor to be saved, or for the next
poll. -/
inductive Phase (δ : Type)
  | loading
  | polling
  | suspended (event : ParsedContractEvent δ) (rest : List (ParsedContractEvent δ))
  | saving
  | sleeping
  | done

/-- One call of `subscribe`, with the ledger that it started after and all that it has yielded. -/
structure Loop (δ : Type) where
  subscriber : Nat
  start : Nat := 0
  lastLedger : Nat := 0
  phase : Phase δ := .loading
  yielded : List (ParsedContractEvent δ) := []

/-- Subscribers by their flags `_stopped`, their loops, the cursor in the store and the history of the network. `origin` is the ledger after
which the first loop starts. -/
structure Feed (ρ δ : Type) where
  origin : Nat
  stopped : List Bool := []
  loops : List (Loop δ) := []
  cursor : Option Nat
  history : List (RawEvent ρ) := []

end Data

section Polls

variable {ρ δ : Type} (decodeScVal : ρ → δ) (matching : RawEvent ρ → Bool) (limit : Nat)

/-- All events that a request asks for. -/
def asked (history : List (RawEvent ρ)) (startLedger : Nat) : List (RawEvent ρ) :=
  history.filter (fun event => matching event && decide (startLedger ≤ event.ledger))

/-- The answer of the server is the first page of them. -/
def getEvents (history : List (RawEvent ρ)) (startLedger : Nat) : List (RawEvent ρ) :=
  (asked matching history startLedger).take limit

/-- `lastLedger === 0 ? 0 : lastLedger + 1`. -/
def startAfter (lastLedger : Nat) : Nat := if lastLedger = 0 then 0 else lastLedger + 1

/-- `_poll`, which finds nothing when its request fails. -/
def poll (history : List (RawEvent ρ)) (lastLedger : Nat) (success : Bool) : List (ParsedContractEvent δ) :=
  if success then
    ((getEvents matching limit history (startAfter lastLedger)).filter (fun event => lastLedger < event.ledger)).map
      (parseEvent decodeScVal)
  else []

end Polls

section Loops

variable {δ : Type} (stopped : Bool) (loop : Loop δ)

/-- The rounds of the inner loop up to its next `yield`. -/
def resume : List (ParsedContractEvent δ) → Loop δ
  | [] => { loop with phase := .saving }
  | event :: rest =>
      if stopped then { loop with phase := .done }
      else { loop with phase := .suspended event rest, yielded := loop.yielded ++ [event] }

/-- The test of the outer loop. -/
def again : Loop δ := { loop with phase := if stopped then .done else .polling }

end Loops

section Steps

variable {ρ δ : Type} (decodeScVal : ρ → δ) (matching : RawEvent ρ → Bool) (limit startLedger : Nat)

/-- What happens: a subscriber is made, a loop of it begins or it is told to stop; the network has a new event; the store or the server
answers a loop; the consumer asks for the next event or leaves; a loop wakes up. -/
inductive Event (ρ : Type)
  | create
  | subscribe (subscriber : Nat)
  | unsubscribe (subscriber : Nat)
  | append (event : RawEvent ρ)
  | loaded (k : Nat) (success : Bool)
  | answered (k : Nat) (success : Bool)
  | next (k : Nat)
  | leave (k : Nat)
  | saved (k : Nat) (success : Bool)
  | woke (k : Nat)

namespace Feed

variable (s : Feed ρ δ)

def isStopped (loop : Loop δ) : Bool := s.stopped.getD loop.subscriber false

def put (k : Nat) (loop : Loop δ) : Feed ρ δ := { s with loops := s.loops.set k loop }

end Feed

/-- One step of a loop from the phase that it waits in: its next state, and the cursor that it has saved. -/
def advance (s : Feed ρ δ) (loop : Loop δ) : Event ρ → Option (Loop δ × Option Nat)
  | .loaded _ success =>
      match loop.phase with
      | .loading =>
          let persisted := s.cursor.getD startLedger
          some (if success then again (s.isStopped loop) { loop with start := persisted, lastLedger := persisted }
            else { loop with phase := .done }, none)
      | _ => none
  | .answered _ success =>
      match loop.phase with
      | .polling =>
          some (resume (s.isStopped loop) loop (poll decodeScVal matching limit s.history loop.lastLedger success), none)
      | _ => none
  | .next _ =>
      match loop.phase with
      | .suspended event rest =>
          let lastLedger := if event.ledger > loop.lastLedger then event.ledger else loop.lastLedger
          some (resume (s.isStopped loop) { loop with lastLedger } rest, none)
      | _ => none
  | .leave _ =>
      match loop.phase with
      | .suspended _ _ => some ({ loop with phase := .done }, none)
      | _ => none
  | .saved _ success =>
      match loop.phase with
      | .saving =>
          if success then
            some ({ loop with phase := if s.isStopped loop then .done else .sleeping }, some loop.lastLedger)
          else some ({ loop with phase := .done }, none)
      | _ => none
  | .woke _ =>
      match loop.phase with
      | .sleeping => some (again (s.isStopped loop) loop, none)
      | _ => none
  | _ => none

/-- The loop that an event is about. -/
def Event.loop? : Event ρ → Option Nat
  | .loaded k _ | .answered k _ | .next k | .leave k | .saved k _ | .woke k => some k
  | _ => none

/-- The history only grows, in the order of the ledgers, and each event has an id of its own. -/
def step (s : Feed ρ δ) (e : Event ρ) : Option (Feed ρ δ) :=
  match e with
  | .create => some { s with stopped := s.stopped ++ [false] }
  | .subscribe subscriber =>
      if subscriber < s.stopped.length then
        some { s with stopped := s.stopped.set subscriber false, loops := s.loops ++ [{ subscriber }] }
      else none
  | .unsubscribe subscriber =>
      if subscriber < s.stopped.length then some { s with stopped := s.stopped.set subscriber true } else none
  | .append event =>
      if event.id ∉ s.history.map RawEvent.id ∧ ∀ old ∈ s.history, old.ledger ≤ event.ledger then
        some { s with history := s.history ++ [event] }
      else none
  | e => do
      let k ← e.loop?
      let loop ← s.loops[k]?
      let (loop, saved) ← advance decodeScVal matching limit startLedger s loop e
      some { s.put k loop with cursor := saved.or s.cursor }

def start (cursor : Option Nat) : Feed ρ δ where
  origin := cursor.getD startLedger
  cursor := cursor

end Steps

end SplitSdk.ContractEventSubscriber
