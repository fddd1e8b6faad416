import SplitSdk.Interleaving
import SplitSdk.Numbers

namespace SplitSdk.HorizonStream

open Numbers

section Data

structure HorizonStreamRecord where
  paging_token : String
  created_at : Option String := none

structure HorizonStreamManagerConfig where
  replayCutoffMs : JsNumber := .finite 300000
  dedupeBufferSize : JsNumber := .finite 256
  reconnectDelayMs : JsNumber := .finite 1000
  maxReconnectAttempts : JsNumber := .infinity false

def MAX_RECONNECT_DELAY_MS : ℚ := 30000

inductive StreamEvent
  | reconnected (cursor : Option String)
  | reconnecting (attempt : Nat) (delayMs : JsNumber)
  | lag
  | cursor_advanced (cursor : String)
  | reconnect_failed (attempts : Nat)

/-- The open stream is the number of the record that it brings next. -/
structure HorizonStreamManager where
  cursorStore : Option String := none
  cursor : Option String := none
  stream : Option Nat := none
  reconnectTimer : Option JsNumber := none
  stopped : Bool := true
  reconnectAttempts : Nat := 0
  seenTokens : List String := []
  seenSet : List String := []
  emitted : List StreamEvent := []

/-- The records of an account, in the order of their paging tokens. -/
structure History (position : String → Nat) where
  records : List HorizonStreamRecord
  increasing : records.Pairwise (fun r s => position r.paging_token < position s.paging_token)
  named : ∀ record ∈ records, record.paging_token ≠ ""

end Data

section Manager

variable {position : String → Nat} (dateParse : String → JsNumber) (config : HorizonStreamManagerConfig)
variable (history : History position) (m : HorizonStreamManager)

def emit (event : StreamEvent) : HorizonStreamManager := { m with emitted := m.emitted ++ [event] }

/-- Horizon streams the records after the cursor, and all of them without one. -/
def resumeAt : Option String → Nat
  | none => 0
  | some cursor => history.records.findIdx (fun record => position cursor < position record.paging_token)

def connect (isReconnect : Bool) : HorizonStreamManager :=
  if m.stopped then m
  else
    let m := { m with stream := some (resumeAt history m.cursor) }
    if isReconnect then emit { m with reconnectAttempts := 0 } (.reconnected m.cursor) else m

def stop : HorizonStreamManager := { m with stopped := true, reconnectTimer := none, stream := none }

/-- A manager that has just been made starts on a store. -/
def start (cursorStore : Option String) : HorizonStreamManager :=
  connect history { cursorStore, cursor := cursorStore, stopped := false } false

def persistCursor : HorizonStreamManager :=
  match m.cursor with
  | none => m
  | some cursor => { m with cursorStore := some cursor }

def isStale (now : JsNumber) (record : HorizonStreamRecord) : Bool :=
  match record.created_at with
  | none => false
  | some created_at =>
      let createdAtMs := dateParse created_at
      if createdAtMs = .nan then false else config.replayCutoffMs.lt (now.sub createdAtMs)

def remember (token : String) : HorizonStreamManager :=
  let seenSet := m.seenSet ++ [token]
  let seenTokens := m.seenTokens ++ [token]
  if config.dedupeBufferSize.lt (.finite seenTokens.length) then
    { m with
      seenTokens := seenTokens.tail
      seenSet := seenSet.filter (fun seen => seenTokens.head? ≠ some seen) }
  else { m with seenTokens, seenSet }

def isNew (token : String) : Bool := token ≠ "" && !m.seenSet.contains token

def onMessage (now : JsNumber) (record : HorizonStreamRecord) : HorizonStreamManager :=
  let token := record.paging_token
  if isNew m token then
    let m := remember config m token
    if isStale dateParse config now record then m
    else emit (persistCursor { m with cursor := some token }) (.cursor_advanced token)
  else m

/-- The message reaches the handler. -/
def reaches (now : JsNumber) (record : HorizonStreamRecord) : Bool :=
  isNew m record.paging_token && !isStale dateParse config now record

def mathMin (x y : JsNumber) : JsNumber := if x = .nan ∨ y = .nan then .nan else if x.lt y then x else y

def delayMs (reconnectAttempts : Nat) : JsNumber :=
  mathMin (config.reconnectDelayMs.mul (fl (2 ^ (reconnectAttempts - 1)))) (.finite MAX_RECONNECT_DELAY_MS)

def onError : HorizonStreamManager :=
  if m.stopped then m
  else
    let m := emit { m with stream := none } .lag
    let m := { m with reconnectAttempts := m.reconnectAttempts + 1 }
    if config.maxReconnectAttempts.lt (.finite m.reconnectAttempts) then emit m (.reconnect_failed m.reconnectAttempts)
    else
      let delayMs := delayMs config m.reconnectAttempts
      { emit m (.reconnecting m.reconnectAttempts delayMs) with reconnectTimer := some delayMs }

end Manager

section Runs

variable {position : String → Nat} (dateParse : String → JsNumber) (config : HorizonStreamManagerConfig)
variable (history : History position)

/-- A message is the next record of the stream or one that came before. It does not return when a listener or the handler throws, or
when the process ends before they are through. -/
inductive Event
  | restart
  | message (i : Nat) (now : JsNumber) (returns : Bool)
  | error
  | reconnect
  | stop

/-- A manager, the tokens whose handler has returned, those found stale, and those that arrived since the start, each with whether
it went to the handler. -/
structure Session where
  manager : HorizonStreamManager := {}
  handled : List String := []
  outdated : List String := []
  arrivals : List (String × Bool) := []

def receive (now : JsNumber) (returns : Bool) (record : HorizonStreamRecord) (s : Session) : Session :=
  let token := record.paging_token
  let reached := reaches dateParse config s.manager now record
  { manager := onMessage dateParse config s.manager now record
    handled := if reached && returns then s.handled ++ [token] else s.handled
    outdated := if isNew s.manager token && !reached then s.outdated ++ [token] else s.outdated
    arrivals := s.arrivals ++ [(token, reached)] }

def step (s : Session) : Event → Option Session
  | .restart => some { s with manager := start history s.manager.cursorStore, arrivals := [] }
  | .message i now returns =>
      match s.manager.stream, history.records[i]? with
      | some next, some record =>
          if i ≤ next then
            some (receive dateParse config now returns record { s with manager.stream := some (max next (i + 1)) })
          else none
      | _, _ => none
  | .error => if s.manager.stream.isSome then some { s with manager := onError config s.manager } else none
  | .reconnect =>
      if s.manager.reconnectTimer.isSome then
        some { s with manager := connect history { s.manager with reconnectTimer := none } true }
      else none
  | .stop => some { s with manager := stop s.manager }

end Runs

end SplitSdk.HorizonStream
