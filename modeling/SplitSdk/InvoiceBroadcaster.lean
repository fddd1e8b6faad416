import SplitSdk.BucketIndexes

namespace SplitSdk.InvoiceBroadcaster

open BucketIndexes OrderedMap

section Data

inductive DeduplicationEvent
  | accepted (invoiceId nonce : String)
  | duplicate (invoiceId nonce : String)
  deriving DecidableEq

structure DeduplicationOptions where
  enabled : Bool := false
  ttlMs : Int := 60000
  maxEntries : Int := 1000

/-- The handlers of an invoice are held in a `Set` of their own; the map holds where it stands among all sets that were made. -/
structure InvoiceStateBroadcaster (η : Type) where
  options : DeduplicationOptions := {}
  subscribers : OrdMap String Nat := .empty
  sets : List (List η) := []
  seenNonces : OrdMap String Int := .empty

/-- What the function that `subscribe` returns holds on to. -/
structure Unsubscribe (η : Type) where
  invoiceId : String
  handler : η
  handlers : Nat

/-- What a broadcast did, beside its answer: the handlers called, the errors logged and the events emitted. -/
structure Delivery (η : Type) where
  delivered : Bool
  called : List η := []
  errors : List (String × String) := []
  events : List DeduplicationEvent := []

end Data

section Handlers

variable {η : Type} [DecidableEq η]

theorem nodup_add {handlers : List η} (h : handlers.Nodup) (handler : η) : (add handlers handler).Nodup := by
  unfold add
  split_ifs with hmem
  · exact h
  · exact List.nodup_append'.mpr ⟨h, List.nodup_singleton handler, List.disjoint_singleton.mpr hmem⟩

def remove (handlers : List η) (handler : η) : List η := handlers.filter (fun h => h ≠ handler)

theorem mem_remove {handlers : List η} {handler h : η} : h ∈ remove handlers handler ↔ h ∈ handlers ∧ h ≠ handler := by
  simp [remove]

namespace InvoiceStateBroadcaster

variable (b : InvoiceStateBroadcaster η)

def setAt (index : Nat) : List η := b.sets.getD index []

def handlersOf (invoiceId : String) : List η := ((b.subscribers.get? invoiceId).map b.setAt).getD []

def subscribe (invoiceId : String) (handler : η) : InvoiceStateBroadcaster η × Unsubscribe η :=
  match b.subscribers.get? invoiceId with
  | some handlers =>
      ({ b with sets := b.sets.modify handlers (fun set => add set handler) }, ⟨invoiceId, handler, handlers⟩)
  | none =>
      ({ b with subscribers := b.subscribers.set invoiceId b.sets.length, sets := b.sets ++ [add [] handler] },
        ⟨invoiceId, handler, b.sets.length⟩)

/-- The set of the closure is looked at, but it is the entry of the map that goes, whatever set that holds by then. -/
def unsubscribe (closure : Unsubscribe η) : InvoiceStateBroadcaster η :=
  let sets := b.sets.modify closure.handlers (fun set => remove set closure.handler)
  if sets.getD closure.handlers [] = [] then { b with sets, subscribers := b.subscribers.delete closure.invoiceId }
  else { b with sets }

def getSubscriberCount (invoiceId : String) : Nat :=
  match b.subscribers.get? invoiceId with
  | some handlers => (b.setAt handlers).length
  | none => 0

end InvoiceStateBroadcaster

end Handlers

section Nonces

variable {η : Type}

namespace InvoiceStateBroadcaster

variable (b : InvoiceStateBroadcaster η) (now : Int) (nonce : String)

def isDuplicate : Bool × InvoiceStateBroadcaster η :=
  match b.seenNonces.get? nonce with
  | none => (false, b)
  | some seenAt =>
      if now - seenAt ≥ b.options.ttlMs then (false, { b with seenNonces := b.seenNonces.delete nonce })
      else (true, b)

/-- The oldest entries go while there are too many. -/
def recordNonce : InvoiceStateBroadcaster η :=
  let fresh := (b.seenNonces.filter (fun entry => now - entry.2 < b.options.ttlMs)).set nonce now
  let excess := fresh.keys.take (fresh.size - b.options.maxEntries.toNat)
  { b with seenNonces := fresh.filterKeys (fun key => key ∉ excess) }

end InvoiceStateBroadcaster

end Nonces

section Broadcasts

variable {η ι : Type}

/-- Each handler is called, and what it throws is logged. -/
def callAll (react : η → String → ι → Except String Unit) (invoiceId : String) (invoice : ι) (handlers : List η) :
    Delivery η :=
  handlers.foldl (fun delivery handler =>
    let called := delivery.called ++ [handler]
    match react handler invoiceId invoice with
    | .ok () => { delivery with called }
    | .error error =>
        { delivery with called, errors := delivery.errors ++ [(s!"Error in invoice handler for {invoiceId}:", error)] })
    { delivered := true }

theorem called_callAll (react : η → String → ι → Except String Unit) (invoiceId : String) (invoice : ι)
    (handlers : List η) : (callAll react invoiceId invoice handlers).called = handlers := by
  unfold callAll
  induction handlers using List.reverseRecOn with
  | nil => rfl
  | append_singleton handlers handler ih =>
      rw [List.foldl_concat]
      dsimp only
      cases react handler invoiceId invoice <;> exact congrArg (· ++ [handler]) ih

namespace InvoiceStateBroadcaster

variable (b : InvoiceStateBroadcaster η)

def notify (react : η → String → ι → Except String Unit) (invoiceId : String) (invoice : ι) : Delivery η :=
  match b.subscribers.get? invoiceId with
  | none => { delivered := true }
  | some handlers => callAll react invoiceId invoice (b.setAt handlers)

def broadcast (react : η → String → ι → Except String Unit) (now : Int) (invoiceId : String) (invoice : ι)
    (nonce : Option String) : InvoiceStateBroadcaster η × Delivery η :=
  match nonce with
  | none => (b, b.notify react invoiceId invoice)
  | some nonce =>
      if b.options.enabled then
        let (duplicate, b) := b.isDuplicate now nonce
        if duplicate then (b, { delivered := false, events := [.duplicate invoiceId nonce] })
        else (b.recordNonce now nonce,
          { b.notify react invoiceId invoice with events := [.accepted invoiceId nonce] })
      else (b, b.notify react invoiceId invoice)

theorem called_notify (react : η → String → ι → Except String Unit) (invoiceId : String) (invoice : ι) :
    (b.notify react invoiceId invoice).called = b.handlersOf invoiceId := by
  unfold notify handlersOf
  cases b.subscribers.get? invoiceId with
  | none => rfl
  | some handlers => exact called_callAll react invoiceId invoice _

theorem getSubscriberCount_eq (invoiceId : String) : b.getSubscriberCount invoiceId = (b.handlersOf invoiceId).length := by
  unfold getSubscriberCount handlersOf
  cases b.subscribers.get? invoiceId <;> rfl

/-- Broadcasts leave the subscribers as they are. -/
theorem handlers_broadcast (react : η → String → ι → Except String Unit) (now : Int) (invoiceId : String) (invoice : ι)
    (nonce : Option String) :
    (b.broadcast react now invoiceId invoice nonce).1.subscribers = b.subscribers ∧
      (b.broadcast react now invoiceId invoice nonce).1.sets = b.sets := by
  have hduplicate (nonce : String) : (b.isDuplicate now nonce).2.subscribers = b.subscribers ∧
      (b.isDuplicate now nonce).2.sets = b.sets := by
    unfold isDuplicate
    cases b.seenNonces.get? nonce with
    | none => exact ⟨rfl, rfl⟩
    | some seenAt =>
        dsimp only
        split_ifs <;> exact ⟨rfl, rfl⟩
  cases nonce with
  | none => exact ⟨rfl, rfl⟩
  | some nonce =>
      unfold broadcast
      dsimp only
      split_ifs
      · exact hduplicate nonce
      · exact hduplicate nonce
      · exact ⟨rfl, rfl⟩

end InvoiceStateBroadcaster

end Broadcasts

end SplitSdk.InvoiceBroadcaster
