import Mathlib.Data.List.Basic

namespace SplitSdk.OfflineQueue

section Data

inductive ConflictStrategy
  | remoteWins
  | localWins
  | latestLedger
  deriving DecidableEq

inductive InvoiceStatus
  | pending
  | released
  | refunded
  | cancelled
  deriving DecidableEq

def InvoiceStatus.text : InvoiceStatus → String
  | .pending => "Pending"
  | .released => "Released"
  | .refunded => "Refunded"
  | .cancelled => "Cancelled"

variable (A : Type)

structure QueuedOperation where
  id : String
  method : String
  args : List A
  timestamp : Nat
  deriving DecidableEq

structure Queue where
  queue : List (QueuedOperation A) := []
  isDraining : Bool := false
  conflictStrategy : Option ConflictStrategy := none

structure SyncResult where
  synced : Nat := 0
  failed : Nat := 0
  conflicts : Nat := 0
  operations : List (QueuedOperation A)
  deriving DecidableEq

inductive QueueEvent
  | conflictResolved
  | operationFailed
  | drained
  deriving DecidableEq

/-- What `sync` depends on outside the queue: what the client and the listeners of its events do for the operation at
a place of the queue. -/
structure Client where
  /-- The `invoiceId` of an argument, if it has one that is not falsy. -/
  invoiceId : A → Option String
  hasGetInvoice : Bool
  getInvoice : Nat → Except String (Option InvoiceStatus)
  call : Nat → Except String Unit
  /-- What a listener throws. -/
  listener : QueueEvent → Nat → Option String

end Data

section Operations

variable {A : Type} (client : Client A) (strategy : ConflictStrategy)

/-- The operation is a payment whose remote invoice is looked up. -/
def isChecked (op : QueuedOperation A) : Bool :=
  op.method = "pay" && client.hasGetInvoice && (op.args.head?.bind client.invoiceId).isSome

inductive Decision
  | submit (conflict : Bool)
  | drop
  deriving DecidableEq

/-- The check of an operation before its submission. What is thrown in it is caught. -/
def check (i : Nat) (op : QueuedOperation A) : Decision :=
  if isChecked client op then
    match client.getInvoice i with
    | .ok (some status) =>
        if status.text ≠ "pending" then
          if strategy = .remoteWins ∧ client.listener .conflictResolved i = none then .drop else .submit true
        else .submit false
    | _ => .submit false
  else .submit false

/-- The result so far, and the places of the operations that were submitted and dropped, in order. -/
structure Progress (A : Type) where
  result : SyncResult A
  submitted : List Nat := []
  dropped : List Nat := []
  thrown : Option String := none

def Progress.conflict (p : Progress A) (conflict : Bool) : Progress A :=
  if conflict then { p with result := { p.result with conflicts := p.result.conflicts + 1 } } else p

/-- One turn of the loop. -/
def syncOne (p : Progress A) (i : Nat) (op : QueuedOperation A) : Progress A :=
  match check client strategy i op with
  | .drop => { p.conflict true with dropped := p.dropped ++ [i] }
  | .submit conflict =>
      let p := p.conflict conflict
      let p := { p with submitted := p.submitted ++ [i] }
      match client.call i with
      | .ok () => { p with result := { p.result with synced := p.result.synced + 1 } }
      | .error _ =>
          { p with
            result := { p.result with failed := p.result.failed + 1 }
            thrown := client.listener .operationFailed i }

/-- The loop over the operations from place `i` on, until something is thrown out of it. -/
def syncFrom (i : Nat) : List (QueuedOperation A) → Progress A → Progress A
  | [], p => p
  | op :: ops, p =>
      let p := syncOne client strategy p i op
      if p.thrown.isSome then p else syncFrom (i + 1) ops p

structure Outcome (A : Type) where
  returned : Except String (SyncResult A)
  queue : Queue A
  submitted : List Nat
  dropped : List Nat

def strategyOf (s : Queue A) (conflictStrategy : Option ConflictStrategy) : ConflictStrategy :=
  (conflictStrategy.or s.conflictStrategy).getD .remoteWins

def sync (s : Queue A) (conflictStrategy : Option ConflictStrategy) : Outcome A :=
  if s.isDraining ∨ s.queue.length = 0 then
    { returned := .ok { operations := [] }, queue := s, submitted := [], dropped := [] }
  else
    let p := syncFrom client (strategyOf s conflictStrategy) 0 s.queue { result := { operations := s.queue } }
    match p.thrown.or (client.listener .drained s.queue.length) with
    | some error =>
        { returned := .error error
          queue := { s with queue := [], isDraining := true }
          submitted := p.submitted
          dropped := p.dropped }
    | none =>
        { returned := .ok p.result
          queue := { s with queue := [], isDraining := false }
          submitted := p.submitted
          dropped := p.dropped }

end Operations

end SplitSdk.OfflineQueue
