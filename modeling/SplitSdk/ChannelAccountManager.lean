import Mathlib.Data.List.Nodup
import SplitSdk.Interleaving
import SplitSdk.Numbers

namespace SplitSdk.ChannelAccountManager

open Numbers

section Data

structure ChannelAccount where
  publicKey : String
  secretKey : String
  deriving DecidableEq

structure PoolSlot where
  account : ChannelAccount
  inUse : Bool := false
  lowBalance : Bool := false
  deriving DecidableEq

structure ChannelExhaustedError where
  poolSize : Nat
  timeoutMs : JsNumber
  deriving DecidableEq

def ChannelExhaustedError.message (e : ChannelExhaustedError) : String :=
  s!"All {e.poolSize} channel account" ++ (if e.poolSize = 1 then "" else "s") ++
    s!" are in use and the acquire timeout of {Numbers.toString e.timeoutMs}ms elapsed"

/-- Where a call of `acquire` is. A refresh waits for the balances of its pending slots. -/
inductive Acquire
  | refreshing (pending : List Nat)
  | loading (slot : Nat)
  | assigned (slot : Nat) (sequenceNumber : String) (released : Bool)
  | waiting
  | rejected (error : ChannelExhaustedError)
  deriving DecidableEq

/-- A waiter is the place of its call in `acquires`. -/
structure Manager where
  minBalanceXlm : JsNumber
  acquireTimeoutMs : JsNumber
  slots : List PoolSlot
  waiters : List Nat := []
  acquires : List Acquire := []

end Data

section Operations

/-- The constructor. -/
def create (accounts : List ChannelAccount) (minBalanceXlm acquireTimeoutMs : Option JsNumber) :
    Except String Manager :=
  if accounts.isEmpty then .error "ChannelAccountManager requires at least one account."
  else .ok {
    minBalanceXlm := minBalanceXlm.getD (.finite 1)
    acquireTimeoutMs := acquireTimeoutMs.getD (.finite 10000)
    slots := accounts.map (fun account => { account }) }

def available (slot : PoolSlot) : Bool := !slot.inUse && !slot.lowBalance

variable (s : Manager)

def getLowBalanceAccounts : List ChannelAccount :=
  (s.slots.filter PoolSlot.lowBalance).map PoolSlot.account

def inUseCount : Nat := s.slots.countP PoolSlot.inUse

def availableCount : Nat := s.slots.countP available

def findAvailableSlot : Option Nat := s.slots.findIdx? available

def setInUse (slot : Nat) (inUse : Bool) : Manager :=
  { s with slots := s.slots.modify slot (fun slot => { slot with inUse }) }

def moveTo (k : Nat) (acquire : Acquire) : Manager := { s with acquires := s.acquires.set k acquire }

/-- `_assignSlot` up to its `await`. -/
def assignSlot (k slot : Nat) : Manager := moveTo (setInUse s slot true) k (.loading slot)

/-- The callback of a waiter, which does nothing when it is settled. -/
def wake (k slot : Nat) : Manager := if s.acquires[k]? = some .waiting then assignSlot s k slot else s

def notifyWaiters : Manager :=
  match s.waiters with
  | [] => s
  | waiter :: waiters =>
      match findAvailableSlot s with
      | none => s
      | some slot => wake { s with waiters } waiter slot

def acquire : Manager := { s with acquires := s.acquires ++ [.refreshing (List.range s.slots.length)] }

/-- One balance of `_refreshBalances` comes in. Without one the mark stays as it is. -/
def refreshed (k slot : Nat) (pending : List Nat) (xlm : Option JsNumber) : Manager :=
  { moveTo s k (.refreshing (pending.erase slot)) with
    slots := match xlm with
      | some xlm => s.slots.modify slot (fun slot => { slot with lowBalance := xlm.lt s.minBalanceXlm })
      | none => s.slots }

/-- The rest of `acquire`, after the refresh. -/
def resume (k : Nat) : Manager :=
  match findAvailableSlot s with
  | some slot => assignSlot s k slot
  | none => { moveTo s k .waiting with waiters := s.waiters ++ [k] }

/-- The rest of `_assignSlot`. The sequence number is "0" when it cannot be loaded. -/
def loaded (k slot : Nat) (sequenceNumber : Option String) : Manager :=
  moveTo s k (.assigned slot (sequenceNumber.getD "0") false)

def release (k slot : Nat) (sequenceNumber : String) : Manager :=
  notifyWaiters (setInUse (moveTo s k (.assigned slot sequenceNumber true)) slot false)

def timeout (k : Nat) : Manager :=
  { moveTo s k (.rejected ⟨s.slots.length, s.acquireTimeoutMs⟩) with waiters := s.waiters.erase k }

end Operations

section Runs

inductive Event
  | acquire
  /-- A balance for a slot, or none when it could not be read. -/
  | refreshed (k slot : Nat) (xlm : Option JsNumber)
  | resume (k : Nat)
  | loaded (k : Nat) (sequenceNumber : Option String)
  | release (k : Nat)
  | timeout (k : Nat)

def step (s : Manager) : Event → Option Manager
  | .acquire => some (acquire s)
  | .refreshed k slot xlm =>
      match s.acquires[k]? with
      | some (.refreshing pending) => if slot ∈ pending then some (refreshed s k slot pending xlm) else none
      | _ => none
  | .resume k =>
      match s.acquires[k]? with
      | some (.refreshing []) => some (resume s k)
      | _ => none
  | .loaded k sequenceNumber =>
      match s.acquires[k]? with
      | some (.loading slot) => some (loaded s k slot sequenceNumber)
      | _ => none
  | .release k =>
      match s.acquires[k]? with
      | some (.assigned slot sequenceNumber released) =>
          if released then some s else some (release s k slot sequenceNumber)
      | _ => none
  | .timeout k =>
      match s.acquires[k]? with
      | some .waiting => if (JsNumber.finite 0).lt s.acquireTimeoutMs then some (timeout s k) else none
      | _ => none

end Runs

section Steps

variable {s t : Manager}

/-- What an event does to the call that it is about. -/
inductive Moves (s : Manager) : Event → Manager → Prop
  | acquire : Moves s .acquire (acquire s)
  | refreshed {k pending} (slot xlm) (hk : s.acquires[k]? = some (.refreshing pending)) :
      Moves s (.refreshed k slot xlm) (refreshed s k slot pending xlm)
  | resume {k} (hk : s.acquires[k]? = some (.refreshing [])) : Moves s (.resume k) (resume s k)
  | loaded {k slot} (sequenceNumber) (hk : s.acquires[k]? = some (.loading slot)) :
      Moves s (.loaded k sequenceNumber) (loaded s k slot sequenceNumber)
  | release {k slot sequenceNumber} (hk : s.acquires[k]? = some (.assigned slot sequenceNumber false)) :
      Moves s (.release k) (release s k slot sequenceNumber)
  | releasedAgain (k) : Moves s (.release k) s
  | timeout {k} (hk : s.acquires[k]? = some .waiting) : Moves s (.timeout k) (timeout s k)

theorem moves_of_step {e : Event} (h : step s e = some t) : Moves s e t := by
  cases e with
  | acquire =>
      obtain rfl := Option.some.inj h
      exact .acquire
  | refreshed k slot xlm =>
      rw [step] at h
      split at h
      · rename_i pending hk
        split at h
        · obtain rfl := Option.some.inj h
          exact .refreshed slot xlm hk
        · nomatch h
      · nomatch h
  | resume k =>
      rw [step] at h
      split at h
      · rename_i hk
        obtain rfl := Option.some.inj h
        exact .resume hk
      · nomatch h
  | loaded k sequenceNumber =>
      rw [step] at h
      split at h
      · rename_i slot hk
        obtain rfl := Option.some.inj h
        exact .loaded sequenceNumber hk
      · nomatch h
  | release k =>
      rw [step] at h
      split at h
      · rename_i slot sequenceNumber released hk
        cases released with
        | true =>
            obtain rfl := Option.some.inj h
            exact .releasedAgain k
        | false =>
            obtain rfl := Option.some.inj h
            exact .release hk
      · nomatch h
  | timeout k =>
      rw [step] at h
      split at h
      · rename_i hk
        split at h
        · obtain rfl := Option.some.inj h
          exact .timeout hk
        · nomatch h
      · nomatch h

end Steps

section Slots

variable {s : Manager}

theorem findAvailableSlot_eq_some {slot : Nat} (h : findAvailableSlot s = some slot) :
    ∃ held, s.slots[slot]? = some held ∧ available held := by
  obtain ⟨hlt, havailable, -⟩ := List.findIdx?_eq_some_iff_getElem.mp h
  exact ⟨_, List.getElem?_eq_getElem hlt, havailable⟩

theorem not_available_of_none (h : findAvailableSlot s = none) :
    ∀ slot ∈ s.slots, available slot = false :=
  List.findIdx?_eq_none_iff.mp h

theorem modify_eq_set {slots : List PoolSlot} {i : Nat} {slot : PoolSlot}
    (h : slots[i]? = some slot) (f : PoolSlot → PoolSlot) :
    slots.modify i f = slots.set i (f slot) := by
  rw [List.modify_eq_set_getElem?, h]
  rfl

/-- The slot that is given away was available and is in use afterwards. -/
theorem assignSlot_slots {k slot : Nat} (h : findAvailableSlot s = some slot) :
    ∃ held, s.slots[slot]? = some held ∧ available held ∧
      (assignSlot s k slot).slots = s.slots.set slot { held with inUse := true } := by
  obtain ⟨held, hslot, havailable⟩ := findAvailableSlot_eq_some h
  exact ⟨held, hslot, havailable, modify_eq_set hslot _⟩

theorem refreshed_slots (s : Manager) (k slot : Nat) (pending : List Nat) (xlm : Option JsNumber) :
    ∃ low : Bool → Bool, (refreshed s k slot pending xlm).slots =
        s.slots.modify slot (fun held => { held with lowBalance := low held.lowBalance }) ∧
      ∀ before, low before = (xlm.map (fun xlm => xlm.lt s.minBalanceXlm)).getD before := by
  cases xlm with
  | some xlm => exact ⟨fun _ => xlm.lt s.minBalanceXlm, rfl, fun _ => rfl⟩
  | none => exact ⟨id, (List.modify_id slot s.slots).symm, fun _ => rfl⟩

/-- No event gives a slot another account. -/
theorem step_accounts {t : Manager} {e : Event} (h : step s e = some t) :
    t.slots.map PoolSlot.account = s.slots.map PoolSlot.account := by
  have hset (s : Manager) (slot : Nat) (inUse : Bool) :
    (setInUse s slot inUse).slots.map PoolSlot.account = s.slots.map PoolSlot.account := by
    refine Interleaving.map_modify PoolSlot.account _ ?_ s.slots slot
    exact fun _ => rfl
  cases moves_of_step h with
  | acquire | loaded | releasedAgain | timeout => rfl
  | refreshed slot xlm hk =>
      obtain ⟨low, heq, -⟩ := refreshed_slots s _ slot _ xlm
      rw [heq]
      refine Interleaving.map_modify PoolSlot.account _ ?_ s.slots slot
      exact fun _ => rfl
  | resume hk =>
      unfold resume
      split
      · exact hset s _ true
      · rfl
  | release hk =>
      unfold release notifyWaiters
      split
      · exact hset _ _ false
      · split
        · exact hset _ _ false
        · unfold wake
          split
          · exact (hset _ _ true).trans (hset _ _ false)
          · exact hset _ _ false

end Slots

end SplitSdk.ChannelAccountManager
