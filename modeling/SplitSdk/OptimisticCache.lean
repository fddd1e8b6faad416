import Mathlib.Data.Finset.Basic
import SplitSdk.SimpleCache

namespace SplitSdk.OptimisticCache

open Numbers OrderedMap

section Data

variable (V : Type)

/-- How a prediction was settled; the source only keeps that it was. -/
inductive Outcome
  | committed
  | rolledBack
  deriving DecidableEq

structure OptimisticEntry where
  invoiceId : String
  version : Nat
  predictedValue : Option V
  rollbackValue : Option V
  settled : Option Outcome := none

def OptimisticEntry.key {V : Type} (entry : OptimisticEntry V) : String :=
  entry.invoiceId ++ "@" ++ entry.version.repr

structure RollbackEvent where
  key : String
  invoiceId : String
  version : Nat
  restoredValue : Option V

structure FreshnessEntry where
  value : Option V
  freshUntil : JsNumber
  staleUntil : JsNumber

/-- A fetch that is under way for a `read`. -/
structure Fetch where
  key : String
  ttlMs : JsNumber
  inBackground : Bool

structure OptimisticCacheOptions where
  defaultTtlMs : JsNumber := .finite 60000
  staleWhileRevalidateMs : JsNumber := .finite 0

/-- The queues in `pending` hold the places of their entries in `entries`, which are all that ever were made.
A fetch that is over is `none` in `fetches`. -/
structure Cache where
  base : SimpleCache.Cache V
  options : OptimisticCacheOptions
  pending : OrdMap String (List Nat) := .empty
  expiries : OrdMap String JsNumber := .empty
  versionCounters : OrdMap String Nat := .empty
  freshness : OrdMap String (FreshnessEntry V) := .empty
  revalidations : Finset String := ∅
  entries : List (OptimisticEntry V) := []
  fetches : List (Option Fetch) := []

end Data

section Operations

variable {V : Type} (c : Cache V)

def create (base : Option (SimpleCache.Cache V)) (options : OptimisticCacheOptions) : Cache V where
  base := base.getD { config := SimpleCache.withTtl options.defaultTtlMs }
  options := options

def queue (invoiceId : String) : List Nat := (c.pending.get? invoiceId).getD []

/-- The prediction that is visible: the one that was applied last of those that are pending. -/
def newest (invoiceId : String) : Option (OptimisticEntry V) :=
  (queue c invoiceId).getLast?.bind (fun i => c.entries[i]?)

def isExpired (invoiceId : String) (dateNow : JsNumber) : Bool :=
  (c.expiries.get? invoiceId).any (fun expiry => expiry.le dateNow)

/-- `now` is the time of the injected clock and `dateNow` that of `Date.now`, here and below. -/
def get (invoiceId : String) (dateNow : JsNumber) : Option V × Cache V :=
  match newest c invoiceId with
  | some entry => (entry.predictedValue, c)
  | none =>
      let (value, base) := SimpleCache.get c.base invoiceId dateNow
      if isExpired c invoiceId dateNow then
        (none, { c with base := SimpleCache.delete base invoiceId, expiries := c.expiries.delete invoiceId })
      else (value, { c with base })

def set (invoiceId : String) (value : Option V) (ttlMs now dateNow : JsNumber) : Cache V :=
  let freshUntil := now.add ttlMs
  { c with
    freshness := c.freshness.set invoiceId
      { value, freshUntil, staleUntil := freshUntil.add c.options.staleWhileRevalidateMs }
    base := SimpleCache.set c.base invoiceId value dateNow
    expiries := if (JsNumber.finite 0).lt ttlMs then c.expiries.set invoiceId (now.add ttlMs)
      else c.expiries.delete invoiceId }

def invalidate (invoiceId : String) : Cache V :=
  { c with
    pending := c.pending.delete invoiceId
    expiries := c.expiries.delete invoiceId
    base := SimpleCache.delete c.base invoiceId }

/-- The keys that `invalidateAll` knows of. -/
def knownKeys : List String := (c.pending.keys ++ c.expiries.keys).eraseDups

def invalidateAll : Cache V := (knownKeys c).foldl invalidate c

end Operations

section Lookup

variable {V : Type}

theorem get_value (c : Cache V) (invoiceId : String) (dateNow : JsNumber) :
    (get c invoiceId dateNow).1 =
      match newest c invoiceId with
      | some entry => entry.predictedValue
      | none => if isExpired c invoiceId dateNow then none else (SimpleCache.get c.base invoiceId dateNow).1 := by
  unfold OptimisticCache.get
  cases newest c invoiceId with
  | some entry => rfl
  | none =>
      dsimp only
      split_ifs
      · rfl
      · rfl

end Lookup

section Predictions

variable {V : Type} (c : Cache V)

def applyOptimistic (invoiceId : String) (predictedValue rollbackValue : Option V) : Cache V :=
  let version := (c.versionCounters.get? invoiceId).getD 0 + 1
  { c with
    versionCounters := c.versionCounters.set invoiceId version
    entries := c.entries ++ [{ invoiceId, version, predictedValue, rollbackValue }]
    pending := c.pending.set invoiceId (queue c invoiceId ++ [c.entries.length]) }

def settle (i : Nat) (entry : OptimisticEntry V) (outcome : Outcome) : Cache V :=
  { c with entries := c.entries.set i { entry with settled := some outcome } }

def removeEntry (i : Nat) (entry : OptimisticEntry V) : Cache V :=
  match c.pending.get? entry.invoiceId with
  | none => c
  | some queue =>
      let queue := queue.erase i
      { c with
        pending := if queue = [] then c.pending.delete entry.invoiceId else c.pending.set entry.invoiceId queue }

def commit (i : Nat) (entry : OptimisticEntry V) (now dateNow : JsNumber) : Cache V :=
  if entry.settled.isSome then c
  else
    let c := settle c i entry .committed
    let c := set c entry.invoiceId entry.predictedValue c.options.defaultTtlMs now dateNow
    removeEntry c i entry

def rollback (i : Nat) (entry : OptimisticEntry V) (now dateNow : JsNumber) : Option (RollbackEvent V) × Cache V :=
  if entry.settled.isSome then (none, c)
  else
    let c := removeEntry (settle c i entry .rolledBack) i entry
    let restoredValue := (newest c entry.invoiceId).elim entry.rollbackValue OptimisticEntry.predictedValue
    let c := if queue c entry.invoiceId = [] then
        set c entry.invoiceId entry.rollbackValue c.options.defaultTtlMs now dateNow
      else c
    (some { key := entry.key, invoiceId := entry.invoiceId, version := entry.version, restoredValue }, c)

end Predictions

section Settling

variable {V : Type} {c : Cache V}

theorem removeEntry_entries (c : Cache V) (i : Nat) (entry : OptimisticEntry V) :
    (removeEntry c i entry).entries = c.entries ∧ (removeEntry c i entry).base = c.base := by
  unfold removeEntry
  split
  · exact ⟨rfl, rfl⟩
  · exact ⟨rfl, rfl⟩

theorem commit_of_settled (i : Nat) {entry : OptimisticEntry V} (h : entry.settled ≠ none) (now dateNow : JsNumber) :
    commit c i entry now dateNow = c := by
  unfold commit
  rw [if_pos (Option.isSome_iff_ne_none.mpr h)]

theorem rollback_of_settled (i : Nat) {entry : OptimisticEntry V} (h : entry.settled ≠ none) (now dateNow : JsNumber) :
    (rollback c i entry now dateNow).2 = c := by
  unfold rollback
  rw [if_pos (Option.isSome_iff_ne_none.mpr h)]

theorem commit_of_unsettled (i : Nat) {entry : OptimisticEntry V} (h : entry.settled = none) (now dateNow : JsNumber) :
    commit c i entry now dateNow =
      removeEntry (set (settle c i entry .committed) entry.invoiceId entry.predictedValue c.options.defaultTtlMs now
        dateNow) i entry := by
  unfold commit
  rw [h]
  rfl

theorem rollback_of_unsettled (i : Nat) {entry : OptimisticEntry V} (h : entry.settled = none) (now dateNow : JsNumber) :
    (rollback c i entry now dateNow).2 =
      let removed := removeEntry (settle c i entry .rolledBack) i entry
      if queue removed entry.invoiceId = [] then
        set removed entry.invoiceId entry.rollbackValue removed.options.defaultTtlMs now dateNow
      else removed := by
  unfold rollback
  rw [h]
  rfl

end Settling

section Reads

variable {V : Type} (c : Cache V)

inductive ReadResult (V : Type)
  | returned (value : Option V)
  | fetching
  deriving DecidableEq

/-- `read` up to its result, or up to the `await` of the fetcher. -/
def read (key : String) (ttlMs now : JsNumber) : ReadResult V × Cache V :=
  match (c.freshness.get? key).filter (fun entry => now.lt entry.staleUntil) with
  | some entry =>
      if now.lt entry.freshUntil ∨ key ∈ c.revalidations then (.returned entry.value, c)
      else
        (.returned entry.value,
          { c with
            revalidations := insert key c.revalidations
            fetches := c.fetches ++ [some { key, ttlMs, inBackground := true }] })
  | none => (.fetching, { c with fetches := c.fetches ++ [some { key, ttlMs, inBackground := false }] })

/-- From the answer of the fetcher, `none` when it rejects. -/
def fetched (j : Nat) (fetch : Fetch) (answer : Option (Option V)) (now dateNow : JsNumber) : Cache V :=
  let c := match answer with
    | some (some value) => set c fetch.key (some value) fetch.ttlMs now dateNow
    | _ => c
  { c with
    revalidations := if fetch.inBackground then c.revalidations.erase fetch.key else c.revalidations
    fetches := c.fetches.set j none }

end Reads

section Runs

variable {V : Type}

inductive Event (V : Type)
  | get (invoiceId : String) (dateNow : JsNumber)
  | set (invoiceId : String) (value : Option V) (ttlMs now dateNow : JsNumber)
  | read (key : String) (ttlMs now : JsNumber)
  | fetched (j : Nat) (answer : Option (Option V)) (now dateNow : JsNumber)
  | applyOptimistic (invoiceId : String) (predictedValue rollbackValue : Option V)
  | commit (i : Nat) (now dateNow : JsNumber)
  | rollback (i : Nat) (now dateNow : JsNumber)
  | invalidate (invoiceId : String)
  | invalidateAll

def step (c : Cache V) : Event V → Option (Cache V)
  | .get invoiceId dateNow => some (get c invoiceId dateNow).2
  | .set invoiceId value ttlMs now dateNow => some (set c invoiceId value ttlMs now dateNow)
  | .read key ttlMs now => some (read c key ttlMs now).2
  | .fetched j answer now dateNow =>
      (c.fetches[j]?.join).map (fun fetch => fetched c j fetch answer now dateNow)
  | .applyOptimistic invoiceId predictedValue rollbackValue =>
      some (applyOptimistic c invoiceId predictedValue rollbackValue)
  | .commit i now dateNow => c.entries[i]?.map (fun entry => commit c i entry now dateNow)
  | .rollback i now dateNow => c.entries[i]?.map (fun entry => (rollback c i entry now dateNow).2)
  | .invalidate invoiceId => some (invalidate c invoiceId)
  | .invalidateAll => some (invalidateAll c)

end Runs

end SplitSdk.OptimisticCache
