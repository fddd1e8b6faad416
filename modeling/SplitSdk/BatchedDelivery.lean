import SplitSdk.Interleaving
import SplitSdk.Numbers

namespace SplitSdk.BatchedDelivery

open Interleaving Numbers

section Client

inductive BatchCallType
  | getInvoice
  | getPaymentHistory
  | getInvoiceExt
  deriving DecidableEq

inductive Fetcher
  | fetchInvoice
  | fetchPaymentHistory
  | fetchInvoiceExt
  deriving DecidableEq

/-- A call is known by its number. -/
structure PendingCall where
  number : Nat
  type : BatchCallType
  invoiceId : String
  deriving DecidableEq

inductive Failure (E : Type)
  | thrown (error : E)
  | error (message : String)

/-- How the promise of a call is settled. -/
inductive Outcome (V E : Type)
  | resolved (value : V)
  | rejected (error : Failure E)

abbrev MaxBatchSize := {max : JsNumber // max ≠ .finite 0}

def constructor (maxBatchSize : JsNumber) : Except String MaxBatchSize :=
  if h : maxBatchSize = .finite 0 then .error "maxBatchSize must not be 0" else .ok ⟨maxBatchSize, h⟩

/-- A loop of `_dispatchBatch` while the fetcher of a call is on the stack. The loop was entered from the `_enqueue` of
a call, or from a timer. -/
structure Dispatch where
  enqueuing : Option PendingCall
  call : PendingCall
  rest : List PendingCall

/-- The loops under way are kept innermost first, since a fetcher may call the client. -/
structure BatchedRpcClient where
  pending : List PendingCall := []
  timer : Bool := false
  dispatching : List Dispatch := []
  awaiting : List PendingCall := []

inductive Effect (V E : Type)
  | fetched (fetcher : Fetcher) (invoiceId : String) (call : PendingCall)
  | settled (call : PendingCall) (outcome : Outcome V E)

/-- How many elements `splice(0, count)` takes from `length`. -/
def spliceCount (length : Nat) : JsNumber → Nat
  | .nan => 0
  | .infinity negative => if negative then 0 else length
  | .finite q => min ⌊q⌋.toNat length

variable {V E : Type} (maxBatchSize : MaxBatchSize) (client : BatchedRpcClient)

def fetcherOf : BatchCallType → Fetcher
  | .getInvoice => .fetchInvoice
  | .getPaymentHistory => .fetchPaymentHistory
  | .getInvoiceExt => .fetchInvoiceExt

/-- `_dispatchBatch` up to the fetcher of its next call or its end. -/
def dispatchBatch (enqueuing : Option PendingCall) (batch : List PendingCall) : BatchedRpcClient × List (Effect V E) :=
  match batch with
  | [] => (client, [])
  | call :: rest =>
      ({ client with dispatching := { enqueuing, call, rest } :: client.dispatching },
        [.fetched (fetcherOf call.type) call.invoiceId call])

def flush (enqueuing : Option PendingCall) : BatchedRpcClient × List (Effect V E) :=
  let client := { client with timer := false }
  if client.pending = [] then (client, [])
  else
    let count := spliceCount client.pending.length maxBatchSize
    let batch := client.pending.take count
    let pending := client.pending.drop count
    dispatchBatch { client with pending, timer := pending ≠ [] } enqueuing batch

def enqueue (call : PendingCall) : BatchedRpcClient × List (Effect V E) :=
  let client := { client with pending := client.pending ++ [call] }
  if maxBatchSize.1.le (.finite client.pending.length) then flush maxBatchSize client (some call)
  else ({ client with timer := true }, [])

def clear : BatchedRpcClient × List (Effect V E) :=
  ({ client with timer := false, pending := [] },
    client.pending.map (fun call => .settled call (.rejected (.error "BatchedRpcClient cleared"))))

/-- The fetcher on top of the stack has returned its promise. -/
def returned (loop : Dispatch) (dispatching : List Dispatch) : BatchedRpcClient × List (Effect V E) :=
  dispatchBatch { client with dispatching, awaiting := client.awaiting ++ [loop.call] } loop.enqueuing loop.rest

/-- The fetcher on top of the stack has thrown, which ends its loop. The error rejects the promise of the call whose
`_enqueue` it comes out of. -/
def threw (loop : Dispatch) (dispatching : List Dispatch) (error : E) : BatchedRpcClient × List (Effect V E) :=
  ({ client with dispatching },
    match loop.enqueuing with
    | some call => [.settled call (.rejected (.thrown error))]
    | none => [])

def settle (k : Nat) (call : PendingCall) (outcome : Outcome V E) : BatchedRpcClient × List (Effect V E) :=
  ({ client with awaiting := client.awaiting.eraseIdx k }, [.settled call outcome])

end Client

section Statement

variable {V E : Type} (maxBatchSize : MaxBatchSize)

inductive Event (V E : Type)
  | call (type : BatchCallType) (invoiceId : String)
  | fired
  | clear
  | returned
  | threw (error : E)
  | settled (k : Nat) (outcome : Outcome V E)

/-- The calls that were made, that were given to a fetcher and that were cleared, and how promises were settled, are
kept beside the client. -/
structure History (V E : Type) where
  client : BatchedRpcClient := {}
  calls : List PendingCall := []
  fetched : List PendingCall := []
  cleared : List PendingCall := []
  settled : List (PendingCall × Outcome V E) := []

def fetchedIn (effects : List (Effect V E)) : List PendingCall :=
  effects.filterMap (fun effect => match effect with | .fetched _ _ call => some call | _ => none)

def settledIn (effects : List (Effect V E)) : List (PendingCall × Outcome V E) :=
  effects.filterMap (fun effect => match effect with | .settled call outcome => some (call, outcome) | _ => none)

/-- What an event does to the client, when it can happen. A timer fires when nothing is on the stack. -/
def act (h : History V E) : Event V E → Option (BatchedRpcClient × List (Effect V E))
  | .call type invoiceId => some (enqueue maxBatchSize h.client ⟨h.calls.length, type, invoiceId⟩)
  | .fired =>
      if h.client.timer = true ∧ h.client.dispatching = [] then some (flush maxBatchSize h.client none) else none
  | .clear => some (clear h.client)
  | .returned =>
      match h.client.dispatching with
      | [] => none
      | loop :: dispatching => some (returned h.client loop dispatching)
  | .threw error =>
      match h.client.dispatching with
      | [] => none
      | loop :: dispatching => some (threw h.client loop dispatching error)
  | .settled k outcome => h.client.awaiting[k]?.map (fun call => settle h.client k call outcome)

def callsBy (h : History V E) : Event V E → List PendingCall
  | .call type invoiceId => [⟨h.calls.length, type, invoiceId⟩]
  | _ => []

def clearedBy (h : History V E) : Event V E → List PendingCall
  | .clear => h.client.pending
  | _ => []

def next (h : History V E) (e : Event V E) (result : BatchedRpcClient × List (Effect V E)) : History V E :=
  { client := result.1, calls := h.calls ++ callsBy h e, fetched := h.fetched ++ fetchedIn result.2,
    cleared := h.cleared ++ clearedBy h e, settled := h.settled ++ settledIn result.2 }

def step (h : History V E) (e : Event V E) : Option (History V E) := (act maxBatchSize h e).map (next h e)

/-- The calls that are still to be given to a fetcher. -/
def left (client : BatchedRpcClient) : List PendingCall := client.dispatching.flatMap Dispatch.rest ++ client.pending

structure Delivered (h : History V E) : Prop where
  numbered : h.calls.map PendingCall.number = List.range h.calls.length
  /-- A call is given to a fetcher once, or is cleared, or is still to be dispatched. -/
  once : (h.fetched ++ h.cleared ++ left h.client).Perm h.calls
  /-- What was given to a fetcher or cleared has its promise settled once, or the fetcher is still at it. -/
  answered : (h.settled.map Prod.fst ++ (h.client.dispatching.map Dispatch.call ++ h.client.awaiting)).Perm
    (h.fetched ++ h.cleared)
  armed : h.client.pending ≠ [] → h.client.timer = true
  limited : ∀ loop ∈ h.client.dispatching, (JsNumber.finite (loop.rest.length + 1 : Nat)).le maxBatchSize

/-- What an event says about the outcome of calls. -/
def outcomesOf (h : History V E) : Event V E → List (PendingCall × Outcome V E)
  | .clear => h.client.pending.map (fun call => (call, .rejected (.error "BatchedRpcClient cleared")))
  | .threw error => (h.client.dispatching.head?.map (fun loop => (loop.call, .rejected (.thrown error)))).toList
  | .settled k outcome => (h.client.awaiting[k]?.map (fun call => (call, outcome))).toList
  | _ => []

structure Lawful (h : History V E) (e : Event V E) : Prop where
  delivered : ∀ h', step maxBatchSize h e = some h' → Delivered maxBatchSize h'
  /-- A call goes to its own fetcher, with its own identifier. -/
  addressed : ∀ client effects, act maxBatchSize h e = some (client, effects) → ∀ fetcher invoiceId call,
    .fetched fetcher invoiceId call ∈ effects → fetcher = fetcherOf call.type ∧ invoiceId = call.invoiceId
  first : ∀ client effects, act maxBatchSize h e = some (client, effects) →
    ∀ call ∈ fetchedIn effects, ∀ other ∈ left client, call.number < other.number
  own : ∀ client effects, act maxBatchSize h e = some (client, effects) → settledIn effects = outcomesOf h e
  /-- A timer that fires while calls are pending has one of them dispatched. -/
  taken : ∀ client effects, act maxBatchSize h e = some (client, effects) → e = .fired → h.client.pending ≠ [] →
    fetchedIn effects ≠ []

/-- A call that makes the list overflow is not made by a fetcher before the rest of whose batch it would be dispatched;
a timer fires with calls pending only when a batch can hold one; and a fetcher throws only in the `_enqueue` of its own
call, and as the last of its batch. -/
def Spares (h : History V E) : Event V E → Prop
  | .call _ _ =>
      maxBatchSize.1.le (.finite (h.client.pending.length + 1 : Nat)) →
        spliceCount (h.client.pending.length + 1) maxBatchSize ≠ 0 → h.client.dispatching.flatMap Dispatch.rest = []
  | .fired =>
      h.client.timer = true → h.client.dispatching = [] → h.client.pending ≠ [] →
        spliceCount h.client.pending.length maxBatchSize ≠ 0
  | .threw _ => ∀ loop ∈ h.client.dispatching.head?, loop.enqueuing = some loop.call ∧ loop.rest = []
  | .clear | .returned | .settled _ _ => True

end Statement

section Dispatching

variable {V E : Type} {maxBatchSize : MaxBatchSize} {client : BatchedRpcClient} {enqueuing : Option PendingCall}
  {batch : List PendingCall} {h : History V E}

theorem fetchedIn_dispatchBatch : fetchedIn (dispatchBatch (V := V) (E := E) client enqueuing batch).2 = batch.head?.toList := by
  cases batch with
  | nil => rfl
  | cons call rest => rfl

theorem settledIn_dispatchBatch : settledIn (dispatchBatch (V := V) (E := E) client enqueuing batch).2 = [] := by
  cases batch with
  | nil => rfl
  | cons call rest => rfl

/-- A loop takes the first call of its batch away. -/
theorem left_dispatchBatch (client : BatchedRpcClient) (enqueuing : Option PendingCall) (batch : List PendingCall) :
    batch.head?.toList ++ left (dispatchBatch (V := V) (E := E) client enqueuing batch).1 = batch ++ left client := by
  cases batch with
  | nil => rfl
  | cons call rest =>
      change call :: ((rest ++ client.dispatching.flatMap Dispatch.rest) ++ client.pending) = _
      rw [List.append_assoc]
      rfl

theorem addressed_dispatchBatch {fetcher : Fetcher} {invoiceId : String} {call : PendingCall}
    (hmem : .fetched fetcher invoiceId call ∈ (dispatchBatch (V := V) (E := E) client enqueuing batch).2) :
    fetcher = fetcherOf call.type ∧ invoiceId = call.invoiceId := by
  cases batch with
  | nil => cases hmem
  | cons first rest =>
      cases List.mem_singleton.mp hmem
      exact ⟨rfl, rfl⟩

/-- The calls of `batch` are taken out of the pending ones and are about to be dispatched. -/
structure Ready (maxBatchSize : MaxBatchSize) (batch : List PendingCall) (h : History V E) : Prop where
  numbered : h.calls.map PendingCall.number = List.range h.calls.length
  once : (h.fetched ++ h.cleared ++ (batch ++ left h.client)).Perm h.calls
  answered : (h.settled.map Prod.fst ++ (h.client.dispatching.map Dispatch.call ++ h.client.awaiting)).Perm
    (h.fetched ++ h.cleared)
  armed : h.client.pending ≠ [] → h.client.timer = true
  limited : ∀ loop ∈ h.client.dispatching, (JsNumber.finite (loop.rest.length + 1 : Nat)).le maxBatchSize
  size : batch ≠ [] → (JsNumber.finite batch.length).le maxBatchSize
  order : (batch ++ left h.client).Pairwise (fun a b => a.number < b.number)
  older : ∀ call ∈ batch ++ left h.client, call.number < h.calls.length

theorem start_ready (maxBatchSize : MaxBatchSize) : Ready (V := V) (E := E) maxBatchSize [] {} where
  numbered := rfl
  once := List.Perm.refl _
  answered := List.Perm.refl _
  armed hne := absurd rfl hne
  limited _ hmem := absurd hmem List.not_mem_nil
  size hne := absurd rfl hne
  order := List.Pairwise.nil
  older _ hmem := absurd hmem List.not_mem_nil

theorem Ready.delivered (hready : Ready maxBatchSize [] h) : Delivered maxBatchSize h where
  numbered := hready.numbered
  once := hready.once
  answered := hready.answered
  armed := hready.armed
  limited := hready.limited

/-- A batch is dispatched call by call. -/
theorem Ready.dispatched (hready : Ready maxBatchSize batch h) (enqueuing : Option PendingCall) :
    Ready maxBatchSize [] { h with client := (dispatchBatch (V := V) (E := E) h.client enqueuing batch).1,
                                   fetched := h.fetched ++ batch.head?.toList } := by
  have hleft := left_dispatchBatch (V := V) (E := E) h.client enqueuing batch
  obtain ⟨hnumbered, honce, hanswered, harmed, hlimited, hsize, horder, holder⟩ := hready
  rw [← hleft] at honce horder holder
  have hsublist := List.sublist_append_right batch.head?.toList
    (left (dispatchBatch (V := V) (E := E) h.client enqueuing batch).1)
  refine ⟨hnumbered, ?_, ?_, ?_, ?_, fun hne => absurd rfl hne, horder.sublist hsublist,
    fun call hcall => holder call (hsublist.subset hcall)⟩
  · refine List.Perm.trans ?_ honce
    change (h.fetched ++ batch.head?.toList ++ h.cleared ++ left _).Perm _
    rw [List.append_assoc h.fetched, List.append_assoc h.fetched, List.append_assoc h.fetched, ← List.append_assoc h.cleared]
    exact (List.perm_append_comm.append_right _).append_left _
  · cases batch with
    | nil =>
        change (_ ++ (h.client.dispatching.map Dispatch.call ++ h.client.awaiting)).Perm (h.fetched ++ [] ++ h.cleared)
        rwa [List.append_nil]
    | cons call rest =>
        change (h.settled.map Prod.fst ++ (call :: (h.client.dispatching.map Dispatch.call ++ h.client.awaiting))).Perm
          (h.fetched ++ [call] ++ h.cleared)
        rw [List.append_assoc h.fetched]
        exact List.perm_middle.trans ((hanswered.cons call).trans List.perm_middle.symm)
  · cases batch with
    | nil => exact harmed
    | cons call rest => exact harmed
  · cases batch with
    | nil => exact hlimited
    | cons call rest =>
        intro loop hloop
        rcases List.mem_cons.mp hloop with rfl | hold
        · exact hsize (List.cons_ne_nil call rest)
        · exact hlimited loop hold

theorem Ready.comesFirst (hready : Ready maxBatchSize batch h) {call : PendingCall} (hcall : call ∈ batch.head?.toList)
    {other : PendingCall} (hother : other ∈ left (dispatchBatch (V := V) (E := E) h.client enqueuing batch).1) :
    call.number < other.number := by
  have horder := hready.order
  rw [← left_dispatchBatch (V := V) (E := E) h.client enqueuing batch] at horder
  exact (List.pairwise_append.mp horder).2.2 call hcall other hother

theorem spliceCount_le {length : Nat} {count : JsNumber} (hne : spliceCount length count ≠ 0) :
    (JsNumber.finite (spliceCount length count)).le count := by
  cases count with
  | nan => exact absurd rfl hne
  | infinity negative =>
      cases negative with
      | true => exact absurd rfl hne
      | false => rfl
  | finite q =>
      rw [JsNumber.finite_le_finite_iff]
      have hfloor : 0 ≤ ⌊q⌋ := by
        change min ⌊q⌋.toNat length ≠ 0 at hne
        omega
      calc ((spliceCount length (.finite q) : Nat) : ℚ) ≤ (⌊q⌋.toNat : ℚ) := by exact_mod_cast Nat.min_le_left _ _
        _ = (⌊q⌋ : ℚ) := by exact_mod_cast Int.toNat_of_nonneg hfloor
        _ ≤ q := Int.floor_le q

theorem spliceCount_le_length (length : Nat) (count : JsNumber) : spliceCount length count ≤ length := by
  cases count with
  | nan => exact Nat.zero_le _
  | infinity negative => cases negative <;> simp [spliceCount]
  | finite q => exact Nat.min_le_right _ _

end Dispatching

section Steps

variable {V E : Type} {maxBatchSize : MaxBatchSize} {h : History V E} {e : Event V E}

/-- A step that can happen is as it should be when its effects and what it leads to are. -/
theorem lawful_of_act {result : BatchedRpcClient × List (Effect V E)} (hact : act maxBatchSize h e = some result)
    (hnext : Delivered maxBatchSize (next h e result))
    (haddressed : ∀ fetcher invoiceId call, .fetched fetcher invoiceId call ∈ result.2 →
      fetcher = fetcherOf call.type ∧ invoiceId = call.invoiceId)
    (hfirst : ∀ call ∈ fetchedIn result.2, ∀ other ∈ left result.1, call.number < other.number)
    (hown : settledIn result.2 = outcomesOf h e)
    (htaken : e = .fired → h.client.pending ≠ [] → fetchedIn result.2 ≠ []) : Lawful maxBatchSize h e where
  delivered := (forall_next_iff (congrArg (Option.map (next h e)) hact)).mpr hnext
  addressed client effects hact' := by
    obtain rfl := Option.some.inj (hact.symm.trans hact')
    exact haddressed
  first client effects hact' := by
    obtain rfl := Option.some.inj (hact.symm.trans hact')
    exact hfirst
  own client effects hact' := by
    obtain rfl := Option.some.inj (hact.symm.trans hact')
    exact hown
  taken client effects hact' := by
    obtain rfl := Option.some.inj (hact.symm.trans hact')
    exact htaken

theorem lawful_of_act_none (hact : act maxBatchSize h e = none) : Lawful maxBatchSize h e where
  delivered h' hstep := by
    unfold step at hstep
    rw [hact] at hstep
    cases hstep
  addressed client effects hact' := by cases hact.symm.trans hact'
  first client effects hact' := by cases hact.symm.trans hact'
  own client effects hact' := by cases hact.symm.trans hact'
  taken client effects hact' := by cases hact.symm.trans hact'

/-- A step after which every pending call is still to come or is dispatched in its turn. -/
structure Proper (maxBatchSize : MaxBatchSize) (h : History V E) (e : Event V E) : Prop where
  ready : ∀ h', step maxBatchSize h e = some h' → Ready maxBatchSize [] h'
  lawful : Lawful maxBatchSize h e

theorem proper_of_act_none (hact : act maxBatchSize h e = none) : Proper maxBatchSize h e := by
  refine ⟨fun h' hstep => ?_, lawful_of_act_none hact⟩
  unfold step at hstep
  rw [hact] at hstep
  cases hstep

theorem proper_of_dispatch {client : BatchedRpcClient} (enqueuing : Option PendingCall) (batch : List PendingCall)
    (hact : act maxBatchSize h e = some (dispatchBatch client enqueuing batch))
    (hready : Ready maxBatchSize batch ⟨client, h.calls ++ callsBy h e, h.fetched, h.cleared, h.settled⟩)
    (hcleared : clearedBy h e = []) (hown : outcomesOf h e = [])
    (htaken : e = .fired → h.client.pending ≠ [] → batch ≠ []) : Proper maxBatchSize h e := by
  have hnext : next h e (dispatchBatch client enqueuing batch) =
      ⟨(dispatchBatch (V := V) (E := E) client enqueuing batch).1, h.calls ++ callsBy h e,
        h.fetched ++ batch.head?.toList, h.cleared, h.settled⟩ := by
    unfold next
    rw [fetchedIn_dispatchBatch, settledIn_dispatchBatch, hcleared, List.append_nil, List.append_nil]
  have hready' : Ready maxBatchSize [] (next h e (dispatchBatch client enqueuing batch)) := by
    rw [hnext]
    exact hready.dispatched enqueuing
  refine ⟨(forall_next_iff (congrArg (Option.map (next h e)) hact)).mpr hready',
    lawful_of_act hact hready'.delivered (fun _ _ _ => addressed_dispatchBatch) ?_ ?_ ?_⟩
  · intro call hcall other hother
    rw [fetchedIn_dispatchBatch] at hcall
    exact hready.comesFirst hcall hother
  · rw [settledIn_dispatchBatch, hown]
  · intro hfired hne
    rw [fetchedIn_dispatchBatch]
    cases batch with
    | nil => exact absurd rfl (htaken hfired hne)
    | cons call rest => exact List.cons_ne_nil call []

/-- What a flush takes out of the pending calls is in front of all that is left. -/
theorem Ready.flush (hready : Ready maxBatchSize [] h)
    (houter : spliceCount h.client.pending.length maxBatchSize ≠ 0 → h.client.dispatching.flatMap Dispatch.rest = []) :
    let count := spliceCount h.client.pending.length maxBatchSize
    Ready maxBatchSize (h.client.pending.take count)
      { h with client := { h.client with pending := h.client.pending.drop count,
                                         timer := h.client.pending.drop count ≠ [] } } := by
  intro count
  obtain ⟨hnumbered, honce, hanswered, -, hlimited, -, horder, holder⟩ := hready
  have hleft : h.client.pending.take count ++ (h.client.dispatching.flatMap Dispatch.rest ++ h.client.pending.drop count) =
      [] ++ left h.client := by
    change _ = h.client.dispatching.flatMap Dispatch.rest ++ h.client.pending
    by_cases hzero : count = 0
    · rw [hzero, List.take_zero, List.drop_zero, List.nil_append]
    · rw [houter hzero, List.nil_append, List.nil_append, List.take_append_drop]
  refine ⟨hnumbered, ?_, hanswered, fun hne => decide_eq_true hne, hlimited, fun hne => ?_, ?_, ?_⟩
  · change (_ ++ (h.client.pending.take count ++ (_ ++ h.client.pending.drop count))).Perm _
    rw [hleft]
    exact honce
  · have hcount : count ≠ 0 := by
      rintro hzero
      rw [hzero, List.take_zero] at hne
      exact hne rfl
    rw [List.length_take_of_le (spliceCount_le_length _ _)]
    exact spliceCount_le hcount
  · change (h.client.pending.take count ++ (_ ++ h.client.pending.drop count)).Pairwise _
    rw [hleft]
    exact horder
  · intro call hcall
    change call ∈ h.client.pending.take count ++ (_ ++ h.client.pending.drop count) at hcall
    rw [hleft] at hcall
    exact holder call hcall

theorem flush_eq {client : BatchedRpcClient} (hne : client.pending ≠ []) (enqueuing : Option PendingCall) :
    flush (V := V) (E := E) maxBatchSize client enqueuing =
      dispatchBatch { client with pending := client.pending.drop (spliceCount client.pending.length maxBatchSize),
                                  timer := client.pending.drop (spliceCount client.pending.length maxBatchSize) ≠ [] }
        enqueuing (client.pending.take (spliceCount client.pending.length maxBatchSize)) := by
  unfold flush
  exact if_neg hne

/-- A new call waits behind all that are left, with a timer armed. -/
theorem Ready.called (hready : Ready maxBatchSize [] h) (type : BatchCallType) (invoiceId : String) :
    Ready maxBatchSize []
      { h with client := { h.client with pending := h.client.pending ++ [⟨h.calls.length, type, invoiceId⟩],
                                         timer := true },
               calls := h.calls ++ [⟨h.calls.length, type, invoiceId⟩] } := by
  obtain ⟨hnumbered, honce, hanswered, -, hlimited, -, horder, holder⟩ := hready
  generalize hcall : PendingCall.mk h.calls.length type invoiceId = call
  have hnumber : call.number = h.calls.length := by rw [← hcall]
  have hlength : (h.calls ++ [call]).length = h.calls.length + 1 := by
    rw [List.length_append, List.length_singleton]
  have hleft : left { h.client with pending := h.client.pending ++ [call], timer := true } = left h.client ++ [call] :=
    (List.append_assoc _ _ _).symm
  refine ⟨?_, ?_, hanswered, fun _ => rfl, hlimited, fun hne => absurd rfl hne, ?_, ?_⟩
  · rw [List.map_append, hnumbered, hlength, List.range_succ, ← hnumber]
    rfl
  · change (h.fetched ++ h.cleared ++ left _).Perm _
    rw [hleft, ← List.append_assoc]
    exact honce.append_right [call]
  · change (left _).Pairwise _
    rw [hleft]
    refine List.pairwise_append.mpr ⟨horder, List.pairwise_singleton _ _, fun a ha b hb => ?_⟩
    cases List.mem_singleton.mp hb
    rw [hnumber]
    exact holder a ha
  · intro other hother
    change other ∈ left _ at hother
    rw [hleft] at hother
    rw [hlength]
    rcases List.mem_append.mp hother with hold | hnew
    · exact Nat.lt_succ_of_lt (holder other hold)
    · cases List.mem_singleton.mp hnew
      rw [hnumber]
      exact Nat.lt_succ_self _

end Steps

section Condition

variable {V E : Type} {maxBatchSize : MaxBatchSize} {h : History V E}

theorem proper_call (hready : Ready maxBatchSize [] h) {type : BatchCallType} {invoiceId : String}
    (hspares : Spares maxBatchSize h (.call type invoiceId)) : Proper maxBatchSize h (.call type invoiceId) := by
  have hcalled := hready.called type invoiceId
  have hlength : (h.client.pending ++ [PendingCall.mk h.calls.length type invoiceId]).length = h.client.pending.length + 1 := by
    rw [List.length_append, List.length_singleton]
  by_cases hoverflow : maxBatchSize.1.le (.finite (h.client.pending.length + 1 : Nat)) = true
  · have hne : h.client.pending ++ [PendingCall.mk h.calls.length type invoiceId] ≠ [] :=
      List.append_ne_nil_of_right_ne_nil _ (List.cons_ne_nil _ [])
    refine proper_of_dispatch (some ⟨h.calls.length, type, invoiceId⟩) _ ?_ (hcalled.flush (fun hcount => ?_)) rfl rfl
      (fun hfired => ?_)
    · refine congrArg some (Eq.trans ?_ (flush_eq hne (some ⟨h.calls.length, type, invoiceId⟩)))
      unfold enqueue
      rw [← hlength] at hoverflow
      exact if_pos hoverflow
    · change spliceCount (_ ++ [_]).length _ ≠ 0 at hcount
      rw [hlength] at hcount
      exact hspares hoverflow hcount
    · cases hfired
  · refine proper_of_dispatch none [] ?_ hcalled rfl rfl (fun hfired => ?_)
    · rw [← hlength] at hoverflow
      exact congrArg some (if_neg hoverflow)
    · cases hfired

theorem proper_fired (hready : Ready maxBatchSize [] h) (hspares : Spares maxBatchSize h .fired) :
    Proper maxBatchSize h .fired := by
  by_cases hfires : h.client.timer = true ∧ h.client.dispatching = []
  · have hact : act maxBatchSize h .fired = some (flush maxBatchSize h.client none) := if_pos hfires
    by_cases hnone : h.client.pending = []
    · have hflush : flush (V := V) (E := E) maxBatchSize h.client none = ({ h.client with timer := false }, []) := by
        unfold flush
        exact if_pos hnone
      rw [hflush] at hact
      refine proper_of_dispatch none [] hact ?_ rfl rfl (fun _ hne => absurd hnone hne)
      rw [show callsBy h .fired = [] from rfl, List.append_nil]
      exact { hready with armed := fun hne => absurd hnone hne }
    · rw [flush_eq hnone] at hact
      refine proper_of_dispatch none _ hact ?_ rfl rfl (fun _ _ => ?_)
      · rw [show callsBy h .fired = [] from rfl, List.append_nil]
        refine hready.flush (fun _ => ?_)
        rw [hfires.2]
        rfl
      · intro htake
        rcases List.take_eq_nil_iff.mp htake with hzero | hempty
        · exact hspares hfires.1 hfires.2 hnone hzero
        · exact hnone hempty
  · exact proper_of_act_none (if_neg hfires)

theorem proper_clear (hready : Ready maxBatchSize [] h) : Proper maxBatchSize h .clear := by
  have hact : act maxBatchSize h .clear = some (clear h.client) := rfl
  obtain ⟨hnumbered, honce, hanswered, -, hlimited, -, horder, holder⟩ := hready
  have hsettled : settledIn (clear (V := V) (E := E) h.client).2 =
      h.client.pending.map (fun call => (call, .rejected (.error "BatchedRpcClient cleared"))) := by
    unfold settledIn clear
    rw [List.filterMap_map]
    exact congrFun List.filterMap_eq_map h.client.pending
  have hfetched : fetchedIn (clear (V := V) (E := E) h.client).2 = [] := by
    unfold fetchedIn clear
    rw [List.filterMap_map]
    exact List.filterMap_eq_nil_iff.mpr (fun _ _ => rfl)
  have hsublist : (left (clear (V := V) (E := E) h.client).1).Sublist (left h.client) :=
    (List.nil_sublist _).append_left _
  have hready' : Ready maxBatchSize [] (next h .clear (clear h.client)) := by
    unfold next
    rw [hsettled, hfetched, List.append_nil, show callsBy h .clear = [] from rfl, List.append_nil]
    refine ⟨hnumbered, ?_, ?_, fun hne => absurd rfl hne, hlimited, fun hne => absurd rfl hne, horder.sublist hsublist,
      fun call hcall => holder call (hsublist.subset hcall)⟩
    · refine List.Perm.trans ?_ honce
      change (h.fetched ++ (h.cleared ++ h.client.pending) ++ (h.client.dispatching.flatMap Dispatch.rest ++ [])).Perm
        (h.fetched ++ h.cleared ++ (h.client.dispatching.flatMap Dispatch.rest ++ h.client.pending))
      rw [List.append_nil, ← List.append_assoc h.fetched, List.append_assoc (h.fetched ++ h.cleared)]
      exact List.perm_append_comm.append_left _
    · change ((h.settled ++ h.client.pending.map _).map Prod.fst ++
        (h.client.dispatching.map Dispatch.call ++ h.client.awaiting)).Perm (h.fetched ++ (h.cleared ++ h.client.pending))
      rw [List.map_append, List.map_map, show Prod.fst ∘ _ = id from rfl, List.map_id, ← List.append_assoc h.fetched,
        List.append_assoc]
      refine (List.perm_append_comm.append_left _).trans ?_
      rw [← List.append_assoc]
      exact hanswered.append_right _
  refine ⟨(forall_next_iff (congrArg (Option.map (next h .clear)) hact)).mpr hready',
    lawful_of_act hact hready'.delivered (fun fetcher invoiceId call hmem => ?_) ?_ hsettled (fun hfired => ?_)⟩
  · obtain ⟨_, _, heq⟩ := List.mem_map.mp hmem
    cases heq
  · rw [hfetched]
    exact fun call hcall => absurd hcall List.not_mem_nil
  · cases hfired

theorem proper_returned (hready : Ready maxBatchSize [] h) : Proper maxBatchSize h .returned := by
  cases hloops : h.client.dispatching with
  | nil =>
      refine proper_of_act_none ?_
      unfold act
      rw [hloops]
  | cons loop dispatching =>
      have hact : act maxBatchSize h .returned = some (returned h.client loop dispatching) := by
        unfold act
        rw [hloops]
      obtain ⟨hnumbered, honce, hanswered, harmed, hlimited, -, horder, holder⟩ := hready
      have hleft : [] ++ left h.client = loop.rest ++ (dispatching.flatMap Dispatch.rest ++ h.client.pending) := by
        unfold left
        rw [hloops, List.nil_append, List.flatMap_cons, List.append_assoc]
      rw [hleft] at honce horder holder
      rw [hloops] at hanswered hlimited
      refine proper_of_dispatch loop.enqueuing loop.rest hact ?_ rfl rfl (fun hfired => ?_)
      · rw [show callsBy h .returned = [] from rfl, List.append_nil]
        refine ⟨hnumbered, honce, ?_, harmed, fun other hother => hlimited other (List.mem_cons_of_mem _ hother), ?_, horder,
          holder⟩
        · refine List.Perm.trans (List.Perm.append_left _ ?_) hanswered
          change (dispatching.map Dispatch.call ++ (h.client.awaiting ++ [loop.call])).Perm
            (loop.call :: (dispatching.map Dispatch.call ++ h.client.awaiting))
          rw [← List.append_assoc]
          exact List.perm_append_singleton _ _
        · intro _
          exact JsNumber.natCast_le_anti (Nat.le_succ _) (hlimited loop List.mem_cons_self)
      · cases hfired

/-- A step that only settles promises of calls that a fetcher has. -/
theorem proper_of_settle {e : Event V E} (hready : Ready maxBatchSize [] h) (client : BatchedRpcClient) {call : PendingCall}
    {outcome : Outcome V E} (hact : act maxBatchSize h e = some (client, [.settled call outcome]))
    (hcalls : callsBy h e = []) (hcleared : clearedBy h e = []) (hown : outcomesOf h e = [(call, outcome)])
    (hleft : left client = left h.client) (harmed : client.pending ≠ [] → client.timer = true)
    (hlimited : ∀ loop ∈ client.dispatching, loop ∈ h.client.dispatching)
    (hanswered : (call :: (client.dispatching.map Dispatch.call ++ client.awaiting)).Perm
      (h.client.dispatching.map Dispatch.call ++ h.client.awaiting)) (hfired : e ≠ .fired) : Proper maxBatchSize h e := by
  have hready' : Ready maxBatchSize [] (next h e (client, [.settled call outcome])) := by
    unfold next
    rw [hcalls, hcleared, List.append_nil, List.append_nil, show fetchedIn [Effect.settled call outcome] = [] from rfl,
      List.append_nil]
    refine ⟨hready.numbered, ?_, ?_, harmed, fun loop hloop => hready.limited loop (hlimited loop hloop),
      fun hne => absurd rfl hne, ?_, ?_⟩
    · change (h.fetched ++ h.cleared ++ ([] ++ left client)).Perm h.calls
      rw [hleft]
      exact hready.once
    · change ((h.settled ++ [(call, outcome)]).map Prod.fst ++ (client.dispatching.map Dispatch.call ++ client.awaiting)).Perm
        (h.fetched ++ h.cleared)
      rw [List.map_append, List.append_assoc]
      exact (hanswered.append_left _).trans hready.answered
    · change ([] ++ left client).Pairwise _
      rw [hleft]
      exact hready.order
    · change ∀ other ∈ [] ++ left client, _
      rw [hleft]
      exact hready.older
  refine ⟨(forall_next_iff (congrArg (Option.map (next h e)) hact)).mpr hready', lawful_of_act hact hready'.delivered
    (fun fetcher invoiceId other hmem => ?_) (fun other hother => ?_) hown.symm (fun heq => absurd heq hfired)⟩
  · cases List.mem_singleton.mp hmem
  · cases hother

theorem proper_threw (hready : Ready maxBatchSize [] h) {error : E} (hspares : Spares maxBatchSize h (.threw error)) :
    Proper maxBatchSize h (.threw error) := by
  cases hloops : h.client.dispatching with
  | nil =>
      refine proper_of_act_none ?_
      unfold act
      rw [hloops]
  | cons loop dispatching =>
      obtain ⟨henqueuing, hrest⟩ := hspares loop (by rw [hloops]; rfl)
      have hact : act maxBatchSize h (.threw error) =
          some ({ h.client with dispatching }, [.settled loop.call (.rejected (.thrown error))]) := by
        unfold act threw
        rw [hloops]
        dsimp only
        rw [henqueuing]
      refine proper_of_settle hready { h.client with dispatching } hact rfl rfl ?_ ?_ hready.armed (fun other hother => ?_) ?_
        (by rintro ⟨⟩)
      · unfold outcomesOf
        rw [hloops]
        rfl
      · unfold left
        rw [hloops, List.flatMap_cons, hrest]
        rfl
      · rw [hloops]
        exact List.mem_cons_of_mem loop hother
      · rw [hloops]
        exact List.Perm.refl _

theorem proper_settled (hready : Ready maxBatchSize [] h) (k : Nat) (outcome : Outcome V E) :
    Proper maxBatchSize h (.settled k outcome) := by
  cases hcall : h.client.awaiting[k]? with
  | none => exact proper_of_act_none (congrArg (Option.map (fun call => settle h.client k call outcome)) hcall)
  | some call =>
      refine proper_of_settle hready { h.client with awaiting := h.client.awaiting.eraseIdx k }
        (congrArg (Option.map (fun call => settle h.client k call outcome)) hcall) rfl rfl
        (congrArg (fun found => (Option.map (fun call : PendingCall => (call, outcome)) found).toList) hcall) rfl
        hready.armed (fun _ hloop => hloop) ?_ (by rintro ⟨⟩)
      obtain ⟨hlt, rfl⟩ := List.getElem?_eq_some_iff.mp hcall
      exact List.perm_middle.symm.trans ((List.getElem_cons_eraseIdx_perm hlt).append_left _)

theorem proper_of_spares (hready : Ready maxBatchSize [] h) {e : Event V E} (hspares : Spares maxBatchSize h e) :
    Proper maxBatchSize h e := by
  cases e with
  | call type invoiceId => exact proper_call hready hspares
  | fired => exact proper_fired hready hspares
  | clear => exact proper_clear hready
  | returned => exact proper_returned hready
  | threw error => exact proper_threw hready hspares
  | settled k outcome => exact proper_settled hready k outcome

theorem Lawful.result {e : Event V E} (hlawful : Lawful maxBatchSize h e) {result : BatchedRpcClient × List (Effect V E)}
    (hact : act maxBatchSize h e = some result) :
    Delivered maxBatchSize (next h e result) ∧
      (∀ call ∈ fetchedIn result.2, ∀ other ∈ left result.1, call.number < other.number) ∧
      settledIn result.2 = outcomesOf h e ∧ (e = .fired → h.client.pending ≠ [] → fetchedIn result.2 ≠ []) :=
  ⟨hlawful.delivered _ (congrArg (Option.map (next h e)) hact), hlawful.first _ _ hact, hlawful.own _ _ hact,
    hlawful.taken _ _ hact⟩

/-- The first of the pending calls was made after all that the loops have left. -/
theorem outer_of_lawful_call (hready : Ready maxBatchSize [] h) {type : BatchCallType} {invoiceId : String}
    (hlawful : Lawful maxBatchSize h (.call type invoiceId)) : Spares maxBatchSize h (.call type invoiceId) := by
  intro hoverflow hcount
  have horder := (hready.called type invoiceId).order
  change ((h.client.dispatching.flatMap Dispatch.rest) ++
    (h.client.pending ++ [PendingCall.mk h.calls.length type invoiceId])).Pairwise _ at horder
  have hact : act maxBatchSize h (.call type invoiceId) = some (enqueue maxBatchSize h.client ⟨h.calls.length, type, invoiceId⟩) := rfl
  unfold enqueue at hact
  generalize hpending : h.client.pending ++ [PendingCall.mk h.calls.length type invoiceId] = pending at hact horder
  have hlength : pending.length = h.client.pending.length + 1 := by
    rw [← hpending, List.length_append, List.length_singleton]
  have hne : pending ≠ [] := by
    rw [← List.length_pos_iff, hlength]
    exact Nat.succ_pos _
  rw [← hlength] at hoverflow hcount
  dsimp only at hact
  rw [if_pos hoverflow, flush_eq hne] at hact
  have hfirst := (hlawful.result hact).2.1
  rw [fetchedIn_dispatchBatch] at hfirst
  dsimp only at hfirst
  cases htake : pending.take (spliceCount pending.length maxBatchSize) with
  | nil =>
      rcases List.take_eq_nil_iff.mp htake with hzero | hempty
      · exact absurd hzero hcount
      · exact absurd hempty hne
  | cons call rest =>
      rw [htake] at hfirst
      by_contra houter
      obtain ⟨other, hother⟩ := List.exists_mem_of_ne_nil _ houter
      have hcall : call ∈ pending := List.mem_of_mem_take (htake ▸ List.mem_cons_self)
      have hbefore := (List.pairwise_append.mp horder).2.2 other hother call hcall
      have hafter := hfirst call (List.mem_singleton_self call) other
        (List.mem_append_left _ (List.mem_append_right rest hother))
      exact Nat.lt_asymm hbefore hafter

theorem spares_of_lawful (hready : Ready maxBatchSize [] h) {e : Event V E} (hlawful : Lawful maxBatchSize h e) :
    Spares maxBatchSize h e := by
  cases e with
  | call type invoiceId => exact outer_of_lawful_call hready hlawful
  | fired =>
      intro htimer hidle hne hzero
      have hact : act maxBatchSize h .fired = some (flush maxBatchSize h.client none) := if_pos ⟨htimer, hidle⟩
      rw [flush_eq hne] at hact
      have htaken := (hlawful.result hact).2.2.2 rfl hne
      rw [fetchedIn_dispatchBatch, hzero, List.take_zero] at htaken
      exact htaken rfl
  | threw error =>
      intro loop hloop
      obtain ⟨dispatching, hloops⟩ := List.head?_eq_some_iff.mp hloop
      have hact : act maxBatchSize h (.threw error) = some (threw h.client loop dispatching error) := by
        unfold act
        rw [hloops]
      obtain ⟨hdelivered, -, hown, -⟩ := hlawful.result hact
      have houtcomes : outcomesOf h (.threw (V := V) error) = [(loop.call, .rejected (.thrown error))] := by
        unfold outcomesOf
        rw [hloops]
        rfl
      rw [houtcomes] at hown
      unfold threw at hown hdelivered
      have henqueuing : loop.enqueuing = some loop.call := by
        cases henqueuing : loop.enqueuing with
        | none =>
            rw [henqueuing] at hown
            cases hown
        | some call =>
            rw [henqueuing] at hown
            rw [(Prod.mk.inj (List.cons.inj hown).1).1]
      refine ⟨henqueuing, ?_⟩
      -- the rest of the batch would be missing among the calls
      rw [henqueuing] at hdelivered
      have honce := hdelivered.once
      change (h.fetched ++ [] ++ (h.cleared ++ []) ++ (dispatching.flatMap Dispatch.rest ++ h.client.pending)).Perm
        (h.calls ++ []) at honce
      simp only [List.append_nil] at honce
      have hlength := (honce.trans hready.once.symm).length_eq
      unfold left at hlength
      rw [hloops, List.flatMap_cons] at hlength
      simp only [List.length_append, List.length_nil] at hlength
      rw [← List.length_eq_zero_iff]
      omega
  | clear => trivial
  | returned => trivial
  | settled k outcome => trivial

theorem lawful_iff (h : History V E) (e : Event V E) (hready : Ready maxBatchSize [] h) :
    Lawful maxBatchSize h e ↔ Spares maxBatchSize h e :=
  ⟨spares_of_lawful hready, fun hspares => (proper_of_spares hready hspares).lawful⟩

/-- Every call reaches its fetcher in its turn or is cleared, and its promise is settled as that says, just when no batch
is empty, none overtakes another and none is broken off by a throw. -/
theorem calls_delivered_iff (maxBatchSize : MaxBatchSize) (events : List (Event V E)) :
    Allowed (step maxBatchSize) (Lawful maxBatchSize) {} events ↔
      Allowed (step maxBatchSize) (Spares maxBatchSize) {} events :=
  allowed_iff (fun h e h' hready hlawful => (proper_of_spares hready (spares_of_lawful hready hlawful)).ready h')
    lawful_iff (start_ready maxBatchSize) events

/-- The first of two calls is thrown out of the batch, and the second one goes with it. -/
theorem calls_delivered_fail :
    ¬∀ (maxBatchSize : MaxBatchSize) (events : List (Event Unit Unit)),
      Allowed (step maxBatchSize) (Lawful maxBatchSize) {} events := by
  intro hall
  let two : MaxBatchSize := ⟨.finite 2, by decide⟩
  let a : PendingCall := ⟨0, .getInvoice, "a"⟩
  let b : PendingCall := ⟨1, .getInvoice, "b"⟩
  obtain ⟨-, hnext⟩ := hall two [.call .getInvoice "a", .call .getInvoice "b", .threw ()]
  obtain ⟨-, hnext⟩ := hnext ⟨⟨[a], true, [], []⟩, [a], [], [], []⟩ rfl
  obtain ⟨hlawful, -⟩ := hnext ⟨⟨[], false, [⟨some b, a, [b]⟩], []⟩, [a, b], [a], [], []⟩ rfl
  have hown := hlawful.own ⟨[], false, [], []⟩ [.settled b (.rejected (.thrown ()))] rfl
  exact absurd (congrArg (List.map (fun entry => entry.1.number)) hown) (by decide)

end Condition

end SplitSdk.BatchedDelivery
