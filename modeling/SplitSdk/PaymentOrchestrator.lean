import SplitSdk.Interleaving
import SplitSdk.Numbers

namespace SplitSdk.PaymentOrchestrator

open Interleaving Numbers

inductive PaymentStatus
  | queued
  | processing
  | completed
  | failed
  deriving DecidableEq

structure PaymentParams where
  invoiceId : Int
  payer : String
  amount : Int
  id : Option String := none
  deriving DecidableEq

structure QueuedPayment where
  id : String
  invoiceId : Int
  payer : String
  amount : Int
  status : PaymentStatus
  attempts : Nat
  lastError : Option String
  deriving DecidableEq

/-- The constructor's arguments, after its defaults. -/
structure Options where
  maxRetries : JsNumber := .finite 3
  baseRetryDelayMs : ℚ := 200

/-- The payment objects are shared by reference, so the lists hold the place of a
payment in `entries`, where it was put when it was queued. -/
abbrev Ref := Nat

/-- Where a `process()` call is suspended, or which listeners it is notifying. A
listener may call the orchestrator back, so a notification is a step of its own. -/
inductive Position
  | nextPayment
  | notifyProcessing (payment : Ref)
  | awaitExecutor (payment : Ref)
  | notifyCompleted (payment : Ref) (txHash : String)
  | notifyFailed (payment : Ref) (error : String) (canRetry : Bool)
  | awaitDelay (payment : Ref) (delayMs : ℚ)
  | returned
  | rejected (error : String)
  deriving DecidableEq

structure Process where
  batch : List Ref
  position : Position
  deriving DecidableEq

/-- A history of the executor, kept for the statements only; the newest entry is first. -/
inductive ExecutorEvent
  | called (payment : Ref)
  | resolved (payment : Ref)
  | rejected (payment : Ref)
  deriving DecidableEq

structure State where
  entries : List QueuedPayment := []
  queue : List Ref := []
  completed : List Ref := []
  failed : List Ref := []
  processing : Option Ref := none
  processes : List Process := []
  history : List ExecutorEvent := []
  drained : Nat := 0
  deriving DecidableEq

structure OrchestratorStatus where
  queued : Nat
  processing : Nat
  completed : Nat
  failed : Nat
  total : Nat
  deriving DecidableEq

def getStatus (s : State) : OrchestratorStatus :=
  let processing := if s.processing.isSome then 1 else 0
  ⟨s.queue.length, processing, s.completed.length, s.failed.length,
    s.queue.length + processing + s.completed.length + s.failed.length⟩

def queue (s : State) (params : PaymentParams) (generatedId : String) : State :=
  { s with
    entries := s.entries ++ [⟨params.id.getD generatedId, params.invoiceId, params.payer,
      params.amount, .queued, 0, none⟩]
    queue := s.queue ++ [s.entries.length] }

def drain (s : State) : State := { s with queue := [], drained := s.drained + s.queue.length }

def update (s : State) (p : Ref) (f : QueuedPayment → QueuedPayment) : State :=
  { s with entries := s.entries.modify p f }

def moveTo (s : State) (r : Nat) (proc : Process) : State :=
  { s with processes := s.processes.set r proc }

/-- The top of the retry loop, up to the notification. -/
def attempt (s : State) (r : Nat) (batch : List Ref) (p : Ref) : State :=
  moveTo (update s p (fun e => { e with status := .processing })) r ⟨batch, .notifyProcessing p⟩

/-- The `for` loop of `process` takes its next payment, or the call returns. -/
def takeNext (s : State) (r : Nat) : List Ref → State
  | [] => moveTo s r ⟨[], .returned⟩
  | p :: batch => attempt { s with processing := some p } r batch p

def process (s : State) : State :=
  takeNext { s with queue := [], processes := s.processes ++ [⟨s.queue, .nextPayment⟩] }
    s.processes.length s.queue

/-- `attempts < 1 + maxRetries`, which no count satisfies for `NaN`. -/
def canRetry (options : Options) (attempts : Nat) : Bool :=
  match options.maxRetries with
  | .finite q => decide ((attempts : ℚ) < 1 + q)
  | .infinity negative => !negative
  | .nan => false

def attemptsOf (s : State) (p : Ref) : Nat := ((s.entries[p]?).map (·.attempts)).getD 0

/-- The `catch` block up to its notification: entered when the executor fails and
also when a listener of `payment:completed` throws. -/
def catchError (options : Options) (s : State) (r : Nat) (batch : List Ref) (p : Ref)
    (error : String) : State :=
  moveTo (update s p (fun e => { e with lastError := some error })) r
    ⟨batch, .notifyFailed p error (canRetry options (attemptsOf s p))⟩

inductive Outcome
  | done (txHash : String)
  | threw (error : String)
  deriving DecidableEq

/-- What a suspended `process()` call does next. The outcome is that of the
listeners it notifies or of the executor it awaits. -/
def resume (options : Options) (s : State) (r : Nat) (proc : Process) (outcome : Outcome) :
    Option State :=
  match proc.position, outcome with
  | .nextPayment, .done _ => some (takeNext s r proc.batch)
  | .notifyProcessing p, .done _ =>
      let s := update s p (fun e => { e with attempts := e.attempts + 1 })
      some (moveTo { s with history := .called p :: s.history } r ⟨proc.batch, .awaitExecutor p⟩)
  -- thrown outside the `try` block, so `process()` rejects and drops its batch
  | .notifyProcessing _, .threw error => some (moveTo s r ⟨[], .rejected error⟩)
  | .awaitExecutor p, .done txHash =>
      let s := update s p (fun e => { e with status := .completed })
      some (moveTo { s with
        completed := s.completed ++ [p]
        processing := none
        history := .resolved p :: s.history } r ⟨proc.batch, .notifyCompleted p txHash⟩)
  | .awaitExecutor p, .threw error =>
      some (catchError options { s with history := .rejected p :: s.history } r proc.batch p error)
  | .notifyCompleted _ _, .done _ => some (moveTo s r ⟨proc.batch, .nextPayment⟩)
  | .notifyCompleted p _, .threw error => some (catchError options s r proc.batch p error)
  | .notifyFailed p _ true, .done _ =>
      some (moveTo s r ⟨proc.batch,
        .awaitDelay p (options.baseRetryDelayMs * 2 ^ ((attemptsOf s p : Int) - 1))⟩)
  | .notifyFailed p _ false, .done _ =>
      let s := update s p (fun e => { e with status := .failed })
      some (moveTo { s with failed := s.failed ++ [p], processing := none } r
        ⟨proc.batch, .nextPayment⟩)
  -- thrown inside the `catch` block, so `process()` rejects here too
  | .notifyFailed _ _ _, .threw error => some (moveTo s r ⟨[], .rejected error⟩)
  | .awaitDelay p _, .done _ => some (attempt s r proc.batch p)
  | _, _ => none

inductive Action
  | queue (params : PaymentParams) (generatedId : String)
  | process
  | drain
  | resume (r : Nat) (outcome : Outcome)
  deriving DecidableEq

def step (options : Options) (s : State) : Action → Option State
  | .queue params generatedId => some (queue s params generatedId)
  | .process => some (process s)
  | .drain => some (drain s)
  | .resume r outcome => (s.processes[r]?).bind (fun proc => resume options s r proc outcome)

end SplitSdk.PaymentOrchestrator

namespace SplitSdk.OrchestratorOnce

open Interleaving PaymentOrchestrator

/-- The payments a `process()` call still has to bring to an end. -/
def owned (proc : Process) : List Ref :=
  match proc.position with
  | .notifyProcessing p | .awaitExecutor p | .notifyFailed p _ _ | .awaitDelay p _ => p :: proc.batch
  | .nextPayment | .notifyCompleted _ _ => proc.batch
  | .returned | .rejected _ => []

/-- How often payment `p` is held by the orchestrator. -/
def holders (p : Ref) (s : State) : Nat :=
  s.queue.count p + (s.processes.map (fun proc => (owned proc).count p)).sum +
    s.completed.count p + s.failed.count p

structure Inv (s : State) : Prop where
  fresh : ∀ p, s.entries.length ≤ p → holders p s = 0
  once : ∀ p, holders p s ≤ 1
  resolved : ∀ p, .resolved p ∈ s.history → p ∈ s.completed
  order : s.history.Pairwise (fun later earlier => ∀ p, later = .called p → earlier ≠ .resolved p)

/-- No listener of `payment:completed` throws. -/
def QuietCompletion (s : State) : Action → Prop
  | .resume r (.threw _) => ∀ proc, s.processes[r]? = some proc → ∀ p tx,
      proc.position ≠ .notifyCompleted p tx
  | _ => True

theorem initial_inv : Inv {} := by
  refine ⟨fun p _ => rfl, fun p => Nat.zero_le _, ?_, .nil⟩
  intro p h
  cases h

section Holders

variable {s : State} {r : Nat} {proc : Process} (h : s.processes[r]? = some proc)

include h in
theorem holders_moveTo (p : Ref) (next : Process) :
    holders p (moveTo s r next) + (owned proc).count p = holders p s + (owned next).count p := by
  have := sum_set (fun proc => (owned proc).count p) s.processes r proc next h
  simp only [holders, moveTo]
  omega

include h in
theorem owned_le_holders (p : Ref) :
    (owned proc).count p + s.completed.count p + s.failed.count p ≤ holders p s := by
  have := le_sum (fun proc => (owned proc).count p) s.processes r proc h
  simp only [holders]
  omega

include h in
theorem not_completed_of_owned (hi : Inv s) {p : Ref} (hp : p ∈ owned proc) : p ∉ s.completed := by
  have hle := owned_le_holders h p
  have hone := hi.once p
  have hpos := List.count_pos_iff.mpr hp
  intro hc
  have := List.count_pos_iff.mpr hc
  omega

include h in
theorem holders_takeNext (p : Ref) (batch : List Ref) (hb : owned proc = batch) :
    holders p (takeNext s r batch) = holders p s := by
  cases batch with
  | nil =>
      have := holders_moveTo h p ⟨[], .returned⟩
      rw [hb] at this
      simpa [takeNext, owned] using this
  | cons q batch =>
      have := holders_moveTo h p ⟨batch, .notifyProcessing q⟩
      rw [hb] at this
      simpa [takeNext, attempt, owned, holders, moveTo, update] using this

end Holders

theorem holders_queue (s : State) (params : PaymentParams) (id : String) (p : Ref) :
    holders p (queue s params id) = holders p s + if p = s.entries.length then 1 else 0 := by
  have hone : [s.entries.length].count p = if p = s.entries.length then 1 else 0 := by
    by_cases h : p = s.entries.length
    · subst h; simp
    · rw [if_neg h, List.count_eq_zero_of_not_mem (by simpa using h)]
  simp only [holders, queue, List.count_append, hone]
  omega

theorem holders_drain (s : State) (p : Ref) : holders p (drain s) ≤ holders p s := by
  simp only [holders, drain, List.count_nil]
  omega

theorem holders_process (s : State) (p : Ref) : holders p (process s) = holders p s := by
  have hnew : (s.processes ++ [⟨s.queue, .nextPayment⟩])[s.processes.length]? =
      some ⟨s.queue, .nextPayment⟩ := by simp
  rw [process, holders_takeNext (by exact hnew) p s.queue rfl]
  simp [holders, owned]
  omega

/-- A resumed call passes its payments on or drops them, and takes no others. -/
theorem holders_resume (options : Options) {s t : State} {r : Nat} {proc : Process}
    (h : s.processes[r]? = some proc) (outcome : Outcome)
    (hquiet : QuietCompletion s (.resume r outcome)) (ht : resume options s r proc outcome = some t)
    (p : Ref) : holders p t ≤ holders p s := by
  obtain ⟨batch, position⟩ := proc
  have hmove (next : Process) := holders_moveTo h p next
  cases position with
  | nextPayment =>
      cases outcome <;> cases ht
      exact (holders_takeNext h p batch rfl).le
  | notifyProcessing q =>
      cases outcome with
      | done =>
          cases ht
          have := hmove ⟨batch, .awaitExecutor q⟩
          simp only [holders, moveTo, update, owned] at this ⊢
          omega
      | threw e =>
          cases ht
          have := hmove ⟨[], .rejected e⟩
          simp only [owned, List.count_nil] at this
          omega
  | awaitExecutor q =>
      cases outcome with
      | done tx =>
          cases ht
          have := hmove ⟨batch, .notifyCompleted q tx⟩
          simp only [holders, moveTo, update, owned, List.count_append, List.count_cons,
            List.count_nil] at this ⊢
          omega
      | threw e =>
          cases ht
          have := hmove ⟨batch, .notifyFailed q e (canRetry options (attemptsOf s q))⟩
          simp only [holders, catchError, moveTo, update, owned, attemptsOf] at this ⊢
          omega
  | notifyCompleted q tx =>
      cases outcome with
      | done =>
          cases ht
          have := hmove ⟨batch, .nextPayment⟩
          simp only [owned] at this ⊢
          omega
      | threw e => exact absurd rfl (hquiet _ h q tx)
  | notifyFailed q e retry =>
      cases outcome with
      | done =>
          cases retry with
          | true =>
              cases ht
              have := hmove ⟨batch, .awaitDelay q
                (options.baseRetryDelayMs * 2 ^ ((attemptsOf s q : Int) - 1))⟩
              simp only [owned] at this ⊢
              omega
          | false =>
              cases ht
              have := hmove ⟨batch, .nextPayment⟩
              simp only [holders, moveTo, update, owned, List.count_append, List.count_cons,
                List.count_nil] at this ⊢
              omega
      | threw e' =>
          have hdrop : t = moveTo s r ⟨[], .rejected e'⟩ := by cases retry <;> cases ht <;> rfl
          have := hmove ⟨[], .rejected e'⟩
          simp only [owned, List.count_nil] at this
          rw [hdrop]
          omega
  | awaitDelay q ms =>
      cases outcome <;> cases ht
      have := hmove ⟨batch, .notifyProcessing q⟩
      simp only [holders, attempt, moveTo, update, owned] at this ⊢
      omega
  | returned | rejected => cases outcome <;> cases ht

/-- What a step of a resumed call adds to the history, and what it has completed by then. -/
theorem history_resume (options : Options) {s t : State} {r : Nat} {proc : Process}
    (outcome : Outcome) (ht : resume options s r proc outcome = some t) :
    s.completed <+: t.completed ∧
      (t.history = s.history ∨
        (∃ p ∈ owned proc, t.history = .called p :: s.history) ∨
        (∃ p, t.history = .rejected p :: s.history) ∨
        (∃ p ∈ t.completed, t.history = .resolved p :: s.history)) := by
  obtain ⟨batch, position⟩ := proc
  cases position with
  | nextPayment =>
      cases outcome <;> cases ht
      cases batch <;> exact ⟨List.prefix_rfl, .inl rfl⟩
  | notifyProcessing q =>
      cases outcome <;> cases ht
      · exact ⟨List.prefix_rfl, .inr (.inl ⟨q, List.mem_cons_self, rfl⟩)⟩
      · exact ⟨List.prefix_rfl, .inl rfl⟩
  | awaitExecutor q =>
      cases outcome <;> cases ht
      · exact ⟨List.prefix_append _ _, .inr (.inr (.inr ⟨q, by simp [moveTo, update], rfl⟩))⟩
      · exact ⟨List.prefix_rfl, .inr (.inr (.inl ⟨q, rfl⟩))⟩
  | notifyCompleted q tx => cases outcome <;> cases ht <;> exact ⟨List.prefix_rfl, .inl rfl⟩
  | notifyFailed q e retry =>
      cases retry <;> cases outcome <;> cases ht <;> exact ⟨List.prefix_rfl, .inl rfl⟩
  | awaitDelay q ms =>
      cases outcome <;> cases ht
      exact ⟨List.prefix_rfl, .inl rfl⟩
  | returned | rejected => cases outcome <;> cases ht

theorem entries_length_resume (options : Options) {s t : State} {r : Nat} {proc : Process}
    (outcome : Outcome) (ht : resume options s r proc outcome = some t) :
    t.entries.length = s.entries.length := by
  obtain ⟨batch, position⟩ := proc
  cases position with
  | nextPayment =>
      cases outcome <;> cases ht
      cases batch <;> simp [takeNext, attempt, moveTo, update]
  | notifyFailed q e retry => cases retry <;> cases outcome <;> cases ht <;> simp [moveTo, update]
  | notifyProcessing | awaitExecutor | notifyCompleted | awaitDelay | returned | rejected =>
      cases outcome <;> cases ht <;> simp [attempt, catchError, moveTo, update]

theorem resume_inv (options : Options) {s t : State} (r : Nat) (outcome : Outcome) (hi : Inv s)
    (hquiet : QuietCompletion s (.resume r outcome))
    (hstep : step options s (.resume r outcome) = some t) : Inv t := by
  obtain ⟨proc, h, ht⟩ := Option.bind_eq_some_iff.mp hstep
  have hle := holders_resume options h outcome hquiet ht
  obtain ⟨hcompleted, hhistory⟩ := history_resume options outcome ht
  have hold : ∀ p, .resolved p ∈ s.history → p ∈ t.completed :=
    fun p hp => hcompleted.subset (hi.resolved p hp)
  refine ⟨fun p hp => ?_, fun p => (hle p).trans (hi.once p), ?_, ?_⟩
  · have := hi.fresh p (by rwa [entries_length_resume options outcome ht] at hp)
    have := hle p
    omega
  · obtain he | ⟨q, _, he⟩ | ⟨q, he⟩ | ⟨q, hq, he⟩ := hhistory <;> rw [he] <;> intro p hp
    · exact hold p hp
    · exact hold p (by simpa using hp)
    · exact hold p (by simpa using hp)
    · rcases List.mem_cons.mp hp with hp | hp
      · cases hp; exact hq
      · exact hold p hp
  · obtain he | ⟨q, hq, he⟩ | ⟨q, he⟩ | ⟨q, _, he⟩ := hhistory <;> rw [he]
    · exact hi.order
    · -- a payment that has resolved is in `completed`, so no call owns it any more
      refine List.pairwise_cons.mpr ⟨?_, hi.order⟩
      rintro e he p hp rfl
      cases hp
      exact not_completed_of_owned h hi hq (hi.resolved _ he)
    · exact List.pairwise_cons.mpr ⟨fun _ _ _ hp => (nomatch hp), hi.order⟩
    · exact List.pairwise_cons.mpr ⟨fun _ _ _ hp => (nomatch hp), hi.order⟩

theorem step_inv (options : Options) (s : State) (action : Action) (t : State) (hi : Inv s)
    (hquiet : QuietCompletion s action) (hstep : step options s action = some t) : Inv t := by
  cases action with
  | queue params id =>
      cases hstep
      refine ⟨fun p hp => ?_, fun p => ?_, hi.resolved, hi.order⟩
      · rw [holders_queue]
        simp only [queue, List.length_append, List.length_singleton] at hp
        rw [hi.fresh p (by omega), if_neg (Nat.ne_of_gt hp)]
      · rw [holders_queue]
        split
        · next h => rw [hi.fresh p h.ge]
        · exact hi.once p
  | process =>
      cases hstep
      have hfields : (process s).entries.length = s.entries.length ∧
          (process s).completed = s.completed ∧ (process s).history = s.history := by
        cases h : s.queue <;> simp [process, takeNext, attempt, moveTo, update, h]
      obtain ⟨he, hc, hh⟩ := hfields
      exact ⟨fun p hp => by rw [holders_process]; exact hi.fresh p (he ▸ hp),
        fun p => by rw [holders_process]; exact hi.once p, by rw [hc, hh]; exact hi.resolved,
        by rw [hh]; exact hi.order⟩
  | drain =>
      cases hstep
      exact ⟨fun p hp => Nat.le_zero.mp ((holders_drain s p).trans (hi.fresh p hp).le),
        fun p => (holders_drain s p).trans (hi.once p), hi.resolved, hi.order⟩
  | resume r outcome => exact resume_inv options r outcome hi hquiet hstep

/-- Once the executor has resolved for a payment it is not called with it again, and
the payment is in `completed` once and not in `failed`. -/
def SettledOnce (s : State) : Prop :=
  s.history.Pairwise (fun later earlier => ∀ p, later = .called p → earlier ≠ .resolved p) ∧
    ∀ p, .resolved p ∈ s.history → s.completed.count p = 1 ∧ p ∉ s.failed

theorem Inv.settledOnce {s : State} (hi : Inv s) : SettledOnce s := by
  refine ⟨hi.order, fun p hp => ?_⟩
  have hpos := List.count_pos_iff.mpr (hi.resolved p hp)
  have hone := hi.once p
  simp only [holders] at hone
  refine ⟨by omega, fun hf => ?_⟩
  have := List.count_pos_iff.mpr hf
  omega

/-- At most one successful execution of a payment, in every run in which no listener
of `payment:completed` throws. -/
theorem executor_settles_once (options : Options) (actions : List Action) (s : State)
    (hquiet : Allowed (step options) QuietCompletion {} actions)
    (hrun : run (step options) {} actions = some s) : SettledOnce s :=
  (run_invariant (step_inv options) {} s actions initial_inv hquiet hrun).settledOnce

def onePayment : PaymentParams := ⟨1, "GABC", 100_000_000, some "payment-1"⟩

theorem executor_settles_once_single :
    SettledOnce ((run (step {}) {} [.queue onePayment "", .process, .resume 0 (.done ""),
      .resume 0 (.done "tx"), .resume 0 (.done "")]).getD {}) := by
  refine executor_settles_once {} [.queue onePayment "", .process, .resume 0 (.done ""),
    .resume 0 (.done "tx"), .resume 0 (.done "")] _ ?_ rfl
  simp only [Allowed, QuietCompletion, true_and]
  intros
  trivial

/-- The listener of `payment:completed` throws, the error is taken for one of the
executor, and the completed payment is executed again. -/
def payTwice : List Action :=
  [.queue onePayment "", .process, .resume 0 (.done ""), .resume 0 (.done "tx"),
    .resume 0 (.threw "listener"), .resume 0 (.done ""), .resume 0 (.done ""), .resume 0 (.done "")]

theorem payTwice_not_settledOnce : ∃ s, run (step {}) {} payTwice = some s ∧ ¬SettledOnce s := by
  have h : (run (step {}) {} payTwice).map (·.history) =
      some [.called 0, .resolved 0, .called 0] := by decide +kernel
  obtain ⟨s, hs, hh⟩ := Option.map_eq_some_iff.mp h
  refine ⟨s, hs, fun hsettled => ?_⟩
  have horder := hsettled.1
  rw [hh] at horder
  exact (List.pairwise_cons.mp horder).1 (.resolved 0) (by decide) 0 rfl rfl

end SplitSdk.OrchestratorOnce
