import SplitSdk.HorizonStream
import SplitSdk.NumberText

namespace SplitSdk.ReconnectBudget

open Numbers NumberText HorizonStream Interleaving

section Statement

/-- The stream fails, or the timer to reconnect fires. -/
inductive Failure
  | error
  | reconnect
  deriving DecidableEq

def Failure.event : Failure → Event
  | .error => .error
  | .reconnect => .reconnect

def shownDelay : StreamEvent → Option JsNumber
  | .reconnecting _ delayMs => some delayMs
  | _ => none

def isReconnection : StreamEvent → Bool
  | .reconnected _ => true
  | _ => false

def delays (m : HorizonStreamManager) : List JsNumber := m.emitted.filterMap shownDelay

def reconnections (m : HorizonStreamManager) : Nat := m.emitted.countP isReconnection

/-- The delay doubles up to the greatest one. -/
def backoff (base : JsNumber) (k : Nat) : JsNumber :=
  match base with
  | .finite q => .finite (min (q * 2 ^ k) MAX_RECONNECT_DELAY_MS)
  | .infinity false => .finite MAX_RECONNECT_DELAY_MS
  | .infinity true => .infinity true
  | .nan => .nan

def Budgeted (limit : ℚ) (base : JsNumber) (m : HorizonStreamManager) : Prop :=
  reconnections m ≤ limit ∧ delays m = (List.range (delays m).length).map (backoff base)

/-- Doubling does not change the delay. -/
def Flat : JsNumber → Prop
  | .finite q => q = 0 ∨ MAX_RECONNECT_DELAY_MS ≤ q
  | _ => True

def limited (config : HorizonStreamManagerConfig) (limit : ℚ) (base : Double) : HorizonStreamManagerConfig :=
  { config with maxReconnectAttempts := .finite limit, reconnectDelayMs := base.1 }

end Statement

section Delays

theorem delayMs_one (config : HorizonStreamManagerConfig) (limit : ℚ) (base : Double) :
    delayMs (limited config limit base) 1 = backoff base.1 0 := by
  have hone : fl (2 ^ (1 - 1)) = .finite 1 := by
    have hdouble : fl ((1 : Nat) : ℚ) = .finite ((1 : Nat) : ℚ) := isDouble_natCast (by norm_num)
    rwa [Nat.cast_one] at hdouble
  rw [delayMs, limited]
  dsimp only
  rw [hone]
  obtain ⟨base, hbase⟩ := base
  cases base with
  | nan => rfl
  | infinity negative => cases negative <;> simp [JsNumber.mul, mathMin, backoff, JsNumber.lt]
  | finite q =>
      have hq : fl (q * 1) = .finite q := by rw [mul_one]; exact hbase
      rw [JsNumber.mul, hq, mathMin, backoff, if_neg (by simp), pow_zero, mul_one, min_def]
      simp only [JsNumber.lt, decide_eq_true_eq]
      split_ifs with hlt hle hle
      · rfl
      · exact absurd hlt.le hle
      · exact congrArg JsNumber.finite (le_antisymm (not_lt.mp hlt) hle)
      · rfl

theorem backoff_flat {base : JsNumber} (h : Flat base) (k : Nat) : backoff base k = backoff base 0 := by
  cases base with
  | nan => rfl
  | infinity negative => cases negative <;> rfl
  | finite q =>
      rw [backoff, backoff, pow_zero, mul_one]
      rcases h with rfl | hle
      · rw [zero_mul]
      · have hpow : q ≤ q * 2 ^ k := by
          have hq : 0 ≤ q := le_trans (by norm_num [MAX_RECONNECT_DELAY_MS]) hle
          exact le_mul_of_one_le_right hq (one_le_pow₀ (by norm_num))
        rw [min_eq_right hle, min_eq_right (hle.trans hpow)]

theorem flat_of_backoff {base : JsNumber} (h : backoff base 1 = backoff base 0) : Flat base := by
  cases base with
  | nan => trivial
  | infinity negative => trivial
  | finite q =>
      have heq := JsNumber.finite.inj h
      rw [pow_one, pow_zero, mul_one] at heq
      refine or_iff_not_imp_right.mpr (fun hlt => ?_)
      have hq := not_le.mp hlt
      rw [min_eq_left hq.le] at heq
      rcases le_total (q * 2) MAX_RECONNECT_DELAY_MS with hle | hle
      · rw [min_eq_left hle] at heq
        linarith
      · rw [min_eq_right hle] at heq
        exact absurd heq hq.ne'

theorem replicate_eq_iff (base : JsNumber) (n : Nat) :
    List.replicate n (backoff base 0) = (List.range n).map (backoff base) ↔ n ≤ 1 ∨ Flat base := by
  constructor
  · intro h
    rcases Nat.lt_or_ge 1 n with hlt | hge
    · have hsecond := congrArg (fun delays => delays[1]?) h
      simp [hlt] at hsecond
      exact .inr (flat_of_backoff hsecond.symm)
    · exact .inl hge
  · rintro (hn | hflat)
    · rcases Nat.le_one_iff_eq_zero_or_eq_one.mp hn with rfl | rfl <;> rfl
    · refine (List.eq_replicate_iff.mpr ⟨?_, fun delay hdelay => ?_⟩).symm
      · rw [List.length_map, List.length_range]
      · obtain ⟨k, -, rfl⟩ := List.mem_map.mp hdelay
        exact backoff_flat hflat k

end Delays

section Runs

variable {position : String → Nat} {dateParse : String → JsNumber} {config : HorizonStreamManagerConfig}
variable {history : History position} {s t : Session}

/-- After so many failures and reconnections: the stream is open, or the timer runs after the first attempt. -/
structure Failing (config : HorizonStreamManagerConfig) (errors reconnects : Nat) (m : HorizonStreamManager) : Prop where
  delays : delays m = List.replicate errors (delayMs config 1)
  reconnections : reconnections m = reconnects
  stopped : m.stopped = false
  attempts : m.stream.isSome → m.reconnectAttempts = 0

/-- The first failure has been the last. -/
structure Ended (m : HorizonStreamManager) : Prop where
  delays : delays m = []
  reconnections : reconnections m = 0
  stream : m.stream = none
  reconnectTimer : m.reconnectTimer = none

theorem failing_start (config : HorizonStreamManagerConfig) (history : History position) (cursorStore : Option String) :
    Failing config 0 0 (start history cursorStore) := ⟨rfl, rfl, rfl, fun _ => rfl⟩

theorem delays_emit (m : HorizonStreamManager) (event : StreamEvent) :
    delays (emit m event) = delays m ++ (shownDelay event).toList := by
  rw [delays, emit, List.filterMap_append]
  cases event <;> rfl

theorem reconnections_emit (m : HorizonStreamManager) (event : StreamEvent) :
    reconnections (emit m event) = reconnections m + (isReconnection event).toNat := by
  rw [reconnections, emit, List.countP_append]
  cases event <;> rfl

/-- An error that finds the stream open after no attempt. -/
theorem onError_open {errors reconnects : Nat} {m : HorizonStreamManager} (h : Failing config errors reconnects m)
    (hstream : m.stream.isSome) : onError config m =
      let failed := emit { m with stream := none } .lag
      if config.maxReconnectAttempts.lt (.finite 1) then emit { failed with reconnectAttempts := 1 } (.reconnect_failed 1)
      else { emit { failed with reconnectAttempts := 1 } (.reconnecting 1 (delayMs config 1)) with
        reconnectTimer := some (delayMs config 1) } := by
  have hstopped : ¬ m.stopped = true := by rw [h.stopped]; exact Bool.false_ne_true
  rw [onError, if_neg hstopped]
  dsimp only [emit]
  rw [h.attempts hstream, Nat.zero_add, Nat.cast_one]

theorem failing_error {errors reconnects : Nat} {m : HorizonStreamManager} (h : Failing config errors reconnects m)
    (hstream : m.stream.isSome) (hlimit : config.maxReconnectAttempts.lt (.finite 1) = false) :
    Failing config (errors + 1) reconnects (onError config m) := by
  rw [onError_open h hstream, hlimit]
  refine ⟨?_, ?_, h.stopped, nofun⟩
  · refine (delays_emit _ _).trans ?_
    change delays (emit { m with stream := none } .lag) ++ [delayMs config 1] = _
    rw [delays_emit, List.replicate_succ', ← h.delays]
    exact congrArg (· ++ [delayMs config 1]) (List.append_nil _)
  · refine (reconnections_emit _ _).trans ?_
    exact (reconnections_emit { m with stream := none } .lag).trans h.reconnections

theorem ended_error {m : HorizonStreamManager} (h : Failing config 0 0 m) (htimer : m.reconnectTimer = none)
    (hstream : m.stream.isSome) (hlimit : config.maxReconnectAttempts.lt (.finite 1)) : Ended (onError config m) := by
  rw [onError_open h hstream, hlimit]
  refine ⟨?_, ?_, rfl, htimer⟩
  · refine (delays_emit _ _).trans ?_
    change delays (emit { m with stream := none } .lag) ++ [] = _
    rw [delays_emit, List.append_nil]
    exact (List.append_nil _).trans h.delays
  · refine (reconnections_emit _ _).trans ?_
    exact (reconnections_emit { m with stream := none } .lag).trans h.reconnections

theorem failing_reconnect {errors reconnects : Nat} {m : HorizonStreamManager} (h : Failing config errors reconnects m) :
    Failing config errors (reconnects + 1) (connect history { m with reconnectTimer := none } true) := by
  have hstopped : ¬ m.stopped = true := by rw [h.stopped]; exact Bool.false_ne_true
  rw [connect, if_neg hstopped, if_pos rfl]
  refine ⟨?_, ?_, h.stopped, fun _ => rfl⟩
  · refine (delays_emit _ _).trans ?_
    exact (List.append_nil _).trans h.delays
  · refine (reconnections_emit _ _).trans ?_
    exact congrArg (· + 1) h.reconnections

theorem step_failure {failure : Failure} (h : step dateParse config history s failure.event = some t) :
    failure = .error ∧ s.manager.stream.isSome ∧ t.manager = onError config s.manager ∨
      failure = .reconnect ∧ s.manager.reconnectTimer.isSome ∧
        t.manager = connect history { s.manager with reconnectTimer := none } true := by
  cases failure with
  | error =>
      rw [Failure.event, step] at h
      split_ifs at h with hstream
      exact .inl ⟨rfl, hstream, by rw [← Option.some.inj h]⟩
  | reconnect =>
      rw [Failure.event, step] at h
      split_ifs at h with htimer
      exact .inr ⟨rfl, htimer, by rw [← Option.some.inj h]⟩

/-- Each reconnection starts the count of the attempts over, so that the next failure is the first one again. -/
theorem run_failing {errors reconnects : Nat} (hlimit : config.maxReconnectAttempts.lt (.finite 1) = false)
    (h : Failing config errors reconnects s.manager) (schedule : List Failure)
    (hrun : run (step dateParse config history) s (schedule.map Failure.event) = some t) :
    Failing config (errors + schedule.count .error) (reconnects + schedule.count .reconnect) t.manager := by
  induction schedule generalizing s errors reconnects with
  | nil =>
      cases hrun
      exact h
  | cons failure schedule ih =>
      obtain ⟨u, hu, hrest⟩ := run_cons hrun
      rcases step_failure hu with ⟨rfl, hstream, hnext⟩ | ⟨rfl, -, hnext⟩
      · have hlast := ih (hnext ▸ failing_error h hstream hlimit) hrest
        rw [List.count_cons_self, List.count_cons_of_ne (by decide)]
        rwa [Nat.add_right_comm] at hlast
      · have hlast := ih (hnext ▸ failing_reconnect h) hrest
        rw [List.count_cons_self, List.count_cons_of_ne (by decide)]
        rwa [Nat.add_right_comm reconnects] at hlast

theorem run_ended (hlimit : config.maxReconnectAttempts.lt (.finite 1)) (h : Failing config 0 0 s.manager)
    (htimer : s.manager.reconnectTimer = none) (schedule : List Failure)
    (hrun : run (step dateParse config history) s (schedule.map Failure.event) = some t) :
    delays t.manager = [] ∧ reconnections t.manager = 0 := by
  cases schedule with
  | nil =>
      cases hrun
      exact ⟨h.delays, h.reconnections⟩
  | cons failure schedule =>
      obtain ⟨u, hu, hrest⟩ := run_cons hrun
      rcases step_failure hu with ⟨rfl, hstream, hnext⟩ | ⟨rfl, hsome, -⟩
      · have hended : Ended u.manager := hnext ▸ ended_error h htimer hstream hlimit
        cases schedule with
        | nil =>
            cases hrest
            exact ⟨hended.delays, hended.reconnections⟩
        | cons failure schedule =>
            obtain ⟨v, hv, -⟩ := run_cons hrest
            rcases step_failure hv with ⟨-, hsome, -⟩ | ⟨-, hsome, -⟩
            · rw [hended.stream] at hsome
              cases hsome
            · rw [hended.reconnectTimer] at hsome
              cases hsome
      · rw [htimer] at hsome
        cases hsome

/-- The reconnections are counted and spaced out just as long as they are no more than the limit anyway and all delays are the same:
the failures of a server that never comes back are each taken for the first one. -/
theorem reconnect_budget_iff (limit : ℚ) (base : Double) (cursorStore : Option String) (schedule : List Failure)
    (hrun : run (step dateParse (limited config limit base) history) { manager := start history cursorStore }
      (schedule.map Failure.event) = some t) :
    Budgeted limit base.1 t.manager ↔
      0 ≤ limit ∧ (limit < 1 ∨ schedule.count .reconnect ≤ limit ∧ (schedule.count .error ≤ 1 ∨ Flat base.1)) := by
  have hstart := failing_start (limited config limit base) history cursorStore
  by_cases hlimit : limit < 1
  · have hends : (limited config limit base).maxReconnectAttempts.lt (.finite 1) = true := decide_eq_true hlimit
    obtain ⟨hdelays, hreconnections⟩ := run_ended hends hstart rfl schedule hrun
    rw [Budgeted, hdelays, hreconnections, Nat.cast_zero]
    exact ⟨fun h => ⟨h.1, .inl hlimit⟩, fun h => ⟨h.1, rfl⟩⟩
  · have hgoes : (limited config limit base).maxReconnectAttempts.lt (.finite 1) = false := decide_eq_false hlimit
    have hlast := run_failing hgoes hstart schedule hrun
    have hzero : 0 ≤ limit := zero_le_one.trans (not_lt.mp hlimit)
    have hdelays := hlast.delays
    rw [Nat.zero_add, delayMs_one] at hdelays
    rw [Budgeted, hdelays, hlast.reconnections, List.length_replicate, replicate_eq_iff, Nat.zero_add]
    exact ⟨fun h => ⟨hzero, .inr h⟩, fun h => h.2.resolve_left hlimit⟩

end Runs

section Instances

def silent : History String.length := ⟨[], .nil, nofun⟩

def second : Double := ⟨.finite 1000, by decide +kernel⟩

theorem reconnect_budget_iff_once : ∃ t, run (step (fun _ => .nan) (limited {} 1 second) silent) { manager := start silent none }
    ([.error, .reconnect].map Failure.event) = some t ∧ Budgeted 1 second.1 t.manager := by
  have hsome : (run (step (fun _ => .nan) (limited {} 1 second) silent) { manager := start silent none }
      ([.error, .reconnect].map Failure.event)).isSome := by rfl
  obtain ⟨t, ht⟩ := Option.isSome_iff_exists.mp hsome
  refine ⟨t, ht, (reconnect_budget_iff 1 second none [.error, .reconnect] ht).mpr ⟨zero_le_one, .inr ⟨?_, .inl (by decide)⟩⟩⟩
  have hcount : [Failure.error, .reconnect].count .reconnect ≤ 1 := by decide
  exact_mod_cast hcount

/-- With a limit of one attempt there are two of them, and the second one does not wait longer than the first. -/
theorem reconnect_budget_iff_fail : ∃ t, run (step (fun _ => .nan) (limited {} 1 second) silent) { manager := start silent none }
    ([.error, .reconnect, .error, .reconnect].map Failure.event) = some t ∧
    reconnections t.manager = 2 ∧ delays t.manager = [.finite 1000, .finite 1000] ∧ ¬ Budgeted 1 second.1 t.manager := by
  have hrun : (run (step (fun _ => .nan) (limited {} 1 second) silent) { manager := start silent none }
      ([.error, .reconnect, .error, .reconnect].map Failure.event)).map (fun t => (reconnections t.manager, delays t.manager)) =
      some (2, [.finite 1000, .finite 1000]) := by decide +kernel
  obtain ⟨t, ht, hshown⟩ := Option.map_eq_some_iff.mp hrun
  obtain ⟨hreconnections, hdelays⟩ := Prod.mk.inj hshown
  refine ⟨t, ht, hreconnections, hdelays, fun hbudget => ?_⟩
  have hle := hbudget.1
  rw [hreconnections] at hle
  norm_num at hle

end Instances

end SplitSdk.ReconnectBudget
