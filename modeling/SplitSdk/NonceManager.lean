import SplitSdk.Numbers
import SplitSdk.OrderedMap

namespace SplitSdk.NonceManager

open Numbers OrderedMap

section Data

structure NonceState where
  accountId : String
  currentNonce : Int
  lastUpdated : Nat
  inFlightNonces : List Int
  deriving DecidableEq

structure NonceManagerOptions where
  initialNonce : Int := 0
  incrementStep : Int := 1
  replayWindowSize : JsNumber := .finite 1000
  replayTtlMs : JsNumber := .finite 300000
  strictOrdering : Bool := true

structure NonceResetOptions where
  newNonce : Option Int := none
  clearReplayHistory : Option Bool := none

structure NonceValidationResult where
  valid : Bool
  error : Option String := none
  expectedNonce : Option Int := none
  receivedNonce : Option Int := none
  deriving DecidableEq

structure InvalidNonceError where
  message : String
  deriving DecidableEq

/-- A `bigint | number | string`. -/
inductive Nonce
  | bigint (n : Int)
  | number (x : JsNumber)
  | string (s : String)

/-- The committed nonces of an account and when they were committed. A nonce
stands for its decimal text, which is the key in the source. -/
abbrev History := OrdMap Int Nat

structure Manager where
  states : OrdMap String NonceState := .empty
  committedNonces : OrdMap String History := .empty

/-- What a call gives or throws, and the manager after it. -/
abbrev Outcome (α : Type) := Except InvalidNonceError α × Manager

end Data

section Parse

def invalid {α : Type} (message : String) : Except InvalidNonceError α := .error ⟨message⟩

def parseNonce : Nonce → Except InvalidNonceError Int
  | .bigint n => if n < 0 then invalid s!"Nonce cannot be negative: {n}" else .ok n
  | .number x =>
      match x with
      | .finite q =>
          if q.den ≠ 1 ∨ q < 0 then invalid ("Nonce must be a non-negative integer: " ++ Numbers.toString x)
          else .ok q.num
      | _ => invalid ("Nonce must be a non-negative integer: " ++ Numbers.toString x)
  | .string s =>
      match readDigits (trim s.toList) with
      | some n => .ok n
      | none => invalid ("Invalid numeric nonce string: \"" ++ s ++ "\"")

end Parse

section Operations

variable (options : NonceManagerOptions)

def trackAccount (m : Manager) (accountId : String) (initialNonce : Option Int) (now : Nat) : Outcome NonceState :=
  if accountId = "" then (invalid "Invalid accountId: must be a non-empty string.", m)
  else match m.states.get? accountId with
    | some state => (.ok state, m)
    | none =>
        let state : NonceState :=
          { accountId, currentNonce := initialNonce.getD options.initialNonce, lastUpdated := now,
            inFlightNonces := [] }
        (.ok state, { m with states := m.states.set accountId state })

/-- `ensureTracked`, followed by a look at the state of the account. -/
def tracked (m : Manager) (accountId : String) (now : Nat) : Outcome NonceState :=
  trackAccount options m accountId none now

def acquireNextNonce (m : Manager) (accountId : String) (now : Nat) : Outcome Int :=
  match tracked options m accountId now with
  | (.error e, m) => (.error e, m)
  | (.ok state, m) =>
      let nonceToIssue := state.currentNonce
      let state :=
        { state with
          currentNonce := state.currentNonce + options.incrementStep
          lastUpdated := now
          inFlightNonces := state.inFlightNonces ++ [nonceToIssue] }
      (.ok nonceToIssue, { m with states := m.states.set accountId state })

/-- Remove the oldest entries until at most `replayWindowSize` are left. -/
def dropOldest : List (Int × Nat) → List (Int × Nat)
  | [] => []
  | oldest :: entries =>
      if options.replayWindowSize.lt (.finite (entries.length + 1)) then dropOldest entries
      else oldest :: entries

def isExpired (now seenTime : Nat) : Bool := options.replayTtlMs.lt (.finite ((now : ℚ) - seenTime))

theorem dropOldest_sublist (entries : List (Int × Nat)) : List.Sublist (dropOldest options entries) entries := by
  induction entries with
  | nil => exact .slnil
  | cons oldest entries ih =>
      rw [dropOldest]
      split_ifs
      · exact ih.cons oldest
      · exact .refl _

def pruned (now : Nat) (entries : List (Int × Nat)) : List (Int × Nat) :=
  dropOldest options (entries.filter (fun entry => !isExpired options now entry.2))

theorem pruned_sublist (now : Nat) (entries : List (Int × Nat)) :
    List.Sublist (pruned options now entries) entries :=
  (dropOldest_sublist options _).trans List.filter_sublist

def pruneReplayCache (history : History) (now : Nat) : History :=
  ⟨pruned options now history.entries, history.nodup.sublist ((pruned_sublist options now _).map Prod.fst)⟩

def historyOf (m : Manager) (accountId : String) : History := (m.committedNonces.get? accountId).getD .empty

/-- The clock is read once for the entry and once more to prune. -/
def commitNonce (m : Manager) (accountId : String) (nonce : Nonce) (now pruneNow : Nat) : Outcome Unit :=
  match parseNonce nonce with
  | .error e => (.error e, m)
  | .ok parsed =>
      match tracked options m accountId now with
      | (.error e, m) => (.error e, m)
      | (.ok state, m) =>
          let history := (historyOf m accountId).set parsed now
          (.ok (), {
            states := m.states.set accountId
              { state with inFlightNonces := state.inFlightNonces.erase parsed }
            committedNonces := m.committedNonces.set accountId (pruneReplayCache options history pruneNow) })

def rollbackNonce (m : Manager) (accountId : String) (nonce : Nonce) (now : Nat) : Outcome Unit :=
  match parseNonce nonce with
  | .error e => (.error e, m)
  | .ok parsed =>
      match tracked options m accountId now with
      | (.error e, m) => (.error e, m)
      | (.ok state, m) =>
          let state := { state with inFlightNonces := state.inFlightNonces.erase parsed }
          let state :=
            if state.currentNonce = parsed + options.incrementStep then { state with currentNonce := parsed }
            else state
          (.ok (), { m with states := m.states.set accountId state })

def resetNonce (m : Manager) (accountId : String) (reset : NonceResetOptions) (now : Nat) : Outcome Unit :=
  match tracked options m accountId now with
  | (.error e, m) => (.error e, m)
  | (.ok state, m) =>
      let targetNonce := reset.newNonce.getD 0
      if targetNonce < 0 then (invalid s!"Cannot reset nonce to negative value: {targetNonce}", m)
      else
        (.ok (), {
          states := m.states.set accountId
            { state with currentNonce := targetNonce, inFlightNonces := [], lastUpdated := now }
          committedNonces :=
            if reset.clearReplayHistory.getD false then m.committedNonces.delete accountId else m.committedNonces })

/-- `syncNonce` from the moment when the value is fetched. -/
def syncNonce (m : Manager) (accountId : String) (onChainVal : Nonce) (now : Nat) : Outcome Unit :=
  match parseNonce onChainVal with
  | .error e => (.error e, m)
  | .ok parsed => resetNonce options m accountId { newNonce := some parsed } now

def replayError (accountId : String) (parsed : Int) : NonceValidationResult where
  valid := false
  error := s!"Replay attack detected: nonce {parsed} was already committed for account {accountId}"
  receivedNonce := parsed

/-- The check against the counter. -/
def checkOrder (state : NonceState) (parsed : Int) (isStrict : Bool) : NonceValidationResult :=
  let expected := state.currentNonce
  if parsed < expected ∧ parsed ∉ state.inFlightNonces then
    { valid := false
      error := s!"Stale nonce: received {parsed} is lower than expected nonce {expected}"
      expectedNonce := expected
      receivedNonce := parsed }
  else if isStrict ∧ expected < parsed then
    { valid := false
      error := s!"Nonce gap: received {parsed} but expected {expected}"
      expectedNonce := expected
      receivedNonce := parsed }
  else { valid := true, expectedNonce := expected, receivedNonce := parsed }

/-- `now - seenTime <= replayTtlMs` for the nonce in the history. -/
def isReplay (m : Manager) (accountId : String) (parsed : Int) (now : Nat) : Bool :=
  match (historyOf m accountId).get? parsed with
  | some seenTime =>
      JsNumber.lt (.finite ((now : ℚ) - seenTime)) options.replayTtlMs ||
        options.replayTtlMs = .finite ((now : ℚ) - seenTime)
  | none => false

def validate (m : Manager) (accountId : String) (nonce : Nonce) (strictOrdering : Option Bool) (now : Nat) :
    Outcome NonceValidationResult :=
  match parseNonce nonce with
  | .error e => (.ok { valid := false, error := e.message }, m)
  | .ok parsed =>
      if isReplay options m accountId parsed now then (.ok (replayError accountId parsed), m)
      else match tracked options m accountId now with
        | (.error e, m) => (.error e, m)
        | (.ok state, m) => (.ok (checkOrder state parsed (strictOrdering.getD options.strictOrdering)), m)

end Operations

section Accounts

/-- The counter and the nonces in flight of an account; an account that is not tracked yet has the defaults. -/
def counter (options : NonceManagerOptions) (m : Manager) (accountId : String) : Int :=
  (m.states.get? accountId).elim options.initialNonce NonceState.currentNonce

def inFlight (m : Manager) (accountId : String) : List Int :=
  (m.states.get? accountId).elim [] NonceState.inFlightNonces

variable {options : NonceManagerOptions} {m : Manager} {accountId : String}

theorem tracked_cases (options : NonceManagerOptions) (m : Manager) (accountId : String) (now : Nat) :
    (∃ e, tracked options m accountId now = (.error e, m)) ∨
    ∃ state states, tracked options m accountId now = (.ok state, { m with states }) ∧
      state.currentNonce = counter options m accountId ∧ state.inFlightNonces = inFlight m accountId ∧
      ∀ b, b ≠ accountId → states.get? b = m.states.get? b := by
  unfold tracked trackAccount counter inFlight
  by_cases hempty : accountId = ""
  · rw [if_pos hempty]
    exact .inl ⟨_, rfl⟩
  · rw [if_neg hempty]
    cases hstate : m.states.get? accountId with
    | some state => exact .inr ⟨state, m.states, rfl, rfl, rfl, fun _ _ => rfl⟩
    | none =>
        refine .inr ⟨_, _, rfl, rfl, rfl, ?_⟩
        intro b hb
        rw [OrdMap.get?_set, if_neg hb]

/-- The account has this counter and these nonces in flight, and the others what they had. -/
structure Assigns (options : NonceManagerOptions) (m m' : Manager) (accountId : String) (nonce : Int)
    (nonces : List Int) : Prop where
  counter : ∀ b, counter options m' b = if b = accountId then nonce else counter options m b
  inFlight : ∀ b, inFlight m' b = if b = accountId then nonces else inFlight m b
  tracked : ∀ b, m'.states.get? b = none ↔ b ≠ accountId ∧ m.states.get? b = none

theorem assigns_set {states : OrdMap String NonceState} (h : ∀ b, b ≠ accountId → states.get? b = m.states.get? b)
    (state : NonceState) (committedNonces : OrdMap String History) :
    Assigns options m ⟨states.set accountId state, committedNonces⟩ accountId state.currentNonce
      state.inFlightNonces := by
  constructor
  all_goals
    intro b
    by_cases hb : b = accountId
    · subst hb
      simp [counter, inFlight, OrdMap.get?_set]
    · simp [counter, inFlight, OrdMap.get?_set, hb, h b hb]

theorem trackAccount_cases (options : NonceManagerOptions) (m : Manager) (accountId : String)
    (initialNonce : Option Int) (now : Nat) :
    (trackAccount options m accountId initialNonce now).2 = m ∨ m.states.get? accountId = none ∧
      ∃ m', (trackAccount options m accountId initialNonce now).2 = m' ∧
        Assigns options m m' accountId (initialNonce.getD options.initialNonce) [] ∧
        m'.committedNonces = m.committedNonces := by
  unfold trackAccount
  by_cases hempty : accountId = ""
  · exact .inl (by rw [if_pos hempty])
  · rw [if_neg hempty]
    cases hstate : m.states.get? accountId with
    | some state => exact .inl rfl
    | none => exact .inr ⟨rfl, _, rfl, assigns_set (fun _ _ => rfl) _ _, rfl⟩

theorem acquireNextNonce_cases (options : NonceManagerOptions) (m : Manager) (accountId : String) (now : Nat) :
    (∃ e, acquireNextNonce options m accountId now = (.error e, m)) ∨
    ∃ m', acquireNextNonce options m accountId now = (.ok (counter options m accountId), m') ∧
      Assigns options m m' accountId (counter options m accountId + options.incrementStep)
        (inFlight m accountId ++ [counter options m accountId]) ∧ m'.committedNonces = m.committedNonces := by
  unfold acquireNextNonce
  rcases tracked_cases options m accountId now with ⟨e, h⟩ | ⟨state, states, h, hcounter, hflight, hothers⟩
  · rw [h]
    exact .inl ⟨e, rfl⟩
  · rw [h]
    refine .inr ⟨⟨states.set accountId _, _⟩, by rw [← hcounter], ?_, rfl⟩
    rw [← hcounter, ← hflight]
    exact assigns_set hothers _ _

theorem commitNonce_cases (options : NonceManagerOptions) (m : Manager) (accountId : String) (nonce : Nonce)
    (now pruneNow : Nat) :
    (∃ e, commitNonce options m accountId nonce now pruneNow = (.error e, m)) ∨
    ∃ n m', parseNonce nonce = .ok n ∧ commitNonce options m accountId nonce now pruneNow = (.ok (), m') ∧
      Assigns options m m' accountId (counter options m accountId) ((inFlight m accountId).erase n) ∧
      m'.committedNonces = m.committedNonces.set accountId
        (pruneReplayCache options ((historyOf m accountId).set n now) pruneNow) := by
  unfold commitNonce
  cases hparse : parseNonce nonce with
  | error e => exact .inl ⟨e, rfl⟩
  | ok n =>
      rcases tracked_cases options m accountId now with ⟨e, h⟩ | ⟨state, states, h, hcounter, hflight, hothers⟩
      · simp only [h]
        exact .inl ⟨e, rfl⟩
      · simp only [h]
        refine .inr ⟨n, ⟨states.set accountId _, _⟩, rfl, rfl, ?_, rfl⟩
        rw [← hcounter, ← hflight]
        exact assigns_set hothers _ _

theorem rollbackNonce_cases (options : NonceManagerOptions) (m : Manager) (accountId : String) (nonce : Nonce)
    (now : Nat) :
    (∃ e, rollbackNonce options m accountId nonce now = (.error e, m)) ∨
    ∃ n m', parseNonce nonce = .ok n ∧ rollbackNonce options m accountId nonce now = (.ok (), m') ∧
      Assigns options m m' accountId
        (if counter options m accountId = n + options.incrementStep then n else counter options m accountId)
        ((inFlight m accountId).erase n) ∧ m'.committedNonces = m.committedNonces := by
  unfold rollbackNonce
  cases hparse : parseNonce nonce with
  | error e => exact .inl ⟨e, rfl⟩
  | ok n =>
      rcases tracked_cases options m accountId now with ⟨e, h⟩ | ⟨state, states, h, hcounter, hflight, hothers⟩
      · simp only [h]
        exact .inl ⟨e, rfl⟩
      · simp only [h]
        refine .inr ⟨n, ⟨states.set accountId _, _⟩, rfl, rfl, ?_, rfl⟩
        rw [← hcounter, ← hflight]
        split_ifs
        · exact assigns_set hothers _ _
        · exact assigns_set hothers _ _

theorem resetNonce_committedNonces (options : NonceManagerOptions) (m : Manager) (accountId : String)
    (reset : NonceResetOptions) (hkeep : reset.clearReplayHistory.getD false = false) (now : Nat) :
    (resetNonce options m accountId reset now).2.committedNonces = m.committedNonces := by
  unfold resetNonce
  rcases tracked_cases options m accountId now with ⟨e, h⟩ | ⟨state, states, h, _⟩
  · rw [h]
  · rw [h]
    dsimp only
    split_ifs with hnegative hclear
    · rfl
    · rw [hkeep] at hclear
      cases hclear
    · rfl

end Accounts

section Runs

/-- The manager, and for the statements what was committed for every account and when, the newest first. -/
structure State where
  manager : Manager := {}
  commits : String → List (Int × Nat) := fun _ => []
  clock : Nat := 0

inductive Event
  | trackAccount (accountId : String) (initialNonce : Option Int) (now : Nat)
  | acquireNextNonce (accountId : String) (now : Nat)
  | commitNonce (accountId : String) (nonce : Nonce) (now pruneNow : Nat)
  | rollbackNonce (accountId : String) (nonce : Nonce) (now : Nat)
  | resetNonce (accountId : String) (reset : NonceResetOptions) (now : Nat)
  | syncNonce (accountId : String) (onChainVal : Nonce) (now : Nat)

variable (options : NonceManagerOptions)

def recordCommit (commits : String → List (Int × Nat)) (accountId : String) (nonce : Nonce) (now : Nat) :
    Except InvalidNonceError Unit → String → List (Int × Nat)
  | .error _ => commits
  | .ok () =>
      match parseNonce nonce with
      | .error _ => commits
      | .ok n => Function.update commits accountId ((n, now) :: commits accountId)

theorem recordCommit_ok {nonce : Nonce} {n : Int} (h : parseNonce nonce = .ok n) (commits : String → List (Int × Nat))
    (accountId : String) (now : Nat) : recordCommit commits accountId nonce now (.ok ()) =
      Function.update commits accountId ((n, now) :: commits accountId) := by
  rw [recordCommit, h]

def step (s : State) : Event → Option State
  | .trackAccount accountId initialNonce now =>
      some { s with manager := (trackAccount options s.manager accountId initialNonce now).2, clock := now }
  | .acquireNextNonce accountId now =>
      some { s with manager := (acquireNextNonce options s.manager accountId now).2, clock := now }
  | .commitNonce accountId nonce now pruneNow =>
      let outcome := commitNonce options s.manager accountId nonce now pruneNow
      some {
        manager := outcome.2
        commits := recordCommit s.commits accountId nonce now outcome.1
        clock := pruneNow }
  | .rollbackNonce accountId nonce now =>
      some { s with manager := (rollbackNonce options s.manager accountId nonce now).2, clock := now }
  | .resetNonce accountId reset now =>
      some { s with manager := (resetNonce options s.manager accountId reset now).2, clock := now }
  | .syncNonce accountId onChainVal now =>
      some { s with manager := (syncNonce options s.manager accountId onChainVal now).2, clock := now }

end Runs

end SplitSdk.NonceManager
