import SplitSdk.PlatformTimers
import SplitSdk.Interleaving

namespace SplitSdk.EnterpriseAuth

open Numbers PlatformTimers

section Data

structure AuthToken where
  token : String
  expiresAt : JsNumber
  type : String
  scopes : List String
  deriving DecidableEq

structure EnterpriseAuthProviderOptions where
  refreshThresholdMs : JsNumber := .finite 60000
  autoRefresh : Bool := false

variable (κ : Type)

inductive Request
  | authenticate (credentials : κ)
  | refresh (credentials : Option κ)
  deriving DecidableEq

inductive Outcome
  | pending
  | fulfilled (token : AuthToken)
  | rejected (message : String)
  deriving DecidableEq

/-- A call of `authenticate` or `refresh`, and how many calls of `revoke` there were before it. -/
structure Call where
  request : Request κ
  startedAt : Nat
  outcome : Outcome
  deriving DecidableEq

/-- The fields of the provider with its timers, the calls that it has had, and the number of those of `revoke`. -/
structure EnterpriseAuthProvider where
  currentToken : Option AuthToken := none
  lastCredentials : Option κ := none
  refreshTimer : Option Nat := none
  timers : Timers Unit := []
  calls : List (Call κ) := []
  revocations : Nat := 0
  now : ℚ := 0

inductive Command
  | authenticate (credentials : κ)
  | refresh
  | revoke
  | dispose
  deriving DecidableEq

/-- What the handlers of the emitted events do before a call goes on, and the message of the error that one throws. -/
structure Reaction where
  commands : List (Command κ) := []
  throws : Option String := none

inductive Event
  | elapse (ms : ℚ)
  | command (command : Command κ)
  | settle (call : Nat) (answer : Except String AuthToken) (reaction : Reaction κ)
  | fire (timer : Nat)

end Data

section Operations

variable {κ : Type}

namespace EnterpriseAuthProvider

def noCredentials : String := "[EnterpriseAuth] Cannot refresh — no credentials have been authenticated yet"

def clearRefreshTimer (p : EnterpriseAuthProvider κ) : EnterpriseAuthProvider κ :=
  { p with timers := p.refreshTimer.elim p.timers (clearTimeout p.timers), refreshTimer := none }

/-- `authenticate` up to the answer of the resolver. -/
def authenticate (p : EnterpriseAuthProvider κ) (credentials : κ) : EnterpriseAuthProvider κ :=
  { p.clearRefreshTimer with calls := p.calls ++ [⟨.authenticate credentials, p.revocations, .pending⟩] }

/-- `refresh` up to the answer of the resolver. -/
def refresh (p : EnterpriseAuthProvider κ) : EnterpriseAuthProvider κ :=
  match p.lastCredentials with
  | none => { p with calls := p.calls ++ [⟨.refresh none, p.revocations, .rejected noCredentials⟩] }
  | some credentials =>
      { p.clearRefreshTimer with calls := p.calls ++ [⟨.refresh (some credentials), p.revocations, .pending⟩] }

def revoke (p : EnterpriseAuthProvider κ) : EnterpriseAuthProvider κ :=
  if p.currentToken.isSome then
    { p.clearRefreshTimer with currentToken := none, lastCredentials := none, revocations := p.revocations + 1 }
  else { p.clearRefreshTimer with revocations := p.revocations + 1 }

def isExpired (token : AuthToken) (now : ℚ) : Bool :=
  if token.expiresAt = .finite 0 then false else token.expiresAt.le (.finite now)

def isAuthenticated (p : EnterpriseAuthProvider κ) : Bool := p.currentToken.any (fun token => !isExpired token p.now)

def getToken (p : EnterpriseAuthProvider κ) : Option AuthToken := p.currentToken.filter (fun token => !isExpired token p.now)

def scheduleRefresh (options : EnterpriseAuthProviderOptions) (p : EnterpriseAuthProvider κ) (token : AuthToken) :
    EnterpriseAuthProvider κ :=
  if token.expiresAt = .finite 0 then p
  else
    let delay := (token.expiresAt.sub (.finite p.now)).sub options.refreshThresholdMs
    if delay.le (.finite 0) then p.refresh
    else { p with timers := setTimeout p.timers p.now () delay, refreshTimer := some p.timers.length }

def dispose (p : EnterpriseAuthProvider κ) : EnterpriseAuthProvider κ := p.clearRefreshTimer

def perform (p : EnterpriseAuthProvider κ) : Command κ → EnterpriseAuthProvider κ
  | .authenticate credentials => p.authenticate credentials
  | .refresh => p.refresh
  | .revoke => p.revoke
  | .dispose => p.dispose

/-- The token of the answer, and the credentials of `authenticate`. -/
def store (p : EnterpriseAuthProvider κ) (token : AuthToken) : Request κ → EnterpriseAuthProvider κ
  | .authenticate credentials => { p with currentToken := some token, lastCredentials := some credentials }
  | .refresh _ => { p with currentToken := some token }

def conclude (p : EnterpriseAuthProvider κ) (k : Nat) (call : Call κ) (outcome : Outcome) : EnterpriseAuthProvider κ :=
  { p with calls := p.calls.set k { call with outcome } }

/-- A call goes on with the answer of the resolver. An error of a handler rejects it, but what is stored stays. -/
def settle (options : EnterpriseAuthProviderOptions) (p : EnterpriseAuthProvider κ) (k : Nat)
    (answer : Except String AuthToken) (reaction : Reaction κ) : Option (EnterpriseAuthProvider κ) :=
  (p.calls[k]?.filter (fun call => call.outcome = .pending)).map (fun call =>
    match answer, reaction.throws with
    | .error message, throws =>
        reaction.commands.foldl perform (p.conclude k call (.rejected (throws.getD message)))
    | .ok token, some message =>
        reaction.commands.foldl perform ((p.store token call.request).conclude k call (.rejected message))
    | .ok token, none =>
        let p := reaction.commands.foldl perform ((p.store token call.request).conclude k call (.fulfilled token))
        if options.autoRefresh then p.scheduleRefresh options token else p)

end EnterpriseAuthProvider

open EnterpriseAuthProvider

def step (options : EnterpriseAuthProviderOptions) (p : EnterpriseAuthProvider κ) :
    Event κ → Option (EnterpriseAuthProvider κ)
  | .elapse ms => if 0 ≤ ms then some { p with now := p.now + ms } else none
  | .command command => some (p.perform command)
  | .settle k answer reaction => p.settle options k answer reaction
  | .fire timer => (fire p.timers p.now timer).map (fun fired => { p with timers := fired.2, refreshTimer := none }.refresh)

end Operations

end SplitSdk.EnterpriseAuth

namespace SplitSdk.SessionRevocation

open EnterpriseAuth Interleaving Numbers PlatformTimers
open EnterpriseAuth.EnterpriseAuthProvider

section Statement

variable {κ : Type}

def isAuthenticate : Request κ → Bool
  | .authenticate _ => true
  | .refresh _ => false

def isFulfilled : Outcome → Bool
  | .fulfilled _ => true
  | .pending | .rejected _ => false

/-- The call is one of `authenticate` that started after `revocations` calls of `revoke` and has succeeded. -/
def Renews (revocations : Nat) (call : Call κ) : Prop :=
  isAuthenticate call.request ∧ call.startedAt = revocations ∧ isFulfilled call.outcome

instance (revocations : Nat) (call : Call κ) : Decidable (Renews revocations call) := inferInstanceAs (Decidable (_ ∧ _))

/-- There was such a call since the last revocation. -/
def Renewed (p : EnterpriseAuthProvider κ) : Prop := ∃ call ∈ p.calls, Renews p.revocations call

instance (p : EnterpriseAuthProvider κ) : Decidable (Renewed p) := inferInstanceAs (Decidable (∃ call ∈ p.calls, _))

def SignedOut (p : EnterpriseAuthProvider κ) : Prop := p.isAuthenticated = false ∧ p.getToken = none

def StaysRevoked (p : EnterpriseAuthProvider κ) : Prop := 0 < p.revocations → ¬Renewed p → SignedOut p

instance (p : EnterpriseAuthProvider κ) : Decidable (StaysRevoked p) := by
  unfold StaysRevoked SignedOut
  infer_instance

/-- An answer that comes after a revocation is stored only by an `authenticate` that succeeds and started after it. -/
def SafeAnswer (p : EnterpriseAuthProvider κ) : Event κ → Prop
  | .settle k (.ok token) reaction =>
      match p.calls[k]? with
      | some ⟨request, startedAt, .pending⟩ =>
          p.revocations = 0 ∨ Renewed p ∨ .revoke ∈ reaction.commands ∨ isExpired token p.now ∨
            isAuthenticate request ∧ startedAt = p.revocations ∧ reaction.throws = none
      | _ => True
  | _ => True

instance [DecidableEq κ] (p : EnterpriseAuthProvider κ) : DecidablePred (SafeAnswer p) := fun e => by
  unfold SafeAnswer
  split
  · split <;> infer_instance
  · infer_instance

end Statement

section Frame

variable {κ : Type} {p q r : EnterpriseAuthProvider κ} {options : EnterpriseAuthProviderOptions}

/-- No token is stored or dropped, and the calls that are new have not succeeded. -/
structure Unmoved (p q : EnterpriseAuthProvider κ) : Prop where
  currentToken : q.currentToken = p.currentToken
  revocations : q.revocations = p.revocations
  now : q.now = p.now
  calls : ∃ new, q.calls = p.calls ++ new ∧ ∀ call ∈ new, isFulfilled call.outcome = false

theorem Unmoved.refl (p : EnterpriseAuthProvider κ) : Unmoved p p :=
  ⟨rfl, rfl, rfl, [], (List.append_nil _).symm, by simp⟩

theorem Unmoved.trans (h : Unmoved p q) (h' : Unmoved q r) : Unmoved p r := by
  obtain ⟨new, hcalls, hnew⟩ := h.calls
  obtain ⟨new', hcalls', hnew'⟩ := h'.calls
  refine ⟨h'.currentToken.trans h.currentToken, h'.revocations.trans h.revocations, h'.now.trans h.now, new ++ new', ?_,
    fun call hcall => ?_⟩
  · rw [hcalls', hcalls, List.append_assoc]
  · exact (List.mem_append.mp hcall).elim (hnew call) (hnew' call)

theorem Unmoved.renewed (h : Unmoved p q) : Renewed q ↔ Renewed p := by
  obtain ⟨new, hcalls, hnew⟩ := h.calls
  rw [Renewed, Renewed, h.revocations, hcalls]
  constructor
  · rintro ⟨call, hcall, hrenews⟩
    rcases List.mem_append.mp hcall with hold | hlast
    · exact ⟨call, hold, hrenews⟩
    · have hfulfilled := hrenews.2.2
      rw [hnew call hlast] at hfulfilled
      cases hfulfilled
  · rintro ⟨call, hcall, hrenews⟩
    exact ⟨call, List.mem_append_left _ hcall, hrenews⟩

theorem Unmoved.signedOut (h : Unmoved p q) : SignedOut q ↔ SignedOut p := by
  rw [SignedOut, SignedOut, isAuthenticated, isAuthenticated, getToken, getToken, h.currentToken, h.now]

theorem Unmoved.staysRevoked (h : Unmoved p q) : StaysRevoked q ↔ StaysRevoked p := by
  rw [StaysRevoked, StaysRevoked, h.revocations, h.renewed, h.signedOut]

theorem unmoved_authenticate (p : EnterpriseAuthProvider κ) (credentials : κ) : Unmoved p (p.authenticate credentials) :=
  ⟨rfl, rfl, rfl, _, rfl, by simp [isFulfilled]⟩

theorem unmoved_refresh (p : EnterpriseAuthProvider κ) : Unmoved p p.refresh := by
  unfold EnterpriseAuthProvider.refresh
  split
  · exact ⟨rfl, rfl, rfl, _, rfl, by simp [isFulfilled]⟩
  · exact ⟨rfl, rfl, rfl, _, rfl, by simp [isFulfilled]⟩

theorem unmoved_dispose (p : EnterpriseAuthProvider κ) : Unmoved p p.dispose :=
  ⟨rfl, rfl, rfl, [], (List.append_nil _).symm, by simp⟩

theorem unmoved_perform (p : EnterpriseAuthProvider κ) {command : Command κ} (h : command ≠ .revoke) :
    Unmoved p (p.perform command) := by
  cases command with
  | authenticate credentials => exact unmoved_authenticate p credentials
  | refresh => exact unmoved_refresh p
  | revoke => exact absurd rfl h
  | dispose => exact unmoved_dispose p

theorem unmoved_commands (commands : List (Command κ)) (h : .revoke ∉ commands) (p : EnterpriseAuthProvider κ) :
    Unmoved p (commands.foldl perform p) := by
  induction commands generalizing p with
  | nil => exact .refl p
  | cons command commands ih =>
      have hne : command ≠ .revoke := fun he => h (he ▸ List.mem_cons_self)
      exact (unmoved_perform p hne).trans (ih (fun hm => h (List.mem_cons_of_mem _ hm)) _)

theorem unmoved_scheduleRefresh (p : EnterpriseAuthProvider κ) (token : AuthToken) :
    Unmoved p (p.scheduleRefresh options token) := by
  unfold scheduleRefresh
  dsimp only
  split_ifs
  · exact .refl p
  · exact unmoved_refresh p
  · exact ⟨rfl, rfl, rfl, [], (List.append_nil _).symm, by simp⟩

end Frame

section Revoke

variable {κ : Type} {p : EnterpriseAuthProvider κ}

theorem currentToken_revoke (p : EnterpriseAuthProvider κ) : p.revoke.currentToken = none := by
  unfold EnterpriseAuthProvider.revoke
  split_ifs with h
  · rfl
  · exact Option.not_isSome_iff_eq_none.mp h

theorem currentToken_perform (h : p.currentToken = none) (command : Command κ) : (p.perform command).currentToken = none := by
  by_cases hrevoke : command = .revoke
  · subst hrevoke
    exact currentToken_revoke p
  · exact (unmoved_perform p hrevoke).currentToken.trans h

/-- Nothing that the handlers do stores a token again. -/
theorem currentToken_commands (commands : List (Command κ)) (h : p.currentToken = none ∨ .revoke ∈ commands) :
    (commands.foldl perform p).currentToken = none := by
  induction commands generalizing p with
  | nil => exact h.resolve_right (by simp)
  | cons command commands ih =>
      refine ih ?_
      rcases h with hnone | hrevoke
      · exact .inl (currentToken_perform hnone command)
      · rcases List.mem_cons.mp hrevoke with rfl | hlater
        · exact .inl (currentToken_revoke p)
        · exact .inr hlater

theorem signedOut_of_none (h : p.currentToken = none) : SignedOut p := by
  rw [SignedOut, isAuthenticated, getToken, h]
  exact ⟨rfl, rfl⟩

theorem signedOut_iff_of_some {token : AuthToken} (h : p.currentToken = some token) : SignedOut p ↔ isExpired token p.now := by
  rw [SignedOut, isAuthenticated, getToken, h, Option.any_some, Option.filter_some]
  simp

theorem isExpired_mono {token : AuthToken} {s t : ℚ} (hst : s ≤ t) (h : isExpired token s) : isExpired token t := by
  unfold isExpired at h ⊢
  split_ifs at h ⊢
  exact JsNumber.le_finite_mono hst h

end Revoke

section Settle

variable {κ : Type} {p q : EnterpriseAuthProvider κ} {options : EnterpriseAuthProviderOptions} {k : Nat} {call : Call κ}

theorem renewed_conclude (hk : p.calls[k]? = some call) (hpending : call.outcome = .pending) (outcome : Outcome) :
    Renewed (p.conclude k call outcome) ↔ Renewed p ∨ Renews p.revocations { call with outcome } := by
  obtain ⟨hlt, hget⟩ := List.getElem?_eq_some_iff.mp hk
  constructor
  · rintro ⟨other, hother, hrenews⟩
    rcases List.mem_or_eq_of_mem_set hother with hold | rfl
    · exact .inl ⟨other, hold, hrenews⟩
    · exact .inr hrenews
  · rintro (⟨other, hother, hrenews⟩ | hrenews)
    · obtain ⟨j, hj⟩ := List.getElem?_of_mem hother
      have hne : k ≠ j := by
        rintro rfl
        obtain rfl : call = other := Option.some.inj (hk.symm.trans hj)
        have hfulfilled := hrenews.2.2
        rw [hpending] at hfulfilled
        cases hfulfilled
      exact ⟨other, List.mem_of_getElem? ((List.getElem?_set_ne hne).trans hj), hrenews⟩
    · exact ⟨_, List.mem_set hlt _, hrenews⟩

/-- What a call stores is there when the handlers are done, unless one of them has revoked it. -/
theorem settle_ok {token : AuthToken} {reaction : Reaction κ} (h : p.settle options k (.ok token) reaction = some q) :
    ∃ call outcome, p.calls[k]? = some call ∧ call.outcome = .pending ∧ (isFulfilled outcome ↔ reaction.throws = none) ∧
      (.revoke ∈ reaction.commands → q.currentToken = none) ∧
      (.revoke ∉ reaction.commands → Unmoved ((p.store token call.request).conclude k call outcome) q) := by
  obtain ⟨call, hcall, rfl⟩ := Option.map_eq_some_iff.mp h
  obtain ⟨hk, hpending⟩ := Option.filter_eq_some_iff.mp hcall
  cases hthrows : reaction.throws with
  | some message =>
      refine ⟨call, .rejected message, hk, of_decide_eq_true hpending, by simp [isFulfilled], fun hrevoke => ?_, fun hkeep => ?_⟩
      · exact currentToken_commands _ (.inr hrevoke)
      · exact unmoved_commands _ hkeep _
  | none =>
      refine ⟨call, .fulfilled token, hk, of_decide_eq_true hpending, by simp [isFulfilled], fun hrevoke => ?_, fun hkeep => ?_⟩
      · have hnone := currentToken_commands (p := (p.store token call.request).conclude k call (.fulfilled token)) _ (.inr hrevoke)
        dsimp only
        split_ifs
        · exact (unmoved_scheduleRefresh _ token).currentToken.trans hnone
        · exact hnone
      · have hunmoved := unmoved_commands _ hkeep ((p.store token call.request).conclude k call (.fulfilled token))
        dsimp only
        split_ifs
        · exact hunmoved.trans (unmoved_scheduleRefresh _ token)
        · exact hunmoved

theorem settle_error {message : String} {reaction : Reaction κ}
    (h : p.settle options k (.error message) reaction = some q) :
    ∃ call message, p.calls[k]? = some call ∧ call.outcome = .pending ∧
      q = reaction.commands.foldl perform (p.conclude k call (.rejected message)) := by
  obtain ⟨call, hcall, rfl⟩ := Option.map_eq_some_iff.mp h
  obtain ⟨hk, hpending⟩ := Option.filter_eq_some_iff.mp hcall
  exact ⟨call, _, hk, of_decide_eq_true hpending, rfl⟩

end Settle

section Steps

variable {κ : Type} {p q : EnterpriseAuthProvider κ} {options : EnterpriseAuthProviderOptions}

theorem settle_error_inv (hp : StaysRevoked p) {k : Nat} {message : String} {reaction : Reaction κ}
    (h : p.settle options k (.error message) reaction = some q) : StaysRevoked q := by
  obtain ⟨call, message, hk, hpending, rfl⟩ := settle_error h
  by_cases hrevoke : .revoke ∈ reaction.commands
  · exact fun _ _ => signedOut_of_none (currentToken_commands _ (.inr hrevoke))
  · rw [(unmoved_commands _ hrevoke _).staysRevoked]
    intro hpos hnew
    refine hp hpos (fun hold => hnew ?_)
    exact (renewed_conclude hk hpending _).mpr (.inl hold)

/-- An answer keeps a revocation in force exactly if it is safe. -/
theorem settle_ok_iff {k : Nat} {token : AuthToken} {reaction : Reaction κ}
    (h : p.settle options k (.ok token) reaction = some q) :
    StaysRevoked q ↔ SafeAnswer p (.settle k (.ok token) reaction) := by
  obtain ⟨⟨request, startedAt, outcome⟩, settled, hk, rfl, hsettled, hrevoked, hkept⟩ := settle_ok h
  rw [SafeAnswer, hk]
  dsimp only
  by_cases hrevoke : .revoke ∈ reaction.commands
  · exact iff_of_true (fun _ _ => signedOut_of_none (hrevoked hrevoke)) (.inr (.inr (.inl hrevoke)))
  · have hunmoved := hkept hrevoke
    have hrenewed : Renewed ((p.store token request).conclude k ⟨request, startedAt, .pending⟩ settled) ↔
        Renewed p ∨ isAuthenticate request ∧ startedAt = p.revocations ∧ reaction.throws = none := by
      rw [← hsettled]
      cases request with
      | authenticate credentials => exact renewed_conclude (p := p.store token (.authenticate credentials)) hk rfl settled
      | refresh credentials => exact renewed_conclude (p := p.store token (.refresh credentials)) hk rfl settled
    have htoken : SignedOut ((p.store token request).conclude k ⟨request, startedAt, .pending⟩ settled) ↔
        isExpired token p.now := by
      cases request with
      | authenticate credentials => exact signedOut_iff_of_some rfl
      | refresh credentials => exact signedOut_iff_of_some rfl
    have hcount : ((p.store token request).conclude k ⟨request, startedAt, .pending⟩ settled).revocations = p.revocations := by
      cases request with
      | authenticate credentials => rfl
      | refresh credentials => rfl
    rw [hunmoved.staysRevoked, StaysRevoked, hrenewed, htoken, hcount, Nat.pos_iff_ne_zero]
    constructor
    · intro hstays
      by_cases hzero : p.revocations = 0
      · exact .inl hzero
      · by_cases hrenews : Renewed p ∨ isAuthenticate request ∧ startedAt = p.revocations ∧ reaction.throws = none
        · exact .inr (hrenews.imp_right (fun hnew => .inr (.inr hnew)))
        · exact .inr (.inr (.inr (.inl (hstays hzero hrenews))))
    · rintro (hzero | hold | hcommand | hexpired | hnew) hpos hnone
      · exact absurd hzero hpos
      · exact absurd (.inl hold) hnone
      · exact absurd hcommand hrevoke
      · exact hexpired
      · exact absurd (.inr hnew) hnone

theorem step_iff {e : Event κ} (hp : StaysRevoked p) (h : step options p e = some q) : StaysRevoked q ↔ SafeAnswer p e := by
  cases e with
  | elapse ms =>
      refine iff_of_true ?_ trivial
      rw [step] at h
      split_ifs at h with hms
      cases h
      intro hpos hnew
      have hout := hp hpos hnew
      rcases Option.eq_none_or_eq_some p.currentToken with hnone | ⟨token, htoken⟩
      · exact signedOut_of_none hnone
      · have hexpired : isExpired token (p.now + ms) :=
          isExpired_mono (le_add_of_nonneg_right hms) ((signedOut_iff_of_some htoken).mp hout)
        exact (signedOut_iff_of_some (p := { p with now := p.now + ms }) htoken).mpr hexpired
  | command command =>
      refine iff_of_true ?_ trivial
      cases h
      by_cases hrevoke : command = .revoke
      · subst hrevoke
        exact fun _ _ => signedOut_of_none (currentToken_revoke p)
      · exact (unmoved_perform p hrevoke).staysRevoked.mpr hp
  | settle k answer reaction =>
      change p.settle options k answer reaction = some q at h
      cases answer with
      | error message => exact iff_of_true (settle_error_inv hp h) trivial
      | ok token => exact settle_ok_iff h
  | fire timer =>
      refine iff_of_true ?_ trivial
      obtain ⟨fired, -, rfl⟩ := Option.map_eq_some_iff.mp h
      exact (unmoved_refresh _).staysRevoked.mpr hp

/-- Only an answer that comes for a call can be unsafe. -/
theorem safeAnswer_of_none {e : Event κ} (h : step options p e = none) : SafeAnswer p e := by
  unfold SafeAnswer
  split
  · rename_i k token reaction
    split
    · rename_i request startedAt hk
      have hsettle : p.settle options k (.ok token) reaction = none := h
      rw [EnterpriseAuthProvider.settle, hk] at hsettle
      cases hsettle
    · trivial
  · trivial

end Steps

section Main

variable {κ : Type}

/-- In every state of a run a revocation is in force exactly if every answer is safe. -/
theorem sessions_stay_revoked_iff (options : EnterpriseAuthProviderOptions) (es : List (Event κ)) :
    Allowed (step options) (fun p e => ∀ q, step options p e = some q → StaysRevoked q) {} es ↔
      Allowed (step options) SafeAnswer {} es := by
  have hinit : StaysRevoked ({} : EnterpriseAuthProvider κ) := fun hpos => absurd hpos (lt_irrefl 0)
  refine allowed_iff (I := StaysRevoked) (fun p e q _ hok hstep => hok q hstep) (fun p e hp => ?_) hinit es
  cases hstep : step options p e with
  | none => exact iff_of_true (by simp) (safeAnswer_of_none hstep)
  | some q => simp only [Option.some.injEq, forall_eq', step_iff hp hstep]

end Main

section Sample

def apiToken : AuthToken := ⟨"t", .finite 0, "api-key", []⟩

/-- A refresh is on its way when the token is revoked. -/
def refreshedSchedule : List (Event String) :=
  [.command (.authenticate "c"), .settle 0 (.ok apiToken) {}, .command .refresh, .command .revoke,
    .settle 1 (.ok apiToken) {}]

theorem refresh_undoes_revoke : ∃ p, run (step {}) {} refreshedSchedule = some p ∧ ¬StaysRevoked p ∧
    p.isAuthenticated ∧ p.getToken = some apiToken := by
  have hfacts : (run (step {}) {} refreshedSchedule).any (fun p => ¬StaysRevoked p ∧ p.isAuthenticated ∧
      p.getToken = some apiToken) := by
    rfl
  obtain ⟨p, hrun, hp⟩ := (Option.any_eq_true _ _).mp hfacts
  exact ⟨p, hrun, of_decide_eq_true hp⟩

end Sample

end SplitSdk.SessionRevocation
