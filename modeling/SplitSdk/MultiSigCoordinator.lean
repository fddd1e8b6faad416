import SplitSdk.NumberText
import SplitSdk.OrderedMap
import SplitSdk.Interleaving

namespace SplitSdk.MultiSigCoordinator

open Numbers OrderedMap

section Data

structure SignerInfo where
  publicKey : String
  weight : JsNumber
  deriving DecidableEq

structure MultiSigConfig where
  signers : List SignerInfo
  threshold : JsNumber

inductive MultiSigStatus
  | pending
  | authorized
  | expired
  | rejected
  deriving DecidableEq

structure SignatureEntry where
  publicKey : String
  signature : String
  timestamp : ℚ
  weight : JsNumber

structure MultiSigSession where
  id : String
  txHash : String
  txXdr : String
  config : MultiSigConfig
  signatures : List SignatureEntry := []
  status : MultiSigStatus := .pending
  createdAt : ℚ
  expiresAt : Option JsNumber

/-- The coordinator, with the sessions whose threshold the calls of `addSignature` that go on still have to check. The
innermost call comes first: the others wait for the handlers of their `signature:added`. -/
structure Coordinator where
  sessions : OrdMap String MultiSigSession := .empty
  sessionCounter : Nat := 0
  checking : List String := []
  now : ℚ := 0

end Data

section Sessions

def totalWeight (signers : List SignerInfo) : JsNumber :=
  signers.foldl (fun sum signer => sum.add signer.weight) (.finite 0)

def computeAccumulatedWeight (session : MultiSigSession) : JsNumber :=
  session.signatures.foldl (fun sum sig => sum.add sig.weight) (.finite 0)

def isThresholdReached (session : MultiSigSession) : Bool :=
  session.config.threshold.le (computeAccumulatedWeight session)

def MultiSigStatus.text : MultiSigStatus → String
  | .pending => "pending"
  | .authorized => "authorized"
  | .expired => "expired"
  | .rejected => "rejected"

def notFound (sessionId : String) : String := "Session '" ++ sessionId ++ "' not found"

namespace MultiSigSession

/-- `Date.now() > expiresAt`. -/
def isExpired (session : MultiSigSession) (now : ℚ) : Bool :=
  session.expiresAt.any (fun expiresAt => expiresAt.lt (.finite now))

def signerInfo (config : MultiSigConfig) (publicKey : String) : Option SignerInfo :=
  config.signers.find? (fun signer => signer.publicKey = publicKey)

/-- `addSignature` up to the emission of `signature:added`: the session, and the message of the error that is thrown. -/
def addSignature (session : MultiSigSession) (now : ℚ) (publicKey signature : String) : MultiSigSession × Option String :=
  if session.status ≠ .pending then
    (session, some ("Session '" ++ session.id ++ "' is not pending (status: " ++ session.status.text ++ ")"))
  else if session.isExpired now then
    ({ session with status := .expired }, some ("Session '" ++ session.id ++ "' has expired"))
  else
    match signerInfo session.config publicKey with
    | none => (session, some ("Signer '" ++ publicKey ++ "' is not authorized for session '" ++ session.id ++ "'"))
    | some signer =>
        if session.signatures.any (fun sig => sig.publicKey = publicKey) then
          (session, some ("Signer '" ++ publicKey ++ "' has already signed session '" ++ session.id ++ "'"))
        else ({ session with signatures := session.signatures ++ [⟨publicKey, signature, now, signer.weight⟩] }, none)

/-- The rest of `addSignature`. -/
def checkThreshold (session : MultiSigSession) : MultiSigSession × Bool :=
  if isThresholdReached session then ({ session with status := .authorized }, true) else (session, false)

def reject (session : MultiSigSession) : MultiSigSession × Option String :=
  if session.status ≠ .pending then (session, some ("Session '" ++ session.id ++ "' is not pending"))
  else ({ session with status := .rejected }, none)

end MultiSigSession

end Sessions

section Operations

namespace Coordinator

/-- The session that `createSession` makes. -/
def newSession (c : Coordinator) (txHash txXdr : String) (config : MultiSigConfig) (expiresAt : Option JsNumber) :
    MultiSigSession :=
  { id := "multisig-" ++ (c.sessionCounter + 1).repr, txHash, txXdr, config, createdAt := c.now, expiresAt }

def createSession (c : Coordinator) (txHash txXdr : String) (config : MultiSigConfig) (expiresAt : Option JsNumber) :
    Except String (MultiSigSession × Coordinator) :=
  if config.signers.length = 0 then .error "Multi-sig config must include at least one signer"
  else if config.threshold.le (.finite 0) then .error "Threshold must be positive"
  else if (totalWeight config.signers).lt config.threshold then
    .error ("Total signer weight (" ++ Numbers.toString (totalWeight config.signers) ++ ") cannot satisfy threshold (" ++
      Numbers.toString config.threshold ++ ")")
  else
    let session := c.newSession txHash txXdr config expiresAt
    .ok (session, { c with sessions := c.sessions.set session.id session, sessionCounter := c.sessionCounter + 1 })

def addSignature (c : Coordinator) (sessionId publicKey signature : String) : Coordinator × Option String :=
  match c.sessions.get? sessionId with
  | none => (c, some (notFound sessionId))
  | some session =>
      let (after, error) := session.addSignature c.now publicKey signature
      ({ c with
        sessions := c.sessions.set sessionId after
        checking := if error = none then sessionId :: c.checking else c.checking }, error)

/-- The innermost call of `addSignature` goes on and returns. -/
def checkThreshold (c : Coordinator) : Option (Coordinator × Bool) :=
  match c.checking with
  | [] => none
  | sessionId :: checking =>
      (c.sessions.get? sessionId).map (fun session =>
        ({ c with sessions := c.sessions.set sessionId session.checkThreshold.1, checking }, session.checkThreshold.2))

def rejectSession (c : Coordinator) (sessionId : String) : Coordinator × Option String :=
  match c.sessions.get? sessionId with
  | none => (c, some (notFound sessionId))
  | some session => ({ c with sessions := c.sessions.set sessionId session.reject.1 }, session.reject.2)

end Coordinator

inductive Event
  | elapse (ms : ℚ)
  | createSession (txHash txXdr : String) (config : MultiSigConfig) (expiresAt : Option JsNumber)
  | addSignature (sessionId publicKey signature : String)
  | checkThreshold
  | rejectSession (sessionId : String)

/-- A call that throws leaves what it has done so far. -/
def step (c : Coordinator) : Event → Option Coordinator
  | .elapse ms => if 0 ≤ ms then some { c with now := c.now + ms } else none
  | .createSession txHash txXdr config expiresAt =>
      some ((c.createSession txHash txXdr config expiresAt).toOption.elim c Prod.snd)
  | .addSignature sessionId publicKey signature => some (c.addSignature sessionId publicKey signature).1
  | .checkThreshold => c.checkThreshold.map Prod.fst
  | .rejectSession sessionId => some (c.rejectSession sessionId).1

end Operations

end SplitSdk.MultiSigCoordinator

namespace SplitSdk.MultiSigAuthorization

open Interleaving MultiSigCoordinator Numbers OrderedMap

section Statement

/-- What has happened to a session: the listed signers that have signed it, each once, in time and before any rejection,
whether it was rejected, and whether their weights have ever reached the threshold. -/
structure Ledger where
  signers : List String := []
  rejected : Bool := false
  reached : Bool := false

def weightOf (config : MultiSigConfig) (publicKey : String) : Option JsNumber :=
  (MultiSigSession.signerInfo config publicKey).map SignerInfo.weight

/-- The weights of the signers, added in their order. -/
def sumOf (config : MultiSigConfig) (signers : List String) : JsNumber :=
  (signers.filterMap (weightOf config)).foldl JsNumber.add (.finite 0)

def Ledger.sign (l : Ledger) (session : MultiSigSession) (now : ℚ) (publicKey : String) : Ledger :=
  if l.rejected ∨ session.isExpired now ∨ publicKey ∈ l.signers ∨ weightOf session.config publicKey = none then l
  else
    let signers := l.signers ++ [publicKey]
    { l with signers, reached := l.reached || session.config.threshold.le (sumOf session.config signers) }

structure History where
  coordinator : Coordinator := {}
  ledgers : String → Ledger := fun _ => {}

def observe (h : History) : Event → History
  | .addSignature sessionId publicKey _ =>
      { h with
        ledgers := (h.coordinator.sessions.get? sessionId).elim h.ledgers (fun session =>
          Function.update h.ledgers sessionId ((h.ledgers sessionId).sign session h.coordinator.now publicKey)) }
  | .rejectSession sessionId =>
      { h with
        ledgers := (h.coordinator.sessions.get? sessionId).elim h.ledgers (fun _ =>
          Function.update h.ledgers sessionId { h.ledgers sessionId with rejected := true }) }
  | .elapse _ | .createSession _ _ _ _ | .checkThreshold => h

def observedStep (h : History) (e : Event) : Option History :=
  (step h.coordinator e).map (fun coordinator => { observe h e with coordinator })

def History.session (h : History) (id : String) : Option MultiSigSession := h.coordinator.sessions.get? id

/-- A session that no call is about is authorized exactly if the weights have reached the threshold. -/
def Exact (h : History) : Prop := ∀ id, id ∉ h.coordinator.checking → ∀ session, h.session id = some session →
  (session.status = .authorized ↔ (h.ledgers id).reached)

/-- A status that is not pending does not change. -/
def Final (h h' : History) : Prop := ∀ id session, h.session id = some session → session.status ≠ .pending →
  ∃ session', h'.session id = some session' ∧ session'.status = session.status

/-- When a call checks the threshold, no handler has ended the session against the weights, or lowered them again. -/
def CheckIsCurrent (h : History) : Event → Prop
  | .checkThreshold =>
      ∀ id ∈ h.coordinator.checking.head?, ∀ session ∈ h.session id,
        (isThresholdReached session → session.status = .pending ∨ session.status = .authorized) ∧
          (id ∉ h.coordinator.checking.tail → (h.ledgers id).reached →
            isThresholdReached session ∨ session.status = .authorized)
  | _ => True

instance (h : History) : DecidablePred (CheckIsCurrent h) := fun e => by
  unfold CheckIsCurrent
  split <;> infer_instance

end Statement

section Sessions

variable {now : ℚ} {session : MultiSigSession} {l : Ledger}

/-- What a session and its ledger have in common. -/
structure Booked (now : ℚ) (session : MultiSigSession) (l : Ledger) : Prop where
  weights : ∀ sig ∈ session.signatures, weightOf session.config sig.publicKey = some sig.weight
  signers : session.status ≠ .authorized → l.signers = session.signatures.map SignatureEntry.publicKey
  pending : session.status = .pending → l.rejected = false
  rejected : session.status = .rejected → l.rejected = true
  expired : session.status = .expired → session.isExpired now = true
  authorized : session.status = .authorized → l.reached = true
  reached : isThresholdReached session → l.reached = true

theorem computeAccumulatedWeight_eq (h : ∀ sig ∈ session.signatures, weightOf session.config sig.publicKey = some sig.weight) :
    computeAccumulatedWeight session = sumOf session.config (session.signatures.map SignatureEntry.publicKey) := by
  have hweights : (session.signatures.map SignatureEntry.publicKey).filterMap (weightOf session.config) =
      session.signatures.map SignatureEntry.weight := by
    rw [List.filterMap_map, ← List.filterMap_eq_map]
    exact List.filterMap_congr h
  rw [sumOf, hweights, List.foldl_map, computeAccumulatedWeight]

/-- Nothing is entered for a session that has come to its end, unless it is authorized. -/
theorem sign_of_ended (hb : Booked now session l) (hpending : session.status ≠ .pending)
    (hauthorized : session.status ≠ .authorized) (publicKey : String) : l.sign session now publicKey = l := by
  refine if_pos ?_
  cases hstatus : session.status with
  | pending => exact absurd hstatus hpending
  | authorized => exact absurd hstatus hauthorized
  | expired => exact .inr (.inl (hb.expired hstatus))
  | rejected => exact .inl (hb.rejected hstatus)

theorem reached_sign (hreached : l.reached = true) (publicKey : String) : (l.sign session now publicKey).reached = true := by
  unfold Ledger.sign
  split_ifs
  · exact hreached
  · dsimp only
    rw [hreached, Bool.true_or]

theorem isExpired_mono {later : ℚ} (hlater : now ≤ later) (hexpired : session.isExpired now = true) :
    session.isExpired later = true := by
  obtain ⟨expiresAt, hsome, hlt⟩ := (Option.any_eq_true _ _).mp hexpired
  refine (Option.any_eq_true _ _).mpr ⟨expiresAt, hsome, ?_⟩
  cases expiresAt with
  | nan => cases hlt
  | infinity negative => exact hlt
  | finite q => exact decide_eq_true ((of_decide_eq_true hlt).trans_le hlater)

theorem Booked.mono {later : ℚ} (hb : Booked now session l) (hlater : now ≤ later) : Booked later session l :=
  { hb with expired := fun hstatus => isExpired_mono hlater (hb.expired hstatus) }

variable (now session) in
/-- What `addSignature` does to a session, with the error that it throws. -/
inductive Signed (publicKey signature : String) : MultiSigSession × Option String → Prop
  | ended (h : session.status ≠ .pending) (message : String) : Signed publicKey signature (session, some message)
  | expired (hpending : session.status = .pending) (h : session.isExpired now) (message : String) :
      Signed publicKey signature ({ session with status := .expired }, some message)
  | unlisted (hpending : session.status = .pending) (h : weightOf session.config publicKey = none) (message : String) :
      Signed publicKey signature (session, some message)
  | repeated (hpending : session.status = .pending) (h : publicKey ∈ session.signatures.map SignatureEntry.publicKey)
      (message : String) : Signed publicKey signature (session, some message)
  | taken (hpending : session.status = .pending) (hlive : session.isExpired now = false) {weight : JsNumber}
      (hweight : weightOf session.config publicKey = some weight)
      (hnew : publicKey ∉ session.signatures.map SignatureEntry.publicKey) :
      Signed publicKey signature
        ({ session with signatures := session.signatures ++ [⟨publicKey, signature, now, weight⟩] }, none)

variable (now session) in
theorem signed (publicKey signature : String) :
    Signed now session publicKey signature (session.addSignature now publicKey signature) := by
  have hsigned : session.signatures.any (fun sig => sig.publicKey = publicKey) ↔
      publicKey ∈ session.signatures.map SignatureEntry.publicKey := by
    simp
  rw [MultiSigSession.addSignature]
  by_cases hpending : session.status = .pending
  · rw [if_neg (not_not.mpr hpending)]
    cases hexpired : session.isExpired now with
    | true => exact .expired hpending hexpired _
    | false =>
        cases hsigner : MultiSigSession.signerInfo session.config publicKey with
        | none => exact .unlisted hpending (by rw [weightOf, hsigner]; rfl) _
        | some signer =>
            by_cases hany : session.signatures.any (fun sig => sig.publicKey = publicKey)
            · simp only [hany, if_true]
              exact .repeated hpending (hsigned.mp hany) _
            · simp only [hany]
              exact .taken hpending hexpired (by rw [weightOf, hsigner]; rfl) (fun hmem => hany (hsigned.mpr hmem))
  · rw [if_pos hpending]
    exact .ended hpending _

/-- A signature is entered in the ledger when the session takes it. -/
theorem booked_addSignature (hb : Booked now session l) (publicKey signature : String) :
    Booked now (session.addSignature now publicKey signature).1 (l.sign session now publicKey) := by
  have hsame : l.sign session now publicKey = l → Booked now session (l.sign session now publicKey) := by
    intro hsign
    rw [hsign]
    exact hb
  have hsigned := signed now session publicKey signature
  generalize session.addSignature now publicKey signature = result at hsigned ⊢
  cases hsigned with
  | ended hpending message =>
      by_cases hauthorized : session.status = .authorized
      · refine ⟨hb.weights, fun hne => absurd hauthorized hne, fun hstatus => absurd hstatus hpending, ?_, ?_,
          fun _ => reached_sign (hb.authorized hauthorized) publicKey,
          fun hreached => reached_sign (hb.reached hreached) publicKey⟩
        · simp [hauthorized]
        · simp [hauthorized]
      · exact hsame (sign_of_ended hb hpending hauthorized publicKey)
  | expired hpending hexpired message =>
      rw [show l.sign session now publicKey = l from if_pos (.inr (.inl hexpired))]
      exact ⟨hb.weights, fun _ => hb.signers (by simp [hpending]), by simp, by simp, fun _ => hexpired, by simp, hb.reached⟩
  | unlisted hpending hnone message => exact hsame (if_pos (.inr (.inr (.inr hnone))))
  | repeated hpending hmem message =>
      rw [← hb.signers (by simp [hpending])] at hmem
      exact hsame (if_pos (.inr (.inr (.inl hmem))))
  | @taken hpending hlive weight hweight hnew =>
      have hkeys := hb.signers (by simp [hpending])
      rw [← hkeys] at hnew
      have hsign : l.sign session now publicKey =
          { l with
            signers := l.signers ++ [publicKey]
            reached := l.reached || session.config.threshold.le (sumOf session.config (l.signers ++ [publicKey])) } := by
        refine if_neg ?_
        rw [hb.pending hpending, hweight, hlive]
        simp [hnew]
      have hweights : ∀ sig ∈ session.signatures ++ [⟨publicKey, signature, now, weight⟩],
          weightOf session.config sig.publicKey = some sig.weight := by
        intro sig hsig
        rcases List.mem_append.mp hsig with hold | hlast
        · exact hb.weights sig hold
        · rw [List.mem_singleton.mp hlast]
          exact hweight
      rw [hsign]
      refine ⟨hweights, fun _ => ?_, fun _ => hb.pending hpending, by simp [hpending], by simp [hpending],
        by simp [hpending], fun hreached => ?_⟩
      · rw [hkeys, List.map_append]
        rfl
      · rw [isThresholdReached, computeAccumulatedWeight_eq hweights, List.map_append, ← hkeys] at hreached
        exact (Bool.or_eq_true _ _).mpr (.inr hreached)

theorem booked_reject (hb : Booked now session l) : Booked now session.reject.1 { l with rejected := true } := by
  unfold MultiSigSession.reject
  split_ifs with hpending
  · exact { hb with pending := fun hstatus => absurd hstatus hpending, rejected := fun _ => rfl }
  · have hstatus := not_not.mp hpending
    exact ⟨hb.weights, fun _ => hb.signers (by simp [hstatus]), by simp, fun _ => rfl, by simp, by simp, hb.reached⟩

theorem booked_checkThreshold (hb : Booked now session l) : Booked now session.checkThreshold.1 l := by
  unfold MultiSigSession.checkThreshold
  split_ifs with hreached
  · exact ⟨hb.weights, by simp, by simp, by simp, by simp, fun _ => hb.reached hreached, hb.reached⟩
  · exact hb

theorem status_addSignature_of_ended (h : session.status ≠ .pending) (publicKey signature : String) :
    (session.addSignature now publicKey signature).1.status = session.status := by
  have hsigned := signed now session publicKey signature
  generalize session.addSignature now publicKey signature = result at hsigned ⊢
  cases hsigned with
  | ended | unlisted | repeated | taken => rfl
  | expired hpending => exact absurd hpending h

theorem status_reject_of_ended (h : session.status ≠ .pending) : session.reject.1.status = session.status := by
  unfold MultiSigSession.reject
  rw [if_pos h]

/-- A signature that is not taken neither authorizes the session nor makes the weights reach the threshold. -/
theorem exact_addSignature (hb : Booked now session l) {publicKey signature : String}
    (herror : (session.addSignature now publicKey signature).2 ≠ none) (hexact : session.status = .authorized ↔ l.reached) :
    (session.addSignature now publicKey signature).1.status = .authorized ↔ (l.sign session now publicKey).reached := by
  have hsame : l.sign session now publicKey = l →
      (session.status = .authorized ↔ (l.sign session now publicKey).reached) := by
    intro hsign
    rw [hsign]
    exact hexact
  have hsigned := signed now session publicKey signature
  generalize session.addSignature now publicKey signature = result at hsigned herror ⊢
  cases hsigned with
  | ended hpending message =>
      by_cases hauthorized : session.status = .authorized
      · exact iff_of_true hauthorized (reached_sign (hexact.mp hauthorized) publicKey)
      · exact hsame (sign_of_ended hb hpending hauthorized publicKey)
  | expired hpending hexpired message =>
      rw [show l.sign session now publicKey = l from if_pos (.inr (.inl hexpired)), ← hexact, hpending]
      simp
  | unlisted hpending hnone message => exact hsame (if_pos (.inr (.inr (.inr hnone))))
  | repeated hpending hmem message =>
      rw [← hb.signers (by simp [hpending])] at hmem
      exact hsame (if_pos (.inr (.inr (.inl hmem))))
  | taken => exact absurd rfl herror

theorem exact_reject (hexact : session.status = .authorized ↔ l.reached) :
    session.reject.1.status = .authorized ↔ l.reached := by
  unfold MultiSigSession.reject
  split_ifs with hpending
  · exact hexact
  · rw [← hexact, not_not.mp hpending]
    simp

end Sessions

section Histories

variable {h h' : History}

structure Inv (h : History) : Prop where
  booked : ∀ id session, h.session id = some session → Booked h.coordinator.now session (h.ledgers id)
  fresh : ∀ id, h.session id = none → h.ledgers id = {}
  counted : ∀ id session, h.session id = some session →
    ∃ k ≤ h.coordinator.sessionCounter, id = "multisig-" ++ k.repr

theorem inv_empty : Inv {} := ⟨fun _ _ h => (by cases h), fun _ _ => rfl, fun _ _ h => (by cases h)⟩

theorem exact_empty : Exact {} := fun _ _ _ h => by cases h

/-- A call is about one session. -/
def touched (h : History) (id : String) (session : MultiSigSession) (l : Ledger) (checking : List String) : History where
  coordinator := { h.coordinator with sessions := h.coordinator.sessions.set id session, checking }
  ledgers := Function.update h.ledgers id l

variable {id : String} {session after : MultiSigSession} {l : Ledger} {checking : List String}

theorem session_touched (i : String) :
    (touched h id after l checking).session i = if i = id then some after else h.session i :=
  OrdMap.get?_set ..

theorem ledgers_touched (i : String) : (touched h id after l checking).ledgers i = if i = id then l else h.ledgers i :=
  Function.update_apply ..

theorem touched_inv (hi : Inv h) (hget : h.session id = some session) (hb : Booked h.coordinator.now after l) :
    Inv (touched h id after l checking) := by
  refine ⟨fun i other hother => ?_, fun i hnone => ?_, fun i other hother => ?_⟩
  · rw [session_touched] at hother
    rw [ledgers_touched]
    split_ifs at hother ⊢ with hid
    · cases hother
      exact hb
    · exact hi.booked i other hother
  · rw [session_touched] at hnone
    rw [ledgers_touched]
    split_ifs at hnone ⊢ with hid
    exact hi.fresh i hnone
  · rw [session_touched] at hother
    split_ifs at hother with hid
    · exact hi.counted i session (hid ▸ hget)
    · exact hi.counted i other hother

theorem touched_final_iff (hget : h.session id = some session) :
    Final h (touched h id after l checking) ↔ (session.status ≠ .pending → after.status = session.status) := by
  constructor
  · intro hfinal hended
    obtain ⟨other, hother, hstatus⟩ := hfinal id session hget hended
    rw [session_touched, if_pos rfl] at hother
    cases hother
    exact hstatus
  · intro hstatus i other hother hended
    rw [session_touched]
    split_ifs with hid
    · rw [hid, hget] at hother
      cases hother
      exact ⟨after, rfl, hstatus hended⟩
    · exact ⟨other, hother, rfl⟩

theorem touched_exact_iff (he : Exact h) (hchecking : ∀ i ≠ id, i ∉ checking → i ∉ h.coordinator.checking) :
    Exact (touched h id after l checking) ↔ (id ∉ checking → (after.status = .authorized ↔ l.reached)) := by
  constructor
  · intro hexact hid
    have hself := hexact id hid after
    rw [session_touched, if_pos rfl, ledgers_touched, if_pos rfl] at hself
    exact hself rfl
  · intro hself i hi other hother
    rw [session_touched] at hother
    rw [ledgers_touched]
    split_ifs at hother ⊢ with hid
    · cases hother
      exact hself (hid ▸ hi)
    · exact he i (hchecking i hid hi) other hother

end Histories

section Steps

variable {h h' : History} {id : String} {session : MultiSigSession}

theorem addSignature_spec (hi : Inv h) (he : Exact h) {publicKey signature : String}
    (hstep : observedStep h (.addSignature id publicKey signature) = some h') : Inv h' ∧ Final h h' ∧ Exact h' := by
  cases hget : h.coordinator.sessions.get? id with
  | none =>
      have hsame : observedStep h (.addSignature id publicKey signature) = some h := by
        rw [observedStep, step, observe, Coordinator.addSignature, hget]
        rfl
      cases hsame.symm.trans hstep
      exact ⟨hi, fun i other hother _ => ⟨other, hother, rfl⟩, he⟩
  | some session =>
      have htouched : observedStep h (.addSignature id publicKey signature) = some (touched h id
          (session.addSignature h.coordinator.now publicKey signature).1
          ((h.ledgers id).sign session h.coordinator.now publicKey)
          (if (session.addSignature h.coordinator.now publicKey signature).2 = none then id :: h.coordinator.checking
            else h.coordinator.checking)) := by
        rw [observedStep, step, observe, Coordinator.addSignature, hget]
        rfl
      cases htouched.symm.trans hstep
      have hb := hi.booked id session hget
      refine ⟨touched_inv hi hget (booked_addSignature hb publicKey signature), (touched_final_iff hget).mpr ?_,
        (touched_exact_iff he fun i _ hnot => ?_).mpr fun hid => ?_⟩
      · exact fun hended => status_addSignature_of_ended hended publicKey signature
      · split_ifs at hnot
        · exact fun hmem => hnot (List.mem_cons_of_mem _ hmem)
        · exact hnot
      · split_ifs at hid with herror
        · exact absurd List.mem_cons_self hid
        · exact exact_addSignature hb herror (he id hid session hget)

theorem rejectSession_spec (hi : Inv h) (he : Exact h) (hstep : observedStep h (.rejectSession id) = some h') :
    Inv h' ∧ Final h h' ∧ Exact h' := by
  cases hget : h.coordinator.sessions.get? id with
  | none =>
      have hsame : observedStep h (.rejectSession id) = some h := by
        rw [observedStep, step, observe, Coordinator.rejectSession, hget]
        rfl
      cases hsame.symm.trans hstep
      exact ⟨hi, fun i other hother _ => ⟨other, hother, rfl⟩, he⟩
  | some session =>
      have htouched : observedStep h (.rejectSession id) = some (touched h id session.reject.1
          { h.ledgers id with rejected := true } h.coordinator.checking) := by
        rw [observedStep, step, observe, Coordinator.rejectSession, hget]
        rfl
      cases htouched.symm.trans hstep
      refine ⟨touched_inv hi hget (booked_reject (hi.booked id session hget)), (touched_final_iff hget).mpr ?_,
        (touched_exact_iff he fun _ _ hnot => hnot).mpr fun hid => ?_⟩
      · exact fun hended => status_reject_of_ended hended
      · exact exact_reject (he id hid session hget)

/-- The check keeps what has been decided exactly if it is current. -/
theorem checkThreshold_spec (hi : Inv h) (he : Exact h) (hstep : observedStep h .checkThreshold = some h') :
    Inv h' ∧ (Final h h' ∧ Exact h' ↔ CheckIsCurrent h .checkThreshold) := by
  obtain ⟨coordinator, hcheck, rfl⟩ := Option.map_eq_some_iff.mp hstep
  obtain ⟨result, hresult, rfl⟩ := Option.map_eq_some_iff.mp hcheck
  unfold Coordinator.checkThreshold at hresult
  rw [CheckIsCurrent]
  cases hchecking : h.coordinator.checking with
  | nil =>
      rw [hchecking] at hresult
      cases hresult
  | cons id checking =>
      rw [hchecking] at hresult
      obtain ⟨session, hget, rfl⟩ := Option.map_eq_some_iff.mp hresult
      have htouched : ({ observe h .checkThreshold with
          coordinator := { h.coordinator with sessions := h.coordinator.sessions.set id session.checkThreshold.1, checking } } :
          History) = touched h id session.checkThreshold.1 (h.ledgers id) checking := by
        rw [touched, Function.update_eq_self]
        rfl
      rw [htouched]
      have hb := hi.booked id session hget
      refine ⟨touched_inv hi hget (booked_checkThreshold hb), ?_⟩
      rw [touched_final_iff hget, touched_exact_iff he (fun i hne hnot => by rw [hchecking]; simp [hne, hnot])]
      have hcurrent : (∀ i ∈ (id :: checking).head?, ∀ other ∈ h.session i,
          (isThresholdReached other → other.status = .pending ∨ other.status = .authorized) ∧
            (i ∉ (id :: checking).tail → (h.ledgers i).reached → isThresholdReached other ∨ other.status = .authorized)) ↔
          (isThresholdReached session → session.status = .pending ∨ session.status = .authorized) ∧
            (id ∉ checking → (h.ledgers id).reached → isThresholdReached session ∨ session.status = .authorized) := by
        have hsession : h.session id = some session := hget
        simp [hsession]
      rw [hcurrent]
      have hauthorized := hb.authorized
      have hreached := hb.reached
      unfold MultiSigSession.checkThreshold
      by_cases hthreshold : isThresholdReached session
      · rw [if_pos hthreshold]
        have hl := hreached hthreshold
        cases hstatus : session.status <;> simp [hthreshold, hl]
      · rw [if_neg hthreshold]
        constructor
        · rintro ⟨-, hexact⟩
          exact ⟨fun hcheck => absurd hcheck hthreshold, fun hid hl => .inr ((hexact hid).mpr hl)⟩
        · rintro ⟨-, hcurrent⟩
          exact ⟨fun _ => rfl, fun hid => ⟨hauthorized, fun hl => (hcurrent hid hl).resolve_left hthreshold⟩⟩

/-- A new session has an id of its own. -/
theorem session_create (hi : Inv h) : h.session ("multisig-" ++ (h.coordinator.sessionCounter + 1).repr) = none := by
  rw [Option.eq_none_iff_forall_ne_some]
  intro session hget
  obtain ⟨k, hk, heq⟩ := hi.counted _ session hget
  have hle := NumberText.natRepr_inj ((String.append_right_inj _).mp heq)
  omega

theorem createSession_spec (hi : Inv h) (he : Exact h) {txHash txXdr : String} {config : MultiSigConfig}
    {expiresAt : Option JsNumber} (hstep : observedStep h (.createSession txHash txXdr config expiresAt) = some h') :
    Inv h' ∧ Final h h' ∧ Exact h' := by
  obtain ⟨coordinator, hcreate, rfl⟩ := Option.map_eq_some_iff.mp hstep
  cases hcreate
  unfold Coordinator.createSession
  split_ifs with hsigners hthreshold htotal
  · exact ⟨hi, fun i other hother _ => ⟨other, hother, rfl⟩, he⟩
  · exact ⟨hi, fun i other hother _ => ⟨other, hother, rfl⟩, he⟩
  · exact ⟨hi, fun i other hother _ => ⟨other, hother, rfl⟩, he⟩
  · have hnone := session_create hi
    have hledger := hi.fresh _ hnone
    have hsession : ∀ i other, (h.coordinator.sessions.set ("multisig-" ++ (h.coordinator.sessionCounter + 1).repr)
          (h.coordinator.newSession txHash txXdr config expiresAt)).get? i = some other →
        i = "multisig-" ++ (h.coordinator.sessionCounter + 1).repr ∧
            other = h.coordinator.newSession txHash txXdr config expiresAt ∨ h.session i = some other := by
      intro i other hother
      rw [OrdMap.get?_set] at hother
      split_ifs at hother with hid
      · cases hother
        exact .inl ⟨hid, rfl⟩
      · exact .inr hother
    refine ⟨⟨fun i other hother => ?_, fun i hother => ?_, fun i other hother => ?_⟩, fun i other hother hended => ?_,
      fun i hi' other hother => ?_⟩
    · rcases hsession i other hother with ⟨rfl, rfl⟩ | hold
      · change Booked _ _ (h.ledgers _)
        rw [hledger]
        refine ⟨fun _ hsig => (by cases hsig), fun _ => rfl, fun _ => rfl, fun hstatus => (by cases hstatus),
          fun hstatus => (by cases hstatus), fun hstatus => (by cases hstatus), fun hreached => ?_⟩
        exact absurd hreached hthreshold
      · exact hi.booked i other hold
    · refine hi.fresh i ?_
      change OrdMap.get? (OrdMap.set _ _ _) i = none at hother
      rw [OrdMap.get?_set] at hother
      split_ifs at hother
      exact hother
    · rcases hsession i other hother with ⟨rfl, -⟩ | hold
      · exact ⟨_, le_rfl, rfl⟩
      · obtain ⟨k, hk, rfl⟩ := hi.counted i other hold
        exact ⟨k, Nat.le_succ_of_le hk, rfl⟩
    · refine ⟨other, ?_, rfl⟩
      change OrdMap.get? (OrdMap.set _ _ _) i = some other
      rw [OrdMap.get?_set, if_neg]
      · exact hother
      · rintro rfl
        exact Option.some_ne_none other (hother.symm.trans hnone)
    · rcases hsession i other hother with ⟨rfl, rfl⟩ | hold
      · change _ ↔ (h.ledgers _).reached = true
        rw [hledger]
        exact iff_of_false (by simp [Coordinator.newSession]) (by simp)
      · exact he i hi' other hold

end Steps

section Main

variable {h h' : History} {e : Event}

theorem step_spec (hi : Inv h) (he : Exact h) (hstep : observedStep h e = some h') :
    Inv h' ∧ (Final h h' ∧ Exact h' ↔ CheckIsCurrent h e) := by
  have hkept : Inv h' ∧ Final h h' ∧ Exact h' → Inv h' ∧ (Final h h' ∧ Exact h' ↔ True) :=
    fun hall => ⟨hall.1, iff_of_true hall.2 trivial⟩
  cases e with
  | elapse ms =>
      obtain ⟨coordinator, hcoordinator, rfl⟩ := Option.map_eq_some_iff.mp hstep
      rw [step] at hcoordinator
      split_ifs at hcoordinator with hms
      cases hcoordinator
      refine hkept ⟨⟨fun i other hother => ?_, hi.fresh, hi.counted⟩, fun i other hother _ => ⟨other, hother, rfl⟩, he⟩
      exact (hi.booked i other hother).mono (le_add_of_nonneg_right hms)
  | createSession txHash txXdr config expiresAt => exact hkept (createSession_spec hi he hstep)
  | addSignature id publicKey signature => exact hkept (addSignature_spec hi he hstep)
  | checkThreshold => exact checkThreshold_spec hi he hstep
  | rejectSession id => exact hkept (rejectSession_spec hi he hstep)

theorem checkIsCurrent_of_none (hstep : observedStep h e = none) : CheckIsCurrent h e := by
  cases e with
  | checkThreshold =>
      intro id hid session hsession
      have hnone : h.coordinator.checkThreshold = none := Option.map_eq_none_iff.mp (Option.map_eq_none_iff.mp hstep)
      unfold Coordinator.checkThreshold at hnone
      cases hchecking : h.coordinator.checking with
      | nil =>
          rw [hchecking] at hid
          cases hid
      | cons first checking =>
          rw [hchecking] at hid hnone
          cases hid
          have hget : h.coordinator.sessions.get? id = some session := hsession
          dsimp only at hnone
          rw [hget] at hnone
          cases hnone
  | elapse | createSession | addSignature | rejectSession => trivial

/-- In every run the status of a session is final, and `authorized` as soon as the weights reach the threshold, exactly
if every check of the threshold is current. -/
theorem statuses_follow_signatures (es : List Event) :
    Allowed observedStep (fun h e => ∀ h', observedStep h e = some h' → Final h h' ∧ Exact h') {} es ↔
      Allowed observedStep CheckIsCurrent {} es := by
  refine allowed_iff (I := fun h => Inv h ∧ Exact h) ?_ ?_ ⟨inv_empty, exact_empty⟩ es
  · rintro h e h' ⟨hi, he⟩ hok hstep
    exact ⟨(step_spec hi he hstep).1, (hok h' hstep).2⟩
  · rintro h e ⟨hi, he⟩
    cases hstep : observedStep h e with
    | none => exact iff_of_true (by simp) (checkIsCurrent_of_none hstep)
    | some h' => simp only [Option.some.injEq, forall_eq', (step_spec hi he hstep).2]

end Main

end SplitSdk.MultiSigAuthorization
