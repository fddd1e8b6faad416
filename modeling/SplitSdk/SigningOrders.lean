import SplitSdk.MultiSigCoordinator

namespace SplitSdk.SigningOrders

open Interleaving MultiSigAuthorization MultiSigCoordinator Numbers OrderedMap

section Statement

/-- Only signatures of the session are added. -/
def SigningOnly (id : String) : Event → Prop
  | .addSignature sessionId _ _ => sessionId = id
  | .checkThreshold => True
  | .elapse _ => True
  | .createSession _ _ _ _ | .rejectSession _ => False

/-- The signers can sign in an order that authorizes the session. -/
def Satisfiable (c : Coordinator) (id : String) : Prop :=
  ∃ es c', (∀ e ∈ es, SigningOnly id e) ∧ run step c es = some c' ∧
    ∃ session, c'.sessions.get? id = some session ∧ session.status = .authorized

/-- The weights of distinct listed signers, added in some order, reach the threshold. A signer that is listed more than
once has the weight of its first entry. -/
def CanReach (config : MultiSigConfig) : Prop :=
  ∃ order : List String, order.Nodup ∧ (∀ key ∈ order, (weightOf config key).isSome) ∧
    config.threshold.le (sumOf config order)

end Statement

section Necessary

variable {now : ℚ} {session₀ session : MultiSigSession} {c c' : Coordinator} {id : String}

/-- What the signatures of a session that was created at `now` have brought about. -/
structure Signing (now : ℚ) (session₀ session : MultiSigSession) : Prop where
  config : session.config = session₀.config
  expiresAt : session.expiresAt = session₀.expiresAt
  weights : ∀ sig ∈ session.signatures, weightOf session.config sig.publicKey = some sig.weight
  nodup : (session.signatures.map SignatureEntry.publicKey).Nodup
  live : session.signatures ≠ [] → session₀.isExpired now = false
  authorized : session.status = .authorized → session₀.isExpired now = false ∧ CanReach session₀.config

theorem signing_addSignature (hs : Signing now session₀ session) {later : ℚ} (hlater : now ≤ later)
    (publicKey signature : String) :
    Signing now session₀ (session.addSignature later publicKey signature).1 := by
  have hsigned := signed later session publicKey signature
  generalize session.addSignature later publicKey signature = result at hsigned ⊢
  cases hsigned with
  | ended | unlisted | repeated => exact hs
  | expired => exact { hs with authorized := by simp }
  | @taken hpending hlive weight hweight hnew =>
      have hcreated : session₀.isExpired now = false := by
        rw [MultiSigSession.isExpired, hs.expiresAt] at hlive
        exact Bool.eq_false_iff.mpr (fun hexpired => Bool.eq_false_iff.mp hlive (isExpired_mono hlater hexpired))
      refine ⟨hs.config, hs.expiresAt, fun sig hsig => ?_, ?_, fun _ => hcreated, fun hstatus => ?_⟩
      · rcases List.mem_append.mp hsig with hold | hlast
        · exact hs.weights sig hold
        · rw [List.mem_singleton.mp hlast]
          exact hweight
      · rw [List.map_append]
        exact List.nodup_append'.mpr ⟨hs.nodup, List.nodup_singleton _, List.disjoint_singleton.mpr hnew⟩
      · rw [hpending] at hstatus
        cases hstatus

theorem signing_checkThreshold (hs : Signing now session₀ session)
    (hpositive : session₀.config.threshold.le (.finite 0) = false) : Signing now session₀ session.checkThreshold.1 := by
  unfold MultiSigSession.checkThreshold
  split_ifs with hreached
  · refine { hs with authorized := fun _ => ⟨hs.live ?_, _, hs.nodup, fun key hkey => ?_, ?_⟩ }
    · intro hnil
      rw [isThresholdReached, computeAccumulatedWeight, hnil, hs.config] at hreached
      exact Bool.eq_false_iff.mp hpositive hreached
    · obtain ⟨sig, hsig, rfl⟩ := List.mem_map.mp hkey
      rw [← hs.config, hs.weights sig hsig]
      rfl
    · rw [isThresholdReached, computeAccumulatedWeight_eq hs.weights, hs.config] at hreached
      exact hreached
  · exact hs

/-- The session is there, and time has not gone back. -/
def Tracks (now : ℚ) (session₀ : MultiSigSession) (id : String) (c : Coordinator) : Prop :=
  now ≤ c.now ∧ ∃ session, c.sessions.get? id = some session ∧ Signing now session₀ session

theorem tracks_set (h : Tracks now session₀ id c) {sessionId : String} {session after : MultiSigSession}
    (hget : c.sessions.get? sessionId = some session)
    (hafter : Signing now session₀ session → Signing now session₀ after) {checking : List String} :
    Tracks now session₀ id { c with sessions := c.sessions.set sessionId after, checking } := by
  obtain ⟨hnow, tracked, htracked, hs⟩ := h
  by_cases hid : id = sessionId
  · subst hid
    obtain rfl : tracked = session := Option.some.inj (htracked.symm.trans hget)
    exact ⟨hnow, after, by rw [OrdMap.get?_set, if_pos rfl], hafter hs⟩
  · exact ⟨hnow, tracked, by rw [OrdMap.get?_set, if_neg hid]; exact htracked, hs⟩

theorem tracks_step (hpositive : session₀.config.threshold.le (.finite 0) = false) {e : Event}
    (h : Tracks now session₀ id c) (hsigning : SigningOnly id e) (hstep : step c e = some c') : Tracks now session₀ id c' := by
  cases e with
  | elapse ms =>
      rw [step] at hstep
      split_ifs at hstep with hms
      cases hstep
      exact ⟨h.1.trans (le_add_of_nonneg_right hms), h.2⟩
  | addSignature sessionId publicKey signature =>
      cases hstep
      unfold Coordinator.addSignature
      cases hget : c.sessions.get? sessionId with
      | none => exact h
      | some session => exact tracks_set h hget (fun hs => signing_addSignature hs h.1 publicKey signature)
  | checkThreshold =>
      obtain ⟨result, hresult, rfl⟩ := Option.map_eq_some_iff.mp hstep
      unfold Coordinator.checkThreshold at hresult
      split at hresult
      · cases hresult
      · obtain ⟨session, hget, rfl⟩ := Option.map_eq_some_iff.mp hresult
        exact tracks_set h hget (fun hs => signing_checkThreshold hs hpositive)
  | createSession | rejectSession => exact hsigning.elim

end Necessary

section Sufficient

variable {c : Coordinator} {id : String} {session : MultiSigSession}

theorem addSignature_of_new (hpending : session.status = .pending) (hlive : session.isExpired c.now = false) {key : String}
    {weight : JsNumber} (hweight : weightOf session.config key = some weight)
    (hnew : key ∉ session.signatures.map SignatureEntry.publicKey) (signature : String) :
    session.addSignature c.now key signature =
      ({ session with signatures := session.signatures ++ [⟨key, signature, c.now, weight⟩] }, none) := by
  have hsigned := signed c.now session key signature
  generalize session.addSignature c.now key signature = result at hsigned ⊢
  cases hsigned with
  | ended hended => exact absurd hpending hended
  | expired _ hexpired =>
      rw [hlive] at hexpired
      cases hexpired
  | unlisted _ hnone =>
      rw [hweight] at hnone
      cases hnone
  | repeated _ hmem => exact absurd hmem hnew
  | taken _ _ hother => rw [Option.some.inj (hweight.symm.trans hother)]

theorem sign_run (hget : c.sessions.get? id = some session) (hpending : session.status = .pending)
    (hlive : session.isExpired c.now = false) {key : String} {weight : JsNumber}
    (hweight : weightOf session.config key = some weight)
    (hnew : key ∉ session.signatures.map SignatureEntry.publicKey) :
    ∃ c' after, run step c [.addSignature id key "", .checkThreshold] = some c' ∧ c'.now = c.now ∧
      c'.sessions.get? id = some after ∧ (after.status = .authorized ∨ isThresholdReached after = false ∧
        after = { session with signatures := session.signatures ++ [⟨key, "", c.now, weight⟩] }) := by
  have hadd := addSignature_of_new hpending hlive hweight hnew ""
  generalize hpushed : ({ session with signatures := session.signatures ++ [⟨key, "", c.now, weight⟩] } : MultiSigSession) =
    pushed at hadd
  have hfirst : step c (.addSignature id key "") =
      some { c with sessions := c.sessions.set id pushed, checking := id :: c.checking } := by
    rw [step, Coordinator.addSignature, hget]
    dsimp only
    rw [hadd]
    rfl
  have hsecond : step { c with sessions := c.sessions.set id pushed, checking := id :: c.checking } .checkThreshold =
      some { c with sessions := (c.sessions.set id pushed).set id pushed.checkThreshold.1 } := by
    rw [step, Coordinator.checkThreshold]
    dsimp only
    rw [OrdMap.get?_set, if_pos rfl]
    rfl
  refine ⟨_, pushed.checkThreshold.1, run_step hfirst (run_step hsecond (run_nil _)), rfl, ?_, ?_⟩
  · rw [OrdMap.get?_set, if_pos rfl]
  · unfold MultiSigSession.checkThreshold
    split_ifs with hreached
    · exact .inl rfl
    · exact .inr ⟨Bool.eq_false_iff.mpr hreached, rfl⟩

/-- When all signers of an order have signed, the session is authorized or their weights do not reach the threshold. -/
theorem sign_all (order : List String) (hget : c.sessions.get? id = some session) (hpending : session.status = .pending)
    (hlive : session.isExpired c.now = false)
    (hweights : ∀ sig ∈ session.signatures, weightOf session.config sig.publicKey = some sig.weight)
    (hnodup : (session.signatures.map SignatureEntry.publicKey ++ order).Nodup)
    (hlisted : ∀ key ∈ order, (weightOf session.config key).isSome) (hreached : isThresholdReached session = false) :
    ∃ es c' after, (∀ e ∈ es, SigningOnly id e) ∧ run step c es = some c' ∧ c'.sessions.get? id = some after ∧
      (after.status = .authorized ∨ session.config.threshold.le
        (sumOf session.config (session.signatures.map SignatureEntry.publicKey ++ order)) = false) := by
  induction order generalizing c session with
  | nil =>
      rw [isThresholdReached, computeAccumulatedWeight_eq hweights] at hreached
      refine ⟨[], c, session, by simp, rfl, hget, .inr ?_⟩
      rw [List.append_nil]
      exact hreached
  | cons key order ih =>
      obtain ⟨weight, hweight⟩ := Option.isSome_iff_exists.mp (hlisted key List.mem_cons_self)
      have hnew : key ∉ session.signatures.map SignatureEntry.publicKey := fun hmem =>
        (List.nodup_append'.mp hnodup).2.2 hmem List.mem_cons_self
      obtain ⟨c', after, hrun, hnow, hafter, hdone⟩ := sign_run hget hpending hlive hweight hnew
      rcases hdone with hauthorized | ⟨hpushed, rfl⟩
      · exact ⟨_, c', after, by simp [SigningOnly], hrun, hafter, .inl hauthorized⟩
      · have hkeys : (session.signatures ++ [(⟨key, "", c.now, weight⟩ : SignatureEntry)]).map SignatureEntry.publicKey ++ order =
            session.signatures.map SignatureEntry.publicKey ++ key :: order := by
          rw [List.map_append, List.append_assoc]
          rfl
        obtain ⟨es, c'', last, hes, hrest, hlast, hor⟩ := ih hafter hpending (hnow ▸ hlive)
          (fun sig hsig => by
            rcases List.mem_append.mp hsig with hold | hlast
            · exact hweights sig hold
            · rw [List.mem_singleton.mp hlast]
              exact hweight)
          (hkeys ▸ hnodup) (fun other hother => hlisted other (List.mem_cons_of_mem _ hother)) hpushed
        refine ⟨_, c'', last, fun e he => ?_, run_append hrun hrest, hlast, hkeys ▸ hor⟩
        rcases List.mem_append.mp he with hfirst | hlater
        · rcases List.mem_pair.mp hfirst with rfl | rfl
          · rfl
          · trivial
        · exact hes e hlater

end Sufficient

section Main

theorem satisfiable_iff {c c' : Coordinator} {txHash txXdr : String} {config : MultiSigConfig} {expiresAt : Option JsNumber}
    {session : MultiSigSession} (hcreate : c.createSession txHash txXdr config expiresAt = .ok (session, c')) :
    Satisfiable c' session.id ↔ session.isExpired c.now = false ∧ CanReach config := by
  unfold Coordinator.createSession at hcreate
  split_ifs at hcreate with hsigners hthreshold htotal
  cases hcreate
  have hpositive : config.threshold.le (.finite 0) = false := Bool.eq_false_iff.mpr hthreshold
  generalize hsession : c.newSession txHash txXdr config expiresAt = session
  have hconfig : session.config = config := hsession ▸ rfl
  have hpending : session.status = .pending := hsession ▸ rfl
  have hnil : session.signatures = [] := hsession ▸ rfl
  have hget : (c.sessions.set session.id session).get? session.id = some session := by rw [OrdMap.get?_set, if_pos rfl]
  constructor
  · rintro ⟨es, c', hes, hrun, after, hafter, hauthorized⟩
    have htracks : Tracks c.now session session.id
        { c with sessions := c.sessions.set session.id session, sessionCounter := c.sessionCounter + 1 } := by
      refine ⟨le_rfl, session, hget, rfl, rfl, ?_, ?_, fun hne => absurd hnil hne, fun hstatus => ?_⟩
      · simp [hnil]
      · simp [hnil]
      · rw [hpending] at hstatus
        cases hstatus
    have hstep : ∀ d e d', Tracks c.now session session.id d → SigningOnly session.id e → step d e = some d' →
        Tracks c.now session session.id d' :=
      fun _ _ _ htracks hsigning hstep => tracks_step (by rwa [hconfig]) htracks hsigning hstep
    obtain ⟨-, last, hlast, hs⟩ := run_invariant hstep _ _ es htracks (allowed_of_forall _ hes) hrun
    obtain rfl : after = last := Option.some.inj (hafter.symm.trans hlast)
    rw [← hconfig]
    exact hs.authorized hauthorized
  · rintro ⟨hlive, order, hnodup, hlisted, hreaches⟩
    obtain ⟨es, c', after, hes, hrun, hafter, hor⟩ := sign_all (c := { c with
        sessions := c.sessions.set session.id session, sessionCounter := c.sessionCounter + 1 }) order hget hpending hlive
      (by simp [hnil]) (by simpa [hnil] using hnodup) (by rwa [hconfig])
      (by rw [isThresholdReached, computeAccumulatedWeight, hnil, hconfig]; exact hpositive)
    refine ⟨es, c', hes, hrun, after, hafter, hor.resolve_right (fun hunreached => ?_)⟩
    rw [hconfig, hnil] at hunreached
    exact Bool.eq_false_iff.mp hunreached hreaches

/-- A status is final and follows the signatures while every check of the threshold is current, and a session that has
been created can be authorized exactly if it is not expired and the weights of its distinct signers can reach the
threshold. -/
theorem multisig_authorization (es : List Event) {c c' : Coordinator} {txHash txXdr : String} {config : MultiSigConfig}
    {expiresAt : Option JsNumber} {session : MultiSigSession}
    (hcreate : c.createSession txHash txXdr config expiresAt = .ok (session, c')) :
    (Allowed observedStep (fun h e => ∀ h', observedStep h e = some h' → Final h h' ∧ Exact h') {} es ↔
      Allowed observedStep CheckIsCurrent {} es) ∧
    (Satisfiable c' session.id ↔ session.isExpired c.now = false ∧ CanReach config) :=
  ⟨statuses_follow_signatures es, satisfiable_iff hcreate⟩

end Main

section Distinct

theorem roundHalfEven_nonneg {q : ℚ} (hq : 0 ≤ q) : 0 ≤ roundHalfEven q := by
  have hfloor : 0 ≤ q.floor := Rat.le_floor_iff.mpr (by exact_mod_cast hq)
  unfold roundHalfEven
  dsimp only
  split_ifs
  · exact hfloor
  · exact Int.add_nonneg hfloor (by omega)
  · exact hfloor
  · exact Int.add_nonneg hfloor (by omega)

def IsNonneg : JsNumber → Prop
  | .nan => False
  | .infinity negative => negative = false
  | .finite q => 0 ≤ q

theorem fl_nonneg {q : ℚ} (hq : 0 ≤ q) : IsNonneg (fl q) := by
  unfold fl
  dsimp only
  split_ifs
  · exact decide_eq_false (not_lt.mpr hq)
  · have hscale : (0 : ℚ) ≤ 2 ^ ulpExponent q := zpow_nonneg (by norm_num) _
    exact mul_nonneg (by exact_mod_cast roundHalfEven_nonneg (div_nonneg hq hscale)) hscale

theorem isNonneg_add {x y : JsNumber} (hx : IsNonneg x) (hy : IsNonneg y) : IsNonneg (x.add y) := by
  cases x with
  | nan => exact hx.elim
  | infinity negative =>
      obtain rfl : negative = false := hx
      cases y with
      | nan => exact hy.elim
      | infinity negative' =>
          obtain rfl : negative' = false := hy
          rfl
      | finite q => rfl
  | finite p =>
      cases y with
      | nan => exact hy.elim
      | infinity negative' => exact hy
      | finite q => exact fl_nonneg (add_nonneg hx hy)

theorem isNonneg_of_positive {x : JsNumber} (hx : (JsNumber.finite 0).lt x) : IsNonneg x := by
  cases x with
  | nan => cases hx
  | infinity negative =>
      change negative = false
      simpa [JsNumber.lt] using hx
  | finite q => exact (of_decide_eq_true hx).le

theorem isNonneg_foldl {weights : List JsNumber} (hweights : ∀ x ∈ weights, (JsNumber.finite 0).lt x) {sum : JsNumber}
    (hsum : IsNonneg sum) : IsNonneg (weights.foldl JsNumber.add sum) := by
  induction weights generalizing sum with
  | nil => exact hsum
  | cons x weights ih =>
      obtain ⟨hx, hweights⟩ := List.forall_mem_cons.mp hweights
      exact ih hweights (isNonneg_add hsum (isNonneg_of_positive hx))

theorem le_of_not_lt {x y : JsNumber} (hx : IsNonneg x) (hy : y ≠ .nan) (hlt : x.lt y = false) : y.le x := by
  cases x with
  | nan => exact hx.elim
  | infinity negative =>
      obtain rfl : negative = false := hx
      cases y with
      | nan => exact absurd rfl hy
      | infinity negative => cases negative <;> rfl
      | finite q => rfl
  | finite p =>
      cases y with
      | nan => exact absurd rfl hy
      | infinity negative =>
          cases negative with
          | true => rfl
          | false => cases hlt
      | finite q =>
          have hle := not_lt.mp (of_decide_eq_false hlt)
          rcases hle.lt_or_eq with hless | rfl
          · exact (Bool.or_eq_true _ _).mpr (.inl (decide_eq_true hless))
          · simp [JsNumber.le]

/-- No signer of a config is listed twice: then their weights reach the threshold if the config is accepted at all. -/
theorem canReach_of_nodup {config : MultiSigConfig} (hnodup : (config.signers.map SignerInfo.publicKey).Nodup)
    (hweights : ∀ signer ∈ config.signers, (JsNumber.finite 0).lt signer.weight) (hthreshold : config.threshold ≠ .nan)
    (htotal : (totalWeight config.signers).lt config.threshold = false) : CanReach config := by
  have hweight : ∀ signer ∈ config.signers, weightOf config signer.publicKey = some signer.weight := by
    intro signer hmem
    rw [weightOf, MultiSigSession.signerInfo, find?_of_nodup_map SignerInfo.publicKey hnodup hmem]
    rfl
  have hsum : sumOf config (config.signers.map SignerInfo.publicKey) = totalWeight config.signers := by
    have hall : (config.signers.map SignerInfo.publicKey).filterMap (weightOf config) = config.signers.map SignerInfo.weight := by
      rw [List.filterMap_map, ← List.filterMap_eq_map]
      exact List.filterMap_congr hweight
    rw [sumOf, hall, List.foldl_map, totalWeight]
  refine ⟨_, hnodup, fun key hkey => ?_, ?_⟩
  · obtain ⟨signer, hmem, rfl⟩ := List.mem_map.mp hkey
    rw [hweight signer hmem]
    rfl
  · have hnonneg : IsNonneg (totalWeight config.signers) := by
      rw [totalWeight, ← List.foldl_map (f := SignerInfo.weight) (g := JsNumber.add)]
      refine isNonneg_foldl (fun x hx => ?_) le_rfl
      obtain ⟨signer, hmem, rfl⟩ := List.mem_map.mp hx
      exact hweights signer hmem
    rw [hsum]
    exact le_of_not_lt hnonneg hthreshold htotal

end Distinct

section Sample

theorem createSession_sample (config : MultiSigConfig)
    (hok : (Coordinator.createSession {} "h" "x" config none).toOption.isSome) :
    ∃ c' session, Coordinator.createSession {} "h" "x" config none = .ok (session, c') ∧ session.isExpired 0 = false := by
  unfold Coordinator.createSession at hok
  split_ifs at hok with hsigners hthreshold htotal
  · cases hok
  · cases hok
  · cases hok
  · exact ⟨_, _, (if_neg hsigners).trans ((if_neg hthreshold).trans (if_neg htotal)), rfl⟩

def pairConfig : MultiSigConfig := ⟨[⟨"A", .finite 1⟩, ⟨"B", .finite 1⟩], .finite 2⟩

/-- Both signers sign, and the session is authorized. -/
def pairSchedule : List Event :=
  [.createSession "h" "x" pairConfig none, .addSignature "multisig-1" "A" "s", .checkThreshold,
    .addSignature "multisig-1" "B" "s", .checkThreshold, .rejectSession "multisig-1"]

theorem multisig_authorization_pair :
    Allowed observedStep (fun h e => ∀ h', observedStep h e = some h' → Final h h' ∧ Exact h') {} pairSchedule ∧
    ∃ c' session, Coordinator.createSession {} "h" "x" pairConfig none = .ok (session, c') ∧ Satisfiable c' session.id := by
  obtain ⟨c', session, hcreate, hlive⟩ := createSession_sample pairConfig (by decide +kernel)
  obtain ⟨hrun, hsatisfiable⟩ := multisig_authorization pairSchedule hcreate
  exact ⟨hrun.mpr (by decide +kernel), c', session, hcreate, hsatisfiable.mpr ⟨hlive, ["A", "B"], by decide +kernel⟩⟩

/-- One signer is listed twice. -/
def duplicateConfig : MultiSigConfig := ⟨[⟨"A", .finite 1⟩, ⟨"A", .finite 1⟩], .finite 2⟩

theorem duplicateConfig_cannot_reach : ¬CanReach duplicateConfig := by
  rintro ⟨order, hnodup, hlisted, hreaches⟩
  have honly : ∀ key ∈ order, key = "A" := by
    intro key hkey
    by_contra hne
    have hnone : weightOf duplicateConfig key = none := by
      simp [weightOf, MultiSigSession.signerInfo, duplicateConfig, Ne.symm hne]
    have hsome := hlisted key hkey
    rw [hnone] at hsome
    cases hsome
  have hone : order = [] ∨ order = ["A"] := by
    rcases order with _ | ⟨first, _ | ⟨second, order⟩⟩
    · exact .inl rfl
    · exact .inr (by rw [honly first List.mem_cons_self])
    · refine absurd ?_ (List.nodup_cons.mp hnodup).1
      rw [honly first List.mem_cons_self, ← honly second (by simp)]
      exact List.mem_cons_self
  rcases hone with rfl | rfl
  · exact absurd hreaches (by decide)
  · exact absurd hreaches (by decide +kernel)

/-- The handler of `signature:added` rejects the session that the signature is about to authorize. -/
def rejectingSchedule : List Event :=
  [.createSession "h" "x" pairConfig none, .addSignature "multisig-1" "A" "s", .checkThreshold,
    .addSignature "multisig-1" "B" "s", .rejectSession "multisig-1"]

theorem multisig_fails :
    (∃ c' session, Coordinator.createSession {} "h" "x" duplicateConfig none = .ok (session, c') ∧
      ¬Satisfiable c' session.id) ∧
    ∃ h h', run observedStep {} rejectingSchedule = some h ∧ observedStep h .checkThreshold = some h' ∧ ¬Final h h' := by
  obtain ⟨c', session, hcreate, -⟩ := createSession_sample duplicateConfig (by decide +kernel)
  refine ⟨⟨c', session, hcreate, fun hsatisfiable => ?_⟩, ?_⟩
  · exact duplicateConfig_cannot_reach ((satisfiable_iff hcreate).mp hsatisfiable).2
  · have hfacts : (run observedStep {} rejectingSchedule).any (fun h =>
        (h.session "multisig-1").any (fun session => session.status = .rejected) ∧
          (observedStep h .checkThreshold).any (fun h' =>
            (h'.session "multisig-1").any (fun session => session.status = .authorized))) := by
      decide +kernel
    obtain ⟨h, hrun, hh⟩ := (Option.any_eq_true _ _).mp hfacts
    obtain ⟨hbefore, hafter⟩ := of_decide_eq_true hh
    obtain ⟨session, hsession, hrejected⟩ := (Option.any_eq_true _ _).mp hbefore
    obtain ⟨h', hstep, hh'⟩ := (Option.any_eq_true _ _).mp hafter
    obtain ⟨after, hget, hauthorized⟩ := (Option.any_eq_true _ _).mp hh'
    have hstatus := of_decide_eq_true hrejected
    refine ⟨h, h', hrun, hstep, fun hfinal => ?_⟩
    obtain ⟨other, hother, hsame⟩ := hfinal _ session hsession (by rw [hstatus]; decide)
    obtain rfl : after = other := Option.some.inj (hget.symm.trans hother)
    rw [of_decide_eq_true hauthorized, hstatus] at hsame
    cases hsame

end Sample

end SplitSdk.SigningOrders
