import SplitSdk.CsrfTokenManager

namespace SplitSdk.TokenLifetimes

open CsrfTokenManager CsrfValidity Interleaving Numbers OrderedMap
open TextEncoding (base64Chars utf8 utf8_injective decodeHex decodeHex_hex)

variable {sha256 : List UInt8 → Digest} {settings : Settings} {T : Set String} {h h' : History} {sid : String}

section Invariant

def entryOf (sha256 : List UInt8 → Digest) (issued : Issued) : StoredCsrfToken :=
  ⟨hashCsrfToken sha256 issued.token, issued.expiresAt⟩

/-- The entries of the manager are among the tokens that are live. -/
structure Inv (sha256 : List UInt8 → Digest) (settings : Settings) (T : Set String) (h : History) : Prop where
  linked : ∀ sid stored, h.state.tokens.get? sid = some stored → ∃ issued ∈ h.live sid, stored = entryOf sha256 issued
  known : ∀ sid, ∀ issued ∈ h.live sid, issued.token ∈ T ∧ issued.token ≠ "" ∧
    ∃ sessionId, normalizeSessionId sessionId = .ok sid
  room : h.state.tokens.size ≤ settings.maxSessions

/-- If there are not too many sessions, every live token has its entry until it expires. -/
def Kept (sha256 : List UInt8 → Digest) (settings : Settings) (h : History) : Prop :=
  h.sessions.length ≤ settings.maxSessions → ∀ sid, ∀ issued ∈ h.live sid,
    isExpired issued.expiresAt h.state.now = false → h.state.tokens.get? sid = some (entryOf sha256 issued)

theorem inv_empty : Inv sha256 settings T {} :=
  ⟨fun _ _ hget => (by cases hget), fun _ _ hlive => (by cases hlive), Nat.zero_le _⟩

theorem kept_empty : Kept sha256 settings {} := fun _ _ _ hlive => by cases hlive

theorem hashMatches_entryOf (issued : Issued) (token : String) :
    hashMatches sha256 (entryOf sha256 issued).hash token ↔ hashCsrfToken sha256 issued.token = hashCsrfToken sha256 token := by
  rw [entryOf, hashMatches_iff, hashCsrfToken, hashCsrfToken]
  constructor
  · exact congrArg TextEncoding.hex
  · intro heq
    rw [← TextEncoding.decodeHex_hex (sha256 _).bytes, heq, TextEncoding.decodeHex_hex]

variable (hinj : Set.InjOn (hashCsrfToken sha256) T)

include hinj in
theorem Inv.accepts (hi : Inv sha256 settings T h) {token : String} (htoken : token ∈ T) {stored : StoredCsrfToken}
    (hget : h.state.tokens.get? sid = some stored) (hexpired : isExpired stored.expiresAt h.state.now = false)
    (hhash : hashMatches sha256 stored.hash token) : Accepts h sid token := by
  obtain ⟨issued, hlive, rfl⟩ := hi.linked sid stored hget
  have heq := (hashMatches_entryOf issued token).mp hhash
  exact ⟨issued, hlive, hinj (hi.known sid issued hlive).1 htoken heq, hexpired⟩

include hinj in
theorem Inv.sound (hi : Inv sha256 settings T h) {sessionId token : String} (hsid : normalizeSessionId sessionId = .ok sid)
    (htoken : token ∈ T) {consume : Bool} (hvalid : validates sha256 h sessionId token consume) : Accepts h sid token := by
  obtain ⟨-, stored, hget, hexpired, hhash⟩ := (validates_iff hsid consume).mp hvalid
  exact hi.accepts hinj htoken hget hexpired hhash

include hinj in
theorem meets_iff (hi : Inv sha256 settings T h) : Meets sha256 settings T h ↔ Kept sha256 settings h := by
  constructor
  · intro hm hfew sid issued hlive hexpired
    obtain ⟨htoken, -, sessionId, hsid⟩ := hi.known sid issued hlive
    have hvalid := hm.complete hfew sessionId sid hsid issued.token htoken false ⟨issued, hlive, rfl, hexpired⟩
    obtain ⟨-, stored, hget, -⟩ := (validates_iff hsid false).mp hvalid
    obtain ⟨other, hother, rfl⟩ := hi.linked sid stored hget
    obtain rfl : issued = other := Option.mem_unique hlive hother
    exact hget
  · intro hk
    refine ⟨fun sessionId sid hsid token htoken consume hvalid => hi.sound hinj hsid htoken hvalid,
      fun hfew sessionId sid hsid token htoken consume haccepts => ?_⟩
    obtain ⟨issued, hlive, rfl, hexpired⟩ := haccepts
    refine (validates_iff hsid consume).mpr ⟨(hi.known sid issued hlive).2.1, _, hk hfew sid issued hlive hexpired, hexpired, ?_⟩
    exact (hashMatches_entryOf issued issued.token).mpr rfl

end Invariant

section Fading

theorem isExpired_mono {expiresAt : JsNumber} {s t : ℚ} (hst : s ≤ t) (hlive : isExpired expiresAt t = false) :
    isExpired expiresAt s = false := by
  rw [Bool.eq_false_iff] at hlive ⊢
  exact fun hexpired => hlive (JsNumber.le_finite_mono hst hexpired)

/-- Time goes on and tokens go, but no entry does whose token is still live and not expired. -/
structure Fades (h h' : History) : Prop where
  sessions : h'.sessions = h.sessions
  now : h.state.now ≤ h'.state.now
  live : ∀ sid, ∀ issued ∈ h'.live sid, issued ∈ h.live sid
  tokens : ∀ sid stored, h'.state.tokens.get? sid = some stored →
    h.state.tokens.get? sid = some stored ∧ h'.live sid = h.live sid
  stays : ∀ sid, ∀ issued ∈ h'.live sid, isExpired issued.expiresAt h'.state.now = false → ∀ stored,
    h.state.tokens.get? sid = some stored → stored.expiresAt = issued.expiresAt → h'.state.tokens.get? sid = some stored

theorem Fades.refl (h : History) : Fades h h :=
  ⟨rfl, le_rfl, fun _ _ hlive => hlive, fun _ _ hget => ⟨hget, rfl⟩, fun _ _ _ _ _ hget _ => hget⟩

theorem Fades.inv (hf : Fades h h') (hi : Inv sha256 settings T h) : Inv sha256 settings T h' := by
  refine ⟨fun sid stored hget => ?_, fun sid issued hlive => hi.known sid issued (hf.live sid issued hlive), ?_⟩
  · obtain ⟨hold, heq⟩ := hf.tokens sid stored hget
    rw [heq]
    exact hi.linked sid stored hold
  · have hsubset : h'.state.tokens.keys ⊆ h.state.tokens.keys := by
      intro sid hsid
      obtain ⟨stored, hget⟩ := Option.isSome_iff_exists.mp ((OrdMap.has_iff _ _).mpr hsid)
      exact (OrdMap.has_iff _ _).mp (Option.isSome_iff_exists.mpr ⟨stored, (hf.tokens sid stored hget).1⟩)
    have hsize := OrdMap.size_le_of_subset hsubset
    rw [OrdMap.keys, List.length_map] at hsize
    exact hsize.trans hi.room

theorem Fades.kept (hf : Fades h h') (hk : Kept sha256 settings h) : Kept sha256 settings h' := by
  intro hfew sid issued hlive hexpired
  rw [hf.sessions] at hfew
  have hget := hk hfew sid issued (hf.live sid issued hlive) (isExpired_mono hf.now hexpired)
  exact hf.stays sid issued hlive hexpired _ hget rfl

/-- The entry of one session is gone, and its token is not live any more or expired. -/
theorem fades_delete {live : String → Option Issued} {tokens : Tokens}
    (htokens : ∀ s, tokens.get? s = if s = sid then none else h.state.tokens.get? s)
    (hlive : ∀ s, s ≠ sid → live s = h.live s)
    (hgone : ∀ issued ∈ live sid, issued ∈ h.live sid ∧ ∀ stored, h.state.tokens.get? sid = some stored →
      stored.expiresAt = issued.expiresAt → isExpired stored.expiresAt h.state.now = true) :
    Fades h { h with live, state := { h.state with tokens } } := by
  refine ⟨rfl, le_rfl, fun s issued hissued => ?_, fun s stored hget => ?_, fun s issued hissued hexpired stored hget heq => ?_⟩
  · by_cases hs : s = sid
    · subst hs
      exact (hgone issued hissued).1
    · rw [← hlive s hs]
      exact hissued
  · rw [htokens] at hget
    split_ifs at hget with hs
    exact ⟨hget, hlive s hs⟩
  · rw [htokens]
    split_ifs with hs
    · subst hs
      have hover := (hgone issued hissued).2 stored hget heq
      rw [heq, hexpired] at hover
      cases hover
    · exact hget

theorem fades_same {tokens : Tokens} (htokens : ∀ s, tokens.get? s = h.state.tokens.get? s) :
    Fades h { h with state := { h.state with tokens } } :=
  ⟨rfl, le_rfl, fun _ _ hlive => hlive, fun s _ hget => ⟨(htokens s).symm.trans hget, rfl⟩,
    fun s _ _ _ _ hget _ => (htokens s).trans hget⟩

end Fading

section Steps

theorem accepts_entry (hi : Inv sha256 settings T h) {token : String} (haccepts : Accepts h sid token)
    {stored : StoredCsrfToken} (hget : h.state.tokens.get? sid = some stored) :
    isExpired stored.expiresAt h.state.now = false ∧ token ≠ "" ∧ hashMatches sha256 stored.hash token = true := by
  obtain ⟨issued, hlive, rfl, hexpired⟩ := haccepts
  obtain ⟨other, hother, rfl⟩ := hi.linked sid stored hget
  obtain rfl : issued = other := Option.mem_unique hlive hother
  exact ⟨hexpired, (hi.known sid issued hlive).2.1, (hashMatches_entryOf issued _).mpr rfl⟩

theorem not_mem_update_none (live : String → Option Issued) (sid : String) (issued : Issued) :
    issued ∉ Function.update live sid none sid := by
  simp

theorem fades_elapse {ms : ℚ} (hstep : observedStep sha256 settings h (.elapse ms) = some h') : Fades h h' := by
  obtain ⟨state, hstate, rfl⟩ := Option.map_eq_some_iff.mp hstep
  rw [step] at hstate
  split_ifs at hstate with hms
  cases hstate
  exact ⟨rfl, le_add_of_nonneg_right hms, fun _ _ hlive => hlive, fun _ _ hget => ⟨hget, rfl⟩,
    fun _ _ _ _ _ hget _ => hget⟩

theorem fades_revoke {sessionId : String} (hstep : observedStep sha256 settings h (.revokeToken sessionId) = some h') :
    Fades h h' := by
  obtain ⟨state, hstate, rfl⟩ := Option.map_eq_some_iff.mp hstep
  obtain rfl := Option.some.inj hstate
  rw [observe, revokeToken]
  generalize String.ofList (trim sessionId.toList) = sid
  exact fades_delete (OrdMap.get?_delete _ _) (fun s hs => Function.update_of_ne hs _ _)
    (fun issued hlive => absurd hlive (not_mem_update_none h.live sid issued))

theorem fades_revokeAll (hstep : observedStep sha256 settings h .revokeAll = some h') : Fades h h' := by
  cases hstep
  exact ⟨rfl, le_rfl, fun _ _ hlive => (by cases hlive), fun _ _ hget => (by cases hget), fun _ _ hlive => (by cases hlive)⟩

theorem fades_cleanup (hstep : observedStep sha256 settings h .cleanup = some h') : Fades h h' := by
  cases hstep
  refine ⟨rfl, le_rfl, fun _ _ hlive => hlive, fun sid stored hget => ?_, fun sid issued hlive hexpired stored hget heq => ?_⟩
  · exact ⟨(OrdMap.get?_filter_eq_some_iff.mp hget).1, rfl⟩
  · refine OrdMap.get?_filter_eq_some_iff.mpr ⟨hget, ?_⟩
    rw [heq, hexpired]
    rfl

theorem observe_validate {sessionId token : String} {consume : Bool} (hsid : normalizeSessionId sessionId = .ok sid) :
    observe settings h (.validateToken sessionId token consume) =
      if consume ∧ Accepts h sid token then { h with live := Function.update h.live sid none } else h := by
  cases consume with
  | false => simp [observe]
  | true => simp [observe, CsrfValidity.consume, hsid]

theorem fades_validate (hinj : Set.InjOn (hashCsrfToken sha256) T) (hi : Inv sha256 settings T h)
    {sessionId token : String} {consume : Bool} (htoken : token ∈ T)
    (hstep : observedStep sha256 settings h (.validateToken sessionId token consume) = some h') : Fades h h' := by
  obtain ⟨state, hstate, rfl⟩ := Option.map_eq_some_iff.mp hstep
  obtain rfl := Option.some.inj hstate
  cases hsid : normalizeSessionId sessionId with
  | error error =>
      have hobserve : observe settings h (.validateToken sessionId token consume) = h := by
        cases consume with
        | false => rfl
        | true => simp [observe, CsrfValidity.consume, hsid]
      rw [hobserve, validateToken, hsid]
      exact .refl h
  | ok sid =>
      obtain ⟨valid, after, hcall, hvalidated⟩ := validateToken_spec sha256 h.state.tokens h.state.now token hsid consume
      rw [observe_validate hsid, hcall]
      by_cases hconsumed : consume ∧ Accepts h sid token
      · rw [if_pos hconsumed]
        have htokens : ∀ s, after.get? s = if s = sid then none else h.state.tokens.get? s := by
          intro s
          cases hvalidated with
          | unknown hunknown =>
              split_ifs with hs
              · subst hs
                rw [Option.eq_none_iff_forall_ne_some]
                intro stored hget
                obtain ⟨hexpired, hempty, hhash⟩ := accepts_entry hi hconsumed.2 hget
                rcases hunknown stored hget hexpired with hnil | hdiffers
                · exact hempty hnil
                · rw [hhash] at hdiffers
                  cases hdiffers
              · rfl
          | expired hget hexpired => exact OrdMap.get?_delete _ _ _
          | valid hget hexpired hempty hhash =>
              rw [if_pos hconsumed.1]
              exact OrdMap.get?_delete _ _ _
        exact fades_delete htokens (fun s hs => Function.update_of_ne hs _ _)
          (fun issued hlive => absurd hlive (not_mem_update_none h.live sid issued))
      · rw [if_neg hconsumed]
        cases hvalidated with
        | unknown hunknown => exact .refl h
        | expired hget hexpired =>
            refine fades_delete (OrdMap.get?_delete _ _) (fun _ _ => rfl) (fun issued hlive => ⟨hlive, fun other hother _ => ?_⟩)
            obtain rfl := Option.some.inj (hget.symm.trans hother)
            exact hexpired
        | valid hget hexpired hempty hhash =>
            have haccepts := hi.accepts hinj htoken hget hexpired hhash
            rw [if_neg (fun hconsume => hconsumed ⟨hconsume, haccepts⟩)]
            refine fades_same (fun s => ?_)
            change ((h.state.tokens.delete sid).set sid _).get? s = _
            rw [OrdMap.get?_set, OrdMap.get?_delete]
            split_ifs with hs
            · rw [hs, hget]
            · rfl

end Steps

section Issue

variable {sessionId : String} {random : List UInt8}

def issueOf (settings : Settings) (h : History) (random : List UInt8) : Issued :=
  ⟨generateCsrfToken random, (JsNumber.finite h.state.now).add (.finite settings.ttlMs)⟩

/-- After a token was issued for `sid`. -/
def issued (sha256 : List UInt8 → Digest) (settings : Settings) (h : History) (sid : String) (random : List UInt8) :
    History where
  state := { h.state with
    tokens := ((evictIfNeeded settings.maxSessions h.state.tokens).delete sid).set sid
      (entryOf sha256 (issueOf settings h random)) }
  live := Function.update h.live sid (some (issueOf settings h random))
  sessions := h.sessions.insert sid

theorem issue_cases (hstep : observedStep sha256 settings h (.issueToken sessionId random) = some h') :
    random.length = settings.tokenBytes ∧
      ((∃ error, normalizeSessionId sessionId = .error error ∧ h' = h) ∨
        ∃ sid, normalizeSessionId sessionId = .ok sid ∧ h' = issued sha256 settings h sid random) := by
  obtain ⟨state, hstate, rfl⟩ := Option.map_eq_some_iff.mp hstep
  rw [step] at hstate
  split_ifs at hstate with hlength
  obtain rfl := Option.some.inj hstate
  refine ⟨hlength, ?_⟩
  cases hsid : normalizeSessionId sessionId with
  | error error => exact .inl ⟨error, rfl, by rw [observe, CsrfValidity.issue, issueToken, hsid]; rfl⟩
  | ok sid => exact .inr ⟨sid, rfl, by rw [observe, CsrfValidity.issue, issueToken, hsid]; rfl⟩

theorem get?_issued (s : String) : (issued sha256 settings h sid random).state.tokens.get? s =
    if s = sid then some (entryOf sha256 (issueOf settings h random))
    else (evictIfNeeded settings.maxSessions h.state.tokens).get? s := by
  rw [issued, OrdMap.get?_set, OrdMap.get?_delete]
  split_ifs <;> rfl

theorem live_issued (s : String) : (issued sha256 settings h sid random).live s =
    if s = sid then some (issueOf settings h random) else h.live s := by
  exact Function.update_apply ..

theorem issued_inv (hi : Inv sha256 settings T h) (htoken : generateCsrfToken random ∈ T)
    (hlength : random.length = settings.tokenBytes) (hsid : normalizeSessionId sessionId = .ok sid) :
    Inv sha256 settings T (issued sha256 settings h sid random) := by
  refine ⟨fun s stored hget => ?_, fun s other hlive => ?_, ?_⟩
  · rw [live_issued]
    rw [get?_issued] at hget
    split_ifs at hget ⊢ with hs
    · exact ⟨_, rfl, (Option.some.inj hget).symm⟩
    · exact hi.linked s stored (get?_of_evict hget)
  · rw [live_issued] at hlive
    split_ifs at hlive with hs
    · obtain rfl := Option.some.inj hlive
      exact ⟨htoken, generateCsrfToken_ne (hlength ▸ settings.tokenBytes_ge), sessionId, hs ▸ hsid⟩
    · exact hi.known s other hlive
  · have hsubset : (issued sha256 settings h sid random).state.tokens.keys ⊆
        sid :: (evictIfNeeded settings.maxSessions h.state.tokens).keys := by
      intro s hs
      have hsome := (OrdMap.has_iff _ _).mpr hs
      rw [OrdMap.has, get?_issued] at hsome
      split_ifs at hsome with heq
      · exact heq ▸ List.mem_cons_self
      · exact List.mem_cons_of_mem _ ((OrdMap.has_iff _ _).mp hsome)
    have hsize := OrdMap.size_le_of_subset hsubset
    have hevict := size_evict_lt settings.maxSessions_pos hi.room
    rw [List.length_cons, OrdMap.keys, List.length_map] at hsize
    exact hsize.trans hevict

/-- A token that is issued keeps the entries of the other live tokens exactly if it spares them. -/
theorem issued_kept_iff (hi : Inv sha256 settings T h) (hk : Kept sha256 settings h)
    (hlength : random.length = settings.tokenBytes) (hsid : normalizeSessionId sessionId = .ok sid) :
    Kept sha256 settings (issued sha256 settings h sid random) ↔ SparesOthers settings h (.issueToken sessionId random) := by
  constructor
  · intro hkept _ s hs hfew hfull oldest holdest
    rw [hsid] at hs
    obtain rfl : sid = s := Option.some.inj hs
    by_contra hspared
    obtain ⟨hne, hexpired⟩ := not_or.mp hspared
    rw [Bool.not_eq_true] at hexpired
    have hget : h.state.tokens.get? oldest.1 = some oldest.2 :=
      OrdMap.get?_of_mem _ (List.mem_of_mem_head? holdest)
    obtain ⟨other, hlive, heq⟩ := hi.linked _ _ hget
    have hkeeps := hkept hfew oldest.1 other (by rwa [live_issued, if_neg hne]) (by rwa [heq] at hexpired)
    rw [get?_issued, if_neg hne, get?_evict_oldest settings.maxSessions_pos (hi.room.antisymm hfull) holdest] at hkeeps
    cases hkeeps
  · intro hspares hfew s other hlive hexpired
    rw [live_issued] at hlive
    rw [get?_issued]
    split_ifs at hlive ⊢ with hs
    · rw [Option.some.inj hlive]
    · have hold := hk (List.length_le_length_insert.trans hfew) s other hlive hexpired
      refine get?_evict_other settings.maxSessions_pos hi.room hold (fun hfull holdest => ?_)
      rcases hspares hlength sid (by rw [hsid]; rfl) hfew hfull _ holdest with heq | hover
      · exact hs heq
      · exact absurd hover (Bool.eq_false_iff.mp hexpired)

end Issue

section Main

/-- A call is about the tokens of `T`. -/
def Within (T : Set String) : Event → Prop
  | .issueToken _ random | .rotateToken _ random => generateCsrfToken random ∈ T
  | .validateToken _ token _ => token ∈ T
  | _ => True

variable (hinj : Set.InjOn (hashCsrfToken sha256) T)

include hinj in
theorem step_spec {e : Event} (hwithin : Within T e) (hi : Inv sha256 settings T h)
    (hstep : observedStep sha256 settings h e = some h') :
    Inv sha256 settings T h' ∧ (Kept sha256 settings h → (Kept sha256 settings h' ↔ SparesOthers settings h e)) := by
  have hfading : Fades h h' → Inv sha256 settings T h' ∧ (Kept sha256 settings h → (Kept sha256 settings h' ↔ True)) :=
    fun hf => ⟨hf.inv hi, fun hk => iff_of_true (hf.kept hk) trivial⟩
  have hissue : ∀ sessionId random, generateCsrfToken random ∈ T →
      observedStep sha256 settings h (.issueToken sessionId random) = some h' → Inv sha256 settings T h' ∧
        (Kept sha256 settings h → (Kept sha256 settings h' ↔ SparesOthers settings h (.issueToken sessionId random))) := by
    intro sessionId random htoken hissues
    obtain ⟨hlength, ⟨error, hsid, rfl⟩ | ⟨sid, hsid, rfl⟩⟩ := issue_cases hissues
    · refine ⟨hi, fun hk => iff_of_true hk (fun _ sid hok => ?_)⟩
      rw [hsid] at hok
      cases hok
    · exact ⟨issued_inv hi htoken hlength hsid, fun hk => issued_kept_iff hi hk hlength hsid⟩
  cases e with
  | elapse ms => exact hfading (fades_elapse hstep)
  | issueToken sessionId random => exact hissue sessionId random hwithin hstep
  | rotateToken sessionId random => exact hissue sessionId random hwithin hstep
  | validateToken sessionId token consume => exact hfading (fades_validate hinj hi hwithin hstep)
  | revokeToken sessionId => exact hfading (fades_revoke hstep)
  | revokeAll => exact hfading (fades_revokeAll hstep)
  | cleanup => exact hfading (fades_cleanup hstep)

theorem sparesOthers_of_none {e : Event} (hstep : observedStep sha256 settings h e = none) : SparesOthers settings h e := by
  have hissue : ∀ sessionId random, observedStep sha256 settings h (.issueToken sessionId random) = none →
      SparesOthers settings h (.issueToken sessionId random) := by
    intro sessionId random hissues hlength
    rw [observedStep, step, if_pos hlength] at hissues
    cases hissues
  cases e with
  | issueToken sessionId random => exact hissue sessionId random hstep
  | rotateToken sessionId random => exact hissue sessionId random hstep
  | elapse | validateToken | revokeToken | revokeAll | cleanup => trivial

include hinj in
/-- A token that is accepted is the last one of its session, not expired, not consumed and not revoked. -/
theorem accepted_tokens_live {es : List Event} (hwithin : ∀ e ∈ es, Within T e)
    (hrun : run (observedStep sha256 settings) {} es = some h) {sessionId token : String}
    (hsid : normalizeSessionId sessionId = .ok sid) (htoken : token ∈ T) {consume : Bool}
    (hvalid : validates sha256 h sessionId token consume) : Accepts h sid token := by
  have hstep : ∀ h e h', Inv sha256 settings T h → Within T e → observedStep sha256 settings h e = some h' →
      Inv sha256 settings T h' := fun h e h' hi hin hstep => (step_spec hinj hin hi hstep).1
  have hi := run_invariant hstep _ _ es inv_empty (allowed_of_forall _ hwithin) hrun
  exact hi.sound hinj hsid htoken hvalid

include hinj in
/-- The tokens of a run are valid as they should be in every state exactly if no live one is evicted for another session
that is tracked. -/
theorem token_validity_iff (es : List Event) (hwithin : ∀ e ∈ es, Within T e) :
    Allowed (observedStep sha256 settings)
        (fun h e => ∀ h', observedStep sha256 settings h e = some h' → Meets sha256 settings T h') {} es ↔
      Allowed (observedStep sha256 settings) (SparesOthers settings) {} es := by
  have hall : Allowed (observedStep sha256 settings) (fun _ e => Within T e) {} es := allowed_of_forall _ hwithin
  have hboth : Allowed (observedStep sha256 settings)
        (fun h e => Within T e ∧ ∀ h', observedStep sha256 settings h e = some h' → Meets sha256 settings T h') {} es ↔
      Allowed (observedStep sha256 settings) (fun h e => Within T e ∧ SparesOthers settings h e) {} es := by
    refine allowed_iff (I := fun h => Inv sha256 settings T h ∧ Kept sha256 settings h) ?_ ?_ ⟨inv_empty, kept_empty⟩ es
    · rintro h e h' ⟨hi, -⟩ ⟨hin, hmeets⟩ hstep
      have hi' := (step_spec hinj hin hi hstep).1
      exact ⟨hi', (meets_iff hinj hi').mp (hmeets h' hstep)⟩
    · rintro h e ⟨hi, hk⟩
      refine and_congr_right (fun hin => ?_)
      cases hstep : observedStep sha256 settings h e with
      | none => exact iff_of_true (by simp) (sparesOthers_of_none hstep)
      | some h' =>
          obtain ⟨hi', hiff⟩ := step_spec hinj hin hi hstep
          simp only [Option.some.injEq, forall_eq', meets_iff hinj hi', hiff hk]
  exact ⟨fun hok => allowed_mono (fun _ _ => And.right) (hboth.mp (allowed_and hall hok)),
    fun hok => allowed_mono (fun _ _ => And.right) (hboth.mpr (allowed_and hall hok))⟩

end Main

section Sample

def randomOf (b : UInt8) : List UInt8 := List.replicate 16 b

theorem sample_lifetime : (0 : ℚ) < 1000 := by norm_num

theorem sample_sessions : 1 ≤ 2 := by omega

def sampleSettings : Settings := ⟨1000, sample_lifetime, 16, le_rfl, 2, sample_sessions⟩

/-- The digests of the tokens that are made of `randomOf 0`, `randomOf 1` and `randomOf 2`. -/
def sampleSha256 (bytes : List UInt8) : Digest :=
  if bytes = TextEncoding.utf8 "AAAAAAAAAAAAAAAAAAAAAA" then
    ⟨[138, 91, 219, 76, 193, 81, 100, 18, 108, 110, 242, 102, 141, 233, 221, 36, 13, 41, 156, 230, 57, 122, 66, 201, 90,
      148, 17, 185, 61, 8, 14, 216], rfl⟩
  else if bytes = TextEncoding.utf8 "AQEBAQEBAQEBAQEBAQEBAQ" then
    ⟨[162, 41, 235, 169, 4, 191, 4, 211, 80, 237, 176, 222, 61, 120, 223, 19, 221, 198, 27, 77, 101, 183, 116, 243, 251,
      130, 224, 63, 233, 40, 64, 90], rfl⟩
  else
    ⟨[163, 206, 90, 57, 27, 212, 104, 51, 8, 187, 45, 82, 71, 133, 90, 71, 191, 99, 107, 97, 215, 86, 247, 183, 175, 185,
      213, 160, 182, 4, 135, 54], rfl⟩

def sampleTokens : List String := [0, 1, 2].map (fun b => generateCsrfToken (randomOf b))

def tokenOf (b : UInt8) : String := generateCsrfToken (randomOf b)

theorem tokenOf_eq (b : UInt8) : tokenOf b = String.ofList
    (((base64Chars ((randomOf b).map UInt8.toNat)).filter (· ≠ '=')).map
      (fun c => if c = '+' then '-' else if c = '/' then '_' else c)) := by
  rw [tokenOf, generateCsrfToken, base64url, TextEncoding.base64, String.toList_ofList]

theorem token_zero : tokenOf 0 = "AAAAAAAAAAAAAAAAAAAAAA" :=
  (tokenOf_eq 0).trans (congrArg String.ofList rfl)

theorem token_one : tokenOf 1 = "AQEBAQEBAQEBAQEBAQEBAQ" :=
  (tokenOf_eq 1).trans (congrArg String.ofList rfl)

theorem token_two : tokenOf 2 = "AgICAgICAgICAgICAgICAg" :=
  (tokenOf_eq 2).trans (congrArg String.ofList rfl)

theorem head_zero : (sampleSha256 (utf8 "AAAAAAAAAAAAAAAAAAAAAA")).bytes.head? = some 138 := by
  rw [sampleSha256, if_pos rfl]
  rfl

theorem head_one : (sampleSha256 (utf8 "AQEBAQEBAQEBAQEBAQEBAQ")).bytes.head? = some 162 := by
  rw [sampleSha256, if_neg (fun h => absurd (utf8_injective h) (by simp)), if_pos rfl]
  rfl

theorem head_two : (sampleSha256 (utf8 "AgICAgICAgICAgICAgICAg")).bytes.head? = some 163 := by
  rw [sampleSha256, if_neg (fun h => absurd (utf8_injective h) (by simp)),
    if_neg (fun h => absurd (utf8_injective h) (by simp))]
  rfl

theorem sampleSha256_inj : Set.InjOn (hashCsrfToken sampleSha256) {token | token ∈ sampleTokens} := by
  intro a ha b hb h
  have hbytes := congrArg decodeHex h
  rw [hashCsrfToken, hashCsrfToken, decodeHex_hex, decodeHex_hex] at hbytes
  have htokens : sampleTokens = [tokenOf 0, tokenOf 1, tokenOf 2] := rfl
  refine List.inj_on_of_nodup_map (f := fun token => (sampleSha256 (utf8 token)).bytes.head?) ?_ ha hb
    (congrArg List.head? hbytes)
  rw [htokens, token_zero, token_one, token_two, List.map_cons, List.map_cons, List.map_singleton, head_zero, head_one,
    head_two]
  decide

section Valid

variable {sha256 : List UInt8 → Digest} {settings : Settings} {h h' : History} {sessionId sid : String} {issued : Issued}

theorem validate_valid {consume : Bool} (hsid : normalizeSessionId sessionId = .ok sid)
    (hget : h.state.tokens.get? sid = some (entryOf sha256 issued))
    (hlive : isExpired issued.expiresAt h.state.now = false)
    (hempty : issued.token ≠ "")
    (hstep : observedStep sha256 settings h (.validateToken sessionId issued.token consume) = some h') :
    h'.state = { h.state with
      tokens := if consume then h.state.tokens.delete sid else (h.state.tokens.delete sid).set sid (entryOf sha256 issued) } := by
  obtain rfl := Option.some.inj hstep
  obtain ⟨valid, after, hcall, hvalidated⟩ := validateToken_spec sha256 h.state.tokens h.state.now issued.token hsid consume
  change h.state.after (validateToken ..) = _
  rw [hcall]
  cases hvalidated with
  | unknown hunknown =>
      rcases hunknown _ hget hlive with hnil | hdiffers
      · exact absurd hnil hempty
      · have hmatches : hashMatches sha256 (entryOf sha256 issued).hash issued.token := (hashMatches_iff ..).mpr rfl
        rw [hmatches] at hdiffers
        cases hdiffers
  | expired hget' hexpired =>
      obtain rfl := Option.some.inj (hget.symm.trans hget')
      rw [entryOf, hlive] at hexpired
      cases hexpired
  | valid hget' =>
      obtain rfl := Option.some.inj (hget.symm.trans hget')
      rfl

end Valid

/-- The token of `a` is used, that of `b` is consumed, and `a` gets another one. -/
def plainSchedule : List Event :=
  [.issueToken "a" (randomOf 0), .issueToken "b" (randomOf 1), .validateToken "a" (tokenOf 0) false,
    .validateToken "b" (tokenOf 1) true, .rotateToken "a" (randomOf 2), .elapse 5, .validateToken "a" (tokenOf 2) false]

theorem normalize_a : normalizeSessionId "a" = .ok "a" := rfl

theorem normalize_b : normalizeSessionId "b" = .ok "b" := rfl

def zeroIssued : Issued := issueOf sampleSettings {} (randomOf 0)

def oneIssued : Issued := issueOf sampleSettings {} (randomOf 1)

theorem spares_plain (sha256 : List UInt8 → Digest) :
    Allowed (observedStep sha256 sampleSettings) (SparesOthers sampleSettings) {} plainSchedule := by
  refine ⟨?_, (forall_next_iff rfl).mpr ⟨?_, (forall_next_iff rfl).mpr
    ⟨trivial, fun h hstep => ⟨trivial, fun h' hstep' => ⟨?_, ?_⟩⟩⟩⟩⟩
  · intro _ sid _ _ hfull
    exact absurd hfull (Nat.not_succ_le_zero 1)
  · intro _ sid _ _ hfull
    exact absurd hfull (Nat.not_succ_le_self 1)
  · have hlive : isExpired zeroIssued.expiresAt 0 = false := by decide +kernel
    have hget₀ : (issued sha256 sampleSettings (issued sha256 sampleSettings {} "a" (randomOf 0)) "b"
        (randomOf 1)).state.tokens.get? "a" = some (entryOf sha256 zeroIssued) := rfl
    have hs := validate_valid normalize_a hget₀ hlive (generateCsrfToken_ne (by decide)) hstep
    have hget : h.state.tokens.get? "b" = some (entryOf sha256 oneIssued) := by
      rw [hs]
      rfl
    have hlive' : isExpired oneIssued.expiresAt h.state.now = false := by
      rw [hs]
      exact hlive
    have hs' := validate_valid normalize_b hget hlive' (generateCsrfToken_ne (by decide)) hstep'
    intro _ sid _ _ hfull
    rw [hs', hs] at hfull
    exact absurd hfull (Nat.not_succ_le_self 1)
  · exact fun _ _ => ⟨trivial, fun _ _ => ⟨trivial, fun _ _ => trivial⟩⟩

theorem token_validity_plain : Allowed (observedStep sampleSha256 sampleSettings)
    (fun h e => ∀ h', observedStep sampleSha256 sampleSettings h e = some h' →
      Meets sampleSha256 sampleSettings {token | token ∈ sampleTokens} h') {} plainSchedule :=
  (token_validity_iff sampleSha256_inj plainSchedule
    (by simp [plainSchedule, Within, sampleTokens, tokenOf])).mpr (spares_plain sampleSha256)

/-- There is room for two sessions, and the second one gets another token. -/
def reissueSchedule : List Event :=
  [.issueToken "a" (randomOf 0), .issueToken "b" (randomOf 1), .issueToken "b" (randomOf 2)]

theorem reissue_evicts_other : ∃ h, run (observedStep sampleSha256 sampleSettings) {} reissueSchedule = some h ∧
    h.sessions.length = 2 ∧ Accepts h "a" (tokenOf 0) ∧ validates sampleSha256 h "a" (tokenOf 0) false = false ∧
    ¬Meets sampleSha256 sampleSettings {token | token ∈ sampleTokens} h := by
  have hfacts : (run (observedStep sampleSha256 sampleSettings) {} reissueSchedule).any (fun h =>
      h.sessions.length = 2 ∧ Accepts h "a" (tokenOf 0) ∧ validates sampleSha256 h "a" (tokenOf 0) false = false) := by
    decide +kernel
  obtain ⟨h, hrun, hh⟩ := (Option.any_eq_true _ _).mp hfacts
  obtain ⟨hfew, haccepts, hinvalid⟩ := of_decide_eq_true hh
  refine ⟨h, hrun, hfew, haccepts, hinvalid, fun hmeets => ?_⟩
  have hsid : normalizeSessionId "a" = .ok "a" := by rfl
  have htoken : tokenOf 0 ∈ {token | token ∈ sampleTokens} := by simp [sampleTokens, tokenOf]
  have hvalid := hmeets.complete hfew.le "a" "a" hsid _ htoken false haccepts
  rw [hinvalid] at hvalid
  cases hvalid

end Sample

end SplitSdk.TokenLifetimes
