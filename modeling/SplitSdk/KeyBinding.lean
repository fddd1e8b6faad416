import SplitSdk.Interleaving
import SplitSdk.KeyStoreCalls

namespace SplitSdk.KeyBinding

open Interleaving TextEncoding JsonText JsonRoundTrip KeyEnvelope KeyStoreCalls

section System

/-- What was sealed in the run, and for which id. -/
structure Sealing where
  id : String
  key : MasterKey
  iv : Iv
  secret : Units

/-- A store whose backend answers as it likes, so that no records are kept. For the
statements only, `sealings` has what was sealed so far. -/
structure State where
  store : SecureKeyStore
  calls : List Call := []
  sealings : List Sealing := []

/-- An answer of the backend. -/
inductive Answer
  | record (raw : Option String)
  | ids (ids : List String)
  | done

inductive Event
  | call (request : Request)
  | fail (i : Nat) (reason : String)
  | answer (i : Nat) (answer : Answer)
  | resume (i : Nat) (draw : Draw)

def accept : Position → Answer → Option Position
  | .setReads entry plaintext, .record raw => some (.setHasRead entry plaintext raw)
  | .setWrites .., .done => some (.settled (.ok none))
  | .getReads entry, .record raw => some (.getHasRead entry raw)
  | .deletes _, .done => some (.settled (.ok none))
  | .rotates next .lists, .ids ids => some (.rotates next (.hasListed ids))
  | .rotates next (.reads id ids rewritten), .record raw =>
      some (.rotates next (.hasRead id raw ids rewritten))
  | .rotates next (.writes written id record rest), .done =>
      some (.rotates next (.hasWritten written id record rest))
  | _, _ => none

/-- What a call seals when it goes on. -/
def sealingsOf (gcm : Gcm) (store : SecureKeyStore) (draw : Draw) : Position → List Sealing
  | .setHasRead entry plaintext existing =>
      match createdAt draw entry existing with
      | .ok _ => [⟨entry, store.masterKey, draw.iv, plaintext⟩]
      | .error _ => []
  | .rotates next (.hasRead id (some raw) _ _) =>
      match openRecord gcm raw id store.masterKey with
      | .ok secret => [⟨id, next, draw.iv, utf16 secret⟩]
      | .error _ => []
  | _ => []

def positionOf (s : State) (i : Nat) : Option Position := (s.calls[i]?).map (·.position)

def moveTo (s : State) (i : Nat) (position : Position) : State :=
  { s with calls := s.calls.modify i (fun call => { call with position := position }) }

def step (gcm : Gcm) (s : State) : Event → Option State
  | .call request => some { s with calls := s.calls ++ [⟨request, start s.store request⟩] }
  | .fail i reason =>
      (positionOf s i).bind (fun p =>
        if awaitsBackend p then some (moveTo s i (.settled (.error (.backend reason)))) else none)
  | .answer i answer => ((positionOf s i).bind (fun p => accept p answer)).map (moveTo s i)
  | .resume i draw =>
      (positionOf s i).bind (fun p => (resume gcm s.store draw p).map (fun (store, q) =>
        moveTo { s with store := store, sealings := sealingsOf gcm s.store draw p ++ s.sealings } i q))

end System

section Statement

/-- The id and the record that a suspended call is about to open. -/
def presented : Position → Option (String × String)
  | .getHasRead entry (some raw) => some (entry, raw)
  | .rotates _ (.hasRead id (some raw) _ _) => some (id, raw)
  | _ => none

/-- The record carries what `x` sealed under `key`. -/
def Carries (gcm : Gcm) (key : MasterKey) (raw id : String) (x : Sealing) : Prop :=
  ∃ record, parseRecord raw id = .ok record ∧ x.key = key ∧
    sealedParts record = some (x.iv, gcm.encrypt x.key x.iv (utf8 (toWellFormed x.secret)))

/-- No ciphertext is accepted that was not sealed before. -/
def Unforged (gcm : Gcm) (s : State) : Event → Prop
  | .resume i _ => ∀ p ∈ positionOf s i, ∀ item ∈ presented p, ∀ text,
      openRecord gcm item.2 item.1 s.store.masterKey = .ok text →
        ∃ x ∈ s.sealings, Carries gcm s.store.masterKey item.2 item.1 x
  | _ => True

/-- No record is presented for an id of which the content was sealed for other ids only,
and the secrets that are set can be encoded. -/
def InPlace (gcm : Gcm) (s : State) : Event → Prop
  | .call (.setSecret _ secret) => IsWellFormed secret
  | .resume i _ => ∀ p ∈ positionOf s i, ∀ item ∈ presented p,
      (∃ x ∈ s.sealings, Carries gcm s.store.masterKey item.2 item.1 x) →
        ∃ x ∈ s.sealings, Carries gcm s.store.masterKey item.2 item.1 x ∧ x.id = item.1
  | _ => True

def requests (s : State) : List Request := s.calls.map Call.request

/-- Some call has set `secret` for the id. -/
def SetFor (requests : List Request) (entry : String) (secret : Units) : Prop :=
  ∃ id, .setSecret id secret ∈ requests ∧ normalizeId id = .ok entry

/-- What `getSecret` returns was set for that id. -/
def Bound (s : State) : Prop :=
  ∀ call ∈ s.calls, ∀ id text, call.request = .getSecret id → call.position = .settled (.ok (some text)) →
    ∃ entry, normalizeId id = .ok entry ∧ SetFor (requests s) entry (utf16 text)

end Statement

section Invariant

variable {gcm : Gcm} {s : State} {i : Nat} {p q : Position}

def PositionInv (requests : List Request) (request : Request) : Position → Prop
  | .setReads entry plaintext | .setHasRead entry plaintext _ =>
      IsWellFormed plaintext ∧ SetFor requests entry plaintext
  | .getReads entry | .getHasRead entry _ => ∃ id, request = .getSecret id ∧ normalizeId id = .ok entry
  | .settled (.ok (some text)) =>
      ∃ id entry, request = .getSecret id ∧ normalizeId id = .ok entry ∧ SetFor requests entry (utf16 text)
  | _ => True

structure Inv (s : State) : Prop where
  sealings : ∀ x ∈ s.sealings, IsWellFormed x.secret ∧ SetFor (requests s) x.id x.secret
  positions : ∀ call ∈ s.calls, PositionInv (requests s) call.request call.position

theorem PositionInv.mono {before after : List Request} {request : Request} (h : PositionInv before request p)
    (hsub : before ⊆ after) : PositionInv after request p := by
  have hset : ∀ {entry secret}, SetFor before entry secret → SetFor after entry secret := by
    rintro entry secret ⟨id, hid, hentry⟩
    exact ⟨id, hsub hid, hentry⟩
  cases p with
  | setReads | setHasRead => exact ⟨h.1, hset h.2⟩
  | getReads | getHasRead => exact h
  | settled outcome =>
      rcases outcome with _ | _ | text
      · trivial
      · trivial
      · obtain ⟨id, entry, hrequest, hentry, h⟩ := h
        exact ⟨id, entry, hrequest, hentry, hset h⟩
  | setWrites | deletes | rotates => trivial

theorem requests_moveTo (s : State) (i : Nat) (q : Position) : requests (moveTo s i q) = requests s := by
  rw [requests, moveTo, requests]
  apply List.ext_getElem?
  intro j
  rw [List.getElem?_map, List.getElem?_map, List.getElem?_modify, Option.map_eq_map, Option.map_map]
  refine Option.map_congr ?_
  intro call _
  simp only [Function.comp_apply]
  split_ifs <;> rfl

theorem moveTo_inv (hi : Inv s) {call : Call} (h : s.calls[i]? = some call)
    (hq : PositionInv (requests s) call.request q) : Inv (moveTo s i q) := by
  constructor
  · rw [requests_moveTo]
    exact hi.sealings
  · rw [requests_moveTo]
    intro other hother
    obtain ⟨j, hj⟩ := List.mem_iff_getElem?.mp hother
    rw [moveTo, List.getElem?_modify] at hj
    obtain ⟨before, hbefore, rfl⟩ := Option.map_eq_some_iff.mp hj
    split_ifs with he
    · subst he
      obtain rfl : before = call := Option.some.inj (hbefore.symm.trans h)
      exact hq
    · exact hi.positions before (List.mem_of_getElem? hbefore)

/-- A record that opens holds what it carries. -/
theorem text_of_carries (lawful : gcm.Lawful) {raw id text : String} {key : MasterKey} {x : Sealing}
    (hopen : openRecord gcm raw id key = .ok text) (hx : Carries gcm key raw id x) :
    text = toWellFormed x.secret := by
  obtain ⟨record, hrecord, rfl, hparts⟩ := hx
  rw [openRecord, hrecord, Except.bind, hparts] at hopen
  dsimp only at hopen
  rw [lawful.decrypt_encrypt] at hopen
  exact ((Except.ok.inj hopen).symm.trans (decodeUtf8_utf8 _))

/-- A record that is opened for an id holds a secret that was set for it. -/
theorem setFor_of_open (lawful : gcm.Lawful) (hi : Inv s) {draw : Draw} {id raw text : String}
    (hun : Unforged gcm s (.resume i draw)) (hin : InPlace gcm s (.resume i draw))
    (hp : positionOf s i = some p) (hpresented : presented p = some (id, raw))
    (hopen : openRecord gcm raw id s.store.masterKey = .ok text) : SetFor (requests s) id (utf16 text) := by
  obtain ⟨x, hx, hcarries, rfl⟩ := hin p hp (id, raw) hpresented (hun p hp (id, raw) hpresented text hopen)
  obtain ⟨hw, hset⟩ := hi.sealings x hx
  rw [text_of_carries lawful hopen hcarries, hw]
  exact hset

theorem call_inv (hi : Inv s) (request : Request)
    (hw : ∀ id secret, request = .setSecret id secret → IsWellFormed secret) :
    Inv { s with calls := s.calls ++ [⟨request, start s.store request⟩] } := by
  have hrequests : requests { s with calls := s.calls ++ [⟨request, start s.store request⟩] } =
      requests s ++ [request] := by
    rw [requests, List.map_append]
    rfl
  have hsub : requests s ⊆ requests s ++ [request] := List.subset_append_left _ _
  constructor
  · rw [hrequests]
    intro x hx
    obtain ⟨hw, id, hid, hentry⟩ := hi.sealings x hx
    exact ⟨hw, id, hsub hid, hentry⟩
  · rw [hrequests]
    intro call hcall
    rcases List.mem_append.mp hcall with hcall | hcall
    · exact (hi.positions call hcall).mono hsub
    · obtain rfl := List.mem_singleton.mp hcall
      have hmem : request ∈ requests s ++ [request] := List.mem_append_right _ List.mem_cons_self
      rcases start_cases s.store request with ⟨e, h⟩ | ⟨id, secret, entry, rfl, hentry, h⟩ |
        ⟨id, entry, rfl, hentry, h⟩ | ⟨id, entry, _, _, h⟩ | ⟨key, next, _, _, h⟩ <;> dsimp only <;> rw [h]
      · trivial
      · exact ⟨hw id secret rfl, id, hmem, hentry⟩
      · exact ⟨id, rfl, hentry⟩
      · trivial
      · trivial

theorem accept_inv {answer : Answer} {requests : List Request} {request : Request}
    (hp : PositionInv requests request p) (h : accept p answer = some q) : PositionInv requests request q := by
  cases p with
  | setReads | getReads =>
      cases answer <;> cases h
      exact hp
  | setWrites | deletes =>
      cases answer <;> cases h
      trivial
  | rotates next phase =>
      cases phase <;> cases answer <;> cases h <;> trivial
  | settled | setHasRead | getHasRead => cases h

theorem commit_position (requests : List Request) (request : Request) (store : SecureKeyStore) (next : MasterKey)
    (written rest : List (String × String)) : PositionInv requests request (commit store next written rest).2 := by
  cases rest <;> trivial

theorem readNext_position (requests : List Request) (request : Request) (store : SecureKeyStore)
    (next : MasterKey) (rewritten : List (String × String)) (ids : List String) :
    PositionInv requests request (readNext store next rewritten ids).2 := by
  cases ids with
  | nil => exact commit_position requests request store next [] rewritten
  | cons id ids => trivial

theorem sealings_inv (hi : Inv s) (store : SecureKeyStore) {new : List Sealing}
    (hnew : ∀ x ∈ new, IsWellFormed x.secret ∧ SetFor (requests s) x.id x.secret) :
    Inv { s with store := store, sealings := new ++ s.sealings } := by
  refine ⟨?_, hi.positions⟩
  intro x hx
  rcases List.mem_append.mp hx with hx | hx
  · exact hnew x hx
  · exact hi.sealings x hx

/-- What is sealed when a call goes on was set for the id it is sealed for. -/
theorem sealingsOf_spec (lawful : gcm.Lawful) (hi : Inv s) {draw : Draw} {call : Call}
    (h : s.calls[i]? = some call) (hun : Unforged gcm s (.resume i draw)) (hin : InPlace gcm s (.resume i draw)) :
    ∀ x ∈ sealingsOf gcm s.store draw call.position,
      IsWellFormed x.secret ∧ SetFor (requests s) x.id x.secret := by
  have hposition := hi.positions call (List.mem_of_getElem? h)
  have hp : positionOf s i = some call.position := by rw [positionOf, h, Option.map_some]
  intro x hx
  obtain ⟨request, p⟩ := call
  cases p with
  | setHasRead entry plaintext existing =>
      simp only [sealingsOf] at hx
      split at hx
      · obtain rfl := List.mem_singleton.mp hx
        exact hposition
      · cases hx
  | rotates next phase =>
      cases phase with
      | hasRead id raw ids rewritten =>
          cases raw with
          | none => cases hx
          | some raw =>
              simp only [sealingsOf] at hx
              split at hx
              · next text hopen =>
                  obtain rfl := List.mem_singleton.mp hx
                  exact ⟨isWellFormed_utf16 text, setFor_of_open lawful hi hun hin hp rfl hopen⟩
              · cases hx
      | lists | hasListed | reads | writes | hasWritten => cases hx
  | settled | setReads | setWrites | getReads | getHasRead | deletes => cases hx

theorem resume_spec (lawful : gcm.Lawful) (hi : Inv s) {draw : Draw} {call : Call} (h : s.calls[i]? = some call)
    (hun : Unforged gcm s (.resume i draw)) (hin : InPlace gcm s (.resume i draw))
    {result : SecureKeyStore × Position} (ht : resume gcm s.store draw call.position = some result) :
    PositionInv (requests s) call.request result.2 := by
  have hposition := hi.positions call (List.mem_of_getElem? h)
  have hp : positionOf s i = some call.position := by rw [positionOf, h, Option.map_some]
  obtain ⟨request, p⟩ := call
  cases p with
  | setHasRead entry plaintext existing =>
      cases ht
      rw [resumeSet]
      cases createdAt draw entry existing <;> trivial
  | getHasRead entry record =>
      cases ht
      cases record with
      | none => trivial
      | some raw =>
          rw [resumeGet]
          cases hopen : openRecord gcm raw entry s.store.masterKey with
          | error e => trivial
          | ok text =>
              obtain ⟨id, hrequest, hentry⟩ := hposition
              exact ⟨id, entry, hrequest, hentry, setFor_of_open lawful hi hun hin hp rfl hopen⟩
  | rotates next phase =>
      cases phase with
      | hasListed ids =>
          cases ht
          exact readNext_position _ _ _ _ _ _
      | hasRead id raw ids rewritten =>
          cases raw with
          | none =>
              cases ht
              exact readNext_position _ _ _ _ _ _
          | some raw =>
              rw [resume, resumeRotation] at ht
              split at ht <;> cases ht
              · exact readNext_position _ _ _ _ _ _
              · trivial
      | hasWritten written id record rest =>
          cases ht
          exact commit_position _ _ _ _ _ _
      | lists | reads | writes => cases ht
  | settled | setReads | setWrites | getReads | deletes => cases ht

theorem step_inv (lawful : gcm.Lawful) (s : State) (event : Event) (t : State) (hi : Inv s)
    (hok : Unforged gcm s event ∧ InPlace gcm s event) (hstep : step gcm s event = some t) : Inv t := by
  obtain ⟨hun, hin⟩ := hok
  have hcall : ∀ {i p}, positionOf s i = some p → ∃ call, s.calls[i]? = some call ∧ call.position = p :=
    fun h => Option.map_eq_some_iff.mp h
  cases event with
  | call request =>
      cases hstep
      refine call_inv hi request ?_
      rintro id secret rfl
      exact hin
  | fail i reason =>
      obtain ⟨p, hp, ht⟩ := Option.bind_eq_some_iff.mp hstep
      obtain ⟨call, h, _⟩ := hcall hp
      split_ifs at ht
      cases ht
      exact moveTo_inv hi h trivial
  | answer i answer =>
      obtain ⟨q, hq, rfl⟩ := Option.map_eq_some_iff.mp hstep
      obtain ⟨p, hp, hq⟩ := Option.bind_eq_some_iff.mp hq
      obtain ⟨call, h, rfl⟩ := hcall hp
      exact moveTo_inv hi h (accept_inv (hi.positions call (List.mem_of_getElem? h)) hq)
  | resume i draw =>
      obtain ⟨p, hp, ht⟩ := Option.bind_eq_some_iff.mp hstep
      obtain ⟨result, hresult, rfl⟩ := Option.map_eq_some_iff.mp ht
      obtain ⟨call, h, rfl⟩ := hcall hp
      have hsealings := sealings_inv hi result.1 (sealingsOf_spec lawful hi h hun hin)
      exact moveTo_inv hsealings h (resume_spec lawful hi h hun hin hresult)

end Invariant

section Result

theorem Inv.bound {s : State} (hi : Inv s) : Bound s := by
  intro call hcall id text hrequest hposition
  have h := hi.positions call hcall
  rw [hposition] at h
  obtain ⟨id', entry, hrequest', hentry, hset⟩ := h
  obtain rfl : id = id' := Request.getSecret.inj (hrequest.symm.trans hrequest')
  exact ⟨entry, hentry, hset⟩

/-- A secret is returned only for an id for which it was set, in every run in which the
backend presents no record for an id that was sealed for others. -/
theorem secrets_bound (gcm : Gcm) (lawful : gcm.Lawful) (store : SecureKeyStore) (t : State)
    (events : List Event) (hun : Allowed (step gcm) (Unforged gcm) { store := store } events)
    (hin : Allowed (step gcm) (InPlace gcm) { store := store } events)
    (hrun : run (step gcm) { store := store } events = some t) : Bound t := by
  have hinitial : Inv { store := store } := ⟨nofun, nofun⟩
  exact (run_invariant (step_inv lawful) _ t events hinitial (allowed_and hun hin) hrun).bound

end Result

section Runs

theorem normalizeId_letters : normalizeId "a" = .ok "a" ∧ normalizeId "b" = .ok "b" := by
  constructor <;> rfl

def drawOf (iv : UInt8) : Draw := ⟨ivOf iv, noon, noon⟩

def freshStore : SecureKeyStore := { masterKey := keyOf 1 }

theorem openRecord_sealedSeed (seed id : String) (iv : UInt8) :
    openRecord cipher (sealedSeed seed 1 iv) id (keyOf 1) = .ok seed := by
  have h := openRecord_sealRecord (utf16 seed) (keyOf 1) (ivOf iv) noon cipher_lawful id noon.exact
  rwa [toWellFormed_utf16] at h

theorem carries_sealedSeed (seed id : String) (iv : UInt8) (x : String) :
    Carries cipher (keyOf 1) (sealedSeed seed 1 iv) id ⟨x, keyOf 1, ivOf iv, utf16 seed⟩ :=
  ⟨_, parseRecord_sealRecord _ _ _ _ id noon.exact, rfl, sealedParts_base64 _ _ (cipher_lawful.tag_length _ _ _)⟩

def setSeed (i : Nat) (id seed : String) (iv : UInt8) : List Event :=
  [.call (.setSecret id (utf16 seed)), .answer i (.record none), .resume i (drawOf iv), .answer i .done]

def twoSeeds : List Event :=
  setSeed 0 "a" "seed-a" 1 ++ setSeed 1 "b" "seed-b" 2 ++ [.call (.getSecret "a")]

def sealingOf (id seed : String) (iv : UInt8) : Sealing := ⟨id, keyOf 1, ivOf iv, utf16 seed⟩

def setDone (id seed : String) : Call := ⟨.setSecret id (utf16 seed), .settled (.ok none)⟩

/-- Two seeds are set and the first is asked for. -/
def asked (position : Position) : State where
  store := freshStore
  calls := [setDone "a" "seed-a", setDone "b" "seed-b", ⟨.getSecret "a", position⟩]
  sealings := [sealingOf "b" "seed-b" 2, sealingOf "a" "seed-a" 1]

abbrev Benign (s : State) (event : Event) : Prop := Unforged cipher s event ∧ InPlace cipher s event

theorem reaches_asked : Reaches (step cipher) Benign { store := freshStore } twoSeeds (asked (.getReads "a")) := by
  have hquiet : ∀ {s : State} {i draw p}, positionOf s i = some p → presented p = none →
      Benign s (.resume i draw) := by
    intro s i draw p hp hnone
    constructor
    all_goals
      intro q hq item hitem
      rw [hp] at hq
      cases hq
      rw [hnone] at hitem
      cases hitem
  refine .next ⟨trivial, isWellFormed_utf16 _⟩ rfl (.next ⟨trivial, trivial⟩ rfl ?_)
  refine .next (hquiet rfl rfl) rfl (.next ⟨trivial, trivial⟩ rfl ?_)
  refine .next ⟨trivial, isWellFormed_utf16 _⟩ rfl (.next ⟨trivial, trivial⟩ rfl ?_)
  refine .next (hquiet rfl rfl) rfl (.next ⟨trivial, trivial⟩ rfl ?_)
  exact .next ⟨trivial, trivial⟩ rfl .refl

/-- The backend answers with a record that was sealed in the run. -/
def answerSeed (seed : String) (iv : UInt8) : List Event :=
  [.answer 2 (.record (some (sealedSeed seed 1 iv))), .resume 2 (drawOf 3)]

/-- Whatever the record was sealed for, it opens. -/
theorem reaches_answerSeed {ok : State → Event → Prop} (seed : String) (iv : UInt8)
    (hanswer : ∀ raw, ok (asked (.getReads "a")) (.answer 2 raw))
    (hresume : ok (asked (.getHasRead "a" (some (sealedSeed seed 1 iv)))) (.resume 2 (drawOf 3))) :
    Reaches (step cipher) ok (asked (.getReads "a")) (answerSeed seed iv)
      (asked (.settled (.ok (some seed)))) := by
  have hopen : resume cipher freshStore (drawOf 3) (.getHasRead "a" (some (sealedSeed seed 1 iv))) =
      some (freshStore, .settled (.ok (some seed))) := by
    rw [resume, resumeGet, freshStore, openRecord_sealedSeed]
    rfl
  have hstep : step cipher (asked (.getHasRead "a" (some (sealedSeed seed 1 iv)))) (.resume 2 (drawOf 3)) =
      some (asked (.settled (.ok (some seed)))) := by
    rw [step]
    refine Option.bind_eq_some_iff.mpr ⟨_, rfl, ?_⟩
    rw [asked, hopen]
    rfl
  exact .next (hanswer _) rfl (.next hresume hstep .refl)

/-- The backend may answer with every record that was sealed. -/
theorem unforged_sealedSeed (seed id : String) (iv : UInt8)
    (h : sealingOf id seed iv ∈ [sealingOf "b" "seed-b" 2, sealingOf "a" "seed-a" 1]) :
    Unforged cipher (asked (.getHasRead "a" (some (sealedSeed seed 1 iv)))) (.resume 2 (drawOf 3)) := by
  intro p hp item hitem text _
  cases hp
  cases hitem
  exact ⟨_, h, carries_sealedSeed seed "a" iv id⟩

theorem secrets_bound_twoSeeds : ∃ t, run (step cipher) { store := freshStore }
    (twoSeeds ++ answerSeed "seed-a" 1) = some t ∧ Bound t := by
  have hun := unforged_sealedSeed "seed-a" "a" 1 (by simp)
  have hin : InPlace cipher (asked (.getHasRead "a" (some (sealedSeed "seed-a" 1 1)))) (.resume 2 (drawOf 3)) := by
    intro p hp item hitem _
    cases hp
    cases hitem
    exact ⟨_, List.mem_cons_of_mem _ List.mem_cons_self, carries_sealedSeed "seed-a" "a" 1 "a", rfl⟩
  have h := reaches_asked.append (reaches_answerSeed "seed-a" 1 (fun _ => ⟨trivial, trivial⟩) ⟨hun, hin⟩)
  exact ⟨_, h.run, secrets_bound cipher cipher_lawful freshStore _ _ (allowed_mono (fun _ _ h => h.1) h.allowed)
    (allowed_mono (fun _ _ h => h.2) h.allowed) h.run⟩

/-- The record of one id is presented for another, and its secret is returned. -/
theorem swapped_record_opens : cipher.Lawful ∧ ∃ t, Reaches (step cipher) (Unforged cipher) { store := freshStore }
    (twoSeeds ++ answerSeed "seed-b" 2) t ∧ ¬Bound t := by
  have hun := unforged_sealedSeed "seed-b" "b" 2 (by simp)
  have hasked : Reaches (step cipher) (Unforged cipher) { store := freshStore } twoSeeds (asked (.getReads "a")) :=
    ⟨reaches_asked.run, allowed_mono (fun _ _ h => h.1) reaches_asked.allowed⟩
  refine ⟨cipher_lawful, _, hasked.append (reaches_answerSeed "seed-b" 2 (fun _ => trivial) hun), ?_⟩
  intro h
  obtain ⟨entry, hentry, id, hid, hset⟩ := h ⟨.getSecret "a", _⟩ (by simp [asked]) "a" "seed-b" rfl rfl
  obtain rfl : "a" = entry := Except.ok.inj (normalizeId_letters.1.symm.trans hentry)
  simp only [requests, asked, setDone, List.map_cons, List.map_nil, List.mem_cons, Request.setSecret.injEq,
    reduceCtorEq, List.not_mem_nil, or_false] at hid
  rcases hid with ⟨rfl, hsecret⟩ | ⟨rfl, _⟩
  · exact absurd hsecret (by decide)
  · rw [normalizeId_letters.2] at hset
    exact absurd (Except.ok.inj hset) (by decide)

end Runs

end SplitSdk.KeyBinding
