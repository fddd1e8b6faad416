import SplitSdk.AuditTrailHasher
import SplitSdk.Fallible
import SplitSdk.GrowingLog
import SplitSdk.Interleaving

namespace SplitSdk.AuditAppends

open AuditTrailHasher Fallible GrowingLog Interleaving Merkle
open JsonText (Json)

variable {Payload : Type} (sha256 : String → Digest) (stringify : AuditEvent Payload → Except String String)
  (listeners : List (Listener Payload))

section Statement

/-- An entry has its place as its index, is linked to the entry before it and has the hash of its record. -/
structure Fits (before : List (AuditChainEntry Payload)) (entry : AuditChainEntry Payload) : Prop where
  index : entry.index = before.length
  prevHash : entry.prevHash = lastHash sha256 before
  hash : ∃ data, dataString stringify entry.event entry.prevHash entry.index = .ok data ∧
    entry.hash = sha256Hex sha256 data

structure Intact (entries : List (AuditChainEntry Payload)) : Prop where
  indices : ∀ (i : Nat) (entry : AuditChainEntry Payload), entries[i]? = some entry → entry.index = i
  links : ∀ (i : Nat) (entry : AuditChainEntry Payload), entries[i]? = some entry →
    entry.prevHash = lastHash sha256 (entries.take i)
  verified : verify sha256 stringify listeners entries (root sha256 entries) =
    .ok { valid := true, length := some entries.length }

/-- No listener throws on what a successful `verify` emits. -/
def Quiet (entries : List (AuditChainEntry Payload)) : Prop :=
  emit listeners (.validationStart (root sha256 entries) entries.length) = .ok () ∧
    emit listeners (.validationSuccess (root sha256 entries) entries.length) = .ok ()

def pendingIndex : Position Payload → Option Int
  | .hashing index _ _ => some index
  | _ => none

/-- A call pushes its entry only while the trail has as many entries as the call has counted. -/
def IndexCurrent (s : Trail Payload) : Event Payload → Prop
  | .append _ => True
  | .hashed k => ∀ call ∈ s.calls[k]?, ∀ index ∈ pendingIndex call.position, index = s.entries.length

instance (s : Trail Payload) (e : Event Payload) : Decidable (IndexCurrent s e) := by
  cases e <;> unfold IndexCurrent <;> infer_instance

def KeepsIntact (s : Trail Payload) (e : Event Payload) : Prop :=
  ∀ t, step sha256 stringify s e = some t → Intact sha256 stringify listeners t.entries

/-- The condition on a step, and on the listeners in the state that it leads to. -/
def Harmless (s : Trail Payload) (e : Event Payload) : Prop :=
  IndexCurrent s e ∧ ∀ t, step sha256 stringify s e = some t → Quiet sha256 listeners t.entries

end Statement

section Verification

variable {sha256 stringify listeners}

theorem lastHash_push (before : List (AuditChainEntry Payload)) (entry : AuditChainEntry Payload) :
    lastHash sha256 (before ++ [entry]) = entry.hash := by
  rw [lastHash, List.getLast?_concat]
  rfl

variable (sha256 stringify) in
theorem findMismatch_iff (before entries : List (AuditChainEntry Payload)) :
    findMismatch sha256 stringify (lastHash sha256 before) before.length entries = .ok none ↔
      BuiltOn (Fits sha256 stringify) before entries := by
  induction entries generalizing before with
  | nil => exact iff_of_true rfl trivial
  | cons entry entries ih =>
      have hrest := ih (before ++ [entry])
      rw [lastHash_push, List.length_append, List.length_singleton] at hrest
      rw [findMismatch, BuiltOn]
      split_ifs with hindex hprev
      · exact iff_of_false (fun h => by cases h) (fun h => hindex h.1.index)
      · exact iff_of_false (fun h => by cases h) (fun h => hprev h.1.prevHash)
      · rw [bind_eq_ok]
        constructor
        · rintro ⟨data, hdata, h⟩
          split_ifs at h with hhash
          · cases h
          · exact ⟨⟨not_not.mp hindex, not_not.mp hprev, data, hdata, not_not.mp hhash⟩, hrest.mp h⟩
        · rintro ⟨⟨-, -, data, hdata, hhash⟩, h⟩
          refine ⟨data, hdata, ?_⟩
          rw [if_neg (not_not.mpr hhash)]
          exact hrest.mpr h

theorem verify_iff (entries : List (AuditChainEntry Payload)) (expectedRoot : String) (verdict : Verdict) :
    verify sha256 stringify listeners entries expectedRoot = .ok verdict ∧ verdict.valid ↔
      Built (Fits sha256 stringify) entries ∧ root sha256 entries = expectedRoot ∧
        Quiet sha256 listeners entries ∧ verdict = { valid := true, length := some entries.length } := by
  have hbuilt := findMismatch_iff sha256 stringify [] entries
  rw [Built, ← hbuilt]
  change _ ↔ findMismatch sha256 stringify (sha256Hex sha256 "") 0 entries = .ok none ∧ _
  rw [verify, bind_eq_ok, Quiet]
  constructor
  · rintro ⟨⟨_, hstart, h⟩, hvalid⟩
    obtain ⟨found, hfound, h⟩ := bind_eq_ok.mp h
    cases found with
    | some found =>
        obtain ⟨_, -, h⟩ := bind_eq_ok.mp h
        cases h
        cases hvalid
    | none =>
        dsimp only at h
        split_ifs at h with hroot
        · obtain ⟨_, -, h⟩ := bind_eq_ok.mp h
          cases h
          cases hvalid
        · obtain ⟨_, hsuccess, h⟩ := bind_eq_ok.mp h
          cases h
          obtain rfl := not_not.mp hroot
          exact ⟨hfound, rfl, ⟨hstart, hsuccess⟩, rfl⟩
  · rintro ⟨hfound, rfl, ⟨hstart, hsuccess⟩, rfl⟩
    refine ⟨⟨(), hstart, bind_eq_ok.mpr ⟨none, hfound, ?_⟩⟩, rfl⟩
    dsimp only
    rw [if_neg (not_not.mpr rfl)]
    exact bind_eq_ok.mpr ⟨(), hsuccess, rfl⟩

/-- A trail is intact when its entries fit one another and no listener throws on what `verify` emits. -/
theorem intact_iff (entries : List (AuditChainEntry Payload)) : Intact sha256 stringify listeners entries ↔
    Built (Fits sha256 stringify) entries ∧ Quiet sha256 listeners entries := by
  have hverify : verify sha256 stringify listeners entries (root sha256 entries) =
      .ok { valid := true, length := some entries.length } ∧ true ↔ _ :=
    verify_iff entries (root sha256 entries) { valid := true, length := some entries.length }
  constructor
  · intro h
    obtain ⟨hbuilt, -, hquiet, -⟩ := hverify.mp ⟨h.verified, rfl⟩
    exact ⟨hbuilt, hquiet⟩
  · rintro ⟨hbuilt, hquiet⟩
    refine ⟨?_, ?_, (hverify.mpr ⟨hbuilt, rfl, hquiet, rfl⟩).1⟩
    · intro i entry hi
      have hle := (List.getElem?_eq_some_iff.mp hi).1.le
      rw [(hbuilt.fits_at hi).index, List.length_take, min_eq_left hle]
    · exact fun i entry hi => (hbuilt.fits_at hi).prevHash

end Verification

section Steps

variable {sha256 stringify listeners} {s t : Trail Payload} {e : Event Payload}

inductive Moves (sha256 : String → Digest) (stringify : AuditEvent Payload → Except String String)
    (s : Trail Payload) : Event Payload → Trail Payload → Prop
  | begin (event : AuditEvent Payload) : Moves sha256 stringify s (.append event) (begin stringify s event)
  | hashedEmpty {k : Nat} {call : Call Payload} {index : Int} (hcall : s.calls[k]? = some call)
      (hposition : call.position = .hashingEmpty index) : Moves sha256 stringify s (.hashed k)
        (moveTo s k call (hashData stringify call.event index (sha256Hex sha256 "")))
  | hashed {k : Nat} {call : Call Payload} {index : Int} {prevHash data : String} (hcall : s.calls[k]? = some call)
      (hposition : call.position = .hashing index prevHash data) :
      Moves sha256 stringify s (.hashed k) (push sha256 s k call index prevHash data)

theorem moves_of_step (h : step sha256 stringify s e = some t) : Moves sha256 stringify s e t := by
  cases e with
  | append event =>
      cases h
      exact .begin event
  | hashed k =>
      rw [step] at h
      split at h
      next call hcall =>
        split at h
        next index hposition =>
          cases h
          exact .hashedEmpty hcall hposition
        next index prevHash data hposition =>
          cases h
          exact .hashed hcall hposition
        next => cases h
      next => cases h

/-- What a call reads of the trail. -/
def read (sha256 : String → Digest) (entries : List (AuditChainEntry Payload)) : Int × String :=
  (entries.length, lastHash sha256 entries)

/-- A call goes on with what it has read at its beginning. -/
def Informed (sha256 : String → Digest) (stringify : AuditEvent Payload → Except String String)
    (entries : List (AuditChainEntry Payload)) (call : Call Payload) : Prop :=
  match call.position with
  | .hashingEmpty index => index = 0
  | .hashing index prevHash data =>
      dataString stringify call.event prevHash index = .ok data ∧ ReadOf (read sha256) entries (index, prevHash)
  | .returned _ | .rejected _ => True

structure Inv (sha256 : String → Digest) (stringify : AuditEvent Payload → Except String String)
    (s : Trail Payload) : Prop where
  built : Built (Fits sha256 stringify) s.entries
  informed : ∀ call ∈ s.calls, Informed sha256 stringify s.entries call

theorem informed_hashData {entries : List (AuditChainEntry Payload)} {index : Int} {prevHash : String}
    (h : ReadOf (read sha256) entries (index, prevHash)) (event : AuditEvent Payload) :
    Informed sha256 stringify entries { event, position := hashData stringify event index prevHash } := by
  unfold hashData
  cases hdata : dataString stringify event prevHash index with
  | ok data => exact ⟨hdata, h⟩
  | error message => trivial

theorem Informed.push {entries : List (AuditChainEntry Payload)} {call : Call Payload}
    (h : Informed sha256 stringify entries call) (entry : AuditChainEntry Payload) :
    Informed sha256 stringify (entries ++ [entry]) call := by
  unfold Informed at h ⊢
  split
  next index hposition => simpa only [hposition] using h
  next index prevHash data hposition =>
    simp only [hposition] at h
    exact ⟨h.1, h.2.push entry⟩
  next => trivial
  next => trivial

theorem informed_begin (event : AuditEvent Payload) : ∀ call ∈ (begin stringify s event).calls,
    call ∈ s.calls ∨ Informed sha256 stringify s.entries call := by
  intro call hcall
  rcases List.mem_append.mp hcall with hold | hnew
  · exact .inl hold
  · obtain rfl := List.mem_singleton.mp hnew
    right
    cases hlast : s.entries.getLast? with
    | none =>
        have hnil : s.entries = [] := List.getLast?_eq_none_iff.mp hlast
        simp [Informed, hnil]
    | some last =>
        have hread := readOf_now (read sha256) s.entries
        rw [read, lastHash, hlast] at hread
        exact informed_hashData hread event

/-- The entry that is pushed fits the trail exactly when the call has counted all of its entries. -/
theorem fits_iff {call : Call Payload} {index : Int} {prevHash data : String}
    (hinformed : Informed sha256 stringify s.entries call)
    (hposition : call.position = .hashing index prevHash data) :
    Fits sha256 stringify s.entries ⟨call.event, sha256Hex sha256 data, prevHash, index⟩ ↔
      index = s.entries.length := by
  rw [Informed, hposition] at hinformed
  obtain ⟨hdata, before, hbefore, hread⟩ := hinformed
  constructor
  · exact fun h => h.index
  · intro hindex
    have hlen : before.length = s.entries.length := by
      have := congrArg Prod.fst hread
      simp only [read] at this
      omega
    obtain rfl := hbefore.eq_of_length hlen
    exact ⟨hindex, (congrArg Prod.snd hread).symm, data, hdata, rfl⟩

theorem step_inv (hi : Inv sha256 stringify s) (hok : IndexCurrent s e)
    (h : step sha256 stringify s e = some t) : Inv sha256 stringify t := by
  cases moves_of_step h with
  | begin event =>
      refine ⟨hi.built, ?_⟩
      intro call hcall
      rcases informed_begin event call hcall with hold | hnew
      · exact hi.informed call hold
      · exact hnew
  | @hashedEmpty k call index hcall hposition =>
      refine ⟨hi.built, forall_mem_set hi.informed (informed_hashData ?_ call.event)⟩
      have hcount := hi.informed call (List.mem_of_getElem? hcall)
      rw [Informed, hposition] at hcount
      exact ⟨[], List.nil_prefix, by rw [hcount]; rfl⟩
  | @hashed k call index prevHash data hcall hposition =>
      have hcount := hok call hcall index (by rw [hposition]; rfl)
      have hfits := (fits_iff (hi.informed call (List.mem_of_getElem? hcall)) hposition).mpr hcount
      exact ⟨built_push.mpr ⟨hi.built, hfits⟩,
        forall_mem_set (fun c hc => (hi.informed c hc).push _) trivial⟩

theorem keepsIntact_iff (hi : Inv sha256 stringify s) (e : Event Payload) :
    KeepsIntact sha256 stringify listeners s e ↔ Harmless sha256 stringify listeners s e := by
  constructor
  · intro h
    refine ⟨?_, fun t ht => ((intact_iff _).mp (h t ht)).2⟩
    cases e with
    | append event => trivial
    | hashed k =>
        intro call hcall index hindex
        rw [Option.mem_def] at hcall
        cases hposition : call.position with
        | hashing index' prevHash data =>
            rw [hposition] at hindex
            cases hindex
            have ht : step sha256 stringify s (.hashed k) = some (push sha256 s k call index prevHash data) := by
              rw [step, hcall]
              simp [hposition]
            have hbuilt := ((intact_iff _).mp (h _ ht)).1
            exact (fits_iff (hi.informed call (List.mem_of_getElem? hcall)) hposition).mp
              (built_push.mp hbuilt).2
        | hashingEmpty | returned | rejected =>
            rw [hposition] at hindex
            cases hindex
  · rintro ⟨hok, hquiet⟩ t ht
    exact (intact_iff _).mpr ⟨(step_inv hi hok ht).built, hquiet t ht⟩

end Steps

section Result

variable {sha256 stringify listeners}

/-- From an intact trail on, the trail is intact after every step exactly when no call pushes its entry behind entries that it has
not counted and no listener throws on what `verify` emits. -/
theorem appends_intact_iff (sha256 : String → Digest) (stringify : AuditEvent Payload → Except String String)
    (listeners : List (Listener Payload)) (entries : List (AuditChainEntry Payload))
    (hentries : Intact sha256 stringify listeners entries) (es : List (Event Payload)) :
    Allowed (step sha256 stringify) (KeepsIntact sha256 stringify listeners) (start entries) es ↔
      Allowed (step sha256 stringify) (Harmless sha256 stringify listeners) (start entries) es := by
  have hstart : Inv sha256 stringify (start entries) := ⟨((intact_iff entries).mp hentries).1, List.forall_mem_nil _⟩
  have hiff (s : Trail Payload) (e : Event Payload) (hi : Inv sha256 stringify s) :
      KeepsIntact sha256 stringify listeners s e ↔ Harmless sha256 stringify listeners s e := keepsIntact_iff hi e
  refine allowed_iff (I := Inv sha256 stringify) ?_ hiff hstart es
  intro s e t hi hok ht
  exact step_inv hi ((hiff s e hi).mp hok).1 ht

end Result

section Sample

/-- `JSON.stringify` for an event whose payload is an object with texts in it. -/
def sampleStringify (event : AuditEvent (List (String × String))) : Except String String :=
  .ok (JsonText.stringify (.object ([("invoiceId", .string event.invoiceId), ("actorId", .string event.actorId),
    ("action", .string event.action),
    ("payload", .object (event.payload.map (fun field => (field.1, .string field.2)))),
    ("timestamp", .number event.timestamp)] ++
      (event.ledger.map (fun ledger => ("ledger", Json.number ledger))).toList)))

def sampleEvent (action : String) : AuditEvent (List (String × String)) where
  invoiceId := "inv-1"
  actorId := "GA"
  action := action
  payload := []
  timestamp := .finite 0

def emptyHash : Digest := ⟨"e3b0c44298fc1c149afbf4c8996fb92427ae41e4649b934ca495991b7852b855", isDigest_ofList (by decide)⟩

def createHash : Digest := ⟨"1a36e118805669b3fd658f5708f029d278744f5d2971a6691f5166608d52f490", isDigest_ofList (by decide)⟩

def refundHash : Digest := ⟨"a88b3622aae31e91c435f168d9655f145f50cbd939f13f433ae5ef0e2ebde3b5", isDigest_ofList (by decide)⟩

/-- The event, and the hash and the place that its record has. -/
def sampleRecord (action : String) (prevHash : Digest) (index : Nat) : String :=
  (dataString sampleStringify (sampleEvent action) prevHash.1 index).toOption.getD ""

/-- SHA-256 on what is hashed for the two events, one after the other or both at the beginning of the trail. -/
def sampleSha256 (data : String) : Digest :=
  if data = "" then emptyHash
  else if data = sampleRecord "CREATE" emptyHash 0 then createHash
  else if data = sampleRecord "REFUND" emptyHash 0 then
    ⟨"b21bc9a5922eb71028de7a7024c46066d225d974c6fbcad779a42d171a6fb1e8", isDigest_ofList (by decide)⟩
  else if data = sampleRecord "REFUND" createHash 1 then refundHash
  else if data = createHash.1 ++ refundHash.1 then
    ⟨"750d624def87ba75a1628e8a33fd1423100238c4edf9d086315dbce3caa6133c", isDigest_ofList (by decide +kernel)⟩
  else ⟨"63e0db3bb0d45699501ee47ac01f9cb0678fcd5bd487a1648744789485a63a57", isDigest_ofList (by decide)⟩

theorem intact_nil : Intact sampleSha256 sampleStringify [] [] :=
  (intact_iff []).mpr ⟨built_nil, rfl, rfl⟩

/-- The second event is appended once the first one is in the trail. -/
def inTurn : List (Event (List (String × String))) :=
  [.append (sampleEvent "CREATE"), .hashed 0, .hashed 0, .append (sampleEvent "REFUND"), .hashed 1]

theorem indexCurrent_inTurn (sha256 : String → Digest) :
    Allowed (step sha256 sampleStringify) IndexCurrent (start []) inTurn := by
  refine ⟨trivial, (forall_next_iff rfl).mpr ⟨?_, (forall_next_iff rfl).mpr ⟨?_, (forall_next_iff rfl).mpr
    ⟨trivial, (forall_next_iff rfl).mpr ⟨?_, fun _ _ => trivial⟩⟩⟩⟩⟩
  · rintro call ⟨⟩ index ⟨⟩
  · rintro call ⟨⟩ index ⟨⟩
    rfl
  · rintro call ⟨⟩ index ⟨⟩
    rfl

theorem appends_intact_inTurn : Allowed (step sampleSha256 sampleStringify)
    (KeepsIntact sampleSha256 sampleStringify []) (start []) inTurn := by
  refine (appends_intact_iff sampleSha256 sampleStringify [] [] intact_nil inTurn).mpr ?_
  exact allowed_mono (fun s e hok => ⟨hok, fun t _ => ⟨rfl, rfl⟩⟩) (indexCurrent_inTurn sampleSha256)

/-- Both events are appended to the empty trail. -/
def overlapping : List (Event (List (String × String))) :=
  [.append (sampleEvent "CREATE"), .append (sampleEvent "REFUND"), .hashed 0, .hashed 1, .hashed 0, .hashed 1]

/-- The entry of a call that has counted no entries. -/
def firstEntry (sha256 : String → Digest) (action : String) : AuditChainEntry (List (String × String)) where
  event := sampleEvent action
  hash := sha256Hex sha256 (sampleRecord action (sha256 "") 0)
  prevHash := sha256Hex sha256 ""
  index := 0

theorem run_overlapping (sha256 : String → Digest) : ∃ s ∈ run (step sha256 sampleStringify) (start []) overlapping,
    s.entries = [firstEntry sha256 "CREATE", firstEntry sha256 "REFUND"] := ⟨_, rfl, rfl⟩

theorem verify_firstEntries (sha256 : String → Digest) (expectedRoot : String) :
    verify sha256 sampleStringify [] [firstEntry sha256 "CREATE", firstEntry sha256 "REFUND"] expectedRoot =
      .ok { valid := false, mismatchAt := some 1 } := by
  have hfirst : findMismatch sha256 sampleStringify (sha256Hex sha256 "") 0
      [firstEntry sha256 "CREATE", firstEntry sha256 "REFUND"] = .ok (some (.index, 1)) := by
    have hindex : (firstEntry sha256 "CREATE").index = (0 : Nat) := rfl
    have hprev : (firstEntry sha256 "CREATE").prevHash = sha256Hex sha256 "" := rfl
    rw [findMismatch, if_neg (not_not.mpr hindex), if_neg (not_not.mpr hprev)]
    exact (if_neg (not_not.mpr rfl)).trans (if_pos Int.zero_ne_one)
  rw [verify, hfirst]
  rfl

theorem overlapping_misnumbered : ∃ s ∈ run (step sampleSha256 sampleStringify) (start []) overlapping,
    s.entries.map AuditChainEntry.index = [0, 0] ∧
      (verify sampleSha256 sampleStringify [] s.entries (root sampleSha256 s.entries)).toOption =
        some { valid := false, mismatchAt := some 1 } := by
  obtain ⟨s, hs, hentries⟩ := run_overlapping sampleSha256
  refine ⟨s, hs, ?_⟩
  rw [hentries, verify_firstEntries]
  exact ⟨rfl, rfl⟩

end Sample

end SplitSdk.AuditAppends
