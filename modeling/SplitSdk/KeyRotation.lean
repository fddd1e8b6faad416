import SplitSdk.Interleaving
import SplitSdk.KeyConsistency

namespace SplitSdk.KeyRotation

open Interleaving OrderedMap TextEncoding JsonText JsonRoundTrip KeyEnvelope KeyStoreCalls
  KeyConsistency

section System

/-- A store with a backend that keeps what is written. For the statements only, `expected`
has what the writes and deletions so far should have left for each id, and `changed`
the calls of which a step has changed a record or the master key. -/
structure State where
  store : SecureKeyStore
  records : OrdMap String String := .empty
  calls : List Call := []
  expected : String → Option Units := fun _ => none
  changed : List Nat := []

inductive Event
  | call (request : Request)
  | fail (i : Nat) (reason : String)
  /-- `ids` is what `listIds` answers, a backend may choose the order. -/
  | perform (i : Nat) (ids : List String)
  | resume (i : Nat) (draw : Draw)

def moveTo (s : State) (i : Nat) (position : Position) : State :=
  { s with calls := s.calls.modify i (fun call => { call with position := position }) }

/-- The backend call of a rotation takes effect. -/
def performRotation (s : State) (i : Nat) (ids : List String) (next : MasterKey) : Phase → Option State
  | .lists => if ids.Perm s.records.keys then some (moveTo s i (.rotates next (.hasListed ids))) else none
  | .reads id ids rewritten =>
      some (moveTo s i (.rotates next (.hasRead id (s.records.get? id) ids rewritten)))
  | .writes written id record rest =>
      some (moveTo { s with records := s.records.set id record } i
        (.rotates next (.hasWritten written id record rest)))
  | _ => none

/-- The backend call that call `i` awaits takes effect. -/
def perform (s : State) (i : Nat) (ids : List String) : Position → Option State
  | .setReads entry plaintext => some (moveTo s i (.setHasRead entry plaintext (s.records.get? entry)))
  | .setWrites entry plaintext record _ =>
      some (moveTo { s with
        records := s.records.set entry record
        expected := Function.update s.expected entry (some plaintext) } i (.settled (.ok none)))
  | .getReads entry => some (moveTo s i (.getHasRead entry (s.records.get? entry)))
  | .deletes entry =>
      some (moveTo { s with
        records := s.records.delete entry
        expected := Function.update s.expected entry none } i (.settled (.ok none)))
  | .rotates next phase => performRotation s i ids next phase
  | _ => none

/-- A rejected backend call has no effect, and the call that awaits it rejects with it. -/
def fail (s : State) (i : Nat) (reason : String) (position : Position) : Option State :=
  if awaitsBackend position then some (moveTo s i (.settled (.error (.backend reason)))) else none

def positionOf (s : State) (i : Nat) : Option Position := (s.calls[i]?).map (·.position)

/-- Note call `i` as one that has changed something. -/
def record (s : State) (i : Nat) (t : State) : State :=
  { t with
    changed :=
      if t.records.entries = s.records.entries ∧ t.store.masterKey = s.store.masterKey then t.changed
      else i :: t.changed }

def step (gcm : Gcm) (s : State) : Event → Option State
  | .call request => some { s with calls := s.calls ++ [⟨request, start s.store request⟩] }
  | .fail i reason => ((positionOf s i).bind (fail s i reason)).map (record s i)
  | .perform i ids => ((positionOf s i).bind (perform s i ids)).map (record s i)
  | .resume i draw =>
      ((positionOf s i).bind (resume gcm s.store draw)).map (fun (store, position) =>
        record s i (moveTo { s with store := store } i position))

end System

section Statement

def phaseOf : Position → Option Phase
  | .rotates _ phase => some phase
  | _ => none

def isCommitting (p : Position) : Bool := (phaseOf p).any committing

/-- What an answer to a call in this position does not disturb. -/
def KeepsPerform (s : State) (i : Nat) : Position → Prop
  | .setWrites entry _ _ key =>
      key = s.store.masterKey ∧
        ∀ call ∈ s.calls, ∀ phase ∈ phaseOf call.position, listed phase →
          entry ∈ unread phase ∧ entry ∉ claimed phase
  | .deletes entry => ∀ call ∈ s.calls, ∀ phase ∈ phaseOf call.position, entry ∉ claimed phase
  | .rotates _ (.writes ..) =>
      ∀ j < s.calls.length, j ≠ i → ∀ q ∈ positionOf s j, isCommitting q = false
  | _ => True

/-- No step tears a rotation: no write of it fails once one has succeeded, no secret is set or
deleted behind its back, and no two rotations rewrite records at the same time. -/
def KeepsRotation (s : State) : Event → Prop
  | .call (.setSecret _ secret) => IsWellFormed secret
  | .fail i _ => ∀ p ∈ positionOf s i, isCommitting p = false
  | .perform i _ => ∀ p ∈ positionOf s i, KeepsPerform s i p
  | _ => True

instance (s : State) (i : Nat) (p : Position) : Decidable (KeepsPerform s i p) :=
  match p with
  | .setWrites .. => inferInstanceAs (Decidable (_ ∧ _))
  | .deletes _ => inferInstanceAs (Decidable (∀ _ ∈ _, _))
  | .rotates _ (.writes ..) => inferInstanceAs (Decidable (∀ j < _, _))
  | .rotates _ .lists | .rotates _ (.hasListed _) | .rotates _ (.reads ..) | .rotates _ (.hasRead ..)
  | .rotates _ (.hasWritten ..) | .settled _ | .setReads .. | .setHasRead .. | .getReads _ | .getHasRead .. =>
      isTrue trivial

instance (s : State) (event : Event) : Decidable (KeepsRotation s event) :=
  match event with
  | .call (.setSecret _ secret) => inferInstanceAs (Decidable (IsWellFormed secret))
  | .fail _ _ | .perform _ _ => inferInstanceAs (Decidable (∀ _ ∈ _, _))
  | .call (.getSecret _) | .call (.deleteSecret _) | .call (.rotateMasterKey _) | .resume .. => isTrue trivial

/-- The state of a store before any call of the run. -/
structure Fresh (gcm : Gcm) (s : State) : Prop where
  calls : s.calls = []
  changed : s.changed = []
  consistent : Consistent gcm s.records s.expected
  allUnder : AllUnder gcm s.store.masterKey s.records s.expected

def AllSettled (s : State) : Prop := ∀ i p, positionOf s i = some p → ∃ outcome, p = .settled outcome

/-- Every id reads back as it should. -/
def ReadsBack (gcm : Gcm) (s : State) : Prop :=
  ∀ id, match s.expected id with
    | some secret => ∃ text, resumeGet gcm s.store id (s.records.get? id) = .ok text ∧ utf16 text = secret
    | none => s.records.get? id = none

/-- A rotation that has thrown has changed no record and no key. -/
def ThrowsChangeNothing (s : State) : Prop :=
  ∀ i ∈ s.changed, ∀ e, positionOf s i ≠ some (.settled (.error e))

def AllOrNothing (gcm : Gcm) (s : State) : Prop :=
  (AllSettled s → ReadsBack gcm s) ∧ ThrowsChangeNothing s

end Statement

end SplitSdk.KeyRotation

namespace SplitSdk.RotationRun

open Interleaving OrderedMap TextEncoding JsonText JsonRoundTrip KeyEnvelope KeyStoreCalls
  KeyConsistency KeyRotation

section Invariant

variable {gcm : Gcm} {s t : State} {i : Nat} {p q : Position}

def OneCommits (s : State) : Prop :=
  ∀ i j p q, positionOf s i = some p → positionOf s j = some q → isCommitting p → isCommitting q → i = j

def NoneCommits (s : State) : Prop := ∀ i p, positionOf s i = some p → isCommitting p = false

structure Inv (gcm : Gcm) (s : State) : Prop where
  consistent : Consistent gcm s.records s.expected
  positions : ∀ i p, positionOf s i = some p → PositionInv gcm s.records s.expected p
  quiet : NoneCommits s → AllUnder gcm s.store.masterKey s.records s.expected
  one : OneCommits s

theorem positionOf_moveTo (s : State) (i j : Nat) (q : Position) :
    positionOf (moveTo s i q) j = if i = j then (positionOf s j).map (fun _ => q) else positionOf s j := by
  rw [positionOf, moveTo, List.getElem?_modify]
  split_ifs with h
  · cases hc : s.calls[j]? <;> simp [positionOf, hc]
  · cases hc : s.calls[j]? <;> simp [positionOf, hc]

theorem positionOf_moveTo_self (h : positionOf s i = some p) (q : Position) :
    positionOf (moveTo s i q) i = some q := by
  rw [positionOf_moveTo, if_pos rfl, h, Option.map_some]

theorem positionOf_moveTo_ne {j : Nat} (h : j ≠ i) (q : Position) :
    positionOf (moveTo s i q) j = positionOf s j := by
  rw [positionOf_moveTo, if_neg (Ne.symm h)]

theorem lt_of_positionOf (h : positionOf s i = some p) : i < s.calls.length := by
  obtain ⟨call, hcall, _⟩ := Option.map_eq_some_iff.mp h
  exact (List.getElem?_eq_some_iff.mp hcall).1

theorem positionOf_append (h : i < s.calls.length) (call : Call) :
    positionOf { s with calls := s.calls ++ [call] } i = positionOf s i := by
  rw [positionOf, List.getElem?_append_left h, positionOf]

/-- What holds of the phases of all rotations. -/
theorem of_rotation {P : Phase → Prop} (hall : ∀ call ∈ s.calls, ∀ phase ∈ phaseOf call.position, P phase)
    {next : MasterKey} {phase : Phase} (h : positionOf s i = some (.rotates next phase)) : P phase := by
  obtain ⟨call, hcall, hposition⟩ := Option.map_eq_some_iff.mp h
  exact hall call (List.mem_of_getElem? hcall) phase (by rw [hposition, phaseOf, Option.mem_some])

theorem positions_moveTo {records : OrdMap String String} {expected : String → Option Units}
    (h : positionOf s i = some p) (hself : PositionInv gcm records expected q)
    (hothers : ∀ j r, j ≠ i → positionOf s j = some r → PositionInv gcm records expected r) :
    ∀ j r, positionOf (moveTo s i q) j = some r → PositionInv gcm records expected r := by
  intro j r hr
  by_cases hj : j = i
  · subst hj
    rw [positionOf_moveTo_self h] at hr
    cases hr
    exact hself
  · rw [positionOf_moveTo_ne hj] at hr
    exact hothers j r hj hr

theorem record_inv (h : Inv gcm t) : Inv gcm (record s i t) := by
  unfold record
  split_ifs
  · exact h
  · exact ⟨h.consistent, h.positions, h.quiet, h.one⟩

theorem oneCommits_moveTo (hone : OneCommits s) (h : positionOf s i = some p)
    (hq : isCommitting q → ∀ j r, j ≠ i → positionOf s j = some r → isCommitting r = false) :
    OneCommits (moveTo s i q) := by
  intro j k r u hr hu hcr hcu
  by_cases hj : j = i <;> by_cases hk : k = i
  · rw [hj, hk]
  · subst hj
    rw [positionOf_moveTo_self h] at hr
    rw [positionOf_moveTo_ne hk] at hu
    cases hr
    exact absurd hcu (Bool.not_eq_true _ ▸ hq hcr k u hk hu)
  · subst hk
    rw [positionOf_moveTo_self h] at hu
    rw [positionOf_moveTo_ne hj] at hr
    cases hu
    exact absurd hcr (Bool.not_eq_true _ ▸ hq hcu j r hj hr)
  · rw [positionOf_moveTo_ne hj] at hr
    rw [positionOf_moveTo_ne hk] at hu
    exact hone j k r u hr hu hcr hcu

theorem noneCommits_of_moveTo (h : positionOf s i = some p) (hp : isCommitting p = false)
    (hnone : NoneCommits (moveTo s i q)) : NoneCommits s := by
  intro j r hr
  by_cases hj : j = i
  · subst hj
    rw [h] at hr
    cases hr
    exact hp
  · exact hnone j r ((positionOf_moveTo_ne hj q).trans hr)

/-- A step that changes no data and neither begins nor ends a rewriting. -/
theorem moveTo_inv (hi : Inv gcm s) (h : positionOf s i = some p)
    (hq : PositionInv gcm s.records s.expected q) (hc : isCommitting q = isCommitting p) :
    Inv gcm (moveTo s i q) := by
  constructor
  · exact hi.consistent
  · exact positions_moveTo h hq (fun j r _ hr => hi.positions j r hr)
  · intro hnone
    have hp : isCommitting p = false := hc ▸ hnone i q (positionOf_moveTo_self h q)
    exact hi.quiet (noneCommits_of_moveTo h hp hnone)
  · apply oneCommits_moveTo hi.one h
    intro hcq j r hj hr
    cases hr' : isCommitting r with
    | false => rfl
    | true => exact absurd (hi.one j i r p hr h hr' (hc ▸ hcq)) hj

theorem settle_inv (hi : Inv gcm s) (h : positionOf s i = some p) (hp : isCommitting p = false)
    (outcome : Except Error (Option String)) : Inv gcm (moveTo s i (.settled outcome)) :=
  moveTo_inv hi h trivial hp.symm

/-- The keys are swapped when every record is sealed under the next one. -/
theorem swap_inv (hi : Inv gcm s) (h : positionOf s i = some p) {next : MasterKey}
    (hall : AllUnder gcm next s.records s.expected) :
    Inv gcm (moveTo { s with store := { s.store with masterKey := next } } i (.settled (.ok none))) := by
  constructor
  · exact hi.consistent
  · exact positions_moveTo (by exact h) trivial (fun j r _ hr => hi.positions j r hr)
  · intro _
    exact hall
  · exact oneCommits_moveTo (by exact hi.one) (by exact h) nofun

end Invariant

section Steps

variable {gcm : Gcm} {s : State} {i : Nat} {p : Position} {next : MasterKey}

theorem set_inv (hi : Inv gcm s) {entry record : String} {plaintext : Units} {key : MasterKey}
    (h : positionOf s i = some (.setWrites entry plaintext record key))
    (hkey : key = s.store.masterKey)
    (hfree : ∀ j next phase, positionOf s j = some (.rotates next phase) → listed phase →
      entry ∈ unread phase ∧ entry ∉ claimed phase) :
    Inv gcm (moveTo { s with
      records := s.records.set entry record
      expected := Function.update s.expected entry (some plaintext) } i (.settled (.ok none))) := by
  subst hkey
  obtain ⟨hw, hs⟩ := hi.positions i _ h
  have hnone : NoneCommits s := by
    intro j r hr
    cases r with
    | rotates next phase =>
        cases hc : committing phase with
        | false => exact hc
        | true =>
            have hlisted : listed phase := by cases phase <;> first | rfl | cases hc
            have hunread := (hfree j next phase hr hlisted).1
            rw [committing_unread hc] at hunread
            cases hunread
    | _ => rfl
  constructor
  · exact hi.consistent.set hw hs
  · refine positions_moveTo (by exact h) ?_ ?_
    · trivial
    · intro j r _ hr
      cases r with
      | rotates next phase => exact (hi.positions j _ hr).set record plaintext (hfree j next phase hr)
      | _ => exact hi.positions j _ hr
  · intro _ id raw secret hraw hsecret
    simp only [moveTo, OrdMap.get?_set, Function.update_apply] at hraw hsecret
    split_ifs at hraw hsecret with he
    · cases hraw
      cases hsecret
      exact hs
    · exact hi.quiet hnone id raw secret hraw hsecret
  · exact oneCommits_moveTo (by exact hi.one) (by exact h) (fun hcommits => by cases hcommits)

theorem delete_inv (hi : Inv gcm s) {entry : String} (h : positionOf s i = some (.deletes entry))
    (hfree : ∀ j next phase, positionOf s j = some (.rotates next phase) → entry ∉ claimed phase) :
    Inv gcm (moveTo { s with
      records := s.records.delete entry
      expected := Function.update s.expected entry none } i (.settled (.ok none))) := by
  constructor
  · exact hi.consistent.delete entry
  · refine positions_moveTo (by exact h) ?_ ?_
    · trivial
    · intro j r _ hr
      cases r with
      | rotates next phase => exact (hi.positions j _ hr).delete (hfree j next phase hr)
      | _ => exact hi.positions j _ hr
  · intro hnone id raw secret hraw hsecret
    simp only [moveTo, OrdMap.get?_delete, Function.update_apply] at hraw hsecret
    split_ifs at hraw hsecret with he
    exact hi.quiet (noneCommits_of_moveTo (by exact h) rfl hnone) id raw secret hraw hsecret
  · exact oneCommits_moveTo (by exact hi.one) (by exact h) (fun hcommits => by cases hcommits)

theorem write_inv (hi : Inv gcm s) {written rest : List (String × String)} {id record : String}
    (h : positionOf s i = some (.rotates next (.writes written id record rest)))
    (halone : ∀ j q, j ≠ i → positionOf s j = some q → isCommitting q = false) :
    Inv gcm (moveTo { s with records := s.records.set id record } i
      (.rotates next (.hasWritten written id record rest))) := by
  have hphase : PhaseInv gcm s.records s.expected next (.writes written id record rest) :=
    hi.positions i _ h
  obtain ⟨secret, hsecret, hsealed⟩ := hphase.copies (id, record) List.mem_cons_self
  have hhas : s.records.has id := (hi.consistent.has_iff id).mpr ⟨secret, hsecret⟩
  constructor
  · have hsame : Function.update s.expected id (some secret) = s.expected :=
      Function.update_eq_self_iff.mpr hsecret.symm
    have hset : Consistent gcm (s.records.set id record) (Function.update s.expected id (some secret)) :=
      hi.consistent.set (hi.consistent.wellFormed id secret hsecret) hsealed
    exact hsame ▸ hset
  · refine positions_moveTo (by exact h) ?_ ?_
    · refine ⟨fun item hitem => hphase.copies item (List.mem_cons_of_mem _ hitem), nofun, nofun, ?_⟩
      intro _ k raw other hraw hother hk
      simp only [moveTo, OrdMap.get?_set] at hraw
      split_ifs at hraw with he
      · subst he
        cases hraw
        obtain rfl : secret = other := Option.some.inj (hsecret.symm.trans hother)
        exact hsealed
      · have hclaimed : k ∉ claimed (.writes written id record rest) := by
          intro hmem
          rcases List.mem_cons.mp hmem with hk' | hk'
          · exact he hk'
          · exact hk hk'
        cases hc : committing (.writes written id record rest) with
        | true => exact hphase.rewritten hc k raw other hraw hother hclaimed
        | false =>
            -- the first write: the rotation holds the records of all ids
            have hhas := (hi.consistent.has_iff k).mpr ⟨other, hother⟩
            rcases hphase.covered rfl hc k hhas with hk' | hk'
            · exact absurd hk' hclaimed
            · cases hk'
    · intro j r hj hr
      cases r with
      | rotates next' phase => exact (hi.positions j _ hr).rewrite (halone j _ hj hr) record hhas
      | _ => exact hi.positions j _ hr
  · intro hnone
    cases hnone i _ (positionOf_moveTo_self (by exact h) _)
  · exact oneCommits_moveTo (by exact hi.one) (by exact h) (fun _ => halone)

/-- A rotation that has read the records of the `rewritten` ids and has those of `ids` still to read. -/
theorem readNext_inv (hi : Inv gcm s) (h : positionOf s i = some p) (hp : isCommitting p = false)
    {rewritten : List (String × String)} {ids : List String}
    (hcopies : ∀ item ∈ rewritten, ∃ secret, s.expected item.1 = some secret ∧ Sealed gcm item.2 next secret)
    (hcovered : ∀ id, s.records.has id → id ∈ rewritten.map Prod.fst ∨ id ∈ ids) :
    Inv gcm (moveTo { s with store := (readNext s.store next rewritten ids).1 } i
      (readNext s.store next rewritten ids).2) := by
  cases ids with
  | cons id ids =>
      refine moveTo_inv hi h ?_ hp.symm
      exact ⟨hcopies, nofun, fun _ _ k hk => hcovered k hk, nofun⟩
  | nil =>
      cases rewritten with
      | nil =>
          refine swap_inv hi h ?_
          intro id raw secret _ hsecret
          rcases hcovered id ((hi.consistent.has_iff id).mpr ⟨secret, hsecret⟩) with hid | hid <;> cases hid
      | cons item rest =>
          refine moveTo_inv hi h ?_ hp.symm
          exact ⟨hcopies, nofun, fun _ _ k hk => hcovered k hk, nofun⟩

theorem commit_inv (hi : Inv gcm s) {written rest : List (String × String)} {id record : String}
    (h : positionOf s i = some (.rotates next (.hasWritten written id record rest))) :
    Inv gcm (moveTo { s with store := (commit s.store next (written ++ [(id, record)]) rest).1 } i
      (commit s.store next (written ++ [(id, record)]) rest).2) := by
  have hphase : PhaseInv gcm s.records s.expected next (.hasWritten written id record rest) :=
    hi.positions i _ h
  cases rest with
  | nil =>
      refine swap_inv hi h ?_
      intro k raw secret hraw hsecret
      exact hphase.rewritten rfl k raw secret hraw hsecret List.not_mem_nil
  | cons item rest =>
      have hcommitting : committing (.writes (written ++ [(id, record)]) item.1 item.2 rest) = true := by
        simp [committing]
      refine moveTo_inv hi h ?_ hcommitting
      refine ⟨hphase.copies, nofun, ?_, fun _ => hphase.rewritten rfl⟩
      intro _ hc
      rw [hcommitting] at hc
      cases hc

theorem reseal_spec (lawful : gcm.Lawful) (bound : gcm.KeyBound) (hi : Inv gcm s) {draw : Draw}
    {id raw : String} {key : MasterKey} {secret : Units} {item : String × String}
    (hsecret : s.expected id = some secret) (hsealed : Sealed gcm raw key secret)
    (h : reseal gcm s.store draw next id raw = .ok item) :
    item.1 = id ∧ Sealed gcm item.2 next secret := by
  obtain ⟨record, hrecord, hexact⟩ := hsealed.createdAt id
  rw [reseal, hrecord] at h
  cases hopen : openRecord gcm raw id s.store.masterKey with
  | error e =>
      rw [hopen] at h
      cases h
  | ok text =>
      rw [hopen] at h
      obtain rfl := hsealed.eq_of_openRecord lawful bound hopen
      cases h
      refine ⟨rfl, record.createdAt, draw.iv, draw.later, hexact, ?_⟩
      rw [hi.consistent.wellFormed id secret hsecret]

theorem call_inv (hi : Inv gcm s) (request : Request)
    (hw : ∀ id secret, request = .setSecret id secret → IsWellFormed secret) :
    Inv gcm { s with calls := s.calls ++ [⟨request, start s.store request⟩] } := by
  have hnew : PositionInv gcm s.records s.expected (start s.store request) ∧
      isCommitting (start s.store request) = false := by
    rcases start_cases s.store request with ⟨e, h⟩ | ⟨id, secret, entry, hr, _, h⟩ | ⟨id, entry, _, _, h⟩ |
      ⟨id, entry, _, _, h⟩ | ⟨key, next, _, _, h⟩ <;> rw [h]
    · exact ⟨trivial, rfl⟩
    · exact ⟨hw id secret hr, rfl⟩
    · exact ⟨trivial, rfl⟩
    · exact ⟨trivial, rfl⟩
    · exact ⟨⟨nofun, nofun, nofun, nofun⟩, rfl⟩
  have hold : ∀ j r, positionOf { s with calls := s.calls ++ [⟨request, start s.store request⟩] } j = some r →
      positionOf s j = some r ∨ r = start s.store request := by
    intro j r hr
    simp only [positionOf, List.getElem?_append] at hr ⊢
    split_ifs at hr with hj
    · exact .inl hr
    · obtain ⟨call, hcall, rfl⟩ := Option.map_eq_some_iff.mp hr
      exact .inr (congrArg Call.position (List.mem_singleton.mp (List.mem_of_getElem? hcall)))
  constructor
  · exact hi.consistent
  · intro j r hr
    rcases hold j r hr with hr | rfl
    · exact hi.positions j r hr
    · exact hnew.1
  · intro hnone
    apply hi.quiet
    intro j r hr
    exact hnone j r ((positionOf_append (lt_of_positionOf hr) _).trans hr)
  · intro j k r u hr hu hcr hcu
    rcases hold j r hr with hr | rfl
    · rcases hold k u hu with hu | rfl
      · exact hi.one j k r u hr hu hcr hcu
      · rw [hnew.2] at hcu
        cases hcu
    · rw [hnew.2] at hcr
      cases hcr

theorem performRotation_inv (hi : Inv gcm s) {t : State} {ids : List String} {phase : Phase}
    (h : positionOf s i = some (.rotates next phase)) (hok : KeepsRotation s (.perform i ids))
    (ht : performRotation s i ids next phase = some t) : Inv gcm t := by
  have hphase : PhaseInv gcm s.records s.expected next phase := hi.positions i _ h
  cases phase with
  | lists =>
      rw [performRotation] at ht
      split_ifs at ht with hperm
      cases ht
      refine moveTo_inv hi h ⟨by simp [copies], by simp [inHand], ?_, by simp [committing]⟩ rfl
      intro _ _ id hid
      exact .inr (hperm.mem_iff.mpr ((OrdMap.has_iff s.records id).mp hid))
  | reads id ids rewritten =>
      cases ht
      refine moveTo_inv hi h ?_ rfl
      cases hraw : s.records.get? id with
      | none =>
          refine ⟨hphase.copies, by simp [inHand], ?_, by simp [committing]⟩
          intro _ _ k hk
          rcases hphase.covered rfl rfl k hk with hclaimed | hunread
          · exact .inl hclaimed
          · rcases List.mem_cons.mp hunread with rfl | hunread
            · rw [OrdMap.has, hraw] at hk
              cases hk
            · exact .inr hunread
      | some raw =>
          refine ⟨hphase.copies, ?_, ?_, by simp [committing]⟩
          · intro item hitem
            cases hitem
            have hhas : s.records.has id := by
              rw [OrdMap.has, hraw]
              rfl
            obtain ⟨secret, hsecret⟩ := (hi.consistent.has_iff id).mp hhas
            obtain ⟨key, hsealed⟩ := hi.consistent.isSealed id raw secret hraw hsecret
            exact ⟨key, secret, hsecret, hsealed⟩
          · intro _ _ k hk
            rcases hphase.covered rfl rfl k hk with hclaimed | hunread
            · exact .inl (List.mem_cons_of_mem _ hclaimed)
            · rcases List.mem_cons.mp hunread with rfl | hunread
              · exact .inl List.mem_cons_self
              · exact .inr hunread
  | writes written id record rest =>
      cases ht
      exact write_inv hi h (fun j q hj hq => hok _ h j (lt_of_positionOf hq) hj q hq)
  | hasListed | hasRead | hasWritten => cases ht

theorem perform_inv (hi : Inv gcm s) {t : State} {ids : List String} (h : positionOf s i = some p)
    (hok : KeepsRotation s (.perform i ids)) (ht : perform s i ids p = some t) : Inv gcm t := by
  cases p with
  | setReads entry plaintext =>
      cases ht
      refine moveTo_inv hi h ⟨hi.positions i _ h, ?_⟩ rfl
      intro raw hraw
      have hhas : s.records.has entry := by
        rw [OrdMap.has, Option.mem_def.mp hraw]
        rfl
      obtain ⟨secret, hsecret⟩ := (hi.consistent.has_iff entry).mp hhas
      obtain ⟨key, hsealed⟩ := hi.consistent.isSealed entry raw secret hraw hsecret
      exact ⟨key, secret, hsealed⟩
  | setWrites entry plaintext record key =>
      cases ht
      obtain ⟨hkey, hfree⟩ := hok _ h
      exact set_inv hi h hkey (fun j next phase hj => of_rotation hfree hj)
  | getReads entry =>
      cases ht
      exact moveTo_inv hi h trivial rfl
  | deletes entry =>
      cases ht
      exact delete_inv hi h (fun j next phase hj => of_rotation (hok _ h) hj)
  | rotates next phase => exact performRotation_inv hi h hok ht
  | settled | setHasRead | getHasRead => cases ht

theorem resumeSet_spec (hi : Inv gcm s) (draw : Draw) {entry : String} {plaintext : Units}
    {existing : Option String} (h : positionOf s i = some (.setHasRead entry plaintext existing)) :
    PositionInv gcm s.records s.expected (resumeSet gcm s.store draw entry plaintext existing) ∧
      isCommitting (resumeSet gcm s.store draw entry plaintext existing) = false := by
  obtain ⟨hw, hexisting⟩ := hi.positions i _ h
  cases existing with
  | none => exact ⟨⟨hw, draw.now.number, draw.iv, draw.later, draw.now.exact, rfl⟩, rfl⟩
  | some raw =>
      obtain ⟨key, secret, hsealed⟩ := hexisting raw rfl
      obtain ⟨record, hrecord, hexact⟩ := hsealed.createdAt entry
      rw [resumeSet, createdAt, hrecord]
      exact ⟨⟨hw, record.createdAt, draw.iv, draw.later, hexact, rfl⟩, rfl⟩

theorem resume_inv (lawful : gcm.Lawful) (bound : gcm.KeyBound) (hi : Inv gcm s) (draw : Draw)
    (h : positionOf s i = some p) {result : SecureKeyStore × Position}
    (ht : resume gcm s.store draw p = some result) :
    Inv gcm (moveTo { s with store := result.1 } i result.2) := by
  cases p with
  | setHasRead entry plaintext existing =>
      cases ht
      obtain ⟨hposition, hc⟩ := resumeSet_spec hi draw h
      exact moveTo_inv hi h hposition hc
  | getHasRead entry record =>
      cases ht
      exact settle_inv hi h rfl _
  | rotates next phase =>
      have hphase : PhaseInv gcm s.records s.expected next phase := hi.positions i _ h
      cases phase with
      | hasListed ids =>
          cases ht
          exact readNext_inv hi h rfl nofun (hphase.covered rfl rfl)
      | hasRead id raw ids rewritten =>
          cases raw with
          | none =>
              cases ht
              exact readNext_inv hi h rfl hphase.copies (hphase.covered rfl rfl)
          | some raw =>
              obtain ⟨key, secret, hsecret, hsealed⟩ := hphase.inHand (id, raw) rfl
              rw [resume, resumeRotation] at ht
              cases hitem : reseal gcm s.store draw next id raw with
              | error e =>
                  rw [hitem] at ht
                  cases ht
                  exact settle_inv hi h rfl _
              | ok item =>
                  rw [hitem] at ht
                  cases ht
                  obtain ⟨hid, hcopy⟩ := reseal_spec lawful bound hi hsecret hsealed hitem
                  refine readNext_inv hi h rfl ?_ ?_
                  · intro other hother
                    rcases List.mem_append.mp hother with hother | hother
                    · exact hphase.copies other hother
                    · obtain rfl := List.mem_singleton.mp hother
                      exact ⟨secret, hid ▸ hsecret, hcopy⟩
                  · intro k hk
                    rw [List.map_append, List.mem_append]
                    rcases hphase.covered rfl rfl k hk with hclaimed | hunread
                    · rcases List.mem_cons.mp hclaimed with rfl | hclaimed
                      · exact .inl (.inr (List.mem_singleton.mpr hid.symm))
                      · exact .inl (.inl hclaimed)
                    · exact .inr hunread
      | hasWritten written id record rest =>
          cases ht
          exact commit_inv hi h
      | lists | reads | writes => cases ht
  | settled | setReads | setWrites | getReads | deletes => cases ht

theorem step_inv (lawful : gcm.Lawful) (bound : gcm.KeyBound) (s : State) (event : Event) (t : State)
    (hi : Inv gcm s) (hok : KeepsRotation s event) (hstep : step gcm s event = some t) : Inv gcm t := by
  cases event with
  | call request =>
      cases hstep
      refine call_inv hi request ?_
      rintro id secret rfl
      exact hok
  | fail i reason =>
      obtain ⟨u, hu, rfl⟩ := Option.map_eq_some_iff.mp hstep
      obtain ⟨p, h, hu⟩ := Option.bind_eq_some_iff.mp hu
      rw [fail] at hu
      split_ifs at hu
      cases hu
      exact record_inv (settle_inv hi h (hok p h) _)
  | perform i ids =>
      obtain ⟨u, hu, rfl⟩ := Option.map_eq_some_iff.mp hstep
      obtain ⟨p, h, hu⟩ := Option.bind_eq_some_iff.mp hu
      exact record_inv (perform_inv hi h hok hu)
  | resume i draw =>
      obtain ⟨result, hu, rfl⟩ := Option.map_eq_some_iff.mp hstep
      obtain ⟨p, h, hu⟩ := Option.bind_eq_some_iff.mp hu
      exact record_inv (resume_inv lawful bound hi draw h hu)

end Steps

end SplitSdk.RotationRun
