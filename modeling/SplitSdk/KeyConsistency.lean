import SplitSdk.KeyStoreCalls
import SplitSdk.OrderedMap

namespace SplitSdk.KeyConsistency

open OrderedMap TextEncoding JsonText JsonRoundTrip KeyEnvelope KeyStoreCalls

section Phases

/-- The records sealed under the next key that a rotation has still to write. -/
def copies : Phase → List (String × String)
  | .reads _ _ rewritten | .hasRead _ _ _ rewritten => rewritten
  | .writes _ id record rest => (id, record) :: rest
  | .hasWritten _ _ _ rest => rest
  | .lists | .hasListed _ => []

/-- The record that a rotation has read and not yet opened. -/
def inHand : Phase → Option (String × String)
  | .hasRead id (some raw) _ _ => some (id, raw)
  | _ => none

/-- The ids of which a rotation has read the record and not yet written the new one. -/
def claimed (phase : Phase) : List String :=
  (inHand phase).toList.map Prod.fst ++ (copies phase).map Prod.fst

/-- The ids that a rotation has still to read. -/
def unread : Phase → List String
  | .hasListed ids => ids
  | .reads id ids _ => id :: ids
  | .hasRead _ _ ids _ => ids
  | _ => []

def listed : Phase → Bool
  | .lists => false
  | _ => true

/-- Some of the records are rewritten and the keys are not yet swapped. -/
def committing : Phase → Bool
  | .writes written _ _ _ => !written.isEmpty
  | .hasWritten .. => true
  | _ => false

end Phases

section Records

variable (gcm : Gcm)

def Sealed (raw : String) (key : MasterKey) (secret : Units) : Prop :=
  ∃ createdAt iv updatedAt, Exact (.number createdAt) ∧
    raw = sealRecord gcm secret createdAt key iv updatedAt

/-- The backend has a record for exactly the ids that should have one, sealed under some key. -/
structure Consistent (records : OrdMap String String) (expected : String → Option Units) : Prop where
  wellFormed : ∀ id secret, expected id = some secret → IsWellFormed secret
  absent : ∀ id, records.get? id = none ↔ expected id = none
  isSealed : ∀ id raw secret, records.get? id = some raw → expected id = some secret →
    ∃ key, Sealed gcm raw key secret

/-- Every record is sealed under `key` with what it should hold. -/
def AllUnder (key : MasterKey) (records : OrdMap String String) (expected : String → Option Units) : Prop :=
  ∀ id raw secret, records.get? id = some raw → expected id = some secret → Sealed gcm raw key secret

structure PhaseInv (records : OrdMap String String) (expected : String → Option Units)
    (next : MasterKey) (phase : Phase) : Prop where
  copies : ∀ item ∈ copies phase, ∃ secret, expected item.1 = some secret ∧ Sealed gcm item.2 next secret
  inHand : ∀ item ∈ inHand phase, ∃ key secret, expected item.1 = some secret ∧ Sealed gcm item.2 key secret
  covered : listed phase → committing phase = false → ∀ id, records.has id →
    id ∈ claimed phase ∨ id ∈ unread phase
  rewritten : committing phase → ∀ id raw secret, records.get? id = some raw →
    expected id = some secret → id ∉ claimed phase → Sealed gcm raw next secret

def PositionInv (records : OrdMap String String) (expected : String → Option Units) : Position → Prop
  | .setReads _ plaintext => IsWellFormed plaintext
  | .setHasRead _ plaintext existing =>
      IsWellFormed plaintext ∧ ∀ raw ∈ existing, ∃ key secret, Sealed gcm raw key secret
  | .setWrites _ plaintext record key => IsWellFormed plaintext ∧ Sealed gcm record key plaintext
  | .rotates next phase => PhaseInv gcm records expected next phase
  | _ => True

end Records

section Frames

variable {gcm : Gcm} {records : OrdMap String String} {expected : String → Option Units}

theorem Sealed.openRecord {raw id : String} {key : MasterKey} {secret : Units} (lawful : gcm.Lawful)
    (h : Sealed gcm raw key secret) : openRecord gcm raw id key = .ok (toWellFormed secret) := by
  obtain ⟨createdAt, iv, updatedAt, hexact, rfl⟩ := h
  exact openRecord_sealRecord secret key iv updatedAt lawful id hexact

theorem Sealed.eq_of_openRecord {raw id text : String} {key other : MasterKey} {secret : Units}
    (lawful : gcm.Lawful) (bound : gcm.KeyBound) (h : Sealed gcm raw key secret)
    (hopen : KeyEnvelope.openRecord gcm raw id other = .ok text) : text = toWellFormed secret := by
  obtain ⟨createdAt, iv, updatedAt, hexact, rfl⟩ := h
  obtain rfl := eq_of_openRecord_sealRecord secret key iv updatedAt lawful bound hexact hopen
  rw [openRecord_sealRecord secret other iv updatedAt lawful id hexact] at hopen
  exact (Except.ok.inj hopen).symm

theorem Sealed.createdAt {raw : String} {key : MasterKey} {secret : Units}
    (h : Sealed gcm raw key secret) (id : String) :
    ∃ record, parseRecord raw id = .ok record ∧ Exact (.number record.createdAt) := by
  obtain ⟨createdAt, iv, updatedAt, hexact, rfl⟩ := h
  exact ⟨_, parseRecord_sealRecord secret key iv updatedAt id hexact, hexact⟩

theorem Consistent.has_iff (h : Consistent gcm records expected) (id : String) :
    records.has id ↔ ∃ secret, expected id = some secret := by
  rw [OrdMap.has, Option.isSome_iff_ne_none, Ne, h.absent, ← Ne, Option.ne_none_iff_exists']

theorem Consistent.set (h : Consistent gcm records expected) {entry raw : String} {key : MasterKey}
    {secret : Units} (hw : IsWellFormed secret) (hs : Sealed gcm raw key secret) :
    Consistent gcm (records.set entry raw) (Function.update expected entry (some secret)) := by
  constructor
  · intro id other hid
    rw [Function.update_apply] at hid
    split_ifs at hid with he
    · cases hid
      exact hw
    · exact h.wellFormed id other hid
  · intro id
    rw [OrdMap.get?_set, Function.update_apply]
    split_ifs with he
    · simp
    · exact h.absent id
  · intro id x other hx hid
    rw [OrdMap.get?_set] at hx
    rw [Function.update_apply] at hid
    split_ifs at hx hid with he
    · cases hx
      cases hid
      exact ⟨key, hs⟩
    · exact h.isSealed id x other hx hid

theorem Consistent.delete (h : Consistent gcm records expected) (entry : String) :
    Consistent gcm (records.delete entry) (Function.update expected entry none) := by
  constructor
  · intro id other hid
    rw [Function.update_apply] at hid
    split_ifs at hid with he
    exact h.wellFormed id other hid
  · intro id
    rw [OrdMap.get?_delete, Function.update_apply]
    split_ifs with he
    · simp
    · exact h.absent id
  · intro id x other hx hid
    rw [OrdMap.get?_delete] at hx
    rw [Function.update_apply] at hid
    split_ifs at hx hid with he
    exact h.isSealed id x other hx hid

variable {next : MasterKey} {phase : Phase} {entry : String}

theorem ne_of_mem_copies (hentry : entry ∉ claimed phase) {item : String × String}
    (h : item ∈ copies phase) : item.1 ≠ entry := by
  rintro rfl
  exact hentry (List.mem_append_right _ (List.mem_map_of_mem h))

theorem ne_of_mem_inHand (hentry : entry ∉ claimed phase) {item : String × String}
    (h : item ∈ inHand phase) : item.1 ≠ entry := by
  rintro rfl
  exact hentry (List.mem_append_left _ (List.mem_map_of_mem (Option.mem_toList.mpr h)))

theorem committing_unread (h : committing phase) : unread phase = [] := by
  cases phase <;> first | rfl | cases h

theorem copies_update (h : PhaseInv gcm records expected next phase) (hentry : entry ∉ claimed phase)
    (secret : Option Units) : ∀ item ∈ copies phase, ∃ held,
      Function.update expected entry secret item.1 = some held ∧ Sealed gcm item.2 next held := by
  intro item hitem
  rw [Function.update_of_ne (ne_of_mem_copies hentry hitem)]
  exact h.copies item hitem

theorem inHand_update (h : PhaseInv gcm records expected next phase) (hentry : entry ∉ claimed phase)
    (secret : Option Units) : ∀ item ∈ inHand phase, ∃ key held,
      Function.update expected entry secret item.1 = some held ∧ Sealed gcm item.2 key held := by
  intro item hitem
  rw [Function.update_of_ne (ne_of_mem_inHand hentry hitem)]
  exact h.inHand item hitem

/-- What a rotation holds is not disturbed by a new record for an id that it has still to read. -/
theorem PhaseInv.set (h : PhaseInv gcm records expected next phase) (raw : String) (secret : Units)
    (hfree : listed phase → entry ∈ unread phase ∧ entry ∉ claimed phase) :
    PhaseInv gcm (records.set entry raw) (Function.update expected entry (some secret)) next phase := by
  cases hlisted : listed phase with
  | false =>
      -- a rotation that has not listed the ids holds nothing yet
      cases phase <;> cases hlisted
      exact ⟨nofun, nofun, nofun, nofun⟩
  | true =>
      obtain ⟨hunread, hentry⟩ := hfree hlisted
      refine ⟨copies_update h hentry _, inHand_update h hentry _, ?_, ?_⟩
      · intro _ hc id hid
        by_cases he : id = entry
        · exact .inr (he ▸ hunread)
        · rw [OrdMap.has, OrdMap.get?_set, if_neg he] at hid
          exact h.covered hlisted hc id hid
      · intro hc
        rw [committing_unread hc] at hunread
        cases hunread

theorem PhaseInv.delete (h : PhaseInv gcm records expected next phase) (hentry : entry ∉ claimed phase) :
    PhaseInv gcm (records.delete entry) (Function.update expected entry none) next phase := by
  refine ⟨copies_update h hentry _, inHand_update h hentry _, ?_, ?_⟩
  · intro hlisted hc id hid
    rw [OrdMap.has, OrdMap.get?_delete] at hid
    split_ifs at hid with he
    · cases hid
    · exact h.covered hlisted hc id hid
  · intro hc id raw secret hraw hsecret hid
    rw [OrdMap.get?_delete] at hraw
    rw [Function.update_apply] at hsecret
    split_ifs at hraw hsecret
    exact h.rewritten hc id raw secret hraw hsecret hid

/-- The write of another rotation replaces a record, which a rotation that has written none does not mind. -/
theorem PhaseInv.rewrite (h : PhaseInv gcm records expected next phase) (hc : committing phase = false)
    (raw : String) (hentry : records.has entry) :
    PhaseInv gcm (records.set entry raw) expected next phase := by
  constructor
  · exact h.copies
  · exact h.inHand
  · intro hlisted _ id hid
    apply h.covered hlisted hc id
    rw [OrdMap.has, OrdMap.get?_set] at hid
    split_ifs at hid with he
    · exact he ▸ hentry
    · exact hid
  · intro hc'
    rw [hc] at hc'
    cases hc'

end Frames

end SplitSdk.KeyConsistency
