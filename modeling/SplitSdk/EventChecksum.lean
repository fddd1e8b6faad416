import SplitSdk.Fallible
import SplitSdk.HashChains
import SplitSdk.InvoiceDiff
import SplitSdk.MerkleSoundness
import SplitSdk.TextEncoding
import Mathlib.Data.List.Sort

namespace SplitSdk.EventChecksum

open Fallible HashChains JsonText Merkle MerkleSoundness
open InvoiceDiff (Value)
open Numbers (JsNumber)

section Serialisation

inductive ContractEventType
  | created
  | payment
  | released
  | refunded
  deriving DecidableEq

def ContractEventType.name : ContractEventType → String
  | .created => "created"
  | .payment => "payment"
  | .released => "released"
  | .refunded => "refunded"

structure ContractEvent where
  type : ContractEventType
  invoiceId : String
  data : Value
  ledger : JsNumber
  timestamp : JsNumber

/-- The number of a key that an object enumerates as an array index, before its other keys. -/
def arrayIndex (key : String) : Option Nat :=
  (Numbers.readDigits key.toList).filter (fun n => toString n = key && n < 2 ^ 32 - 1)

/-- The order in which an object enumerates keys that were set in the order of `Object.keys(obj).sort()`. -/
def sortEntries (entries : List (String × Json)) : List (String × Json) :=
  (entries.filter (fun entry => (arrayIndex entry.1).isSome)).insertionSort (fun a b =>
      (arrayIndex a.1).getD 0 ≤ (arrayIndex b.1).getD 0) ++
    (entries.filter (fun entry => (arrayIndex entry.1).isNone)).insertionSort (fun a b =>
      TextEncoding.utf16 a.1 ≤ TextEncoding.utf16 b.1)

mutual

/-- What `JSON.stringify` writes with the sorted replacer. A property `__proto__` is lost, as to set it sets no key. -/
def canonical : Value → Except String (Option Json)
  | .undefined => .ok none
  | .null => .ok (some .null)
  | .bool b => .ok (some (.bool b))
  | .number x => .ok (some (.number x))
  | .string s => .ok (some (.string s))
  | .bigint _ => .error "Do not know how to serialize a BigInt"
  | .array items => do
      let items ← canonicalItems items
      return some (.array items)
  | .object fields => do
      let entries ← canonicalFields fields
      return some (.object (sortEntries entries))

def canonicalItems : List Value → Except String (List Json)
  | [] => .ok []
  | item :: items => do
      let json ← canonical item
      let rest ← canonicalItems items
      return json.getD .null :: rest

def canonicalFields : List (String × Value) → Except String (List (String × Json))
  | [] => .ok []
  | (key, value) :: fields => do
      if key = "__proto__" then canonicalFields fields
      else
        let json ← canonical value
        let rest ← canonicalFields fields
        return (json.map (fun json => (key, json))).toList ++ rest

end

def serializeEvent (event : ContractEvent) : Except String String := do
  let json ← canonical (.object [("type", .string event.type.name), ("invoiceId", .string event.invoiceId),
    ("ledger", .number event.ledger), ("timestamp", .number event.timestamp), ("data", event.data)])
  return stringify (json.getD .null)

end Serialisation

section Chain

variable (sha256 : String → Digest)

structure EventChecksumChain where
  chainHash : String
  eventCount : Nat

def genesis : EventChecksumChain := ⟨sha256Hex sha256 "", 0⟩

def append (current : EventChecksumChain) (event : ContractEvent) : Except String EventChecksumChain := do
  let eventData ← serializeEvent event
  let input := current.chainHash ++ eventData
  return ⟨sha256Hex sha256 input, current.eventCount + 1⟩

def appendAll (events : List ContractEvent) : Except String EventChecksumChain := events.foldlM (append sha256) (genesis sha256)

/-- The final hash of a sequence, which is what a chain of it is verified with. -/
def finalHash (events : List ContractEvent) : Except String String := do
  let final ← appendAll sha256 events
  return final.chainHash

def verifyChain (events : List ContractEvent) (expectedFinalHash : String) : Except String Bool := do
  let final ← appendAll sha256 events
  return final.chainHash = expectedFinalHash

/-- The loop over the events from place `i` on, each time against the chain of the reference up to that place. -/
def compareFrom (referenceEvents : List ContractEvent) :
    Nat → EventChecksumChain → List ContractEvent → Except String (Option Nat)
  | _, _, [] => .ok none
  | i, verificationChain, event :: events => do
      let verificationChain ← append sha256 verificationChain event
      let expectedChain ← appendAll sha256 (referenceEvents.take (i + 1))
      if verificationChain.chainHash ≠ expectedChain.chainHash then return some i
      else compareFrom referenceEvents (i + 1) verificationChain events

def findTamperedEvent (events referenceEvents : List ContractEvent) : Except String Int :=
  if events.length ≠ referenceEvents.length then do
    let length := min events.length referenceEvents.length
    let found ← compareFrom sha256 referenceEvents 0 (genesis sha256) (events.take length)
    return (found.getD length : Nat)
  else do
    let found ← compareFrom sha256 referenceEvents 0 (genesis sha256) events
    return found.elim (-1) Int.ofNat

end Chain

section Hashes

variable {sha256 : String → Digest} {events referenceEvents : List ContractEvent}

def Serialises (event : ContractEvent) : Prop := ∃ text, serializeEvent event = .ok text

def textOf (event : ContractEvent) : String := (serializeEvent event).toOption.getD ""

/-- The chain hash after a text. -/
def link (sha256 : String → Digest) (chainHash text : String) : String := sha256Hex sha256 (chainHash ++ text)

def hashOf (sha256 : String → Digest) (events : List ContractEvent) : String :=
  chain (link sha256) (sha256Hex sha256 "") (events.map textOf)

def linksOf (sha256 : String → Digest) (events : List ContractEvent) : List (String × String) :=
  links (link sha256) (sha256Hex sha256 "") (events.map textOf)

/-- The strings that are hashed for a chain. -/
def hashedTexts (sha256 : String → Digest) (events : List ContractEvent) : List String :=
  "" :: (linksOf sha256 events).map (fun p => p.1 ++ p.2)

theorem append_eq {event : ContractEvent} (h : Serialises event) (current : EventChecksumChain) :
    append sha256 current event = .ok ⟨link sha256 current.chainHash (textOf event), current.eventCount + 1⟩ := by
  obtain ⟨text, htext⟩ := h
  rw [append, textOf, htext]
  rfl

theorem appendAll_eq (h : ∀ event ∈ events, Serialises event) :
    appendAll sha256 events = .ok ⟨hashOf sha256 events, events.length⟩ := by
  induction events using List.reverseRecOn with
  | nil => rfl
  | append_singleton events event ih =>
      obtain ⟨hevents, hevent⟩ := List.forall_mem_append.mp h
      have hinit := ih hevents
      rw [appendAll] at hinit ⊢
      rw [List.foldlM_append, hinit]
      change List.foldlM (append sha256) _ [event] = _
      rw [List.foldlM_cons, append_eq (hevent event List.mem_cons_self), hashOf, hashOf, List.map_append, List.map_singleton,
        chain_concat, List.length_append]
      rfl

theorem length_of_mem_links {d : String} {texts : List String} {p : String × String} (hd : d.length = 64)
    (hp : p ∈ links (link sha256) d texts) : p.1.length = 64 := by
  induction texts generalizing d with
  | nil => cases hp
  | cons text texts ih =>
      rcases List.mem_cons.mp hp with rfl | hp
      · exact hd
      · exact ih (sha256 _).2.1 hp

/-- As a digest has 64 characters, the text to be hashed determines the digest and the event after it. -/
theorem free_of_collisionFree (h : CollisionFree sha256 (hashedTexts sha256 events ++ hashedTexts sha256 referenceEvents)) :
    Free (link sha256) (sha256Hex sha256 "") (linksOf sha256 events ++ linksOf sha256 referenceEvents) := by
  have hlength : ∀ p ∈ linksOf sha256 events ++ linksOf sha256 referenceEvents, p.1.length = 64 :=
    List.forall_mem_append.mpr ⟨fun _ => length_of_mem_links (sha256 "").2.1, fun _ => length_of_mem_links (sha256 "").2.1⟩
  have hmem : ∀ p ∈ linksOf sha256 events ++ linksOf sha256 referenceEvents,
      p.1 ++ p.2 ∈ hashedTexts sha256 events ++ hashedTexts sha256 referenceEvents := by
    refine List.forall_mem_append.mpr ⟨fun p hp => ?_, fun p hp => ?_⟩
    · exact List.mem_append_left _ (List.mem_cons_of_mem "" (List.mem_map_of_mem hp))
    · exact List.mem_append_right _ (List.mem_cons_of_mem "" (List.mem_map_of_mem hp))
  constructor
  · intro p hp q hq heq
    have htexts := h _ (hmem p hp) _ (hmem q hq) (Subtype.ext heq)
    obtain ⟨h1, h2⟩ := append_left_inj_of_length htexts ((hlength p hp).trans (hlength q hq).symm)
    exact Prod.ext h1 h2
  · intro p hp heq
    have htexts := h _ (hmem p hp) "" (List.mem_append_left _ List.mem_cons_self) (Subtype.ext heq)
    have hempty := congrArg String.length htexts
    rw [String.length_append, hlength p hp] at hempty
    simp at hempty

end Hashes

section Comparison

variable {sha256 : String → Digest} {events referenceEvents : List ContractEvent}

/-- What the hashes of two sequences tell about their beginnings. -/
def Tells (sha256 : String → Digest) (events referenceEvents : List ContractEvent) : Prop :=
  ∀ i j, hashOf sha256 (events.take i) = hashOf sha256 (referenceEvents.take j) ↔ events.take i = referenceEvents.take j

theorem tells_of_free (hfree : Free (link sha256) (sha256Hex sha256 "") (linksOf sha256 events ++ linksOf sha256 referenceEvents))
    (htexts : ∀ a ∈ events, ∀ b ∈ referenceEvents, textOf a = textOf b → a = b) : Tells sha256 events referenceEvents := by
  intro i j
  rw [hashOf, hashOf, List.map_take, List.map_take,
    chain_take_inj hfree (List.subset_append_left _ _) (List.subset_append_right _ _), ← List.map_take, ← List.map_take]
  exact ⟨HashTree.map_inj_of_injOn (fun a ha b hb => htexts a (List.mem_of_mem_take ha) b (List.mem_of_mem_take hb)), congrArg _⟩

theorem serialises_take {events : List ContractEvent} (h : ∀ event ∈ events, Serialises event) (i : Nat) :
    ∀ event ∈ events.take i, Serialises event := fun event hmem => h event (List.mem_of_mem_take hmem)

/-- The loop finds the first place at which the beginnings differ, or there is none up to its end. -/
theorem compareFrom_spec (htells : Tells sha256 events referenceEvents) (hevents : ∀ event ∈ events, Serialises event)
    (hreference : ∀ event ∈ referenceEvents, Serialises event) {i length : Nat} (hlength : length ≤ events.length) (hi : i ≤ length)
    (hsame : events.take i = referenceEvents.take i) :
    ∃ found, compareFrom sha256 referenceEvents i ⟨hashOf sha256 (events.take i), i⟩ ((events.take length).drop i) = .ok found ∧
      (found = none → events.take length = referenceEvents.take length) ∧
      ∀ k ∈ found, DiffersAt events referenceEvents k := by
  obtain ⟨n, hn⟩ : ∃ n, length - i = n := ⟨_, rfl⟩
  induction n generalizing i with
  | zero =>
      obtain rfl : i = length := by omega
      rw [List.drop_eq_nil_of_le (by rw [List.length_take]; omega)]
      exact ⟨none, rfl, fun _ => hsame, nofun⟩
  | succ n ih =>
      have hlt : i < events.length := by omega
      have hdrop : (events.take length).drop i = events[i] :: (events.take length).drop (i + 1) := by
        rw [List.drop_eq_getElem_cons (by rw [List.length_take]; omega), List.getElem_take]
      have hnext : hashOf sha256 (events.take (i + 1)) = link sha256 (hashOf sha256 (events.take i)) (textOf events[i]) := by
        rw [List.take_add_one, List.getElem?_eq_getElem hlt, Option.toList_some, hashOf, hashOf, List.map_append, List.map_singleton,
          chain_concat]
      rw [hdrop, compareFrom, append_eq (hevents _ (List.getElem_mem hlt)), appendAll_eq (serialises_take hreference (i + 1)), ← hnext]
      change ∃ found, (if hashOf sha256 (events.take (i + 1)) ≠ hashOf sha256 (referenceEvents.take (i + 1)) then .ok (some i)
        else compareFrom sha256 referenceEvents (i + 1) ⟨hashOf sha256 (events.take (i + 1)), i + 1⟩ ((events.take length).drop (i + 1))) =
          .ok found ∧ _
      by_cases heq : events.take (i + 1) = referenceEvents.take (i + 1)
      · rw [if_neg (not_not.mpr ((htells (i + 1) (i + 1)).mpr heq))]
        exact ih (by omega) heq (by omega)
      · rw [if_pos (mt (htells (i + 1) (i + 1)).mp heq)]
        refine ⟨some i, rfl, nofun, ?_⟩
        rintro k ⟨⟩
        exact ⟨hsame, mt (take_succ_eq_iff hsame).mpr heq⟩

theorem find_spec (htells : Tells sha256 events referenceEvents) (hevents : ∀ event ∈ events, Serialises event)
    (hreference : ∀ event ∈ referenceEvents, Serialises event) :
    ∃ index, findTamperedEvent sha256 events referenceEvents = .ok index ∧
      (index = -1 ∧ events = referenceEvents ∨ ∃ i : Nat, index = i ∧ DiffersAt events referenceEvents i) := by
  have hfound {length : Nat} (hlength : length ≤ events.length) :=
    compareFrom_spec htells hevents hreference hlength (Nat.zero_le length) rfl
  unfold findTamperedEvent
  by_cases hsizes : events.length = referenceEvents.length
  · obtain ⟨found, hrun, hnone, hsome⟩ := hfound (Nat.le_refl events.length)
    rw [List.take_length] at hrun hnone
    rw [if_neg (not_not.mpr hsizes)]
    refine ⟨found.elim (-1) Int.ofNat, ?_, ?_⟩
    · exact congrArg (fun x : Except String (Option Nat) => x >>= fun found => pure (found.elim (-1) Int.ofNat)) hrun
    · cases found with
      | none =>
          have hsame := hnone rfl
          rw [hsizes, List.take_length] at hsame
          exact .inl ⟨rfl, hsame⟩
      | some k => exact .inr ⟨k, rfl, hsome k rfl⟩
  · obtain ⟨found, hrun, hnone, hsome⟩ := hfound (Nat.min_le_left events.length referenceEvents.length)
    rw [if_pos hsizes]
    refine ⟨(found.getD (min events.length referenceEvents.length) : Nat), ?_, .inr ⟨_, rfl, ?_⟩⟩
    · exact congrArg (fun x : Except String (Option Nat) =>
        x >>= fun found => pure ((found.getD (min events.length referenceEvents.length) : Nat) : Int)) hrun
    · cases found with
      | none => exact differsAt_min hsizes (hnone rfl)
      | some k => exact hsome k rfl

/-- The final hash tells sequences apart, and the comparison finds the first place at which two differ. -/
theorem tampering_located (sha256 : String → Digest) (events referenceEvents : List ContractEvent)
    (hserialises : ∀ event ∈ events ++ referenceEvents, Serialises event)
    (hinj : ∀ a ∈ events, ∀ b ∈ referenceEvents, serializeEvent a = serializeEvent b → a = b)
    (hfree : CollisionFree sha256 (hashedTexts sha256 events ++ hashedTexts sha256 referenceEvents)) :
    ∃ hash, finalHash sha256 referenceEvents = .ok hash ∧
      (∃ valid, verifyChain sha256 events hash = .ok valid ∧ (valid ↔ events = referenceEvents)) ∧
      ∃ index, findTamperedEvent sha256 events referenceEvents = .ok index ∧ (index = -1 ↔ events = referenceEvents) ∧
        (events ≠ referenceEvents → ∃ i : Nat, index = i ∧ DiffersAt events referenceEvents i) := by
  obtain ⟨hevents, hreference⟩ := List.forall_mem_append.mp hserialises
  have htexts : ∀ a ∈ events, ∀ b ∈ referenceEvents, textOf a = textOf b → a = b := by
    intro a ha b hb heq
    obtain ⟨text, htext⟩ := hevents a ha
    obtain ⟨text', htext'⟩ := hreference b hb
    rw [textOf, textOf, htext, htext'] at heq
    exact hinj a ha b hb (htext.trans ((congrArg _ heq).trans htext'.symm))
  have htells : Tells sha256 events referenceEvents := tells_of_free (free_of_collisionFree hfree) htexts
  refine ⟨hashOf sha256 referenceEvents, ?_, ⟨hashOf sha256 events = hashOf sha256 referenceEvents, ?_, ?_⟩, ?_⟩
  · rw [finalHash, appendAll_eq hreference]
    rfl
  · rw [verifyChain, appendAll_eq hevents]
    rfl
  · have hwhole := htells events.length referenceEvents.length
    rw [List.take_length, List.take_length] at hwhole
    exact decide_eq_true_iff.trans hwhole
  · obtain ⟨index, hrun, hindex⟩ := find_spec htells hevents hreference
    refine ⟨index, hrun, ?_⟩
    rcases hindex with ⟨rfl, rfl⟩ | ⟨i, rfl, hdiffers⟩
    · exact ⟨iff_of_true rfl rfl, fun hne => absurd rfl hne⟩
    · exact ⟨iff_of_false (by omega) hdiffers.ne, fun _ => ⟨i, rfl, hdiffers⟩⟩

end Comparison

section Sample

def sampleEvent (type : ContractEventType) : ContractEvent := ⟨type, "inv-1", .object [], .finite 0, .finite 0⟩

def sampleText (type : ContractEventType) : String :=
  "\x7b\"data\":\x7b\x7d,\"invoiceId\":\"inv-1\",\"ledger\":0,\"timestamp\":0,\"type\":\"" ++ type.name ++ "\"\x7d"

theorem serialize_sample (type : ContractEventType) : serializeEvent (sampleEvent type) = .ok (sampleText type) := by
  cases type <;> rfl

theorem isDigest_genesis : IsDigest "e3b0c44298fc1c149afbf4c8996fb92427ae41e4649b934ca495991b7852b855" :=
  isDigest_ofList (by decide)

def genesisHash : Digest := ⟨"e3b0c44298fc1c149afbf4c8996fb92427ae41e4649b934ca495991b7852b855", isDigest_genesis⟩

def createdHash : Digest := ⟨"e828e94f6f8a8e015d780f6d28e5f31081ad34dbea0aba76a8254cf1d0b445a0", isDigest_ofList (by decide)⟩

def refundedHash : Digest := ⟨"8bcecb1df815c30be94805767564908f71492855d9ad127b6279ce645d561698", isDigest_ofList (by decide)⟩

/-- SHA-256 on what is hashed for one event of either type. -/
def sampleSha256 (data : String) : Digest :=
  if data = "" then genesisHash else if data = genesisHash.1 ++ sampleText .created then createdHash else refundedHash

theorem sampleSha256_empty : sampleSha256 "" = genesisHash := if_pos rfl

theorem genesis_append_ne (text : String) : genesisHash.1 ++ text ≠ "" := by
  intro h
  have hlength := congrArg String.length h
  rw [String.length_append, genesisHash.2.1] at hlength
  simp at hlength

theorem sampleSha256_created : sampleSha256 (genesisHash.1 ++ sampleText .created) = createdHash :=
  (if_neg (genesis_append_ne _)).trans (if_pos rfl)

theorem sampleSha256_refunded : sampleSha256 (genesisHash.1 ++ sampleText .refunded) = refundedHash := by
  refine (if_neg (genesis_append_ne _)).trans (if_neg (fun h => ?_))
  exact absurd (append_left_inj_of_length h rfl).2 (by decide)

theorem hashedTexts_sample (type : ContractEventType) :
    hashedTexts sampleSha256 [sampleEvent type] = ["", genesisHash.1 ++ sampleText type] := by
  have htext : textOf (sampleEvent type) = sampleText type := by
    rw [textOf, serialize_sample]
    rfl
  rw [hashedTexts, linksOf, List.map_singleton, htext, sha256Hex, sampleSha256_empty]
  rfl

theorem sample_collisionFree : CollisionFree sampleSha256
    (hashedTexts sampleSha256 [sampleEvent .created] ++ hashedTexts sampleSha256 [sampleEvent .refunded]) := by
  have hsubset : ∀ text ∈ hashedTexts sampleSha256 [sampleEvent .created] ++ hashedTexts sampleSha256 [sampleEvent .refunded],
      text ∈ ["", genesisHash.1 ++ sampleText .created, genesisHash.1 ++ sampleText .refunded] := by
    simp [hashedTexts_sample]
  intro text htext text' htext'
  refine List.inj_on_of_nodup_map ?_ (hsubset text htext) (hsubset text' htext')
  rw [List.map_cons, List.map_cons, List.map_singleton, sampleSha256_empty, sampleSha256_created, sampleSha256_refunded]
  decide

theorem tampering_located_sample : ∃ hash, finalHash sampleSha256 [sampleEvent .refunded] = .ok hash ∧
    (∃ valid, verifyChain sampleSha256 [sampleEvent .created] hash = .ok valid ∧
      (valid ↔ [sampleEvent .created] = [sampleEvent .refunded])) ∧
    ∃ index, findTamperedEvent sampleSha256 [sampleEvent .created] [sampleEvent .refunded] = .ok index ∧
      (index = -1 ↔ [sampleEvent .created] = [sampleEvent .refunded]) ∧
      ([sampleEvent .created] ≠ [sampleEvent .refunded] →
        ∃ i : Nat, index = i ∧ DiffersAt [sampleEvent .created] [sampleEvent .refunded] i) := by
  refine tampering_located sampleSha256 [sampleEvent .created] [sampleEvent .refunded] ?_ ?_ sample_collisionFree
  · rw [List.singleton_append, List.forall_mem_cons, List.forall_mem_singleton]
    exact ⟨⟨_, serialize_sample _⟩, ⟨_, serialize_sample _⟩⟩
  · rw [List.forall_mem_singleton, List.forall_mem_singleton, serialize_sample, serialize_sample]
    intro h
    exact absurd (Except.ok.inj h) (by decide)

end Sample

end SplitSdk.EventChecksum
