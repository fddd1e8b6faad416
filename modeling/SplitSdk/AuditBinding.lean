import SplitSdk.AuditAppends
import SplitSdk.MerkleSoundness

namespace SplitSdk.AuditBinding

open AuditAppends AuditTrailHasher Fallible GrowingLog JsonText Merkle MerkleSoundness
open HashTree hiding root

section Text

/-- A text is cut in one way only behind the last place of a character. -/
theorem split_last {c : Char} {xs ys ds es : List Char} (hd : c ∉ ds) (he : c ∉ es)
    (h : xs ++ c :: ds = ys ++ c :: es) : xs = ys ∧ ds = es := by
  obtain ⟨zs, rfl, hz⟩ | ⟨zs, rfl, hz⟩ := List.append_eq_append_iff.mp h
  · cases zs with
    | nil =>
        rw [List.append_nil]
        exact ⟨rfl, (List.cons.inj hz).2⟩
    | cons z zs =>
        have hds := (List.cons.inj hz).2
        exact absurd (hds ▸ List.mem_append_right zs List.mem_cons_self) hd
  · cases zs with
    | nil =>
        rw [List.append_nil]
        exact ⟨rfl, (List.cons.inj hz).2.symm⟩
    | cons z zs =>
        have hes := (List.cons.inj hz).2
        exact absurd (hes ▸ List.mem_append_right zs List.mem_cons_self) he

theorem escapeChar_of_isHexDigit {c : Char} (h : isHexDigit c) : escapeChar c = [c] := by
  have hrange : 0x30 ≤ c.toNat ∧ c.toNat ≤ 0x39 ∨ 0x61 ≤ c.toNat ∧ c.toNat ≤ 0x66 := by
    simp only [isHexDigit, Char.isDigit, Bool.or_eq_true, Bool.and_eq_true, decide_eq_true_eq] at h
    exact h.imp (fun h => ⟨h.1, h.2⟩) (fun h => ⟨h.1, h.2⟩)
  have hescaped := escaped_escapeChar c
  generalize escapeChar c = written at hescaped
  cases hescaped with
  | short h =>
      have hoff : ∀ entry ∈ shortEscapes, ¬(0x30 ≤ entry.1 ∧ entry.1 ≤ 0x39 ∨ 0x61 ≤ entry.1 ∧ entry.1 ≤ 0x66) := by
        decide
      exact absurd hrange (hoff _ h)
  | control h => omega
  | plain => rfl

theorem quoted_digest {s : String} (h : IsDigest s) : quoted s = '"' :: s.toList ++ ['"'] := by
  have hplain : s.toList.flatMap escapeChar = s.toList := by
    rw [List.flatMap_congr (fun c hc => escapeChar_of_isHexDigit (h.2 c hc)), List.flatMap_singleton']
  rw [quoted, hplain]

theorem toList_toString (n : Nat) : (toString (n : Int)).toList = Nat.toDigits 10 n := String.toList_ofList

variable {Payload : Type} {stringify : AuditEvent Payload → Except String String} {event event' : AuditEvent Payload}
  {prevHash prevHash' data : String} {i j : Nat}

theorem dataString_eq_ok {index : Int} (h : dataString stringify event prevHash index = .ok data) :
    ∃ text, stringify event = .ok text ∧ data.toList =
      "\x7b\"event\":".toList ++ text.toList ++ ",\"prevHash\":".toList ++ quoted prevHash ++ ",\"index\"".toList ++
        ':' :: ((toString index).toList ++ ['\x7d']) := by
  obtain ⟨text, htext, h⟩ := bind_eq_ok.mp h
  cases h
  refine ⟨text, htext, ?_⟩
  simp [String.toList_append]

/-- A record begins with a brace, which no hexadecimal text has. -/
theorem dataString_not_hex {index : Int} (h : dataString stringify event prevHash index = .ok data) :
    ¬∀ c ∈ data.toList, isHexDigit c := by
  obtain ⟨text, -, hdata⟩ := dataString_eq_ok h
  intro hhex
  have hbrace : '\x7b' ∈ data.toList := by
    rw [hdata]
    simp
  exact absurd (hhex _ hbrace) (by decide)

/-- The record determines its index, its previous hash and the text of its event. -/
theorem dataString_inj (hprev : IsDigest prevHash) (hprev' : IsDigest prevHash')
    (h : dataString stringify event prevHash (i : Int) = .ok data)
    (h' : dataString stringify event' prevHash' (j : Int) = .ok data) :
    i = j ∧ prevHash = prevHash' ∧ stringify event = stringify event' := by
  obtain ⟨text, htext, hdata⟩ := dataString_eq_ok h
  obtain ⟨text', htext', hdata'⟩ := dataString_eq_ok h'
  have hcolon (n : Nat) : ':' ∉ (toString (n : Int)).toList ++ ['\x7d'] := by
    intro hmem
    rcases List.mem_append.mp hmem with hdigit | hbrace
    · rw [toList_toString] at hdigit
      have : (':' : Char).isDigit := Nat.isDigit_of_mem_toDigits (by decide) (by decide) hdigit
      exact absurd this (by decide)
    · exact absurd hbrace (by decide)
  obtain ⟨hfront, hback⟩ := split_last (hcolon i) (hcolon j) (hdata.symm.trans hdata')
  have hindex : (toString (i : Int)).toList = (toString (j : Int)).toList := List.append_cancel_right hback
  have hquoted := List.append_cancel_right hfront
  obtain ⟨hevent, hprevs⟩ := List.append_inj' hquoted (by
    rw [quoted_digest hprev, quoted_digest hprev']
    simp [String.length_toList, hprev.1, hprev'.1])
  have htexts := List.append_cancel_left (List.append_cancel_right hevent)
  rw [toList_toString, toList_toString] at hindex
  have hplace := congrArg (Nat.ofDigitChars 10 · 0) hindex
  simp only [Nat.ofDigitChars_ten_toDigits] at hplace
  refine ⟨hplace, ?_, ?_⟩
  · rw [quoted_digest hprev, quoted_digest hprev'] at hprevs
    exact String.toList_inj.mp (by simpa using hprevs)
  · rw [htext, htext', String.toList_inj.mp htexts]

end Text

section Statement

variable {Payload : Type} (sha256 : String → Digest) (stringify : AuditEvent Payload → Except String String)
  (entries : List (AuditChainEntry Payload))

def records : List String :=
  entries.filterMap (fun entry => (dataString stringify entry.event entry.prevHash entry.index).toOption)

def leaves : List String := entries.map AuditChainEntry.hash

/-- The strings hashed to verify the entries. -/
def hashedTexts : List String :=
  "" :: records stringify entries ++
    (treePairs (layers (hashPair sha256) (leaves entries))).map (fun p => p.1 ++ p.2)

end Statement

section Chain

variable {Payload : Type} {sha256 : String → Digest} {stringify : AuditEvent Payload → Except String String}
  {entries entries' : List (AuditChainEntry Payload)}

theorem appendAll_spec {before trail : List (AuditChainEntry Payload)} {events : List (AuditEvent Payload)}
    (hbefore : Built (Fits sha256 stringify) before)
    (h : appendAll sha256 stringify before events = .ok trail) :
    Built (Fits sha256 stringify) trail ∧
      trail.map AuditChainEntry.event = before.map AuditChainEntry.event ++ events := by
  induction events generalizing before with
  | nil =>
      cases h
      exact ⟨hbefore, (List.append_nil _).symm⟩
  | cons event events ih =>
      obtain ⟨entry, hentry, h⟩ := bind_eq_ok.mp h
      obtain ⟨data, hdata, hentry⟩ := bind_eq_ok.mp hentry
      cases hentry
      obtain ⟨hbuilt, hevents⟩ := ih (built_push.mpr ⟨hbefore, rfl, rfl, data, hdata, rfl⟩) h
      refine ⟨hbuilt, hevents.trans ?_⟩
      rw [List.map_append, List.append_assoc]
      rfl

/-- The entries before it and its event determine an entry. -/
theorem entry_eq_of_event_eq {before : List (AuditChainEntry Payload)} {a b : AuditChainEntry Payload}
    (ha : Fits sha256 stringify before a) (hb : Fits sha256 stringify before b) (heq : a.event = b.event) : a = b := by
  obtain ⟨index, prevHash, data, hdata, hhash⟩ := ha
  obtain ⟨index', prevHash', data', hdata', hhash'⟩ := hb
  rw [heq, prevHash, index, ← prevHash', ← index', hdata'] at hdata
  cases hdata
  cases a
  cases b
  dsimp only at heq index prevHash hhash index' prevHash' hhash'
  rw [heq, hhash, hhash', prevHash, prevHash', index, index']

theorem isDigest_lastHash (h : Built (Fits sha256 stringify) entries) : IsDigest (lastHash sha256 entries) := by
  cases hlast : entries.getLast? with
  | none =>
      rw [lastHash, hlast]
      exact (sha256 "").2
  | some last =>
      obtain ⟨before, rfl⟩ := List.getLast?_eq_some_iff.mp hlast
      obtain ⟨data, -, hhash⟩ := (built_push.mp h).2.hash
      rw [lastHash_push, hhash]
      exact (sha256 data).2

/-- The hash of an entry is that of a record, which determines its place and its event. -/
theorem hash_spec (h : Built (Fits sha256 stringify) entries) {i : Nat} {entry : AuditChainEntry Payload}
    (hi : entries[i]? = some entry) : ∃ data ∈ records stringify entries, entry.hash = sha256Hex sha256 data ∧
      ∃ prevHash, IsDigest prevHash ∧ dataString stringify entry.event prevHash (i : Int) = .ok data := by
  have hfits := h.fits_at hi
  have hle := (List.getElem?_eq_some_iff.mp hi).1.le
  obtain ⟨data, hdata, hhash⟩ := hfits.hash
  refine ⟨data, ?_, hhash, entry.prevHash, ?_, ?_⟩
  · refine List.mem_filterMap.mpr ⟨entry, List.mem_of_getElem? hi, ?_⟩
    rw [hdata]
    rfl
  · rw [hfits.prevHash]
    exact isDigest_lastHash (h.of_prefix (List.take_prefix i entries))
  · rwa [hfits.index, List.length_take, min_eq_left hle] at hdata

theorem records_subset {inputs : List String} (h : hashedTexts sha256 stringify entries ⊆ inputs) :
    records stringify entries ⊆ inputs :=
  fun _ hdata => h (List.mem_append_left _ (List.mem_cons_of_mem _ hdata))

/-- A leaf of the tree is the hash of a record. -/
theorem hash_of_mem_leaves (h : Built (Fits sha256 stringify) entries) {x : String} (hx : x ∈ leaves entries) :
    ∃ data ∈ records stringify entries, x = sha256Hex sha256 data := by
  obtain ⟨entry, hmem, rfl⟩ := List.mem_map.mp hx
  obtain ⟨i, hi⟩ := List.mem_iff_getElem?.mp hmem
  obtain ⟨data, hdata, hhash, -⟩ := hash_spec h hi
  exact ⟨data, hdata, hhash⟩

theorem record_not_hex {data : String} (h : data ∈ records stringify entries) :
    ¬∀ c ∈ data.toList, isHexDigit c := by
  obtain ⟨entry, -, hdata⟩ := List.mem_filterMap.mp h
  cases hrecord : dataString stringify entry.event entry.prevHash entry.index with
  | error message => simp [hrecord, Except.toOption] at hdata
  | ok text =>
      simp only [hrecord, Except.toOption, Option.some.injEq] at hdata
      exact hdata ▸ dataString_not_hex hrecord

/-- Two entries with one hash have one place and one event text. -/
theorem entry_inj {inputs : List String} (hfree : CollisionFree sha256 inputs)
    (h : Built (Fits sha256 stringify) entries) (h' : Built (Fits sha256 stringify) entries')
    (hsub : records stringify entries ⊆ inputs) (hsub' : records stringify entries' ⊆ inputs) {i j : Nat}
    {entry entry' : AuditChainEntry Payload} (hi : entries[i]? = some entry) (hj : entries'[j]? = some entry')
    (heq : entry.hash = entry'.hash) : i = j ∧ stringify entry.event = stringify entry'.event := by
  obtain ⟨data, hmem, hhash, prevHash, hdigest, hdata⟩ := hash_spec h hi
  obtain ⟨data', hmem', hhash', prevHash', hdigest', hdata'⟩ := hash_spec h' hj
  rw [hhash, hhash'] at heq
  obtain rfl := hfree data (hsub hmem) data' (hsub' hmem') (digest_eq sha256 heq)
  obtain ⟨hplace, -, htext⟩ := dataString_inj hdigest hdigest' hdata hdata'
  exact ⟨hplace, htext⟩

theorem leaves_nodup {inputs : List String} (hfree : CollisionFree sha256 inputs)
    (h : Built (Fits sha256 stringify) entries) (hsub : records stringify entries ⊆ inputs) :
    (leaves entries).Nodup := by
  refine List.nodup_iff_getElem?_ne_getElem?.mpr ?_
  intro i j hij hj heq
  rw [leaves, List.length_map] at hj
  rw [leaves, List.getElem?_map, List.getElem?_map, List.getElem?_eq_getElem (hij.trans hj),
    List.getElem?_eq_getElem hj] at heq
  exact hij.ne (entry_inj hfree h h hsub hsub (List.getElem?_eq_getElem _) (List.getElem?_eq_getElem hj)
    (Option.some.inj heq)).1

theorem digests_of_mem_treePairs (h : Built (Fits sha256 stringify) entries) :
    ∀ q ∈ treePairs (layers (hashPair sha256) (leaves entries)), IsDigest q.1 ∧ IsDigest q.2 := by
  refine forall_treePairs (hashPair sha256) IsDigest (fun x y => (sha256 (x ++ y)).2) (leaves entries) ?_
  intro x hx
  obtain ⟨data, -, rfl⟩ := hash_of_mem_leaves h hx
  exact (sha256 data).2

/-- The root of a trail with entries is the hash of something that is not empty. -/
theorem root_of_ne_nil (h : Built (Fits sha256 stringify) entries) (hne : entries ≠ []) :
    ∃ text ∈ hashedTexts sha256 stringify entries, text ≠ "" ∧ root sha256 entries = sha256Hex sha256 text ∧
      HashTree.root (hashPair sha256) (leaves entries) = some (root sha256 entries) := by
  have hlen : entries.length ≠ 0 := mt List.length_eq_zero_iff.mp hne
  rw [root, if_neg hlen, ← leaves]
  by_cases hone : 1 < (leaves entries).length
  · obtain ⟨q, hq, hroot⟩ := root_eq_node (hashPair sha256) hone
    refine ⟨q.1 ++ q.2, List.mem_append_right _ (List.mem_map_of_mem hq), ?_, ?_, ?_⟩
    · intro hempty
      have hlength := congrArg String.length hempty
      rw [String.length_append, (digests_of_mem_treePairs h q hq).1.1] at hlength
      simp at hlength
    · rw [hroot]
      rfl
    · rw [hroot]
      rfl
  · cases entries with
    | nil => exact absurd rfl hne
    | cons entry entries =>
        obtain ⟨data, hmem, hhash, -⟩ := hash_spec h (List.getElem?_cons_zero (l := entries) (a := entry))
        refine ⟨data, List.mem_append_left _ (List.mem_cons_of_mem _ hmem), ?_, ?_, ?_⟩
        · rintro rfl
          exact record_not_hex hmem (by simp)
        · rw [root_of_le_one _ (Nat.not_lt.mp hone)]
          exact hhash
        · rw [root_of_le_one _ (Nat.not_lt.mp hone)]
          rfl

end Chain

section Result

variable {Payload : Type} {sha256 : String → Digest} {stringify : AuditEvent Payload → Except String String}
  {trail stored : List (AuditChainEntry Payload)}

section Inputs

variable {inputs : List String} (hfree : CollisionFree sha256 inputs)
  (hstored : Built (Fits sha256 stringify) stored) (htrail : Built (Fits sha256 stringify) trail)
  (hin : hashedTexts sha256 stringify stored ⊆ inputs) (hin' : hashedTexts sha256 stringify trail ⊆ inputs)

include hfree hstored htrail hin hin'

theorem leaves_eq_of_tree_eq
    (h : HashTree.root (hashPair sha256) (leaves stored) = HashTree.root (hashPair sha256) (leaves trail)) :
    leaves stored = leaves trail := by
  have hrecords := records_subset hin
  have hrecords' := records_subset hin'
  have hpair : ∀ q ∈ bothPairs (hashPair sha256) (leaves stored) (leaves trail),
      q.1 ++ q.2 ∈ inputs ∧ IsDigest q.1 ∧ IsDigest q.2 := by
    intro q hq
    rcases List.mem_append.mp hq with hq | hq
    · exact ⟨hin (List.mem_append_right _ (List.mem_map_of_mem hq)), digests_of_mem_treePairs hstored q hq⟩
    · exact ⟨hin' (List.mem_append_right _ (List.mem_map_of_mem hq)), digests_of_mem_treePairs htrail q hq⟩
  refine root_inj (hashPair sha256) (leaves stored) (leaves trail) ?_ ?_ ?_ ?_ h
  · exact leaves_nodup hfree hstored hrecords
  · exact leaves_nodup hfree htrail hrecords'
  · intro p hp q hq heq
    obtain ⟨hp, hdigest, -⟩ := hpair p hp
    obtain ⟨hq, hdigest', -⟩ := hpair q hq
    have hcat := hfree _ hp _ hq (digest_eq sha256 heq)
    obtain ⟨hleft, hright⟩ := append_left_inj_of_length hcat (hdigest.1.trans hdigest'.1.symm)
    exact Prod.ext hleft hright
  · -- a leaf is the hash of a record, a node that of two digests
    intro x hx q hq heq
    obtain ⟨data, hdata, hhex, rfl⟩ : ∃ data ∈ inputs, (¬∀ c ∈ data.toList, isHexDigit c) ∧
        x = sha256Hex sha256 data := by
      rcases List.mem_append.mp hx with hx | hx
      · obtain ⟨data, hmem, hhash⟩ := hash_of_mem_leaves hstored hx
        exact ⟨data, hrecords hmem, record_not_hex hmem, hhash⟩
      · obtain ⟨data, hmem, hhash⟩ := hash_of_mem_leaves htrail hx
        exact ⟨data, hrecords' hmem, record_not_hex hmem, hhash⟩
    obtain ⟨hq, hdigest, hdigest'⟩ := hpair q hq
    obtain rfl := hfree data hdata _ hq (digest_eq sha256 heq)
    exact hhex (isHexDigit_append hdigest.2 hdigest'.2)

/-- What is hashed of an empty trail is nothing else that is hashed. -/
theorem leaves_eq_of_root_eq (h : root sha256 stored = root sha256 trail) : leaves stored = leaves trail := by
  have hempty {text : String} (hmem : text ∈ inputs) (heq : sha256Hex sha256 "" = sha256Hex sha256 text) : text = "" :=
    (hfree "" (hin List.mem_cons_self) text hmem (digest_eq sha256 heq)).symm
  by_cases hs : stored = []
  · subst hs
    by_cases ht : trail = []
    · rw [ht]
    · obtain ⟨text, hmem, hne, hroot, -⟩ := root_of_ne_nil htrail ht
      exact absurd (hempty (hin' hmem) (h.trans hroot)) hne
  · obtain ⟨text, hmem, hne, hroot, htree⟩ := root_of_ne_nil hstored hs
    by_cases ht : trail = []
    · subst ht
      exact absurd (hempty (hin hmem) (h.symm.trans hroot)) hne
    · obtain ⟨-, -, -, -, htree'⟩ := root_of_ne_nil htrail ht
      exact leaves_eq_of_tree_eq hfree hstored htrail hin hin' (htree.trans ((congrArg some h).trans htree'.symm))

theorem contents_eq_of_leaves_eq (h : leaves stored = leaves trail)
    (htext : ∀ a ∈ stored.map AuditChainEntry.event, ∀ b ∈ trail.map AuditChainEntry.event,
      stringify a = stringify b → a = b) :
    stored.map AuditChainEntry.event = trail.map AuditChainEntry.event := by
  have hlen : stored.length = trail.length := by simpa [leaves] using congrArg List.length h
  apply List.ext_getElem
  · simpa using hlen
  · intro i hi hi'
    rw [List.length_map] at hi hi'
    rw [List.getElem_map, List.getElem_map]
    have hhash : stored[i].hash = trail[i].hash := by
      have := congrArg (·[i]?) h
      simpa [leaves, hi, hi'] using this
    apply htext _ (List.mem_map_of_mem (List.getElem_mem hi)) _ (List.mem_map_of_mem (List.getElem_mem hi'))
    exact (entry_inj hfree hstored htrail (records_subset hin) (records_subset hin') (List.getElem?_eq_getElem hi)
      (List.getElem?_eq_getElem hi') hhash).2

end Inputs

/-- What is verified with the root of a trail is the trail. -/
theorem verified_entries_are_trail (sha256 : String → Digest) (stringify : AuditEvent Payload → Except String String)
    (listeners : List (Listener Payload)) (events : List (AuditEvent Payload))
    (trail stored : List (AuditChainEntry Payload)) (verdict : Verdict)
    (htrail : appendAll sha256 stringify [] events = .ok trail)
    (hfree : CollisionFree sha256 (hashedTexts sha256 stringify stored ++ hashedTexts sha256 stringify trail))
    (htext : ∀ a ∈ stored.map AuditChainEntry.event, ∀ b ∈ events, stringify a = stringify b → a = b)
    (hverify : verify sha256 stringify listeners stored (root sha256 trail) = .ok verdict)
    (hvalid : verdict.valid) : stored = trail ∧ stored.map AuditChainEntry.event = events := by
  obtain ⟨hbuilt, hevents⟩ := appendAll_spec built_nil htrail
  obtain ⟨hstored, hroot, -, -⟩ := (verify_iff stored (root sha256 trail) verdict).mp ⟨hverify, hvalid⟩
  rw [List.map_nil, List.nil_append] at hevents
  rw [← hevents] at htext
  have hin := List.subset_append_left (hashedTexts sha256 stringify stored) (hashedTexts sha256 stringify trail)
  have hin' := List.subset_append_right (hashedTexts sha256 stringify stored) (hashedTexts sha256 stringify trail)
  have hleaves := leaves_eq_of_root_eq hfree hstored hbuilt hin hin' hroot
  have hcontents := contents_eq_of_leaves_eq hfree hstored hbuilt hin hin' hleaves htext
  refine ⟨hstored.eq_of_contents ?_ hbuilt hcontents, hcontents.trans hevents⟩
  exact fun before a b => entry_eq_of_event_eq

def sampleTrail : List (AuditChainEntry (List (String × String))) :=
  [⟨sampleEvent "CREATE", createHash.1, emptyHash.1, 0⟩, ⟨sampleEvent "REFUND", refundHash.1, createHash.1, 1⟩]

theorem dataString_sample (action : String) (prevHash : Digest) (index : Nat) :
    dataString sampleStringify (sampleEvent action) prevHash.1 index = .ok (sampleRecord action prevHash index) := rfl

theorem sampleRecord_ne_of_hex {text : String} (h : ∀ c ∈ text.toList, isHexDigit c) (action : String)
    (prevHash : Digest) (index : Nat) : sampleRecord action prevHash index ≠ text := by
  rintro rfl
  exact dataString_not_hex (dataString_sample action prevHash index) h

theorem sampleRecord_ne_of_index_ne {i j : Nat} (h : i ≠ j) (action action' : String) (prevHash prevHash' : Digest) :
    sampleRecord action prevHash i ≠ sampleRecord action' prevHash' j := by
  intro heq
  have hdata := dataString_sample action prevHash i
  rw [heq] at hdata
  exact h (dataString_inj prevHash.2 prevHash'.2 hdata (dataString_sample action' prevHash' j)).1

theorem isDigest_tree : IsDigest "750d624def87ba75a1628e8a33fd1423100238c4edf9d086315dbce3caa6133c" :=
  isDigest_ofList (by decide)

def treeHash : Digest := ⟨_, isDigest_tree⟩

theorem sampleSha256_empty : sampleSha256 "" = emptyHash := if_pos rfl

theorem sampleSha256_create : sampleSha256 (sampleRecord "CREATE" emptyHash 0) = createHash :=
  (if_neg (sampleRecord_ne_of_hex (by simp) _ _ _)).trans (if_pos rfl)

theorem sampleSha256_refund : sampleSha256 (sampleRecord "REFUND" createHash 1) = refundHash := by
  rw [sampleSha256, if_neg (sampleRecord_ne_of_hex (by simp) _ _ _),
    if_neg (sampleRecord_ne_of_index_ne Nat.one_ne_zero _ _ _ _),
    if_neg (sampleRecord_ne_of_index_ne Nat.one_ne_zero _ _ _ _), if_pos rfl]

theorem sampleSha256_tree : sampleSha256 (createHash.1 ++ refundHash.1) = treeHash := by
  have hhex := isHexDigit_append createHash.2.2 refundHash.2.2
  have hne : createHash.1 ++ refundHash.1 ≠ "" := by
    intro hempty
    have hlength := congrArg String.length hempty
    rw [String.length_append, createHash.2.1] at hlength
    simp at hlength
  rw [sampleSha256, if_neg hne, if_neg (sampleRecord_ne_of_hex hhex _ _ _).symm,
    if_neg (sampleRecord_ne_of_hex hhex _ _ _).symm, if_neg (sampleRecord_ne_of_hex hhex _ _ _).symm, if_pos rfl]
  rfl

theorem appendAll_pair {sha256 : String → Digest} {before first second : Digest} (hbefore : sha256 "" = before)
    (hfirst : sha256 (sampleRecord "CREATE" before 0) = first)
    (hsecond : sha256 (sampleRecord "REFUND" first 1) = second) :
    appendAll sha256 sampleStringify [] [sampleEvent "CREATE", sampleEvent "REFUND"] =
      .ok [⟨sampleEvent "CREATE", first.1, before.1, 0⟩, ⟨sampleEvent "REFUND", second.1, first.1, 1⟩] := by
  subst hsecond
  subst hfirst
  subst hbefore
  rfl

theorem sample_appendAll : appendAll sampleSha256 sampleStringify [] [sampleEvent "CREATE", sampleEvent "REFUND"] =
    .ok sampleTrail := appendAll_pair sampleSha256_empty sampleSha256_create sampleSha256_refund

theorem records_pair (before first second : Digest) : records sampleStringify
    [⟨sampleEvent "CREATE", first.1, before.1, 0⟩, ⟨sampleEvent "REFUND", second.1, first.1, 1⟩] =
      [sampleRecord "CREATE" before 0, sampleRecord "REFUND" first 1] := rfl

theorem sample_hashedTexts : hashedTexts sampleSha256 sampleStringify sampleTrail =
    ["", sampleRecord "CREATE" emptyHash 0, sampleRecord "REFUND" createHash 1, createHash.1 ++ refundHash.1] := by
  have hpairs : treePairs (layers (hashPair sampleSha256) (leaves sampleTrail)) = [(createHash.1, refundHash.1)] := by
    rw [treePairs_of_one_lt _ (by decide), layers_of_le_one _ (by rw [parents_length]; decide)]
    rfl
  rw [hashedTexts, hpairs, sampleTrail, records_pair]
  rfl

theorem sample_collisionFree : CollisionFree sampleSha256 (hashedTexts sampleSha256 sampleStringify sampleTrail) := by
  intro text htext text' htext'
  refine List.inj_on_of_nodup_map ?_ htext htext'
  rw [sample_hashedTexts, List.map_cons, List.map_cons, List.map_cons, List.map_singleton, sampleSha256_empty,
    sampleSha256_create, sampleSha256_refund, sampleSha256_tree]
  apply List.Nodup.of_map Subtype.val
  simp [emptyHash, createHash, refundHash, treeHash]

theorem sampleStringify_ne : sampleStringify (sampleEvent "CREATE") ≠ sampleStringify (sampleEvent "REFUND") := by
  intro h
  have htexts := String.ofList_injective (Except.ok.inj h)
  revert htexts
  decide

theorem verified_entries_are_trail_sample :
    sampleTrail.map AuditChainEntry.event = [sampleEvent "CREATE", sampleEvent "REFUND"] := by
  refine (verified_entries_are_trail sampleSha256 sampleStringify [] _ sampleTrail sampleTrail
    { valid := true, length := some 2 } sample_appendAll ?_ ?_ ?_ rfl).2
  · intro text htext text' htext'
    exact sample_collisionFree text ((List.mem_append.mp htext).elim id id) text' ((List.mem_append.mp htext').elim id id)
  · intro a ha b hb htext
    rcases List.mem_pair.mp ha with rfl | rfl <;> rcases List.mem_pair.mp hb with rfl | rfl
    · rfl
    · exact absurd htext sampleStringify_ne
    · exact absurd htext.symm sampleStringify_ne
    · rfl
  · have hbuilt := (appendAll_spec built_nil sample_appendAll).1
    exact ((verify_iff sampleTrail _ _).mpr ⟨hbuilt, rfl, ⟨rfl, rfl⟩, rfl⟩).1

end Result

end SplitSdk.AuditBinding
