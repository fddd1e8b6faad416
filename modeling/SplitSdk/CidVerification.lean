import SplitSdk.ContentIdentifiers

namespace SplitSdk.CidVerification

open ContentIdentifiers JsonText NumberText Numbers TextEncoding

section Normalisation

/-- Letters of either case count as the small ones of the word. -/
def startsWith (word cid : List Char) : Bool := (cid.take word.length).map Char.toLower = word

def dropScheme (cid : List Char) : List Char := if startsWith "ipfs://".toList cid then cid.drop 7 else cid

def dropSlash : List Char → List Char
  | '/' :: cid => cid
  | cid => cid

/-- The first `/ipfs/` becomes a slash. -/
def dropSegment : List Char → List Char
  | [] => []
  | c :: cid =>
      if startsWith "/ipfs/".toList (c :: cid) then '/' :: (c :: cid).drop 6
      else c :: dropSegment cid

def normalizeCid (cid : List Char) : List Char := dropSegment (dropSlash (dropScheme (trim cid)))

end Normalisation

section Content

inductive Data
  | string (s : Units)
  | number (x : JsNumber)
  | bigint (n : Int)
  | array (items : List Data)
  | object (fields : List (String × Data))

/-- A surrogate without its partner is written as its number. -/
def escapeUnit (u : UInt16) : Units :=
  if isHigh u.toNat || isLow u.toNat then utf16 (String.ofList ('\\' :: 'u' :: Nat.toDigits 16 u.toNat))
  else utf16 (String.ofList (escapeChar (Char.ofNat u.toNat)))

def escapeUnits : Units → Units
  | high :: low :: us =>
      if isHigh high.toNat && isLow low.toNat then high :: low :: escapeUnits us
      else escapeUnit high ++ escapeUnits (low :: us)
  | [u] => escapeUnit u
  | [] => []

def quotedUnits (s : Units) : Units := utf16 "\"" ++ escapeUnits s ++ utf16 "\""

def enclosed (first last : String) (texts : List Units) : Units := utf16 first ++ (utf16 ",").intercalate texts ++ utf16 last

mutual

/-- `JSON.stringify`, which throws at a bigint. -/
def Data.text : Data → Except String Units
  | .string s => .ok (quotedUnits s)
  | .number x => .ok (utf16 (String.ofList (numberText x)))
  | .bigint _ => .error "Do not know how to serialize a BigInt"
  | .array items => (textItems items).map (enclosed "[" "]")
  | .object fields => (textFields fields).map (enclosed "\x7b" "\x7d")

def textItems : List Data → Except String (List Units)
  | [] => .ok []
  | item :: items => do
      let text ← item.text
      let texts ← textItems items
      return text :: texts

def textFields : List (String × Data) → Except String (List Units)
  | [] => .ok []
  | (key, value) :: fields => do
      let text ← value.text
      let texts ← textFields fields
      return (quotedUnits (utf16 key) ++ utf16 ":" ++ text) :: texts

end

def normalizeContent : Data → Except String Units
  | .string s => .ok s
  | content => content.text

structure LineItem where
  description : Units
  quantity : JsNumber
  unitPrice : Int
  total : Option Int

structure InvoiceMetadata where
  title : Units
  description : Units
  lineItems : List LineItem
  attachmentCIDs : List Units

/-- The item as an object, the bigints in it written as `amount` says. -/
def LineItem.toData (amount : Int → Data) (item : LineItem) : Data :=
  .object ([("description", .string item.description), ("quantity", .number item.quantity),
    ("unitPrice", amount item.unitPrice)] ++ (item.total.map (fun total => ("total", amount total))).toList)

def InvoiceMetadata.toData (amount : Int → Data) (metadata : InvoiceMetadata) : Data :=
  .object [("title", .string metadata.title), ("description", .string metadata.description),
    ("lineItems", .array (metadata.lineItems.map (LineItem.toData amount))),
    ("attachmentCIDs", .array (metadata.attachmentCIDs.map .string))]

def serializeMetadata (metadata : InvoiceMetadata) : Except String Units :=
  (metadata.toData (fun n => .string (utf16 (toString n)))).text

end Content

section Verification

variable (sha256 : List UInt8 → Digest) (fetchFromIPFS : List Char → Except String Units)

def computeCidForVersion (content : Units) (cid : List Char) : List Char :=
  if (trim cid).head? = some 'b' then computeCidV1 sha256 content else computeCidV0 sha256 content

def verifyCID (cid : List Char) (content : Option Data) : Except String Bool := do
  let source ← match content with
    | none => fetchFromIPFS cid
    | some content => normalizeContent content
  return computeCidForVersion sha256 source cid = normalizeCid cid

end Verification

section Statement

inductive Version
  | v0
  | v1
  deriving DecidableEq

inductive Spelling
  | bare
  | scheme
  | path
  deriving DecidableEq

def Spelling.start : Spelling → List Char
  | .bare => []
  | .scheme => "ipfs://".toList
  | .path => "/ipfs/".toList

def Spelling.write (cid : List Char) (spelling : Spelling) : List Char := spelling.start ++ cid

variable (sha256 : List UInt8 → Digest) (fetchFromIPFS : List Char → Except String Units)

def computeCid (content : Units) : Version → List Char
  | .v0 => computeCidV0 sha256 content
  | .v1 => computeCidV1 sha256 content

def Verified (cid : List Char) (content : Data) : Prop :=
  verifyCID sha256 fetchFromIPFS cid (some content) = .ok true

/-- The two contents are not two byte sequences with one digest. -/
def NoCollision (x y : Units) : Prop := sha256 (encode x) = sha256 (encode y) → encode x = encode y

/-- The metadata is verified against the address of its own serialisation. -/
def Addressed (version : Version) (metadata : InvoiceMetadata) : Prop :=
  ∃ content, serializeMetadata metadata = .ok content ∧
    Verified sha256 fetchFromIPFS (computeCid sha256 content version) (metadata.toData .bigint)

/-- The version is read off the first letter, and a scheme hides it. -/
def IsRead (spelling : Spelling) (version : Version) : Prop :=
  spelling = .bare ∨ spelling = .scheme ∧ version = .v0

instance (spelling : Spelling) (version : Version) : Decidable (IsRead spelling version) :=
  inferInstanceAs (Decidable (_ ∨ _))

end Statement

section Letters

variable {sha256 : List UInt8 → Digest} {cid word : List Char}

def IsLetter (c : Char) : Prop := c ∈ base58Alphabet ++ base32Alphabet

theorem plain_of_isLetter {c : Char} (h : IsLetter c) : isSpace c = false ∧ c ≠ '/' ∧ c.toLower ≠ '/' := by
  have hall : (base58Alphabet ++ base32Alphabet).all (fun c => !isSpace c && c ≠ '/' && c.toLower ≠ '/') := by decide
  have hplain := List.all_eq_true.mp hall c h
  simp only [Bool.and_eq_true, Bool.not_eq_true', decide_eq_true_eq] at hplain
  exact ⟨hplain.1.1, hplain.1.2, hplain.2⟩

theorem isLetter_computeCid (content : Units) (version : Version) : ∀ c ∈ computeCid sha256 content version, IsLetter c := by
  intro c hc
  cases version with
  | v0 => exact List.mem_append_left _ (mem_alphabet_of_mem_computeCidV0 hc)
  | v1 => exact List.mem_append_right _ (mem_alphabet_of_mem_computeCidV1 hc)

theorem startsWith_letters (hword : '/' ∈ word) (h : ∀ c ∈ cid, IsLetter c) : startsWith word cid = false := by
  refine decide_eq_false (fun heq => ?_)
  rw [← heq] at hword
  obtain ⟨c, hc, hslash⟩ := List.mem_map.mp hword
  exact (plain_of_isLetter (h c (List.mem_of_mem_take hc))).2.2 hslash

theorem dropSlash_letters (h : ∀ c ∈ cid, IsLetter c) : dropSlash cid = cid := by
  unfold dropSlash
  split
  · exact absurd rfl (plain_of_isLetter (h '/' List.mem_cons_self)).2.1
  · rfl

theorem dropSegment_letters (h : ∀ c ∈ cid, IsLetter c) : dropSegment cid = cid := by
  induction cid with
  | nil => rfl
  | cons c cid ih =>
      rw [dropSegment, startsWith_letters (by decide) h, if_neg Bool.false_ne_true,
        ih (fun c hc => h c (List.mem_cons_of_mem _ hc))]

theorem write_bare (cid : List Char) : Spelling.bare.write cid = cid := rfl

theorem trim_spelled (h : ∀ c ∈ cid, IsLetter c) (spelling : Spelling) : trim (spelling.write cid) = spelling.write cid := by
  have hcid : ∀ c ∈ cid, isSpace c = false := fun c hc => (plain_of_isLetter (h c hc)).1
  have hstart : spelling.start.all (fun c => !isSpace c) = true := by
    cases spelling <;> decide
  refine trim_of_not_isSpace (List.forall_mem_append.mpr ⟨fun c hc => ?_, hcid⟩)
  exact (Bool.not_eq_true' _).mp (List.all_eq_true.mp hstart c hc)

theorem normalizeCid_bare (h : ∀ c ∈ cid, IsLetter c) : normalizeCid (Spelling.bare.write cid) = cid := by
  rw [normalizeCid, trim_spelled h, write_bare, dropScheme, startsWith_letters (by decide) h,
    if_neg Bool.false_ne_true, dropSlash_letters h, dropSegment_letters h]

theorem normalizeCid_scheme (h : ∀ c ∈ cid, IsLetter c) : normalizeCid (Spelling.scheme.write cid) = cid := by
  have hscheme : dropScheme (Spelling.scheme.write cid) = cid := rfl
  rw [normalizeCid, trim_spelled h, hscheme, dropSlash_letters h, dropSegment_letters h]

/-- The leading slash is dropped first, so that no segment is found. -/
theorem normalizeCid_path (h : ∀ c ∈ cid, IsLetter c) :
    (normalizeCid (Spelling.path.write cid)).head? = some 'i' := by
  rw [normalizeCid, trim_spelled h]
  rfl

end Letters

section Serialisation

variable {amount : Int → Data} {items : List Data}

theorem normalizeContent_toData (metadata : InvoiceMetadata) :
    normalizeContent (metadata.toData amount) = (metadata.toData amount).text := rfl

theorem textItems_ok (h : ∀ item ∈ items, ∃ text, item.text = .ok text) : ∃ texts, textItems items = .ok texts := by
  induction items with
  | nil => exact ⟨[], rfl⟩
  | cons item items ih =>
      obtain ⟨⟨text, htext⟩, hitems⟩ := List.forall_mem_cons.mp h
      obtain ⟨texts, htexts⟩ := ih hitems
      refine ⟨text :: texts, ?_⟩
      rw [textItems, htext, htexts]
      rfl

theorem array_ok (h : ∀ item ∈ items, ∃ text, item.text = .ok text) : ∃ text, (Data.array items).text = .ok text := by
  obtain ⟨texts, htexts⟩ := textItems_ok h
  refine ⟨enclosed "[" "]" texts, ?_⟩
  rw [Data.text, htexts]
  rfl

theorem item_ok (h : ∀ n, ∃ text, (amount n).text = .ok text) (item : LineItem) :
    ∃ text, (item.toData amount).text = .ok text := by
  obtain ⟨price, hprice⟩ := h item.unitPrice
  unfold LineItem.toData
  cases item.total with
  | none =>
      simp only [Option.map_none, Option.toList_none, List.append_nil, Data.text, textFields, hprice, bind, Except.bind,
        pure, Except.pure, Except.map, Except.ok.injEq, exists_eq']
  | some total =>
      obtain ⟨sum, hsum⟩ := h total
      simp only [Option.map_some, Option.toList_some, List.cons_append, List.nil_append, Data.text, textFields, hprice,
        hsum, bind, Except.bind, pure, Except.pure, Except.map, Except.ok.injEq, exists_eq']

theorem serializeMetadata_ok (metadata : InvoiceMetadata) : ∃ content, serializeMetadata metadata = .ok content := by
  have hitems : ∀ item ∈ metadata.lineItems.map (LineItem.toData (fun n => .string (utf16 (toString n)))),
      ∃ text, item.text = .ok text := by
    refine List.forall_mem_map.mpr (fun item _ => item_ok (fun n => ?_) item)
    exact ⟨quotedUnits (utf16 (toString n)), rfl⟩
  have hcids : ∀ item ∈ metadata.attachmentCIDs.map Data.string, ∃ text, item.text = .ok text :=
    List.forall_mem_map.mpr (fun cid _ => ⟨quotedUnits cid, rfl⟩)
  obtain ⟨texts, htexts⟩ := array_ok hitems
  obtain ⟨texts', htexts'⟩ := array_ok hcids
  rw [serializeMetadata, InvoiceMetadata.toData, Data.text, textFields, textFields, textFields, textFields, htexts, htexts']
  exact ⟨_, rfl⟩

/-- The first bigint stops the serialiser. -/
theorem text_of_lineItems {metadata : InvoiceMetadata} (h : metadata.lineItems ≠ []) :
    (metadata.toData .bigint).text = .error "Do not know how to serialize a BigInt" := by
  obtain ⟨item, items, hitems⟩ := List.exists_cons_of_ne_nil h
  rw [InvoiceMetadata.toData, hitems]
  rfl

end Serialisation

section Addresses

variable {sha256 : List UInt8 → Digest} {fetchFromIPFS : List Char → Except String Units} {x y : Units}

theorem verified_iff {cid : List Char} {content : Data} {source : Units} (hsource : normalizeContent content = .ok source) :
    Verified sha256 fetchFromIPFS cid content ↔ computeCidForVersion sha256 source cid = normalizeCid cid := by
  have hverify : verifyCID sha256 fetchFromIPFS cid (some content) =
      .ok (decide (computeCidForVersion sha256 source cid = normalizeCid cid)) := by
    rw [verifyCID, hsource]
    rfl
  rw [Verified, hverify, Except.ok.injEq, decide_eq_true_iff]

theorem computeCid_eq_iff (version : Version) :
    computeCid sha256 x version = computeCid sha256 y version ↔ sha256 (encode x) = sha256 (encode y) := by
  cases version with
  | v0 => exact computeCidV0_eq_iff
  | v1 => exact computeCidV1_eq_iff

theorem computeCidForVersion_bare (version : Version) :
    computeCidForVersion sha256 y (Spelling.bare.write (computeCid sha256 x version)) = computeCid sha256 y version := by
  rw [computeCidForVersion, trim_spelled (isLetter_computeCid x version), write_bare]
  cases version with
  | v0 =>
      rw [computeCid, computeCidV0_head, if_neg (by decide)]
      rfl
  | v1 => exact if_pos rfl

/-- Behind a scheme or in a path the first letter is no `b`. -/
theorem computeCidForVersion_spelled (version : Version) {spelling : Spelling} (h : spelling ≠ .bare) :
    computeCidForVersion sha256 y (spelling.write (computeCid sha256 x version)) = computeCidV0 sha256 y := by
  rw [computeCidForVersion, trim_spelled (isLetter_computeCid x version)]
  refine if_neg ?_
  cases spelling with
  | bare => exact absurd rfl h
  | scheme => exact (by decide : some 'i' ≠ some 'b')
  | path => exact (by decide : some '/' ≠ some 'b')

theorem verified_bare_iff (version : Version) :
    Verified sha256 fetchFromIPFS (Spelling.bare.write (computeCid sha256 x version)) (.string y) ↔
      sha256 (encode y) = sha256 (encode x) := by
  rw [verified_iff rfl, computeCidForVersion_bare, normalizeCid_bare (isLetter_computeCid x version),
    computeCid_eq_iff]

theorem verified_spelled_iff (spelling : Spelling) (version : Version) :
    Verified sha256 fetchFromIPFS (spelling.write (computeCid sha256 x version)) (.string y) ↔
      IsRead spelling version ∧ sha256 (encode y) = sha256 (encode x) := by
  cases spelling with
  | bare => rw [verified_bare_iff, and_iff_right (.inl rfl)]
  | scheme =>
      rw [verified_iff rfl, computeCidForVersion_spelled version (by decide),
        normalizeCid_scheme (isLetter_computeCid x version)]
      cases version with
      | v0 => rw [computeCid, computeCidV0_eq_iff, and_iff_right (.inr ⟨rfl, rfl⟩)]
      | v1 =>
          refine iff_of_false (fun heq => ?_) (fun h => absurd h.1 (by decide))
          have hhead := congrArg List.head? heq
          rw [computeCidV0_head, computeCid, computeCidV1, List.head?_cons] at hhead
          cases hhead
  | path =>
      rw [verified_iff rfl, computeCidForVersion_spelled version (by decide)]
      refine iff_of_false (fun heq => ?_) (fun h => ?_)
      · have hhead := congrArg List.head? heq
        rw [computeCidV0_head, normalizeCid_path (isLetter_computeCid x version)] at hhead
        cases hhead
      · rcases h.1 with hbare | ⟨hscheme, -⟩
        · cases hbare
        · cases hscheme

theorem addressed_iff (version : Version) (metadata : InvoiceMetadata) :
    Addressed sha256 fetchFromIPFS version metadata ↔ metadata.lineItems = [] := by
  constructor
  · rintro ⟨content, -, hverified⟩
    by_contra hitems
    have hverify : verifyCID sha256 fetchFromIPFS (computeCid sha256 content version) (some (metadata.toData .bigint)) =
        .error "Do not know how to serialize a BigInt" := by
      rw [verifyCID, normalizeContent_toData, text_of_lineItems hitems]
      rfl
    rw [Verified, hverify] at hverified
    cases hverified
  · intro hitems
    obtain ⟨content, hcontent⟩ := serializeMetadata_ok metadata
    have hsource : normalizeContent (metadata.toData .bigint) = .ok content := by
      rw [normalizeContent_toData, ← hcontent, serializeMetadata, InvoiceMetadata.toData, InvoiceMetadata.toData, hitems]
      rfl
    refine ⟨content, hcontent, (verified_iff hsource).mpr ?_⟩
    rw [← write_bare (computeCid sha256 content version), computeCidForVersion_bare,
      normalizeCid_bare (isLetter_computeCid content version)]

/-- A path is never verified, nor a version that the scheme hides; otherwise contents count as the same when
they read the same, and metadata is verified as long as no bigint is in it. -/
theorem cid_verified_iff {x y : Units} (h : NoCollision sha256 x y) (version : Version) (spelling : Spelling)
    (metadata : InvoiceMetadata) :
    ((Verified sha256 fetchFromIPFS (spelling.write (computeCid sha256 x version)) (.string y) ↔ x = y) ↔
      if IsRead spelling version then toWellFormed x = toWellFormed y → x = y else x ≠ y) ∧
    (Addressed sha256 fetchFromIPFS version metadata ↔ metadata.lineItems = []) := by
  refine ⟨?_, addressed_iff version metadata⟩
  have hread : sha256 (encode y) = sha256 (encode x) ↔ toWellFormed x = toWellFormed y :=
    ⟨fun hdigest => encode_eq_iff.mp (h hdigest.symm), fun hsame => congrArg (sha256 ∘ utf8) hsame.symm⟩
  rw [verified_spelled_iff, hread]
  split_ifs with hspelled
  · rw [and_iff_right hspelled]
    exact ⟨Iff.mp, fun hsame => ⟨hsame, congrArg toWellFormed⟩⟩
  · have hnever : ¬(IsRead spelling version ∧ toWellFormed x = toWellFormed y) := fun hboth => hspelled hboth.1
    rw [iff_false_left hnever]

end Addresses

section Examples

/-- SHA-256 of `hello`, and of `world` for everything else. -/
def knownDigest (bytes : List UInt8) : Digest :=
  if bytes = [104, 101, 108, 108, 111] then
    ⟨[44, 242, 77, 186, 95, 176, 163, 14, 38, 232, 59, 42, 197, 185, 226, 158, 27, 22, 30, 92, 31, 167, 66, 94, 115, 4,
      51, 98, 147, 139, 152, 36], rfl⟩
  else
    ⟨[72, 110, 164, 98, 36, 209, 187, 79, 182, 128, 243, 79, 124, 154, 217, 106, 143, 36, 236, 136, 190, 115, 234, 142, 90,
      108, 101, 38, 14, 156, 184, 167], rfl⟩

def offline (_ : List Char) : Except String Units := .error "Gateway fetch request failed: fetch failed"

/-- The address of a content, written as a path, is not verified against this content. -/
theorem cid_verified_fails :
    NoCollision knownDigest (utf16 "hello") (utf16 "hello") ∧
      computeCid knownDigest (utf16 "hello") .v0 = "QmRN6wdp1S2A5EtjW9A3M1vKSBuQQGcgvuhoMUoEz4iiT5".toList ∧
      verifyCID knownDigest offline "/ipfs/QmRN6wdp1S2A5EtjW9A3M1vKSBuQQGcgvuhoMUoEz4iiT5".toList
        (some (.string (utf16 "hello"))) = .ok false := by
  refine ⟨fun _ => rfl, by rfl, ?_⟩
  have hverify : decide (computeCidForVersion knownDigest (utf16 "hello")
      "/ipfs/QmRN6wdp1S2A5EtjW9A3M1vKSBuQQGcgvuhoMUoEz4iiT5".toList =
      normalizeCid "/ipfs/QmRN6wdp1S2A5EtjW9A3M1vKSBuQQGcgvuhoMUoEz4iiT5".toList) = false := by
    decide +kernel
  exact congrArg Except.ok hverify

def invoice : InvoiceMetadata := ⟨utf16 "Invoice", utf16 "Work", [⟨utf16 "Hour", .finite 1, 100, none⟩], []⟩

theorem cid_verified_of_known :
    ((Verified knownDigest offline (Spelling.scheme.write (computeCid knownDigest (utf16 "hello") .v0))
        (.string (utf16 "world")) ↔ utf16 "hello" = utf16 "world") ↔
      if IsRead .scheme .v0 then toWellFormed (utf16 "hello") = toWellFormed (utf16 "world") → utf16 "hello" = utf16 "world"
      else utf16 "hello" ≠ utf16 "world") ∧
    (Addressed knownDigest offline .v0 invoice ↔ invoice.lineItems = []) := by
  have hdigests : knownDigest (encode (utf16 "hello")) ≠ knownDigest (encode (utf16 "world")) := by
    decide
  exact cid_verified_iff (fun hsame => absurd hsame hdigests) .v0 .scheme invoice

end Examples

end SplitSdk.CidVerification
