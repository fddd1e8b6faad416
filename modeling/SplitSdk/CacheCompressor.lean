import SplitSdk.Replacements
import SplitSdk.RunLengths
import SplitSdk.TextEncoding

namespace SplitSdk.CacheCompressor

open JsonText NumberText Numbers Replacements RunLengths TextEncoding

section Compressor

/-- The codes and the tokens that they stand for. -/
def dictionary : List (UInt16 × Units) :=
  [(1, utf16 "\""), (2, utf16 "\x7b"), (3, utf16 "\x7d"), (4, utf16 "["), (5, utf16 "]"), (6, utf16 ","), (7, utf16 ":"),
    (8, utf16 "true"), (9, utf16 "false"), (10, utf16 "null")]

def unit (c : Char) : UInt16 := .ofNat c.toNat

/-- Counts are exact, and a text may be as long as one likes. -/
def counts : Format UInt16 where
  marker := 0x0B
  isDigit u := 0x30 ≤ u ∧ u ≤ 0x39
  digits run := (Nat.toDigits 10 run).map unit
  value countStr := Nat.ofDigitChars 10 (countStr.map (fun u => Char.ofNat u.toNat)) 0

def tokenised (input : Units) : Units := dictionary.foldl (fun out entry => replaceAll entry.2 [entry.1] out) input

def compress (input : Units) : Units := 0 :: counts.write (tokenised input)

def decompress (input : Units) : Units :=
  if input.head? = some 0 then
    dictionary.foldl (fun out entry => replaceAll [entry.1] entry.2 out) (counts.read input.tail)
  else input

end Compressor

section Statement

def RoundTrips (text : Units) : Prop := decompress (compress text) = text

instance (text : Units) : Decidable (RoundTrips text) := inferInstanceAs (Decidable (_ = _))

def Printable (text : Units) : Prop := ∀ u ∈ text, 0x20 ≤ u

end Statement

section Counts

theorem toNat_unit {c : Char} (h : c.isDigit) : (unit c).toNat = c.toNat ∧ 0x30 ≤ c.toNat ∧ c.toNat ≤ 0x39 := by
  have hrange : 0x30 ≤ c.toNat ∧ c.toNat ≤ 0x39 := Char.isDigit_iff_toNat.mp h
  have hlt : c.toNat < 2 ^ 16 := hrange.2.trans_lt (by decide)
  exact ⟨UInt16.toNat_ofNat_of_lt' hlt, hrange⟩

theorem counts_isDigit_iff (u : UInt16) : counts.isDigit u ↔ 0x30 ≤ u.toNat ∧ u.toNat ≤ 0x39 := by
  refine decide_eq_true_iff.trans ?_
  rw [UInt16.le_iff_toNat_le, UInt16.le_iff_toNat_le]
  rfl

theorem value_digits (n : Nat) (ds : Units) : (counts.value (counts.digits n ++ ds) : ℚ) =
    n * 10 ^ ds.length + counts.value ds := by
  have hdigits : (counts.digits n).map (fun u => Char.ofNat u.toNat) = Nat.toDigits 10 n := by
    refine (List.map_map ..).trans ((List.map_congr_left (fun c hc => ?_)).trans (List.map_id _))
    change Char.ofNat (unit c).toNat = c
    rw [(toNat_unit (allDigits_toDigits n c hc)).1, Char.ofNat_toNat]
  change ((Nat.ofDigitChars 10 ((counts.digits n ++ ds).map (fun u => Char.ofNat u.toNat)) 0 : Nat) : ℚ) = _
  rw [List.map_append, hdigits, ofDigitChars_append, Nat.ofDigitChars_ten_toDigits, List.length_map]
  rfl

theorem counts_lawful : counts.Lawful where
  marker := rfl
  digits n d hd := by
    obtain ⟨c, hc, rfl⟩ := List.mem_map.mp hd
    obtain ⟨hunit, hrange⟩ := toNat_unit (allDigits_toDigits n c hc)
    rw [counts_isDigit_iff, hunit]
    exact hrange
  value n := by
    have hvalue := value_digits n []
    have hnone : counts.value [] = 0 := rfl
    rw [List.append_nil, List.length_nil, pow_zero, mul_one, hnone, Nat.cast_zero, add_zero] at hvalue
    exact_mod_cast hvalue
  positive n ds hn _ := by
    have hvalue := value_digits n ds
    have hpos : (0 : ℚ) < n * 10 ^ ds.length := by positivity
    have hrest : (0 : ℚ) ≤ counts.value ds := Nat.cast_nonneg _
    have hsum : (0 : ℚ) < counts.value (counts.digits n ++ ds) := by linarith
    exact_mod_cast hsum

end Counts

section Tokens

variable {text : Units}

def expand : UInt16 → Units := substitute dictionary

theorem dictionary_plain : ∀ entry ∈ dictionary, entry.1 < 0x20 ∧ entry.1 ≠ counts.marker ∧ entry.2 ≠ [] ∧
    (∀ d ∈ entry.1 :: entry.2, counts.isDigit d = false) ∧ Printable entry.2 ∧ expand entry.1 = entry.2 := by
  have hall : dictionary.all (fun entry => entry.1 < 0x20 && entry.1 ≠ counts.marker && entry.2 ≠ [] &&
      (entry.1 :: entry.2).all (fun d => !counts.isDigit d) && entry.2.all (fun u => 0x20 ≤ u) &&
      expand entry.1 = entry.2) := by
    rfl
  intro entry hentry
  have hentry := List.all_eq_true.mp hall entry hentry
  simp only [Bool.and_eq_true, decide_eq_true_eq, List.all_eq_true, Bool.not_eq_true'] at hentry
  obtain ⟨⟨⟨⟨⟨hlt, hmarker⟩, hne⟩, hdigits⟩, hprintable⟩, hexpand⟩ := hentry
  exact ⟨hlt, hmarker, hne, hdigits, hprintable, hexpand⟩

/-- A code stands for its token, and everything else for itself. -/
theorem expand_cases (u : UInt16) : expand u = [u] ∨ (u, expand u) ∈ dictionary := by
  unfold expand substitute
  cases hlookup : dictionary.lookup u with
  | none => exact .inl rfl
  | some token =>
      obtain ⟨before, after, hsplit, -⟩ := List.lookup_eq_some_iff.mp hlookup
      rw [hsplit]
      exact .inr (List.mem_append_right _ List.mem_cons_self)

theorem expand_printable {u : UInt16} (h : 0x20 ≤ u) : expand u = [u] := by
  rcases expand_cases u with hsame | hcode
  · exact hsame
  · exact absurd (dictionary_plain _ hcode).1 (UInt16.not_lt.mpr h)

theorem flatMap_expand (h : Printable text) : text.flatMap expand = text :=
  (List.flatMap_congr (fun u hu => expand_printable (h u hu))).trans (List.flatMap_singleton' text)

theorem foldl_replaceAll_tokens {entries : List (UInt16 × Units)} (h : ∀ entry ∈ entries, entry ∈ dictionary) (out : Units) :
    (entries.foldl (fun out entry => replaceAll entry.2 [entry.1] out) out).flatMap expand = out.flatMap expand := by
  induction entries generalizing out with
  | nil => rfl
  | cons entry entries ih =>
      obtain ⟨-, -, hne, -, hprintable, hexpand⟩ := dictionary_plain entry (h entry List.mem_cons_self)
      rw [List.foldl_cons, ih (fun entry hentry => h entry (List.mem_cons_of_mem _ hentry)),
        flatMap_replaceAll hne ((List.flatMap_singleton _ _).trans (hexpand.trans (flatMap_expand hprintable).symm))]

theorem flatMap_tokenised (h : Printable text) : (tokenised text).flatMap expand = text :=
  (foldl_replaceAll_tokens (fun _ hentry => hentry) text).trans (flatMap_expand h)

theorem marker_notMem_foldl {entries : List (UInt16 × Units)} (h : ∀ entry ∈ entries, entry ∈ dictionary) {out : Units}
    (hout : ∀ u ∈ out, u ≠ counts.marker) :
    ∀ u ∈ entries.foldl (fun out entry => replaceAll entry.2 [entry.1] out) out, u ≠ counts.marker := by
  induction entries generalizing out with
  | nil => exact hout
  | cons entry entries ih =>
      obtain ⟨-, hmarker, hne, -, hprintable, -⟩ := dictionary_plain entry (h entry List.mem_cons_self)
      refine ih (fun entry hentry => h entry (List.mem_cons_of_mem _ hentry)) (forall_mem_replaceAll hne ?_ ?_ hout)
      · exact fun u hu heq => absurd (heq ▸ hprintable u hu) (by decide)
      · exact List.forall_mem_singleton.mpr hmarker

theorem marker_notMem_tokenised (h : Printable text) : counts.marker ∉ tokenised text := by
  have hout : ∀ u ∈ text, u ≠ counts.marker := fun u hu heq => absurd (heq ▸ h u hu) (by decide)
  exact fun hmem => marker_notMem_foldl (fun _ hentry => hentry) hout _ hmem rfl

theorem safe_tokenised_iff (h : Printable text) : counts.Safe (tokenised text) ↔ counts.Safe text := by
  have hiff := safe_flatMap_iff (F := counts) (s := tokenised text) (f := expand) (fun u _ => ?_)
  · rw [flatMap_tokenised h] at hiff
    exact hiff.symm
  · refine (expand_cases u).imp_right (fun hcode => ?_)
    obtain ⟨-, -, hne, hdigits, -⟩ := dictionary_plain _ hcode
    exact ⟨hne, hdigits⟩

theorem decompress_compress (text : Units) :
    decompress (compress text) = (counts.read (counts.write (tokenised text))).flatMap expand := by
  have hfresh : ∀ entry ∈ dictionary, ∀ u ∈ entry.2, u ∉ dictionary.map Prod.fst := by
    intro entry hentry u hu hmem
    obtain ⟨other, hother, rfl⟩ := List.mem_map.mp hmem
    exact absurd (dictionary_plain other hother).1 (UInt16.not_lt.mpr ((dictionary_plain entry hentry).2.2.2.2.1 _ hu))
  have hnodup : (dictionary.map Prod.fst).Nodup := by decide
  have hcodes := foldl_replaceAll hnodup hfresh (counts.read (counts.write (tokenised text)))
  unfold decompress compress
  rw [if_pos List.head?_cons, List.tail_cons]
  exact hcodes

end Tokens

section RoundTrip

variable {text : Units}

theorem head_expand {u : UInt16} (h : counts.isDigit u = false) : ∃ x xs, expand u = x :: xs ∧ counts.isDigit x = false := by
  rcases expand_cases u with hsame | hcode
  · exact ⟨u, [], hsame, h⟩
  · obtain ⟨-, -, hne, hdigits, -⟩ := dictionary_plain _ hcode
    obtain ⟨x, xs, hx⟩ := List.exists_cons_of_ne_nil hne
    exact ⟨x, xs, hx, hdigits x (List.mem_cons_of_mem _ (hx ▸ List.mem_cons_self))⟩

theorem expand_digit {d : UInt16} (h : counts.isDigit d) : expand d = [d] := by
  rcases expand_cases d with hsame | hcode
  · exact hsame
  · rw [(dictionary_plain _ hcode).2.2.2.1 d List.mem_cons_self] at h
    cases h

/-- Texts that diverge stand for different ones. -/
theorem flatMap_ne_of_diverges {s t : Units} (h : counts.Diverges s t) : t.flatMap expand ≠ s.flatMap expand := by
  obtain ⟨before, d, after, rfl, hd, hend⟩ := h
  intro heq
  rw [List.flatMap_append, List.flatMap_cons, expand_digit hd, List.singleton_append] at heq
  rcases hend with rfl | ⟨u, after', hu, rfl⟩
  · exact List.cons_ne_nil d _ (List.append_cancel_left (heq.symm.trans (List.append_nil _).symm))
  · obtain ⟨x, xs, hx, hplain⟩ := head_expand hu
    rw [List.flatMap_append, List.flatMap_cons, hx, List.cons_append] at heq
    obtain ⟨rfl, -⟩ := List.cons.inj (List.append_cancel_left heq)
    rw [hplain] at hd
    cases hd

theorem roundTrips_iff (h : Printable text) : RoundTrips text ↔ counts.Safe text := by
  have hfaithful := faithful_write counts_lawful (marker_notMem_tokenised h)
  unfold RoundTrips
  rw [decompress_compress, ← safe_tokenised_iff h]
  constructor
  · intro htext
    by_contra hunsafe
    exact flatMap_ne_of_diverges (hfaithful.2 hunsafe) (htext.trans (flatMap_tokenised h).symm)
  · intro hsafe
    rw [hfaithful.1 hsafe]
    exact flatMap_tokenised h

end RoundTrip

section Json

abbrev PrintableChars (cs : List Char) : Prop := ∀ c ∈ cs, 0x20 ≤ c.toNat

theorem printable_append {cs ds : List Char} (hc : PrintableChars cs) (hd : PrintableChars ds) : PrintableChars (cs ++ ds) :=
  fun c h => (List.mem_append.mp h).elim (hc c) (hd c)

theorem printable_cons {c : Char} {cs : List Char} (hc : 0x20 ≤ c.toNat) (hcs : PrintableChars cs) :
    PrintableChars (c :: cs) := List.forall_mem_cons.mpr ⟨hc, hcs⟩

theorem printable_of_all {cs : List Char} (h : cs.all (fun c => 0x20 ≤ c.toNat)) : PrintableChars cs :=
  fun c hc => of_decide_eq_true (List.all_eq_true.mp h c hc)

theorem printable_utf16 {s : String} (h : PrintableChars s.toList) : Printable (utf16 s) := by
  intro u hu
  obtain ⟨n, hn, rfl⟩ := List.mem_map.mp hu
  obtain ⟨c, hc, hunit⟩ := List.mem_flatMap.mp hn
  have hlt := unitsOfChar_lt c n hunit
  have hle : 0x20 ≤ n := by
    have hchar := h c hc
    unfold unitsOfChar at hunit
    split_ifs at hunit
    · rwa [List.mem_singleton.mp hunit]
    · rcases List.mem_cons.mp hunit with rfl | hlow
      · omega
      · rw [List.mem_singleton.mp hlow]
        omega
  rw [UInt16.le_iff_toNat_le, UInt16.toNat_ofNat_of_lt' hlt]
  exact hle

theorem printable_plain {cs : List Char} (h : ∀ c ∈ cs, IsPlain c) : PrintableChars cs := by
  intro c hc
  rcases h c hc with hdigit | rfl | rfl | rfl | rfl
  · exact (by decide : 0x20 ≤ 0x30).trans (toNat_unit hdigit).2.1
  all_goals decide

theorem layout_plain {ds : List Char} (hds : AllDigits ds) (n : Int) : ∀ c ∈ layout ds n, IsPlain c := by
  rcases eq_or_ne ds [] with rfl | hne
  · unfold layout
    split_ifs
    · exact (allDigits_replicate _).plain
    · rw [List.take_nil, List.drop_nil]
      exact plain_point (by simp)
    · rw [List.append_nil]
      exact List.forall_mem_cons.mpr ⟨.inl rfl, plain_point (allDigits_replicate _).plain⟩
    · exact plain_point (exponentText_plain _)
  · obtain ⟨c, cs, hlayout, hc, hcs⟩ := layout_cons hds hne n
    rw [hlayout]
    exact List.forall_mem_cons.mpr ⟨.inl hc, hcs⟩

theorem positiveText_plain (a : ℚ) : ∀ c ∈ positiveText a, IsPlain c := by
  refine layout_plain (fun c hc => ?_) _
  have hkept := List.rdropWhile_prefix (· = '0') (Nat.toDigits 10 (shortestDecimal a).1)
  exact allDigits_toDigits _ c (hkept.subset hc)

theorem printable_numberText (x : JsNumber) : PrintableChars (numberText x) := by
  cases x with
  | nan => exact printable_of_all (by decide)
  | infinity negative =>
      change PrintableChars "null".toList
      exact printable_of_all (by decide)
  | finite q =>
      refine printable_plain ?_
      unfold numberText Numbers.text
      dsimp only
      split_ifs
      · exact List.forall_mem_singleton.mpr (.inl rfl)
      · exact List.forall_mem_cons.mpr ⟨.inr (.inr (.inr (.inr rfl))), positiveText_plain _⟩
      · exact positiveText_plain q

theorem printable_escapeChar (c : Char) : PrintableChars (escapeChar c) := by
  have hescaped := escaped_escapeChar c
  generalize escapeChar c = written at hescaped
  cases hescaped with
  | short h =>
      have hletter : ∀ entry ∈ shortEscapes, ['\\', entry.2].all (fun c => 0x20 ≤ c.toNat) := by decide
      exact printable_of_all (hletter _ h)
  | control h =>
      have hdigit : ∀ k < 32, ['\\', 'u', '0', '0', Nat.digitChar (k / 16), Nat.digitChar (k % 16)].all
          (fun c => 0x20 ≤ c.toNat) := by
        decide
      exact printable_of_all (hdigit c.toNat h)
  | plain _ _ hcontrol => exact List.forall_mem_singleton.mpr (not_lt.mp hcontrol)

theorem printable_quoted (s : String) : PrintableChars (quoted s) := by
  refine printable_cons (by decide) (printable_append (fun c hc => ?_) (printable_of_all (by decide)))
  obtain ⟨d, -, hd⟩ := List.mem_flatMap.mp hc
  exact printable_escapeChar d c hd

mutual

theorem printable_text : ∀ j : Json, PrintableChars j.text
  | .null => printable_of_all (by decide)
  | .bool b => by cases b <;> exact printable_of_all (by decide)
  | .number x => printable_numberText x
  | .string s => printable_quoted s
  | .array [] => printable_of_all (by decide)
  | .array (item :: items) => printable_cons (by decide) (printable_append (printable_text item) (printable_textItems items))
  | .object [] => printable_of_all (by decide)
  | .object (field :: fields) =>
      printable_cons (by decide) (printable_append (printable_textField field) (printable_textFields fields))

theorem printable_textItems : ∀ items : List Json, PrintableChars (textItems items)
  | [] => printable_of_all (by decide)
  | item :: items => printable_cons (by decide) (printable_append (printable_text item) (printable_textItems items))

theorem printable_textField : ∀ field : String × Json, PrintableChars (textField field)
  | (key, value) => printable_append (printable_quoted key) (printable_cons (by decide) (printable_text value))

theorem printable_textFields : ∀ fields : List (String × Json), PrintableChars (textFields fields)
  | [] => printable_of_all (by decide)
  | field :: fields => printable_cons (by decide) (printable_append (printable_textField field) (printable_textFields fields))

end

theorem printable_stringify (v : Json) : Printable (utf16 (stringify v)) := by
  refine printable_utf16 ?_
  rw [stringify, String.toList_ofList]
  exact printable_text v

/-- The text of a value comes back exactly if no digit is repeated four times in a row, and so does any other text without
control characters. -/
theorem round_trip_iff (v : Json) :
    (RoundTrips (utf16 (stringify v)) ↔ counts.Safe (utf16 (stringify v))) ∧
      ∀ text, Printable text → (RoundTrips text ↔ counts.Safe text) :=
  ⟨roundTrips_iff (printable_stringify v), fun _ h => roundTrips_iff h⟩

theorem round_trip_fails : ¬RoundTrips (utf16 (stringify (.number (.finite 1111)))) := by decide +kernel

end Json

end SplitSdk.CacheCompressor
