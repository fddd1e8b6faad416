import SplitSdk.JsonText
import SplitSdk.NumberText

namespace SplitSdk.JsonRoundTrip

open Numbers NumberText JsonText

section Strings

theorem isHigh_toNat (c : Char) : isHigh c.toNat = false ∧ isLow c.toNat = false := by
  have hvalid := c.valid
  have hnat : c.toNat = c.val.toNat := rfl
  simp only [isHigh, isLow, Bool.and_eq_false_iff, decide_eq_false_iff_not, hnat]
  rcases hvalid with h | h <;> omega

theorem joinUnits_toNat (cs : List Char) : joinUnits none (cs.map Char.toNat) = cs := by
  induction cs with
  | nil => rfl
  | cons c cs ih =>
      obtain ⟨hhigh, hlow⟩ := isHigh_toNat c
      rw [List.map_cons, joinUnits, hhigh, hlow, ih, if_neg Bool.false_ne_true, if_neg Bool.false_ne_true,
        Char.ofNat_toNat]

theorem hexUnit_digitChar (a b : Fin 16) :
    hexUnit '0' '0' (Nat.digitChar a) (Nat.digitChar b) = some (16 * (a : Nat) + (b : Nat)) := by
  revert a b
  decide

theorem readUnits_escapeChar (c : Char) (cs : List Char) :
    readUnits (escapeChar c ++ cs) = (readUnits cs).map (fun (ns, cs) => (c.toNat :: ns, cs)) := by
  have hescaped := escaped_escapeChar c
  generalize escapeChar c = written at hescaped
  cases hescaped with
  | short h =>
      simp only [shortEscapes, List.mem_cons, Prod.mk.injEq, List.not_mem_nil, or_false] at h
      rcases h with ⟨hc, rfl⟩ | ⟨hc, rfl⟩ | ⟨hc, rfl⟩ | ⟨hc, rfl⟩ | ⟨hc, rfl⟩ | ⟨hc, rfl⟩ | ⟨hc, rfl⟩ <;> rw [hc] <;> rfl
  | control h =>
      have hunit := hexUnit_digitChar ⟨c.toNat / 16, by omega⟩ ⟨c.toNat % 16, by omega⟩
      have hsum : 16 * (c.toNat / 16) + c.toNat % 16 = c.toNat := Nat.div_add_mod _ _
      dsimp only at hunit
      rw [hsum] at hunit
      simp only [List.cons_append, List.nil_append, readUnits, hunit, Option.bind_some]
  | plain hquote hbackslash hcontrol =>
      rw [List.singleton_append, readUnits]
      · rw [if_neg hcontrol]
      · exact hquote
      · intro a b d e cs' h
        exact absurd h hbackslash
      · intro a cs' h
        exact absurd h hbackslash

theorem readString_quoted (s : String) (rest : List Char) :
    ∃ cs, quoted s ++ rest = '"' :: cs ∧ readString cs = some (s, rest) := by
  refine ⟨s.toList.flatMap escapeChar ++ ('"' :: rest), by simp [quoted], ?_⟩
  have hunits : ∀ cs : List Char, readUnits (cs.flatMap escapeChar ++ '"' :: rest) =
      some (cs.map Char.toNat, rest) := by
    intro cs
    induction cs with
    | nil => rfl
    | cons c cs ih => rw [List.flatMap_cons, List.append_assoc, readUnits_escapeChar, ih]; rfl
  simp only [readString, hunits, Option.map_some, joinUnits_toNat, String.ofList_toList]

end Strings

section Numbers

theorem isIntegerPart_of_head {d : Char} (h : d ≠ '0') (ds : List Char) : isIntegerPart (d :: ds) = true := by
  unfold isIntegerPart
  split
  · next he => cases he
  · next he => exact absurd (List.cons.inj he).1 h
  · rfl

/-- The integer part of a numeral has no leading zero, and a point is followed by a digit. -/
theorem readNumeral_layout (negative : Bool) {ds : List Char} (hds : AllDigits ds) (hne : ds ≠ [])
    (hhead : ∀ c ∈ ds.head?, c ≠ '0') (n : Int) :
    readNumeral negative (layout ds n) = (readDecimal (layout ds n)).map
      (fun q => fl (if negative then -q else q)) := by
  suffices h : isIntegerPart ((layout ds n).takeWhile Char.isDigit) = true ∧
      fractionHasDigit ((layout ds n).dropWhile Char.isDigit) = true by
    rw [readNumeral, h.1, h.2, Bool.true_and, if_pos rfl]
  -- the digits before the point, and what follows them
  have hsplit : ∀ int rest : List Char, AllDigits int → (∀ c ∈ rest.head?, c.isDigit = false) →
      layout ds n = int ++ rest → isIntegerPart int = true → fractionHasDigit rest = true →
      isIntegerPart ((layout ds n).takeWhile Char.isDigit) = true ∧
        fractionHasDigit ((layout ds n).dropWhile Char.isDigit) = true := by
    intro int rest hint hrest heq hi hr
    have hspan := span_digits rest hint hrest
    rw [List.span_eq_takeWhile_dropWhile, ← heq] at hspan
    obtain ⟨htake, hdrop⟩ := Prod.mk.inj hspan
    rw [htake, hdrop]
    exact ⟨hi, hr⟩
  obtain ⟨d, ds, rfl⟩ := List.exists_cons_of_ne_nil hne
  have hd := hhead d rfl
  have htail : AllDigits ds := fun c hc => hds c (List.mem_cons_of_mem _ hc)
  have hpoint (c : Char) (cs : List Char) (hc : c.isDigit) : fractionHasDigit ('.' :: c :: cs) = true := hc
  unfold layout at hsplit ⊢
  split_ifs at hsplit ⊢ with hlong hmid hsmall
  · exact hsplit _ [] (hds.append (allDigits_replicate _)) nofun (List.append_nil _).symm
      (isIntegerPart_of_head hd _) rfl
  · obtain ⟨k, hk⟩ : ∃ k, n.toNat = k + 1 := ⟨n.toNat - 1, by omega⟩
    obtain ⟨c, cs, hcs⟩ : ∃ c cs, ds.drop k = c :: cs := by
      apply List.exists_cons_of_ne_nil
      rw [Ne, List.drop_eq_nil_iff]
      simp only [List.length_cons] at hlong
      omega
    have hc := htail c (List.mem_of_mem_drop (hcs ▸ List.mem_cons_self))
    refine hsplit (d :: ds.take k) ('.' :: c :: cs) ?_ ?_ ?_ (isIntegerPart_of_head hd _) (hpoint c cs hc)
    · intro x hx
      rcases List.mem_cons.mp hx with rfl | hx
      · exact hds x List.mem_cons_self
      · exact htail x (List.mem_of_mem_take hx)
    · rintro x ⟨⟩
      rfl
    · rw [hk, List.take_succ_cons, List.drop_succ_cons, hcs]
  · obtain ⟨c, cs, hcs⟩ : ∃ c cs, List.replicate (-n).toNat '0' ++ d :: ds = c :: cs :=
      List.exists_cons_of_ne_nil (List.append_ne_nil_of_right_ne_nil _ (List.cons_ne_nil _ _))
    have hc : c.isDigit := (allDigits_replicate _).append hds c (hcs ▸ List.mem_cons_self)
    refine hsplit ['0'] ('.' :: c :: cs) (allDigits_replicate 1) ?_ ?_ rfl (hpoint c cs hc)
    · rintro x ⟨⟩
      rfl
    · rw [← hcs]
      rfl
  · have hone : AllDigits [d] := fun c hc => hds c (List.mem_singleton.mp hc ▸ List.mem_cons_self)
    cases ds with
    | nil =>
        refine hsplit [d] (exponentText (n - 1)) hone ?_ rfl (isIntegerPart_of_head hd _) rfl
        rintro x ⟨⟩
        rfl
    | cons d' ds =>
        refine hsplit [d] ('.' :: d' :: (ds ++ exponentText (n - 1))) hone ?_ rfl
          (isIntegerPart_of_head hd _) (hpoint _ _ (htail d' List.mem_cons_self))
        rintro x ⟨⟩
        rfl

theorem readNumeral_positiveText (negative : Bool) {a : ℚ} (ha : 0 < a) (h : fl a = .finite a) :
    readNumeral negative (positiveText a) = some (.finite (if negative then -a else a)) := by
  obtain ⟨ds, n, htext, hdigits, hne, hhead, hvalue⟩ := positiveText_eq_layout ha h
  rw [htext, readNumeral_layout negative hdigits hne hhead, readDecimal_layout ds n hdigits hne,
    Option.map_some]
  cases negative with
  | false => exact congrArg some hvalue
  | true => exact congrArg some (fl_neg hvalue)

theorem readToken_text {q : ℚ} (h : IsDouble (.finite q)) : readToken (text (.finite q)) = some (.finite q) := by
  rw [text]
  split_ifs with hzero hneg
  · subst hzero
    decide +kernel
  · rw [readToken, readNumeral_positiveText true (neg_pos.mpr hneg) (fl_neg h), if_pos rfl, neg_neg]
  · have hpos : 0 < q := lt_of_le_of_ne (not_lt.mp hneg) (Ne.symm hzero)
    have hread := readNumeral_positiveText false hpos h
    obtain ⟨c, cs, htext, hc, _⟩ := positiveText_cons hpos h
    rw [htext] at hread ⊢
    unfold readToken
    split
    · next he =>
      obtain ⟨rfl, _⟩ := List.cons.inj he
      exact absurd hc (by decide)
    · exact hread

theorem isNumberChar_of_isPlain {c : Char} (h : IsPlain c) : isNumberChar c = true := by
  rcases h with h | rfl | rfl | rfl | rfl
  · rw [isNumberChar, h, Bool.true_or]
  all_goals decide

/-- The text of a number begins with a digit or a minus sign. -/
theorem text_cons {q : ℚ} (h : IsDouble (.finite q)) :
    ∃ c cs, text (.finite q) = c :: cs ∧ (c.isDigit ∨ c = '-') ∧
      ∀ x ∈ c :: cs, isNumberChar x = true := by
  rw [text]
  split_ifs with hzero hneg
  · exact ⟨'0', [], rfl, .inl rfl, List.forall_mem_singleton.mpr rfl⟩
  · obtain ⟨c, cs, htext, hc, hcs⟩ := positiveText_cons (neg_pos.mpr hneg) (fl_neg h)
    refine ⟨'-', positiveText (-q), rfl, .inr rfl, ?_⟩
    rw [htext]
    simp only [List.forall_mem_cons]
    exact ⟨by decide, isNumberChar_of_isPlain (.inl hc), fun x hx => isNumberChar_of_isPlain (hcs x hx)⟩
  · obtain ⟨c, cs, htext, hc, hcs⟩ := positiveText_cons
      (lt_of_le_of_ne (not_lt.mp hneg) (Ne.symm hzero)) h
    refine ⟨c, cs, htext, .inl hc, ?_⟩
    rw [List.forall_mem_cons]
    exact ⟨isNumberChar_of_isPlain (.inl hc), fun x hx => isNumberChar_of_isPlain (hcs x hx)⟩

end Numbers

section Values

/-- What may follow a value inside a text. -/
def Follows (rest : List Char) : Prop := ∀ c ∈ rest.head?, isNumberChar c = false

mutual

/-- All numbers are finite doubles, which are the numbers that JSON text can hold. -/
def Exact : Json → Prop
  | .number x => IsDouble x ∧ ∃ q, x = .finite q
  | .array items => ExactItems items
  | .object fields => ExactFields fields
  | .null | .bool _ | .string _ => True

def ExactItems : List Json → Prop
  | [] => True
  | item :: items => Exact item ∧ ExactItems items

def ExactField : String × Json → Prop
  | (_, value) => Exact value

def ExactFields : List (String × Json) → Prop
  | [] => True
  | field :: fields => ExactField field ∧ ExactFields fields

end

theorem skipSpace_of_head {c : Char} (h : isJsonSpace c = false) (cs : List Char) :
    skipSpace (c :: cs) = c :: cs := by
  rw [skipSpace, List.dropWhile_cons_of_neg (by rw [h]; decide)]

/-- A character that neither opens a string, an array or an object nor is skipped. -/
def IsPlainHead (c : Char) : Prop := isJsonSpace c = false ∧ c ≠ '"' ∧ c ≠ '[' ∧ c ≠ '\x7b' ∧ c ≠ ']'

theorem isPlainHead_of_number {c : Char} (h : c.isDigit ∨ c = '-') : IsPlainHead c := by
  rcases h with h | rfl
  · obtain ⟨hlow, hhigh⟩ := Char.isDigit_iff_toNat.mp h
    change 48 ≤ c.toNat at hlow
    change c.toNat ≤ 57 at hhigh
    have hne : ∀ d : Char, d.toNat < 48 ∨ 57 < d.toNat → c ≠ d := by
      rintro d hd rfl
      omega
    refine ⟨?_, hne _ (by decide), hne _ (by decide), hne _ (by decide), hne _ (by decide)⟩
    simp only [isJsonSpace, List.mem_cons, List.not_mem_nil, or_false, decide_eq_false_iff_not]
    omega
  · exact ⟨by decide, by decide, by decide, by decide, by decide⟩

theorem readValue_plain {c : Char} (hc : IsPlainHead c) (fuel : Nat) (cs : List Char) :
    readValue (fuel + 1) (c :: cs) = readPlain (c :: cs) := by
  obtain ⟨hspace, hquote, hbracket, hbrace, _⟩ := hc
  rw [readValue, skipSpace_of_head hspace]
  split
  · next h => exact absurd (List.cons.inj h).1 hquote
  · next h => exact absurd (List.cons.inj h).1 hbracket
  · next h => exact absurd (List.cons.inj h).1 hbrace
  · rfl

theorem readPlain_number {q : ℚ} (h : IsDouble (.finite q)) {rest : List Char} (hrest : Follows rest) :
    readPlain (text (.finite q) ++ rest) = some (.number (.finite q), rest) := by
  have htoken := readToken_text h
  obtain ⟨c, cs, htext, hc, hchars⟩ := text_cons h
  rw [htext] at htoken ⊢
  have htake : ((c :: cs) ++ rest).takeWhile isNumberChar = c :: cs ∧
      ((c :: cs) ++ rest).dropWhile isNumberChar = rest := by
    rw [List.takeWhile_append_of_pos hchars, List.dropWhile_append_of_pos hchars]
    cases rest with
    | nil => exact ⟨List.append_nil _, rfl⟩
    | cons d rest =>
        have hd := hrest d rfl
        rw [List.takeWhile_cons_of_neg (by rw [hd]; decide), List.dropWhile_cons_of_neg (by rw [hd]; decide)]
        exact ⟨List.append_nil _, rfl⟩
  have hword : c ≠ 'n' ∧ c ≠ 't' ∧ c ≠ 'f' := by
    rcases hc with hc | rfl
    · refine ⟨?_, ?_, ?_⟩
      all_goals
        rintro rfl
        exact absurd hc (by decide)
    · decide
  rw [List.cons_append] at htake ⊢
  unfold readPlain
  split
  · next he => exact absurd (List.cons.inj he).1 hword.1
  · next he => exact absurd (List.cons.inj he).1 hword.2.1
  · next he => exact absurd (List.cons.inj he).1 hword.2.2
  · rw [htake.1, htake.2, htoken]
    rfl

def itemsText : List Json → List Char
  | [] => []
  | item :: items => item.text ++ textItems items

def fieldsText : List (String × Json) → List Char
  | [] => []
  | field :: fields => textField field ++ textFields fields

/-- No value's text is empty or begins with a space or a closing bracket. -/
theorem text_head (j : Json) (h : Exact j) :
    ∃ c cs, j.text = c :: cs ∧ isJsonSpace c = false ∧ c ≠ ']' := by
  cases j with
  | null => exact ⟨'n', _, by rw [Json.text]; rfl, by decide, by decide⟩
  | bool b => cases b <;> exact ⟨_, _, by rw [Json.text]; rfl, by decide, by decide⟩
  | number x =>
      obtain ⟨hx, q, rfl⟩ := h
      obtain ⟨c, cs, htext, hc, _⟩ := text_cons hx
      have hhead := isPlainHead_of_number hc
      exact ⟨c, cs, by rw [Json.text, numberText, htext], hhead.1, hhead.2.2.2.2⟩
  | string s => exact ⟨'"', _, by rw [Json.text, quoted, List.cons_append], by decide, by decide⟩
  | array items =>
      cases items with
      | nil => exact ⟨'[', _, by rw [Json.text]; rfl, by decide, by decide⟩
      | cons item items => exact ⟨'[', _, by rw [Json.text]; rfl, by decide, by decide⟩
  | object fields =>
      cases fields with
      | nil => exact ⟨'\x7b', _, by rw [Json.text]; rfl, by decide, by decide⟩
      | cons field fields => exact ⟨'\x7b', _, by rw [Json.text]; rfl, by decide, by decide⟩

theorem follows_cons {c : Char} (h : isNumberChar c = false) (rest : List Char) : Follows (c :: rest) := by
  rintro d ⟨⟩
  exact h

theorem readValue_string (fuel : Nat) (cs : List Char) : readValue (fuel + 1) ('"' :: cs) =
    (readString cs).map (fun (s, cs) => (.string s, cs)) := rfl

theorem readValue_array {c : Char} (hspace : isJsonSpace c = false) (hne : c ≠ ']') (fuel : Nat)
    (cs : List Char) : readValue (fuel + 1) ('[' :: c :: cs) =
      (readItems fuel (c :: cs)).map (fun (items, cs) => (.array items, cs)) := by
  rw [readValue, skipSpace_of_head rfl]
  split
  · next he => exact absurd (List.cons.inj he).1 (by decide)
  · next he =>
      rw [← (List.cons.inj he).2, skipSpace_of_head hspace]
      split
      · next he => exact absurd (List.cons.inj he).1 hne
      · rfl
  · next he => exact absurd (List.cons.inj he).1 (by decide)
  · next hbracket _ => exact absurd rfl (hbracket _)

theorem readValue_object (fuel : Nat) (cs : List Char) : readValue (fuel + 1) ('\x7b' :: '"' :: cs) =
    (readFields fuel ('"' :: cs)).map (fun (fields, cs) => (.object fields, cs)) := rfl

section Lists

variable {fuel : Nat} {cs cs' rest : List Char} {item value : Json} {key : String}

theorem readItems_last (h : readValue fuel cs = some (item, ']' :: rest)) :
    readItems (fuel + 1) cs = some ([item], rest) := by
  rw [readItems, h]
  rfl

theorem readItems_more (h : readValue fuel cs = some (item, ',' :: cs')) :
    readItems (fuel + 1) cs = (readItems fuel cs').map (fun (items, cs) => (item :: items, cs)) := by
  rw [readItems, h]
  rfl

/-- What `readFields` does after a key. -/
def readField (fuel : Nat) (key : String) (cs : List Char) : Option (List (String × Json) × List Char) :=
  match skipSpace cs with
  | ':' :: cs =>
      (readValue fuel cs).bind (fun (value, cs) =>
        match skipSpace cs with
        | '}' :: cs => some ([(key, value)], cs)
        | ',' :: cs => (readFields fuel cs).map (fun (fields, cs) => ((key, value) :: fields, cs))
        | _ => none)
  | _ => none

theorem readFields_quote (fuel : Nat) (cs : List Char) : readFields (fuel + 1) ('"' :: cs) =
    (readString cs).bind (fun (key, cs) => readField fuel key cs) := rfl

theorem readFields_last (hkey : readString cs = some (key, ':' :: cs'))
    (hvalue : readValue fuel cs' = some (value, '\x7d' :: rest)) :
    readFields (fuel + 1) ('"' :: cs) = some ([(key, value)], rest) := by
  rw [readFields_quote, hkey]
  exact (congrArg (fun r => Option.bind r _) hvalue).trans rfl

theorem readFields_more (hkey : readString cs = some (key, ':' :: cs'))
    (hvalue : readValue fuel cs' = some (value, ',' :: rest)) :
    readFields (fuel + 1) ('"' :: cs) =
      (readFields fuel rest).map (fun (fields, cs) => ((key, value) :: fields, cs)) := by
  rw [readFields_quote, hkey]
  exact (congrArg (fun r => Option.bind r _) hvalue).trans rfl

end Lists

theorem textItems_length_pos (items : List Json) : 0 < (textItems items).length := by
  cases items <;> simp [textItems]

theorem textFields_length_pos (fields : List (String × Json)) : 0 < (textFields fields).length := by
  cases fields <;> simp [textFields]

/-- Texts shorter than the fuel are read back. -/
structure Reads (fuel : Nat) : Prop where
  value : ∀ j, Exact j → j.text.length < fuel → ∀ rest, Follows rest →
    readValue fuel (j.text ++ rest) = some (j, rest)
  items : ∀ items, items ≠ [] → ExactItems items → (itemsText items).length < fuel → ∀ rest,
    readItems fuel (itemsText items ++ rest) = some (items, rest)
  fields : ∀ fields, fields ≠ [] → ExactFields fields → (fieldsText fields).length < fuel → ∀ rest,
    readFields fuel (fieldsText fields ++ rest) = some (fields, rest)

section Step

variable {fuel : Nat} (ih : Reads fuel)

include ih in
theorem readValue_text (j : Json) (h : Exact j) (hfuel : j.text.length < fuel + 1) (rest : List Char)
    (hrest : Follows rest) : readValue (fuel + 1) (j.text ++ rest) = some (j, rest) := by
  cases j with
  | null => rw [Json.text]; rfl
  | bool b => cases b <;> (rw [Json.text]; rfl)
  | number x =>
      obtain ⟨hx, q, rfl⟩ := h
      obtain ⟨c, cs, htext, hc, _⟩ := text_cons hx
      have hread := readPlain_number hx hrest
      rw [Json.text, numberText]
      rw [htext, List.cons_append] at hread ⊢
      rw [readValue_plain (isPlainHead_of_number hc), hread]
  | string s =>
      obtain ⟨cs, hcs, hread⟩ := readString_quoted s rest
      rw [Json.text, hcs, readValue_string, hread]
      rfl
  | array items =>
      cases items with
      | nil => rw [Json.text]; rfl
      | cons item items =>
          rw [Json.text, List.cons_append, List.length_cons, ← itemsText] at hfuel
          have hitems := ih.items (item :: items) (List.cons_ne_nil _ _) h
            (Nat.lt_of_succ_lt_succ hfuel) rest
          obtain ⟨c, cs, htext, hspace, hne⟩ := text_head item h.1
          rw [itemsText, htext] at hitems
          rw [Json.text, htext]
          simp only [List.cons_append] at hitems ⊢
          rw [readValue_array hspace hne, hitems]
          rfl
  | object fields =>
      cases fields with
      | nil => rw [Json.text]; rfl
      | cons field fields =>
          rw [Json.text, List.cons_append, List.length_cons, ← fieldsText] at hfuel
          have hfields := ih.fields (field :: fields) (List.cons_ne_nil _ _) h
            (Nat.lt_of_succ_lt_succ hfuel) rest
          obtain ⟨key, value⟩ := field
          rw [fieldsText, textField, quoted] at hfields
          rw [Json.text, textField, quoted]
          simp only [List.cons_append] at hfields ⊢
          rw [readValue_object, hfields]
          rfl

include ih in
theorem readItems_text (item : Json) (items : List Json) (h : ExactItems (item :: items))
    (hfuel : (itemsText (item :: items)).length < fuel + 1) (rest : List Char) :
    readItems (fuel + 1) (itemsText (item :: items) ++ rest) = some (item :: items, rest) := by
  have hpos := textItems_length_pos items
  rw [itemsText, List.length_append] at hfuel
  rw [itemsText, List.append_assoc]
  cases items with
  | nil =>
      apply readItems_last
      rw [textItems]
      exact ih.value item h.1 (by omega) _ (follows_cons (by decide) rest)
  | cons item' items =>
      have htail : textItems (item' :: items) = ',' :: itemsText (item' :: items) := by
        rw [textItems, itemsText, List.cons_append]
      rw [htail] at hfuel ⊢
      rw [List.length_cons] at hfuel
      rw [List.cons_append, readItems_more (ih.value item h.1 (by omega) _ (follows_cons (by decide) _)),
        ih.items (item' :: items) (List.cons_ne_nil _ _) h.2 (by omega) rest]
      rfl

include ih in
theorem readFields_text (key : String) (value : Json) (fields : List (String × Json))
    (h : ExactFields ((key, value) :: fields))
    (hfuel : (fieldsText ((key, value) :: fields)).length < fuel + 1) (rest : List Char) :
    readFields (fuel + 1) (fieldsText ((key, value) :: fields) ++ rest) =
      some ((key, value) :: fields, rest) := by
  have hpos := textFields_length_pos fields
  rw [fieldsText, textField, List.length_append, List.length_append, List.length_cons] at hfuel
  rw [fieldsText, textField, List.append_assoc, List.append_assoc]
  obtain ⟨cs, hcs, hread⟩ := readString_quoted key (':' :: value.text ++ (textFields fields ++ rest))
  rw [hcs]
  cases fields with
  | nil =>
      apply readFields_last hread
      rw [textFields]
      exact ih.value value h.1 (by omega) _ (follows_cons (by decide) rest)
  | cons field' fields =>
      have htail : textFields (field' :: fields) = ',' :: fieldsText (field' :: fields) := by
        rw [textFields, fieldsText, List.cons_append]
      simp only [htail, List.cons_append] at hread
      rw [htail, List.length_cons] at hfuel
      rw [readFields_more hread (ih.value value h.1 (by omega) _ (follows_cons (by decide) _)),
        ih.fields (field' :: fields) (List.cons_ne_nil _ _) h.2 (by omega) rest]
      rfl

end Step

theorem reads (fuel : Nat) : Reads fuel := by
  induction fuel with
  | zero =>
      refine ⟨?_, ?_, ?_⟩
      all_goals
        intros
        omega
  | succ fuel ih =>
      refine ⟨fun j h hlt rest => readValue_text ih j h hlt rest, ?_, ?_⟩
      · intro items hne h hlt rest
        obtain ⟨item, items, rfl⟩ := List.exists_cons_of_ne_nil hne
        exact readItems_text ih item items h hlt rest
      · intro fields hne h hlt rest
        obtain ⟨⟨key, value⟩, fields, rfl⟩ := List.exists_cons_of_ne_nil hne
        exact readFields_text ih key value fields h hlt rest

/-- `JSON.parse(JSON.stringify(j))` gives `j` back. -/
theorem parse_stringify (j : Json) (h : Exact j) : parse (stringify j) = some j := by
  have hread := (reads (2 * j.text.length + 2)).value j h (by omega) [] nofun
  rw [List.append_nil] at hread
  rw [parse, stringify, String.toList_ofList, hread, Option.bind_some]
  exact if_pos rfl

end Values

end SplitSdk.JsonRoundTrip
