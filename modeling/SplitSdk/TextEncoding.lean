import SplitSdk.JsonRoundTrip
import Mathlib.Data.List.Basic
import Mathlib.Data.UInt

namespace SplitSdk.TextEncoding

open JsonText JsonRoundTrip

section Utf16

/-- The code units of a string, where surrogates need not come in pairs. -/
abbrev Units := List UInt16

def unitsOfChar (c : Char) : List Nat :=
  if c.toNat < 0x10000 then [c.toNat]
  else [0xD800 + (c.toNat - 0x10000) / 0x400, 0xDC00 + (c.toNat - 0x10000) % 0x400]

def utf16 (s : String) : Units := (s.toList.flatMap unitsOfChar).map UInt16.ofNat

/-- `s.toWellFormed()`: lone surrogates become U+FFFD. -/
def toWellFormed (u : Units) : String := String.ofList (joinUnits none (u.map UInt16.toNat))

def IsWellFormed (u : Units) : Prop := utf16 (toWellFormed u) = u

instance (u : Units) : Decidable (IsWellFormed u) := inferInstanceAs (Decidable (_ = _))

theorem joinUnits_unitsOfChar (c : Char) (rest : List Nat) :
    joinUnits none (unitsOfChar c ++ rest) = c :: joinUnits none rest := by
  have hvalid : c.toNat < 0xD800 ∨ 0xDFFF < c.toNat ∧ c.toNat < 0x110000 := c.valid
  unfold unitsOfChar
  split_ifs with h
  · obtain ⟨hhigh, hlow⟩ := isHigh_toNat c
    rw [List.singleton_append, joinUnits, hhigh, hlow, if_neg Bool.false_ne_true,
      if_neg Bool.false_ne_true, Char.ofNat_toNat]
  · have hhigh : isHigh (0xD800 + (c.toNat - 0x10000) / 0x400) = true := by
      simp only [isHigh, Bool.and_eq_true, decide_eq_true_eq]
      omega
    have hlow : isLow (0xDC00 + (c.toNat - 0x10000) % 0x400) = true := by
      simp only [isLow, Bool.and_eq_true, decide_eq_true_eq]
      omega
    have hsum : 0x10000 + (0xD800 + (c.toNat - 0x10000) / 0x400 - 0xD800) * 0x400 +
        (0xDC00 + (c.toNat - 0x10000) % 0x400 - 0xDC00) = c.toNat := by omega
    rw [List.cons_append, List.singleton_append, joinUnits, if_pos hhigh, joinUnits, if_pos hlow, hsum,
      Char.ofNat_toNat]

theorem unitsOfChar_lt (c : Char) : ∀ n ∈ unitsOfChar c, n < 0x10000 := by
  have hvalid : c.toNat < 0xD800 ∨ 0xDFFF < c.toNat ∧ c.toNat < 0x110000 := c.valid
  unfold unitsOfChar
  generalize c.toNat = v at hvalid
  split_ifs with h
  · rw [List.forall_mem_singleton]
    exact h
  · rw [List.forall_mem_cons, List.forall_mem_singleton]
    omega

theorem toWellFormed_utf16_append (s : String) (u : Units) : toWellFormed (utf16 s ++ u) = s ++ toWellFormed u := by
  have hchars : ∀ (cs : List Char) rest,
      joinUnits none (cs.flatMap unitsOfChar ++ rest) = cs ++ joinUnits none rest := by
    intro cs rest
    induction cs with
    | nil => rfl
    | cons c cs ih => rw [List.flatMap_cons, List.append_assoc, joinUnits_unitsOfChar, ih, List.cons_append]
  have hunits : ∀ n ∈ s.toList.flatMap unitsOfChar, UInt16.toNat (UInt16.ofNat n) = n := by
    intro n hn
    obtain ⟨c, _, hc⟩ := List.mem_flatMap.mp hn
    rw [UInt16.toNat_ofNat']
    exact Nat.mod_eq_of_lt (unitsOfChar_lt c n hc)
  have hmap : (s.toList.flatMap unitsOfChar).map (UInt16.toNat ∘ UInt16.ofNat) =
      s.toList.flatMap unitsOfChar :=
    (List.map_congr_left hunits).trans (List.map_id _)
  rw [toWellFormed, utf16, List.map_append, List.map_map, hmap, hchars, String.ofList_append,
    String.ofList_toList, toWellFormed]

theorem toWellFormed_utf16 (s : String) : toWellFormed (utf16 s) = s := by
  have h := toWellFormed_utf16_append s []
  rwa [List.append_nil, show toWellFormed [] = "" from rfl, String.append_empty] at h

theorem isWellFormed_utf16 (s : String) : IsWellFormed (utf16 s) := by
  rw [IsWellFormed, toWellFormed_utf16]

end Utf16

section Utf8

def utf8 (s : String) : List UInt8 := s.toList.flatMap String.utf8EncodeChar

/-- A sequence that still lacks `needed` bytes, the next of them from `low` to below `high`. -/
structure Pending where
  needed : Nat
  low : Nat
  high : Nat
  value : Nat
  deriving DecidableEq

def replacement : Char := Char.ofNat 0xFFFD

/-- The first byte of a sequence. -/
def lead (b : Nat) : List Char × Option Pending :=
  if b < 0x80 then ([Char.ofNat b], none)
  else if b < 0xC2 then ([replacement], none)
  else if b < 0xE0 then ([], some ⟨1, 0x80, 0xC0, b - 0xC0⟩)
  else if b = 0xE0 then ([], some ⟨2, 0xA0, 0xC0, 0⟩)
  else if b = 0xED then ([], some ⟨2, 0x80, 0xA0, 0xD⟩)
  else if b < 0xF0 then ([], some ⟨2, 0x80, 0xC0, b - 0xE0⟩)
  else if b = 0xF0 then ([], some ⟨3, 0x90, 0xC0, 0⟩)
  else if b < 0xF4 then ([], some ⟨3, 0x80, 0xC0, b - 0xF0⟩)
  else if b = 0xF4 then ([], some ⟨3, 0x80, 0x90, 4⟩)
  else ([replacement], none)

def decodeFrom : Option Pending → List Nat → List Char
  | none, [] => []
  | some _, [] => [replacement]
  | none, b :: bs => (lead b).1 ++ decodeFrom (lead b).2 bs
  | some p, b :: bs =>
      if p.low ≤ b ∧ b < p.high then
        if p.needed = 1 then Char.ofNat (p.value * 64 + (b - 0x80)) :: decodeFrom none bs
        else decodeFrom (some ⟨p.needed - 1, 0x80, 0xC0, p.value * 64 + (b - 0x80)⟩) bs
      -- the byte that does not fit may begin the next sequence
      else replacement :: (lead b).1 ++ decodeFrom (lead b).2 bs

/-- `buffer.toString("utf8")`: ill-formed sequences become U+FFFD. -/
def decodeUtf8 (bs : List UInt8) : String := String.ofList (decodeFrom none (bs.map UInt8.toNat))

theorem lead_two : ∀ k < 32, 2 ≤ k → lead (k + 0xC0) = ([], some ⟨1, 0x80, 0xC0, k⟩) := by decide

theorem lead_three : ∀ k < 16, lead (k + 0xE0) =
    ([], some ⟨2, if k = 0 then 0xA0 else 0x80, if k = 0xD then 0xA0 else 0xC0, k⟩) := by decide

theorem lead_four : ∀ k < 5, lead (k + 0xF0) =
    ([], some ⟨3, if k = 0 then 0x90 else 0x80, if k = 4 then 0x90 else 0xC0, k⟩) := by decide

section Decode

variable {b low high value : Nat} (bs : List Nat)

theorem decodeFrom_lead {p : Pending} (h : lead b = ([], some p)) :
    decodeFrom none (b :: bs) = decodeFrom (some p) bs := by
  rw [decodeFrom, h, List.nil_append]

theorem decodeFrom_last (d : Nat) (hd : d < 0x40) :
    decodeFrom (some ⟨1, 0x80, 0xC0, value⟩) ((d + 0x80) :: bs) =
      Char.ofNat (value * 64 + d) :: decodeFrom none bs := by
  rw [decodeFrom, if_pos ⟨by dsimp only; omega, by dsimp only; omega⟩, if_pos rfl, Nat.add_sub_cancel]

theorem decodeFrom_next (n d : Nat) (h : low ≤ d + 0x80 ∧ d + 0x80 < high) :
    decodeFrom (some ⟨n + 2, low, high, value⟩) ((d + 0x80) :: bs) =
      decodeFrom (some ⟨n + 1, 0x80, 0xC0, value * 64 + d⟩) bs := by
  rw [decodeFrom, if_pos h, if_neg (by dsimp only; omega), Nat.add_sub_cancel]
  rfl

end Decode

theorem decodeFrom_utf8EncodeChar (c : Char) (rest : List Nat) :
    decodeFrom none ((String.utf8EncodeChar c).map UInt8.toNat ++ rest) = c :: decodeFrom none rest := by
  have hvalid : c.toNat < 0xD800 ∨ 0xDFFF < c.toNat ∧ c.toNat < 0x110000 := c.valid
  have hnat : c.val.toNat = c.toNat := rfl
  have hchar : Char.ofNat c.toNat = c := Char.ofNat_toNat c
  have hbyte : ∀ n, n < 256 → (UInt8.ofNat n).toNat = n := by
    intro n hn
    rw [UInt8.toNat_ofNat']
    exact Nat.mod_eq_of_lt hn
  unfold String.utf8EncodeChar
  rw [hnat]
  generalize c.toNat = v at hvalid hchar ⊢
  dsimp only
  split_ifs with h1 h2 h3
  · rw [List.map_singleton, hbyte v (by omega), List.singleton_append, decodeFrom, lead,
      if_pos (by omega), hchar]
    rfl
  · simp only [List.map_cons, List.map_nil, List.cons_append, List.nil_append]
    rw [hbyte _ (by omega), hbyte _ (by omega), decodeFrom_lead _ (lead_two _ (by omega) (by omega)),
      decodeFrom_last _ _ (by omega)]
    have hsum : v / 64 % 0x20 * 64 + v % 0x40 = v := by omega
    rw [hsum, hchar]
  · simp only [List.map_cons, List.map_nil, List.cons_append, List.nil_append]
    rw [hbyte _ (by omega), hbyte _ (by omega), hbyte _ (by omega),
      decodeFrom_lead _ (lead_three _ (by omega)), decodeFrom_next _ 0 _ (by split_ifs <;> omega),
      decodeFrom_last _ _ (by omega)]
    have hsum : (v / 4096 % 0x10 * 64 + v / 64 % 0x40) * 64 + v % 0x40 = v := by omega
    rw [hsum, hchar]
  · simp only [List.map_cons, List.map_nil, List.cons_append, List.nil_append]
    rw [hbyte _ (by omega), hbyte _ (by omega), hbyte _ (by omega), hbyte _ (by omega),
      decodeFrom_lead _ (lead_four _ (by omega)), decodeFrom_next _ 1 _ (by split_ifs <;> omega),
      decodeFrom_next _ 0 _ (by omega), decodeFrom_last _ _ (by omega)]
    have hsum : ((v / 262144 % 0x08 * 64 + v / 4096 % 0x40) * 64 + v / 64 % 0x40) * 64 + v % 0x40 = v := by
      omega
    rw [hsum, hchar]

theorem decodeUtf8_utf8 (s : String) : decodeUtf8 (utf8 s) = s := by
  have h : ∀ cs : List Char,
      decodeFrom none ((cs.flatMap String.utf8EncodeChar).map UInt8.toNat) = cs := by
    intro cs
    induction cs with
    | nil => rfl
    | cons c cs ih => rw [List.flatMap_cons, List.map_append, decodeFrom_utf8EncodeChar, ih]
  rw [decodeUtf8, utf8, h, String.ofList_toList]

theorem utf8_injective {s s' : String} (h : utf8 s = utf8 s') : s = s' := by
  rw [← decodeUtf8_utf8 s, h, decodeUtf8_utf8]

end Utf8

section Base64

def base64Digit (n : Nat) : Char :=
  if n < 26 then Char.ofNat (n + 65)
  else if n < 52 then Char.ofNat (n + 71)
  else if n < 62 then Char.ofNat (n - 4)
  else if n = 62 then '+'
  else '/'

/-- Both alphabets are read. -/
def base64Value (c : Char) : Option Nat :=
  if 'A' ≤ c ∧ c ≤ 'Z' then some (c.toNat - 65)
  else if 'a' ≤ c ∧ c ≤ 'z' then some (c.toNat - 71)
  else if '0' ≤ c ∧ c ≤ '9' then some (c.toNat + 4)
  else if c = '+' ∨ c = '-' then some 62
  else if c = '/' ∨ c = '_' then some 63
  else none

def base64Chars : List Nat → List Char
  | a :: b :: c :: bs =>
      base64Digit (a / 4) :: base64Digit (a % 4 * 16 + b / 16) :: base64Digit (b % 16 * 4 + c / 64) ::
        base64Digit (c % 64) :: base64Chars bs
  | [a, b] => [base64Digit (a / 4), base64Digit (a % 4 * 16 + b / 16), base64Digit (b % 16 * 4), '=']
  | [a] => [base64Digit (a / 4), base64Digit (a % 4 * 16), '=', '=']
  | [] => []

/-- `buffer.toString("base64")`. -/
def base64 (bs : List UInt8) : String := String.ofList (base64Chars (bs.map UInt8.toNat))

def joinValues : List Nat → List Nat
  | v :: w :: x :: y :: vs => (v * 4 + w / 16) :: (w % 16 * 16 + x / 4) :: (x % 4 * 64 + y) :: joinValues vs
  | [v, w, x] => [v * 4 + w / 16, w % 16 * 16 + x / 4]
  | [v, w] => [v * 4 + w / 16]
  | _ => []

/-- `Buffer.from(s, "base64")`, which skips every character that is no digit. -/
def decodeBase64 (s : String) : List UInt8 :=
  (joinValues (s.toList.filterMap base64Value)).map UInt8.ofNat

theorem base64Value_base64Digit : ∀ n < 64, base64Value (base64Digit n) = some n := by
  decide

theorem joinValues_base64Chars (bs : List Nat) (h : ∀ b ∈ bs, b < 256) :
    joinValues ((base64Chars bs).filterMap base64Value) = bs := by
  have hpad : base64Value '=' = none := rfl
  induction bs using base64Chars.induct with
  | case1 a b c bs ih =>
      obtain ⟨ha, hb, hc, hbs⟩ : a < 256 ∧ b < 256 ∧ c < 256 ∧ ∀ x ∈ bs, x < 256 := by simpa using h
      simp only [base64Chars, List.filterMap_cons, base64Value_base64Digit _ (show a / 4 < 64 by omega),
        base64Value_base64Digit _ (show a % 4 * 16 + b / 16 < 64 by omega),
        base64Value_base64Digit _ (show b % 16 * 4 + c / 64 < 64 by omega),
        base64Value_base64Digit _ (show c % 64 < 64 by omega), joinValues, ih hbs]
      congr 1 <;> [omega; congr 1 <;> [omega; (congr 1; omega)]]
  | case2 a b =>
      obtain ⟨ha, hb⟩ : a < 256 ∧ b < 256 := by simpa using h
      simp only [base64Chars, List.filterMap_cons, List.filterMap_nil, hpad,
        base64Value_base64Digit _ (show a / 4 < 64 by omega),
        base64Value_base64Digit _ (show a % 4 * 16 + b / 16 < 64 by omega),
        base64Value_base64Digit _ (show b % 16 * 4 < 64 by omega), joinValues]
      congr 1 <;> [omega; (congr 1; omega)]
  | case3 a =>
      have ha : a < 256 := by simpa using h
      simp only [base64Chars, List.filterMap_cons, List.filterMap_nil, hpad,
        base64Value_base64Digit _ (show a / 4 < 64 by omega),
        base64Value_base64Digit _ (show a % 4 * 16 < 64 by omega), joinValues]
      congr 1
      omega
  | case4 => rfl

theorem map_ofNat_toNat (bs : List UInt8) : (bs.map UInt8.toNat).map UInt8.ofNat = bs := by
  rw [List.map_map]
  exact List.map_id'' (fun b => UInt8.ofNat_toNat) bs

theorem toNat_lt_of_mem_map (bs : List UInt8) : ∀ n ∈ bs.map UInt8.toNat, n < 256 := by
  intro n hn
  obtain ⟨b, _, rfl⟩ := List.mem_map.mp hn
  exact b.toNat_lt

theorem decodeBase64_base64 (bs : List UInt8) : decodeBase64 (base64 bs) = bs := by
  rw [decodeBase64, base64, String.toList_ofList, joinValues_base64Chars _ (toNat_lt_of_mem_map bs),
    map_ofNat_toNat]

end Base64

section Hex

def hexValue (c : Char) : Option Nat :=
  if '0' ≤ c ∧ c ≤ '9' then some (c.toNat - 48)
  else if 'a' ≤ c ∧ c ≤ 'f' then some (c.toNat - 87)
  else if 'A' ≤ c ∧ c ≤ 'F' then some (c.toNat - 55)
  else none

def hexChars (bs : List Nat) : List Char :=
  bs.flatMap (fun b => [Nat.digitChar (b / 16), Nat.digitChar (b % 16)])

/-- `buffer.toString("hex")`. -/
def hex (bs : List UInt8) : String := String.ofList (hexChars (bs.map UInt8.toNat))

/-- Pairs of digits up to the first character that is none. -/
def joinDigits : List Char → List Nat
  | c :: d :: cs =>
      match hexValue c, hexValue d with
      | some m, some n => (16 * m + n) :: joinDigits cs
      | _, _ => []
  | _ => []

/-- `Buffer.from(s, "hex")`. -/
def decodeHex (s : String) : List UInt8 := (joinDigits s.toList).map UInt8.ofNat

theorem hexValue_digitChar : ∀ n < 16, hexValue (Nat.digitChar n) = some n := by decide

theorem decodeHex_hex (bs : List UInt8) : decodeHex (hex bs) = bs := by
  have h : ∀ ns : List Nat, (∀ n ∈ ns, n < 256) → joinDigits (hexChars ns) = ns := by
    intro ns hns
    induction ns with
    | nil => rfl
    | cons n ns ih =>
        obtain ⟨hn, hns⟩ := List.forall_mem_cons.mp hns
        have hcons : hexChars (n :: ns) =
            Nat.digitChar (n / 16) :: Nat.digitChar (n % 16) :: hexChars ns := rfl
        rw [hcons, joinDigits, hexValue_digitChar _ (by omega), hexValue_digitChar _ (by omega)]
        dsimp only
        rw [ih hns, Nat.div_add_mod]
  rw [decodeHex, hex, String.toList_ofList, h _ (toNat_lt_of_mem_map bs), map_ofNat_toNat]

theorem digit_of_mem_hexChars {bs : List UInt8} {c : Char} (h : c ∈ hexChars (bs.map UInt8.toNat)) :
    ∃ n < 16, Nat.digitChar n = c := by
  obtain ⟨b, hb, hc⟩ := List.mem_flatMap.mp h
  have hlt := toNat_lt_of_mem_map bs b hb
  rcases List.mem_pair.mp hc with rfl | rfl
  · exact ⟨b / 16, by omega, rfl⟩
  · exact ⟨b % 16, by omega, rfl⟩

theorem length_hexChars (ns : List Nat) : (hexChars ns).length = 2 * ns.length := by
  induction ns with
  | nil => rfl
  | cons n ns ih =>
      rw [hexChars, List.flatMap_cons, List.length_append, ← hexChars, ih, List.length_cons]
      simp [Nat.mul_add, Nat.add_comm]

theorem hex_ne_empty {bs : List UInt8} (h : bs ≠ []) : hex bs ≠ "" := by
  intro he
  have hlength := length_hexChars (bs.map UInt8.toNat)
  rw [hex, String.ofList_eq_empty_iff] at he
  rw [he] at hlength
  simp_all

end Hex

end SplitSdk.TextEncoding
