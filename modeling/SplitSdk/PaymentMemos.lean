import Mathlib.Data.List.DropRight
import SplitSdk.PrefixBudgets
import SplitSdk.TextEncoding

namespace SplitSdk.PaymentMemos

open NumberText PrefixBudgets

section Model

def MEMO_PREFIX : List Char := ['s', 'p', 'l', 'i', 't', ':']

def MEMO_MAX_BYTES : Nat := 28

/-- The bytes of a text, whose surrogates come in pairs. -/
def byteLength (text : List Char) : Nat := (text.flatMap String.utf8EncodeChar).length

def charBytes (c : Char) : Nat :=
  if 0xffff < c.toNat then 4 else if 0x7ff < c.toNat then 3 else if 0x7f < c.toNat then 2 else 1

/-- What the loop passes before it comes to a character that goes beyond the limit. -/
def walk (maxBytes : Nat) : Nat → List Char → List Char
  | _, [] => []
  | bytes, c :: text => if maxBytes < bytes + charBytes c then [] else c :: walk maxBytes (bytes + charBytes c) text

def truncateToBytes (text : List Char) (maxBytes : Nat) : List Char :=
  if byteLength text ≤ maxBytes then text else walk maxBytes 0 text

/-- A tranche is a whole number below 2 ^ 53, which is written with all its digits; others are left out. -/
def trancheText : Option Nat → List Char
  | none => []
  | some tranche => ':' :: 't' :: Nat.toDigits 10 tranche

def buildPaymentMemo (invoiceId : List Char) (tranche : Option Nat) : List Char :=
  truncateToBytes (MEMO_PREFIX ++ invoiceId ++ trancheText tranche) MEMO_MAX_BYTES

/-- What `.` stands for in a pattern: no line terminator. -/
def isDot (c : Char) : Bool := c ∉ ['\n', '\r', '\u2028', '\u2029']

/-- The groups of `body.match(/^(.*):t(\d+)$/)`. -/
def trancheMatch (body : List Char) : Option (List Char × List Char) :=
  match (body.rdropWhile Char.isDigit).reverse with
  | 't' :: ':' :: before =>
      if body.rtakeWhile Char.isDigit ≠ [] ∧ before.all isDot then some (before.reverse, body.rtakeWhile Char.isDigit) else none
  | _ => none

def parsePaymentMemo (memo : List Char) : Option (List Char × Option Nat) :=
  if MEMO_PREFIX <+: memo then
    let body := memo.drop MEMO_PREFIX.length
    match trancheMatch body with
    | some (invoiceId, digits) => some (invoiceId, some (Nat.ofDigitChars 10 digits 0))
    | none => some (body, none)
  else none

end Model

section Bytes

variable {text : List Char}

theorem charBytes_eq (c : Char) : charBytes c = c.utf8Size := by
  have htoNat : c.toNat = c.val.toNat := rfl
  simp only [charBytes, Char.utf8Size, htoNat, UInt32.le_iff_toNat_le]
  norm_num
  split_ifs <;> omega

theorem byteLength_eq (text : List Char) : byteLength text = (text.map charBytes).sum := by
  rw [byteLength, List.length_flatMap]
  refine congrArg List.sum (List.map_congr_left (fun c _ => ?_))
  rw [charBytes_eq, String.length_utf8EncodeChar]

theorem byteLength_cons (c : Char) (text : List Char) : byteLength (c :: text) = charBytes c + byteLength text := by
  rw [byteLength_eq, byteLength_eq, List.map_cons, List.sum_cons]

theorem byteLength_append (front rest : List Char) : byteLength (front ++ rest) = byteLength front + byteLength rest := by
  rw [byteLength_eq, byteLength_eq, byteLength_eq, List.map_append, List.sum_append]

theorem charBytes_pos (c : Char) : 0 < charBytes c := by
  unfold charBytes
  split_ifs <;> decide

theorem charBytes_digit {c : Char} (h : c.isDigit) : charBytes c = 1 := by
  have hle : c.toNat ≤ 57 := by
    rw [Char.isDigit, Bool.and_eq_true, decide_eq_true_eq, decide_eq_true_eq] at h
    exact h.2
  rw [charBytes, if_neg (by omega), if_neg (by omega), if_neg (by omega)]

theorem byteLength_digits {ds : List Char} (h : AllDigits ds) : byteLength ds = ds.length := by
  induction ds with
  | nil => rfl
  | cons c ds ih =>
      rw [byteLength_cons, charBytes_digit (h c List.mem_cons_self), ih (fun d hd => h d (List.mem_cons_of_mem c hd)),
        List.length_cons, Nat.add_comm]

/-- What the loop costs. -/
def costs (text : List Char) : List Int := text.map (fun c => (charBytes c : Int))

theorem sum_costs (text : List Char) : (costs text).sum = byteLength text := by
  induction text with
  | nil => rfl
  | cons c text ih =>
      rw [costs, List.map_cons, List.sum_cons, ← costs, ih, byteLength_cons, Nat.cast_add]

theorem walk_eq_take {maxBytes bytes : Nat} (h : bytes ≤ maxBytes) (text : List Char) :
    walk maxBytes bytes text = text.take (affordable (maxBytes - bytes) (costs text)) := by
  induction text generalizing bytes with
  | nil => rfl
  | cons c text ih =>
      rw [walk, costs, List.map_cons]
      split_ifs with hlt
      · rw [affordable_cons_of_lt (by omega), List.take_zero]
      · rw [affordable_cons_of_le (by omega), ih (not_lt.mp hlt), List.take_succ_cons, sub_sub, Nat.cast_add]
        rfl

theorem truncate_eq_take (text : List Char) (maxBytes : Nat) :
    truncateToBytes text maxBytes = text.take (affordable maxBytes (costs text)) := by
  unfold truncateToBytes
  split_ifs with hle
  · have hall := (affordable_eq_length_iff (Int.natCast_nonneg maxBytes) (by simp [costs])).mpr
      (show (costs text).sum ≤ maxBytes by rw [sum_costs]; exact_mod_cast hle)
    rw [hall, costs, List.length_map, List.take_length]
  · rw [walk_eq_take (Nat.zero_le _), Nat.cast_zero, sub_zero]

theorem costs_take (text : List Char) (k : Nat) : (costs text).take k = costs (text.take k) := (List.map_take).symm

theorem byteLength_truncate_le (text : List Char) (maxBytes : Nat) : byteLength (truncateToBytes text maxBytes) ≤ maxBytes := by
  have hsum := sum_take_le (Int.natCast_nonneg maxBytes) (costs text)
  rw [costs_take, sum_costs, ← truncate_eq_take] at hsum
  exact_mod_cast hsum

theorem truncate_initial (text : List Char) (maxBytes : Nat) : truncateToBytes text maxBytes <+: text := by
  rw [truncate_eq_take]
  exact List.take_prefix _ _

/-- No longer part of the text fits. -/
theorem truncate_longest {front : List Char} {maxBytes : Nat} (hfront : front <+: text) (hle : byteLength front ≤ maxBytes) :
    front <+: truncateToBytes text maxBytes := by
  have hfits : front.length ≤ affordable maxBytes (costs text) := by
    refine (le_affordable_iff (Int.natCast_nonneg maxBytes) (by simp [costs]) ?_).mpr ?_
    · rw [costs, List.length_map]
      exact hfront.length_le
    · rw [costs_take, sum_costs, ← List.prefix_iff_eq_take.mp hfront]
      exact_mod_cast hle
  rw [truncate_eq_take, List.prefix_iff_eq_take.mp hfront]
  exact List.take_prefix_take_left hfits

theorem truncate_of_fits {maxBytes : Nat} (h : byteLength text ≤ maxBytes) : truncateToBytes text maxBytes = text := if_pos h

theorem truncate_append {front : List Char} {maxBytes : Nat} (h : byteLength front ≤ maxBytes) (rest : List Char) :
    truncateToBytes (front ++ rest) maxBytes = front ++ truncateToBytes rest (maxBytes - byteLength front) := by
  have hshort : front ++ truncateToBytes rest (maxBytes - byteLength front) <+: truncateToBytes (front ++ rest) maxBytes := by
    refine truncate_longest (List.prefix_append_right_inj front |>.mpr (truncate_initial rest _)) ?_
    rw [byteLength_append]
    have hle := byteLength_truncate_le rest (maxBytes - byteLength front)
    omega
  obtain ⟨tail, htail⟩ := truncate_longest (List.prefix_append front rest) h
  have hlong : truncateToBytes (front ++ rest) maxBytes <+: front ++ truncateToBytes rest (maxBytes - byteLength front) := by
    have hinitial := truncate_initial (front ++ rest) maxBytes
    have hle := byteLength_truncate_le (front ++ rest) maxBytes
    rw [← htail, List.prefix_append_right_inj] at hinitial
    rw [← htail, byteLength_append] at hle
    rw [← htail, List.prefix_append_right_inj]
    exact truncate_longest hinitial (by omega)
  exact hlong.eq_of_length (Nat.le_antisymm hlong.length_le hshort.length_le)

theorem truncate_digits {ds : List Char} (h : AllDigits ds) (maxBytes : Nat) : truncateToBytes ds maxBytes = ds.take maxBytes := by
  have hinitial := truncate_initial ds maxBytes
  have hdigits : AllDigits (truncateToBytes ds maxBytes) := fun c hc => h c (hinitial.subset hc)
  have hshort : truncateToBytes ds maxBytes <+: ds.take maxBytes := by
    rw [List.prefix_take_iff]
    exact ⟨hinitial, byteLength_digits hdigits ▸ byteLength_truncate_le ds maxBytes⟩
  have hlong : ds.take maxBytes <+: truncateToBytes ds maxBytes := by
    refine truncate_longest (List.take_prefix _ _) ?_
    rw [byteLength_digits (fun c hc => h c (List.mem_of_mem_take hc))]
    exact List.length_take_le _ _
  exact hshort.eq_of_length (Nat.le_antisymm hshort.length_le hlong.length_le)

end Bytes

section Patterns

variable {body invoiceId digits : List Char}

/-- The pattern matches the text with these groups. -/
structure Matches (body invoiceId digits : List Char) : Prop where
  shape : body = invoiceId ++ ':' :: 't' :: digits
  ne_nil : digits ≠ []
  digits : AllDigits digits
  dots : ∀ c ∈ invoiceId, isDot c

theorem split_digits (hdigits : AllDigits digits) (invoiceId : List Char) :
    (invoiceId ++ ':' :: 't' :: digits).rdropWhile Char.isDigit = invoiceId ++ [':', 't'] ∧
      (invoiceId ++ ':' :: 't' :: digits).rtakeWhile Char.isDigit = digits := by
  have hreverse : (invoiceId ++ ':' :: 't' :: digits).reverse = digits.reverse ++ 't' :: ':' :: invoiceId.reverse := by simp
  have hall : ∀ c ∈ digits.reverse, c.isDigit := fun c hc => hdigits c (List.mem_reverse.mp hc)
  have hletter : ¬ 't'.isDigit := by decide
  constructor
  · rw [List.rdropWhile, hreverse, List.dropWhile_append_of_pos hall, List.dropWhile_cons_of_neg hletter]
    simp
  · rw [List.rtakeWhile, hreverse, List.takeWhile_append_of_pos hall, List.takeWhile_cons_of_neg hletter]
    simp

theorem trancheMatch_iff : trancheMatch body = some (invoiceId, digits) ↔ Matches body invoiceId digits := by
  constructor
  · intro h
    unfold trancheMatch at h
    split at h
    · rename_i before hbefore
      split_ifs at h with hgroups
      obtain ⟨rfl, rfl⟩ := Prod.mk.inj (Option.some.inj h)
      refine ⟨?_, hgroups.1, fun c hc => List.mem_rtakeWhile_imp hc, fun c hc => List.all_eq_true.mp hgroups.2 c (List.mem_reverse.mp hc)⟩
      have hdropped := congrArg List.reverse hbefore
      rw [List.reverse_reverse, List.reverse_cons, List.reverse_cons] at hdropped
      conv_lhs => rw [← List.rdropWhile_append_rtakeWhile (p := Char.isDigit) (l := body), hdropped]
      simp
    · nomatch h
  · rintro ⟨rfl, hne, hdigits, hdots⟩
    obtain ⟨hdrop, htake⟩ := split_digits hdigits invoiceId
    have hreverse : (invoiceId ++ [':', 't']).reverse = 't' :: ':' :: invoiceId.reverse := by simp
    have hall : invoiceId.reverse.all isDot := List.all_eq_true.mpr (fun c hc => hdots c (List.mem_reverse.mp hc))
    rw [trancheMatch, hdrop, htake, hreverse]
    exact (if_pos ⟨hne, hall⟩).trans (by rw [List.reverse_reverse])

theorem trancheMatch_tranche (tranche : Nat) (k : Nat) (hk : 0 < k) (hdots : ∀ c ∈ invoiceId, isDot c) :
    trancheMatch (invoiceId ++ ':' :: 't' :: (Nat.toDigits 10 tranche).take k) = some (invoiceId, (Nat.toDigits 10 tranche).take k) := by
  refine trancheMatch_iff.mpr ⟨rfl, fun hnil => ?_, fun c hc => allDigits_toDigits tranche c (List.mem_of_mem_take hc), hdots⟩
  rcases List.take_eq_nil_iff.mp hnil with hzero | hzero
  · exact Nat.lt_irrefl 0 (hzero ▸ hk)
  · exact Nat.toDigits_ne_nil hzero

/-- The leading digits of a number. -/
theorem value_take (n k : Nat) :
    Nat.ofDigitChars 10 ((Nat.toDigits 10 n).take k) 0 = n / 10 ^ ((Nat.toDigits 10 n).length - k) := by
  have hsum : Nat.ofDigitChars 10 ((Nat.toDigits 10 n).take k ++ (Nat.toDigits 10 n).drop k) 0 = n := by
    rw [List.take_append_drop, Nat.ofDigitChars_ten_toDigits]
  have hrest : Nat.ofDigitChars 10 ((Nat.toDigits 10 n).drop k) 0 < 10 ^ ((Nat.toDigits 10 n).length - k) := by
    rw [← List.length_drop]
    exact ofDigitChars_lt (fun c hc => allDigits_toDigits n c (List.mem_of_mem_drop hc))
  rw [Nat.ofDigitChars_append, Nat.ofDigitChars_eq_ofDigitChars_zero, List.length_drop] at hsum
  have hpos : 0 < 10 ^ ((Nat.toDigits 10 n).length - k) := Nat.pow_pos (by decide)
  refine (Nat.div_eq_of_lt_le ?_ ?_).symm
  · rw [Nat.mul_comm]
    omega
  · rw [Nat.mul_comm, Nat.mul_add, Nat.mul_one]
    omega

/-- No part of a number's text stands for the number. -/
theorem eq_toDigits_of_initial {n : Nat} (hinitial : digits <+: Nat.toDigits 10 n) (hne : digits ≠ [])
    (hvalue : Nat.ofDigitChars 10 digits 0 = n) : digits = Nat.toDigits 10 n := by
  have htake := List.prefix_iff_eq_take.mp hinitial
  have hdivide := value_take n digits.length
  rw [← htake, hvalue] at hdivide
  refine hinitial.eq_of_length (hinitial.length_le.antisymm (not_lt.mp (fun hlt => ?_)))
  rcases Nat.eq_zero_or_pos n with rfl | hpos
  · have hone : (Nat.toDigits 10 0).length = 1 := rfl
    exact hne (List.length_eq_zero_iff.mp (by omega))
  · have hless : n / 10 ^ ((Nat.toDigits 10 n).length - digits.length) < n :=
      Nat.div_lt_self hpos (Nat.one_lt_pow (by omega) (by decide))
    exact absurd hdivide.symm hless.ne

end Patterns

section Memos

variable {invoiceId : List Char} {tranche : Option Nat}

/-- What stands after the prefix. -/
def memoBody (invoiceId : List Char) (tranche : Option Nat) : List Char := truncateToBytes (invoiceId ++ trancheText tranche) 22

theorem memo_fits_iff (invoiceId : List Char) (tranche : Option Nat) :
    byteLength (MEMO_PREFIX ++ invoiceId ++ trancheText tranche) ≤ MEMO_MAX_BYTES ↔ byteLength (invoiceId ++ trancheText tranche) ≤ 22 := by
  have hbytes : byteLength MEMO_PREFIX = 6 := rfl
  rw [List.append_assoc, byteLength_append, hbytes, MEMO_MAX_BYTES]
  omega

theorem build_eq (invoiceId : List Char) (tranche : Option Nat) : buildPaymentMemo invoiceId tranche = MEMO_PREFIX ++ memoBody invoiceId tranche := by
  have hbytes : byteLength MEMO_PREFIX = 6 := rfl
  rw [buildPaymentMemo, List.append_assoc, truncate_append (by rw [hbytes]; decide), hbytes]
  rfl

theorem parse_build (invoiceId : List Char) (tranche : Option Nat) :
    parsePaymentMemo (buildPaymentMemo invoiceId tranche) = some (match trancheMatch (memoBody invoiceId tranche) with
      | some (id, digits) => (id, some (Nat.ofDigitChars 10 digits 0))
      | none => (memoBody invoiceId tranche, none)) := by
  rw [build_eq, parsePaymentMemo, if_pos (List.prefix_append _ _), List.drop_left]
  dsimp only
  split <;> rfl

theorem memoBody_of_fits (h : byteLength (invoiceId ++ trancheText tranche) ≤ 22) :
    memoBody invoiceId tranche = invoiceId ++ trancheText tranche := truncate_of_fits h

theorem length_memoBody_lt (h : 22 < byteLength (invoiceId ++ trancheText tranche)) :
    (memoBody invoiceId tranche).length < (invoiceId ++ trancheText tranche).length := by
  have hinitial := truncate_initial (invoiceId ++ trancheText tranche) 22
  refine lt_of_le_of_ne hinitial.length_le (fun heq => ?_)
  have hle := byteLength_truncate_le (invoiceId ++ trancheText tranche) 22
  rw [hinitial.eq_of_length heq] at hle
  exact absurd hle (Nat.not_le.mpr h)

theorem memoBody_tranche (h : byteLength invoiceId ≤ 20) (n : Nat) :
    memoBody invoiceId (some n) = invoiceId ++ ':' :: 't' :: (Nat.toDigits 10 n).take (20 - byteLength invoiceId) := by
  have hsplit : invoiceId ++ trancheText (some n) = (invoiceId ++ [':', 't']) ++ Nat.toDigits 10 n := by simp [trancheText]
  have hbytes : byteLength (invoiceId ++ [':', 't']) = byteLength invoiceId + 2 := by
    rw [byteLength_append]
    rfl
  have hroom : 22 - (byteLength invoiceId + 2) = 20 - byteLength invoiceId := by omega
  rw [memoBody, hsplit, truncate_append (by omega), truncate_digits (allDigits_toDigits n), hbytes, hroom, List.append_assoc]
  rfl

/-- Read back, a tranche is what its digits that fit stand for: one that is cut is not left out, it becomes another. -/
theorem parse_tranche (hid : byteLength invoiceId ≤ 19) (hdots : ∀ c ∈ invoiceId, isDot c) (n : Nat) :
    parsePaymentMemo (buildPaymentMemo invoiceId (some n)) =
      some (invoiceId, some (n / 10 ^ ((Nat.toDigits 10 n).length - (20 - byteLength invoiceId)))) := by
  rw [parse_build, memoBody_tranche (by omega), trancheMatch_tranche n _ (by omega) hdots]
  dsimp only
  rw [value_take]

def sampleInvoice : List Char := List.replicate 19 '7'

theorem parse_tranche_cut : parsePaymentMemo (buildPaymentMemo sampleInvoice (some 12)) =
    some (sampleInvoice, some (12 / 10 ^ ((Nat.toDigits 10 12).length - (20 - byteLength sampleInvoice)))) :=
  parse_tranche (by decide) (fun _ hc => List.eq_of_mem_replicate hc ▸ rfl) 12

/-- An invoice and a tranche are read back exactly when the memo has room for all of them, and the invoice cannot be taken for another text. -/
theorem parse_build_iff (invoiceId : List Char) (tranche : Option Nat) :
    parsePaymentMemo (buildPaymentMemo invoiceId tranche) = some (invoiceId, tranche) ↔
      byteLength (MEMO_PREFIX ++ invoiceId ++ trancheText tranche) ≤ MEMO_MAX_BYTES ∧
        if tranche = none then ∀ id digits, ¬Matches invoiceId id digits else ∀ c ∈ invoiceId, isDot c := by
  rw [parse_build, Option.some_inj, memo_fits_iff]
  rcases Nat.lt_or_ge 22 (byteLength (invoiceId ++ trancheText tranche)) with hlong | hfits
  · refine iff_of_false (fun heq => ?_) (fun h => absurd h.1 (Nat.not_le.mpr hlong))
    have hlength := length_memoBody_lt hlong
    split at heq
    · rename_i id digits hmatch
      obtain ⟨rfl, rfl⟩ := Prod.mk.inj heq
      obtain ⟨hshape, hne, -, -⟩ := trancheMatch_iff.mp hmatch
      have hinitial : digits <+: Nat.toDigits 10 (Nat.ofDigitChars 10 digits 0) := by
        have hbody := truncate_initial (id ++ trancheText (some (Nat.ofDigitChars 10 digits 0))) 22
        rw [← memoBody, hshape, trancheText, List.prefix_append_right_inj, List.cons_prefix_cons, List.cons_prefix_cons] at hbody
        exact hbody.2.2
      rw [hshape, trancheText, ← eq_toDigits_of_initial hinitial hne rfl] at hlength
      exact Nat.lt_irrefl _ hlength
    · obtain ⟨hbody, rfl⟩ := Prod.mk.inj heq
      rw [hbody, trancheText, List.append_nil] at hlength
      exact Nat.lt_irrefl _ hlength
  · rw [memoBody_of_fits hfits, and_iff_right hfits]
    cases tranche with
    | none =>
        rw [if_pos rfl, trancheText, List.append_nil]
        constructor
        · intro heq id digits hmatch
          rw [trancheMatch_iff.mpr hmatch] at heq
          nomatch (Prod.mk.inj heq).2
        · intro hnone
          cases hmatch : trancheMatch invoiceId with
          | none => rfl
          | some groups => exact absurd (trancheMatch_iff.mp hmatch) (hnone groups.1 groups.2)
    | some n =>
        rw [if_neg (Option.some_ne_none n), trancheText]
        constructor
        · intro heq
          split at heq
          · rename_i id digits hmatch
            exact (Prod.mk.inj heq).1 ▸ (trancheMatch_iff.mp hmatch).dots
          · nomatch (Prod.mk.inj heq).2
        · intro hdots
          have hmatch := trancheMatch_tranche n (Nat.toDigits 10 n).length (List.length_pos_of_ne_nil Nat.toDigits_ne_nil) hdots
          rw [List.take_length] at hmatch
          rw [hmatch]
          dsimp only
          rw [Nat.ofDigitChars_ten_toDigits]

end Memos

end SplitSdk.PaymentMemos
