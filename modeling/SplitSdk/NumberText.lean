import SplitSdk.Numbers
import Mathlib.Data.List.Induction
import Mathlib.Data.Nat.Prime.Basic
import Mathlib.Tactic.Ring
import Mathlib.Tactic.Linarith

namespace SplitSdk.NumberText

open Numbers

section Reading

def AllDigits (ds : List Char) : Prop := ∀ c ∈ ds, c.isDigit

theorem AllDigits.append {ds es : List Char} (hd : AllDigits ds) (he : AllDigits es) :
    AllDigits (ds ++ es) := by
  intro c hc
  exact (List.mem_append.mp hc).elim (hd c) (he c)

theorem allDigits_toDigits (n : Nat) : AllDigits (Nat.toDigits 10 n) :=
  fun _ hc => Nat.isDigit_of_mem_toDigits (by decide) (by decide) hc

theorem allDigits_replicate (z : Nat) : AllDigits (List.replicate z '0') := by
  intro c hc
  rw [List.eq_of_mem_replicate hc]
  rfl

theorem span_digits {ds : List Char} (rest : List Char) (hds : AllDigits ds)
    (hrest : ∀ c ∈ rest.head?, c.isDigit = false) :
    (ds ++ rest).span Char.isDigit = (ds, rest) := by
  rw [List.span_eq_takeWhile_dropWhile, List.takeWhile_append_of_pos hds,
    List.dropWhile_append_of_pos hds]
  cases rest with
  | nil => simp
  | cons c rest =>
      have hc := hrest c rfl
      rw [List.takeWhile_cons_of_neg (by rw [hc]; decide), List.dropWhile_cons_of_neg (by rw [hc]; decide),
        List.append_nil]

/-- A text with its first separator determines what stands before and after it. -/
theorem split_first {c : Char} {as as' bs bs' : List Char} (h : as ++ c :: bs = as' ++ c :: bs') (has : c ∉ as)
    (has' : c ∉ as') : as = as' ∧ bs = bs' := by
  induction as generalizing as' with
  | nil =>
      cases as' with
      | nil => exact ⟨rfl, (List.cons.inj h).2⟩
      | cons a as' => exact absurd ((List.cons.inj h).1 ▸ List.mem_cons_self) has'
  | cons a as ih =>
      cases as' with
      | nil => exact absurd ((List.cons.inj h).1 ▸ List.mem_cons_self) has
      | cons a' as' =>
          obtain ⟨rfl, htail⟩ := List.cons.inj h
          obtain ⟨rfl, rfl⟩ := ih htail (mt (List.mem_cons_of_mem a) has) (mt (List.mem_cons_of_mem a) has')
          exact ⟨rfl, rfl⟩

theorem readDigits_toDigits (n : Nat) : readDigits (Nat.toDigits 10 n) = some n := by
  rw [readDigits, if_pos ⟨Nat.toDigits_ne_nil, List.all_eq_true.mpr (allDigits_toDigits n)⟩,
    Nat.ofDigitChars_ten_toDigits]

theorem readExponent_exponentText (n : Int) : readExponent (exponentText n) = some n := by
  rw [exponentText]
  split_ifs with hn
  · have h : -Int.ofNat n.natAbs = n := by
      rw [Int.ofNat_eq_natCast]
      omega
    simp only [readExponent, true_or, if_true, readDigits_toDigits, Option.map_some, h]
  · have h : Int.ofNat n.natAbs = n := by
      rw [Int.ofNat_eq_natCast]
      omega
    simp only [readExponent, true_or, if_true, readDigits_toDigits, Option.map_some, h]

variable {int frac tail : List Char} {e : Int}

/-- What may follow the digits of a decimal. -/
def IsTail (tail : List Char) (e : Int) : Prop :=
  readExponent tail = some e ∧ ∀ c ∈ tail.head?, c = 'e'

theorem isTail_nil : IsTail [] 0 := ⟨rfl, nofun⟩

theorem isTail_exponentText (n : Int) : IsTail (exponentText n) n :=
  ⟨readExponent_exponentText n, fun _ h => (Option.some.inj h).symm⟩

theorem readDecimal_int (hint : AllDigits int) (hne : int ≠ []) (htail : IsTail tail e) :
    readDecimal (int ++ tail) = some ((Nat.ofDigitChars 10 int 0 : ℚ) * 10 ^ e) := by
  have hspan := span_digits tail hint (fun c hc => by rw [htail.2 c hc]; rfl)
  have hfrac : readFraction tail = ([], tail) := by
    cases tail with
    | nil => rfl
    | cons c tail =>
        obtain rfl := htail.2 c rfl
        rfl
  rw [readDecimal, hspan]
  dsimp only
  rw [hfrac]
  dsimp only
  rw [if_neg (fun h => hne h.1), htail.1, Option.map_some, List.append_nil, List.length_nil,
    Nat.cast_zero, sub_zero]

theorem readDecimal_frac (hint : AllDigits int) (hne : int ≠ []) (hfrac : AllDigits frac)
    (htail : IsTail tail e) :
    readDecimal (int ++ '.' :: (frac ++ tail)) =
      some ((Nat.ofDigitChars 10 (int ++ frac) 0 : ℚ) * 10 ^ (e - frac.length)) := by
  have hspan := span_digits ('.' :: (frac ++ tail)) hint (fun c hc => by cases hc; rfl)
  have hspan' := span_digits tail hfrac (fun c hc => by rw [htail.2 c hc]; rfl)
  rw [readDecimal, hspan]
  dsimp only
  rw [readFraction, hspan']
  dsimp only
  rw [if_neg (fun h => hne h.1), htail.1, Option.map_some]

end Reading

section Layout

theorem ofDigitChars_append (ds es : List Char) : (Nat.ofDigitChars 10 (ds ++ es) 0 : ℚ) =
    Nat.ofDigitChars 10 ds 0 * 10 ^ es.length + Nat.ofDigitChars 10 es 0 := by
  rw [Nat.ofDigitChars_append, Nat.ofDigitChars_eq_ofDigitChars_zero]
  push_cast
  ring

theorem ofDigitChars_lt {digits : List Char} (h : AllDigits digits) : Nat.ofDigitChars 10 digits 0 < 10 ^ digits.length := by
  induction digits using List.reverseRecOn with
  | nil => simp
  | append_singleton digits c ih =>
      have hinit := ih (fun d hd => h d (List.mem_append_left [c] hd))
      obtain ⟨-, hc⟩ := Char.isDigit_iff_toNat.mp (h c (List.mem_append_right digits (List.mem_singleton_self c)))
      change c.toNat ≤ 57 at hc
      rw [Nat.ofDigitChars_append, Nat.ofDigitChars_cons, Nat.ofDigitChars_nil, List.length_append, List.length_singleton, pow_succ]
      change 10 * _ + (c.toNat - 48) < _
      omega

theorem ofDigitChars_replicate (z : Nat) : Nat.ofDigitChars 10 (List.replicate z '0') 0 = 0 := by
  rw [Nat.ofDigitChars_replicate_zero, Nat.mul_zero]

/-- Wherever the decimal point is put, the digits are read back with their place. -/
theorem readDecimal_layout (ds : List Char) (n : Int) (hds : AllDigits ds) (hne : ds ≠ []) :
    readDecimal (layout ds n) = some ((Nat.ofDigitChars 10 ds 0 : ℚ) * 10 ^ (n - ds.length)) := by
  unfold layout
  split_ifs with hint hpoint hsmall
  · have h := readDecimal_int (hds.append (allDigits_replicate (n - ds.length).toNat))
      (List.append_ne_nil_of_left_ne_nil hne _) isTail_nil
    rw [List.append_nil] at h
    have hz : ((n - ds.length).toNat : Int) = n - ds.length := by omega
    rw [h, ofDigitChars_append, ofDigitChars_replicate, List.length_replicate, zpow_zero, mul_one,
      Nat.cast_zero, add_zero, ← zpow_natCast, hz]
  · have hlen : n.toNat < ds.length := by omega
    have h := readDecimal_frac (show AllDigits (ds.take n.toNat) from
      fun c hc => hds c (List.mem_of_mem_take hc)) (by
        rw [Ne, List.take_eq_nil_iff]
        rintro (h | h)
        · omega
        · exact hne h)
      (show AllDigits (ds.drop n.toNat) from fun c hc => hds c (List.mem_of_mem_drop hc)) isTail_nil
    rw [List.append_nil, List.take_append_drop, List.length_drop] at h
    have hexp : (0 : Int) - (ds.length - n.toNat : Nat) = n - ds.length := by omega
    rw [h, hexp]
  · have hdigits : AllDigits (List.replicate (-n).toNat '0' ++ ds) := (allDigits_replicate _).append hds
    have h := readDecimal_frac (show AllDigits ['0'] from allDigits_replicate 1) (List.cons_ne_nil _ _)
      hdigits isTail_nil
    rw [List.append_nil] at h
    have hexp : (0 : Int) - (List.replicate (-n).toNat '0' ++ ds).length = n - ds.length := by
      rw [List.length_append, List.length_replicate]
      omega
    have hval : (Nat.ofDigitChars 10 (['0'] ++ (List.replicate (-n).toNat '0' ++ ds)) 0 : ℚ) =
        Nat.ofDigitChars 10 ds 0 := by
      have hzero : Nat.ofDigitChars 10 ['0'] 0 = 0 := rfl
      rw [ofDigitChars_append, ofDigitChars_append, ofDigitChars_replicate, hzero]
      ring
    rw [hexp, hval] at h
    exact h
  · cases ds with
    | nil => exact absurd rfl hne
    | cons d ds =>
        have hd : AllDigits [d] := fun c hc => hds c (by rw [List.mem_singleton.mp hc]; exact List.mem_cons_self)
        cases ds with
        | nil =>
            have h := readDecimal_int hd (List.cons_ne_nil _ _) (isTail_exponentText (n - 1))
            exact h
        | cons d' ds =>
            have h := readDecimal_frac hd (List.cons_ne_nil _ _)
              (show AllDigits (d' :: ds) from fun c hc => hds c (List.mem_cons_of_mem _ hc)) (isTail_exponentText (n - 1))
            have hexp : n - 1 - (d' :: ds).length = n - (d :: d' :: ds).length := by
              simp only [List.length_cons]
              omega
            rw [hexp] at h
            exact h

end Layout

section Shortest

theorem eq_rdropWhile_append_zeros (ds : List Char) :
    ∃ z, ds = ds.rdropWhile (· = '0') ++ List.replicate z '0' := by
  refine ⟨(ds.reverse.takeWhile (· = '0')).length, ?_⟩
  have hz : ds.reverse.takeWhile (· = '0') =
      List.replicate (ds.reverse.takeWhile (· = '0')).length '0' := by
    apply List.eq_replicate_of_mem
    intro c hc
    simpa using List.mem_takeWhile_imp hc
  rw [← List.reverse_inj, List.reverse_append, List.reverse_replicate, ← hz, List.rdropWhile,
    List.reverse_reverse, List.takeWhile_append_dropWhile]

theorem fl_zero : fl 0 = .finite 0 := by
  have h : roundHalfEven 0 = 0 := by simp [roundHalfEven]
  simp [fl, h]

theorem den_of_isDouble {a : ℚ} (h : fl a = .finite a) : ∃ k, a.den = 2 ^ k := by
  have hv : a = roundHalfEven (a / 2 ^ ulpExponent a) * (2 : ℚ) ^ ulpExponent a := by
    rw [fl] at h
    split_ifs at h with hinf
    exact (JsNumber.finite.inj h).symm
  generalize roundHalfEven (a / 2 ^ ulpExponent a) = z at hv
  cases hu : ulpExponent a with
  | ofNat u =>
      refine ⟨0, ?_⟩
      rw [hu, Int.ofNat_eq_natCast, zpow_natCast] at hv
      have hint : a = ((z * 2 ^ u : Int) : ℚ) := by
        rw [hv]
        push_cast
        rfl
      rw [hint, Rat.den_intCast, pow_zero]
  | negSucc u =>
      rw [hu, zpow_negSucc, ← div_eq_mul_inv] at hv
      have hden : (a.den : Int) ∣ 2 ^ (u + 1) := by
        have := Rat.den_dvd z (2 ^ (u + 1))
        rw [Rat.divInt_eq_div] at this
        rw [hv]
        exact_mod_cast this
      obtain ⟨k, _, hk⟩ := (Nat.dvd_prime_pow Nat.prime_two).mp (by exact_mod_cast hden)
      exact ⟨k, hk⟩

theorem shortestDecimal_spec {a : ℚ} (ha : 0 < a) (h : fl a = .finite a) :
    fl ((shortestDecimal a).1 * 10 ^ (shortestDecimal a).2) = .finite a := by
  rw [shortestDecimal]
  cases hfind : ((List.range' 1 17).flatMap (candidates a)).find?
      (fun d => fl (d.1 * 10 ^ d.2) = .finite a) with
  | some d =>
      rw [Option.getD_some]
      simpa using List.find?_some hfind
  | none =>
      rw [Option.getD_none]
      obtain ⟨k, hk⟩ := den_of_isDouble h
      have hexact : ((a.num.natAbs * 5 ^ Nat.log 2 a.den : Nat) : ℚ) *
          10 ^ (-(Nat.log 2 a.den : Int)) = a := by
        have hnum : ((a.num.natAbs : Nat) : ℚ) = a.num := by
          rw [← Int.cast_natCast, Int.natAbs_of_nonneg (Rat.num_nonneg.mpr ha.le)]
        have hlog : Nat.log 2 a.den = k := by rw [hk, Nat.log_pow (by decide)]
        rw [hlog, zpow_neg, zpow_natCast, Nat.cast_mul, hnum]
        have hten : (10 : ℚ) ^ k = 5 ^ k * 2 ^ k := by rw [← mul_pow]; norm_num
        have hdiv := Rat.num_div_den a
        rw [hk] at hdiv
        push_cast at hdiv ⊢
        rw [hten]
        field_simp
        field_simp at hdiv
        exact hdiv
      rw [hexact]
      exact h

theorem head_toDigits {m : Nat} (hm : 0 < m) : ∀ c ∈ (Nat.toDigits 10 m).head?, c ≠ '0' := by
  induction m using Nat.strongRecOn with
  | ind m ih =>
      rcases Nat.lt_or_ge m 10 with hlt | hge
      · rw [Nat.toDigits_of_lt_base hlt]
        rintro c ⟨⟩
        have hdigit : ∀ k < 10, 0 < k → k.digitChar ≠ '0' := by decide
        exact hdigit m hlt hm
      · rw [Nat.toDigits_of_base_le (by decide) hge, List.head?_append_of_ne_nil _ Nat.toDigits_ne_nil]
        exact ih (m / 10) (by omega) (by omega)

/-- The digits and the place of the decimal point in the text of a positive number. -/
theorem positiveText_eq_layout {a : ℚ} (ha : 0 < a) (h : fl a = .finite a) :
    ∃ ds n, positiveText a = layout ds n ∧ AllDigits ds ∧ ds ≠ [] ∧ (∀ c ∈ ds.head?, c ≠ '0') ∧
      fl ((Nat.ofDigitChars 10 ds 0 : ℚ) * 10 ^ (n - ds.length)) = .finite a := by
  have hspec := shortestDecimal_spec ha h
  rw [positiveText]
  generalize shortestDecimal a = d at hspec
  obtain ⟨m, e⟩ := d
  obtain ⟨z, hz⟩ := eq_rdropWhile_append_zeros (Nat.toDigits 10 m)
  dsimp only at hspec ⊢
  generalize hds : (Nat.toDigits 10 m).rdropWhile (· = '0') = ds at hz
  have hval : (m : ℚ) = Nat.ofDigitChars 10 ds 0 * 10 ^ z := by
    have := ofDigitChars_append ds (List.replicate z '0')
    rw [← hz, Nat.ofDigitChars_ten_toDigits, ofDigitChars_replicate, List.length_replicate] at this
    simpa using this
  have hm : m ≠ 0 := by
    rintro rfl
    rw [Nat.cast_zero, zero_mul, fl_zero] at hspec
    exact ha.ne (JsNumber.finite.inj hspec)
  have hne : ds ≠ [] := by
    rintro rfl
    rw [Nat.ofDigitChars_nil, Nat.cast_zero, zero_mul] at hval
    exact hm (by exact_mod_cast hval)
  refine ⟨ds, _, rfl, ?_, hne, ?_, ?_⟩
  · intro c hc
    exact allDigits_toDigits m c (by rw [hz]; exact List.mem_append_left _ hc)
  · have hhead := head_toDigits (Nat.pos_of_ne_zero hm)
    rwa [hz, List.head?_append_of_ne_nil _ hne] at hhead
  · have hlen : ((Nat.toDigits 10 m).length : Int) + e - ds.length = z + e := by
      rw [hz, List.length_append, List.length_replicate]
      push_cast
      ring
    rw [hlen, zpow_add₀ (by norm_num), zpow_natCast, ← mul_assoc, ← hval]
    exact hspec

end Shortest

section RoundTrip

/-- The characters of the numerals written here. -/
def IsPlain (c : Char) : Prop := c.isDigit ∨ c = '.' ∨ c = 'e' ∨ c = '+' ∨ c = '-'

instance : DecidablePred IsPlain := fun _ => inferInstanceAs (Decidable (_ ∨ _))

theorem AllDigits.plain {ds : List Char} (h : AllDigits ds) : ∀ c ∈ ds, IsPlain c :=
  fun c hc => .inl (h c hc)

theorem exponentText_plain (n : Int) : ∀ c ∈ exponentText n, IsPlain c := by
  intro c hc
  rcases List.mem_cons.mp hc with rfl | hc
  · exact .inr (.inr (.inl rfl))
  · rcases List.mem_cons.mp hc with rfl | hc
    · split_ifs
      · exact .inr (.inr (.inr (.inr rfl)))
      · exact .inr (.inr (.inr (.inl rfl)))
    · exact (allDigits_toDigits _).plain c hc

theorem plain_append {xs ys : List Char} (hx : ∀ c ∈ xs, IsPlain c) (hy : ∀ c ∈ ys, IsPlain c) :
    ∀ c ∈ xs ++ ys, IsPlain c :=
  fun c hc => (List.mem_append.mp hc).elim (hx c) (hy c)

theorem plain_point {xs : List Char} (hx : ∀ c ∈ xs, IsPlain c) : ∀ c ∈ '.' :: xs, IsPlain c := by
  intro c hc
  rcases List.mem_cons.mp hc with rfl | hc
  · exact .inr (.inl rfl)
  · exact hx c hc

/-- A numeral begins with a digit. -/
theorem layout_cons {ds : List Char} (hds : AllDigits ds) (hne : ds ≠ []) (n : Int) :
    ∃ c cs, layout ds n = c :: cs ∧ c.isDigit ∧ ∀ x ∈ cs, IsPlain x := by
  obtain ⟨d, ds, rfl⟩ := List.exists_cons_of_ne_nil hne
  have hd := hds d List.mem_cons_self
  have htail : AllDigits ds := fun c hc => hds c (List.mem_cons_of_mem _ hc)
  unfold layout
  split_ifs with hint hpoint hsmall
  · exact ⟨d, _, rfl, hd, plain_append htail.plain (allDigits_replicate _).plain⟩
  · obtain ⟨k, hk⟩ : ∃ k, n.toNat = k + 1 := ⟨n.toNat - 1, by omega⟩
    rw [hk, List.take_succ_cons, List.drop_succ_cons]
    refine ⟨d, _, rfl, hd, plain_append ?_ (plain_point ?_)⟩
    · exact fun c hc => htail.plain c (List.mem_of_mem_take hc)
    · exact fun c hc => htail.plain c (List.mem_of_mem_drop hc)
  · exact ⟨'0', _, rfl, rfl, plain_point (plain_append (allDigits_replicate _).plain hds.plain)⟩
  · cases ds with
    | nil => exact ⟨d, _, rfl, hd, exponentText_plain _⟩
    | cons d' ds =>
        exact ⟨d, _, rfl, hd, plain_point (plain_append htail.plain (exponentText_plain _))⟩

theorem not_isSpace_of_isPlain {c : Char} (h : IsPlain c) : isSpace c = false := by
  rcases h with h | rfl | rfl | rfl | rfl
  · obtain ⟨hlow, hhigh⟩ := Char.isDigit_iff_toNat.mp h
    change 48 ≤ c.toNat at hlow
    change c.toNat ≤ 57 at hhigh
    simp only [isSpace, List.mem_cons, List.not_mem_nil, or_false, Bool.or_eq_false_iff,
      Bool.and_eq_false_iff, decide_eq_false_iff_not]
    omega
  all_goals decide

theorem trim_of_not_isSpace {cs : List Char} (h : ∀ c ∈ cs, isSpace c = false) : trim cs = cs := by
  have hdrop : cs.dropWhile isSpace = cs := by
    rw [List.dropWhile_eq_self_iff]
    intro hlt
    rw [h _ (List.getElem_mem hlt)]
    decide
  have hrdrop : cs.rdropWhile isSpace = cs := by
    rw [List.rdropWhile_eq_self_iff]
    intro hne
    rw [h _ (List.getLast_mem hne)]
    decide
  rw [trim, hdrop, hrdrop]

theorem trim_of_plain {cs : List Char} (h : ∀ c ∈ cs, IsPlain c) : trim cs = cs :=
  trim_of_not_isSpace (fun c hc => not_isSpace_of_isPlain (h c hc))

theorem readNumber_of_digit {c : Char} {cs : List Char} (hc : c.isDigit) (hcs : ∀ x ∈ cs, IsPlain x) :
    readNumber (c :: cs) = readSigned false (c :: cs) := by
  unfold readNumber
  split
  case h_1 h => cases h
  case h_8 h | h_9 h =>
      obtain ⟨rfl, _⟩ := List.cons.inj h
      exact absurd hc (by decide)
  case h_10 => rfl
  -- a letter after the first digit is not written
  all_goals
    rename_i h
    obtain ⟨_, rfl⟩ := List.cons.inj h
    exact absurd (hcs _ List.mem_cons_self) (by decide)

theorem roundHalfEven_neg (q : ℚ) : roundHalfEven (-q) = -roundHalfEven q := by
  have hlow := Int.floor_le q
  have hhigh := Int.lt_floor_add_one q
  unfold roundHalfEven
  rcases hlow.eq_or_lt with he | hlt
  · have hf : ⌊-q⌋ = -⌊q⌋ := by
      rw [← he, ← Int.cast_neg, Int.floor_intCast, Int.floor_intCast]
    rw [hf]
    push_cast
    rw [← he, Int.floor_intCast]
    norm_num
  · have hf : ⌊-q⌋ = -⌊q⌋ - 1 := by
      rw [Int.floor_eq_iff]
      push_cast
      constructor <;> linarith
    rw [hf]
    push_cast
    -- the fraction that is left lies strictly between zero and one, and is replaced by what it lacks to one
    have hrest : -q - (-(⌊q⌋ : ℚ) - 1) = 1 - (q - ⌊q⌋) := by ring
    rw [hrest]
    rcases lt_trichotomy (q - ⌊q⌋) (1 / 2) with hless | hhalf | hmore
    · rw [if_pos hless, if_neg (by linarith), if_pos (by linarith)]
      ring
    · rw [hhalf]
      norm_num
      split_ifs <;> omega
    · rw [if_pos (by linarith), if_neg (by linarith), if_pos hmore]
      ring

theorem fl_neg {a b : ℚ} (h : fl a = .finite b) : fl (-a) = .finite (-b) := by
  have hulp : ulpExponent (-a) = ulpExponent a := by rw [ulpExponent, abs_neg, ulpExponent]
  rw [fl] at h ⊢
  rw [hulp, neg_div, roundHalfEven_neg]
  push_cast
  rw [neg_mul, abs_neg]
  split_ifs at h ⊢ with hinf
  exact congrArg _ (congrArg _ (JsNumber.finite.inj h))

theorem readSigned_positiveText (negative : Bool) {a : ℚ} (ha : 0 < a) (h : fl a = .finite a) :
    readSigned negative (positiveText a) = .finite (if negative then -a else a) := by
  obtain ⟨ds, n, htext, hdigits, hne, _, hvalue⟩ := positiveText_eq_layout ha h
  obtain ⟨c, cs, hlayout, hc, _⟩ := layout_cons hdigits hne n
  have hword : layout ds n ≠ "Infinity".toList := by
    rw [hlayout]
    intro he
    have : c = 'I' := (List.cons.inj he).1
    rw [this] at hc
    exact absurd hc (by decide)
  rw [htext, readSigned, if_neg hword, readDecimal_layout ds n hdigits hne]
  cases negative with
  | false => exact hvalue
  | true => exact fl_neg hvalue

theorem positiveText_cons {a : ℚ} (ha : 0 < a) (h : fl a = .finite a) :
    ∃ c cs, positiveText a = c :: cs ∧ c.isDigit ∧ ∀ x ∈ cs, IsPlain x := by
  obtain ⟨ds, n, htext, hdigits, hne, _⟩ := positiveText_eq_layout ha h
  obtain ⟨c, cs, hlayout, hc, hcs⟩ := layout_cons hdigits hne n
  exact ⟨c, cs, htext.trans hlayout, hc, hcs⟩

theorem readNumber_text (x : JsNumber) (h : IsDouble x) : readNumber (trim (text x)) = x := by
  cases x with
  | nan => rfl
  | infinity negative => cases negative <;> decide +kernel
  | finite q =>
      rw [text]
      split_ifs with hzero hneg
      · subst hzero
        decide +kernel
      · have hpos : 0 < -q := neg_pos.mpr hneg
        have hdouble : fl (-q) = .finite (-q) := fl_neg h
        obtain ⟨c, cs, htext, hc, hcs⟩ := positiveText_cons hpos hdouble
        have hplain : ∀ x ∈ '-' :: positiveText (-q), IsPlain x := by
          rw [htext]
          intro x hx
          rcases List.mem_cons.mp hx with rfl | hx
          · exact .inr (.inr (.inr (.inr rfl)))
          · rcases List.mem_cons.mp hx with rfl | hx
            · exact .inl hc
            · exact hcs x hx
        rw [trim_of_plain hplain, readNumber, readSigned_positiveText true hpos hdouble, if_pos rfl,
          neg_neg]
      · have hpos : 0 < q := lt_of_le_of_ne (not_lt.mp hneg) (Ne.symm hzero)
        have hsigned := readSigned_positiveText false hpos h
        obtain ⟨c, cs, htext, hc, hcs⟩ := positiveText_cons hpos h
        rw [htext] at hsigned ⊢
        have hplain : ∀ x ∈ c :: cs, IsPlain x := by
          intro x hx
          rcases List.mem_cons.mp hx with rfl | hx
          · exact .inl hc
          · exact hcs x hx
        rw [trim_of_plain hplain, readNumber_of_digit hc hcs, hsigned]
        rfl

/-- A number that is written as text and read again is the same number. -/
theorem ofString_toString (x : JsNumber) (h : IsDouble x) : ofString (toString x) = x := by
  rw [ofString, Numbers.toString, String.toList_ofList, readNumber_text x h]

/-- Different numbers have different texts. -/
theorem toString_injective {x y : JsNumber} (hx : IsDouble x) (hy : IsDouble y)
    (h : toString x = toString y) : x = y := by
  rw [← ofString_toString x hx, h, ofString_toString y hy]

theorem natRepr_inj {m n : Nat} (h : m.repr = n.repr) : m = n := by
  have hdigits := congrArg String.toList h
  rw [Nat.toList_repr, Nat.toList_repr] at hdigits
  rw [← Nat.ofDigitChars_ten_toDigits (n := m), hdigits, Nat.ofDigitChars_ten_toDigits]

end RoundTrip

section Doubles

theorem roundHalfEven_intCast (n : Int) : roundHalfEven (n : ℚ) = n := by
  unfold roundHalfEven
  dsimp only
  rw [Int.floor_intCast, if_pos (by norm_num)]

theorem two_zpow_pos (e : Int) : (0 : ℚ) < 2 ^ e := zpow_pos (by norm_num) e

theorem isDouble_of_lt {m e : Int} (hm : |m| < 2 ^ 53) (he : -1074 ≤ e) (hsmall : |(m : ℚ) * 2 ^ e| < 2 ^ 1024) :
    IsDouble (.finite (m * 2 ^ e)) := by
  rcases eq_or_ne m 0 with rfl | hne
  · rw [Int.cast_zero, zero_mul]
    exact fl_zero
  have hlog : Int.log 2 |(m : ℚ) * 2 ^ e| < 53 + e := by
    have hlt : |(m : ℚ)| < 2 ^ (53 : Int) := by exact_mod_cast hm
    rw [← Int.lt_zpow_iff_log_lt (by norm_num) (abs_pos.mpr (mul_ne_zero (by exact_mod_cast hne) (two_zpow_pos e).ne')),
      Nat.cast_ofNat, abs_mul, abs_of_pos (two_zpow_pos e), zpow_add₀ (by norm_num)]
    exact mul_lt_mul_of_pos_right hlt (two_zpow_pos e)
  obtain ⟨k, hk⟩ : ∃ k : Nat, e = ulpExponent (m * 2 ^ e) + k :=
    ⟨(e - ulpExponent (m * 2 ^ e)).toNat, by unfold ulpExponent; omega⟩
  have hscale : (m : ℚ) * 2 ^ e / 2 ^ ulpExponent (m * 2 ^ e) = (m * 2 ^ k : Int) := by
    rw [div_eq_iff (two_zpow_pos _).ne']
    nth_rewrite 1 [hk]
    rw [zpow_add₀ (by norm_num), zpow_natCast]
    push_cast
    ring
  rw [IsDouble, fl, hscale, roundHalfEven_intCast, ← hscale, div_mul_cancel₀ _ (two_zpow_pos _).ne',
    if_neg (not_le.mpr hsmall)]

theorem isDouble_of_le {m e : Int} (hm : |m| ≤ 2 ^ 53) (he : -1074 ≤ e) (hsmall : |(m : ℚ) * 2 ^ e| < 2 ^ 1024) :
    IsDouble (.finite (m * 2 ^ e)) := by
  rcases hm.lt_or_eq with hlt | heq
  · exact isDouble_of_lt hlt he hsmall
  · -- one bit more is a zero bit
    obtain ⟨n, rfl⟩ : ∃ n, m = 2 * n := by
      rcases abs_eq (by norm_num) |>.mp heq with rfl | rfl
      · exact ⟨2 ^ 52, by norm_num⟩
      · exact ⟨-2 ^ 52, by norm_num⟩
    have hshift : ((2 * n : Int) : ℚ) * 2 ^ e = n * 2 ^ (e + 1) := by
      rw [zpow_add_one₀ (by norm_num)]
      push_cast
      ring
    rw [hshift] at hsmall ⊢
    rw [abs_mul] at heq
    exact isDouble_of_lt (by norm_num at heq ⊢; omega) (by omega) hsmall

theorem abs_roundHalfEven_le {x : ℚ} {n : Int} (h : |x| < n) : |roundHalfEven x| ≤ n := by
  obtain ⟨hlow, hhigh⟩ := abs_lt.mp h
  have hfloor : -n ≤ ⌊x⌋ := Int.le_floor.mpr (by exact_mod_cast hlow.le)
  have hceil : ⌊x⌋ + 1 ≤ n := Int.floor_lt.mpr hhigh
  rw [abs_le]
  unfold roundHalfEven
  dsimp only
  split_ifs <;> omega

/-- What rounding gives is a binary64 number. -/
theorem isDouble_fl (q : ℚ) : IsDouble (fl q) := by
  have hmantissa : |q / 2 ^ ulpExponent q| < (2 ^ 53 : Int) := by
    rw [abs_div, abs_of_pos (two_zpow_pos _), div_lt_iff₀ (two_zpow_pos _)]
    have hlt : |q| < 2 ^ (Int.log 2 |q| + 1) := by exact_mod_cast Int.lt_zpow_succ_log_self (by norm_num) |q|
    have hle : Int.log 2 |q| + 1 ≤ 53 + ulpExponent q := by
      unfold ulpExponent
      omega
    have hmono : (2 : ℚ) ^ (Int.log 2 |q| + 1) ≤ 2 ^ (53 + ulpExponent q) := zpow_le_zpow_right₀ (by norm_num) hle
    rw [zpow_add₀ (by norm_num) 53] at hmono
    push_cast
    exact hlt.trans_le hmono
  unfold fl
  dsimp only
  split_ifs with hlarge
  · trivial
  · exact isDouble_of_le (abs_roundHalfEven_le hmantissa) (le_max_right _ _) (not_le.mp hlarge)

theorem isDouble_natCast {n : Nat} (h : n < 2 ^ 53) : IsDouble (.finite n) := by
  have hsmall : |((n : Int) : ℚ) * 2 ^ (0 : Int)| < 2 ^ 1024 := by
    rw [zpow_zero, mul_one, Int.cast_natCast, Nat.abs_cast]
    exact_mod_cast h.trans (Nat.pow_lt_pow_right (by norm_num) (by norm_num))
  have hdouble := isDouble_of_lt (m := n) (e := 0) (by rw [Nat.abs_cast]; exact_mod_cast h) (by norm_num) hsmall
  rwa [zpow_zero, mul_one, Int.cast_natCast] at hdouble

theorem isDouble_ofString (s : String) : IsDouble (ofString s) := by
  have hradix : ∀ base cs, IsDouble (readRadix base cs) := by
    intro base cs
    unfold readRadix
    split
    · exact isDouble_fl _
    · trivial
  have hsigned : ∀ negative cs, IsDouble (readSigned negative cs) := by
    intro negative cs
    unfold readSigned
    by_cases hword : cs = "Infinity".toList
    · rw [if_pos hword]
      trivial
    · rw [if_neg hword]
      cases readDecimal cs with
      | some q => exact isDouble_fl _
      | none => trivial
  unfold ofString readNumber
  split
  case h_1 => exact fl_zero
  case h_8 | h_9 | h_10 => exact hsigned _ _
  all_goals exact hradix _ _

end Doubles

end SplitSdk.NumberText
