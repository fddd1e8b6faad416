import SplitSdk.BigIntText
import SplitSdk.OrderedMap
import SplitSdk.TextEncoding

namespace SplitSdk.CurrencyNormalizer

open OrderedMap
open Numbers (trim)

section Data

inductive Asset
  | identifier (name : String)
  | native
  | issued (code issuer : String)

/-- What `PrecisionError` is made from, or what `BigInt` says of a text. -/
inductive Failure
  | precisionError (amount asset message : String)
  | syntaxError (message : String)
  deriving DecidableEq

inductive Raw
  | text (s : String)
  | bigint (n : Int)

end Data

section Precisions

abbrev Precisions := OrdMap String Nat

def ASSET_PRECISIONS : Precisions := OrdMap.empty.set "native" 7

def registerAssetPrecision (precisions : Precisions) (assetCode : String) (decimals : Nat) : Precisions :=
  precisions.set assetCode decimals

def unknownPrecision : String := "Unknown asset precision; call registerAssetPrecision() first"

def getAssetPrecision (precisions : Precisions) : Asset → Except Failure Nat
  | .identifier name =>
      match precisions.get? name with
      | some precision => .ok precision
      | none => .error (.precisionError name name unknownPrecision)
  | .native => .ok 7
  | .issued assetCode issuer =>
      let code := s!"{assetCode}:{issuer}"
      match (precisions.get? code).or (precisions.get? assetCode) with
      | some precision => .ok precision
      | none => .error (.precisionError assetCode code unknownPrecision)

/-- `asset.getCode()`, or the identifier. -/
def assetName : Asset → String
  | .identifier name => name
  | .native => "XLM"
  | .issued code _ => code

end Precisions

section Amounts

def bigInt (cs : List Char) : Except Failure Int :=
  match BigIntText.readBigInt (trim cs) with
  | some n => .ok n
  | none =>
      let text := String.ofList cs
      .error (.syntaxError s!"Cannot convert {text} to a BigInt")

/-- The `length` of a string. -/
def units (cs : List Char) : Nat := (cs.flatMap TextEncoding.unitsOfChar).length

def padEnd (precision : Nat) (cs : List Char) : List Char := cs ++ List.replicate (precision - units cs) '0'

def rawValue : Raw → Except Failure Int
  | .text s => bigInt s.toList
  | .bigint n => .ok n

def displayText (precision : Nat) (rawValue : Int) : List Char :=
  if precision = 0 then (toString rawValue).toList
  else
    let divisor : Int := 10 ^ precision
    let intPart := rawValue.tdiv divisor
    let fracPart := rawValue.tmod divisor
    let fracStr := ((toString fracPart).toList.leftpad precision '0').rdropWhile (· = '0')
    if fracStr = [] then (toString intPart).toList ++ '.' :: List.replicate precision '0'
    else (toString intPart).toList ++ '.' :: padEnd precision fracStr

def normalizeAmount (precisions : Precisions) (raw : Raw) (asset : Asset) : Except Failure String := do
  let precision ← getAssetPrecision precisions asset
  let rawValue ← rawValue raw
  return String.ofList (displayText precision rawValue)

/-- Leave out the zeros that stand before another digit. -/
def stripZeros : List Char → List Char
  | '0' :: c :: cs => if c.isDigit then stripZeros (c :: cs) else '0' :: c :: cs
  | cs => cs

def integerText (cs : List Char) : List Char := if stripZeros cs = [] then ['0'] else stripZeros cs

def parseDisplay (precision : Nat) (name : String) (display : List Char) : Except Failure Int :=
  match display.span (· ≠ '.') with
  | (whole, []) => do
      let n ← bigInt whole
      return n * 10 ^ precision
  | (intPart, _ :: fracPart) =>
      let digits := units fracPart
      if precision < digits then
        .error (.precisionError (String.ofList display) name s!"Fractional part has {digits} digits but precision is {precision}")
      else do
        let int ← bigInt (integerText intPart)
        let frac ← bigInt (padEnd precision fracPart)
        return int * 10 ^ precision + frac

def toOnChainAmount (precisions : Precisions) (display : String) (asset : Asset) : Except Failure String := do
  let precision ← getAssetPrecision precisions asset
  let result ← parseDisplay precision (assetName asset) display.toList
  return toString result

end Amounts

end SplitSdk.CurrencyNormalizer

namespace SplitSdk.AmountParsing

open Numbers NumberText BigIntText CurrencyNormalizer

section Numerals

/-- The digits of a decimal with its sign, of which one at least is there. -/
structure Numeral where
  sign : List Char
  int : List Char
  frac : Option (List Char)
  isSign : sign ∈ [[], ['+'], ['-']]
  isInt : AllDigits int
  isFrac : AllDigits (frac.getD [])
  nonempty : int ++ frac.getD [] ≠ []

namespace Numeral

variable (x : Numeral)

def fraction : List Char := x.frac.getD []

def text : List Char := x.sign ++ x.int ++ x.frac.elim [] ('.' :: ·)

def magnitude : ℚ := Nat.ofDigitChars 10 x.int 0 + Nat.ofDigitChars 10 x.fraction 0 / 10 ^ x.fraction.length

def value : ℚ := if x.sign = ['-'] then -x.magnitude else x.magnitude

end Numeral

/-- What comes out of a text is the value of the numeral that the text is. -/
def Parses (precisions : Precisions) (precision : Nat) (display : String) (asset : Asset) : Prop :=
  ∀ result, toOnChainAmount precisions display asset = .ok result →
    ∃ x : Numeral, x.text = display.toList ∧ x.fraction.length ≤ precision ∧
      ∃ n : Int, result = toString n ∧ (n : ℚ) = x.value * 10 ^ precision

/-- Some part of the text is nothing that `BigInt` reads, or the fraction is too long. -/
def Refused (precision : Nat) (display : List Char) : Prop :=
  match display.span (· ≠ '.') with
  | (whole, []) => readBigInt (trim whole) = none
  | (intPart, _ :: fracPart) => precision < units fracPart ∨ readBigInt (trim (integerText intPart)) = none ∨
      readBigInt (trim (padEnd precision fracPart)) = none

/-- The text is a numeral, and not a negative one with a fraction. -/
def Readable (display : List Char) : Prop :=
  ∃ x : Numeral, x.text = display ∧ (x.sign = ['-'] → Nat.ofDigitChars 10 x.fraction 0 = 0)

end Numerals

section Reading

theorem bigInt_eq_ok {cs : List Char} {n : Int} : bigInt cs = .ok n ↔ readBigInt (trim cs) = some n := by
  unfold bigInt
  cases readBigInt (trim cs) <;> simp

def signed (sign : List Char) (n : Nat) : Int := if sign = ['-'] then -n else n

/-- `BigInt` of a sign and digits. -/
theorem read_signed {sign digits : List Char} (hsign : sign ∈ [[], ['+'], ['-']]) (hdigits : AllDigits digits) (hne : digits ≠ []) :
    readBigInt (trim (sign ++ digits)) = some (signed sign (Nat.ofDigitChars 10 digits 0)) := by
  have hplain : ∀ c ∈ sign ++ digits, IsPlain c := by
    refine plain_append (fun c hc => ?_) hdigits.plain
    simp only [List.mem_cons, List.not_mem_nil, or_false] at hsign
    rcases hsign with rfl | rfl | rfl
    · cases hc
    · rw [List.mem_singleton.mp hc]
      decide
    · rw [List.mem_singleton.mp hc]
      decide
  rw [trim_of_plain hplain]
  simp only [List.mem_cons, List.not_mem_nil, or_false] at hsign
  rcases hsign with rfl | rfl | rfl
  · exact readBigInt_of_allDigits hdigits hne
  · rw [List.cons_append, List.nil_append, readBigInt, readDigits, if_pos ⟨hne, List.all_eq_true.mpr hdigits⟩]
    rfl
  · exact readBigInt_neg hdigits hne

theorem read_digits {digits : List Char} (hdigits : AllDigits digits) :
    readBigInt (trim digits) = some (Nat.ofDigitChars 10 digits 0 : Int) := by
  rcases List.eq_nil_or_concat' digits with rfl | ⟨init, last, rfl⟩
  · rfl
  · exact read_signed (.head _) hdigits (List.append_ne_nil_of_right_ne_nil init (List.cons_ne_nil last []))

/-- The characters of a numeral count one each. -/
theorem units_plain {cs : List Char} (h : ∀ c ∈ cs, IsPlain c) : units cs = cs.length := by
  induction cs with
  | nil => rfl
  | cons c cs ih =>
      have hsmall : c.toNat < 0x10000 := by
        rcases h c List.mem_cons_self with hdigit | rfl | rfl | rfl | rfl
        · obtain ⟨-, hhigh⟩ := Char.isDigit_iff_toNat.mp hdigit
          change c.toNat ≤ 57 at hhigh
          omega
        all_goals decide
      have htail := ih (fun d hd => h d (List.mem_cons_of_mem c hd))
      rw [units] at htail
      rw [units, List.flatMap_cons, List.length_append, TextEncoding.unitsOfChar, if_pos hsmall, htail]
      exact Nat.add_comm _ _

theorem units_digits {digits : List Char} (hdigits : AllDigits digits) : units digits = digits.length :=
  units_plain hdigits.plain

theorem ofDigitChars_zero (cs : List Char) : Nat.ofDigitChars 10 ('0' :: cs) 0 = Nat.ofDigitChars 10 cs 0 := rfl

theorem stripZeros_digits {cs : List Char} (h : AllDigits cs) : AllDigits (stripZeros cs) ∧
    Nat.ofDigitChars 10 (stripZeros cs) 0 = Nat.ofDigitChars 10 cs 0 := by
  induction cs using stripZeros.induct with
  | case1 c cs hc ih =>
      obtain ⟨hdigits, hvalue⟩ := ih (fun d hd => h d (List.mem_cons_of_mem '0' hd))
      rw [stripZeros, if_pos hc]
      exact ⟨hdigits, hvalue.trans (ofDigitChars_zero _).symm⟩
  | case2 c cs hc => exact absurd (h c (List.mem_cons_of_mem '0' List.mem_cons_self)) hc
  | case3 cs hcs =>
      rw [stripZeros]
      · exact ⟨h, rfl⟩
      · exact hcs

/-- The digits before the point, of which there may be none. -/
theorem read_integerText {int : List Char} (h : AllDigits int) :
    readBigInt (trim (integerText int)) = some (Nat.ofDigitChars 10 int 0 : Int) := by
  obtain ⟨hdigits, hvalue⟩ := stripZeros_digits h
  rw [integerText]
  split_ifs with hnil
  · rw [hnil] at hvalue
    rw [← hvalue]
    rfl
  · rw [read_digits hdigits, hvalue]

theorem integerText_signed {c : Char} (hc : c ≠ '0') (cs : List Char) : integerText (c :: cs) = c :: cs := by
  have hstrip : stripZeros (c :: cs) = c :: cs := by
    rw [stripZeros]
    intro c' cs' heq
    exact absurd (List.cons.inj heq).1 hc
  rw [integerText, hstrip, if_neg (List.cons_ne_nil c cs)]

variable {x : Numeral} {precision : Nat} {a b : Int}

/-- The part before the point, when `BigInt` reads it. -/
theorem read_int (h : readBigInt (trim (integerText (x.sign ++ x.int))) = some a) :
    a = signed x.sign (Nat.ofDigitChars 10 x.int 0) := by
  have hsign := x.isSign
  by_cases hplain : x.sign = []
  · rw [hplain, List.nil_append, read_integerText x.isInt] at h
    rw [hplain]
    exact (Option.some.inj h).symm
  · obtain ⟨c, hc, hne⟩ : ∃ c, x.sign = [c] ∧ c ≠ '0' := by
      simp only [List.mem_cons, List.not_mem_nil, or_false] at hsign
      rcases hsign with h | h | h
      · exact absurd h hplain
      · exact ⟨'+', h, by decide⟩
      · exact ⟨'-', h, by decide⟩
    rw [hc, List.singleton_append, integerText_signed hne, ← List.singleton_append, ← hc] at h
    by_cases hint : x.int = []
    · rw [hint, List.append_nil] at h
      simp only [List.mem_cons, List.not_mem_nil, or_false] at hsign
      rcases hsign with hs | hs | hs
      · exact absurd hs hplain
      · have hnone : readBigInt (trim ['+']) = none := by rfl
        rw [hs, hnone] at h
        cases h
      · have hnone : readBigInt (trim ['-']) = none := by rfl
        rw [hs, hnone] at h
        cases h
    · rw [read_signed hsign x.isInt hint] at h
      exact (Option.some.inj h).symm

theorem allDigits_padEnd {digits : List Char} (h : AllDigits digits) : AllDigits (padEnd precision digits) :=
  h.append (allDigits_replicate _)

theorem read_padEnd {digits : List Char} (h : AllDigits digits) (hlen : digits.length ≤ precision) :
    ∃ b : Int, readBigInt (trim (padEnd precision digits)) = some b ∧
      (b : ℚ) = Nat.ofDigitChars 10 digits 0 / 10 ^ digits.length * 10 ^ precision := by
  refine ⟨_, read_digits (allDigits_padEnd h), ?_⟩
  obtain ⟨k, rfl⟩ := Nat.exists_eq_add_of_le hlen
  rw [Int.cast_natCast, padEnd, units_digits h, Nat.add_sub_cancel_left, ofDigitChars_append, List.length_replicate,
    ofDigitChars_replicate, pow_add]
  have hpos : (10 : ℚ) ^ digits.length ≠ 0 := pow_ne_zero _ (by norm_num)
  field_simp
  ring

end Reading

section Parsing

variable {x : Numeral} {precision : Nat} {name : String} {cs whole intPart fracPart : List Char} {n : Int}

theorem span_of_notMem (h : '.' ∉ cs) : cs.span (· ≠ '.') = (cs, []) := by
  have hall : ∀ c ∈ cs, decide (c ≠ '.') = true := fun c hc => decide_eq_true (fun heq => h (heq ▸ hc))
  rw [List.span_eq_takeWhile_dropWhile, List.takeWhile_eq_self_iff.mpr hall, List.dropWhile_eq_nil_iff.mpr hall]

theorem span_of_point (h : '.' ∉ intPart) (fracPart : List Char) :
    (intPart ++ '.' :: fracPart).span (· ≠ '.') = (intPart, '.' :: fracPart) := by
  have hall : ∀ c ∈ intPart, decide (c ≠ '.') = true := fun c hc => decide_eq_true (fun heq => h (heq ▸ hc))
  rw [List.span_eq_takeWhile_dropWhile, List.takeWhile_append_of_pos hall, List.dropWhile_append_of_pos hall]
  simp

theorem parseDisplay_whole (h : '.' ∉ cs) : parseDisplay precision name cs = .ok n ↔
    ∃ m, readBigInt (trim cs) = some m ∧ n = m * 10 ^ precision := by
  rw [parseDisplay, span_of_notMem h]
  dsimp only
  constructor
  · intro hn
    cases hm : bigInt cs with
    | error e =>
        rw [hm] at hn
        cases hn
    | ok m =>
        rw [hm] at hn
        cases hn
        exact ⟨m, bigInt_eq_ok.mp hm, rfl⟩
  · rintro ⟨m, hm, rfl⟩
    rw [bigInt_eq_ok.mpr hm]
    rfl

theorem parseDisplay_point (h : '.' ∉ intPart) : parseDisplay precision name (intPart ++ '.' :: fracPart) = .ok n ↔
    units fracPart ≤ precision ∧ ∃ a b, readBigInt (trim (integerText intPart)) = some a ∧
      readBigInt (trim (padEnd precision fracPart)) = some b ∧ n = a * 10 ^ precision + b := by
  rw [parseDisplay, span_of_point h]
  dsimp only
  by_cases hlong : precision < units fracPart
  · rw [if_pos hlong]
    exact ⟨nofun, fun hn => absurd hn.1 (Nat.not_le.mpr hlong)⟩
  · rw [if_neg hlong]
    constructor
    · intro hn
      refine ⟨Nat.not_lt.mp hlong, ?_⟩
      cases ha : bigInt (integerText intPart) with
      | error e =>
          rw [ha] at hn
          cases hn
      | ok a =>
          cases hb : bigInt (padEnd precision fracPart) with
          | error e =>
              rw [ha, hb] at hn
              cases hn
          | ok b =>
              rw [ha, hb] at hn
              cases hn
              exact ⟨a, b, bigInt_eq_ok.mp ha, bigInt_eq_ok.mp hb, rfl⟩
    · rintro ⟨-, a, b, ha, hb, rfl⟩
      rw [bigInt_eq_ok.mpr ha, bigInt_eq_ok.mpr hb]
      rfl

theorem refused_iff (name : String) (cs : List Char) : Refused precision cs ↔ ∀ n, parseDisplay precision name cs ≠ .ok n := by
  by_cases hpoint : '.' ∈ cs
  · obtain ⟨intPart, fracPart, rfl, hint⟩ := List.eq_append_cons_of_mem hpoint
    rw [Refused, span_of_point hint]
    dsimp only
    constructor
    · intro h n hn
      obtain ⟨hlen, a, b, ha, hb, -⟩ := (parseDisplay_point hint).mp hn
      rcases h with h | h | h
      · exact absurd hlen (Nat.not_le.mpr h)
      · cases h.symm.trans ha
      · cases h.symm.trans hb
    · intro h
      by_contra hnone
      obtain ⟨hlen, hrest⟩ := not_or.mp hnone
      obtain ⟨ha, hb⟩ := not_or.mp hrest
      obtain ⟨a, ha⟩ := Option.ne_none_iff_exists'.mp ha
      obtain ⟨b, hb⟩ := Option.ne_none_iff_exists'.mp hb
      exact h _ ((parseDisplay_point hint).mpr ⟨Nat.not_lt.mp hlen, a, b, ha, hb, rfl⟩)
  · rw [Refused, span_of_notMem hpoint]
    dsimp only
    constructor
    · intro h n hn
      obtain ⟨m, hm, -⟩ := (parseDisplay_whole hpoint).mp hn
      cases h.symm.trans hm
    · intro h
      by_contra hnone
      obtain ⟨m, hm⟩ := Option.ne_none_iff_exists'.mp hnone
      exact h _ ((parseDisplay_whole hpoint).mpr ⟨m, hm, rfl⟩)

theorem point_notMem (x : Numeral) : '.' ∉ x.sign ++ x.int := by
  intro h
  rcases List.mem_append.mp h with h | h
  · have hsign := x.isSign
    simp only [List.mem_cons, List.not_mem_nil, or_false] at hsign
    rcases hsign with hs | hs | hs <;> rw [hs] at h <;> revert h <;> decide
  · exact absurd (x.isInt _ h) (by decide)

/-- What is read from a numeral is its value, unless it is negative with a fraction. -/
theorem parse_value (hx : x.text = cs) (h : parseDisplay precision name cs = .ok n) : x.fraction.length ≤ precision ∧
    ((n : ℚ) = x.value * 10 ^ precision ↔ (x.sign = ['-'] → Nat.ofDigitChars 10 x.fraction 0 = 0)) := by
  have hpow : (0 : ℚ) < 10 ^ precision := by positivity
  cases hfrac : x.frac with
  | none =>
      have hempty : x.fraction = [] := by rw [Numeral.fraction, hfrac]; rfl
      have htext : cs = x.sign ++ x.int := by rw [← hx, Numeral.text, hfrac]; exact List.append_nil _
      have hne : x.int ≠ [] := by
        have hnonempty := x.nonempty
        rwa [hfrac, Option.getD_none, List.append_nil] at hnonempty
      subst htext
      obtain ⟨m, hm, rfl⟩ := (parseDisplay_whole (point_notMem x)).mp h
      rw [read_signed x.isSign x.isInt hne] at hm
      obtain rfl := Option.some.inj hm
      rw [hempty]
      refine ⟨Nat.zero_le _, iff_of_true ?_ (fun _ => rfl)⟩
      rw [Numeral.value, Numeral.magnitude, hempty, signed]
      split_ifs <;> simp
  | some fracPart =>
      have hfraction : x.fraction = fracPart := by rw [Numeral.fraction, hfrac]; rfl
      have hdigits : AllDigits fracPart := by
        have hisFrac := x.isFrac
        rwa [hfrac] at hisFrac
      have htext : cs = (x.sign ++ x.int) ++ '.' :: fracPart := by rw [← hx, Numeral.text, hfrac]; rfl
      subst htext
      obtain ⟨hlen, a, b, ha, hb, rfl⟩ := (parseDisplay_point (point_notMem x)).mp h
      rw [units_digits hdigits] at hlen
      obtain ⟨b', hb', hvalue⟩ := read_padEnd hdigits hlen
      obtain rfl := Option.some.inj (hb.symm.trans hb')
      obtain rfl := read_int ha
      rw [hfraction]
      refine ⟨hlen, ?_⟩
      rw [Numeral.value, Numeral.magnitude, hfraction, signed]
      push_cast
      rw [hvalue]
      by_cases hminus : x.sign = ['-']
      · rw [if_pos hminus, if_pos hminus]
        constructor
        · intro heq _
          have hzero : (Nat.ofDigitChars 10 fracPart 0 : ℚ) / 10 ^ fracPart.length * 10 ^ precision = 0 := by linarith
          have hten : (10 : ℚ) ^ fracPart.length ≠ 0 := pow_ne_zero _ (by norm_num)
          have hdiv := (mul_eq_zero.mp hzero).resolve_right hpow.ne'
          exact_mod_cast (div_eq_zero_iff.mp hdiv).resolve_right hten
        · intro hzero
          rw [hzero hminus]
          simp
      · rw [if_neg hminus, if_neg hminus]
        exact iff_of_true (by ring) (fun hs => absurd hs hminus)

theorem toOnChainAmount_eq_ok {precisions : Precisions} {asset : Asset} (hp : getAssetPrecision precisions asset = .ok precision)
    {display result : String} : toOnChainAmount precisions display asset = .ok result ↔
      ∃ n, parseDisplay precision (assetName asset) display.toList = .ok n ∧ result = toString n := by
  rw [toOnChainAmount, hp]
  change (parseDisplay precision (assetName asset) display.toList).bind (fun n => .ok (toString n)) = _ ↔ _
  cases parseDisplay precision (assetName asset) display.toList with
  | error e => exact ⟨nofun, fun ⟨n, hn, _⟩ => nomatch hn⟩
  | ok n =>
      constructor
      · intro h
        exact ⟨n, rfl, (Except.ok.inj h).symm⟩
      · rintro ⟨m, hm, rfl⟩
        obtain rfl := Except.ok.inj hm
        rfl

theorem parses_iff {precisions : Precisions} {asset : Asset} (hp : getAssetPrecision precisions asset = .ok precision)
    (display : String) : Parses precisions precision display asset ↔ Refused precision display.toList ∨ Readable display.toList := by
  constructor
  · intro h
    refine or_iff_not_imp_left.mpr (fun hread => ?_)
    rw [refused_iff (assetName asset)] at hread
    obtain ⟨n, hn⟩ := not_forall_not.mp hread
    obtain ⟨x, hx, -, m, hresult, hvalue⟩ := h _ ((toOnChainAmount_eq_ok hp).mpr ⟨n, hn, rfl⟩)
    obtain rfl := toString_inj hresult
    exact ⟨x, hx, (parse_value hx hn).2.mp hvalue⟩
  · intro h result hresult
    obtain ⟨n, hn, rfl⟩ := (toOnChainAmount_eq_ok hp).mp hresult
    rcases h with hrefused | ⟨x, hx, hminus⟩
    · exact absurd hn ((refused_iff _ _).mp hrefused n)
    · obtain ⟨hlen, hvalue⟩ := parse_value hx hn
      exact ⟨x, hx, hlen, n, rfl, hvalue.mpr hminus⟩

end Parsing

end SplitSdk.AmountParsing
