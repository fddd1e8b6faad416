import SplitSdk.AmountParsing

namespace SplitSdk.AmountValidator

open Numbers NumberText BigIntText AmountParsing
open CurrencyNormalizer (padEnd)

section Model

inductive AmountUnit
  | stroops
  | decimal
  | auto
  deriving DecidableEq

/-- A value of a type that is no amount is known by what `typeof` calls it. -/
inductive Amount
  | nullish
  | bigint (n : Int)
  | number (x : JsNumber)
  | string (text : String)
  | other (type : String)

def STELLAR_MAX_INT64 : Int := 9223372036854775807

def STELLAR_MIN_AMOUNT : Int := 1

def STELLAR_MAX_DECIMALS : JsNumber := .finite 7

def STROOPS_PER_UNIT : Int := 10 ^ 7

def notInteger (x : JsNumber) : String :=
  let number := Numbers.toString x
  s!"The number {number} cannot be converted to a BigInt because it is not an integer"

/-- `BigInt(x)`. -/
def bigInt : Amount → Except String Int
  | .bigint n => .ok n
  | .number (.finite q) => if q.den = 1 then .ok q.num else .error (notInteger (.finite q))
  | .number x => .error (notInteger x)
  | .string text =>
      match BigIntText.ofString text with
      | some n => .ok n
      | none => .error s!"Cannot convert {text} to a BigInt"
  | .nullish => .error "Cannot convert undefined to a BigInt"
  | .other type => .error s!"Cannot convert {type} to a BigInt"

def digitsOf (digits : List Char) : Except String Int := bigInt (.string (String.ofList digits))

/-- A sign that a text begins with, and the rest of the text. -/
def splitSign : List Char → List Char × List Char
  | [] => ([], [])
  | c :: cs => if c = '+' ∨ c = '-' then ([c], cs) else ([], c :: cs)

/-- The sign, the digits and the digits after the point that `/^([+-])?(\d*)(\.(\d*))?$/` captures. -/
def execDecimal (str : List Char) : Option (List Char × List Char × Option (List Char)) :=
  let (sign, unsigned) := splitSign str
  match unsigned.span Char.isDigit with
  | (whole, []) => some (sign, whole, none)
  | (whole, '.' :: frac) => if frac.all Char.isDigit then some (sign, whole, some frac) else none
  | _ => none

/-- The test `/^[+-]?\d+$/`. -/
def isInteger (str : List Char) : Bool :=
  let digits := (splitSign str).2
  digits ≠ [] && digits.all Char.isDigit

def parseDecimalStringToStroops (chars : List Char) (maxDecimals : JsNumber) : Except String Int :=
  let str := String.ofList chars
  match execDecimal chars with
  | none => .error s!"Invalid decimal amount format: \"{str}\". Expected a numeric string (e.g. \"10.50\")."
  | some (signPart, wholePart, fraction) =>
      let sign : Int := if signPart = ['-'] then -1 else 1
      let fracPart := fraction.getD []
      let length := fracPart.length
      if wholePart = [] ∧ fracPart = [] then .error s!"Invalid decimal amount: \"{str}\". No digits found."
      else if maxDecimals.lt (.finite length) then
        let limit := Numbers.toString maxDecimals
        .error s!"Amount precision ({length} decimals) exceeds maximum allowed {limit} decimal places in \"{str}\"."
      else do
        let whole ← digitsOf (if wholePart = [] then ['0'] else wholePart)
        let frac ← digitsOf ((padEnd 7 fracPart).take 7)
        return sign * (whole * STROOPS_PER_UNIT + frac)

def parseToStroops (amount : Amount) (unit : AmountUnit) (maxDecimals : JsNumber) : Except String Int :=
  match amount with
  | .nullish => .error "Amount is required (received null or undefined)."
  | .bigint n => .ok (if unit = .decimal then n * STROOPS_PER_UNIT else n)
  | .number x =>
      let text := Numbers.toString x
      match x with
      | .finite q =>
          if unit = .stroops then
            if q.den ≠ 1 then .error s!"Stroop amounts must be integers (received fractional number {text})."
            else .ok q.num
          else parseDecimalStringToStroops (Numbers.text x) maxDecimals
      | _ => .error s!"Amount must be a finite number (received {text})."
  | .string text =>
      let trimmed := trim text.toList
      if trimmed = [] then .error "Amount string cannot be empty."
      else if 'e' ∈ trimmed ∨ 'E' ∈ trimmed then
        .error s!"Scientific notation is not supported for amounts (\"{text}\"). Use standard decimal notation."
      else if unit = .stroops ∨ unit = .auto ∧ '.' ∉ trimmed then
        if isInteger trimmed then digitsOf trimmed
        else .error s!"Invalid stroop amount format: \"{text}\". Expected an integer string."
      else parseDecimalStringToStroops trimmed maxDecimals
  | .other type => .error s!"Unsupported amount type: expected bigint, number, or string (received {type})."

/-- The options, and no options when every field is left out. -/
structure Options where
  min : Option Amount := none
  max : Option Amount := none
  allowZero : Option Bool := none
  allowNegative : Option Bool := none
  maxDecimals : Option JsNumber := none
  unit : Option AmountUnit := none

namespace Options

variable (options : Options)

def unitMode : AmountUnit := options.unit.getD .auto

def decimals : JsNumber := options.maxDecimals.getD STELLAR_MAX_DECIMALS

def zeroAllowed : Bool := options.allowZero.getD false

def negativeAllowed : Bool := options.allowNegative.getD false

def defaultMin : Int :=
  if options.negativeAllowed then -STELLAR_MAX_INT64 else if options.zeroAllowed then 0 else STELLAR_MIN_AMOUNT

end Options

structure AmountValidationResult where
  valid : Bool
  errors : List String
  stroops : Option Int

/-- A bound of the options, parsed as the amount is, or converted when this fails. -/
def parseBound (bound : Option Amount) (default : Int) (unit : AmountUnit) (maxDecimals : JsNumber) : Except String Int :=
  match bound with
  | none => .ok default
  | some bound =>
      match parseToStroops bound unit maxDecimals with
      | .ok n => .ok n
      | .error _ => bigInt bound

def errorsOf (options : Options) (stroops minBound maxBound : Int) : List String :=
  (if stroops < 0 ∧ !options.negativeAllowed then [s!"Amount cannot be negative (received {stroops} stroops)."] else []) ++
    (if stroops = 0 ∧ !options.zeroAllowed then ["Amount must be greater than zero."] else []) ++
    (if stroops < minBound then [s!"Amount ({stroops} stroops) is below the minimum allowed limit of {minBound} stroops."] else []) ++
    (if stroops > maxBound then [s!"Amount ({stroops} stroops) exceeds the maximum allowed limit of {maxBound} stroops."] else [])

def validateAmount (amount : Amount) (options : Options) : Except String AmountValidationResult :=
  match parseToStroops amount options.unitMode options.decimals with
  | .error message => .ok ⟨false, [message], none⟩
  | .ok stroops => do
      let minBound ← parseBound options.min options.defaultMin options.unitMode options.decimals
      let maxBound ← parseBound options.max STELLAR_MAX_INT64 options.unitMode options.decimals
      let errors := errorsOf options stroops minBound maxBound
      return ⟨errors = [], errors, if errors = [] then some stroops else none⟩

end Model

section Meaning

/-- The whole number next to a number, on the side of zero. -/
def toZero (q : ℚ) : Int := if 0 ≤ q then ⌊q⌋ else ⌈q⌉

/-- An amount stands for a number of stroops, and has a number of digits after the point. -/
inductive Denotes : AmountUnit → Amount → ℚ → Nat → Prop
  | stroops {unit : AmountUnit} (h : unit ≠ .decimal) (n : Int) : Denotes unit (.bigint n) n 0
  | units (n : Int) : Denotes .decimal (.bigint n) (n * 10 ^ 7) 0
  | integer {q : ℚ} (h : q.den = 1) : Denotes .stroops (.number (.finite q)) q 0
  | number {unit : AmountUnit} (h : unit ≠ .stroops) {q : ℚ} (x : Numeral) (htext : x.text = Numbers.text (.finite q)) :
      Denotes unit (.number (.finite q)) (x.value * 10 ^ 7) x.fraction.length
  | whole {unit : AmountUnit} (h : unit ≠ .decimal) {text : String} (x : Numeral) (htext : x.text = trim text.toList)
      (hwhole : x.frac = none) : Denotes unit (.string text) x.value 0
  | decimal {unit : AmountUnit} {text : String} (x : Numeral) (htext : x.text = trim text.toList)
      (h : unit = .decimal ∨ unit = .auto ∧ x.frac ≠ none) : Denotes unit (.string text) (x.value * 10 ^ 7) x.fraction.length

variable (amount : Amount) (options : Options) (s : Int)

/-- The bound on the digits after the point. -/
def Precise (maxDecimals : JsNumber) (digits : Nat) : Prop := (JsNumber.finite digits).le maxDecimals

def Allowed : Prop := (s < 0 → options.negativeAllowed) ∧ (s = 0 → options.zeroAllowed)

/-- The bounds, for a way to read those that are given. -/
def Within (Read : Amount → Int → Prop) : Prop :=
  options.min.elim (options.defaultMin ≤ s) (fun min => ∃ lo, Read min lo ∧ lo ≤ s) ∧
    options.max.elim (s ≤ STELLAR_MAX_INT64) (fun max => ∃ hi, Read max hi ∧ s ≤ hi)

/-- A bound in stroops. -/
def InStroops (bound : Amount) (n : Int) : Prop := bigInt bound = .ok n

/-- A bound as an amount in the unit of the amount that is validated, and in stroops only where this fails. -/
def AsAmount (bound : Amount) (n : Int) : Prop :=
  (∃ q digits, Denotes options.unitMode bound q digits ∧ Precise options.decimals digits ∧ n = toZero q) ∨
    (¬∃ q digits, Denotes options.unitMode bound q digits ∧ Precise options.decimals digits) ∧ InStroops bound n

/-- The amount stands for exactly `s` stroops, which all the options admit. -/
structure Meets : Prop where
  exact : ∃ digits, Denotes options.unitMode amount s digits ∧ Precise options.decimals digits
  within : Within options s InStroops
  allowed : Allowed options s

def Accepts : Prop := ∃ result, validateAmount amount options = .ok result ∧ result.valid ∧ result.stroops = some s

end Meaning

section Rounding

theorem toZero_intCast (n : Int) : toZero n = n := by
  unfold toZero
  split_ifs <;> simp

theorem toZero_neg (q : ℚ) : toZero (-q) = -toZero q := by
  unfold toZero
  rcases lt_trichotomy q 0 with h | rfl | h
  · rw [if_pos (neg_nonneg.mpr h.le), if_neg (not_le.mpr h), Int.floor_neg]
  · simp
  · rw [if_neg (by linarith), if_pos h.le, Int.ceil_neg]

theorem toZero_signed (x : Numeral) (q : ℚ) : toZero (if x.sign = ['-'] then -q else q) = signed x.sign 1 * toZero q := by
  unfold signed
  split_ifs
  · simp [toZero_neg]
  · simp

/-- The first digits of a fraction, up to a place. -/
theorem floor_fraction {digits : List Char} (h : AllDigits digits) (places : Nat) :
    ⌊(Nat.ofDigitChars 10 digits 0 / 10 ^ digits.length * 10 ^ places : ℚ)⌋ =
      Nat.ofDigitChars 10 ((padEnd places digits).take places) 0 := by
  rcases Nat.le_total digits.length places with hlen | hlen
  · obtain ⟨b, hb, hvalue⟩ := read_padEnd h hlen
    have htake : (padEnd places digits).take places = padEnd places digits := by
      refine List.take_of_length_le ?_
      rw [padEnd, List.length_append, List.length_replicate, units_digits h]
      omega
    rw [read_digits (allDigits_padEnd h)] at hb
    obtain rfl := Option.some.inj hb
    rw [htake, ← hvalue, Int.floor_intCast]
  · have hpad : padEnd places digits = digits := by
      rw [padEnd, units_digits h, Nat.sub_eq_zero_of_le hlen, List.replicate_zero, List.append_nil]
    have hrest : Nat.ofDigitChars 10 (digits.drop places) 0 < 10 ^ (digits.length - places) := by
      rw [← List.length_drop]
      exact ofDigitChars_lt (fun c hc => h c (List.mem_of_mem_drop hc))
    have hsplit : (Nat.ofDigitChars 10 digits 0 : ℚ) =
        Nat.ofDigitChars 10 (digits.take places) 0 * 10 ^ (digits.length - places) + Nat.ofDigitChars 10 (digits.drop places) 0 := by
      conv_lhs => rw [← List.take_append_drop places digits]
      rw [ofDigitChars_append, List.length_drop]
    have hpow : (10 : ℚ) ^ digits.length = 10 ^ (digits.length - places) * 10 ^ places := by
      rw [← pow_add, Nat.sub_add_cancel hlen]
    have hpos : (0 : ℚ) < 10 ^ (digits.length - places) := by positivity
    rw [hpad, Int.floor_eq_iff, hsplit, hpow]
    have hvalue : ((Nat.ofDigitChars 10 (digits.take places) 0 * 10 ^ (digits.length - places) +
        Nat.ofDigitChars 10 (digits.drop places) 0) / (10 ^ (digits.length - places) * 10 ^ places) * 10 ^ places : ℚ) =
        Nat.ofDigitChars 10 (digits.take places) 0 + Nat.ofDigitChars 10 (digits.drop places) 0 / 10 ^ (digits.length - places) := by
      field_simp
    rw [hvalue, Int.cast_natCast]
    refine ⟨le_add_of_nonneg_right (by positivity), ?_⟩
    rw [add_lt_add_iff_left, div_lt_one hpos]
    exact_mod_cast hrest

end Rounding

section Texts

variable {x y : Numeral} {cs sign digits whole : List Char} {frac : Option (List Char)}

theorem splitSign_append (hsign : sign ∈ [[], ['+'], ['-']]) (h : ∀ c ∈ cs.head?, c ≠ '+' ∧ c ≠ '-') :
    splitSign (sign ++ cs) = (sign, cs) := by
  simp only [List.mem_cons, List.not_mem_nil, or_false] at hsign
  rcases hsign with rfl | rfl | rfl
  · cases cs with
    | nil => rfl
    | cons c cs =>
        obtain ⟨hplus, hminus⟩ := h c rfl
        exact if_neg (not_or.mpr ⟨hplus, hminus⟩)
  · rfl
  · rfl

theorem splitSign_spec (cs : List Char) : (splitSign cs).1 ++ (splitSign cs).2 = cs ∧ (splitSign cs).1 ∈ [[], ['+'], ['-']] := by
  cases cs with
  | nil => exact ⟨rfl, .head _⟩
  | cons c cs =>
      rw [splitSign]
      split_ifs with h
      · refine ⟨rfl, ?_⟩
        rcases h with rfl | rfl <;> simp
      · exact ⟨rfl, .head _⟩

/-- A text without its sign begins with a digit or a point. -/
theorem head_unsigned (x : Numeral) : ∀ c ∈ (x.int ++ x.frac.elim [] ('.' :: ·)).head?, c ≠ '+' ∧ c ≠ '-' := by
  intro c hc
  have hint := x.isInt
  cases hx : x.int with
  | cons d ds =>
      rw [hx] at hc hint
      obtain rfl := Option.some.inj hc
      have hd := hint d List.mem_cons_self
      exact ⟨fun h => absurd (h ▸ hd) (by decide), fun h => absurd (h ▸ hd) (by decide)⟩
  | nil =>
      rw [hx, List.nil_append] at hc
      cases hfrac : x.frac with
      | none =>
          rw [hfrac] at hc
          cases hc
      | some frac =>
          rw [hfrac] at hc
          obtain rfl := Option.some.inj hc
          decide

theorem splitSign_text (x : Numeral) : splitSign x.text = (x.sign, x.int ++ x.frac.elim [] ('.' :: ·)) := by
  rw [Numeral.text, List.append_assoc]
  exact splitSign_append x.isSign (head_unsigned x)

theorem execDecimal_text (x : Numeral) : execDecimal x.text = some (x.sign, x.int, x.frac) := by
  rw [execDecimal, splitSign_text]
  dsimp only
  cases hfrac : x.frac with
  | none =>
      rw [Option.elim_none, span_digits [] x.isInt nofun]
  | some frac =>
      have hdigits : AllDigits frac := by
        have hisFrac := x.isFrac
        rwa [hfrac] at hisFrac
      rw [Option.elim_some, span_digits ('.' :: frac) x.isInt (by simp)]
      exact if_pos (List.all_eq_true.mpr hdigits)

theorem text_inj (h : x.text = y.text) : x = y := by
  have hexec := execDecimal_text x
  rw [h, execDecimal_text y] at hexec
  cases x
  cases y
  simp_all

theorem exists_of_exec (h : execDecimal cs = some (sign, whole, frac)) (hne : ¬(whole = [] ∧ frac.getD [] = [])) :
    ∃ x : Numeral, x.text = cs ∧ x.sign = sign ∧ x.int = whole ∧ x.frac = frac := by
  obtain ⟨hcs, hsign⟩ := splitSign_spec cs
  have hspan : (splitSign cs).2.takeWhile Char.isDigit ++ (splitSign cs).2.dropWhile Char.isDigit = (splitSign cs).2 :=
    List.takeWhile_append_dropWhile
  have hwhole : AllDigits ((splitSign cs).2.takeWhile Char.isDigit) := fun c hc => List.mem_takeWhile_imp hc
  rw [execDecimal] at h
  dsimp only at h
  rw [List.span_eq_takeWhile_dropWhile] at h
  split at h
  next hpair =>
    obtain ⟨rfl, hrest⟩ := Prod.mk.inj hpair
    cases h
    rw [hrest, List.append_nil] at hspan
    refine ⟨⟨(splitSign cs).1, _, none, hsign, hwhole, List.forall_mem_nil _, ?_⟩, ?_, rfl, rfl, rfl⟩
    · simpa using hne
    · exact (List.append_nil _).trans ((congrArg _ hspan).trans hcs)
  next hpair =>
    obtain ⟨rfl, hrest⟩ := Prod.mk.inj hpair
    split_ifs at h with hdigits
    cases h
    rw [hrest] at hspan
    refine ⟨⟨(splitSign cs).1, _, some _, hsign, hwhole, List.all_eq_true.mp hdigits, ?_⟩, ?_, rfl, rfl, rfl⟩
    · simpa using hne
    · exact (List.append_assoc _ _ _).trans ((congrArg _ hspan).trans hcs)
  next => cases h

theorem isInteger_iff : isInteger cs ↔ ∃ x : Numeral, x.text = cs ∧ x.frac = none := by
  rw [isInteger, Bool.and_eq_true, decide_eq_true_iff, List.all_eq_true]
  constructor
  · rintro ⟨hne, hdigits⟩
    obtain ⟨hcs, hsign⟩ := splitSign_spec cs
    refine ⟨⟨(splitSign cs).1, (splitSign cs).2, none, hsign, hdigits, List.forall_mem_nil _, by simpa using hne⟩, ?_, rfl⟩
    exact (List.append_nil _).trans hcs
  · rintro ⟨x, rfl, hfrac⟩
    rw [splitSign_text, hfrac, Option.elim_none, List.append_nil]
    have hnonempty := x.nonempty
    rw [hfrac, Option.getD_none, List.append_nil] at hnonempty
    exact ⟨hnonempty, x.isInt⟩

end Texts

section Parsing

variable {x : Numeral} {cs : List Char} {maxDecimals : JsNumber} {unit : AmountUnit} {amount : Amount} {r : Int}

theorem digitsOf_digits {digits : List Char} (h : AllDigits digits) : digitsOf digits = .ok (Nat.ofDigitChars 10 digits 0) := by
  unfold digitsOf bigInt
  dsimp only
  rw [BigIntText.ofString, String.toList_ofList, read_digits h]

theorem digitsOf_whole (x : Numeral) (hwhole : x.frac = none) : digitsOf x.text = .ok (toZero x.value) := by
  have hne : x.int ≠ [] := by
    have hnonempty := x.nonempty
    rwa [hwhole, Option.getD_none, List.append_nil] at hnonempty
  unfold digitsOf bigInt
  dsimp only
  rw [BigIntText.ofString, String.toList_ofList, Numeral.text, hwhole, Option.elim_none, List.append_nil,
    read_signed x.isSign x.isInt hne]
  dsimp only
  have hvalue : x.value = (signed x.sign (Nat.ofDigitChars 10 x.int 0) : Int) := by
    rw [Numeral.value, Numeral.magnitude, Numeral.fraction, hwhole, signed]
    split_ifs <;> simp
  rw [hvalue, toZero_intCast]

/-- What is left of the value of a numeral after seven places. -/
theorem toZero_value (x : Numeral) : toZero (x.value * 10 ^ 7) = (if x.sign = ['-'] then -1 else 1) *
    (Nat.ofDigitChars 10 x.int 0 * STROOPS_PER_UNIT + Nat.ofDigitChars 10 ((padEnd 7 x.fraction).take 7) 0) := by
  have hmagnitude : toZero (x.magnitude * 10 ^ 7) =
      Nat.ofDigitChars 10 x.int 0 * STROOPS_PER_UNIT + Nat.ofDigitChars 10 ((padEnd 7 x.fraction).take 7) 0 := by
    have hnonneg : 0 ≤ x.magnitude * 10 ^ 7 := by
      unfold Numeral.magnitude
      positivity
    have hsplit : x.magnitude * 10 ^ 7 = (Nat.ofDigitChars 10 x.int 0 * STROOPS_PER_UNIT : Int) +
        Nat.ofDigitChars 10 x.fraction 0 / 10 ^ x.fraction.length * 10 ^ 7 := by
      rw [Numeral.magnitude, STROOPS_PER_UNIT]
      push_cast
      ring
    rw [toZero, if_pos hnonneg, hsplit, Int.floor_intCast_add]
    exact congrArg _ (floor_fraction x.isFrac 7)
  rw [← hmagnitude, Numeral.value]
  split_ifs
  · rw [neg_mul, toZero_neg, neg_one_mul]
  · rw [one_mul]

theorem not_lt_iff (hmax : (JsNumber.finite 0).le maxDecimals) (digits : Nat) :
    ¬maxDecimals.lt (.finite digits) ↔ Precise maxDecimals digits := by
  unfold Precise
  cases maxDecimals with
  | nan => cases hmax
  | infinity negative => cases negative <;> simp_all [JsNumber.le, JsNumber.lt]
  | finite q => rw [JsNumber.finite_le_finite_iff, JsNumber.lt, decide_eq_true_iff, not_lt]

theorem parseDecimal_text (hmax : (JsNumber.finite 0).le maxDecimals) (x : Numeral) :
    parseDecimalStringToStroops x.text maxDecimals = .ok r ↔ Precise maxDecimals x.fraction.length ∧ r = toZero (x.value * 10 ^ 7) := by
  have hnonempty : ¬(x.int = [] ∧ x.frac.getD [] = []) := fun h => x.nonempty (List.append_eq_nil_iff.mpr h)
  have hwhole : digitsOf (if x.int = [] then ['0'] else x.int) = .ok (Nat.ofDigitChars 10 x.int 0) := by
    split_ifs with hint
    · rw [hint]
      rfl
    · exact digitsOf_digits x.isInt
  have hfrac : digitsOf ((padEnd 7 x.fraction).take 7) = .ok (Nat.ofDigitChars 10 ((padEnd 7 x.fraction).take 7) 0) :=
    digitsOf_digits (fun c hc => allDigits_padEnd x.isFrac c (List.mem_of_mem_take hc))
  rw [parseDecimalStringToStroops, execDecimal_text]
  dsimp only
  rw [if_neg hnonempty, ← not_lt_iff hmax, toZero_value, show x.frac.getD [] = x.fraction from rfl]
  by_cases hlong : maxDecimals.lt (.finite x.fraction.length)
  · rw [if_pos hlong]
    exact ⟨nofun, fun h => absurd hlong h.1⟩
  · rw [if_neg hlong, hwhole, hfrac]
    exact ⟨fun h => ⟨hlong, (Except.ok.inj h).symm⟩, fun h => congrArg Except.ok h.2.symm⟩

/-- The numerals whose fraction is short enough are read, cut off after seven places. -/
theorem parseDecimal_eq_ok_iff (hmax : (JsNumber.finite 0).le maxDecimals) : parseDecimalStringToStroops cs maxDecimals = .ok r ↔
    ∃ x : Numeral, x.text = cs ∧ Precise maxDecimals x.fraction.length ∧ r = toZero (x.value * 10 ^ 7) := by
  constructor
  · intro h
    have hread : ∃ x : Numeral, x.text = cs := by
      unfold parseDecimalStringToStroops at h
      dsimp only at h
      split at h
      next => cases h
      next sign whole frac hexec =>
        by_cases hempty : whole = [] ∧ frac.getD [] = []
        · rw [if_pos hempty] at h
          cases h
        · obtain ⟨x, hx, -⟩ := exists_of_exec hexec hempty
          exact ⟨x, hx⟩
    obtain ⟨x, rfl⟩ := hread
    exact ⟨x, rfl, (parseDecimal_text hmax x).mp h⟩
  · rintro ⟨x, rfl, h⟩
    exact (parseDecimal_text hmax x).mpr h

theorem plain_text (x : Numeral) : ∀ c ∈ x.text, c ≠ 'e' ∧ c ≠ 'E' := by
  have hdigits {digits : List Char} (h : AllDigits digits) : ∀ c ∈ digits, c ≠ 'e' ∧ c ≠ 'E' := fun c hc =>
    ⟨fun heq => absurd (heq ▸ h c hc) (by decide), fun heq => absurd (heq ▸ h c hc) (by decide)⟩
  have hsign : ∀ c ∈ x.sign, c ≠ 'e' ∧ c ≠ 'E' := by
    have hsign := x.isSign
    simp only [List.mem_cons, List.not_mem_nil, or_false] at hsign
    rcases hsign with hs | hs | hs <;> rw [hs] <;> simp
  have hfrac : ∀ c ∈ x.frac.elim [] ('.' :: ·), c ≠ 'e' ∧ c ≠ 'E' := by
    have hisFrac := x.isFrac
    cases hx : x.frac with
    | none => exact nofun
    | some frac =>
        rw [hx] at hisFrac
        exact List.forall_mem_cons.mpr ⟨by decide, hdigits hisFrac⟩
  exact List.forall_mem_append.mpr ⟨List.forall_mem_append.mpr ⟨hsign, hdigits x.isInt⟩, hfrac⟩

theorem point_mem_text (x : Numeral) : '.' ∈ x.text ↔ x.frac ≠ none := by
  rw [Numeral.text, List.mem_append, or_iff_right (point_notMem x)]
  cases x.frac <;> simp

theorem text_ne_nil (x : Numeral) : x.text ≠ [] := by
  intro h
  rw [Numeral.text, List.append_assoc, List.append_eq_nil_iff, List.append_eq_nil_iff] at h
  obtain ⟨-, hint, hfrac⟩ := h
  refine x.nonempty (List.append_eq_nil_iff.mpr ⟨hint, ?_⟩)
  cases hx : x.frac with
  | none => rfl
  | some frac =>
      rw [hx] at hfrac
      cases hfrac

theorem parse_string (hmax : (JsNumber.finite 0).le maxDecimals) (text : String) :
    parseToStroops (.string text) unit maxDecimals = .ok r ↔
      ∃ q digits, Denotes unit (.string text) q digits ∧ Precise maxDecimals digits ∧ r = toZero q := by
  constructor
  · intro h
    rw [parseToStroops] at h
    split_ifs at h with hempty hexponent hunit hinteger
    · obtain ⟨x, hx, hwhole⟩ := isInteger_iff.mp hinteger
      rw [← hx, digitsOf_whole x hwhole] at h
      have hne : unit ≠ .decimal := by
        rintro rfl
        rcases hunit with h | h
        · cases h
        · cases h.1
      exact ⟨x.value, 0, .whole hne x hx hwhole, hmax, (Except.ok.inj h).symm⟩
    · obtain ⟨x, hx, hprecise, hr⟩ := (parseDecimal_eq_ok_iff hmax).mp h
      refine ⟨_, _, .decimal x hx ?_, hprecise, hr⟩
      rw [← hx, point_mem_text] at hunit
      cases unit with
      | stroops => exact absurd (.inl rfl) hunit
      | decimal => exact .inl rfl
      | auto => exact .inr ⟨rfl, fun hfrac => hunit (.inr ⟨rfl, not_not.mpr hfrac⟩)⟩
  · rintro ⟨q, digits, hdenotes, hprecise, rfl⟩
    have hplain (x : Numeral) : ¬('e' ∈ x.text ∨ 'E' ∈ x.text) := by
      rintro (h | h)
      · exact (plain_text x _ h).1 rfl
      · exact (plain_text x _ h).2 rfl
    rw [parseToStroops]
    cases hdenotes with
    | whole hne x hx hwhole =>
        have hunit : unit = .stroops ∨ unit = .auto ∧ '.' ∉ x.text := by
          rw [point_mem_text, not_not]
          cases unit with
          | stroops => exact .inl rfl
          | decimal => exact absurd rfl hne
          | auto => exact .inr ⟨rfl, hwhole⟩
        rw [← hx, if_neg (text_ne_nil x), if_neg (hplain x), if_pos hunit, if_pos (isInteger_iff.mpr ⟨x, rfl, hwhole⟩),
          digitsOf_whole x hwhole]
    | decimal x hx h =>
        have hunit : ¬(unit = .stroops ∨ unit = .auto ∧ '.' ∉ x.text) := by
          rw [point_mem_text, not_not]
          rcases h with rfl | ⟨rfl, hfrac⟩
          · simp
          · simp [hfrac]
        rw [← hx, if_neg (text_ne_nil x), if_neg (hplain x), if_neg hunit]
        exact (parseDecimal_text hmax x).mpr ⟨hprecise, rfl⟩

theorem parse_number (hmax : (JsNumber.finite 0).le maxDecimals) (v : JsNumber) :
    parseToStroops (.number v) unit maxDecimals = .ok r ↔
      ∃ q digits, Denotes unit (.number v) q digits ∧ Precise maxDecimals digits ∧ r = toZero q := by
  cases v with
  | nan => exact ⟨nofun, fun ⟨_, _, h, _⟩ => nomatch h⟩
  | infinity negative => exact ⟨nofun, fun ⟨_, _, h, _⟩ => nomatch h⟩
  | finite q =>
      rw [parseToStroops]
      by_cases hunit : unit = .stroops
      · rw [if_pos hunit]
        subst hunit
        constructor
        · intro h
          split_ifs at h with hden
          have hq : (q.num : ℚ) = q := Rat.coe_int_num_of_den_eq_one (not_not.mp hden)
          obtain rfl := Except.ok.inj h
          refine ⟨q, 0, .integer (not_not.mp hden), hmax, ?_⟩
          rw [← hq, toZero_intCast, hq]
        · rintro ⟨_, _, hdenotes, -, rfl⟩
          cases hdenotes with
          | integer hden =>
              have hq : (q.num : ℚ) = q := Rat.coe_int_num_of_den_eq_one hden
              rw [if_neg (not_not.mpr hden), ← hq, toZero_intCast, hq]
          | number h => exact absurd rfl h
      · rw [if_neg hunit, parseDecimal_eq_ok_iff hmax]
        constructor
        · rintro ⟨x, hx, hprecise, hr⟩
          exact ⟨_, _, .number hunit x hx, hprecise, hr⟩
        · rintro ⟨_, _, hdenotes, hprecise, hr⟩
          cases hdenotes with
          | integer => exact absurd rfl hunit
          | number h x hx => exact ⟨x, hx, hprecise, hr⟩

/-- What is read from an amount is what it stands for, cut off at whole stroops. -/
theorem parse_eq_ok_iff (hmax : (JsNumber.finite 0).le maxDecimals) : parseToStroops amount unit maxDecimals = .ok r ↔
    ∃ q digits, Denotes unit amount q digits ∧ Precise maxDecimals digits ∧ r = toZero q := by
  cases amount with
  | nullish => exact ⟨nofun, fun ⟨_, _, h, _⟩ => nomatch h⟩
  | other type => exact ⟨nofun, fun ⟨_, _, h, _⟩ => nomatch h⟩
  | number v => exact parse_number hmax v
  | string text => exact parse_string hmax text
  | bigint n =>
      rw [parseToStroops, Except.ok.injEq]
      constructor
      · rintro rfl
        split_ifs with hunit
        · subst hunit
          refine ⟨_, 0, .units n, hmax, ?_⟩
          rw [← toZero_intCast (n * STROOPS_PER_UNIT), STROOPS_PER_UNIT]
          push_cast
          rfl
        · exact ⟨n, 0, .stroops hunit n, hmax, (toZero_intCast n).symm⟩
      · rintro ⟨q, digits, hdenotes, -, rfl⟩
        cases hdenotes with
        | stroops h => rw [if_neg h, toZero_intCast]
        | units =>
            rw [if_pos rfl, ← toZero_intCast (n * STROOPS_PER_UNIT), STROOPS_PER_UNIT]
            push_cast
            rfl

/-- An amount stands for one number. -/
theorem Denotes.unique {q q' : ℚ} {digits digits' : Nat} (h : Denotes unit amount q digits) (h' : Denotes unit amount q' digits') :
    q = q' ∧ digits = digits' := by
  cases h with
  | stroops hunit n =>
      cases h' with
      | stroops => exact ⟨rfl, rfl⟩
      | units => exact absurd rfl hunit
  | units n =>
      cases h' with
      | stroops hunit => exact absurd rfl hunit
      | units => exact ⟨rfl, rfl⟩
  | integer hden =>
      cases h' with
      | integer => exact ⟨rfl, rfl⟩
      | number hunit => exact absurd rfl hunit
  | number hunit x hx =>
      cases h' with
      | integer => exact absurd rfl hunit
      | number _ y hy => exact text_inj (hx.trans hy.symm) ▸ ⟨rfl, rfl⟩
  | whole hunit x hx hwhole =>
      cases h' with
      | whole _ y hy => exact ⟨text_inj (hx.trans hy.symm) ▸ rfl, rfl⟩
      | decimal y hy h =>
          obtain rfl := text_inj (hx.trans hy.symm)
          rcases h with h | h
          · exact absurd h hunit
          · exact absurd hwhole h.2
  | decimal x hx h =>
      cases h' with
      | decimal y hy => exact text_inj (hx.trans hy.symm) ▸ ⟨rfl, rfl⟩
      | whole hunit y hy hwhole =>
          obtain rfl := text_inj (hx.trans hy.symm)
          rcases h with h | h
          · exact absurd h hunit
          · exact absurd hwhole h.2

end Parsing

section Validation

variable {amount : Amount} {options : Options} {s lo hi : Int}

theorem errorsOf_nil : errorsOf options s lo hi = [] ↔ Allowed options s ∧ lo ≤ s ∧ s ≤ hi := by
  simp only [errorsOf, Allowed, List.append_eq_nil_iff, ite_eq_right_iff, List.cons_ne_nil, imp_false, not_and, gt_iff_lt, not_lt,
    Bool.not_eq_true', Bool.not_eq_false]
  tauto

theorem asAmount_iff (hmax : (JsNumber.finite 0).le options.decimals) {bound : Amount} {n : Int} : AsAmount options bound n ↔
    parseBound (some bound) s options.unitMode options.decimals = .ok n := by
  unfold AsAmount parseBound InStroops
  dsimp only
  cases hparse : parseToStroops bound options.unitMode options.decimals with
  | ok m =>
      obtain ⟨q, digits, hdenotes, hprecise, rfl⟩ := (parse_eq_ok_iff hmax).mp hparse
      rw [Except.ok.injEq]
      constructor
      · rintro (⟨q', digits', hdenotes', -, rfl⟩ | ⟨hnone, -⟩)
        · rw [(hdenotes.unique hdenotes').1]
        · exact absurd ⟨q, digits, hdenotes, hprecise⟩ hnone
      · rintro rfl
        exact .inl ⟨q, digits, hdenotes, hprecise, rfl⟩
  | error message =>
      have hnone : ¬∃ q digits, Denotes options.unitMode bound q digits ∧ Precise options.decimals digits := by
        rintro ⟨q, digits, hdenotes, hprecise⟩
        rw [(parse_eq_ok_iff hmax).mpr ⟨q, digits, hdenotes, hprecise, rfl⟩] at hparse
        cases hparse
      constructor
      · rintro (⟨q, digits, hdenotes, hprecise, -⟩ | ⟨-, h⟩)
        · exact absurd ⟨q, digits, hdenotes, hprecise⟩ hnone
        · exact h
      · exact fun h => .inr ⟨hnone, h⟩

/-- A bound that `BigInt` converts is always read. -/
theorem exists_parseBound {given : Option Amount} (hgiven : ∀ bound ∈ given, ∃ n, InStroops bound n) (default : Int) :
    ∃ n, parseBound given default options.unitMode options.decimals = .ok n := by
  cases given with
  | none => exact ⟨default, rfl⟩
  | some bound =>
      obtain ⟨n, hn⟩ := hgiven bound rfl
      rw [parseBound]
      cases parseToStroops bound options.unitMode options.decimals with
      | ok m => exact ⟨m, rfl⟩
      | error message => exact ⟨n, hn⟩

theorem elim_asAmount (hmax : (JsNumber.finite 0).le options.decimals) {given : Option Amount} {default n : Int}
    (h : parseBound given default options.unitMode options.decimals = .ok n) (P : Int → Prop) :
    given.elim (P default) (fun bound => ∃ m, AsAmount options bound m ∧ P m) ↔ P n := by
  cases given with
  | none =>
      obtain rfl := Except.ok.inj h
      rfl
  | some bound =>
      rw [Option.elim_some]
      constructor
      · rintro ⟨m, hm, hP⟩
        rw [asAmount_iff hmax (s := default), h] at hm
        rwa [Except.ok.inj hm]
      · exact fun hP => ⟨n, (asAmount_iff hmax).mpr h, hP⟩

/-- What the validation accepts: bounds as amounts, and nothing after whole stroops. -/
theorem accepts_iff (hmax : (JsNumber.finite 0).le options.decimals) (hmin : ∀ bound ∈ options.min, ∃ n, InStroops bound n)
    (hbound : ∀ bound ∈ options.max, ∃ n, InStroops bound n) : Accepts amount options s ↔
      (∃ q digits, Denotes options.unitMode amount q digits ∧ Precise options.decimals digits ∧ s = toZero q) ∧
        Within options s (AsAmount options) ∧ Allowed options s := by
  obtain ⟨lo, hlo⟩ := exists_parseBound hmin options.defaultMin
  obtain ⟨hi, hhi⟩ := exists_parseBound hbound STELLAR_MAX_INT64
  rw [← parse_eq_ok_iff hmax, Within, elim_asAmount hmax hlo (· ≤ s), elim_asAmount hmax hhi (s ≤ ·), Accepts, validateAmount, hlo, hhi]
  cases parseToStroops amount options.unitMode options.decimals with
  | error message =>
      constructor
      · rintro ⟨result, hresult, hvalid, -⟩
        cases hresult
        cases hvalid
      · exact fun h => nomatch h.1
  | ok r =>
      constructor
      · rintro ⟨result, hresult, hvalid, hstroops⟩
        cases hresult
        have hnil := of_decide_eq_true hvalid
        dsimp only at hstroops
        rw [if_pos hnil] at hstroops
        obtain rfl := Option.some.inj hstroops
        obtain ⟨hallowed, hbounds⟩ := errorsOf_nil.mp hnil
        exact ⟨rfl, hbounds, hallowed⟩
      · rintro ⟨hr, hbounds, hallowed⟩
        obtain rfl := Except.ok.inj hr
        have hnil : errorsOf options r lo hi = [] := errorsOf_nil.mpr ⟨hallowed, hbounds⟩
        exact ⟨_, rfl, decide_eq_true hnil, if_pos hnil⟩

/-- The validation goes wrong where a bound means another number as an amount, and where something is cut off. -/
theorem validate_exact_iff (amount : Amount) (options : Options) (hmax : (JsNumber.finite 0).le options.decimals)
    (hmin : ∀ bound ∈ options.min, ∃ n, InStroops bound n) (hbound : ∀ bound ∈ options.max, ∃ n, InStroops bound n) :
    (∀ s, Accepts amount options s ↔ Meets amount options s) ↔
      ∀ q digits, Denotes options.unitMode amount q digits → Precise options.decimals digits → Allowed options (toZero q) →
        (Within options (toZero q) (AsAmount options) ↔ q = toZero q ∧ Within options (toZero q) InStroops) := by
  constructor
  · intro h q digits hdenotes hprecise hallowed
    have hs := h (toZero q)
    rw [accepts_iff hmax hmin hbound] at hs
    constructor
    · intro hwithin
      obtain ⟨⟨digits', hexact, -⟩, hstroops, -⟩ := hs.mp ⟨⟨q, digits, hdenotes, hprecise, rfl⟩, hwithin, hallowed⟩
      exact ⟨(hdenotes.unique hexact).1, hstroops⟩
    · rintro ⟨hq, hstroops⟩
      exact (hs.mpr ⟨⟨digits, hq ▸ hdenotes, hprecise⟩, hstroops, hallowed⟩).2.1
  · intro h s
    rw [accepts_iff hmax hmin hbound]
    constructor
    · rintro ⟨⟨q, digits, hdenotes, hprecise, rfl⟩, hwithin, hallowed⟩
      obtain ⟨hq, hstroops⟩ := (h q digits hdenotes hprecise hallowed).mp hwithin
      exact ⟨⟨digits, hq ▸ hdenotes, hprecise⟩, hstroops, hallowed⟩
    · rintro ⟨⟨digits, hdenotes, hprecise⟩, hstroops, hallowed⟩
      have hs : s = toZero s := (toZero_intCast s).symm
      rw [hs] at hallowed hstroops
      have hwithin := (h s digits hdenotes hprecise hallowed).mpr ⟨congrArg _ hs, hstroops⟩
      rw [← hs] at hwithin hallowed
      exact ⟨⟨s, digits, hdenotes, hprecise, hs⟩, hwithin, hallowed⟩

/-- One unit and a half, and two stroops at least. -/
def twoStroops : Options := { min := some (.bigint 2), unit := some .decimal }

theorem twoStroops_meets : Meets (.string "1.5") twoStroops 15000000 := by
  let x : Numeral := ⟨[], ['1'], some ['5'], by decide, by simp [AllDigits], by simp [AllDigits], by decide⟩
  have hvalue : x.value * 10 ^ 7 = (15000000 : Int) := by
    have hmagnitude : x.magnitude = 1 + 5 / 10 ^ 1 := rfl
    rw [Numeral.value, if_neg (by decide), hmagnitude]
    norm_num
  have hdenotes : Denotes .decimal (.string "1.5") (x.value * 10 ^ 7) 1 := .decimal x rfl (.inl rfl)
  have hprecise : Precise twoStroops.decimals 1 := JsNumber.finite_le_finite_iff.mpr (by norm_num)
  have hhi : (15000000 : Int) ≤ STELLAR_MAX_INT64 := by decide
  exact ⟨⟨1, hvalue ▸ hdenotes, hprecise⟩, ⟨⟨2, rfl, by decide⟩, hhi⟩, by decide, by decide⟩

theorem twoStroops_min : ∀ bound ∈ twoStroops.min, ∃ n, InStroops bound n := by
  rintro bound ⟨⟩
  exact ⟨2, rfl⟩

/-- The two stroops are read as two units. -/
theorem twoStroops_refused : ¬Accepts (.string "1.5") twoStroops 15000000 := by
  intro h
  obtain ⟨-, ⟨⟨lo, hlo, hle⟩, -⟩, -⟩ := (accepts_iff (by decide) twoStroops_min nofun).mp h
  rw [asAmount_iff (by decide) (s := 0)] at hlo
  obtain rfl : 20000000 = lo := Except.ok.inj hlo
  exact absurd hle (by decide)

theorem bound_rescaled : ¬∀ s, Accepts (.string "1.5") twoStroops s ↔ Meets (.string "1.5") twoStroops s :=
  fun h => twoStroops_refused ((h 15000000).mpr twoStroops_meets)

theorem validate_exact_iff_twoStroops : (∀ s, Accepts (.string "1.5") twoStroops s ↔ Meets (.string "1.5") twoStroops s) ↔
    ∀ q digits, Denotes .decimal (.string "1.5") q digits → Precise twoStroops.decimals digits → Allowed twoStroops (toZero q) →
      (Within twoStroops (toZero q) (AsAmount twoStroops) ↔ q = toZero q ∧ Within twoStroops (toZero q) InStroops) :=
  validate_exact_iff (.string "1.5") twoStroops (by decide) twoStroops_min nofun

end Validation

end SplitSdk.AmountValidator
