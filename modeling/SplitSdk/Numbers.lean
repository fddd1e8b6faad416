import Mathlib.Data.Int.Log
import Mathlib.Data.List.DropRight
import Mathlib.Data.Rat.Floor

namespace SplitSdk.Numbers

/-- The three kinds of value a JavaScript number takes. A finite one is held
exactly, so that the two zeros are one number here. -/
inductive JsNumber
  | nan
  | infinity (negative : Bool)
  | finite (q : ℚ)
  deriving DecidableEq

def roundHalfEven (q : ℚ) : Int :=
  let f := ⌊q⌋
  if q - f < 1 / 2 then f else if 1 / 2 < q - f then f + 1 else if f % 2 = 0 then f else f + 1

/-- The place of the last mantissa bit of the binary64 numbers around `q`. -/
def ulpExponent (q : ℚ) : Int := max (Int.log 2 |q| - 52) (-1074)

/-- The binary64 number nearest to `q`, ties to the even mantissa. -/
def fl (q : ℚ) : JsNumber :=
  let v := roundHalfEven (q / 2 ^ ulpExponent q) * (2 : ℚ) ^ ulpExponent q
  if 2 ^ 1024 ≤ |v| then .infinity (decide (q < 0)) else .finite v

def IsDouble : JsNumber → Prop
  | .finite q => fl q = .finite q
  | _ => True

instance : DecidablePred IsDouble := fun x => by
  cases x <;> unfold IsDouble <;> infer_instance

abbrev Double := {x : JsNumber // IsDouble x}

/-- `Math.trunc` followed by `BigInt`, which throws on the non-finite values. -/
def truncToBigInt : JsNumber → Option Int
  | .finite q => some (if 0 ≤ q then ⌊q⌋ else ⌈q⌉)
  | _ => none

/-- `Math.round`: ties go up, also for negative numbers. -/
def mathRound (q : ℚ) : Int := ⌊q + 1 / 2⌋

def isSpace (c : Char) : Bool :=
  c.toNat ∈ [0x09, 0x0A, 0x0B, 0x0C, 0x0D, 0x20, 0xA0, 0x1680, 0x2028, 0x2029, 0x202F, 0x205F,
    0x3000, 0xFEFF] || (0x2000 ≤ c.toNat && c.toNat ≤ 0x200A)

/-- `String.prototype.trim`. -/
def trim (cs : List Char) : List Char := (cs.dropWhile isSpace).rdropWhile isSpace

def digitIn (base : Nat) (c : Char) : Option Nat :=
  let d := if c.isDigit then some (c.toNat - 48)
    else if 'a' ≤ c ∧ c ≤ 'z' then some (c.toNat - 87)
    else if 'A' ≤ c ∧ c ≤ 'Z' then some (c.toNat - 55) else none
  d.filter (· < base)

def readRadix (base : Nat) (cs : List Char) : JsNumber :=
  match cs.mapM (digitIn base) with
  | some (d :: ds) => fl ((d :: ds).foldl (fun v d => base * v + d) 0 : Nat)
  | _ => .nan

def readDigits (cs : List Char) : Option Nat :=
  if cs ≠ [] ∧ cs.all Char.isDigit then some (Nat.ofDigitChars 10 cs 0) else none

def readExponent : List Char → Option Int
  | [] => some 0
  | c :: cs =>
      if c = 'e' ∨ c = 'E' then
        match cs with
        | '+' :: ds => (readDigits ds).map Int.ofNat
        | '-' :: ds => (readDigits ds).map (fun n => -Int.ofNat n)
        | ds => (readDigits ds).map Int.ofNat
      else none

def readFraction : List Char → List Char × List Char
  | '.' :: cs => cs.span Char.isDigit
  | cs => ([], cs)

/-- The exact value of an unsigned decimal literal, before rounding. -/
def readDecimal (cs : List Char) : Option ℚ :=
  let (int, rest) := cs.span Char.isDigit
  let (frac, rest) := readFraction rest
  if int = [] ∧ frac = [] then none
  else (readExponent rest).map
    (fun e : Int => (Nat.ofDigitChars 10 (int ++ frac) 0 : ℚ) * 10 ^ (e - frac.length))

def readSigned (negative : Bool) (cs : List Char) : JsNumber :=
  if cs = "Infinity".toList then .infinity negative
  else match readDecimal cs with
    | some q => fl (if negative then -q else q)
    | none => .nan

def readNumber : List Char → JsNumber
  | [] => .finite 0
  | '0' :: 'x' :: ds | '0' :: 'X' :: ds => readRadix 16 ds
  | '0' :: 'o' :: ds | '0' :: 'O' :: ds => readRadix 8 ds
  | '0' :: 'b' :: ds | '0' :: 'B' :: ds => readRadix 2 ds
  | '+' :: cs => readSigned false cs
  | '-' :: cs => readSigned true cs
  | cs => readSigned false cs

/-- `Number(s)`. -/
def ofString (s : String) : JsNumber := readNumber (trim s.toList)

/-- `Number.parseInt(s, radix)` on the characters of `s`. -/
def parseInt (radix : Nat) (cs : List Char) : JsNumber :=
  let cs := cs.dropWhile isSpace
  let negative := cs.head? = some '-'
  let cs := if cs.head? = some '-' ∨ cs.head? = some '+' then cs.tail else cs
  let cs := if radix = 16 ∧ (cs.take 2 = ['0', 'x'] ∨ cs.take 2 = ['0', 'X']) then cs.drop 2 else cs
  -- the characters after the longest prefix of digits are ignored
  match (cs.map (digitIn radix)).takeWhile Option.isSome with
  | [] => .nan
  | ds =>
      let v : Nat := ds.reduceOption.foldl (fun v d => radix * v + d) 0
      fl (if negative then -v else v)

namespace JsNumber

/-- `x < y`, and false when one of them is `NaN`. -/
def lt : JsNumber → JsNumber → Bool
  | .finite p, .finite q => p < q
  | .infinity negative, .finite _ => negative
  | .finite _, .infinity negative => !negative
  | .infinity negative, .infinity negative' => negative && !negative'
  | .nan, _ | _, .nan => false

/-- `x <= y`, and false when one of them is `NaN`. -/
def le (x y : JsNumber) : Bool := x.lt y || (x = y && x ≠ .nan)

def add : JsNumber → JsNumber → JsNumber
  | .finite p, .finite q => fl (p + q)
  | .infinity negative, .finite _ | .finite _, .infinity negative => .infinity negative
  | .infinity negative, .infinity negative' => if negative = negative' then .infinity negative else .nan
  | .nan, _ | _, .nan => .nan

def sub : JsNumber → JsNumber → JsNumber
  | .finite p, .finite q => fl (p - q)
  | .infinity negative, .finite _ => .infinity negative
  | .finite _, .infinity negative => .infinity (!negative)
  | .infinity negative, .infinity negative' => if negative = negative' then .nan else .infinity negative
  | .nan, _ | _, .nan => .nan

def mul : JsNumber → JsNumber → JsNumber
  | .finite p, .finite q => fl (p * q)
  | .infinity negative, .finite q | .finite q, .infinity negative =>
      if q = 0 then .nan else .infinity (negative != decide (q < 0))
  | .infinity negative, .infinity negative' => .infinity (negative != negative')
  | .nan, _ | _, .nan => .nan

/-- `Math.max(x, y)`. -/
def max (x y : JsNumber) : JsNumber :=
  if x = .nan ∨ y = .nan then .nan else if x.lt y then y else x

/-- `Math.abs(x)`. -/
def abs : JsNumber → JsNumber
  | .finite q => .finite |q|
  | .infinity _ => .infinity false
  | .nan => .nan

theorem lt_natCast_mono {x : JsNumber} {m n : Nat} (hmn : m ≤ n) (h : x.lt (.finite n) = false) :
    x.lt (.finite m) = false := by
  cases x with
  | nan => rfl
  | infinity negative => exact h
  | finite q =>
      simp only [lt, decide_eq_false_iff_not, not_lt] at h ⊢
      exact le_trans (by exact_mod_cast hmn) h

theorem finite_le_finite_iff {p q : ℚ} : (finite p).le (finite q) ↔ p ≤ q := by
  simp only [le, lt, Bool.or_eq_true, Bool.and_eq_true, decide_eq_true_eq, finite.injEq, ne_eq, reduceCtorEq,
    not_false_eq_true, and_true, le_iff_lt_or_eq]

theorem le_trans {x y z : JsNumber} (hxy : x.le y) (hyz : y.le z) : x.le z := by
  cases y with
  | nan => cases x <;> cases hxy
  | infinity negative => cases x <;> cases z <;> cases negative <;> simp_all [le, lt]
  | finite q =>
      cases x with
      | nan => cases hxy
      | infinity negative => cases z <;> simp_all [le, lt]
      | finite p =>
          cases z with
          | nan => cases hyz
          | infinity negative => exact hyz
          | finite r =>
              rw [finite_le_finite_iff] at *
              exact hxy.trans hyz

theorem le_total {x y : JsNumber} (hx : x ≠ .nan) (hy : y ≠ .nan) : x.le y || y.le x := by
  cases x with
  | nan => exact absurd rfl hx
  | infinity negative => cases y <;> cases negative <;> simp_all [le, lt]
  | finite p =>
      cases y with
      | nan => exact absurd rfl hy
      | infinity negative => cases negative <;> simp [le, lt]
      | finite q =>
          rw [Bool.or_eq_true, finite_le_finite_iff, finite_le_finite_iff]
          exact LinearOrder.le_total p q

theorem le_nan {x : JsNumber} : x.le .nan = false := by
  cases x <;> rfl

theorem le_self {x : JsNumber} (h : x ≠ .nan) : x.le x := by
  rw [le, Bool.or_eq_true, Bool.and_eq_true]
  exact .inr ⟨decide_eq_true rfl, decide_eq_true h⟩

theorem le_finite_mono {x : JsNumber} {a b : ℚ} (hab : a ≤ b) (h : x.le (.finite a)) : x.le (.finite b) :=
  le_trans h (finite_le_finite_iff.mpr hab)

theorem natCast_le_anti {x : JsNumber} {a b : Nat} (hab : a ≤ b) (h : (finite b).le x) : (finite a).le x :=
  le_trans (finite_le_finite_iff.mpr (by exact_mod_cast hab)) h

theorem le_natCast_mono {x : JsNumber} {a b : Nat} (hab : a ≤ b) (h : x.le (.finite a)) : x.le (.finite b) :=
  le_finite_mono (by exact_mod_cast hab) h

end JsNumber

/-- The decimals with `k` digits on either side of `a`, the nearer one first. -/
def candidates (a : ℚ) (k : Nat) : List (Nat × Int) :=
  let e := Int.log 10 a + 1 - k
  let s := ⌊a / 10 ^ e⌋.toNat
  if a / 10 ^ e - s ≤ 1 / 2 then [(s, e), (s + 1, e)] else [(s + 1, e), (s, e)]

/-- The shortest decimal that rounds to `a`. Seventeen digits are always enough;
the exact expansion behind them keeps the function total. -/
def shortestDecimal (a : ℚ) : Nat × Int :=
  (((List.range' 1 17).flatMap (candidates a)).find?
    (fun d => fl (d.1 * 10 ^ d.2) = .finite a)).getD
      (a.num.natAbs * 5 ^ Nat.log 2 a.den, -(Nat.log 2 a.den))

def exponentText (n : Int) : List Char :=
  'e' :: (if n < 0 then '-' else '+') :: Nat.toDigits 10 n.natAbs

/-- Lay out the digits `ds` with the decimal point after `n` of them. -/
def layout (ds : List Char) (n : Int) : List Char :=
  if ds.length ≤ n ∧ n ≤ 21 then ds ++ List.replicate (n - ds.length).toNat '0'
  else if 0 < n ∧ n ≤ 21 then ds.take n.toNat ++ '.' :: ds.drop n.toNat
  else if -6 < n ∧ n ≤ 0 then '0' :: '.' :: List.replicate (-n).toNat '0' ++ ds
  else match ds with
    | [d] => d :: exponentText (n - 1)
    | ds => ds.take 1 ++ '.' :: ds.drop 1 ++ exponentText (n - 1)

def positiveText (a : ℚ) : List Char :=
  let d := shortestDecimal a
  let ds := Nat.toDigits 10 d.1
  layout (ds.rdropWhile (· = '0')) (ds.length + d.2)

def text : JsNumber → List Char
  | .nan => "NaN".toList
  | .infinity negative => if negative then "-Infinity".toList else "Infinity".toList
  | .finite q => if q = 0 then ['0'] else if q < 0 then '-' :: positiveText (-q) else positiveText q

/-- `String(x)`, which is also what a template string writes for `x`. -/
def toString (x : JsNumber) : String := String.ofList (text x)

end SplitSdk.Numbers
