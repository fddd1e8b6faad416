import SplitSdk.Numbers

namespace SplitSdk.JsonText

open Numbers

inductive Json
  | null
  | bool (b : Bool)
  | number (x : JsNumber)
  | string (s : String)
  | array (items : List Json)
  | object (fields : List (String × Json))

/-- A property of an object; of several with one name the last counts. -/
def Json.get? (j : Json) (key : String) : Option Json :=
  match j with
  | .object fields => (fields.reverse.lookup key)
  | _ => none

section Stringify

def escapeChar (c : Char) : List Char :=
  if c = '"' then ['\\', '"']
  else if c = '\\' then ['\\', '\\']
  else if c.toNat = 0x08 then ['\\', 'b']
  else if c.toNat = 0x09 then ['\\', 't']
  else if c.toNat = 0x0A then ['\\', 'n']
  else if c.toNat = 0x0C then ['\\', 'f']
  else if c.toNat = 0x0D then ['\\', 'r']
  else if c.toNat < 0x20 then
    ['\\', 'u', '0', '0', Nat.digitChar (c.toNat / 16), Nat.digitChar (c.toNat % 16)]
  else [c]

/-- The escapes that are a backslash and one letter. -/
def shortEscapes : List (Nat × Char) :=
  [(0x22, '"'), (0x5C, '\\'), (0x08, 'b'), (0x09, 't'), (0x0A, 'n'), (0x0C, 'f'), (0x0D, 'r')]

/-- What `escapeChar` writes for a character. -/
inductive Escaped (c : Char) : List Char → Prop
  | short {letter : Char} (h : (c.toNat, letter) ∈ shortEscapes) : Escaped c ['\\', letter]
  | control (h : c.toNat < 0x20) :
      Escaped c ['\\', 'u', '0', '0', Nat.digitChar (c.toNat / 16), Nat.digitChar (c.toNat % 16)]
  | plain (hquote : c ≠ '"') (hbackslash : c ≠ '\\') (hcontrol : ¬c.toNat < 0x20) : Escaped c [c]

theorem escaped_escapeChar (c : Char) : Escaped c (escapeChar c) := by
  unfold escapeChar
  by_cases hquote : c = '"'
  · subst hquote
    exact .short (by decide)
  rw [if_neg hquote]
  by_cases hbackslash : c = '\\'
  · subst hbackslash
    exact .short (by decide)
  rw [if_neg hbackslash]
  have hshort {n : Nat} {letter : Char} (hletter : (n, letter) ∈ shortEscapes) (cs : List Char)
      (hcs : c.toNat ≠ n → Escaped c cs) : Escaped c (if c.toNat = n then ['\\', letter] else cs) := by
    by_cases h : c.toNat = n
    · rw [if_pos h]
      exact .short (h ▸ hletter)
    · rw [if_neg h]
      exact hcs h
  refine hshort (by decide) _ fun _ => hshort (by decide) _ fun _ => hshort (by decide) _ fun _ =>
    hshort (by decide) _ fun _ => hshort (by decide) _ fun _ => ?_
  by_cases hcontrol : c.toNat < 0x20
  · rw [if_pos hcontrol]
    exact .control hcontrol
  · rw [if_neg hcontrol]
    exact .plain hquote hbackslash hcontrol

def quoted (s : String) : List Char := '"' :: s.toList.flatMap escapeChar ++ ['"']

def numberText : JsNumber → List Char
  | .finite q => text (.finite q)
  | _ => "null".toList

mutual

def Json.text : Json → List Char
  | .null => "null".toList
  | .bool b => if b then "true".toList else "false".toList
  | .number x => numberText x
  | .string s => quoted s
  | .array [] => "[]".toList
  | .array (item :: items) => '[' :: item.text ++ textItems items
  | .object [] => "\x7b\x7d".toList
  | .object (field :: fields) => '{' :: textField field ++ textFields fields

def textItems : List Json → List Char
  | [] => [']']
  | item :: items => ',' :: item.text ++ textItems items

def textField : String × Json → List Char
  | (key, value) => quoted key ++ ':' :: value.text

def textFields : List (String × Json) → List Char
  | [] => ['}']
  | field :: fields => ',' :: textField field ++ textFields fields

end

/-- `JSON.stringify(j)`. -/
def stringify (j : Json) : String := String.ofList j.text

end Stringify

section Parse

def isJsonSpace (c : Char) : Bool := c.toNat ∈ [0x09, 0x0A, 0x0D, 0x20]

def skipSpace (cs : List Char) : List Char := cs.dropWhile isJsonSpace

def hexUnit (a b c d : Char) : Option Nat :=
  ([a, b, c, d].mapM (digitIn 16)).map (fun ds => ds.foldl (fun v d => 16 * v + d) 0)

def unescape : Char → Option Nat
  | '"' => some 0x22
  | '\\' => some 0x5C
  | '/' => some 0x2F
  | 'b' => some 0x08
  | 'f' => some 0x0C
  | 'n' => some 0x0A
  | 'r' => some 0x0D
  | 't' => some 0x09
  | _ => none

/-- The code units and code points up to the closing quote. -/
def readUnits : List Char → Option (List Nat × List Char)
  | [] => none
  | '"' :: cs => some ([], cs)
  | '\\' :: 'u' :: a :: b :: c :: d :: cs =>
      (hexUnit a b c d).bind (fun n => (readUnits cs).map (fun (ns, cs) => (n :: ns, cs)))
  | '\\' :: c :: cs => (unescape c).bind (fun n => (readUnits cs).map (fun (ns, cs) => (n :: ns, cs)))
  | c :: cs =>
      if c.toNat < 0x20 then none
      else (readUnits cs).map (fun (ns, cs) => (c.toNat :: ns, cs))

def isHigh (n : Nat) : Bool := 0xD800 ≤ n && n < 0xDC00

def isLow (n : Nat) : Bool := 0xDC00 ≤ n && n < 0xE000

def loneUnit : Char := Char.ofNat 0xFFFD

/-- Surrogate pairs are joined; a lone surrogate, which a `Char` cannot hold, becomes U+FFFD.
The first argument is a high surrogate still without its partner. -/
def joinUnits : Option Nat → List Nat → List Char
  | none, [] => []
  | some _, [] => [loneUnit]
  | none, n :: ns =>
      if isHigh n then joinUnits (some n) ns
      else (if isLow n then loneUnit else Char.ofNat n) :: joinUnits none ns
  | some h, n :: ns =>
      if isLow n then Char.ofNat (0x10000 + (h - 0xD800) * 0x400 + (n - 0xDC00)) :: joinUnits none ns
      else if isHigh n then loneUnit :: joinUnits (some n) ns
      else loneUnit :: Char.ofNat n :: joinUnits none ns

/-- A string after its opening quote. -/
def readString (cs : List Char) : Option (String × List Char) :=
  (readUnits cs).map (fun (ns, cs) => (String.ofList (joinUnits none ns), cs))

def isNumberChar (c : Char) : Bool := c.isDigit || c ∈ ['+', '-', '.', 'e', 'E']

def isIntegerPart : List Char → Bool
  | [] => false
  | '0' :: cs => cs.isEmpty
  | _ => true

def fractionHasDigit : List Char → Bool
  | '.' :: cs => (cs.head?.map Char.isDigit).getD false
  | _ => true

def readNumeral (negative : Bool) (cs : List Char) : Option JsNumber :=
  if isIntegerPart (cs.takeWhile Char.isDigit) && fractionHasDigit (cs.dropWhile Char.isDigit) then
    (readDecimal cs).map (fun q => fl (if negative then -q else q))
  else none

def readToken : List Char → Option JsNumber
  | '-' :: cs => readNumeral true cs
  | cs => readNumeral false cs

def dropWord (word cs : List Char) : Option (List Char) :=
  if word.isPrefixOf cs then some (cs.drop word.length) else none

/-- A number or one of the three words. -/
def readPlain (cs : List Char) : Option (Json × List Char) :=
  match cs with
  | 'n' :: _ => (dropWord "null".toList cs).map (fun cs => (.null, cs))
  | 't' :: _ => (dropWord "true".toList cs).map (fun cs => (.bool true, cs))
  | 'f' :: _ => (dropWord "false".toList cs).map (fun cs => (.bool false, cs))
  | _ =>
      (readToken (cs.takeWhile isNumberChar)).map
        (fun x => (.number x, cs.dropWhile isNumberChar))

mutual

/-- Every call consumes a character, so fuel beyond the length of the text is never used up. -/
def readValue : Nat → List Char → Option (Json × List Char)
  | 0, _ => none
  | fuel + 1, cs =>
      match skipSpace cs with
      | '"' :: cs => (readString cs).map (fun (s, cs) => (.string s, cs))
      | '[' :: cs =>
          match skipSpace cs with
          | ']' :: cs => some (.array [], cs)
          | cs => (readItems fuel cs).map (fun (items, cs) => (.array items, cs))
      | '{' :: cs =>
          match skipSpace cs with
          | '}' :: cs => some (.object [], cs)
          | cs => (readFields fuel cs).map (fun (fields, cs) => (.object fields, cs))
      | cs => readPlain cs

def readItems : Nat → List Char → Option (List Json × List Char)
  | 0, _ => none
  | fuel + 1, cs =>
      (readValue fuel cs).bind (fun (item, cs) =>
        match skipSpace cs with
        | ']' :: cs => some ([item], cs)
        | ',' :: cs => (readItems fuel cs).map (fun (items, cs) => (item :: items, cs))
        | _ => none)

def readFields : Nat → List Char → Option (List (String × Json) × List Char)
  | 0, _ => none
  | fuel + 1, cs =>
      match skipSpace cs with
      | '"' :: cs =>
          (readString cs).bind (fun (key, cs) =>
            match skipSpace cs with
            | ':' :: cs =>
                (readValue fuel cs).bind (fun (value, cs) =>
                  match skipSpace cs with
                  | '}' :: cs => some ([(key, value)], cs)
                  | ',' :: cs =>
                      (readFields fuel cs).map (fun (fields, cs) => ((key, value) :: fields, cs))
                  | _ => none)
            | _ => none)
      | _ => none

end

/-- `JSON.parse(s)`, which throws where there is no value. -/
def parse (s : String) : Option Json :=
  (readValue (2 * s.toList.length + 2) s.toList).bind (fun (j, cs) =>
    if skipSpace cs = [] then some j else none)

end Parse

end SplitSdk.JsonText
