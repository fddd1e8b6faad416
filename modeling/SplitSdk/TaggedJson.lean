import SplitSdk.JsonRoundTrip
import SplitSdk.BigIntText

namespace SplitSdk.TaggedJson

open JsonText JsonRoundTrip Numbers

/-- A JSON value that may hold bigints at any depth. -/
inductive Value
  | null
  | bool (b : Bool)
  | number (x : JsNumber)
  | string (s : String)
  | bigint (n : Int)
  | array (items : List Value)
  | object (fields : List (String × Value))

def tag : String := "__bigint"

section Replacer

mutual

/-- What the replacer leaves to be written: a bigint goes as an object with its tag. -/
def Value.plain : Value → Json
  | .null => .null
  | .bool b => .bool b
  | .number x => .number x
  | .string s => .string s
  | .bigint n => .object [(tag, .string (toString n))]
  | .array items => .array (plainItems items)
  | .object fields => .object (plainFields fields)

def plainItems : List Value → List Json
  | [] => []
  | item :: items => item.plain :: plainItems items

def plainField : String × Value → String × Json
  | (key, value) => (key, value.plain)

def plainFields : List (String × Value) → List (String × Json)
  | [] => []
  | field :: fields => plainField field :: plainFields fields

end

end Replacer

section Reviver

mutual

/-- The text of an element in `Array.prototype.join`. -/
def Value.elementText : Value → String
  | .null => ""
  | .bool b => if b then "true" else "false"
  | .number x => Numbers.toString x
  | .string s => s
  | .bigint n => toString n
  | .array [] => ""
  | .array (item :: items) => item.elementText ++ joinItems items
  | .object _ => "[object Object]"

def joinItems : List Value → String
  | [] => ""
  | item :: items => "," ++ item.elementText ++ joinItems items

end

/-- `BigInt(v)`, which throws where there is no integer. -/
def bigIntOf : Value → Option Int
  | .null => none
  | .bool b => some (if b then 1 else 0)
  | .number (.finite q) => if q.den = 1 then some q.num else none
  | .number _ => none
  | .bigint n => some n
  | v => BigIntText.ofString v.elementText

/-- The reviver on an object whose properties it has been through. -/
def reviveObject (fields : List (String × Value)) : Option Value :=
  match fields.reverse.lookup tag with
  | some v => (bigIntOf v).map .bigint
  | none => some (.object fields)

mutual

/-- The reviver goes from the inside out; nothing comes of it where it throws. -/
def revive : Json → Option Value
  | .null => some .null
  | .bool b => some (.bool b)
  | .number x => some (.number x)
  | .string s => some (.string s)
  | .array items => (reviveItems items).map .array
  | .object fields => (reviveFields fields).bind reviveObject

def reviveItems : List Json → Option (List Value)
  | [] => some []
  | item :: items => (revive item).bind (fun item => (reviveItems items).map (item :: ·))

def reviveField : String × Json → Option (String × Value)
  | (key, value) => (revive value).map (key, ·)

def reviveFields : List (String × Json) → Option (List (String × Value))
  | [] => some []
  | field :: fields => (reviveField field).bind (fun field => (reviveFields fields).map (field :: ·))

end

end Reviver

section Conditions

mutual

/-- No object, at any depth, has a property under the tag. -/
def Untagged : Value → Prop
  | .array items => UntaggedItems items
  | .object fields => UntaggedFields fields
  | _ => True

def UntaggedItems : List Value → Prop
  | [] => True
  | item :: items => Untagged item ∧ UntaggedItems items

def UntaggedField : String × Value → Prop
  | (key, value) => key ≠ tag ∧ Untagged value

def UntaggedFields : List (String × Value) → Prop
  | [] => True
  | field :: fields => UntaggedField field ∧ UntaggedFields fields

end

mutual

/-- The numbers are finite doubles, and no object has two properties of one name. -/
def IsJson : Value → Prop
  | .number x => IsDouble x ∧ ∃ q, x = .finite q
  | .array items => AreJson items
  | .object fields => (fields.map Prod.fst).Nodup ∧ HoldJson fields
  | _ => True

def AreJson : List Value → Prop
  | [] => True
  | item :: items => IsJson item ∧ AreJson items

def HoldsJson : String × Value → Prop
  | (_, value) => IsJson value

def HoldJson : List (String × Value) → Prop
  | [] => True
  | field :: fields => HoldsJson field ∧ HoldJson fields

end

end Conditions

section Exactness

mutual

theorem exact_plain : ∀ v : Value, IsJson v → Exact v.plain
  | .null, _ | .bool _, _ | .string _, _ => trivial
  | .bigint _, _ => ⟨trivial, trivial⟩
  | .number _, h => h
  | .array items, h => exactItems_plain items h
  | .object fields, h => exactFields_plain fields h.2

theorem exactItems_plain : ∀ items : List Value, AreJson items → ExactItems (plainItems items)
  | [], _ => trivial
  | item :: items, h => ⟨exact_plain item h.1, exactItems_plain items h.2⟩

theorem exactField_plain : ∀ field : String × Value, HoldsJson field → ExactField (plainField field)
  | (_, value), h => exact_plain value h

theorem exactFields_plain : ∀ fields : List (String × Value), HoldJson fields → ExactFields (plainFields fields)
  | [], _ => trivial
  | field :: fields, h => ⟨exactField_plain field h.1, exactFields_plain fields h.2⟩

end

end Exactness

section Revival

theorem untaggedFields_iff {fields : List (String × Value)} :
    UntaggedFields fields ↔ (∀ field ∈ fields, field.1 ≠ tag) ∧ ∀ field ∈ fields, Untagged field.2 := by
  induction fields with
  | nil => simp [UntaggedFields]
  | cons field fields ih =>
      obtain ⟨key, value⟩ := field
      rw [UntaggedFields, ih, UntaggedField]
      simp only [List.forall_mem_cons]
      exact and_and_and_comm

theorem lookup_tag {fields : List (String × Value)} :
    fields.reverse.lookup tag = none ↔ ∀ field ∈ fields, field.1 ≠ tag := by
  simp only [List.lookup_eq_none_iff, List.mem_reverse, bne_iff_ne]
  exact forall₂_congr fun _ _ => ne_comm

mutual

theorem revive_plain : ∀ v : Value, Untagged v → revive v.plain = some v
  | .null, _ | .bool _, _ | .string _, _ | .number _, _ => rfl
  | .bigint n, _ => congrArg (Option.map Value.bigint) (BigIntText.ofString_toString n)
  | .array items, h => congrArg (Option.map Value.array) (reviveItems_plain items h)
  | .object fields, h => by
      rw [Value.plain, revive, reviveFields_plain fields h, Option.bind_some, reviveObject,
        lookup_tag.mpr (untaggedFields_iff.mp h).1]

theorem reviveItems_plain : ∀ items : List Value, UntaggedItems items → reviveItems (plainItems items) = some items
  | [], _ => rfl
  | item :: items, h => by
      rw [plainItems, reviveItems, revive_plain item h.1, reviveItems_plain items h.2]
      rfl

theorem reviveField_plain : ∀ field : String × Value, UntaggedField field → reviveField (plainField field) = some field
  | (key, value), h => congrArg (Option.map (key, ·)) (revive_plain value h.2)

theorem reviveFields_plain : ∀ fields : List (String × Value), UntaggedFields fields →
    reviveFields (plainFields fields) = some fields
  | [], _ => rfl
  | field :: fields, h => by
      rw [plainFields, reviveFields, reviveField_plain field h.1, reviveFields_plain fields h.2]
      rfl

end

theorem untagged_reviveObject {fields : List (String × Value)} {v : Value} (hfields : ∀ field ∈ fields, Untagged field.2)
    (h : reviveObject fields = some v) : Untagged v := by
  rw [reviveObject] at h
  split at h
  next =>
    obtain ⟨n, -, rfl⟩ := Option.map_eq_some_iff.mp h
    trivial
  next hnone =>
    cases h
    exact untaggedFields_iff.mpr ⟨lookup_tag.mp hnone, hfields⟩

mutual

/-- Whatever the reviver leaves has no tags. -/
theorem untagged_revive : ∀ (j : Json) (v : Value), revive j = some v → Untagged v
  | .null, _, rfl | .bool _, _, rfl | .number _, _, rfl | .string _, _, rfl => trivial
  | .array items, _, h => by
      obtain ⟨revived, hitems, rfl⟩ := Option.map_eq_some_iff.mp h
      exact untagged_reviveItems items revived hitems
  | .object fields, v, h => by
      obtain ⟨revived, hfields, hobject⟩ := Option.bind_eq_some_iff.mp h
      exact untagged_reviveObject (untagged_reviveFields fields revived hfields) hobject

theorem untagged_reviveItems : ∀ (items : List Json) (revived : List Value), reviveItems items = some revived →
    UntaggedItems revived
  | [], _, rfl => trivial
  | item :: items, _, h => by
      obtain ⟨first, hfirst, h⟩ := Option.bind_eq_some_iff.mp h
      obtain ⟨rest, hrest, rfl⟩ := Option.map_eq_some_iff.mp h
      exact ⟨untagged_revive item first hfirst, untagged_reviveItems items rest hrest⟩

theorem untagged_reviveField : ∀ (field : String × Json) (revived : String × Value), reviveField field = some revived →
    Untagged revived.2
  | (_, value), _, h => by
      obtain ⟨v, hv, rfl⟩ := Option.map_eq_some_iff.mp h
      exact untagged_revive value v hv

theorem untagged_reviveFields : ∀ (fields : List (String × Json)) (revived : List (String × Value)),
    reviveFields fields = some revived → ∀ field ∈ revived, Untagged field.2
  | [], _, rfl => by simp
  | field :: fields, _, h => by
      obtain ⟨first, hfirst, h⟩ := Option.bind_eq_some_iff.mp h
      obtain ⟨rest, hrest, rfl⟩ := Option.map_eq_some_iff.mp h
      exact List.forall_mem_cons.mpr ⟨untagged_reviveField field first hfirst, untagged_reviveFields fields rest hrest⟩

end

theorem revive_plain_iff {v : Value} : revive v.plain = some v ↔ Untagged v :=
  ⟨untagged_revive v.plain v, revive_plain v⟩

end Revival

section Text

theorem exact_reviveObject {fields : List (String × Value)} {v : Value} (hfields : ExactFields (plainFields fields))
    (h : reviveObject fields = some v) : Exact v.plain := by
  rw [reviveObject] at h
  split at h
  next =>
    obtain ⟨n, -, rfl⟩ := Option.map_eq_some_iff.mp h
    exact ⟨trivial, trivial⟩
  next =>
    cases h
    exact hfields

mutual

theorem exact_revive : ∀ (j : Json) (v : Value), Exact j → revive j = some v → Exact v.plain
  | .null, _, _, rfl | .bool _, _, _, rfl | .string _, _, _, rfl => trivial
  | .number _, _, hexact, rfl => hexact
  | .array items, _, hexact, h => by
      obtain ⟨revived, hitems, rfl⟩ := Option.map_eq_some_iff.mp h
      exact exact_reviveItems items revived hexact hitems
  | .object fields, v, hexact, h => by
      obtain ⟨revived, hfields, hobject⟩ := Option.bind_eq_some_iff.mp h
      exact exact_reviveObject (exact_reviveFields fields revived hexact hfields) hobject

theorem exact_reviveItems : ∀ (items : List Json) (revived : List Value), ExactItems items → reviveItems items = some revived →
    ExactItems (plainItems revived)
  | [], _, _, rfl => trivial
  | item :: items, _, hexact, h => by
      obtain ⟨first, hfirst, h⟩ := Option.bind_eq_some_iff.mp h
      obtain ⟨rest, hrest, rfl⟩ := Option.map_eq_some_iff.mp h
      exact ⟨exact_revive item first hexact.1 hfirst, exact_reviveItems items rest hexact.2 hrest⟩

theorem exact_reviveField : ∀ (field : String × Json) (revived : String × Value), ExactField field →
    reviveField field = some revived → ExactField (plainField revived)
  | (_, value), _, hexact, h => by
      obtain ⟨v, hv, rfl⟩ := Option.map_eq_some_iff.mp h
      exact exact_revive value v hexact hv

theorem exact_reviveFields : ∀ (fields : List (String × Json)) (revived : List (String × Value)), ExactFields fields →
    reviveFields fields = some revived → ExactFields (plainFields revived)
  | [], _, _, rfl => trivial
  | field :: fields, _, hexact, h => by
      obtain ⟨first, hfirst, h⟩ := Option.bind_eq_some_iff.mp h
      obtain ⟨rest, hrest, rfl⟩ := Option.map_eq_some_iff.mp h
      exact ⟨exact_reviveField field first hexact.1 hfirst, exact_reviveFields fields rest hexact.2 hrest⟩

end

def encode (v : Value) : String := stringify v.plain

def decode (s : String) : Option Value := (parse s).bind revive

theorem decode_encode {v : Value} (h : Exact v.plain) : decode (encode v) = revive v.plain := by
  rw [decode, encode, parse_stringify v.plain h, Option.bind_some]

end Text

end SplitSdk.TaggedJson
