import Mathlib.Data.List.Perm.Subperm
import Mathlib.Data.List.Zip
import SplitSdk.InvoiceDiff
import SplitSdk.OrderedMap

namespace SplitSdk.ValueShapes

open InvoiceDiff Numbers OrderedMap

section Shapes

/-- The declared type of a field. A variant of a union has some of the properties. -/
inductive Shape
  | string
  | number
  | bigint
  | boolean
  | array (item : Shape)
  | record (property : String → Shape)

/-- An optional part is `undefined`, and a cleared one `null`. -/
inductive HasShape : Shape → Value → Prop
  | undefined (shape : Shape) : HasShape shape .undefined
  | null (shape : Shape) : HasShape shape .null
  | string (s : String) : HasShape .string (.string s)
  | number (x : JsNumber) : HasShape .number (.number x)
  | bigint (n : Int) : HasShape .bigint (.bigint n)
  | boolean (b : Bool) : HasShape .boolean (.bool b)
  | array {item : Shape} {items : List Value} (h : ∀ value ∈ items, HasShape item value) :
      HasShape (.array item) (.array items)
  | record {property : String → Shape} {fields : List (String × Value)} (hnodup : (fields.map Prod.fst).Nodup)
      (h : ∀ entry ∈ fields, HasShape (property entry.1) entry.2) : HasShape (.record property) (.object fields)

/-- Deep equality, where the order of the properties of an object does not matter. -/
inductive Alike : Value → Value → Prop
  | refl (value : Value) : Alike value value
  | array {items items' : List Value} (hlength : items.length = items'.length)
      (h : ∀ pair ∈ items.zip items', Alike pair.1 pair.2) : Alike (.array items) (.array items')
  | object {fields fields' : List (String × Value)}
      (hkeys : ∀ key, key ∈ fields.map Prod.fst ↔ key ∈ fields'.map Prod.fst)
      (h : ∀ key value value', fields.lookup key = some value → fields'.lookup key = some value' → Alike value value') :
      Alike (.object fields) (.object fields')

inductive NanFree : Value → Prop
  | undefined : NanFree .undefined
  | null : NanFree .null
  | string (s : String) : NanFree (.string s)
  | number {x : JsNumber} (h : x ≠ .nan) : NanFree (.number x)
  | bigint (n : Int) : NanFree (.bigint n)
  | bool (b : Bool) : NanFree (.bool b)
  | array {items : List Value} (h : ∀ value ∈ items, NanFree value) : NanFree (.array items)
  | object {fields : List (String × Value)} (h : ∀ entry ∈ fields, NanFree entry.2) : NanFree (.object fields)

theorem Alike.symm {a b : Value} (h : Alike a b) : Alike b a := by
  induction h with
  | refl value => exact .refl value
  | array hlength _ ih =>
      refine .array hlength.symm (fun pair hpair => ?_)
      rw [← List.zip_swap] at hpair
      obtain ⟨swapped, hswapped, rfl⟩ := List.mem_map.mp hpair
      exact ih swapped hswapped
  | object hkeys _ ih =>
      exact .object (fun key => (hkeys key).symm) (fun key value value' hv hv' => ih key value' value hv' hv)

end Shapes

section Loops

/-- Two values compare without an error, and are equal when they are alike without a `NaN`. -/
def Decided (a b : Value) : Prop := ∃ same, valuesEqual a b = .ok same ∧ (same ↔ NanFree a ∧ Alike a b)

theorem arraysEqual_decided {items items' : List Value} (h : ∀ a ∈ items, ∀ b ∈ items', Decided a b)
    (hlength : items.length = items'.length) :
    ∃ same, arraysEqual items items' = .ok same ∧
      (same ↔ ∀ pair ∈ items.zip items', NanFree pair.1 ∧ Alike pair.1 pair.2) := by
  induction items generalizing items' with
  | nil => exact ⟨true, rfl, by simp⟩
  | cons a items ih =>
      cases items' with
      | nil => cases hlength
      | cons b items' =>
          obtain ⟨first, hfirst, hfirstiff⟩ := h a List.mem_cons_self b List.mem_cons_self
          obtain ⟨rest, hrest, hrestiff⟩ :=
            ih (fun a ha b hb => h a (List.mem_cons_of_mem _ ha) b (List.mem_cons_of_mem _ hb))
              (Nat.succ_inj.mp hlength)
          refine ⟨first && rest, ?_, ?_⟩
          · rw [arraysEqual, hfirst]
            cases first
            · rfl
            · exact hrest
          · rw [Bool.and_eq_true, hfirstiff, hrestiff, List.zip_cons_cons, List.forall_mem_cons]

theorem objectsEqual_decided {fields fields' : List (String × Value)}
    (h : ∀ entry ∈ fields, ∀ b, fields'.lookup entry.1 = some b → Decided entry.2 b) :
    ∃ same, objectsEqual fields fields' = .ok same ∧
      (same ↔ ∀ entry ∈ fields, ∃ b, fields'.lookup entry.1 = some b ∧ NanFree entry.2 ∧ Alike entry.2 b) := by
  induction fields with
  | nil => exact ⟨true, rfl, by simp⟩
  | cons entry fields ih =>
      obtain ⟨key, a⟩ := entry
      obtain ⟨rest, hrest, hrestiff⟩ := ih (fun entry hentry => h entry (List.mem_cons_of_mem _ hentry))
      cases hlookup : fields'.lookup key with
      | none =>
          refine ⟨false, by rw [objectsEqual, hlookup], ?_⟩
          simp [hlookup]
      | some b =>
          obtain ⟨first, hfirst, hfirstiff⟩ := h (key, a) List.mem_cons_self b hlookup
          refine ⟨first && rest, ?_, ?_⟩
          · rw [objectsEqual, hlookup]
            dsimp only
            rw [hfirst]
            cases first
            · rfl
            · exact hrest
          · rw [Bool.and_eq_true, hfirstiff, hrestiff, List.forall_mem_cons, hlookup]
            simp

end Loops

section Comparison

theorem nanFree_array {items : List Value} : NanFree (.array items) ↔ ∀ value ∈ items, NanFree value :=
  ⟨fun h => by cases h; assumption, .array⟩

theorem nanFree_object {fields : List (String × Value)} :
    NanFree (.object fields) ↔ ∀ entry ∈ fields, NanFree entry.2 :=
  ⟨fun h => by cases h; assumption, .object⟩

theorem alike_array {items items' : List Value} :
    Alike (.array items) (.array items') ↔
      items.length = items'.length ∧ ∀ pair ∈ items.zip items', Alike pair.1 pair.2 := by
  constructor
  · intro h
    cases h with
    | refl =>
        refine ⟨rfl, fun pair hpair => ?_⟩
        rw [List.zip, List.zipWith_self] at hpair
        obtain ⟨value, _, rfl⟩ := List.mem_map.mp hpair
        exact .refl value
    | array hlength h => exact ⟨hlength, h⟩
  · exact fun h => .array h.1 h.2

theorem alike_object {fields fields' : List (String × Value)} :
    Alike (.object fields) (.object fields') ↔
      (∀ key, key ∈ fields.map Prod.fst ↔ key ∈ fields'.map Prod.fst) ∧
        ∀ key value value', fields.lookup key = some value → fields'.lookup key = some value' →
          Alike value value' := by
  constructor
  · intro h
    cases h with
    | refl =>
        refine ⟨fun key => Iff.rfl, fun key value value' hv hv' => ?_⟩
        rw [Option.some_inj.mp (hv.symm.trans hv')]
        exact .refl value'
    | object hkeys h => exact ⟨hkeys, h⟩
  · exact fun h => .object h.1 h.2

theorem alike_leaf {a b : Value} (harray : ∀ items, a ≠ .array items) (hobject : ∀ fields, a ≠ .object fields) :
    Alike a b ↔ a = b := by
  constructor
  · intro h
    cases h with
    | refl => rfl
    | array => exact absurd rfl (harray _)
    | object => exact absurd rfl (hobject _)
  · rintro rfl
    exact .refl a

theorem array_pairs_iff (R : Value → Value → Prop) {items items' : List Value} (hlength : items.length = items'.length) :
    (∀ pair ∈ items.zip items', NanFree pair.1 ∧ R pair.1 pair.2) ↔
      NanFree (.array items) ∧ ∀ pair ∈ items.zip items', R pair.1 pair.2 := by
  have hfst : (items.zip items').map Prod.fst = items := List.map_fst_zip hlength.le
  have hfree : (∀ value ∈ items, NanFree value) ↔ ∀ pair ∈ items.zip items', NanFree pair.1 := by
    conv_lhs => rw [← hfst]
    exact List.forall_mem_map
  rw [nanFree_array, hfree]
  exact forall₂_and

theorem array_same_iff {items items' : List Value} (hlength : items.length = items'.length) :
    (∀ pair ∈ items.zip items', NanFree pair.1 ∧ Alike pair.1 pair.2) ↔
      NanFree (.array items) ∧ Alike (.array items) (.array items') := by
  rw [array_pairs_iff Alike hlength, alike_array, and_iff_right hlength]

section Objects

variable {fields fields' : List (String × Value)} (hnodup : (fields.map Prod.fst).Nodup)
  (hnodup' : (fields'.map Prod.fst).Nodup)

include hnodup

theorem lookup_iff {key : String} {value : Value} : fields.lookup key = some value ↔ (key, value) ∈ fields :=
  ⟨fun h => OrdMap.mem_of_get? (m := ⟨fields, hnodup⟩) h, fun h => OrdMap.get?_of_mem ⟨fields, hnodup⟩ h⟩

include hnodup' in
theorem length_eq_of_keys (h : ∀ key, key ∈ fields.map Prod.fst ↔ key ∈ fields'.map Prod.fst) :
    fields.length = fields'.length := by
  have hperm := (List.perm_ext_iff_of_nodup hnodup hnodup').mpr h
  have hlength := hperm.length_eq
  rwa [List.length_map, List.length_map] at hlength

theorem object_pairs_iff (R : Value → Value → Prop) (hlength : fields.length = fields'.length) :
    (∀ entry ∈ fields, ∃ b, fields'.lookup entry.1 = some b ∧ NanFree entry.2 ∧ R entry.2 b) ↔
      NanFree (.object fields) ∧ (∀ key, key ∈ fields.map Prod.fst ↔ key ∈ fields'.map Prod.fst) ∧
        ∀ key value value', fields.lookup key = some value → fields'.lookup key = some value' → R value value' := by
  rw [nanFree_object]
  constructor
  · intro h
    have hsubset : fields.map Prod.fst ⊆ fields'.map Prod.fst := fun key hkey => by
      obtain ⟨entry, hentry, rfl⟩ := List.mem_map.mp hkey
      obtain ⟨b, hb, -⟩ := h entry hentry
      exact (OrdMap.lookup_isSome _ _).mp (Option.isSome_of_eq_some hb)
    have hperm := (List.subperm_of_subset hnodup hsubset).perm_of_length_le
      (by rw [List.length_map, List.length_map, hlength])
    refine ⟨fun entry hentry => ?_, fun key => hperm.mem_iff, fun key value value' hv hv' => ?_⟩
    · obtain ⟨b, -, hfree, -⟩ := h entry hentry
      exact hfree
    · obtain ⟨b, hb, -, hrelated⟩ := h (key, value) ((lookup_iff hnodup).mp hv)
      rwa [← Option.some_inj.mp (hb.symm.trans hv')]
  · rintro ⟨hfree, hkeys, hrelated⟩ entry hentry
    have hkey := (hkeys entry.1).mp (List.mem_map_of_mem hentry)
    obtain ⟨b, hb⟩ := Option.isSome_iff_exists.mp ((OrdMap.lookup_isSome entry.1 fields').mpr hkey)
    exact ⟨b, hb, hfree entry hentry, hrelated entry.1 entry.2 b ((lookup_iff hnodup).mpr hentry) hb⟩

theorem object_same_iff (hlength : fields.length = fields'.length) :
    (∀ entry ∈ fields, ∃ b, fields'.lookup entry.1 = some b ∧ NanFree entry.2 ∧ Alike entry.2 b) ↔
      NanFree (.object fields) ∧ Alike (.object fields) (.object fields') := by
  rw [object_pairs_iff hnodup Alike hlength, alike_object]

end Objects

theorem decided_self {a : Value} (h : valuesEqual a a = .ok true) (hfree : NanFree a) : Decided a a :=
  ⟨true, h, iff_of_true rfl ⟨hfree, .refl a⟩⟩

theorem decided_apart {a b : Value} (h : valuesEqual a b = .ok false) (hne : ¬Alike a b) : Decided a b :=
  ⟨false, h, iff_of_false Bool.false_ne_true (fun hab => hne hab.2)⟩

theorem decided_undefined (a : Value) : Decided .undefined a ∧ Decided a .undefined := by
  cases a with
  | undefined => exact ⟨decided_self (by rw [valuesEqual]) .undefined, decided_self (by rw [valuesEqual]) .undefined⟩
  | _ =>
      constructor
      · exact decided_apart (by simp [valuesEqual]) (fun h => by cases h)
      · exact decided_apart (by simp [valuesEqual]) (fun h => by cases h)

theorem decided_null (a : Value) : Decided .null a ∧ Decided a .null := by
  cases a with
  | null => exact ⟨decided_self (by rw [valuesEqual]) .null, decided_self (by rw [valuesEqual]) .null⟩
  | _ =>
      constructor
      · exact decided_apart (by simp [valuesEqual]) (fun h => by cases h)
      · exact decided_apart (by simp [valuesEqual]) (fun h => by cases h)

theorem decided_leaf {a b : Value} {same : Bool} (h : valuesEqual a b = .ok same)
    (harray : ∀ items, a ≠ .array items) (hobject : ∀ fields, a ≠ .object fields)
    (hsame : same ↔ NanFree a ∧ a = b) : Decided a b :=
  ⟨same, h, by rw [alike_leaf harray hobject, hsame]⟩

theorem nanFree_number {x : JsNumber} : NanFree (.number x) ↔ x ≠ .nan :=
  ⟨fun h => by cases h; assumption, .number⟩

/-- Values of one shape compare without an error. -/
theorem valuesEqual_decided {shape : Shape} {a b : Value} (ha : HasShape shape a) (hb : HasShape shape b) :
    Decided a b := by
  induction ha generalizing b with
  | undefined => exact (decided_undefined b).1
  | null => exact (decided_null b).1
  | string s =>
      cases hb with
      | undefined => exact (decided_undefined _).2
      | null => exact (decided_null _).2
      | string s' => exact decided_leaf (by rw [valuesEqual]) (by simp) (by simp) (by simp [NanFree.string])
  | number x =>
      cases hb with
      | undefined => exact (decided_undefined _).2
      | null => exact (decided_null _).2
      | number x' =>
          refine decided_leaf (by rw [valuesEqual]) (by simp) (by simp) ?_
          rw [nanFree_number, Bool.and_eq_true, decide_eq_true_iff, decide_eq_true_iff, Value.number.injEq]
          exact and_comm
  | bigint n =>
      cases hb with
      | undefined => exact (decided_undefined _).2
      | null => exact (decided_null _).2
      | bigint n' => exact decided_leaf (by rw [valuesEqual]) (by simp) (by simp) (by simp [NanFree.bigint])
  | boolean x =>
      cases hb with
      | undefined => exact (decided_undefined _).2
      | null => exact (decided_null _).2
      | boolean x' => exact decided_leaf (by rw [valuesEqual]) (by simp) (by simp) (by simp [NanFree.bool])
  | @array item items h ih =>
      cases hb with
      | undefined => exact (decided_undefined _).2
      | null => exact (decided_null _).2
      | @array _ items' h' =>
          by_cases hlength : items.length = items'.length
          · obtain ⟨same, hsame, hiff⟩ :=
              arraysEqual_decided (fun a ha b hb => ih a ha (h' b hb)) hlength
            refine ⟨same, ?_, hiff.trans (array_same_iff hlength)⟩
            rw [valuesEqual, if_neg (not_not.mpr hlength), hsame]
          · exact decided_apart (by rw [valuesEqual, if_pos hlength]) (fun h => hlength (alike_array.mp h).1)
  | @record property fields hnodup h ih =>
      cases hb with
      | undefined => exact (decided_undefined _).2
      | null => exact (decided_null _).2
      | @record _ fields' hnodup' h' =>
          by_cases hlength : fields.length = fields'.length
          · obtain ⟨same, hsame, hiff⟩ := objectsEqual_decided
              (fun entry hentry b hb => ih entry hentry (h' (entry.1, b) ((lookup_iff hnodup').mp hb)))
            refine ⟨same, ?_, hiff.trans (object_same_iff hnodup hlength)⟩
            rw [valuesEqual, if_neg (not_not.mpr hlength), hsame]
          · exact decided_apart (by rw [valuesEqual, if_pos hlength])
              (fun h => hlength (length_eq_of_keys hnodup hnodup' (alike_object.mp h).1))

theorem nanFree_of_alike {shape : Shape} {a b : Value} (hb : HasShape shape b) (h : Alike a b) (ha : NanFree a) :
    NanFree b := by
  induction hb generalizing a with
  | undefined => exact .undefined
  | null => exact .null
  | string s => exact .string s
  | bigint n => exact .bigint n
  | boolean b => exact .bool b
  | number x =>
      cases h with
      | refl => exact ha
  | @array item items' _ ih =>
      cases h with
      | refl => exact ha
      | @array items _ hlength h =>
          refine .array (fun value hvalue => ?_)
          rw [← List.map_snd_zip hlength.ge] at hvalue
          obtain ⟨pair, hpair, rfl⟩ := List.mem_map.mp hvalue
          have hmem := List.of_mem_zip hpair
          exact ih _ hmem.2 (h pair hpair) (nanFree_array.mp ha _ hmem.1)
  | @record property fields' hnodup _ ih =>
      cases h with
      | refl => exact ha
      | @object fields _ hkeys h =>
          refine .object (fun entry hentry => ?_)
          have hkey := (hkeys entry.1).mpr (List.mem_map_of_mem hentry)
          obtain ⟨value, hvalue⟩ := Option.isSome_iff_exists.mp ((OrdMap.lookup_isSome entry.1 fields).mpr hkey)
          have halike := h entry.1 value entry.2 hvalue ((lookup_iff hnodup).mpr hentry)
          obtain ⟨before, after, he, _⟩ := List.lookup_eq_some_iff.mp hvalue
          have hmem : (entry.1, value) ∈ fields := by simp [he]
          exact ih entry hentry halike (nanFree_object.mp ha _ hmem)

end Comparison

end SplitSdk.ValueShapes
