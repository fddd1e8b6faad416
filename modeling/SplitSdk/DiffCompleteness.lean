import SplitSdk.Fallible
import SplitSdk.InvoiceMerge

namespace SplitSdk.DiffCompleteness

open Fallible InvoiceDiff InvoiceMerge Numbers OrderedMap ValueShapes

section Statement

/-- Deep equality, where a bigint equals the number of the same value. -/
inductive Agree : Value → Value → Prop
  | refl (value : Value) : Agree value value
  | bigint (n : Int) : Agree (.bigint n) (.number (.finite n))
  | number (n : Int) : Agree (.number (.finite n)) (.bigint n)
  | array {items items' : List Value} (hlength : items.length = items'.length)
      (h : ∀ pair ∈ items.zip items', Agree pair.1 pair.2) : Agree (.array items) (.array items')
  | object {fields fields' : List (String × Value)}
      (hkeys : ∀ key, key ∈ fields.map Prod.fst ↔ key ∈ fields'.map Prod.fst)
      (h : ∀ key value value', fields.lookup key = some value → fields'.lookup key = some value' → Agree value value') :
      Agree (.object fields) (.object fields')

/-- No object has two properties of one name. -/
inductive WellFormed : Value → Prop
  | leaf {value : Value} (harray : ∀ items, value ≠ .array items) (hobject : ∀ fields, value ≠ .object fields) :
      WellFormed value
  | array {items : List Value} (h : ∀ value ∈ items, WellFormed value) : WellFormed (.array items)
  | object {fields : List (String × Value)} (hnodup : (fields.map Prod.fst).Nodup)
      (h : ∀ entry ∈ fields, WellFormed entry.2) : WellFormed (.object fields)

/-- The fields of an `Invoice` that are not in `INVOICE_FIELDS`. -/
def omittedFields : List String := unlistedFields ++ ["accessPolicy", "metadata"]

/-- An invoice whose fields hold values of any kind; an absent field is `undefined`, and a date is held by its time value. -/
structure Record where
  data : String → Value
  wellFormed : ∀ field, WellFormed (data field)

/-- One round of the loop of `diffInvoices`. -/
def changed : Value → Value → Except String Bool
  | .undefined, .undefined => .ok false
  | .undefined, _ | _, .undefined => .ok true
  | before, after => (valuesEqual before after).map not

def diffData (a b : String → Value) : List String → Except String (List InvoiceDiffEntry)
  | [] => .ok []
  | field :: fields => do
      let push ← changed (a field) (b field)
      let rest ← diffData a b fields
      return if push then { field, before := a field, after := b field } :: rest else rest

def diffInvoices (a b : Record) : Except String (List InvoiceDiffEntry) := diffData a.data b.data invoiceFields

def hasDiff (a b : Record) : Except String Bool := (diffInvoices a b).map (fun diff => decide (diff.length > 0))

/-- The fields of an invoice after the listed ones are overwritten. -/
def overwrite (data : String → Value) (diff : List InvoiceDiffEntry) : String → Value :=
  diff.foldl (fun data entry => Function.update data entry.field entry.after) data

def AgreeOn (fields : List String) (a b : String → Value) : Prop := ∀ field ∈ fields, Agree (a field) (b field)

structure Complete (a b : Record) : Prop where
  total : ∃ diff, diffInvoices a b = .ok diff
  detects : hasDiff a b = .ok false ↔ AgreeOn (invoiceFields ++ omittedFields) a.data b.data
  patches : ∀ diff, diffInvoices a b = .ok diff →
    AgreeOn (invoiceFields ++ omittedFields) (overwrite a.data diff) b.data

end Statement

section Conditions

/-- Deep equality of values without a `NaN`. -/
def Same (a b : Value) : Prop := NanFree a ∧ Agree a b

def IsInteger : JsNumber → Prop
  | .finite q => q.den = 1
  | _ => False

/-- The first two parts that differ are a bigint and a number that is no integer. -/
inductive Clash : Value → Value → Prop
  | bigint (n : Int) {x : JsNumber} (h : ¬IsInteger x) : Clash (.bigint n) (.number x)
  | number {x : JsNumber} (n : Int) (h : ¬IsInteger x) : Clash (.number x) (.bigint n)
  | array {items items' : List Value} {before after : List (Value × Value)} {pair : Value × Value}
      (hlength : items.length = items'.length) (hzip : items.zip items' = before ++ pair :: after)
      (hsame : ∀ earlier ∈ before, Same earlier.1 earlier.2) (h : Clash pair.1 pair.2) :
      Clash (.array items) (.array items')
  | object {fields fields' before after : List (String × Value)} {entry : String × Value} {value : Value}
      (hlength : fields.length = fields'.length) (hfields : fields = before ++ entry :: after)
      (hsame : ∀ earlier ∈ before, ∃ other, fields'.lookup earlier.1 = some other ∧ Same earlier.2 other)
      (hlookup : fields'.lookup entry.1 = some value) (h : Clash entry.2 value) : Clash (.object fields) (.object fields')

end Conditions

section Comparison

theorem IsInteger.exists_eq {x : JsNumber} (h : IsInteger x) : ∃ n : Int, x = .finite n := by
  cases x with
  | finite q => exact ⟨q.num, congrArg JsNumber.finite ((Rat.den_eq_one_iff q).mp h).symm⟩
  | infinity negative => exact h.elim
  | nan => exact h.elim

theorem equalsNumber_integer (n m : Int) : equalsNumber n (.finite m) = .ok (decide (m = n)) := by
  rw [equalsNumber, if_pos (Rat.den_intCast m), Rat.num_intCast]

theorem equalsNumber_error (n : Int) {x : JsNumber} (h : ¬IsInteger x) : ∃ message, equalsNumber n x = .error message := by
  cases x with
  | finite q => exact ⟨_, if_neg h⟩
  | infinity negative => exact ⟨_, rfl⟩
  | nan => exact ⟨_, rfl⟩

theorem agree_bigint_number {n : Int} {x : JsNumber} : Agree (.bigint n) (.number x) ↔ x = .finite n := by
  constructor
  · intro h
    cases h
    rfl
  · rintro rfl
    exact .bigint n

theorem agree_number_bigint {n : Int} {x : JsNumber} : Agree (.number x) (.bigint n) ↔ x = .finite n := by
  constructor
  · intro h
    cases h
    rfl
  · rintro rfl
    exact .number n

theorem agree_array {items items' : List Value} :
    Agree (.array items) (.array items') ↔
      items.length = items'.length ∧ ∀ pair ∈ items.zip items', Agree pair.1 pair.2 := by
  constructor
  · intro h
    cases h with
    | refl =>
        refine ⟨rfl, fun pair hpair => ?_⟩
        rw [List.zip, List.zipWith_self] at hpair
        obtain ⟨value, _, rfl⟩ := List.mem_map.mp hpair
        exact .refl value
    | array hlength h => exact ⟨hlength, h⟩
  · exact fun h => .array h.1 h.2

theorem agree_object {fields fields' : List (String × Value)} :
    Agree (.object fields) (.object fields') ↔
      (∀ key, key ∈ fields.map Prod.fst ↔ key ∈ fields'.map Prod.fst) ∧
        ∀ key value value', fields.lookup key = some value → fields'.lookup key = some value' →
          Agree value value' := by
  constructor
  · intro h
    cases h with
    | refl =>
        refine ⟨fun key => Iff.rfl, fun key value value' hv hv' => ?_⟩
        rw [Option.some_inj.mp (hv.symm.trans hv')]
        exact .refl value'
    | object hkeys h => exact ⟨hkeys, h⟩
  · exact fun h => .object h.1 h.2

theorem clash_array {items items' : List Value} (hlength : items.length = items'.length) :
    Clash (.array items) (.array items') ↔
      FirstOf (fun pair => Same pair.1 pair.2) (fun pair => Clash pair.1 pair.2) (items.zip items') := by
  rw [firstOf_iff]
  constructor
  · intro h
    cases h with
    | array _ hzip hsame h => exact ⟨_, _, _, hzip, hsame, h⟩
  · rintro ⟨_, _, _, hzip, hsame, h⟩
    exact .array hlength hzip hsame h

/-- The properties of two objects are compared under the names of the first one. -/
def SameProperty (fields' : List (String × Value)) (entry : String × Value) : Prop :=
  ∃ value, fields'.lookup entry.1 = some value ∧ Same entry.2 value

def ClashProperty (fields' : List (String × Value)) (entry : String × Value) : Prop :=
  ∃ value, fields'.lookup entry.1 = some value ∧ Clash entry.2 value

theorem clash_object {fields fields' : List (String × Value)} (hlength : fields.length = fields'.length) :
    Clash (.object fields) (.object fields') ↔ FirstOf (SameProperty fields') (ClashProperty fields') fields := by
  rw [firstOf_iff]
  constructor
  · intro h
    cases h with
    | object _ hfields hsame hlookup h => exact ⟨_, _, _, hfields, hsame, _, hlookup, h⟩
  · rintro ⟨_, _, _, hfields, hsame, _, hlookup, h⟩
    exact .object hlength hfields hsame hlookup h

theorem arraysEqual_eq (items items' : List Value) :
    arraysEqual items items' = (items.zip items').allM (fun pair => valuesEqual pair.1 pair.2) := by
  induction items generalizing items' with
  | nil => rfl
  | cons a items ih =>
      cases items' with
      | nil => rfl
      | cons b items' =>
          rw [arraysEqual, ih, List.zip_cons_cons, List.allM_cons]

def compareProperty (fields' : List (String × Value)) (entry : String × Value) : Except String Bool :=
  match fields'.lookup entry.1 with
  | none => .ok false
  | some b => valuesEqual entry.2 b

theorem objectsEqual_eq (fields fields' : List (String × Value)) :
    objectsEqual fields fields' = fields.allM (compareProperty fields') := by
  induction fields with
  | nil => rfl
  | cons entry fields ih =>
      rw [objectsEqual, ih, List.allM_cons, compareProperty]
      cases fields'.lookup entry.1 with
      | none => rfl
      | some b =>
          refine bind_congr (fun same => ?_)
          cases same <;> rfl

end Comparison

section Settling

theorem settles_apart {a b : Value} (hvalue : valuesEqual a b = .ok false) (hagree : ¬Agree a b) (hclash : ¬Clash a b) :
    Settles (Same a b) (Clash a b) (valuesEqual a b) := by
  rw [hvalue]
  exact .ok (iff_of_false Bool.false_ne_true (fun h => hagree h.2)) hclash

theorem settles_self {a : Value} (hvalue : valuesEqual a a = .ok true) (hfree : NanFree a) (hclash : ¬Clash a a) :
    Settles (Same a a) (Clash a a) (valuesEqual a a) := by
  rw [hvalue]
  exact .ok (iff_of_true rfl ⟨hfree, .refl a⟩) hclash

theorem settles_bigint_number (n : Int) (x : JsNumber) :
    Settles (Same (.bigint n) (.number x)) (Clash (.bigint n) (.number x)) (equalsNumber n x) := by
  by_cases h : IsInteger x
  · obtain ⟨m, rfl⟩ := h.exists_eq
    rw [equalsNumber_integer]
    refine .ok ?_ (fun hclash => ?_)
    · rw [decide_eq_true_iff, Same, agree_bigint_number, JsNumber.finite.injEq, Int.cast_inj]
      exact ⟨fun he => ⟨.bigint n, he⟩, And.right⟩
    · cases hclash with
      | bigint _ hnot => exact hnot h
  · obtain ⟨message, hmessage⟩ := equalsNumber_error n h
    rw [hmessage]
    refine .error message (.bigint n h) (fun hsame => h ?_)
    rw [agree_bigint_number.mp hsame.2]
    exact Rat.den_intCast n

theorem settles_number_bigint (x : JsNumber) (n : Int) :
    Settles (Same (.number x) (.bigint n)) (Clash (.number x) (.bigint n)) (equalsNumber n x) := by
  have hsame : Same (.bigint n) (.number x) ↔ Same (.number x) (.bigint n) := by
    rw [Same, Same, agree_bigint_number, agree_number_bigint, nanFree_number]
    constructor
    · rintro ⟨-, rfl⟩
      exact ⟨(by rintro ⟨⟩), rfl⟩
    · rintro ⟨-, rfl⟩
      exact ⟨.bigint n, rfl⟩
  have hclash : Clash (.bigint n) (.number x) ↔ Clash (.number x) (.bigint n) := by
    constructor
    · intro h
      cases h with
      | bigint _ h => exact .number n h
    · intro h
      cases h with
      | number _ h => exact .bigint n h
  exact (settles_bigint_number n x).congr hsame hclash

/-- Leaves of one kind are compared by their values. -/
theorem settles_leaf {a : Value} (harray : ∀ items, a ≠ .array items) (hobject : ∀ fields, a ≠ .object fields) (b : Value) :
    Settles (Same a b) (Clash a b) (valuesEqual a b) := by
  cases a with
  | array items => exact absurd rfl (harray items)
  | object fields => exact absurd rfl (hobject fields)
  | undefined =>
      cases b with
      | undefined => exact settles_self (by rw [valuesEqual]) .undefined (by rintro ⟨⟩)
      | _ => exact settles_apart (by simp [valuesEqual]) (by rintro ⟨⟩) (by rintro ⟨⟩)
  | null =>
      cases b with
      | null => exact settles_self (by rw [valuesEqual]) .null (by rintro ⟨⟩)
      | _ => exact settles_apart (by simp [valuesEqual]) (by rintro ⟨⟩) (by rintro ⟨⟩)
  | bool x =>
      cases b with
      | bool y =>
          by_cases h : x = y
          · subst h
            exact settles_self (by simp [valuesEqual]) (.bool x) (by rintro ⟨⟩)
          · exact settles_apart (by simp [valuesEqual, h]) (fun hagree => by cases hagree; exact h rfl) (by rintro ⟨⟩)
      | _ => exact settles_apart (by simp [valuesEqual]) (by rintro ⟨⟩) (by rintro ⟨⟩)
  | string s =>
      cases b with
      | string t =>
          by_cases h : s = t
          · subst h
            exact settles_self (by simp [valuesEqual]) (.string s) (by rintro ⟨⟩)
          · exact settles_apart (by simp [valuesEqual, h]) (fun hagree => by cases hagree; exact h rfl) (by rintro ⟨⟩)
      | _ => exact settles_apart (by simp [valuesEqual]) (by rintro ⟨⟩) (by rintro ⟨⟩)
  | number x =>
      cases b with
      | number y =>
          rw [valuesEqual]
          refine .ok ?_ (by rintro ⟨⟩)
          rw [Bool.and_eq_true, decide_eq_true_iff, decide_eq_true_iff, Same, nanFree_number, and_comm]
          refine and_congr_right' ⟨?_, fun hagree => by cases hagree; rfl⟩
          rintro rfl
          exact .refl _
      | bigint n =>
          rw [valuesEqual]
          exact settles_number_bigint x n
      | _ => exact settles_apart (by simp [valuesEqual]) (by rintro ⟨⟩) (by rintro ⟨⟩)
  | bigint n =>
      cases b with
      | bigint m =>
          by_cases h : n = m
          · subst h
            exact settles_self (by simp [valuesEqual]) (.bigint n) (by rintro ⟨⟩)
          · exact settles_apart (by simp [valuesEqual, h]) (fun hagree => by cases hagree; exact h rfl) (by rintro ⟨⟩)
      | number x =>
          rw [valuesEqual]
          exact settles_bigint_number n x
      | _ => exact settles_apart (by simp [valuesEqual]) (by rintro ⟨⟩) (by rintro ⟨⟩)

theorem settles_property {fields' : List (String × Value)} {entry : String × Value}
    (h : ∀ value, fields'.lookup entry.1 = some value → Settles (Same entry.2 value) (Clash entry.2 value) (valuesEqual entry.2 value)) :
    Settles (SameProperty fields' entry) (ClashProperty fields' entry) (compareProperty fields' entry) := by
  unfold SameProperty ClashProperty compareProperty
  cases hlookup : fields'.lookup entry.1 with
  | none => exact .ok (iff_of_false Bool.false_ne_true (by simp)) (by simp)
  | some value => exact (h value hlookup).congr (by simp) (by simp)

/-- The comparison throws at a clash, and otherwise finds out whether the values are the same. -/
theorem settles_valuesEqual {a b : Value} (ha : WellFormed a) (hb : WellFormed b) :
    Settles (Same a b) (Clash a b) (valuesEqual a b) := by
  induction ha generalizing b with
  | leaf harray hobject => exact settles_leaf harray hobject b
  | @array items h ih =>
      cases b with
      | array items' =>
          by_cases hlength : items.length = items'.length
          · rw [valuesEqual, if_neg (not_not.mpr hlength), arraysEqual_eq]
            have hitems' : ∀ value ∈ items', WellFormed value := by
              cases hb with
              | leaf harray => exact absurd rfl (harray items')
              | array h => exact h
            have hloop := settles_allM (f := fun pair : Value × Value => valuesEqual pair.1 pair.2)
              (fun pair hpair => ih pair.1 (List.of_mem_zip hpair).1 (hitems' pair.2 (List.of_mem_zip hpair).2))
            refine hloop.congr ?_ (clash_array hlength).symm
            rw [Same, agree_array]
            exact (array_pairs_iff Agree hlength).trans (by simp [hlength])
          · refine settles_apart (by rw [valuesEqual, if_pos hlength]) (fun hagree => hlength (agree_array.mp hagree).1) ?_
            intro hclash
            cases hclash with
            | array h => exact hlength h
      | _ => exact settles_apart (by simp [valuesEqual]) (by rintro ⟨⟩) (by rintro ⟨⟩)
  | @object fields hnodup h ih =>
      cases b with
      | object fields' =>
          have hfields' : (fields'.map Prod.fst).Nodup ∧ ∀ entry ∈ fields', WellFormed entry.2 := by
            cases hb with
            | leaf _ hobject => exact absurd rfl (hobject fields')
            | object hnodup' h' => exact ⟨hnodup', h'⟩
          by_cases hlength : fields.length = fields'.length
          · rw [valuesEqual, if_neg (not_not.mpr hlength), objectsEqual_eq]
            have hloop := settles_allM (f := compareProperty fields') (fun entry hentry =>
              settles_property (fun value hvalue =>
                ih entry hentry (hfields'.2 (entry.1, value) ((lookup_iff hfields'.1).mp hvalue))))
            refine hloop.congr ?_ (clash_object hlength).symm
            rw [Same, agree_object]
            exact object_pairs_iff hnodup Agree hlength
          · refine settles_apart (by rw [valuesEqual, if_pos hlength]) (fun hagree => hlength ?_) ?_
            · exact length_eq_of_keys hnodup hfields'.1 (agree_object.mp hagree).1
            · intro hclash
              cases hclash with
              | object h => exact hlength h
      | _ => exact settles_apart (by simp [valuesEqual]) (by rintro ⟨⟩) (by rintro ⟨⟩)

end Settling

section Loop

variable (a b : Record)

theorem changed_eq (before after : Value) : changed before after = (valuesEqual before after).map not := by
  cases before <;> cases after <;> simp [changed, valuesEqual, Except.map]

theorem settled (field : String) : Settles (Same (a.data field) (b.data field)) (Clash (a.data field) (b.data field))
    (valuesEqual (a.data field) (b.data field)) := settles_valuesEqual (a.wellFormed field) (b.wellFormed field)

def entryOf (field : String) : InvoiceDiffEntry := ⟨field, a.data field, b.data field⟩

open Classical in
/-- The fields that the loop lists. -/
noncomputable def differing (fields : List String) : List String :=
  fields.filter (fun field => ¬Same (a.data field) (b.data field))

def ClashFree (fields : List String) : Prop := ∀ field ∈ fields, ¬Clash (a.data field) (b.data field)

variable {a b}

open Classical in
theorem differing_cons (field : String) (fields : List String) : differing a b (field :: fields) =
    if Same (a.data field) (b.data field) then differing a b fields else field :: differing a b fields := by
  rw [differing, List.filter_cons, ← differing]
  by_cases hsame : Same (a.data field) (b.data field) <;> simp [hsame]

open Classical in
theorem changed_of_clashFree {field : String} (h : ¬Clash (a.data field) (b.data field)) :
    changed (a.data field) (b.data field) = .ok (decide ¬Same (a.data field) (b.data field)) := by
  have hsettled := settled a b field
  rw [changed_eq]
  generalize valuesEqual (a.data field) (b.data field) = check at hsettled
  cases hsettled with
  | error e hclash => exact absurd hclash h
  | @ok holds hsame =>
      refine congrArg Except.ok ?_
      rw [Bool.eq_iff_iff, decide_eq_true_iff, ← hsame, Bool.not_eq_true', Bool.not_eq_true]

theorem not_clash_of_changed {field : String} {push : Bool} (h : changed (a.data field) (b.data field) = .ok push) :
    ¬Clash (a.data field) (b.data field) := by
  have hsettled := settled a b field
  rw [changed_eq] at h
  generalize valuesEqual (a.data field) (b.data field) = check at hsettled h
  cases hsettled with
  | error e => cases h
  | ok _ hclear => exact hclear

theorem diffData_of_clashFree {fields : List String} (h : ClashFree a b fields) :
    diffData a.data b.data fields = .ok ((differing a b fields).map (entryOf a b)) := by
  classical
  induction fields with
  | nil => rfl
  | cons field fields ih =>
      obtain ⟨hfield, hfields⟩ := List.forall_mem_cons.mp h
      rw [diffData, changed_of_clashFree hfield, ih hfields, differing_cons]
      by_cases hsame : Same (a.data field) (b.data field)
      · rw [if_pos hsame, decide_eq_false (not_not.mpr hsame)]
        rfl
      · rw [if_neg hsame, decide_eq_true hsame]
        rfl

theorem clashFree_of_diffData {fields : List String} {diff : List InvoiceDiffEntry}
    (h : diffData a.data b.data fields = .ok diff) : ClashFree a b fields := by
  induction fields generalizing diff with
  | nil => exact List.forall_mem_nil _
  | cons field fields ih =>
      obtain ⟨push, hpush, h⟩ := bind_eq_ok.mp h
      obtain ⟨rest, hrest, -⟩ := bind_eq_ok.mp h
      exact List.forall_mem_cons.mpr ⟨not_clash_of_changed hpush, ih hrest⟩

theorem diffInvoices_ok_iff {diff : List InvoiceDiffEntry} : diffInvoices a b = .ok diff ↔
    ClashFree a b invoiceFields ∧ (differing a b invoiceFields).map (entryOf a b) = diff := by
  constructor
  · intro h
    have hfree := clashFree_of_diffData h
    exact ⟨hfree, Except.ok.inj ((diffData_of_clashFree hfree).symm.trans h)⟩
  · rintro ⟨hfree, rfl⟩
    exact diffData_of_clashFree hfree

theorem hasDiff_iff (hfree : ClashFree a b invoiceFields) :
    hasDiff a b = .ok false ↔ ∀ field ∈ invoiceFields, Same (a.data field) (b.data field) := by
  have hempty : differing a b invoiceFields = [] ↔ ∀ field ∈ invoiceFields, Same (a.data field) (b.data field) := by
    simp [differing, List.filter_eq_nil_iff]
  rw [hasDiff, diffInvoices_ok_iff.mpr ⟨hfree, rfl⟩, Except.map, Except.ok.injEq, decide_eq_false_iff_not, not_lt,
    Nat.le_zero, List.length_map, List.length_eq_zero_iff, hempty]

open Classical in
theorem overwrite_entries (names : List String) (data : String → Value) (field : String) :
    overwrite data (names.map (entryOf a b)) field = if field ∈ names then b.data field else data field := by
  induction names generalizing data with
  | nil => rfl
  | cons name names ih =>
      have hfirst := ih (Function.update data name (b.data name))
      rw [overwrite, List.map_cons, List.foldl_cons, ← overwrite, entryOf, hfirst, Function.update_apply]
      by_cases hmem : field ∈ names
      · rw [if_pos hmem, if_pos (List.mem_cons_of_mem _ hmem)]
      · by_cases hname : field = name
        · subst hname
          rw [if_neg hmem, if_pos rfl, if_pos List.mem_cons_self]
        · rw [if_neg hmem, if_neg hname, if_neg (List.not_mem_cons_of_ne_of_not_mem hname hmem)]

end Loop

section Result

variable {a b : Record}

theorem omitted_not_listed : ∀ field ∈ omittedFields, field ∉ invoiceFields := by decide

/-- What is overwritten agrees afterwards, and what is not listed stays as it is. -/
theorem patched_iff : AgreeOn (invoiceFields ++ omittedFields)
    (overwrite a.data ((differing a b invoiceFields).map (entryOf a b))) b.data ↔ AgreeOn omittedFields a.data b.data := by
  classical
  have hmem (field : String) : field ∈ differing a b invoiceFields ↔
      field ∈ invoiceFields ∧ ¬Same (a.data field) (b.data field) := by
    rw [differing, List.mem_filter, decide_eq_true_iff]
  rw [AgreeOn, List.forall_mem_append]
  constructor
  · rintro ⟨-, homitted⟩ field hfield
    have hagree := homitted field hfield
    rwa [overwrite_entries, if_neg (fun hin => omitted_not_listed field hfield ((hmem field).mp hin).1)] at hagree
  · intro homitted
    refine ⟨fun field hfield => ?_, fun field hfield => ?_⟩
    · rw [overwrite_entries]
      split_ifs with hin
      · exact .refl _
      · by_contra hnot
        exact hin ((hmem field).mpr ⟨hfield, fun hsame => hnot hsame.2⟩)
    · rw [overwrite_entries, if_neg (fun hin => omitted_not_listed field hfield ((hmem field).mp hin).1)]
      exact homitted field hfield

/-- The diff is complete when the comparison of no listed field throws, the omitted fields agree, and no `NaN` is in
two invoices that agree on the listed fields. -/
theorem diff_complete_iff (a b : Record) : Complete a b ↔
    ClashFree a b invoiceFields ∧ AgreeOn omittedFields a.data b.data ∧
      (AgreeOn invoiceFields a.data b.data → ∀ field ∈ invoiceFields, NanFree (a.data field)) := by
  constructor
  · rintro ⟨⟨diff, hdiff⟩, hdetects, hpatches⟩
    obtain ⟨hfree, hlisted⟩ := diffInvoices_ok_iff.mp hdiff
    have homitted := hpatches diff hdiff
    rw [← hlisted, patched_iff] at homitted
    refine ⟨hfree, homitted, fun hagree field hfield => ?_⟩
    have hsame := (hasDiff_iff hfree).mp (hdetects.mpr (List.forall_mem_append.mpr ⟨hagree, homitted⟩))
    exact (hsame field hfield).1
  · rintro ⟨hfree, homitted, hnan⟩
    refine ⟨⟨_, diffInvoices_ok_iff.mpr ⟨hfree, rfl⟩⟩, ?_, fun diff hdiff => ?_⟩
    · rw [hasDiff_iff hfree, AgreeOn, List.forall_mem_append]
      constructor
      · exact fun hsame => ⟨fun field hfield => (hsame field hfield).2, homitted⟩
      · exact fun hagree field hfield => ⟨hnan hagree.1 field hfield, hagree.1 field hfield⟩
    · rw [← (diffInvoices_ok_iff.mp hdiff).2, patched_iff]
      exact homitted

theorem WellFormed.of_shape {shape : Shape} {value : Value} (h : HasShape shape value) : WellFormed value := by
  induction h with
  | array _ ih => exact .array ih
  | record hnodup _ ih => exact .object hnodup ih
  | _ => exact .leaf (by simp) (by simp)

/-- An invoice of the declared field types without an access policy and metadata. -/
def ofInvoice (invoice : InvoiceMerge.Invoice Unit) : Record where
  data := fun field => if field ∈ omittedFields ∧ field ∉ unlistedFields then .undefined else invoice.data field
  wellFormed := fun field => by
    split_ifs
    · exact .leaf (by simp) (by simp)
    · exact .of_shape (invoice.typed field)

/-- Tags are added, and no difference is found. -/
theorem tags_not_detected : hasDiff (ofInvoice MergeLaws.untagged) (ofInvoice MergeLaws.tagged) = .ok false ∧
    ¬Complete (ofInvoice MergeLaws.untagged) (ofInvoice MergeLaws.tagged) := by
  have hnone : hasDiff (ofInvoice MergeLaws.untagged) (ofInvoice MergeLaws.tagged) = .ok false := rfl
  refine ⟨hnone, fun hcomplete => ?_⟩
  have hagree := hcomplete.detects.mp hnone "tags" (by decide)
  have htags : Agree .undefined (.array [.string "urgent"]) := hagree
  cases htags

end Result

section Invoices

/-- The diff of two invoices whose payouts are typed is that of their fields. -/
theorem diffFields_eq (a b : InvoiceDiff.Invoice) (fields : List String) :
    diffFields a b fields = diffData a.get b.get fields := by
  induction fields with
  | nil => rfl
  | cons field fields ih =>
      rw [diffFields, diffData, changed_eq, ih]
      cases valuesEqual (a.get field) (b.get field) with
      | error message => rfl
      | ok same => cases same <;> rfl

end Invoices

end SplitSdk.DiffCompleteness
