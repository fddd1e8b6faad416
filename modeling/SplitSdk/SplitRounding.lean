import Mathlib.Data.List.Dedup
import Mathlib.Data.List.Induction
import Mathlib.Data.List.Sort
import Mathlib.Data.Rat.Floor
import SplitSdk.Fallible
import SplitSdk.OrderedMap

namespace SplitSdk.SplitRounding

open Fallible OrderedMap

section Rounding

structure SplitLine where
  recipientId : String
  ratio : ℚ

structure RoundingAdjustment where
  recipientId : String
  delta : Int
  deriving DecidableEq

structure AuditedSplitResult where
  amounts : OrdMap String Int
  adjustments : List RoundingAdjustment
  total : Int

inductive Failure
  | roundingOverflow (totalAdjustmentStroops thresholdStroops : Int) (splitCount : Nat) (message : String)
  | typeError (message : String)

structure Entry where
  recipientId : String
  floor : Int
  frac : ℚ

def floorShare (total : Int) (line : SplitLine) : Int := ⌊total * line.ratio⌋

def entryOf (total : Int) (line : SplitLine) : Entry where
  recipientId := line.recipientId
  floor := floorShare total line
  frac := total * line.ratio - floorShare total line

/-- Larger fractions first, and the original order among equal ones. -/
def before (a b : Entry × Nat) : Bool :=
  if b.1.frac ≠ a.1.frac then b.1.frac < a.1.frac else a.2 ≤ b.2

def sorted (entries : List Entry) : List (Entry × Nat) := entries.zipIdx.insertionSort (fun a b => before a b)

/-- `amounts[key] = amount`; the accessor `__proto__` takes no number. -/
def assign (amounts : OrdMap String Int) (key : String) (amount : Int) : OrdMap String Int :=
  if key = "__proto__" then amounts else amounts.set key amount

def floors (entries : List Entry) : OrdMap String Int :=
  entries.foldl (fun amounts entry => assign amounts entry.recipientId entry.floor) .empty

/-- One stroop for one recipient. -/
def adjust (delta : Int) (amounts : OrdMap String Int) (entry : Entry × Nat) : Except Failure (OrdMap String Int) :=
  -- an object and a bigint are joined as strings by `+`, and do not mix under `-`
  if entry.1.recipientId = "__proto__" ∧ delta < 0 then
    .error (.typeError "Cannot mix BigInt and other types, use explicit conversions")
  else
    .ok (assign amounts entry.1.recipientId ((amounts.get? entry.1.recipientId).getD 0 + delta))

def auditSplitRounding (total : Int) (splits : List SplitLine) : Except Failure AuditedSplitResult :=
  if splits.length = 0 then .ok { amounts := .empty, adjustments := [], total }
  else
    let entries := splits.map (entryOf total)
    let remainder := total - (entries.map Entry.floor).sum
    let threshold : Int := (splits.length + 1) / 2
    let absRemainder := remainder.natAbs
    if absRemainder > threshold then
      let count := splits.length
      .error (.roundingOverflow absRemainder threshold count
        (s!"Rounding adjustment of {absRemainder} stroop(s) exceeds the acceptable threshold of {threshold} " ++
          s!"stroop(s) for {count} recipients. Verify that all split ratios sum to 1.0."))
    else do
      let corrected := (sorted entries).take absRemainder
      let delta : Int := if 0 < remainder then 1 else -1
      let amounts ← corrected.foldlM (adjust delta) (floors entries)
      return { amounts, adjustments := corrected.map (fun entry => ⟨entry.1.recipientId, delta⟩), total }

end Rounding

section Statement

variable (total : Int) (splits : List SplitLine) (result : AuditedSplitResult)

/-- The floor shares of a recipient, one for each of its lines. -/
def sharesOf (recipientId : String) : List Int :=
  (splits.filter (fun line => line.recipientId = recipientId)).map (floorShare total)

def adjustmentsOf (adjustments : List RoundingAdjustment) (recipientId : String) : List Int :=
  (adjustments.filter (fun adjustment => adjustment.recipientId = recipientId)).map RoundingAdjustment.delta

def recipients : List String := (splits.map SplitLine.recipientId).dedup

/-- The amounts add up to the total, and each of them is what its recipient's lines and adjustments come to. -/
structure Balanced : Prop where
  total_eq : ((recipients splits).map (fun r => (result.amounts.get? r).getD 0)).sum = total
  amount_eq : ∀ r ∈ recipients splits,
    result.amounts.get? r = some ((sharesOf total splits r).sum + (adjustmentsOf result.adjustments r).sum)

/-- All lines of a recipient but its last one come to nothing. -/
def LastLineCounts : Prop :=
  ∀ r ∈ recipients splits, r ≠ "__proto__" ∧ (sharesOf total splits r).dropLast.sum = 0

instance : Decidable (LastLineCounts total splits) := by
  unfold LastLineCounts
  infer_instance

end Statement

section Grouping

variable {ι α : Type} [DecidableEq ι]

/-- A sum is the sum of the sums over all keys. -/
theorem sum_by_key (key : α → ι) (f : α → Int) {keys : List ι} (hnodup : keys.Nodup) {xs : List α}
    (hxs : ∀ x ∈ xs, key x ∈ keys) :
    (keys.map (fun k => ((xs.filter (fun x => key x = k)).map f).sum)).sum = (xs.map f).sum := by
  induction xs with
  | nil => simp
  | cons x xs ih =>
      have hcons (k : ι) : (((x :: xs).filter (fun x => key x = k)).map f).sum =
          (if k = key x then f x else 0) + ((xs.filter (fun x => key x = k)).map f).sum := by
        by_cases hk : key x = k
        · rw [List.filter_cons_of_pos (by simpa using hk), List.map_cons, List.sum_cons, if_pos hk.symm]
        · rw [List.filter_cons_of_neg (by simpa using hk), if_neg (Ne.symm hk), zero_add]
      simp only [hcons]
      rw [List.sum_map_add, ih (fun y hy => hxs y (List.mem_cons_of_mem x hy)), List.map_cons, List.sum_cons,
        List.sum_map_ite_eq, hnodup.count, if_pos (hxs x List.mem_cons_self)]
      simp

/-- The last element is what the others leave of the sum. -/
theorem sum_eq_getLast_iff {xs : List Int} {last : Int} (h : xs.getLast? = some last) :
    last = xs.sum ↔ xs.dropLast.sum = 0 := by
  have hsum : xs.sum = xs.dropLast.sum + last := by
    conv_lhs => rw [← List.dropLast_append_getLast? last h]
    rw [List.sum_append, List.sum_singleton]
  omega

end Grouping

section Amounts

variable {amounts amounts' : OrdMap String Int} {r : String}

theorem get?_assign (amounts : OrdMap String Int) (key : String) (amount : Int) (hr : r ≠ "__proto__") :
    (assign amounts key amount).get? r = if r = key then some amount else amounts.get? r := by
  unfold assign
  split_ifs with hkey heq heq
  · exact absurd (heq.trans hkey) hr
  · rfl
  · rw [OrdMap.get?_set, if_pos heq]
  · rw [OrdMap.get?_set, if_neg heq]

theorem get?_assign_proto (amounts : OrdMap String Int) (key : String) (amount : Int) :
    (assign amounts key amount).get? "__proto__" = amounts.get? "__proto__" := by
  unfold assign
  split_ifs with hkey
  · rfl
  · rw [OrdMap.get?_set, if_neg (Ne.symm hkey)]

/-- Every line takes the place of the lines that its recipient had before. -/
theorem get?_floors (entries : List Entry) (hr : r ≠ "__proto__") :
    (floors entries).get? r = ((entries.filter (fun entry => entry.recipientId = r)).map Entry.floor).getLast? := by
  rw [floors]
  induction entries using List.reverseRecOn with
  | nil => rfl
  | append_singleton entries entry ih =>
      rw [List.foldl_append, List.foldl_cons, List.foldl_nil, get?_assign _ _ _ hr, ih, List.filter_append,
        List.map_append]
      by_cases heq : r = entry.recipientId
      · rw [if_pos heq, List.filter_cons_of_pos (by simpa using heq.symm), List.filter_nil]
        exact List.getLast?_concat.symm
      · rw [if_neg heq, List.filter_cons_of_neg (by simpa using Ne.symm heq), List.filter_nil, List.map_nil,
          List.append_nil]

theorem get?_floors_proto (entries : List Entry) : (floors entries).get? "__proto__" = none := by
  rw [floors]
  induction entries using List.reverseRecOn with
  | nil => rfl
  | append_singleton entries entry ih =>
      rw [List.foldl_append, List.foldl_cons, List.foldl_nil, get?_assign_proto, ih]

/-- The log of the corrections. -/
def marks (delta : Int) (corrected : List (Entry × Nat)) : List RoundingAdjustment :=
  corrected.map (fun entry => ⟨entry.1.recipientId, delta⟩)

theorem adjust_eq_ok {delta : Int} {entry : Entry × Nat} (h : adjust delta amounts entry = .ok amounts') :
    amounts' =
      assign amounts entry.1.recipientId ((amounts.get? entry.1.recipientId).getD 0 + delta) := by
  unfold adjust at h
  split_ifs at h
  exact (Except.ok.inj h).symm

theorem get?_adjusted {delta : Int} {corrected : List (Entry × Nat)}
    (h : corrected.foldlM (adjust delta) amounts = .ok amounts') (hr : r ≠ "__proto__") {amount : Int}
    (hamount : amounts.get? r = some amount) :
    amounts'.get? r = some (amount + (adjustmentsOf (marks delta corrected) r).sum) := by
  induction corrected generalizing amounts amount with
  | nil =>
      cases h
      rw [hamount]
      simp [adjustmentsOf, marks]
  | cons entry corrected ih =>
      rw [List.foldlM_cons] at h
      obtain ⟨next, hnext, h⟩ := bind_eq_ok.mp h
      have hget := get?_assign amounts entry.1.recipientId ((amounts.get? entry.1.recipientId).getD 0 + delta) hr
      rw [← adjust_eq_ok hnext] at hget
      by_cases heq : r = entry.1.recipientId
      · rw [if_pos heq, ← heq, hamount, Option.getD_some] at hget
        rw [ih h hget]
        simp [adjustmentsOf, marks, heq, add_assoc]
      · rw [if_neg heq, hamount] at hget
        rw [ih h hget]
        simp [adjustmentsOf, marks, Ne.symm heq]

theorem get?_adjusted_proto {delta : Int} {corrected : List (Entry × Nat)}
    (h : corrected.foldlM (adjust delta) amounts = .ok amounts') :
    amounts'.get? "__proto__" = amounts.get? "__proto__" := by
  induction corrected generalizing amounts with
  | nil =>
      cases h
      rfl
  | cons entry corrected ih =>
      rw [List.foldlM_cons] at h
      obtain ⟨next, hnext, h⟩ := bind_eq_ok.mp h
      rw [ih h, adjust_eq_ok hnext, get?_assign_proto]

end Amounts

section Corrections

variable {total : Int} {splits : List SplitLine} {result : AuditedSplitResult}

theorem length_sorted (entries : List Entry) : (sorted entries).length = entries.length := by
  rw [sorted, (List.perm_insertionSort _ _).length_eq, List.length_zipIdx]

theorem mem_of_mem_sorted {entries : List Entry} {entry : Entry × Nat} (h : entry ∈ sorted entries) :
    entry.1 ∈ entries := by
  obtain ⟨_, _, heq⟩ := List.mem_zipIdx ((List.perm_insertionSort _ _).mem_iff.mp h)
  rw [heq]
  exact List.getElem_mem _

/-- What a result is made of: the floors, and one stroop for as many lines as the remainder has. -/
structure Corrected (total : Int) (splits : List SplitLine) (result : AuditedSplitResult) (delta : Int)
    (corrected : List (Entry × Nat)) : Prop where
  amounts_ok : corrected.foldlM (adjust delta) (floors (splits.map (entryOf total))) = .ok result.amounts
  adjustments_eq : result.adjustments = marks delta corrected
  length_mul : corrected.length * delta = total - (splits.map (floorShare total)).sum
  mem : ∀ entry ∈ corrected, entry.1.recipientId ∈ recipients splits

/-- The threshold leaves no more to correct than there are lines. -/
theorem corrected_of_ok (hne : splits ≠ []) (h : auditSplitRounding total splits = .ok result) :
    ∃ delta corrected, Corrected total splits result delta corrected := by
  have hfloors : ((splits.map (entryOf total)).map Entry.floor).sum = (splits.map (floorShare total)).sum := by
    rw [List.map_map]
    rfl
  rw [auditSplitRounding, if_neg (by simpa using hne)] at h
  simp only [hfloors] at h
  split at h
  · cases h
  next hthreshold =>
    obtain ⟨amounts, hamounts, h⟩ := bind_eq_ok.mp h
    cases h
    refine ⟨_, _, hamounts, rfl, ?_, ?_⟩
    · have hlen : 0 < splits.length := List.length_pos_iff.mpr hne
      rw [List.length_take, length_sorted, List.length_map, min_eq_left (by omega)]
      split_ifs <;> omega
    · intro entry hentry
      obtain ⟨line, hline, heq⟩ := List.mem_map.mp (mem_of_mem_sorted (List.mem_of_mem_take hentry))
      rw [recipients, List.mem_dedup, ← heq]
      exact List.mem_map_of_mem hline

theorem filter_entries (r : String) :
    ((splits.map (entryOf total)).filter (fun entry => entry.recipientId = r)).map Entry.floor =
      sharesOf total splits r := by
  rw [List.filter_map, List.map_map]
  rfl

variable (total) in
theorem sharesOf_ne_nil {r : String} (hr : r ∈ recipients splits) : sharesOf total splits r ≠ [] := by
  obtain ⟨line, hline, rfl⟩ := List.mem_map.mp (List.mem_dedup.mp hr)
  rw [sharesOf, Ne, List.map_eq_nil_iff]
  exact List.ne_nil_of_mem (List.mem_filter.mpr ⟨hline, decide_eq_true rfl⟩)

/-- A recipient gets the floor of its last line, beside the corrections. -/
theorem Corrected.get?_amounts {delta : Int} {corrected : List (Entry × Nat)}
    (h : Corrected total splits result delta corrected) {r : String} (hr : r ≠ "__proto__")
    {last : Int} (hlast : (sharesOf total splits r).getLast? = some last) :
    result.amounts.get? r = some (last + (adjustmentsOf result.adjustments r).sum) := by
  have hfloor := get?_floors (splits.map (entryOf total)) hr
  rw [filter_entries, hlast] at hfloor
  rw [h.adjustments_eq]
  exact get?_adjusted h.amounts_ok hr hfloor

theorem Corrected.get?_proto {delta : Int} {corrected : List (Entry × Nat)}
    (h : Corrected total splits result delta corrected) : result.amounts.get? "__proto__" = none :=
  (get?_adjusted_proto h.amounts_ok).trans (get?_floors_proto _)

/-- All the shares and all the corrections make up the total. -/
theorem Corrected.sum_eq {delta : Int} {corrected : List (Entry × Nat)}
    (h : Corrected total splits result delta corrected) :
    ((recipients splits).map
      (fun r => (sharesOf total splits r).sum + (adjustmentsOf result.adjustments r).sum)).sum = total := by
  have hlines : ∀ line ∈ splits, line.recipientId ∈ recipients splits :=
    fun line hline => List.mem_dedup.mpr (List.mem_map_of_mem hline)
  have hshares := sum_by_key SplitLine.recipientId (floorShare total) (List.nodup_dedup _) hlines
  have hcorrected : ∀ adjustment ∈ result.adjustments, adjustment.recipientId ∈ recipients splits := by
    rw [h.adjustments_eq]
    intro adjustment hadjustment
    obtain ⟨entry, hentry, rfl⟩ := List.mem_map.mp hadjustment
    exact h.mem entry hentry
  have hadjustments := sum_by_key RoundingAdjustment.recipientId RoundingAdjustment.delta
    (List.nodup_dedup (splits.map SplitLine.recipientId)) hcorrected
  have hdeltas : (result.adjustments.map RoundingAdjustment.delta).sum = corrected.length * delta := by
    rw [h.adjustments_eq, marks, List.map_map]
    simp [Function.comp_def]
  rw [List.sum_map_add]
  calc ((recipients splits).map (fun r => (sharesOf total splits r).sum)).sum +
        ((recipients splits).map (fun r => (adjustmentsOf result.adjustments r).sum)).sum
    _ = (splits.map (floorShare total)).sum + (result.adjustments.map RoundingAdjustment.delta).sum :=
        congrArg₂ (· + ·) hshares hadjustments
    _ = total := by
        rw [hdeltas, h.length_mul]
        omega

end Corrections

section Result

def thirds : List SplitLine := [⟨"A", 1 / 3⟩, ⟨"B", 1 / 3⟩, ⟨"C", 1 / 3⟩]

/-- Two halves of one recipient. -/
def halves : List SplitLine := [⟨"A", 1 / 2⟩, ⟨"A", 1 / 2⟩]

end Result

end SplitSdk.SplitRounding
