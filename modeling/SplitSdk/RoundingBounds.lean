import SplitSdk.SplitRounding

namespace SplitSdk.RoundingBounds

open Fallible OrderedMap SplitRounding

section Statement

variable (total : Int) (splits : List SplitLine)

/-- Every amount is that of a line, not negative, and at most one stroop from the line's floor. -/
def NearFloors (result : AuditedSplitResult) : Prop :=
  ∀ entry ∈ result.amounts.entries, 0 ≤ entry.2 ∧
    ∃ line ∈ splits, line.recipientId = entry.1 ∧ |entry.2 - floorShare total line| ≤ 1

/-- The stroops by which the floors exceed the total. -/
def overspent : Nat := ((splits.map (floorShare total)).sum - total).toNat

/-- Of the lines with the largest fractions, those that a stroop is taken from have one. -/
def Covered : Prop := ∀ entry ∈ (sorted (splits.map (entryOf total))).take (overspent total splits), 0 < entry.1.floor

instance : Decidable (Covered total splits) := by
  unfold Covered
  infer_instance

end Statement

section Entries

variable {amounts amounts' : OrdMap String Int} {delta : Int} {corrected : List (Entry × Nat)} {r : String}

theorem not_proto_of_negative (hdelta : delta < 0) (h : corrected.foldlM (adjust delta) amounts = .ok amounts') :
    ∀ entry ∈ corrected, entry.1.recipientId ≠ "__proto__" := by
  induction corrected generalizing amounts with
  | nil => exact List.forall_mem_nil _
  | cons entry corrected ih =>
      rw [List.foldlM_cons] at h
      obtain ⟨next, hnext, h⟩ := bind_eq_ok.mp h
      refine List.forall_mem_cons.mpr ⟨?_, ih h⟩
      intro hproto
      rw [adjust, if_pos ⟨hproto, hdelta⟩] at hnext
      cases hnext

theorem get?_untouched (h : corrected.foldlM (adjust delta) amounts = .ok amounts')
    (hr : ∀ entry ∈ corrected, entry.1.recipientId ≠ r) : amounts'.get? r = amounts.get? r := by
  induction corrected generalizing amounts with
  | nil =>
      cases h
      rfl
  | cons entry corrected ih =>
      rw [List.foldlM_cons] at h
      obtain ⟨next, hnext, h⟩ := bind_eq_ok.mp h
      rw [List.forall_mem_cons] at hr
      rw [ih h hr.2, adjust_eq_ok hnext, assign]
      split_ifs with hproto
      · rfl
      · rw [OrdMap.get?_set, if_neg (Ne.symm hr.1)]

/-- A recipient with one entry is corrected once. -/
theorem sum_adjustments (hnodup : (corrected.map (fun entry => entry.1.recipientId)).Nodup) {entry : Entry × Nat}
    (hentry : entry ∈ corrected) : (adjustmentsOf (marks delta corrected) entry.1.recipientId).sum = delta := by
  induction corrected with
  | nil => exact absurd hentry List.not_mem_nil
  | cons first corrected ih =>
      obtain ⟨hfirst, hrest⟩ := List.nodup_cons.mp hnodup
      rcases List.mem_cons.mp hentry with rfl | hentry
      · have hnone : adjustmentsOf (marks delta corrected) entry.1.recipientId = [] := by
          rw [adjustmentsOf, List.map_eq_nil_iff, List.filter_eq_nil_iff]
          intro adjustment hadjustment heq
          obtain ⟨other, hother, rfl⟩ := List.mem_map.mp hadjustment
          exact hfirst (List.mem_map.mpr ⟨other, hother, of_decide_eq_true heq⟩)
        simp only [adjustmentsOf, marks] at hnone
        simp [adjustmentsOf, marks, hnone]
      · have hne : first.1.recipientId ≠ entry.1.recipientId :=
          fun heq => hfirst (List.mem_map.mpr ⟨entry, hentry, heq.symm⟩)
        have hsum := ih hrest hentry
        simp only [adjustmentsOf, marks] at hsum
        simp [adjustmentsOf, marks, hne, hsum]

end Entries

section Lines

variable {total : Int} {splits : List SplitLine} {result : AuditedSplitResult}

/-- The lines that are corrected. -/
def correctedLines (total : Int) (splits : List SplitLine) : List (Entry × Nat) :=
  (sorted (splits.map (entryOf total))).take (total - (splits.map (floorShare total)).sum).natAbs

def deltaOf (total : Int) (splits : List SplitLine) : Int :=
  if 0 < total - (splits.map (floorShare total)).sum then 1 else -1

theorem amounts_of_ok (h : auditSplitRounding total splits = .ok result) :
    splits = [] ∧ result.amounts = .empty ∨
      (correctedLines total splits).foldlM (adjust (deltaOf total splits)) (floors (splits.map (entryOf total))) =
        .ok result.amounts := by
  have hfloors : ((splits.map (entryOf total)).map Entry.floor).sum = (splits.map (floorShare total)).sum := by
    rw [List.map_map]
    rfl
  rw [auditSplitRounding] at h
  split at h
  next hnil =>
    cases h
    exact .inl ⟨List.length_eq_zero_iff.mp hnil, rfl⟩
  next =>
    simp only [hfloors] at h
    split at h
    · cases h
    · obtain ⟨amounts, hamounts, h⟩ := bind_eq_ok.mp h
      cases h
      exact .inr hamounts

theorem correctedLines_nodup (hdistinct : (splits.map SplitLine.recipientId).Nodup) :
    ((correctedLines total splits).map (fun entry => entry.1.recipientId)).Nodup := by
  have hperm : ((sorted (splits.map (entryOf total))).map (fun entry => entry.1.recipientId)).Perm
      (splits.map SplitLine.recipientId) := by
    refine ((List.perm_insertionSort _ _).map _).trans (List.Perm.of_eq ?_)
    have hmap (entries : List Entry) : entries.zipIdx.map (fun entry => entry.1.recipientId) =
        (entries.zipIdx.map Prod.fst).map Entry.recipientId := by
      rw [List.map_map]
      rfl
    rw [hmap, List.zipIdx_map_fst, List.map_map]
    rfl
  exact (hperm.nodup_iff.mpr hdistinct).sublist ((List.take_sublist _ _).map _)

/-- The entry of a corrected line is the line's own. -/
theorem line_of_corrected {entry : Entry × Nat} (h : entry ∈ correctedLines total splits) :
    ∃ line ∈ splits, entryOf total line = entry.1 :=
  List.mem_map.mp (mem_of_mem_sorted (List.mem_of_mem_take h))

theorem sharesOf_line (hdistinct : (splits.map SplitLine.recipientId).Nodup) {line : SplitLine} (hline : line ∈ splits) :
    sharesOf total splits line.recipientId = [floorShare total line] := by
  induction splits with
  | nil => exact absurd hline List.not_mem_nil
  | cons first splits ih =>
      obtain ⟨hfirst, hrest⟩ := List.nodup_cons.mp hdistinct
      rcases List.mem_cons.mp hline with rfl | hline
      · have hnone : splits.filter (fun other => other.recipientId = line.recipientId) = [] := by
          rw [List.filter_eq_nil_iff]
          intro other hother heq
          exact hfirst (List.mem_map.mpr ⟨other, hother, of_decide_eq_true heq⟩)
        rw [sharesOf, List.filter_cons_of_pos (by simp), hnone]
        rfl
      · have hne : first.recipientId ≠ line.recipientId :=
          fun heq => hfirst (heq ▸ List.mem_map_of_mem hline)
        rw [sharesOf, List.filter_cons_of_neg (by simpa using hne)]
        exact ih hrest hline

variable (hdistinct : (splits.map SplitLine.recipientId).Nodup)
  (hamounts : (correctedLines total splits).foldlM (adjust (deltaOf total splits)) (floors (splits.map (entryOf total))) =
    .ok result.amounts)

include hdistinct hamounts

theorem get?_line {line : SplitLine} (hline : line ∈ splits) (hproto : line.recipientId ≠ "__proto__") :
    result.amounts.get? line.recipientId = some (floorShare total line +
      (adjustmentsOf (marks (deltaOf total splits) (correctedLines total splits)) line.recipientId).sum) := by
  have hfloor := get?_floors (splits.map (entryOf total)) hproto
  rw [filter_entries, sharesOf_line hdistinct hline] at hfloor
  exact get?_adjusted hamounts hproto hfloor

/-- Every amount is the floor of a line, which is corrected once or not at all. -/
theorem amount_cases {entry : String × Int} (hentry : entry ∈ result.amounts.entries) :
    ∃ line ∈ splits, line.recipientId = entry.1 ∧
      (entry.2 = floorShare total line ∨ entry.2 = floorShare total line + deltaOf total splits ∧
        ∃ corrected ∈ correctedLines total splits, corrected.1.floor = floorShare total line) := by
  have hget := OrdMap.get?_of_mem result.amounts hentry
  have hproto : entry.1 ≠ "__proto__" := by
    intro heq
    rw [heq, get?_adjusted_proto hamounts, get?_floors_proto] at hget
    cases hget
  obtain ⟨line, hline, hid⟩ : ∃ line ∈ splits, line.recipientId = entry.1 := by
    by_contra hnone
    push Not at hnone
    have huntouched := get?_untouched (r := entry.1) hamounts (fun corrected hcorrected => by
      obtain ⟨line, hline, heq⟩ := line_of_corrected hcorrected
      rw [← heq]
      exact hnone line hline)
    have hfloors : sharesOf total splits entry.1 = [] := by
      rw [sharesOf, List.map_eq_nil_iff, List.filter_eq_nil_iff]
      exact fun line hline heq => hnone line hline (of_decide_eq_true heq)
    rw [huntouched, get?_floors _ hproto, filter_entries, hfloors] at hget
    cases hget
  refine ⟨line, hline, hid, ?_⟩
  rw [← hid, get?_line hdistinct hamounts hline (hid ▸ hproto), Option.some.injEq] at hget
  by_cases hcorrected : ∃ corrected ∈ correctedLines total splits, corrected.1.recipientId = line.recipientId
  · obtain ⟨corrected, hmem, heq⟩ := hcorrected
    obtain ⟨other, hother, hentryOf⟩ := line_of_corrected hmem
    have hsame : other = line := List.inj_on_of_nodup_map hdistinct hother hline
      ((congrArg Entry.recipientId hentryOf).trans heq)
    rw [← heq, sum_adjustments (correctedLines_nodup hdistinct) hmem] at hget
    exact .inr ⟨hget.symm, corrected, hmem, by rw [← hentryOf, hsame]; rfl⟩
  · have hnone : adjustmentsOf (marks (deltaOf total splits) (correctedLines total splits)) line.recipientId = [] := by
      rw [adjustmentsOf, List.map_eq_nil_iff, List.filter_eq_nil_iff]
      intro adjustment hadjustment heq
      obtain ⟨corrected, hmem, rfl⟩ := List.mem_map.mp hadjustment
      exact hcorrected ⟨corrected, hmem, of_decide_eq_true heq⟩
    rw [hnone, List.sum_nil, add_zero] at hget
    exact .inl hget.symm

/-- A stroop is taken from each of the lines that cover what the floors exceed the total by. -/
theorem amount_of_overspent {corrected : Entry × Nat} (hoverspent : deltaOf total splits = -1)
    (hcorrected : corrected ∈ correctedLines total splits) :
    (corrected.1.recipientId, corrected.1.floor - 1) ∈ result.amounts.entries := by
  have hproto := not_proto_of_negative (by omega) hamounts corrected hcorrected
  obtain ⟨line, hline, heq⟩ := line_of_corrected hcorrected
  have hid : corrected.1.recipientId = line.recipientId := congrArg Entry.recipientId heq.symm
  have hfloor : corrected.1.floor = floorShare total line := congrArg Entry.floor heq.symm
  have hget := get?_line hdistinct hamounts hline (hid ▸ hproto)
  rw [← hid, sum_adjustments (correctedLines_nodup hdistinct) hcorrected, hoverspent] at hget
  rw [hfloor]
  exact OrdMap.get?_eq_some_iff.mp hget

end Lines

section Result

variable {total : Int} {splits : List SplitLine}

/-- A stroop is taken from a line only when the floors exceed the total. -/
theorem take_overspent (h : deltaOf total splits = -1) :
    (sorted (splits.map (entryOf total))).take (overspent total splits) = correctedLines total splits := by
  rw [deltaOf] at h
  split_ifs at h with hpos
  rw [correctedLines, overspent]
  congr 1
  omega

/-- The ratios sum to more than one, and the largest fraction is that of a floor of nothing. -/
def overfull : List SplitLine := [⟨"A", 1⟩, ⟨"B", 1⟩, ⟨"C", 9 / 10⟩]

end Result

end SplitSdk.RoundingBounds
