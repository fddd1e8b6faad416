import SplitSdk.OrderedMap
import Mathlib.Data.List.Induction

namespace SplitSdk.BucketIndexes

open OrderedMap

variable {α κ : Type} [DecidableEq α] [DecidableEq κ]

section Sets

/-- A set keeps the order in which its elements were first added. -/
def add (set : List α) (x : α) : List α := if x ∈ set then set else set ++ [x]

def firsts (xs : List α) : List α := xs.foldl add []

def intersect (a b : List α) : List α := a.filter (fun x => x ∈ b)

theorem mem_add {set : List α} {x y : α} : y ∈ add set x ↔ y ∈ set ∨ y = x := by
  unfold add
  split_ifs with h
  · exact ⟨.inl, fun hy => hy.elim id (fun heq => heq ▸ h)⟩
  · rw [List.mem_append, List.mem_singleton]

theorem filter_add (p : α → Bool) (set : List α) (x : α) :
    (add set x).filter p = if p x then add (set.filter p) x else set.filter p := by
  unfold add
  by_cases hmem : x ∈ set
  · rw [if_pos hmem]
    split_ifs with hp hfiltered
    · rfl
    · exact absurd (List.mem_filter.mpr ⟨hmem, hp⟩) hfiltered
    · rfl
  · rw [if_neg hmem, List.filter_append]
    split_ifs with hp hfiltered
    · exact absurd (List.mem_filter.mp hfiltered).1 hmem
    · rw [List.filter_cons_of_pos hp, List.filter_nil]
    · rw [List.filter_cons_of_neg hp, List.filter_nil, List.append_nil]

theorem firsts_concat (xs : List α) (x : α) : firsts (xs ++ [x]) = add (firsts xs) x := by
  rw [firsts, List.foldl_append]
  rfl

theorem mem_firsts {xs : List α} {x : α} : x ∈ firsts xs ↔ x ∈ xs := by
  induction xs using List.reverseRecOn with
  | nil => rfl
  | append_singleton xs y ih => rw [firsts_concat, mem_add, ih, List.mem_append, List.mem_singleton]

theorem nodup_firsts (xs : List α) : (firsts xs).Nodup := by
  induction xs using List.reverseRecOn with
  | nil => exact List.nodup_nil
  | append_singleton xs y ih =>
      rw [firsts_concat, add]
      split_ifs with h
      · exact ih
      · exact List.nodup_append'.mpr ⟨ih, List.nodup_singleton y, List.disjoint_singleton.mpr h⟩

theorem firsts_filter (p : α → Bool) (xs : List α) : firsts (xs.filter p) = (firsts xs).filter p := by
  induction xs using List.reverseRecOn with
  | nil => rfl
  | append_singleton xs x ih =>
      rw [List.filter_append, firsts_concat, filter_add]
      split_ifs with hp
      · rw [List.filter_cons_of_pos hp, List.filter_nil, firsts_concat, ih]
      · rw [List.filter_cons_of_neg hp, List.filter_nil, List.append_nil, ih]

theorem firsts_of_nodup {xs : List α} (h : xs.Nodup) : firsts xs = xs := by
  induction xs using List.reverseRecOn with
  | nil => rfl
  | append_singleton xs x ih =>
      obtain ⟨hxs, -, hdisjoint⟩ := List.nodup_append'.mp h
      rw [firsts_concat, ih hxs, add, if_neg (List.disjoint_singleton.mp hdisjoint)]

theorem intersect_filter (p q : α → Bool) (xs : List α) :
    intersect (xs.filter p) (xs.filter q) = xs.filter (fun x => p x && q x) := by
  rw [intersect, List.filter_filter]
  apply List.filter_congr
  intro x hmem
  have hq : decide (x ∈ xs.filter q) = q x := by simp [hmem]
  rw [hq, Bool.and_comm]

/-- What is selected from the first occurrences is a given list. -/
theorem filter_firsts_eq_iff {p : α → Bool} {xs ys : List α} :
    (firsts xs).filter p = ys ↔ ys.Sublist (firsts xs) ∧ (∀ y ∈ ys, p y) ∧ ∀ x ∈ xs, p x → x ∈ ys := by
  constructor
  · rintro rfl
    refine ⟨List.filter_sublist, fun y hy => (List.mem_filter.mp hy).2, fun x hx hp => ?_⟩
    exact List.mem_filter.mpr ⟨mem_firsts.mpr hx, hp⟩
  · rintro ⟨hsublist, hall, hevery⟩
    have hle : ys.Sublist ((firsts xs).filter p) := by
      rw [← List.filter_eq_self.mpr hall]
      exact hsublist.filter p
    refine (hle.eq_of_length_le ?_).symm
    refine (List.subperm_of_subset ((nodup_firsts xs).filter p) (fun x hx => ?_)).length_le
    obtain ⟨hmem, hp⟩ := List.mem_filter.mp hx
    exact hevery x (mem_firsts.mp hmem) hp

end Sets

section Buckets

def addTo (map : OrdMap κ (List α)) (key : κ) (x : α) : OrdMap κ (List α) := map.set key (add ((map.get? key).getD []) x)

def bucket (map : OrdMap κ (List α)) (key : κ) : List α := (map.get? key).getD []

/-- The elements of a list under the keys that a field gives them. -/
def Indexes (map : OrdMap κ (List α)) (field : α → κ) (xs : List α) : Prop :=
  ∀ key, bucket map key = (firsts xs).filter (fun x => field x = key)

theorem indexes_empty (field : α → κ) : Indexes .empty field [] := fun _ => rfl

theorem Indexes.addTo {map : OrdMap κ (List α)} {field : α → κ} {xs : List α} (h : Indexes map field xs) (x : α) :
    Indexes (addTo map (field x) x) field (xs ++ [x]) := by
  intro key
  rw [firsts_concat, filter_add, bucket, BucketIndexes.addTo, OrdMap.get?_set]
  have hkey := h key
  split_ifs with heq heq' heq'
  · subst heq
    exact congrArg (fun set => add set x) hkey
  · exact absurd (decide_eq_true heq.symm) heq'
  · exact absurd (of_decide_eq_true heq').symm heq
  · exact hkey

end Buckets

end SplitSdk.BucketIndexes
