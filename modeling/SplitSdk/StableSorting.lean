import Mathlib.Data.List.Sort

namespace SplitSdk.StableSorting

variable {α : Type} {le : α → α → Bool} (trans : ∀ a b c, le a b → le b c → le a c) (total : ∀ a b, le a b || le b a)

include trans total

/-- Elements that the order does not tell apart keep their order. -/
theorem filter_mergeSort {p : α → Bool} {xs : List α} (h : ∀ a ∈ xs, ∀ b ∈ xs, p a → p b → le a b) :
    (xs.mergeSort le).filter p = xs.filter p := by
  have hperm := (List.mergeSort_perm xs le).filter p
  have hsame : (xs.filter p).Pairwise (fun a b => le a b) := by
    refine List.pairwise_of_forall_mem_list (fun a ha b hb => ?_)
    exact h a (List.mem_filter.mp ha).1 b (List.mem_filter.mp hb).1 (List.mem_filter.mp ha).2 (List.mem_filter.mp hb).2
  have hsublist := (List.sublist_mergeSort trans total hsame List.filter_sublist).filter p
  rw [List.filter_filter] at hsublist
  simp only [Bool.and_self] at hsublist
  exact (hsublist.eq_of_length hperm.length_eq.symm).symm

/-- In front of a sorted list comes what no other precedes, and of several such the first. -/
theorem pairwise_mergeSort_of_classes {κ : Type} [DecidableEq κ] (key : α → κ) {R : α → α → Prop} {xs : List α}
    (hkey : ∀ a b, key a = key b → le a b) (hless : ∀ a b, le a b → key a ≠ key b → R a b)
    (h : ∀ k, (xs.filter (fun a => key a = k)).Pairwise R) : (xs.mergeSort le).Pairwise R := by
  have hclasses : ∀ k, ((xs.mergeSort le).filter (fun a => key a = k)).Pairwise R := by
    intro k
    rw [filter_mergeSort trans total (fun a _ b _ ha hb => hkey a b ((of_decide_eq_true ha).trans (of_decide_eq_true hb).symm))]
    exact h k
  have hsorted := List.pairwise_mergeSort trans total xs
  generalize xs.mergeSort le = ys at hclasses hsorted ⊢
  induction ys with
  | nil => exact List.Pairwise.nil
  | cons y ys ih =>
      obtain ⟨hfirst, hrest⟩ := List.pairwise_cons.mp hsorted
      refine List.pairwise_cons.mpr ⟨fun z hz => ?_, ih (fun k => ?_) hrest⟩
      · by_cases hsame : key y = key z
        · have hself : decide (key y = key y) = true := decide_eq_true rfl
          have hclass := hclasses (key y)
          rw [List.filter_cons_of_pos (p := fun a => decide (key a = key y)) hself] at hclass
          exact (List.pairwise_cons.mp hclass).1 z (List.mem_filter.mpr ⟨hz, decide_eq_true hsame.symm⟩)
        · exact hless y z (hfirst z hz) hsame
      · exact (hclasses k).sublist ((List.sublist_cons_self y ys).filter _)

end SplitSdk.StableSorting
