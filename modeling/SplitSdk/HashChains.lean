import Mathlib.Data.List.Infix
import Mathlib.Data.List.Induction

namespace SplitSdk.HashChains

section Prefixes

variable {α : Type} {xs ys : List α} {i : Nat}

/-- The first place at which two sequences differ, where one of them may have ended. -/
def DiffersAt (xs ys : List α) (i : Nat) : Prop := xs.take i = ys.take i ∧ xs[i]? ≠ ys[i]?

theorem DiffersAt.ne (h : DiffersAt xs ys i) : xs ≠ ys := fun heq => h.2 (congrArg (·[i]?) heq)

theorem take_succ_eq_iff (h : xs.take i = ys.take i) : xs.take (i + 1) = ys.take (i + 1) ↔ xs[i]? = ys[i]? := by
  rw [List.take_add_one, List.take_add_one, h, List.append_cancel_left_eq]
  refine ⟨fun heq => ?_, fun heq => congrArg Option.toList heq⟩
  simpa using congrArg List.head? heq

/-- Where one of two sequences has ended before the other. -/
theorem differsAt_min (hlength : xs.length ≠ ys.length) (h : xs.take (min xs.length ys.length) = ys.take (min xs.length ys.length)) :
    DiffersAt xs ys (min xs.length ys.length) := by
  refine ⟨h, fun heq => ?_⟩
  rcases Nat.lt_or_gt_of_ne hlength with hlt | hlt
  · rw [Nat.min_eq_left hlt.le, List.getElem?_eq_none (Nat.le_refl _)] at heq
    exact absurd (List.getElem?_eq_none_iff.mp heq.symm) (Nat.not_le.mpr hlt)
  · rw [Nat.min_eq_right hlt.le, List.getElem?_eq_none (Nat.le_refl ys.length)] at heq
    exact absurd (List.getElem?_eq_none_iff.mp heq) (Nat.not_le.mpr hlt)

end Prefixes

section Definitions

variable {δ τ : Type} (node : δ → τ → δ) (start : δ)

def chain (ts : List τ) : δ := ts.foldl node start

/-- What is hashed on the way. -/
def links : δ → List τ → List (δ × τ)
  | _, [] => []
  | d, t :: ts => (d, t) :: links (node d t) ts

/-- Different inputs have different hashes, none of which is the start. -/
structure Free (inputs : List (δ × τ)) : Prop where
  inj : ∀ p ∈ inputs, ∀ q ∈ inputs, node p.1 p.2 = node q.1 q.2 → p = q
  fresh : ∀ p ∈ inputs, node p.1 p.2 ≠ start

end Definitions

section Chains

variable {δ τ : Type} {node : δ → τ → δ} {start : δ} {ts ts' : List τ} {inputs : List (δ × τ)}

theorem chain_concat (ts : List τ) (t : τ) : chain node start (ts ++ [t]) = node (chain node start ts) t := by
  rw [chain, List.foldl_append]
  rfl

theorem links_append (ts ts' : List τ) : links node start (ts ++ ts') = links node start ts ++ links node (chain node start ts) ts' := by
  induction ts generalizing start with
  | nil => rfl
  | cons t ts ih => exact congrArg _ ih

theorem links_concat (ts : List τ) (t : τ) : links node start (ts ++ [t]) = links node start ts ++ [(chain node start ts, t)] :=
  links_append ts [t]

theorem links_take_subset (ts : List τ) (i : Nat) : links node start (ts.take i) ⊆ links node start ts := by
  conv_rhs => rw [← List.take_append_drop i ts, links_append]
  exact List.subset_append_left _ _

/-- The last hash determines the sequence: the links are compared from the end. -/
theorem chain_inj (hfree : Free node start inputs) (hts : links node start ts ⊆ inputs) (hts' : links node start ts' ⊆ inputs)
    (h : chain node start ts = chain node start ts') : ts = ts' := by
  induction ts using List.reverseRecOn generalizing ts' with
  | nil =>
      rcases List.eq_nil_or_concat' ts' with rfl | ⟨init, t, rfl⟩
      · rfl
      · rw [links_concat] at hts'
        rw [chain_concat] at h
        exact absurd h.symm (hfree.fresh _ (hts' (List.mem_append_right _ (List.mem_singleton_self _))))
  | append_singleton ts t ih =>
      rw [links_concat] at hts
      rw [chain_concat] at h
      have hmem := hts (List.mem_append_right _ (List.mem_singleton_self _))
      rcases List.eq_nil_or_concat' ts' with rfl | ⟨init, t', rfl⟩
      · exact absurd h (hfree.fresh _ hmem)
      · rw [links_concat] at hts'
        rw [chain_concat] at h
        have hmem' := hts' (List.mem_append_right _ (List.mem_singleton_self _))
        obtain ⟨hinit, rfl⟩ := Prod.mk.inj (hfree.inj _ hmem _ hmem' h)
        rw [ih (fun p hp => hts (List.mem_append_left _ hp)) (fun p hp => hts' (List.mem_append_left _ hp)) hinit]

/-- Two beginnings with one hash are the same. -/
theorem chain_take_inj (hfree : Free node start inputs) (hts : links node start ts ⊆ inputs) (hts' : links node start ts' ⊆ inputs)
    {i j : Nat} : chain node start (ts.take i) = chain node start (ts'.take j) ↔ ts.take i = ts'.take j :=
  ⟨chain_inj hfree (List.Subset.trans (links_take_subset ts i) hts) (List.Subset.trans (links_take_subset ts' j) hts'),
    congrArg _⟩

end Chains

end SplitSdk.HashChains
