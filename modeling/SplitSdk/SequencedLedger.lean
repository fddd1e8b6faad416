import Mathlib.Data.List.Dedup
import Mathlib.Data.List.Perm.Subperm
import Mathlib.Logic.Function.Basic

namespace SplitSdk.SequencedLedger

section Entries

variable {A E : Type}

/-- What accounts had applied, each under the number that comes next for its account. -/
structure Ledger (A E : Type) where
  last : A → ℕ
  applied : List E := []

variable [DecidableEq A] (source : E → A) (number : E → ℕ) (l : Ledger A E)

def Ledger.apply (e : E) : Ledger A E :=
  { last := Function.update l.last (source e) (number e), applied := l.applied ++ [e] }

/-- Numbers of an account are used up elsewhere. -/
def Ledger.skip (a : A) (n : ℕ) : Ledger A E := { l with last := Function.update l.last a (l.last a + n) }

structure Ordered {A E : Type} (source : E → A) (number : E → ℕ) (l : Ledger A E) : Prop where
  used : ∀ e ∈ l.applied, number e ≤ l.last (source e)
  increasing : l.applied.Pairwise (fun e f => source e = source f → number e < number f)

variable {source number} {l}

omit [DecidableEq A] in
theorem Ordered.start (last : A → ℕ) : Ordered source number ⟨last, []⟩ := ⟨nofun, .nil⟩

theorem Ordered.apply (h : Ordered source number l) {e : E} (hnext : number e = l.last (source e) + 1) :
    Ordered source number (l.apply source number e) where
  used f hf := by
    dsimp only [Ledger.apply] at hf ⊢
    rcases List.mem_append.mp hf with hf | hf
    · have hused := h.used f hf
      rcases eq_or_ne (source f) (source e) with hsource | hsource
      · rw [hsource, Function.update_self, hnext]
        rw [hsource] at hused
        exact Nat.le_succ_of_le hused
      · rwa [Function.update_of_ne hsource]
    · obtain rfl := List.mem_singleton.mp hf
      exact Nat.le_of_eq (Function.update_self (source f) (number f) l.last).symm
  increasing := by
    refine List.pairwise_append.mpr ⟨h.increasing, List.pairwise_singleton _ _, ?_⟩
    intro f hf g hg hsource
    obtain rfl := List.mem_singleton.mp hg
    have hused := h.used f hf
    rw [hsource] at hused
    rw [hnext]
    exact Nat.lt_succ_of_le hused

theorem Ordered.skip (h : Ordered source number l) (a : A) (n : ℕ) : Ordered source number (l.skip a n) where
  used e he := by
    refine Nat.le_trans (h.used e he) ?_
    dsimp only [Ledger.skip]
    rcases eq_or_ne (source e) a with rfl | hsource
    · rw [Function.update_self]
      exact Nat.le_add_right _ _
    · exact Nat.le_of_eq (Function.update_of_ne hsource _ _).symm
  increasing := h.increasing

omit [DecidableEq A] in
/-- Entries of one account are no more than the different numbers that they have. -/
theorem Ordered.countP_le (h : Ordered source number l) {p : E → Bool} {a : A} {numbers : List ℕ}
    (hp : ∀ e ∈ l.applied, p e → source e = a ∧ number e ∈ numbers) : l.applied.countP p ≤ numbers.dedup.length := by
  have hfilter : ∀ e ∈ l.applied.filter p, source e = a ∧ number e ∈ numbers := fun e he =>
    hp e (List.mem_filter.mp he).1 (List.mem_filter.mp he).2
  have hnodup : ((l.applied.filter p).map number).Nodup := by
    refine List.pairwise_map.mpr ((h.increasing.filter p).imp_of_mem ?_)
    intro e f he hf hlt
    exact Nat.ne_of_lt (hlt ((hfilter e he).1.trans (hfilter f hf).1.symm))
  have hsubset : (l.applied.filter p).map number ⊆ numbers.dedup := by
    intro n hn
    obtain ⟨e, he, rfl⟩ := List.mem_map.mp hn
    exact List.mem_dedup.mpr (hfilter e he).2
  calc l.applied.countP p = ((l.applied.filter p).map number).length := by rw [List.length_map, List.countP_eq_length_filter]
    _ ≤ numbers.dedup.length := (List.Nodup.subperm hnodup hsubset).length_le

end Entries

end SplitSdk.SequencedLedger
