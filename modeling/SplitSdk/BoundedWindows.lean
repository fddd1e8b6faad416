import Mathlib.Data.List.DropRight

namespace SplitSdk.BoundedWindows

variable {α : Type} {n : Nat} {xs ys removed : List α} {x : α}

/-- What is kept of a list with room for `n` entries when another one comes behind it. -/
def push (n : Nat) (xs : List α) (x : α) : List α := if xs.length < n then xs ++ [x] else xs.tail ++ [x]

theorem length_push (h : xs.length ≤ n) (hn : 0 < n) : (push n xs x).length ≤ n := by
  unfold push
  split_ifs with hlt
  · rw [List.length_append, List.length_singleton]
    omega
  · rw [List.length_append, List.length_singleton, List.length_tail]
    omega

theorem length_rtake_le (xs : List α) (n : Nat) : (xs.rtake n).length ≤ n := by
  rw [List.rtake_eq_reverse_take_reverse, List.length_reverse]
  exact List.length_take_le _ _

theorem rtake_of_length_le (h : xs.length ≤ n) : xs.rtake n = xs := by
  rw [List.rtake, Nat.sub_eq_zero_of_le h, List.drop_zero]

theorem length_rtake_of_le (h : n ≤ xs.length) : (xs.rtake n).length = n := by
  rw [List.rtake, List.length_drop]
  omega

/-- The last `n` entries, of which the first one goes when another entry comes behind them. -/
theorem rtake_concat (hn : 0 < n) (xs : List α) (x : α) : (xs ++ [x]).rtake n = push n (xs.rtake n) x := by
  rcases Nat.lt_or_ge xs.length n with hlt | hge
  · rw [rtake_of_length_le (by simp; omega), rtake_of_length_le hlt.le, push, if_pos hlt]
  · rw [push, length_rtake_of_le hge, if_neg (lt_irrefl n), List.rtake, List.rtake, List.tail_drop, List.length_append,
      List.length_singleton, List.drop_append_of_le_length (by omega), show xs.length + 1 - n = xs.length - n + 1 by omega]

/-- Entries that were removed from the front make no difference to what is pushed out later. -/
theorem push_append (h : (removed ++ xs).length ≤ n) :
    ∃ rest, rest <:+ removed ∧ push n (removed ++ xs) x = rest ++ push n xs x := by
  cases removed with
  | nil => exact ⟨[], List.suffix_refl _, rfl⟩
  | cons y removed =>
      have hlt : xs.length < n := by
        simp at h
        omega
      by_cases hfull : (y :: removed ++ xs).length < n
      · exact ⟨y :: removed, List.suffix_refl _, by simp only [push, if_pos hfull, if_pos hlt, List.append_assoc]⟩
      · refine ⟨removed, List.suffix_cons y removed, ?_⟩
        rw [push, if_neg hfull, push, if_pos hlt, List.cons_append, List.tail_cons, List.append_assoc]

theorem map_push {β : Type} (f : α → β) : (push n xs x).map f = push n (xs.map f) (f x) := by
  unfold push
  rw [List.length_map]
  split_ifs <;> simp

/-- Where no entry is dropped behind one that is kept, dropping from the front drops all of them. -/
theorem dropWhile_eq_filter {p : α → Bool} (h : xs.Pairwise (fun x y => p y → p x)) : xs.dropWhile p = xs.filter (fun x => !p x) := by
  induction xs with
  | nil => rfl
  | cons x xs ih =>
      obtain ⟨hx, hxs⟩ := List.pairwise_cons.mp h
      cases hp : p x with
      | true => rw [List.dropWhile_cons_of_pos hp, ih hxs, List.filter_cons_of_neg (by simp [hp])]
      | false =>
          rw [List.dropWhile_cons_of_neg (by simp [hp]), List.filter_cons_of_pos (by simp [hp])]
          refine congrArg _ (List.filter_eq_self.mpr (fun y hy => ?_)).symm
          have : p y ≠ true := fun hpy => by simp [hp] at hx; exact absurd hpy (by simp [hx y hy])
          simpa using this

end SplitSdk.BoundedWindows
