import Mathlib.Algebra.BigOperators.Group.List.Basic
import Mathlib.Data.List.Induction
import SplitSdk.OrderedMap

namespace SplitSdk.GroupedFold

open OrderedMap

variable {α β γ δ : Type} [DecidableEq α]

/-- Read a list into a map, where each element updates the value of its key. -/
def collect (key : γ → α) (update : Option β → γ → β) (xs : List γ) : OrdMap α β :=
  xs.foldl (fun m x => m.set (key x) (update (m.get? (key x)) x)) OrdMap.empty

/-- The first element of each key, in order. -/
def firsts (key : γ → α) : List γ → List γ
  | [] => []
  | x :: xs => x :: (firsts key xs).filter (fun y => key y ≠ key x)

section Firsts

variable (key : γ → α)

theorem mem_of_mem_firsts {x : γ} {xs : List γ} (h : x ∈ firsts key xs) : x ∈ xs := by
  induction xs with
  | nil => exact h
  | cons y ys ih =>
      rcases List.mem_cons.mp h with rfl | h
      · exact List.mem_cons_self
      · exact List.mem_cons_of_mem y (ih (List.mem_filter.mp h).1)

theorem exists_firsts {x : γ} {xs : List γ} (h : x ∈ xs) : ∃ y ∈ firsts key xs, key y = key x := by
  induction xs with
  | nil => cases h
  | cons z zs ih =>
      by_cases hz : key z = key x
      · exact ⟨z, List.mem_cons_self, hz⟩
      · have hx : x ∈ zs := by
          rcases List.mem_cons.mp h with rfl | h
          · exact absurd rfl hz
          · exact h
        obtain ⟨y, hy, hyx⟩ := ih hx
        have hne : key y ≠ key z := fun he => hz (he.symm.trans hyx)
        exact ⟨y, List.mem_cons_of_mem z (List.mem_filter.mpr ⟨hy, by simpa using hne⟩), hyx⟩

theorem mem_map_firsts (xs : List γ) (k : α) : k ∈ (firsts key xs).map key ↔ k ∈ xs.map key := by
  constructor
  · intro h
    obtain ⟨y, hy, rfl⟩ := List.mem_map.mp h
    exact List.mem_map_of_mem (mem_of_mem_firsts key hy)
  · intro h
    obtain ⟨y, hy, rfl⟩ := List.mem_map.mp h
    obtain ⟨z, hz, hzy⟩ := exists_firsts key hy
    exact List.mem_map.mpr ⟨z, hz, hzy⟩

theorem eq_of_mem_firsts {x y : γ} {xs : List γ} (hx : x ∈ firsts key xs) (hy : y ∈ firsts key xs)
    (he : key x = key y) : x = y := by
  induction xs with
  | nil => cases hx
  | cons z zs ih =>
      rcases List.mem_cons.mp hx with rfl | hx <;> rcases List.mem_cons.mp hy with rfl | hy
      · rfl
      · simp [he] at hy
      · simp [he] at hx
      · exact ih (List.mem_filter.mp hx).1 (List.mem_filter.mp hy).1

theorem find?_firsts (xs : List γ) (k : α) :
    (firsts key xs).find? (fun x => key x = k) = xs.find? (fun x => key x = k) := by
  induction xs with
  | nil => rfl
  | cons x xs ih =>
      rw [firsts, List.find?_cons, List.find?_cons]
      by_cases hk : key x = k
      · rw [decide_eq_true hk]
      · have hsame : (fun y => decide (decide (key y ≠ key x) = true ∧ decide (key y = k) = true)) =
            fun y => decide (key y = k) := by
          funext y
          by_cases hy : key y = k
          · simp [hy, Ne.symm hk]
          · simp [hy]
        rw [decide_eq_false hk, List.find?_filter, ← ih, hsame]

theorem firsts_concat (xs : List γ) (x : γ) :
    firsts key (xs ++ [x]) = if key x ∈ xs.map key then firsts key xs else firsts key xs ++ [x] := by
  induction xs with
  | nil => rfl
  | cons y ys ih =>
      rw [List.cons_append, firsts, firsts, ih, List.map_cons]
      by_cases hy : key x = key y
      · have hdrop : [x].filter (fun z => key z ≠ key y) = [] := by simp [hy]
        have hmem : key x ∈ key y :: ys.map key := hy ▸ List.mem_cons_self
        rw [if_pos hmem]
        split_ifs
        · rfl
        · rw [List.filter_append, hdrop, List.append_nil]
      · have hkeep : [x].filter (fun z => key z ≠ key y) = [x] := by simp [hy]
        by_cases hys : key x ∈ ys.map key
        · rw [if_pos hys, if_pos (List.mem_cons_of_mem _ hys)]
        · rw [if_neg hys, if_neg (List.not_mem_cons_of_ne_of_not_mem hy hys), List.filter_append, hkeep]
          rfl

end Firsts

section Collect

variable (key : γ → α) (update : Option β → γ → β)

theorem collect_concat (xs : List γ) (x : γ) :
    collect key update (xs ++ [x]) =
      (collect key update xs).set (key x) (update ((collect key update xs).get? (key x)) x) := by
  rw [collect, collect, List.foldl_append]
  rfl

/-- The value of a key is what the elements of that key make of it. -/
theorem get?_collect (xs : List γ) (k : α) :
    (collect key update xs).get? k =
      (xs.filter (fun x => key x = k)).foldl (fun value x => some (update value x)) none := by
  induction xs using List.reverseRecOn with
  | nil => rfl
  | append_singleton xs x ih =>
      rw [collect_concat, OrdMap.get?_set, List.filter_append, List.foldl_append, ← ih]
      split_ifs with hk
      · subst hk
        simp
      · have hdrop : [x].filter (fun y => key y = k) = [] := by simpa using Ne.symm hk
        rw [hdrop]
        rfl

theorem keys_collect (xs : List γ) : (collect key update xs).keys = (firsts key xs).map key := by
  induction xs using List.reverseRecOn with
  | nil => rfl
  | append_singleton xs x ih =>
      rw [collect_concat, OrdMap.keys_set, ih, firsts_concat]
      by_cases h : key x ∈ xs.map key
      · rw [if_pos h, if_pos ((mem_map_firsts key xs _).mpr h)]
      · rw [if_neg h, if_neg (mt (mem_map_firsts key xs _).mp h), List.map_append]
        rfl

theorem mem_collect {xs : List γ} {entry : α × β} (h : entry ∈ (collect key update xs).entries) :
    (xs.filter (fun x => key x = entry.1)).foldl (fun value x => some (update value x)) none = some entry.2 := by
  rw [← get?_collect]
  exact OrdMap.get?_of_mem _ h

/-- What an update leaves unchanged is read from the first element of each key. -/
theorem map_collect (view : β → δ) (view' : γ → δ) (hnew : ∀ x, view (update none x) = view' x)
    (hold : ∀ value x, view (update (some value) x) = view value) (xs : List γ) :
    (collect key update xs).entries.map (fun entry => view entry.2) = (firsts key xs).map view' := by
  induction xs using List.reverseRecOn with
  | nil => rfl
  | append_singleton xs x ih =>
      have hmem := mem_map_firsts key xs (key x)
      rw [collect_concat, firsts_concat]
      cases hget : (collect key update xs).get? (key x) with
      | none =>
          have hnot : key x ∉ (collect key update xs).keys := fun h => by
            rw [← OrdMap.has_iff, OrdMap.has, hget] at h
            cases h
          rw [OrdMap.set, dif_neg hnot, List.map_append, ih, if_neg (by rwa [keys_collect, hmem] at hnot),
            List.map_append, List.map_singleton, List.map_singleton, hnew]
      | some value =>
          have hin : key x ∈ (collect key update xs).keys := by
            rw [← OrdMap.has_iff, OrdMap.has, hget]
            rfl
          rw [OrdMap.set, dif_pos hin, if_pos (by rwa [keys_collect, hmem] at hin), ← ih, List.map_map]
          refine List.map_congr_left (fun entry hentry => ?_)
          rw [Function.comp_apply, OrdMap.replace]
          split_ifs with he
          · have hvalue := OrdMap.get?_of_mem _ hentry
            rw [he, hget, Option.some_inj] at hvalue
            rw [hold, hvalue]
          · rfl

end Collect

section Sums

/-- A sum over a map to which one key alone contributes. -/
theorem sum_of_key {M : Type} [AddMonoid M] (m : OrdMap α β) (k : α) (f : α × β → M)
    (h : ∀ entry ∈ m.entries, entry.1 ≠ k → f entry = 0) :
    (m.entries.map f).sum = (m.get? k).elim 0 (fun value => f (k, value)) := by
  obtain ⟨entries, hnodup⟩ := m
  rw [OrdMap.get?]
  dsimp only at h ⊢
  induction entries with
  | nil => rfl
  | cons entry entries ih =>
      obtain ⟨j, value⟩ := entry
      rw [List.map_cons, List.nodup_cons] at hnodup
      rw [List.map_cons, List.sum_cons]
      have hrest := fun e he => h e (List.mem_cons_of_mem _ he)
      by_cases hk : k = j
      · subst hk
        have hzero : entries.map f = List.replicate entries.length 0 :=
          List.map_eq_replicate_iff.mpr (fun e he => hrest e he (fun hek => hnodup.1 (List.mem_map.mpr ⟨e, he, hek⟩)))
        rw [OrdMap.lookup_self, hzero, List.sum_replicate, nsmul_zero, add_zero]
        rfl
      · rw [OrdMap.lookup_of_ne j value entries hk, h _ List.mem_cons_self (Ne.symm hk), zero_add]
        exact ih hnodup.2 hrest

end Sums

section Groups

variable (key : γ → α)

/-- The elements of each key, in order. -/
def groups (xs : List γ) : OrdMap α (List γ) := collect key (fun group x => group.getD [] ++ [x]) xs

theorem foldl_groups (xs : List γ) (group : Option (List γ)) :
    xs.foldl (fun group x => some (group.getD [] ++ [x])) group = if xs = [] then group else some (group.getD [] ++ xs) := by
  induction xs generalizing group with
  | nil => rfl
  | cons x xs ih =>
      rw [List.foldl_cons, ih, if_neg (List.cons_ne_nil x xs)]
      split_ifs with h
      · rw [h]
      · rw [Option.getD_some, List.append_assoc, List.singleton_append]

theorem mem_groups {xs : List γ} {entry : α × List γ} (h : entry ∈ (groups key xs).entries) :
    entry.2 = xs.filter (fun x => key x = entry.1) ∧ entry.2 ≠ [] := by
  have hfold := mem_collect key _ h
  rw [foldl_groups] at hfold
  split_ifs at hfold with hnil
  obtain hentry := Option.some.inj hfold
  rw [Option.getD_none, List.nil_append] at hentry
  exact ⟨hentry.symm, hentry ▸ hnil⟩

theorem get?_groups (xs : List γ) (k : α) :
    (groups key xs).get? k = if xs.filter (fun x => key x = k) = [] then none else some (xs.filter (fun x => key x = k)) := by
  rw [groups, get?_collect, foldl_groups]
  rfl

/-- Every element is in one group. -/
theorem flatten_groups (xs : List γ) : ((groups key xs).entries.map Prod.snd).flatten.Perm xs := by
  classical
  refine List.perm_iff_count.mpr (fun x => ?_)
  have hzero : ∀ entry ∈ (groups key xs).entries, entry.1 ≠ key x → entry.2.count x = 0 := by
    intro entry hentry hne
    rw [(mem_groups key hentry).1]
    exact List.count_eq_zero.mpr (fun hmem => hne (of_decide_eq_true (List.mem_filter.mp hmem).2).symm)
  rw [List.count_flatten, List.map_map, Function.comp_def, sum_of_key (groups key xs) (key x) _ hzero, get?_groups]
  split_ifs with hnil
  · refine (List.count_eq_zero.mpr (fun hmem => ?_)).symm
    exact List.not_mem_nil (hnil ▸ List.mem_filter.mpr ⟨hmem, decide_eq_true rfl⟩)
  · exact List.count_filter (decide_eq_true rfl)

/-- No division of the elements into lists of one key is into fewer than there are groups. -/
theorem size_groups_le {xs : List γ} {parts : List (List γ)} (hperm : parts.flatten.Perm xs)
    (hsame : ∀ part ∈ parts, ∀ x ∈ part, ∀ y ∈ part, key x = key y) : (groups key xs).size ≤ parts.length := by
  have hsubset : (groups key xs).keys ⊆ parts.filterMap (fun part => part.head?.map key) := by
    intro k hk
    rw [groups, keys_collect, mem_map_firsts] at hk
    obtain ⟨x, hx, rfl⟩ := List.mem_map.mp hk
    obtain ⟨part, hpart, hmem⟩ := List.mem_flatten.mp (hperm.mem_iff.mpr hx)
    obtain ⟨y, ys, rfl⟩ := List.exists_cons_of_ne_nil (List.ne_nil_of_mem hmem)
    exact List.mem_filterMap.mpr ⟨_, hpart, congrArg some (hsame _ hpart _ List.mem_cons_self x hmem)⟩
  exact Nat.le_trans (OrdMap.size_le_of_subset hsubset) (List.length_filterMap_le _ _)

end Groups

end SplitSdk.GroupedFold
