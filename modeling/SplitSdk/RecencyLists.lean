import Mathlib.Data.Finset.Card
import Mathlib.Data.List.Nodup
import Mathlib.Data.List.TakeWhile

namespace SplitSdk.RecencyLists

variable {α : Type} [DecidableEq α]

section Recency

/-- The keys of a history of uses, the one that was used last first. -/
def recency : List α → List α
  | [] => []
  | key :: uses => key :: (recency uses).filter (· ≠ key)

/-- The number of distinct keys that were used after `key` was. -/
def usedSince (key : α) (uses : List α) : Nat := (uses.takeWhile (· ≠ key)).toFinset.card

theorem nodup_recency (uses : List α) : (recency uses).Nodup := by
  induction uses with
  | nil => exact List.nodup_nil
  | cons key uses ih => exact List.nodup_cons.mpr ⟨fun h => by simp at h, ih.filter _⟩

theorem mem_recency {key : α} {uses : List α} : key ∈ recency uses ↔ key ∈ uses := by
  induction uses with
  | nil => rfl
  | cons used uses ih =>
      rw [recency, List.mem_cons, List.mem_cons, List.mem_filter, ih, decide_eq_true_iff]
      by_cases h : key = used
      · simp [h]
      · simp [h]

theorem takeWhile_filter_of_ne {key used : α} (hne : used ≠ key) (keys : List α) :
    (keys.filter (· ≠ used)).takeWhile (· ≠ key) = (keys.takeWhile (· ≠ key)).filter (· ≠ used) := by
  induction keys with
  | nil => rfl
  | cons k keys ih =>
      by_cases hused : k = used
      · subst hused
        rw [List.filter_cons_of_neg (by simp), ih, List.takeWhile_cons_of_pos (by simpa using hne),
          List.filter_cons_of_neg (by simp)]
      · rw [List.filter_cons_of_pos (by simpa using hused)]
        by_cases hkey : k = key
        · rw [List.takeWhile_cons_of_neg (by simpa using hkey), List.takeWhile_cons_of_neg (by simpa using hkey)]
          rfl
        · rw [List.takeWhile_cons_of_pos (by simpa using hkey), List.takeWhile_cons_of_pos (by simpa using hkey), ih,
            List.filter_cons_of_pos (by simpa using hused)]

theorem mem_takeWhile_recency {key k : α} (uses : List α) :
    k ∈ (recency uses).takeWhile (· ≠ key) ↔ k ∈ uses.takeWhile (· ≠ key) := by
  induction uses with
  | nil => rfl
  | cons used uses ih =>
      rw [recency]
      by_cases hused : used = key
      · rw [List.takeWhile_cons_of_neg (by simpa using hused), List.takeWhile_cons_of_neg (by simpa using hused)]
      · rw [List.takeWhile_cons_of_pos (by simpa using hused), List.takeWhile_cons_of_pos (by simpa using hused),
          takeWhile_filter_of_ne hused, List.mem_cons, List.mem_cons, List.mem_filter, ih, decide_eq_true_iff]
        by_cases h : k = used
        · simp [h]
        · simp [h]

/-- The keys that stand before a key are those that were used after it. -/
theorem usedSince_eq (key : α) (uses : List α) : usedSince key uses = ((recency uses).takeWhile (· ≠ key)).length := by
  have hnodup := (nodup_recency uses).sublist (List.takeWhile_sublist (· ≠ key))
  rw [← List.toFinset_card_of_nodup hnodup, usedSince]
  congr 1
  ext k
  rw [List.mem_toFinset, List.mem_toFinset, mem_takeWhile_recency]

end Recency

section Room

theorem mem_take_iff {key : α} {keys : List α} (h : key ∈ keys) (n : Nat) :
    key ∈ keys.take n ↔ (keys.takeWhile (· ≠ key)).length < n := by
  induction keys generalizing n with
  | nil => cases h
  | cons k keys ih =>
      cases n with
      | zero => simp
      | succ n =>
          by_cases hk : k = key
          · subst hk
            simp
          · have hkeys : key ∈ keys := (List.mem_cons.mp h).resolve_left (Ne.symm hk)
            rw [List.takeWhile_cons_of_pos (by simpa using hk), List.take_succ_cons, List.mem_cons, List.length_cons,
              ih hkeys n, or_iff_right (Ne.symm hk), Nat.succ_lt_succ_iff]

/-- A key is among the last `n` when fewer than `n` other keys were used after it. -/
theorem mem_take_recency_iff {key : α} {uses : List α} (h : key ∈ uses) (n : Nat) :
    key ∈ (recency uses).take n ↔ usedSince key uses < n := by
  rw [mem_take_iff (mem_recency.mpr h), usedSince_eq]

theorem take_filter_of_mem {key : α} {keys : List α} (hnodup : keys.Nodup) {n : Nat} (h : key ∈ keys.take (n + 1)) :
    (keys.filter (· ≠ key)).take n = (keys.take (n + 1)).filter (· ≠ key) := by
  induction keys generalizing n with
  | nil => cases h
  | cons k keys ih =>
      rw [List.nodup_cons] at hnodup
      by_cases hk : k = key
      · subst hk
        have hkeep (l : List α) (hl : k ∉ l) : l.filter (· ≠ k) = l :=
          List.filter_eq_self.mpr (fun x hx => decide_eq_true (fun hxk => hl (hxk ▸ hx)))
        rw [List.filter_cons_of_neg (by simp), hkeep keys hnodup.1, List.take_succ_cons, List.filter_cons_of_neg (by simp),
          hkeep _ (fun hmem => hnodup.1 (List.mem_of_mem_take hmem))]
      · rw [List.take_succ_cons] at h ⊢
        rw [List.filter_cons_of_pos (by simpa using hk), List.filter_cons_of_pos (by simpa using hk)]
        have htail := (List.mem_cons.mp h).resolve_left (Ne.symm hk)
        cases n with
        | zero => cases htail
        | succ n => rw [List.take_succ_cons, ih hnodup.2 htail]

theorem take_filter_of_notMem {key : α} {keys : List α} {n : Nat} (h : key ∉ keys.take n) :
    (keys.filter (· ≠ key)).take n = keys.take n := by
  induction keys generalizing n with
  | nil => rfl
  | cons k keys ih =>
      cases n with
      | zero => rfl
      | succ n =>
          rw [List.take_succ_cons, List.mem_cons, not_or] at h
          rw [List.filter_cons_of_pos (by simpa using Ne.symm h.1), List.take_succ_cons, List.take_succ_cons, ih h.2]

/-- A key that is kept comes to the front. -/
theorem take_recency_of_mem {key : α} {uses : List α} {n : Nat} (h : key ∈ (recency uses).take (n + 1)) :
    (recency (key :: uses)).take (n + 1) = key :: ((recency uses).take (n + 1)).filter (· ≠ key) := by
  rw [recency, List.take_succ_cons, take_filter_of_mem (nodup_recency uses) h]

/-- A key that is not kept comes to the front, and the last one may go. -/
theorem take_recency_of_notMem {key : α} {uses : List α} {n : Nat} (h : key ∉ (recency uses).take (n + 1)) :
    (recency (key :: uses)).take (n + 1) = key :: ((recency uses).take (n + 1)).take n := by
  have htake : ((recency uses).take (n + 1)).take n = (recency uses).take n := by
    rw [List.take_take, min_eq_left (Nat.le_succ n)]
  have hkey : key ∉ (recency uses).take n := by
    rw [← htake]
    exact fun hmem => h (List.mem_of_mem_take hmem)
  rw [recency, List.take_succ_cons, take_filter_of_notMem hkey, htake]

end Room

end SplitSdk.RecencyLists
