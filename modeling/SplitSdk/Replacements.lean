import Mathlib.Data.List.Infix
import Mathlib.Data.List.Nodup

namespace SplitSdk.Replacements

variable {α : Type} [DecidableEq α]

section Definitions

def consHead (c : α) : List (List α) → List (List α)
  | [] => [[c]]
  | piece :: pieces => (c :: piece) :: pieces

/-- The pieces between the occurrences of a separator, which are found from left to right and do not overlap. The first
argument counts what is left of an occurrence. -/
def splitFrom (sep : List α) : Nat → List α → List (List α)
  | _, [] => [[]]
  | skip + 1, _ :: cs => splitFrom sep skip cs
  | 0, c :: cs =>
      if sep <+: c :: cs then [] :: splitFrom sep (sep.length - 1) cs else consHead c (splitFrom sep 0 cs)

def split (sep : List α) : List α → List (List α) := splitFrom sep 0

def replaceAll (old new s : List α) : List α := new.intercalate (split old s)

def substitute (dictionary : List (α × List α)) (c : α) : List α := (dictionary.lookup c).getD [c]

end Definitions

section Joining

variable (sep : List α) {f : α → List α} {old new s : List α}

omit [DecidableEq α] in
theorem intercalate_cons (piece : List α) {pieces : List (List α)} (h : pieces ≠ []) :
    sep.intercalate (piece :: pieces) = piece ++ sep ++ sep.intercalate pieces := by
  obtain ⟨next, pieces, rfl⟩ := List.exists_cons_of_ne_nil h
  simp [List.intercalate, List.intersperse]

omit [DecidableEq α] in
theorem intercalate_consHead (c : α) {pieces : List (List α)} (h : pieces ≠ []) :
    sep.intercalate (consHead c pieces) = c :: sep.intercalate pieces := by
  obtain ⟨piece, pieces, rfl⟩ := List.exists_cons_of_ne_nil h
  cases pieces with
  | nil => simp [consHead, List.intercalate]
  | cons next pieces => simp [consHead, List.intercalate, List.intersperse]

theorem splitFrom_ne_nil (skip : Nat) (s : List α) : splitFrom sep skip s ≠ [] := by
  induction s generalizing skip with
  | nil => simp [splitFrom]
  | cons c cs ih =>
      cases skip with
      | succ skip => exact ih skip
      | zero =>
          rw [splitFrom]
          split_ifs
          · exact List.cons_ne_nil _ _
          · obtain ⟨piece, pieces, h⟩ := List.exists_cons_of_ne_nil (ih 0)
            rw [h]
            exact List.cons_ne_nil _ _

theorem intercalate_splitFrom {sep : List α} (hsep : sep ≠ []) (skip : Nat) (s : List α) :
    sep.intercalate (splitFrom sep skip s) = s.drop skip := by
  induction s generalizing skip with
  | nil => simp [splitFrom, List.intercalate]
  | cons c cs ih =>
      cases skip with
      | succ skip => exact ih skip
      | zero =>
          rw [splitFrom]
          split_ifs with hstarts
          · rw [intercalate_cons sep [] (splitFrom_ne_nil sep _ cs), ih, List.nil_append]
            have hlength : sep.length = sep.length - 1 + 1 := (Nat.succ_pred (List.length_pos_iff.mpr hsep).ne').symm
            have hwhole := List.prefix_iff_eq_append.mp hstarts
            rw [hlength, List.drop_succ_cons] at hwhole
            exact hwhole
          · rw [intercalate_consHead sep c (splitFrom_ne_nil sep 0 cs), ih]
            rfl

omit [DecidableEq α] in
theorem flatMap_intercalate (f : α → List α) (pieces : List (List α)) :
    (sep.intercalate pieces).flatMap f = (sep.flatMap f).intercalate (pieces.map (fun piece => piece.flatMap f)) := by
  induction pieces with
  | nil => rfl
  | cons piece pieces ih =>
      rcases eq_or_ne pieces [] with rfl | hne
      · simp [List.intercalate]
      · rw [List.map_cons, intercalate_cons sep piece hne, intercalate_cons _ _ (by simpa using hne), List.flatMap_append,
          List.flatMap_append, ih]

/-- A replacement is not seen by a map that takes the old text and the new one to the same. -/
theorem flatMap_replaceAll (hold : old ≠ []) (h : new.flatMap f = old.flatMap f) (s : List α) :
    (replaceAll old new s).flatMap f = s.flatMap f := by
  have hwhole := congrArg (fun s => s.flatMap f) (intercalate_splitFrom hold 0 s)
  rw [flatMap_intercalate, List.drop_zero] at hwhole
  rw [replaceAll, flatMap_intercalate, h]
  exact hwhole

theorem forall_mem_replaceAll {P : α → Prop} [DecidablePred P] (hold : old ≠ []) (hp : ∀ c ∈ old, P c)
    (hnew : ∀ c ∈ new, P c) (hs : ∀ c ∈ s, P c) : ∀ c ∈ replaceAll old new s, P c := by
  have hnil (t : List α) : t.flatMap (fun c => if P c then [] else [c]) = [] ↔ ∀ c ∈ t, P c := by
    rw [List.flatMap_eq_nil_iff]
    exact forall₂_congr (fun c _ => by split_ifs with h <;> simp [h])
  rw [← hnil, flatMap_replaceAll hold (((hnil new).mpr hnew).trans ((hnil old).mpr hp).symm)]
  exact (hnil s).mpr hs

theorem replaceAll_singleton (c : α) (new s : List α) :
    replaceAll [c] new s = s.flatMap (fun u => if u = c then new else [u]) := by
  unfold replaceAll split
  induction s with
  | nil => simp [splitFrom, List.intercalate]
  | cons u s ih =>
      rw [splitFrom, List.flatMap_cons, ← ih]
      have hne := splitFrom_ne_nil [c] 0 s
      by_cases hu : u = c
      · rw [if_pos (by simp [hu]), if_pos hu]
        exact intercalate_cons new [] hne
      · rw [if_neg (by simpa using fun h => hu h.symm), if_neg hu]
        exact intercalate_consHead new u hne

end Joining

section Dictionaries

variable {dictionary : List (α × List α)}

/-- Codes that no text of the dictionary contains may be replaced one after another, or all at once. -/
theorem foldl_replaceAll (hnodup : (dictionary.map Prod.fst).Nodup)
    (hfresh : ∀ entry ∈ dictionary, ∀ c ∈ entry.2, c ∉ dictionary.map Prod.fst) (s : List α) :
    dictionary.foldl (fun s entry => replaceAll [entry.1] entry.2 s) s = s.flatMap (substitute dictionary) := by
  induction dictionary generalizing s with
  | nil => exact (List.flatMap_singleton' s).symm
  | cons entry dictionary ih =>
      obtain ⟨code, token⟩ := entry
      rw [List.map_cons, List.nodup_cons] at hnodup
      have hrest := ih hnodup.2 (fun entry hentry c hc hmem =>
        hfresh entry (List.mem_cons_of_mem _ hentry) c hc (List.mem_cons_of_mem _ hmem))
      have hkept (t : List α) (ht : ∀ c ∈ t, c ∉ dictionary.map Prod.fst) : t.flatMap (substitute dictionary) = t := by
        have hsame : t.flatMap (substitute dictionary) = t.flatMap (fun c => [c]) :=
          List.flatMap_congr (fun c hc => by
            rw [substitute, List.lookup_eq_none_iff.mpr (fun entry hentry => ?_), Option.getD_none]
            simpa using fun heq : c = entry.1 => ht c hc (heq ▸ List.mem_map_of_mem hentry))
        simpa using hsame
      rw [List.foldl_cons, hrest, replaceAll_singleton, List.flatMap_assoc]
      refine List.flatMap_congr (fun c _ => ?_)
      by_cases hc : c = code
      · rw [if_pos hc, substitute, hc, List.lookup_cons_self, Option.getD_some]
        exact hkept token (fun c hc hmem => hfresh _ List.mem_cons_self c hc (List.mem_cons_of_mem _ hmem))
      · rw [if_neg hc, List.flatMap_singleton, substitute, substitute, List.lookup_cons, beq_false_of_ne hc]

end Dictionaries

end SplitSdk.Replacements
