import Mathlib.Data.List.Basic

namespace SplitSdk.PointerWalks

variable {κ α ε : Type} (next : α → Option κ) (lookup : κ → Except ε α)

/-- Some steps along the pointers from one object to another one, with the keys that are followed and the objects they lead to. -/
inductive Follows : α → List (κ × α) → α → Prop
  | here (a : α) : Follows a [] a
  | step {a b c : α} {k : κ} {rest : List (κ × α)} (hnext : next a = some k) (hlookup : lookup k = .ok b)
      (hrest : Follows b rest c) : Follows a ((k, b) :: rest) c

variable {next lookup} {a b c : α} {k : κ} {xs ys : List (κ × α)}

theorem Follows.snoc (h : Follows next lookup a xs b) (hnext : next b = some k) (hlookup : lookup k = .ok c) :
    Follows next lookup a (xs ++ [(k, c)]) c := by
  induction h with
  | here a => exact .step hnext hlookup (.here c)
  | step hfirst hfound _ ih => exact .step hfirst hfound (ih hnext)

/-- The pointers leave no choice: the longer one of two walks begins with the shorter one. -/
theorem Follows.comparable (h : Follows next lookup a xs b) (h' : Follows next lookup a ys c) : xs <+: ys ∨ ys <+: xs := by
  induction h generalizing ys with
  | here a => exact .inl (List.nil_prefix)
  | step hnext hlookup _ ih =>
      cases h' with
      | here => exact .inr (List.nil_prefix)
      | step hnext' hlookup' hrest' =>
          obtain rfl := Option.some.inj (hnext.symm.trans hnext')
          obtain rfl := Except.ok.inj (hlookup.symm.trans hlookup')
          rcases ih hrest' with hle | hle
          · exact .inl ((List.prefix_cons_inj _).mpr hle)
          · exact .inr ((List.prefix_cons_inj _).mpr hle)

theorem Follows.end_eq (h : Follows next lookup a xs b) (h' : Follows next lookup a xs c) : b = c := by
  induction h with
  | here a =>
      cases h'
      rfl
  | step _ _ _ ih =>
      cases h' with
      | step _ _ hrest' => exact ih hrest'

/-- Behind the first steps of a walk its next key is found. -/
theorem Follows.split (h : Follows next lookup a (xs ++ (k, c) :: ys) b) :
    ∃ mid, Follows next lookup a xs mid ∧ next mid = some k ∧ lookup k = .ok c ∧ Follows next lookup c ys b := by
  induction xs generalizing a with
  | nil =>
      cases h with
      | step hnext hlookup hrest => exact ⟨a, .here a, hnext, hlookup, hrest⟩
  | cons x xs ih =>
      cases h with
      | step hnext hlookup hrest =>
          obtain ⟨mid, hmid, hkey, hfound, hlater⟩ := ih hrest
          exact ⟨mid, .step hnext hlookup hmid, hkey, hfound, hlater⟩

/-- Two walks from one object are the same when neither could be a part of the other one. -/
theorem Follows.eq_of_stops (h : Follows next lookup a xs b) (h' : Follows next lookup a ys c)
    (hstop : ∀ k d rest, next b = some k → lookup k = .ok d → ys ≠ xs ++ (k, d) :: rest)
    (hstop' : ∀ k d rest, next c = some k → lookup k = .ok d → xs ≠ ys ++ (k, d) :: rest) : xs = ys := by
  have hside : ∀ {xs ys : List (κ × α)} {b c : α}, Follows next lookup a xs b → Follows next lookup a ys c →
      (∀ k d rest, next b = some k → lookup k = .ok d → ys ≠ xs ++ (k, d) :: rest) → xs <+: ys → xs = ys := by
    intro xs ys b c h h' hstop hinitial
    obtain ⟨rest, rfl⟩ := hinitial
    cases rest with
    | nil => exact (List.append_nil xs).symm
    | cons x rest =>
        obtain ⟨mid, hmid, hkey, hfound, -⟩ := h'.split
        obtain rfl := h.end_eq hmid
        exact (hstop _ _ _ hkey hfound rfl).elim
  rcases h.comparable h' with hle | hle
  · exact hside h h' hstop hle
  · exact (hside h' h hstop' hle).symm

theorem Follows.eq_of_ends (h : Follows next lookup a xs b) (h' : Follows next lookup a ys c) (hb : next b = none)
    (hc : next c = none) : xs = ys := by
  refine h.eq_of_stops h' (fun k d rest hk => ?_) (fun k d rest hk => ?_)
  · exact absurd (hb.symm.trans hk) (Option.some_ne_none k).symm
  · exact absurd (hc.symm.trans hk) (Option.some_ne_none k).symm

/-- A walk that comes to an end does not come back to the key it started from, or it would be a part of itself. -/
theorem Follows.notMem_keys (h : Follows next lookup a xs b) (hend : next b = none) (hstart : lookup k = .ok a) :
    k ∉ xs.map Prod.fst := by
  intro hkeys
  obtain ⟨⟨k, d⟩, hmem, rfl⟩ := List.mem_map.mp hkeys
  obtain ⟨before, after, rfl⟩ := List.append_of_mem hmem
  obtain ⟨mid, -, -, hfound, hlater⟩ := h.split
  obtain rfl := Except.ok.inj (hstart.symm.trans hfound)
  have heq := congrArg List.length (h.eq_of_ends hlater hend hend)
  rw [List.length_append, List.length_cons] at heq
  omega

theorem Follows.nodup (h : Follows next lookup a xs b) (hend : next b = none) : (xs.map Prod.fst).Nodup := by
  induction h with
  | here a => exact List.nodup_nil
  | step hnext hlookup hrest ih => exact List.nodup_cons.mpr ⟨hrest.notMem_keys hend hlookup, ih hend⟩

end SplitSdk.PointerWalks
