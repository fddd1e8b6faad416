import Mathlib.Data.List.Forall2
import Mathlib.Data.List.Perm.Basic

namespace SplitSdk.Fallible

variable {ε α β : Type}

theorem bind_eq_ok {x : Except ε α} {f : α → Except ε β} {y : β} :
    x >>= f = .ok y ↔ ∃ a, x = .ok a ∧ f a = .ok y := by
  cases x with
  | error e => simp [bind, Except.bind]
  | ok a => simp [bind, Except.bind]

theorem toOption_eq_some {x : Except ε α} {a : α} : x.toOption = some a ↔ x = .ok a := by
  cases x with
  | error e => simp [Except.toOption]
  | ok b => simp [Except.toOption]

theorem mapM_forall₂ (f : α → Except ε β) (xs : List α) (ys : List β) (h : xs.mapM f = .ok ys) :
    List.Forall₂ (fun x y => f x = .ok y) xs ys := by
  induction xs generalizing ys with
  | nil =>
      cases h
      exact .nil
  | cons x xs ih =>
      rw [List.mapM_cons] at h
      obtain ⟨y, hx, h⟩ := bind_eq_ok.mp h
      obtain ⟨zs, hxs, h⟩ := bind_eq_ok.mp h
      cases h
      exact .cons hx (ih zs hxs)

theorem mapM_of_forall₂ {f : α → Except ε β} {xs : List α} {ys : List β} (h : List.Forall₂ (fun x y => f x = .ok y) xs ys) :
    xs.mapM f = .ok ys := by
  induction h with
  | nil => rfl
  | cons hx _ ih =>
      rw [List.mapM_cons, hx, ih]
      rfl

/-- The results of a list in another order are its results in another order. -/
theorem mapM_perm {f : α → Except ε β} {xs xs' : List α} {ys : List β} (hperm : xs'.Perm xs) (h : xs.mapM f = .ok ys) :
    ∃ ys', xs'.mapM f = .ok ys' ∧ ys'.Perm ys := by
  obtain ⟨ys', hall, hys⟩ := List.perm_comp_forall₂ hperm (mapM_forall₂ f xs ys h)
  exact ⟨ys', mapM_of_forall₂ hall, hys⟩

theorem ok_of_mapM {f : α → Except ε β} {xs : List α} {ys : List β} (h : xs.mapM f = .ok ys) :
    ∀ x ∈ xs, ∃ y, f x = .ok y := by
  have hall := mapM_forall₂ f xs ys h
  clear h
  induction hall with
  | nil => simp
  | cons hx _ ih => exact List.forall_mem_cons.mpr ⟨⟨_, hx⟩, ih⟩

theorem mapM_eq_map (f : α → Except ε β) (g : α → β) (xs : List α) (h : ∀ x ∈ xs, f x = .ok (g x)) :
    xs.mapM f = .ok (xs.map g) := by
  induction xs with
  | nil => rfl
  | cons x xs ih =>
      rw [List.mapM_cons, h x List.mem_cons_self, ih (fun y hy => h y (List.mem_cons_of_mem _ hy))]
      rfl

theorem forall_of_mapM {p : β → Prop} {f : α → Except ε β} {xs : List α} {ys : List β}
    (hf : ∀ x ∈ xs, ∀ y, f x = .ok y → p y) (h : xs.mapM f = .ok ys) : ∀ y ∈ ys, p y := by
  have hall := mapM_forall₂ f xs ys h
  clear h
  induction hall with
  | nil => simp
  | cons hx _ ih =>
      exact List.forall_mem_cons.mpr ⟨hf _ List.mem_cons_self _ hx,
        ih (fun x hx => hf x (List.mem_cons_of_mem _ hx))⟩

section Checks

/-- A check that fails when `T`, and otherwise says whether `S`. -/
inductive Settles (S T : Prop) : Except ε Bool → Prop
  | ok {holds : Bool} (h : holds ↔ S) (hclear : ¬T) : Settles S T (.ok holds)
  | error (e : ε) (h : T) (hnot : ¬S) : Settles S T (.error e)

/-- Some element has `T`, and all before it have `S`. -/
inductive FirstOf (S T : α → Prop) : List α → Prop
  | here {x : α} {xs : List α} (h : T x) : FirstOf S T (x :: xs)
  | later {x : α} {xs : List α} (h : S x) (hrest : FirstOf S T xs) : FirstOf S T (x :: xs)

theorem firstOf_iff {S T : α → Prop} {xs : List α} :
    FirstOf S T xs ↔ ∃ before x after, xs = before ++ x :: after ∧ (∀ y ∈ before, S y) ∧ T x := by
  constructor
  · intro h
    induction h with
    | here h => exact ⟨[], _, _, rfl, by simp, h⟩
    | later h _ ih =>
        obtain ⟨before, x, after, rfl, hbefore, hx⟩ := ih
        exact ⟨_ :: before, x, after, rfl, List.forall_mem_cons.mpr ⟨h, hbefore⟩, hx⟩
  · rintro ⟨before, x, after, rfl, hbefore, hx⟩
    induction before with
    | nil => exact .here hx
    | cons y before ih =>
        rw [List.forall_mem_cons] at hbefore
        exact .later hbefore.1 (ih hbefore.2)

theorem firstOf_cons {S T : α → Prop} {x : α} {xs : List α} :
    FirstOf S T (x :: xs) ↔ T x ∨ S x ∧ FirstOf S T xs := by
  constructor
  · intro h
    cases h with
    | here h => exact .inl h
    | later h hrest => exact .inr ⟨h, hrest⟩
  · rintro (h | ⟨h, hrest⟩)
    · exact .here h
    · exact .later h hrest

theorem Settles.congr {S S' T T' : Prop} {x : Except ε Bool} (h : Settles S T x) (hS : S ↔ S') (hT : T ↔ T') :
    Settles S' T' x := by
  rw [← hS, ← hT]
  exact h

/-- The checks of a list stop at the first one that fails or does not hold. -/
theorem settles_allM {S T : α → Prop} {f : α → Except ε Bool} {xs : List α} (h : ∀ x ∈ xs, Settles (S x) (T x) (f x)) :
    Settles (∀ x ∈ xs, S x) (FirstOf S T xs) (xs.allM f) := by
  induction xs with
  | nil => exact .ok (by simp) (fun h => by cases h)
  | cons x xs ih =>
      rw [List.forall_mem_cons] at h
      have hrest := ih h.2
      rw [List.allM_cons, List.forall_mem_cons, firstOf_cons]
      generalize hx : f x = check at *
      cases h.1 with
      | error e hT hS => exact .error e (.inl hT) (fun hall => hS hall.1)
      | @ok holds hS hT =>
          cases holds with
          | false =>
              have hnot : ¬S x := fun hx => Bool.false_ne_true (hS.mpr hx)
              exact .ok (iff_of_false Bool.false_ne_true (fun hall => hnot hall.1))
                (not_or.mpr ⟨hT, fun hlater => hnot hlater.1⟩)
          | true =>
              have hholds := hS.mp rfl
              exact hrest.congr (by simp [hholds]) (by simp [hholds, hT])

end Checks

end SplitSdk.Fallible
