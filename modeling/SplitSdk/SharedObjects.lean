import Mathlib.Data.List.Basic
import Mathlib.Data.List.Range

namespace SplitSdk.SharedObjects

/-- The place of an object; whoever holds it sees what the object is by now. -/
abbrev Ref := Nat

variable {α : Type} (objects : List α) (refs : List Ref)

def read : List (Option α) := refs.map (fun ref => objects[ref]?)

/-- The places that new objects get behind the ones that are there. -/
def places (added : List α) : List Ref := List.range' objects.length added.length

def Placed : Prop := ∀ ref ∈ refs, ref < objects.length

variable {objects refs}

theorem read_append (h : Placed objects refs) (added : List α) : read (objects ++ added) refs = read objects refs := by
  refine List.map_congr_left (fun ref href => ?_)
  exact List.getElem?_append_left (h ref href)

theorem read_places (objects added : List α) : read (objects ++ added) (places objects added) = added.map some := by
  apply List.ext_getElem?
  intro i
  rw [read, places, List.getElem?_map, List.getElem?_map]
  rcases Nat.lt_or_ge i added.length with hlt | hge
  · rw [List.getElem?_range' hlt, Nat.one_mul, Option.map_some, List.getElem?_append_right (Nat.le_add_right _ _),
      Nat.add_sub_cancel_left, List.getElem?_eq_getElem hlt]
    rfl
  · rw [List.getElem?_eq_none hge, List.getElem?_eq_none (by rwa [List.length_range'])]
    rfl

theorem mem_places {added : List α} {ref : Ref} :
    ref ∈ places objects added ↔ objects.length ≤ ref ∧ ref < objects.length + added.length :=
  List.mem_range'_1

theorem Placed.append (h : Placed objects refs) (added : List α) : Placed (objects ++ added) refs := by
  intro ref href
  rw [List.length_append]
  exact Nat.lt_add_right _ (h ref href)

theorem placed_places (objects added : List α) : Placed (objects ++ added) (places objects added) := by
  intro ref href
  rw [List.length_append]
  exact (mem_places.mp href).2

theorem notMem_places {added : List α} (h : Placed objects refs) {ref : Ref} (href : ref ∈ refs) : ref ∉ places objects added :=
  fun hmem => Nat.not_lt.mpr (mem_places.mp hmem).1 (h ref href)

theorem Placed.modify (h : Placed objects refs) (ref : Ref) (f : α → α) : Placed (objects.modify ref f) refs := by
  intro other hother
  rw [List.length_modify]
  exact h other hother

/-- Whoever holds a place sees the object there change. -/
theorem read_modify_iff (ref : Ref) (f : α → α) :
    read (objects.modify ref f) refs = read objects refs ↔ (ref ∈ refs → ∀ object, objects[ref]? = some object → f object = object) := by
  rw [read, read, List.map_inj_left]
  constructor
  · intro hall href object hobject
    have hsame := hall ref href
    rw [List.getElem?_modify_eq, hobject] at hsame
    exact Option.some.inj hsame
  · intro hkept other hother
    rcases eq_or_ne ref other with rfl | hne
    · rw [List.getElem?_modify_eq]
      cases hobject : objects[ref]? with
      | none => rfl
      | some object => exact congrArg some (hkept hother object hobject)
    · exact List.getElem?_modify_ne f objects hne

end SplitSdk.SharedObjects
