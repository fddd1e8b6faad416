import Mathlib.Logic.Relation
import SplitSdk.Interleaving

namespace SplitSdk.ComponentRuns

open Interleaving Relation

section Growth

variable {τ : Type} {turn : τ → τ → Prop} {new : τ → Prop} {ps qs rs : List τ}

/-- Parts take turns of their own and keep their places; others are only added, as new ones. -/
structure Grows (turn : τ → τ → Prop) (new : τ → Prop) (ps qs : List τ) : Prop where
  kept : ∀ (k : Nat) p, ps[k]? = some p → ∃ q, qs[k]? = some q ∧ ReflTransGen turn p q
  added : ∀ (k : Nat) q, qs[k]? = some q → ps[k]? = none → ∃ p, new p ∧ ReflTransGen turn p q

theorem Grows.refl (ps : List τ) : Grows turn new ps ps where
  kept _ p h := ⟨p, h, .refl⟩
  added _ _ h hnone := nomatch h.symm.trans hnone

theorem Grows.trans (h : Grows turn new ps qs) (h' : Grows turn new qs rs) : Grows turn new ps rs where
  kept k p hp := by
    obtain ⟨q, hq, hpq⟩ := h.kept k p hp
    obtain ⟨r, hr, hqr⟩ := h'.kept k q hq
    exact ⟨r, hr, hpq.trans hqr⟩
  added k r hr hnone := by
    cases hq : qs[k]? with
    | none => exact h'.added k r hr hq
    | some q =>
        obtain ⟨p, hnew, hpq⟩ := h.added k q hq hnone
        obtain ⟨r', hr', hqr⟩ := h'.kept k q hq
        obtain rfl := Option.some.inj (hr.symm.trans hr')
        exact ⟨p, hnew, hpq.trans hqr⟩

theorem Grows.set {k : Nat} {p q : τ} (h : ps[k]? = some p) (hturn : turn p q) : Grows turn new ps (ps.set k q) where
  kept j r hr := by
    rcases eq_or_ne k j with rfl | hne
    · obtain rfl := Option.some.inj (h.symm.trans hr)
      exact ⟨q, by rw [List.getElem?_set_self (List.getElem?_eq_some_iff.mp h).1], .single hturn⟩
    · exact ⟨r, by rwa [List.getElem?_set_ne hne], .refl⟩
  added j r hr hnone := by
    rw [List.getElem?_eq_none_iff, ← List.length_set (i := k) (a := q), ← List.getElem?_eq_none_iff] at hnone
    nomatch hr.symm.trans hnone

theorem Grows.push {p : τ} (h : new p) (ps : List τ) : Grows turn new ps (ps ++ [p]) where
  kept k q hq := ⟨q, by rwa [List.getElem?_append_left (List.getElem?_eq_some_iff.mp hq).1], .refl⟩
  added k q hq hnone := by
    rw [List.getElem?_append_right (List.getElem?_eq_none_iff.mp hnone), List.getElem?_singleton] at hq
    split_ifs at hq
    exact ⟨p, h, Option.some.inj hq ▸ .refl⟩

theorem Grows.mapIdx {f : Nat → τ → τ} (h : ∀ k p, ps[k]? = some p → ReflTransGen turn p (f k p)) : Grows turn new ps (ps.mapIdx f) where
  kept k p hp := ⟨f k p, by rw [List.getElem?_mapIdx, hp, Option.map_some], h k p hp⟩
  added k q hq hnone := by
    rw [List.getElem?_mapIdx, hnone] at hq
    nomatch hq

/-- What new parts have and turns preserve, all parts have. -/
theorem Grows.forall {I : τ → Prop} (h : Grows turn new ps qs) (hnew : ∀ p, new p → I p) (hturn : ∀ p q, I p → turn p q → I q)
    (hps : ∀ p ∈ ps, I p) : ∀ q ∈ qs, I q := by
  have hturns : ∀ p q, I p → ReflTransGen turn p q → I q := by
    intro p q hp hpq
    induction hpq with
    | refl => exact hp
    | tail _ hqr ih => exact hturn _ _ ih hqr
  intro q hq
  obtain ⟨k, hk⟩ := List.getElem?_of_mem hq
  cases hp : ps[k]? with
  | none =>
      obtain ⟨p, hp, hpq⟩ := h.added k q hk hp
      exact hturns p q (hnew p hp) hpq
  | some p =>
      obtain ⟨q', hq', hpq⟩ := h.kept k p hp
      obtain rfl := Option.some.inj (hk.symm.trans hq')
      exact hturns p q (hps p (List.mem_of_getElem? hp)) hpq

end Growth

section Runs

variable {σ ε τ : Type} {step : σ → ε → Option σ} {turn : τ → τ → Prop} {new : τ → Prop} {parts : σ → List τ}

theorem run_grows (hstep : ∀ s e t, step s e = some t → Grows turn new (parts s) (parts t)) {s t : σ} {es : List ε}
    (h : run step s es = some t) : Grows turn new (parts s) (parts t) := by
  induction es generalizing s with
  | nil =>
      cases h
      exact .refl _
  | cons e es ih =>
      obtain ⟨u, hu, hrun⟩ := run_cons h
      exact (hstep s e u hu).trans (ih hrun)

end Runs

end SplitSdk.ComponentRuns
