import Mathlib.Order.Basic

namespace SplitSdk.BoundedLoop

section Definitions

variable {σ : Type} (guard : σ → Prop) [DecidablePred guard] (body : σ → σ)

/-- `while (guard) body`, stopped after a number of turns. -/
def loop : Nat → σ → σ
  | 0, s => s
  | limit + 1, s => if guard s then loop limit (body s) else s

/-- The turns the loop takes before its guard fails, counted up to `fuel`. -/
def turns : Nat → σ → Nat
  | 0, _ => 0
  | fuel + 1, s => if guard s then turns fuel (body s) + 1 else 0

def Ended (limit : Nat) (s : σ) : Prop := ¬guard (loop guard body limit s)

end Definitions

variable {σ : Type} {guard : σ → Prop} [DecidablePred guard] {body : σ → σ}

theorem loop_of_not_guard {s : σ} (h : ¬guard s) (limit : Nat) : loop guard body limit s = s := by
  cases limit with
  | zero => rfl
  | succ limit => exact if_neg h

theorem loop_succ_of_guard {s : σ} (h : guard s) (limit : Nat) :
    loop guard body (limit + 1) s = loop guard body limit (body s) := if_pos h

theorem ended_of_not_guard {s : σ} (h : ¬guard s) (limit : Nat) : Ended guard body limit s := by
  rwa [Ended, loop_of_not_guard h]

theorem ended_succ {s : σ} (h : guard s) (limit : Nat) :
    Ended guard body (limit + 1) s ↔ Ended guard body limit (body s) := by
  rw [Ended, Ended, loop_succ_of_guard h]

theorem loop_invariant {I : σ → Prop} (hbody : ∀ s, I s → guard s → I (body s))
    (limit : Nat) (s : σ) (hs : I s) : I (loop guard body limit s) := by
  induction limit generalizing s with
  | zero => exact hs
  | succ limit ih =>
      by_cases h : guard s
      · rw [loop_succ_of_guard h]
        exact ih (body s) (hbody s hs h)
      · rwa [loop_of_not_guard h]

/-- A limit stops the loop early exactly when the loop needs more turns. -/
theorem ended_iff_turns_le (fuel limit : Nat) (s : σ) (hfuel : Ended guard body fuel s) :
    Ended guard body limit s ↔ turns guard body fuel s ≤ limit := by
  induction fuel generalizing limit s with
  | zero => exact iff_of_true (ended_of_not_guard hfuel limit) (Nat.zero_le _)
  | succ fuel ih =>
      by_cases h : guard s
      · rw [turns, if_pos h]
        cases limit with
        | zero => exact iff_of_false (fun he => he h) (by omega)
        | succ limit =>
            rw [ended_succ h, ih limit (body s) ((ended_succ h fuel).mp hfuel)]
            omega
      · rw [turns, if_neg h]
        exact iff_of_true (ended_of_not_guard h limit) (Nat.zero_le _)

/-- A measure that every turn lowers bounds the turns. -/
theorem ended_of_measure {I : σ → Prop} (hbody : ∀ s, I s → guard s → I (body s)) (m : σ → Nat)
    (hm : ∀ s, I s → guard s → m (body s) < m s) (limit : Nat) (s : σ) (hs : I s)
    (hlimit : m s ≤ limit) : Ended guard body limit s := by
  induction limit generalizing s with
  | zero =>
      intro h
      have := hm s hs h
      omega
  | succ limit ih =>
      by_cases h : guard s
      · rw [ended_succ h]
        have := hm s hs h
        exact ih (body s) (hbody s hs h) (by omega)
      · exact ended_of_not_guard h _

end SplitSdk.BoundedLoop
