import SplitSdk.NumberText
import Mathlib.Data.List.ReduceOption
import Mathlib.Tactic.NormNum

namespace SplitSdk.PlatformTimers

open Numbers NumberText

section Definitions

variable {α : Type}

def maxDelay : ℚ := 2147483647

/-- The delay that a timer gets: whole milliseconds, and 1 for a delay that is below 1, above the limit or no number. -/
def effectiveDelay : JsNumber → ℚ
  | .finite q => if 1 ≤ q ∧ q ≤ maxDelay then ⌊q⌋ else 1
  | _ => 1

structure Timer (α : Type) where
  due : ℚ
  callback : α
  deriving DecidableEq

/-- All timers by their handles. One that has fired or was cleared is `none`. -/
abbrev Timers (α : Type) := List (Option (Timer α))

/-- `setTimeout`. The new timer has the next handle. -/
def setTimeout (timers : Timers α) (now : ℚ) (callback : α) (ms : JsNumber) : Timers α :=
  timers ++ [some ⟨now + effectiveDelay ms, callback⟩]

def clearTimeout (timers : Timers α) (handle : Nat) : Timers α := timers.set handle none

/-- A timer may fire from its due time on. -/
def fire (timers : Timers α) (now : ℚ) (handle : Nat) : Option (α × Timers α) :=
  ((timers[handle]?.join).filter (fun timer => timer.due ≤ now)).map
    (fun timer => (timer.callback, clearTimeout timers handle))

/-- The callbacks that are still to come. -/
def armed (timers : Timers α) : List α := timers.reduceOption.map Timer.callback

/-- `Math.max(0, due - now)`. -/
def delayUntil (due : JsNumber) (now : ℚ) : JsNumber := JsNumber.max (.finite 0) (due.sub (.finite now))

/-- The rest of the time until `due` is a whole number of milliseconds that a timer can wait, or at most one of them. -/
def InRange (due : JsNumber) (now : ℚ) : Prop :=
  match due with
  | .finite q => q - now ≤ 1 ∨ q - now ≤ maxDelay ∧ (q - now).den = 1
  | .infinity negative => negative
  | .nan => True

instance (due : JsNumber) (now : ℚ) : Decidable (InRange due now) :=
  match due with
  | .finite _ => inferInstanceAs (Decidable (_ ∨ _ ∧ _))
  | .infinity negative => inferInstanceAs (Decidable (negative = true))
  | .nan => inferInstanceAs (Decidable True)

/-- `t` is not before `due`, which nothing is when `due` is no number. -/
def NotBefore (t : ℚ) (due : JsNumber) : Prop := (JsNumber.finite t).lt due = false

instance (t : ℚ) (due : JsNumber) : Decidable (NotBefore t due) := inferInstanceAs (Decidable (_ = _))

end Definitions

section Delays

theorem one_le_effectiveDelay (ms : JsNumber) : 1 ≤ effectiveDelay ms := by
  unfold effectiveDelay
  split
  · split_ifs with h
    · exact_mod_cast Int.le_floor.mpr (by exact_mod_cast h.1)
    · exact le_rfl
  · exact le_rfl

/-- A whole delay in range is kept. -/
theorem effectiveDelay_delayUntil {q now : ℚ} (hpos : 1 ≤ q - now) (hmax : q - now ≤ maxDelay)
    (hwhole : (q - now).den = 1) :
    effectiveDelay (delayUntil (.finite q) now) = q - now := by
  obtain ⟨n, hn⟩ : ∃ n : Int, q - now = n :=
    ⟨(q - now).num, (Rat.coe_int_num_of_den_eq_one hwhole).symm⟩
  have hlow : 1 ≤ n := by exact_mod_cast hn ▸ hpos
  have hhigh : n ≤ 2147483647 := by
    rw [hn, maxDelay] at hmax
    exact_mod_cast hmax
  have hdouble : fl (q - now) = .finite n := by
    have hexact : IsDouble (.finite ((n : ℚ) * 2 ^ (0 : Int))) := by
      have habs : |n| = n := abs_of_pos (by omega)
      refine isDouble_of_lt (by omega) (by omega) ?_
      rw [zpow_zero, mul_one, ← Int.cast_abs, habs]
      calc ((n : Int) : ℚ) ≤ ((2147483647 : Int) : ℚ) := by exact_mod_cast hhigh
        _ < 2 ^ 31 := by norm_num
        _ ≤ 2 ^ 1024 := pow_le_pow_right₀ (by norm_num) (by omega)
    rw [zpow_zero, mul_one] at hexact
    rw [hn]
    exact hexact
  have hmaximum : delayUntil (.finite q) now = .finite n := by
    have hlt : (JsNumber.finite 0).lt (.finite n) = true := decide_eq_true (by exact_mod_cast hlow)
    rw [delayUntil, JsNumber.sub, hdouble, JsNumber.max, if_neg (by simp), hlt]
    rfl
  rw [hmaximum, hn, effectiveDelay, if_pos ⟨by exact_mod_cast hlow, by rw [maxDelay]; exact_mod_cast hhigh⟩,
    Int.floor_intCast]

/-- A timer that was set for a time in range does not fire before it. -/
theorem notBefore_of_inRange {due : JsNumber} {now : ℚ} (h : InRange due now) :
    NotBefore (now + effectiveDelay (delayUntil due now)) due := by
  have hone := one_le_effectiveDelay (delayUntil due now)
  cases due with
  | nan => rfl
  | infinity negative =>
      obtain rfl : negative = true := h
      rfl
  | finite q =>
      refine decide_eq_false (not_lt.mpr ?_)
      rcases h with hsoon | ⟨hmax, hwhole⟩
      · linarith
      · rcases le_total (q - now) 1 with hsoon | hlater
        · linarith
        · rw [effectiveDelay_delayUntil hlater hmax hwhole]
          linarith

theorem NotBefore.mono {t u : ℚ} {due : JsNumber} (h : NotBefore t due) (htu : t ≤ u) :
    NotBefore u due := by
  cases due with
  | nan => rfl
  | infinity negative => exact h
  | finite q => exact decide_eq_false (not_lt.mpr ((not_lt.mp (of_decide_eq_false h)).trans htu))

end Delays

section Timers

variable {α : Type} {timers rest : Timers α} {now : ℚ} {callback : α}

theorem armed_setTimeout (timers : Timers α) (now : ℚ) (callback : α) (ms : JsNumber) :
    armed (setTimeout timers now callback ms) = armed timers ++ [callback] := by
  rw [armed, setTimeout, List.reduceOption_append, List.map_append]
  rfl

theorem mem_setTimeout {ms : JsNumber} {timer : Timer α}
    (h : some timer ∈ setTimeout timers now callback ms) :
    some timer ∈ timers ∨ timer = ⟨now + effectiveDelay ms, callback⟩ := by
  rcases List.mem_append.mp h with hold | hnew
  · exact .inl hold
  · exact .inr (Option.some.inj (List.mem_singleton.mp hnew))

theorem mem_clearTimeout {handle : Nat} {timer : Timer α}
    (h : some timer ∈ clearTimeout timers handle) :
    some timer ∈ timers := by
  rcases List.mem_or_eq_of_mem_set h with hold | hnew
  · exact hold
  · nomatch hnew

theorem mem_armed {timer : Timer α} (h : some timer ∈ timers) : timer.callback ∈ armed timers :=
  List.mem_map_of_mem (List.reduceOption_mem_iff.mpr h)

theorem armed_clearTimeout_sublist (timers : Timers α) (handle : Nat) :
    (armed (clearTimeout timers handle)).Sublist (armed timers) := by
  refine List.Sublist.map _ ?_
  unfold clearTimeout
  induction timers generalizing handle with
  | nil => exact .refl _
  | cons timer timers ih =>
      cases handle with
      | zero =>
          rw [List.set_cons_zero, List.reduceOption_cons_of_none]
          cases timer with
          | none => exact .refl _
          | some timer => exact List.sublist_cons_self _ _
      | succ handle =>
          cases timer with
          | none => exact ih handle
          | some timer => exact (ih handle).cons_cons timer

/-- The timer that has fired is gone, and no other. -/
theorem armed_perm {handle : Nat} {timer : Timer α} (h : timers[handle]? = some (some timer)) :
    (armed timers).Perm (timer.callback :: armed (clearTimeout timers handle)) := by
  have hperm : timers.reduceOption.Perm (timer :: (clearTimeout timers handle).reduceOption) := by
    unfold clearTimeout
    induction timers generalizing handle with
    | nil => nomatch h
    | cons first timers ih =>
        cases handle with
        | zero =>
            obtain rfl : first = some timer := Option.some.inj h
            exact .refl _
        | succ handle =>
            cases first with
            | none => exact ih h
            | some first => exact ((ih h).cons first).trans (.swap _ _ _)
  exact hperm.map Timer.callback

theorem fire_eq_some {handle : Nat} (h : fire timers now handle = some (callback, rest)) :
    ∃ timer, timers[handle]? = some (some timer) ∧ timer.due ≤ now ∧ callback = timer.callback ∧
      rest = clearTimeout timers handle := by
  obtain ⟨timer, htimer, heq⟩ := Option.map_eq_some_iff.mp h
  obtain ⟨hjoin, hdue⟩ := Option.filter_eq_some_iff.mp htimer
  exact ⟨timer, Option.join_eq_some_iff.mp hjoin, of_decide_eq_true hdue, (Prod.mk.inj heq).1.symm,
    (Prod.mk.inj heq).2.symm⟩

end Timers

end SplitSdk.PlatformTimers
