import Mathlib.Data.List.Basic

namespace SplitSdk.GrowingLog

variable {α β ι : Type}

section Built

/-- Every entry fits the entries before it, of which the first ones are given. -/
def BuiltOn (fits : List α → α → Prop) : List α → List α → Prop
  | _, [] => True
  | before, entry :: entries => fits before entry ∧ BuiltOn fits (before ++ [entry]) entries

/-- A log whose entries all fit what was there when they came. -/
def Built (fits : List α → α → Prop) (log : List α) : Prop := BuiltOn fits [] log

variable {fits : List α → α → Prop} {before log more : List α} {entry : α}

theorem builtOn_append : BuiltOn fits before (log ++ more) ↔
    BuiltOn fits before log ∧ BuiltOn fits (before ++ log) more := by
  induction log generalizing before with
  | nil => simp [BuiltOn]
  | cons a log ih =>
      have hassoc : before ++ [a] ++ log = before ++ a :: log := by simp
      rw [List.cons_append, BuiltOn, BuiltOn, ih, hassoc, and_assoc]

/-- All that matters when an entry is appended is whether it fits the log as it is then. -/
theorem built_push : Built fits (log ++ [entry]) ↔ Built fits log ∧ fits log entry := by
  rw [Built, builtOn_append, List.nil_append]
  simp [Built, BuiltOn]

theorem built_nil : Built fits [] := trivial

theorem Built.of_prefix (h : Built fits log) (hbefore : more <+: log) : Built fits more := by
  obtain ⟨rest, rfl⟩ := hbefore
  exact (builtOn_append.mp h).1

theorem Built.fits_at (h : Built fits log) {i : Nat} (hi : log[i]? = some entry) :
    fits (log.take i) entry := by
  obtain ⟨hlt, rfl⟩ := List.getElem?_eq_some_iff.mp hi
  have hsplit : log.take i ++ [log[i]] = log.take (i + 1) := by simp
  have := h.of_prefix (hsplit ▸ List.take_prefix (i + 1) log)
  exact (built_push.mp this).2

/-- Where an entry is determined by its content and the entries before it, two logs with the same contents are equal. -/
theorem Built.eq_of_contents {content : α → ι}
    (hdet : ∀ before a b, fits before a → fits before b → content a = content b → a = b)
    {log log' : List α} (h : Built fits log) (h' : Built fits log')
    (heq : log.map content = log'.map content) : log = log' := by
  have hon : ∀ before, BuiltOn fits before log → BuiltOn fits before log' → log = log' := by
    clear h h'
    induction log generalizing log' with
    | nil =>
        intro _ _ _
        exact (List.map_eq_nil_iff.mp heq.symm).symm
    | cons a log ih =>
        intro before h h'
        cases log' with
        | nil => cases heq
        | cons b log' =>
            rw [List.map_cons, List.map_cons, List.cons.injEq] at heq
            obtain rfl := hdet before a b h.1 h'.1 heq.1
            rw [ih heq.2 (before ++ [a]) h.2 h'.2]
  exact hon [] h h'

end Built

section Reads

/-- A value was read when the log had not yet grown to what it is now. -/
def ReadOf (view : List α → β) (log : List α) (b : β) : Prop := ∃ before, before <+: log ∧ view before = b

variable {view : List α → β} {log : List α} {b : β}

theorem readOf_now (view : List α → β) (log : List α) : ReadOf view log (view log) := ⟨log, List.prefix_rfl, rfl⟩

theorem ReadOf.mono {log' : List α} (h : ReadOf view log b) (hgrown : log <+: log') : ReadOf view log' b := by
  obtain ⟨before, hbefore, rfl⟩ := h
  exact ⟨before, hbefore.trans hgrown, rfl⟩

theorem ReadOf.push (h : ReadOf view log b) (entry : α) : ReadOf view (log ++ [entry]) b :=
  h.mono (List.prefix_append log [entry])

end Reads

end SplitSdk.GrowingLog
