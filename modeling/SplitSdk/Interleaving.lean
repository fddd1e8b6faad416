import Mathlib.Algebra.BigOperators.Group.List.Basic
import Mathlib.Algebra.GroupWithZero.Nat
import Mathlib.Data.List.GetD

namespace SplitSdk.Interleaving

section Runs

variable {σ ε : Type} (step : σ → ε → Option σ)

/-- Take the steps of a schedule one after another; a step that is not enabled ends the run. -/
def run : σ → List ε → Option σ
  | s, [] => some s
  | s, e :: es => (step s e).bind (fun t => run t es)

/-- Every step of the schedule is taken in a state that allows it. -/
def Allowed (ok : σ → ε → Prop) : σ → List ε → Prop
  | _, [] => True
  | s, e :: es => ok s e ∧ ∀ t, step s e = some t → Allowed ok t es

instance decidableAllowed (ok : σ → ε → Prop) [∀ s e, Decidable (ok s e)] :
    ∀ s es, Decidable (Allowed step ok s es)
  | _, [] => .isTrue trivial
  | s, e :: es =>
      match h : step s e with
      | none => decidable_of_iff (ok s e) ⟨fun hok => ⟨hok, by simp [h]⟩, And.left⟩
      | some t =>
          have := decidableAllowed ok t es
          decidable_of_iff (ok s e ∧ Allowed step ok t es) (by simp [Allowed, h])

variable {step}

theorem run_nil (s : σ) : run step s [] = some s := rfl

theorem run_cons {s t : σ} {e : ε} {es : List ε} (h : run step s (e :: es) = some t) :
    ∃ u, step s e = some u ∧ run step u es = some t := by
  simpa only [run, Option.bind_eq_some_iff] using h

theorem run_step {s t u : σ} {e : ε} {es : List ε} (h : step s e = some u)
    (hrun : run step u es = some t) :
    run step s (e :: es) = some t := by
  rw [run, h]
  exact hrun

/-- What holds after a step that can be taken. -/
theorem forall_next_iff {P : σ → Prop} {s t : σ} {e : ε} (h : step s e = some t) :
    (∀ u, step s e = some u → P u) ↔ P t := by
  rw [h]
  exact ⟨fun hall => hall t rfl, fun ht _ hu => Option.some.inj hu ▸ ht⟩

theorem allowed_and {ok ok' : σ → ε → Prop} {s : σ} {es : List ε} (h : Allowed step ok s es)
    (h' : Allowed step ok' s es) : Allowed step (fun s e => ok s e ∧ ok' s e) s es := by
  induction es generalizing s with
  | nil => trivial
  | cons e es ih => exact ⟨⟨h.1, h'.1⟩, fun t ht => ih (h.2 t ht) (h'.2 t ht)⟩

theorem allowed_of_forall {p : ε → Prop} (s : σ) {es : List ε} (h : ∀ e ∈ es, p e) :
    Allowed step (fun _ e => p e) s es := by
  induction es generalizing s with
  | nil => trivial
  | cons e es ih => exact ⟨h e List.mem_cons_self,
      fun t _ => ih t (fun e he => h e (List.mem_cons_of_mem _ he))⟩

/-- What one allowed step preserves, every allowed run preserves. -/
theorem run_invariant {ok : σ → ε → Prop} {I : σ → Prop}
    (hstep : ∀ s e t, I s → ok s e → step s e = some t → I t)
    (s t : σ) (es : List ε) (hs : I s) (hok : Allowed step ok s es) (h : run step s es = some t) :
    I t := by
  induction es generalizing s with
  | nil => cases h; exact hs
  | cons e es ih =>
      obtain ⟨u, hu, hrun⟩ := run_cons h
      exact ih u (hstep s e u hs hok.1 hu) (hok.2 u hu) hrun

/-- What every step preserves, every run preserves. -/
theorem run_preserves {I : σ → Prop} (hstep : ∀ s e t, I s → step s e = some t → I t) {s t : σ} {es : List ε}
    (hs : I s) (h : run step s es = some t) : I t :=
  run_invariant (fun s e t hi (_ : True) ht => hstep s e t hi ht) s t es hs
    (allowed_of_forall s (fun _ _ => trivial)) h

theorem allowed_mono {ok ok' : σ → ε → Prop} (hmono : ∀ s e, ok s e → ok' s e) {s : σ} {es : List ε}
    (h : Allowed step ok s es) : Allowed step ok' s es := by
  induction es generalizing s with
  | nil => trivial
  | cons e es ih => exact ⟨hmono s e h.1, fun t ht => ih (h.2 t ht)⟩

/-- A condition that follows from another one under an invariant. -/
theorem allowed_of_invariant {ok ok' : σ → ε → Prop} {I : σ → Prop}
    (hstep : ∀ s e t, I s → ok s e → step s e = some t → I t) (himp : ∀ s e, I s → ok s e → ok' s e)
    {s : σ} (hs : I s) {es : List ε} (h : Allowed step ok s es) : Allowed step ok' s es := by
  induction es generalizing s with
  | nil => trivial
  | cons e es ih => exact ⟨himp s e hs h.1, fun t ht => ih (hstep s e t hs h.1 ht) (h.2 t ht)⟩

/-- Two conditions that agree wherever the first one has held so far allow the same schedules. -/
theorem allowed_iff {ok ok' : σ → ε → Prop} {I : σ → Prop}
    (hstep : ∀ s e t, I s → ok s e → step s e = some t → I t) (hiff : ∀ s e, I s → (ok s e ↔ ok' s e))
    {s : σ} (hs : I s) (es : List ε) : Allowed step ok s es ↔ Allowed step ok' s es := by
  induction es generalizing s with
  | nil => exact Iff.rfl
  | cons e es ih =>
      constructor
      · intro h
        exact ⟨(hiff s e hs).mp h.1, fun t ht => (ih (hstep s e t hs h.1 ht)).mp (h.2 t ht)⟩
      · intro h
        have hok := (hiff s e hs).mpr h.1
        exact ⟨hok, fun t ht => (ih (hstep s e t hs hok ht)).mpr (h.2 t ht)⟩

/-- Where every step that is not allowed leaves a trace that no step removes, a run without one is allowed. -/
theorem allowed_of_unspoiled {ok : σ → ε → Prop} {I B : σ → Prop} (hstep : ∀ s e t, I s → step s e = some t → I t)
    (hkeep : ∀ s e t, B s → step s e = some t → B t) (hspoil : ∀ s e t, I s → ¬ ok s e → step s e = some t → B t)
    {s t : σ} (hs : I s) {es : List ε} (h : run step s es = some t) (ht : ¬ B t) : Allowed step ok s es := by
  induction es generalizing s with
  | nil => trivial
  | cons e es ih =>
      obtain ⟨u, hu, hrun⟩ := run_cons h
      refine ⟨by_contra (fun hbad => ht (run_preserves hkeep (hspoil s e u hs hbad hu) hrun)), ?_⟩
      exact (forall_next_iff hu).mpr (ih (hstep s e u hs hu) hrun)

theorem run_append {s t u : σ} {es fs : List ε} (h : run step s es = some t)
    (h' : run step t fs = some u) :
    run step s (es ++ fs) = some u := by
  induction es generalizing s with
  | nil =>
      cases h
      exact h'
  | cons e es ih =>
      obtain ⟨v, hv, hrun⟩ := run_cons h
      exact run_step hv (ih hrun)

/-- Steps that are hidden may be left out: the runs stay related. -/
theorem run_filter {ok : σ → ε → Prop} {R : σ → σ → Prop} (hidden : ε → Bool)
    (hhidden : ∀ s s' e, hidden e → R s s' → ok s e → ∃ t, step s e = some t ∧ R t s')
    (hshown : ∀ s s' e, hidden e = false → R s s' → ok s e → Option.Rel R (step s e) (step s' e))
    {s s' : σ} (hs : R s s') {es : List ε} (hok : Allowed step ok s es) :
    Option.Rel R (run step s es) (run step s' (es.filter (fun e => !hidden e))) := by
  induction es generalizing s s' with
  | nil => exact .some hs
  | cons e es ih =>
      cases he : hidden e with
      | true =>
          obtain ⟨t, ht, hrel⟩ := hhidden s s' e he hs hok.1
          rw [List.filter_cons_of_neg (by simp [he]), run, ht]
          exact ih hrel (hok.2 t ht)
      | false =>
          have hrel := hshown s s' e he hs hok.1
          have hnext := hok.2
          rw [List.filter_cons_of_pos (by simp [he]), run, run]
          generalize step s e = next at hrel hnext ⊢
          generalize step s' e = next' at hrel ⊢
          cases hrel with
          | none => exact .none
          | some hrel => exact ih hrel (hnext _ rfl)

/-- An allowed run from `s` to `t`. -/
structure Reaches (step : σ → ε → Option σ) (ok : σ → ε → Prop) (s : σ) (es : List ε) (t : σ) :
    Prop where
  run : run step s es = some t
  allowed : Allowed step ok s es

variable {ok : σ → ε → Prop} {s t u : σ} {e : ε} {es fs : List ε}

theorem Reaches.refl : Reaches step ok s [] s := ⟨rfl, trivial⟩

theorem Reaches.next (hok : ok s e) (h : step s e = some u) (hu : Reaches step ok u es t) :
    Reaches step ok s (e :: es) t := by
  refine ⟨run_step h hu.run, hok, ?_⟩
  intro v hv
  obtain rfl : u = v := Option.some.inj (h.symm.trans hv)
  exact hu.allowed

theorem Reaches.append (h : Reaches step ok s es t) (h' : Reaches step ok t fs u) :
    Reaches step ok s (es ++ fs) u := by
  induction es generalizing s with
  | nil =>
      cases h.run
      exact h'
  | cons e es ih =>
      obtain ⟨v, hv, hrun⟩ := run_cons h.run
      exact .next h.allowed.1 hv (ih ⟨hrun, h.allowed.2 v hv⟩)

end Runs

section Tasks

variable {τ : Type}

/-- One task moves on and the others stay as they are: a sum over all tasks
changes by the change of that task. -/
theorem sum_set (f : τ → Nat) (ts : List τ) (i : Nat) (t u : τ) (h : ts[i]? = some t) :
    ((ts.set i u).map f).sum + f t = (ts.map f).sum + f u := by
  induction ts generalizing i with
  | nil => simp at h
  | cons a ts ih =>
      cases i with
      | zero =>
          obtain rfl : a = t := by simpa using h
          simp only [List.set_cons_zero, List.map_cons, List.sum_cons]
          omega
      | succ i =>
          have := ih i (by simpa using h)
          simp only [List.set_cons_succ, List.map_cons, List.sum_cons]
          omega

/-- What the others keep and the task that moves on has, all have. -/
theorem forall_mem_set {P : τ → Prop} {ts : List τ} {i : Nat} {u : τ} (h : ∀ t ∈ ts, P t) (hu : P u) :
    ∀ t ∈ ts.set i u, P t := by
  intro t ht
  rcases List.mem_or_eq_of_mem_set ht with hold | rfl
  · exact h t hold
  · exact hu

/-- The tasks after one has moved on. -/
theorem of_getElem?_set {ts : List τ} {i j : Nat} {t u : τ} (h : (ts.set i u)[j]? = some t) :
    j = i ∧ t = u ∨ j ≠ i ∧ ts[j]? = some t := by
  rcases eq_or_ne j i with rfl | hne
  · have hlt : j < ts.length := by simpa using (List.getElem?_eq_some_iff.mp h).1
    exact .inl ⟨rfl, (Option.some.inj ((List.getElem?_set_self hlt).symm.trans h)).symm⟩
  · exact .inr ⟨hne, (List.getElem?_set_ne hne.symm).symm.trans h⟩

/-- The tasks after another one has come. -/
theorem of_getElem?_push {ts : List τ} {j : Nat} {t u : τ} (h : (ts ++ [u])[j]? = some t) :
    j = ts.length ∧ t = u ∨ ts[j]? = some t := by
  rcases Nat.lt_or_ge j ts.length with hlt | hge
  · exact .inr ((List.getElem?_append_left hlt).symm.trans h)
  · have hj : j = ts.length := by
      have hlt := (List.getElem?_eq_some_iff.mp h).1
      rw [List.length_append, List.length_singleton] at hlt
      omega
    subst hj
    exact .inl ⟨rfl, (Option.some.inj (List.getElem?_concat_length.symm.trans h)).symm⟩

/-- What the task that moves on keeps is the same for all tasks. -/
theorem map_set {β : Type} (f : τ → β) {ts : List τ} {i : Nat} {t u : τ} (h : ts[i]? = some t)
    (hu : f u = f t) :
    (ts.set i u).map f = ts.map f := by
  obtain ⟨hlt, rfl⟩ := List.getElem?_eq_some_iff.mp h
  rw [List.map_set, hu, ← List.getElem_map f (h := by rwa [List.length_map]), List.set_getElem_self]

theorem filterMap_set {β : Type} (f : τ → Option β) {ts : List τ} {i : Nat} {t u : τ} (h : ts[i]? = some t)
    (hu : f u = f t) :
    (ts.set i u).filterMap f = ts.filterMap f := by
  have hid (us : List τ) : us.filterMap f = (us.map f).filterMap id := by
    rw [List.filterMap_map, Function.id_comp]
  rw [hid, hid, map_set f h hu]

theorem map_modify {β : Type} (f : τ → β) (g : τ → τ) (hg : ∀ t, f (g t) = f t) (ts : List τ)
    (i : Nat) :
    (ts.modify i g).map f = ts.map f := by
  apply List.ext_getElem?
  intro j
  rw [List.getElem?_map, List.getElem?_map, List.getElem?_modify, Option.map_eq_map, Option.map_map]
  congr 1
  funext t
  rw [Function.comp_apply]
  split_ifs
  · exact hg t
  · rfl

/-- Two tasks with one name are one task when the names are distinct. -/
theorem eq_of_nodup_map {β : Type} (f : τ → β) {ts : List τ} (h : (ts.map f).Nodup) {i j : Nat} {t u : τ}
    (hi : ts[i]? = some t) (hj : ts[j]? = some u) (heq : f t = f u) : i = j := by
  refine (List.getElem?_inj ?_ h).mp ?_
  · rw [List.length_map]
    exact (List.getElem?_eq_some_iff.mp hi).1
  · rw [List.getElem?_map, List.getElem?_map, hi, hj]
    exact congrArg some heq

theorem find?_of_nodup_map {β : Type} [DecidableEq β] (f : τ → β) {ts : List τ} (h : (ts.map f).Nodup) {t : τ}
    (ht : t ∈ ts) : ts.find? (fun u => f u = f t) = some t := by
  induction ts with
  | nil => cases ht
  | cons first ts ih =>
      rw [List.map_cons, List.nodup_cons] at h
      rcases List.mem_cons.mp ht with rfl | ht
      · exact List.find?_cons_of_pos (decide_eq_true rfl)
      · have hne : f first ≠ f t := fun heq => h.1 (heq ▸ List.mem_map_of_mem ht)
        rw [List.find?_cons_of_neg (by simpa using hne)]
        exact ih h.2 ht

theorem countP_set (p : τ → Bool) {ts : List τ} {i : Nat} {t u : τ} (h : ts[i]? = some t) :
    (ts.set i u).countP p + (if p t then 1 else 0) = ts.countP p + if p u then 1 else 0 := by
  obtain ⟨hlt, rfl⟩ := List.getElem?_eq_some_iff.mp h
  rw [List.countP_set hlt]
  have hpos : p ts[i] → 0 < ts.countP p :=
    fun hp => List.countP_pos_iff.mpr ⟨_, List.getElem_mem hlt, hp⟩
  cases hp : p ts[i] with
  | false => simp
  | true =>
      have := hpos hp
      simp only [if_true]
      omega

theorem countP_set_le (p : τ → Bool) {ts : List τ} {i : Nat} {t u : τ} (h : ts[i]? = some t)
    (hu : p u → p t) :
    (ts.set i u).countP p ≤ ts.countP p := by
  have hcount := countP_set p (u := u) h
  by_cases hp : p u
  · rw [if_pos hp, if_pos (hu hp)] at hcount
    omega
  · rw [if_neg hp] at hcount
    omega

theorem countP_set_le_succ (p : τ → Bool) {ts : List τ} {i : Nat} {t u : τ} (h : ts[i]? = some t) :
    (ts.set i u).countP p ≤ ts.countP p + 1 := by
  have hcount := countP_set p (u := u) h
  split_ifs at hcount
  all_goals omega

theorem countP_set_same (p : τ → Bool) {ts : List τ} {i : Nat} {t u : τ} (h : ts[i]? = some t)
    (hu : p u = p t) :
    (ts.set i u).countP p = ts.countP p := by
  have hcount := countP_set p (u := u) h
  rw [hu] at hcount
  exact Nat.add_right_cancel hcount

/-- A task that had nothing to show now shows something, beside what the others show. -/
theorem filterMap_set_perm {β : Type} (f : τ → Option β) {ts : List τ} {i : Nat} {t u : τ} {b : β}
    (h : ts[i]? = some t) (ht : f t = none) (hu : f u = some b) :
    ((ts.set i u).filterMap f).Perm (b :: ts.filterMap f) := by
  obtain ⟨hlt, rfl⟩ := List.getElem?_eq_some_iff.mp h
  have hold : ts.filterMap f = (ts.take i).filterMap f ++ (ts.drop (i + 1)).filterMap f := by
    conv_lhs => rw [← List.take_append_drop i ts, List.drop_eq_getElem_cons hlt]
    rw [List.filterMap_append, List.filterMap_cons_none ht]
  rw [List.set_eq_take_append_cons_drop, if_pos hlt, List.filterMap_append, List.filterMap_cons_some hu, hold]
  exact List.perm_middle

theorem le_sum (f : τ → Nat) (ts : List τ) (i : Nat) (t : τ) (h : ts[i]? = some t) :
    f t ≤ (ts.map f).sum := by
  induction ts generalizing i with
  | nil => simp at h
  | cons a ts ih =>
      rw [List.map_cons, List.sum_cons]
      cases i with
      | zero =>
          obtain rfl : a = t := by simpa using h
          omega
      | succ i =>
          have := ih i (by simpa using h)
          omega

end Tasks

section Tokens

variable {τ κ : Type} {token : τ → Option κ} {ts : List τ} {u : τ}

/-- No two tasks hold one token. -/
def Exclusive (token : τ → Option κ) (ts : List τ) : Prop :=
  ∀ (i j : Nat) (t u : τ) (key : κ), ts[i]? = some t → ts[j]? = some u → token t = some key →
    token u = some key → i = j

theorem exclusive_nil : Exclusive token [] := by
  intro i j t u key hi
  nomatch hi

/-- A task moves on to a token that no other task holds. -/
theorem exclusive_set (h : Exclusive token ts) {i : Nat}
    (hfree : ∀ key, token u = some key →
      ∀ (j : Nat) (t : τ), ts[j]? = some t → token t = some key → j = i) :
    Exclusive token (ts.set i u) := by
  intro j k a b key hj hk ha hb
  rcases of_getElem?_set hj with ⟨rfl, rfl⟩ | ⟨-, hjOld⟩
  · rcases of_getElem?_set hk with ⟨rfl, rfl⟩ | ⟨-, hkOld⟩
    · rfl
    · exact (hfree key ha k b hkOld hb).symm
  · rcases of_getElem?_set hk with ⟨rfl, rfl⟩ | ⟨-, hkOld⟩
    · exact hfree key hb j a hjOld ha
    · exact h j k a b key hjOld hkOld ha hb

/-- A task moves on without a new token. -/
theorem exclusive_set_of_imp (h : Exclusive token ts) {i : Nat} {t : τ} (hi : ts[i]? = some t)
    (hu : ∀ key, token u = some key → token t = some key) : Exclusive token (ts.set i u) :=
  exclusive_set h (fun key hkey j t' hj ht' => h j i t' t key hj hi ht' (hu key hkey))

theorem exclusive_push (h : Exclusive token ts)
    (hfree : ∀ key, token u = some key → ∀ t ∈ ts, token t ≠ some key) :
    Exclusive token (ts ++ [u]) := by
  intro j k a b key hj hk ha hb
  rcases of_getElem?_push hj with ⟨rfl, rfl⟩ | hjOld
  · rcases of_getElem?_push hk with ⟨rfl, rfl⟩ | hkOld
    · rfl
    · exact absurd hb (hfree key ha b (List.mem_of_getElem? hkOld))
  · rcases of_getElem?_push hk with ⟨rfl, rfl⟩ | hkOld
    · exact absurd ha (hfree key hb a (List.mem_of_getElem? hjOld))
    · exact h j k a b key hjOld hkOld ha hb

end Tokens

end SplitSdk.Interleaving
