import SplitSdk.Interleaving
import SplitSdk.NonceManager

namespace SplitSdk.NonceUniqueness

open Interleaving OrderedMap NonceManager

section Statement

/-- The counter will come to `n`. -/
def Ahead (incrementStep current n : Int) : Prop := ∃ k : Nat, n = current + k * incrementStep

def committed (s : State) (accountId : String) : List Int := (s.commits accountId).map Prod.fst

def IsLifecycle : Event → Prop
  | .resetNonce .. | .syncNonce .. => False
  | _ => True

/-- No nonce is committed that the counter has yet to reach, and the nonce issued
last is not rolled back once it is committed. -/
def Sound (options : NonceManagerOptions) (s : State) : Event → Prop
  | .commitNonce accountId nonce _ _ => ∀ n, parseNonce nonce = .ok n →
      ¬Ahead options.incrementStep (counter options s.manager accountId) n
  | .rollbackNonce accountId nonce _ => ∀ n, parseNonce nonce = .ok n →
      counter options s.manager accountId = n + options.incrementStep → n ∉ committed s accountId
  | _ => True

end Statement

section Invariant

variable {options : NonceManagerOptions} {s : State}

structure Inv (options : NonceManagerOptions) (s : State) : Prop where
  untracked : ∀ a, s.manager.states.get? a = none → s.commits a = []
  nodup : ∀ a, (inFlight s.manager a).Nodup
  behind : ∀ a n, n ∈ inFlight s.manager a ∨ n ∈ committed s a →
    ¬Ahead options.incrementStep (counter options s.manager a) n

theorem ahead_self (incrementStep current : Int) : Ahead incrementStep current current := ⟨0, by simp⟩

theorem ahead_of_next {incrementStep current n : Int} (h : Ahead incrementStep (current + incrementStep) n) :
    Ahead incrementStep current n := by
  obtain ⟨k, rfl⟩ := h
  exact ⟨k + 1, by push_cast; ring⟩

theorem not_ahead_of_next {incrementStep : Int} (hstep : incrementStep ≠ 0) (current : Int) :
    ¬Ahead incrementStep (current + incrementStep) current := by
  rintro ⟨k, hk⟩
  have hzero : ((k : Int) + 1) * incrementStep = 0 := by linarith
  rcases mul_eq_zero.mp hzero with h | h
  · omega
  · exact hstep h

/-- What is ahead of a counter that steps back is the new value or was ahead before. -/
theorem ahead_cases {incrementStep n m : Int} (h : Ahead incrementStep n m) :
    m = n ∨ Ahead incrementStep (n + incrementStep) m := by
  obtain ⟨k, rfl⟩ := h
  cases k with
  | zero => exact .inl (by simp)
  | succ k => exact .inr ⟨k, by push_cast; ring⟩

/-- One account is assigned a counter, nonces in flight and commits that fit together. -/
theorem assigns_inv (hi : Inv options s) {a : String} {c : Int} {f : List Int} {m' : Manager}
    {commits : String → List (Int × Nat)} {clock : Nat} (hassigns : Assigns options s.manager m' a c f)
    (hothers : ∀ b, b ≠ a → commits b = s.commits b) (hnodup : f.Nodup)
    (hbehind : ∀ n, n ∈ f ∨ n ∈ (commits a).map Prod.fst → ¬Ahead options.incrementStep c n) :
    Inv options ⟨m', commits, clock⟩ := by
  constructor
  · intro b hb
    obtain ⟨hba, hb⟩ := (hassigns.tracked b).mp hb
    exact (hothers b hba).trans (hi.untracked b hb)
  · intro b
    rw [hassigns.inFlight]
    split_ifs
    · exact hnodup
    · exact hi.nodup b
  · intro b n hn
    rw [hassigns.inFlight, committed] at hn
    rw [hassigns.counter]
    by_cases hb : b = a
    · subst hb
      rw [if_pos rfl] at hn ⊢
      exact hbehind n hn
    · rw [if_neg hb] at hn ⊢
      change n ∈ inFlight s.manager b ∨ n ∈ (commits b).map Prod.fst at hn
      rw [hothers b hb] at hn
      exact hi.behind b n hn

theorem step_inv (hstep : options.incrementStep ≠ 0) (s : State) (event : Event) (t : State)
    (hi : Inv options s) (hok : IsLifecycle event ∧ Sound options s event) (h : step options s event = some t) :
    Inv options t := by
  obtain ⟨hlifecycle, hsound⟩ := hok
  cases event with
  | resetNonce | syncNonce => exact hlifecycle.elim
  | trackAccount a initialNonce now =>
      cases h
      rcases trackAccount_cases options s.manager a initialNonce now with h | ⟨huntracked, m', h, hassigns, _⟩
      · rw [h]
        exact ⟨hi.untracked, hi.nodup, hi.behind⟩
      · rw [h]
        refine assigns_inv hi hassigns (fun _ _ => rfl) List.nodup_nil ?_
        rw [hi.untracked a huntracked]
        rintro n (hn | hn) <;> cases hn
  | acquireNextNonce a now =>
      cases h
      rcases acquireNextNonce_cases options s.manager a now with ⟨e, h⟩ | ⟨m', h, hassigns, _⟩
      · rw [h]
        exact ⟨hi.untracked, hi.nodup, hi.behind⟩
      · rw [h]
        have hnew : counter options s.manager a ∉ inFlight s.manager a :=
          fun hn => hi.behind a _ (.inl hn) (ahead_self _ _)
        refine assigns_inv hi hassigns (fun _ _ => rfl) (List.nodup_append'.mpr
          ⟨hi.nodup a, List.nodup_singleton _, List.disjoint_singleton.mpr hnew⟩) ?_
        rintro n (hn | hn) hahead
        · rcases List.mem_append.mp hn with hn | hn
          · exact hi.behind a n (.inl hn) (ahead_of_next hahead)
          · rw [List.mem_singleton.mp hn] at hahead
            exact not_ahead_of_next hstep _ hahead
        · exact hi.behind a n (.inr hn) (ahead_of_next hahead)
  | commitNonce a nonce now pruneNow =>
      cases h
      rcases commitNonce_cases options s.manager a nonce now pruneNow with ⟨e, h⟩ | ⟨n, m', hparse, h, hassigns, _⟩
      · rw [h]
        exact ⟨hi.untracked, hi.nodup, hi.behind⟩
      · rw [h, recordCommit_ok hparse]
        refine assigns_inv hi hassigns (fun b hb => Function.update_of_ne hb _ _) ((hi.nodup a).erase n) ?_
        rw [Function.update_self]
        rintro x (hx | hx)
        · exact hi.behind a x (.inl (List.mem_of_mem_erase hx))
        · rcases List.mem_cons.mp hx with rfl | hx
          · exact hsound x hparse
          · exact hi.behind a x (.inr hx)
  | rollbackNonce a nonce now =>
      cases h
      rcases rollbackNonce_cases options s.manager a nonce now with ⟨e, h⟩ | ⟨n, m', hparse, h, hassigns, _⟩
      · rw [h]
        exact ⟨hi.untracked, hi.nodup, hi.behind⟩
      · rw [h]
        refine assigns_inv hi hassigns (fun _ _ => rfl) ((hi.nodup a).erase n) ?_
        intro x hx hahead
        have hx' : x ∈ inFlight s.manager a ∨ x ∈ committed s a := hx.imp_left List.mem_of_mem_erase
        split_ifs at hahead with hlast
        · -- the counter steps back to a nonce that is neither in flight nor committed
          rcases ahead_cases hahead with rfl | hahead
          · rcases hx with hx | hx
            · exact (hi.nodup a).not_mem_erase hx
            · exact hsound x hparse hlast hx
          · rw [← hlast] at hahead
            exact hi.behind a x hx' hahead
        · exact hi.behind a x hx' hahead

end Invariant

section Result

/-- A nonce that is acquired is neither in flight nor committed, in every run that commits no nonce
before it is issued and rolls no committed nonce back as the latest. -/
theorem acquired_is_new (options : NonceManagerOptions) (hstep : options.incrementStep ≠ 0) (events : List Event)
    (t : State) (hlifecycle : ∀ event ∈ events, IsLifecycle event)
    (hsound : Allowed (step options) (Sound options) {} events) (hrun : run (step options) {} events = some t)
    (accountId : String) (now : Nat) (n : Int) (m : Manager)
    (hacquire : acquireNextNonce options t.manager accountId now = (.ok n, m)) :
    n ∉ inFlight t.manager accountId ∧ n ∉ committed t accountId := by
  have hstart : Inv options {} := ⟨fun _ _ => rfl, fun _ => List.nodup_nil, by simp [inFlight, committed, OrdMap.get?_empty]⟩
  have hinv := run_invariant (step_inv hstep) {} t events hstart
    (allowed_and (allowed_of_forall _ hlifecycle) hsound) hrun
  have hn : n = counter options t.manager accountId := by
    rcases acquireNextNonce_cases options t.manager accountId now with ⟨e, h⟩ | ⟨m', h, _⟩
    · rw [h] at hacquire
      cases hacquire
    · rw [h] at hacquire
      cases hacquire
      rfl
  subst hn
  exact ⟨fun h => hinv.behind accountId _ (.inl h) (ahead_self _ _),
    fun h => hinv.behind accountId _ (.inr h) (ahead_self _ _)⟩

end Result

section Runs

/-- A nonce is issued and committed, and the next one rolled back. -/
def acquireTwice : List Event :=
  [.acquireNextNonce "GA" 1, .commitNonce "GA" (.bigint 0) 2 2, .acquireNextNonce "GA" 3,
    .rollbackNonce "GA" (.string "1") 4]

theorem acquired_is_new_after_rollback : ∃ t m, run (step {}) {} acquireTwice = some t ∧
    acquireNextNonce {} t.manager "GA" 5 = (.ok 1, m) ∧
    1 ∉ inFlight t.manager "GA" ∧ 1 ∉ committed t "GA" := by
  have hsound : Allowed (step {}) (Sound {}) {} acquireTwice := by
    refine ⟨trivial, ?_⟩
    rintro _ ⟨⟩
    refine ⟨?_, ?_⟩
    · rintro n ⟨⟩ ⟨k, hk⟩
      change (0 : Int) = 1 + k * 1 at hk
      omega
    · rintro _ ⟨⟩
      refine ⟨trivial, ?_⟩
      rintro _ ⟨⟩
      refine ⟨?_, fun _ _ => trivial⟩
      intro n _ hlast hmem
      change (2 : Int) = n + 1 at hlast
      have hzero : n = 0 := List.mem_singleton.mp hmem
      omega
  refine ⟨_, _, rfl, rfl, ?_⟩
  exact acquired_is_new {} (by decide) acquireTwice _ (by simp [acquireTwice, IsLifecycle]) hsound rfl "GA" 5 1 _ rfl

/-- A committed nonce is rolled back, and issued again. -/
theorem committed_acquired_again : ∃ t m, run (step {}) {} [.acquireNextNonce "GA" 1,
    .commitNonce "GA" (.bigint 0) 2 2, .rollbackNonce "GA" (.bigint 0) 3] = some t ∧
    acquireNextNonce {} t.manager "GA" 4 = (.ok 0, m) ∧ 0 ∈ committed t "GA" := by
  refine ⟨_, _, rfl, rfl, ?_⟩
  decide

end Runs

end SplitSdk.NonceUniqueness
