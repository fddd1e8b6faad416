import SplitSdk.Interleaving
import SplitSdk.NonceManager
import Mathlib.Data.List.Dedup
import Mathlib.Data.List.Perm.Subperm

namespace SplitSdk.NonceReplay

open Interleaving Numbers OrderedMap NonceManager

section Statement

/-- The part of a log, the newest entry first, that goes back to the first entry of `n`. -/
def sinceFirst (n : Int) : List (Int × Nat) → List (Int × Nat)
  | [] => []
  | entry :: log => if n ∈ (entry :: log).map Prod.fst then entry :: sinceFirst n log else []

/-- The nonces committed since `n` was first committed, `n` among them. -/
def noncesSince (n : Int) (log : List (Int × Nat)) : List Int := (sinceFirst n log).map Prod.fst

/-- The window has room for all of them. -/
def Fits (options : NonceManagerOptions) (nonces : List Int) : Prop :=
  options.replayWindowSize.lt (.finite nonces.dedup.length) = false

instance (options : NonceManagerOptions) (nonces : List Int) : Decidable (Fits options nonces) :=
  inferInstanceAs (Decidable (_ = _))

def KeepsHistory : Event → Prop
  | .resetNonce _ reset _ => reset.clearReplayHistory.getD false = false
  | _ => True

/-- The clock does not go back. -/
def Forward (s : State) : Event → Prop
  | .commitNonce _ _ now pruneNow => s.clock ≤ now ∧ now ≤ pruneNow
  | .trackAccount _ _ now | .acquireNextNonce _ now | .rollbackNonce _ _ now | .resetNonce _ _ now
  | .syncNonce _ _ now => s.clock ≤ now

instance (s : State) (event : Event) : Decidable (Forward s event) := by
  cases event <;> unfold Forward <;> infer_instance

end Statement

section Log

variable {options : NonceManagerOptions} {n : Int} {entry : Int × Nat} {log : List (Int × Nat)}

theorem sinceFirst_cons (h : n ∈ (entry :: log).map Prod.fst) :
    sinceFirst n (entry :: log) = entry :: sinceFirst n log := by
  rw [sinceFirst, if_pos h]

theorem noncesSince_subset_cons (n : Int) (entry : Int × Nat) (log : List (Int × Nat)) :
    noncesSince n log ⊆ noncesSince n (entry :: log) := by
  by_cases h : n ∈ (entry :: log).map Prod.fst
  · rw [noncesSince, noncesSince, sinceFirst_cons h]
    exact List.subset_cons_self _ _
  · have hnil : sinceFirst n log = [] := by
      cases log with
      | nil => rfl
      | cons e log => rw [sinceFirst, if_neg (fun hmem => h (List.mem_cons_of_mem _ hmem))]
    rw [noncesSince, hnil]
    exact List.nil_subset _

/-- A window that has room for some nonces has room for fewer. -/
theorem Fits.mono {xs ys : List Int} (hsub : xs ⊆ ys) (h : Fits options ys) : Fits options xs := by
  refine JsNumber.lt_natCast_mono (List.Subperm.length_le ?_) h
  apply List.subperm_of_subset (List.nodup_dedup xs)
  intro x hx
  exact List.mem_dedup.mpr (hsub (List.mem_dedup.mp hx))

end Log

section History

variable {options : NonceManagerOptions} {log entries : List (Int × Nat)} {clock : Nat}

/-- The entries of a history are the last commits, and what is behind an entry
was committed after it; a nonce that is missing is expired or was too old for the window. -/
structure Recorded (options : NonceManagerOptions) (clock : Nat) (log entries : List (Int × Nat)) : Prop where
  nodup : (entries.map Prod.fst).Nodup
  time : ∀ entry ∈ entries, log.lookup entry.1 = some entry.2
  order : (entries.map Prod.fst).Pairwise (fun earlier later => later ∈ noncesSince earlier log)
  kept : ∀ n seenTime, log.lookup n = some seenTime → n ∈ entries.map Prod.fst ∨
    isExpired options clock seenTime ∨ ¬Fits options (noncesSince n log)

theorem isExpired_mono {now later seenTime : Nat} (h : now ≤ later) (hexpired : isExpired options now seenTime) :
    isExpired options later seenTime := by
  unfold isExpired at hexpired ⊢
  cases httl : options.replayTtlMs with
  | nan =>
      rw [httl] at hexpired
      cases hexpired
  | infinity negative =>
      rw [httl] at hexpired
      exact hexpired
  | finite q =>
      rw [httl] at hexpired
      simp only [JsNumber.lt, decide_eq_true_eq] at hexpired ⊢
      have : (now : ℚ) ≤ later := by exact_mod_cast h
      linarith

theorem Recorded.later (h : Recorded options clock log entries) {now : Nat} (hnow : clock ≤ now) :
    Recorded options now log entries := by
  refine ⟨h.nodup, h.time, h.order, ?_⟩
  intro n seenTime hn
  exact (h.kept n seenTime hn).imp_right (Or.imp_left (isExpired_mono hnow))

/-- An entry that is dropped had more entries behind it than there is room for. -/
theorem mem_dropOldest_or (options : NonceManagerOptions) (entries : List (Int × Nat)) (entry : Int × Nat)
    (h : entry ∈ entries) : entry ∈ dropOldest options entries ∨
      ∃ before after, entries = before ++ entry :: after ∧
        options.replayWindowSize.lt (.finite (after.length + 1)) := by
  induction entries with
  | nil => cases h
  | cons oldest entries ih =>
      rw [dropOldest]
      split_ifs with hfull
      · rcases List.mem_cons.mp h with rfl | h
        · exact .inr ⟨[], entries, rfl, hfull⟩
        · rcases ih h with h | ⟨before, after, rfl, hafter⟩
          · exact .inl h
          · exact .inr ⟨oldest :: before, after, rfl, hafter⟩
      · exact .inl h

theorem mem_noncesSince_self {n : Int} (h : n ∈ log.map Prod.fst) : n ∈ noncesSince n log := by
  induction log with
  | nil => cases h
  | cons entry log ih =>
      rw [noncesSince, sinceFirst_cons h]
      rcases List.mem_cons.mp h with rfl | hmem
      · exact List.mem_cons_self
      · exact List.mem_cons_of_mem _ (ih hmem)

theorem mem_map_of_lookup {n : Int} {seenTime : Nat} (h : log.lookup n = some seenTime) : n ∈ log.map Prod.fst :=
  (OrdMap.lookup_isSome n log).mp (by rw [h]; rfl)

/-- The entries behind a dropped one do not fit into the window with it. -/
theorem not_fits_of_dropped (h : Recorded options clock log entries) {before after : List (Int × Nat)}
    {entry : Int × Nat} (hentries : entries = before ++ entry :: after)
    (hafter : options.replayWindowSize.lt (.finite (after.length + 1))) :
    ¬Fits options (noncesSince entry.1 log) := by
  intro hfits
  have hmem : entry ∈ entries := by simp [hentries]
  have hsub : (entry :: after).map Prod.fst ⊆ noncesSince entry.1 log := by
    have horder := h.order
    rw [hentries, List.map_append, List.pairwise_append, List.map_cons, List.pairwise_cons] at horder
    intro x hx
    rcases List.mem_cons.mp hx with rfl | hx
    · exact mem_noncesSince_self (mem_map_of_lookup (h.time entry hmem))
    · exact horder.2.1.1 x hx
  have hnodup : ((entry :: after).map Prod.fst).Nodup := by
    have hall := h.nodup
    rw [hentries, List.map_append] at hall
    exact hall.of_append_right
  have hfew : options.replayWindowSize.lt (.finite (after.length + 1 : Nat)) = false := by
    have hroom := hfits.mono hsub
    rwa [Fits, hnodup.dedup, List.length_map, List.length_cons] at hroom
  rw [Nat.cast_succ, hafter] at hfew
  cases hfew

theorem Recorded.sublist (h : Recorded options clock log entries) {fewer : List (Int × Nat)}
    (hsub : fewer.Sublist entries) (hkept : ∀ entry ∈ entries, entry ∈ fewer ∨
      isExpired options clock entry.2 ∨ ¬Fits options (noncesSince entry.1 log)) :
    Recorded options clock log fewer := by
  refine ⟨h.nodup.sublist (hsub.map _), fun entry he => h.time entry (hsub.subset he),
    h.order.sublist (hsub.map _), ?_⟩
  intro n seenTime hn
  rcases h.kept n seenTime hn with hmem | hgone
  · obtain ⟨entry, hentry, rfl⟩ := List.mem_map.mp hmem
    obtain rfl : entry.2 = seenTime := Option.some.inj ((h.time entry hentry).symm.trans hn)
    exact (hkept entry hentry).imp_left List.mem_map_of_mem
  · exact .inr hgone

theorem Recorded.pruned (h : Recorded options clock log entries) :
    Recorded options clock log (pruned options clock entries) := by
  have hfresh : Recorded options clock log (entries.filter (fun entry => !isExpired options clock entry.2)) := by
    apply h.sublist List.filter_sublist
    intro entry hentry
    by_cases hexpired : isExpired options clock entry.2
    · exact .inr (.inl hexpired)
    · exact .inl (by simp [hentry, hexpired])
  apply hfresh.sublist (dropOldest_sublist options _)
  intro entry hentry
  rcases mem_dropOldest_or options _ entry hentry with hmem | ⟨before, after, hentries, hafter⟩
  · exact .inl hmem
  · exact .inr (.inr (not_fits_of_dropped hfresh hentries hafter))

theorem Recorded.set {history : History} (h : Recorded options clock log history.entries) (n : Int) {now : Nat}
    (hnow : clock ≤ now) : Recorded options now ((n, now) :: log) (history.set n now).entries := by
  have hsub : ∀ x, noncesSince x log ⊆ noncesSince x ((n, now) :: log) :=
    fun x => noncesSince_subset_cons x (n, now) log
  have hkeys := OrdMap.keys_set history n now
  unfold OrdMap.keys at hkeys
  refine ⟨(history.set n now).nodup, ?_, ?_, ?_⟩
  · intro entry hentry
    have hget := OrdMap.get?_of_mem _ hentry
    rw [OrdMap.get?_set] at hget
    rw [List.lookup_cons]
    split_ifs at hget with he
    · rw [he, beq_self_eq_true]
      exact hget
    · rw [beq_false_of_ne he]
      exact h.time _ (OrdMap.mem_of_get? hget)
  · rw [hkeys]
    split_ifs with hmem
    · exact h.order.imp (fun hlater => hsub _ hlater)
    · rw [List.pairwise_append]
      refine ⟨h.order.imp (fun hlater => hsub _ hlater), List.pairwise_singleton _ _, ?_⟩
      intro x hx y hy
      obtain ⟨entry, hentry, rfl⟩ := List.mem_map.mp hx
      obtain rfl := List.mem_singleton.mp hy
      have hlog := mem_map_of_lookup (h.time entry hentry)
      rw [noncesSince, sinceFirst_cons (List.mem_cons_of_mem _ hlog)]
      exact List.mem_cons_self
  · intro x seenTime hx
    rw [hkeys]
    rw [List.lookup_cons] at hx
    by_cases hxn : x = n
    · subst hxn
      left
      split_ifs with hmem
      · exact hmem
      · exact List.mem_append_right _ (List.mem_singleton_self x)
    · rw [beq_false_of_ne hxn] at hx
      rcases h.kept x seenTime hx with hmem | hexpired | hfull
      · left
        split_ifs
        · exact hmem
        · exact List.mem_append_left _ hmem
      · exact .inr (.inl (isExpired_mono hnow hexpired))
      · exact .inr (.inr (fun hfits => hfull (hfits.mono (hsub x))))

end History

section Result

variable {options : NonceManagerOptions}

def Inv (options : NonceManagerOptions) (s : State) : Prop :=
  ∀ a, Recorded options s.clock (s.commits a) (historyOf s.manager a).entries

theorem inv_of_unchanged {s : State} (hi : Inv options s) {m : Manager} {now : Nat}
    (hsame : m.committedNonces = s.manager.committedNonces) (hnow : s.clock ≤ now) :
    Inv options { s with manager := m, clock := now } := by
  intro a
  have hhistory : historyOf m a = historyOf s.manager a := by rw [historyOf, hsame, historyOf]
  rw [hhistory]
  exact (hi a).later hnow

theorem step_inv (s : State) (event : Event) (t : State) (hi : Inv options s)
    (hok : KeepsHistory event ∧ Forward s event) (h : step options s event = some t) : Inv options t := by
  obtain ⟨hkeeps, hforward⟩ := hok
  cases event with
  | trackAccount a initialNonce now =>
      cases h
      apply inv_of_unchanged hi _ hforward
      rcases trackAccount_cases options s.manager a initialNonce now with h | ⟨_, m', h, _, hsame⟩
      · rw [h]
      · rw [h, hsame]
  | acquireNextNonce a now =>
      cases h
      apply inv_of_unchanged hi _ hforward
      rcases acquireNextNonce_cases options s.manager a now with ⟨e, h⟩ | ⟨m', h, _, hsame⟩
      · rw [h]
      · rw [h, hsame]
  | rollbackNonce a nonce now =>
      cases h
      apply inv_of_unchanged hi _ hforward
      rcases rollbackNonce_cases options s.manager a nonce now with ⟨e, h⟩ | ⟨n, m', _, h, _, hsame⟩
      · rw [h]
      · rw [h, hsame]
  | resetNonce a reset now =>
      cases h
      exact inv_of_unchanged hi (resetNonce_committedNonces options s.manager a reset hkeeps now) hforward
  | syncNonce a onChainVal now =>
      cases h
      apply inv_of_unchanged hi _ hforward
      unfold syncNonce
      cases parseNonce onChainVal with
      | error e => rfl
      | ok n => exact resetNonce_committedNonces options s.manager a _ rfl now
  | commitNonce a nonce now pruneNow =>
      cases h
      obtain ⟨hnow, hprune⟩ := hforward
      rcases commitNonce_cases options s.manager a nonce now pruneNow with ⟨e, h⟩ | ⟨n, m', hparse, h, _, hcommitted⟩
      · rw [h]
        exact inv_of_unchanged hi rfl (hnow.trans hprune)
      · rw [h, recordCommit_ok hparse]
        intro b
        have hhistory : historyOf m' b = if b = a then
            pruneReplayCache options ((historyOf s.manager a).set n now) pruneNow else historyOf s.manager b := by
          rw [historyOf, hcommitted, OrdMap.get?_set]
          split_ifs
          · rfl
          · rfl
        dsimp only
        rw [hhistory]
        by_cases hb : b = a
        · subst hb
          rw [if_pos rfl, Function.update_self]
          exact (((hi b).set n hnow).later hprune).pruned
        · rw [if_neg hb, Function.update_of_ne hb]
          exact (hi b).later (hnow.trans hprune)

theorem not_isExpired_of_lt {now seenTime : Nat}
    (h : JsNumber.lt (.finite ((now : ℚ) - seenTime)) options.replayTtlMs) : isExpired options now seenTime = false := by
  unfold isExpired
  cases httl : options.replayTtlMs with
  | nan =>
      rw [httl] at h
      cases h
  | infinity negative =>
      rw [httl] at h
      simpa [JsNumber.lt] using h
  | finite q =>
      rw [httl] at h
      simp only [JsNumber.lt, decide_eq_true_eq, decide_eq_false_iff_not, not_lt] at h ⊢
      exact h.le

/-- The history of a reachable manager has every recent commit that the window has room for. -/
theorem isReplay_of_fits {s : State} (hi : Inv options s) {accountId : String} {n : Int} {seenTime now : Nat}
    (hlast : (s.commits accountId).lookup n = some seenTime) (hnow : s.clock ≤ now)
    (hrecent : JsNumber.lt (.finite ((now : ℚ) - seenTime)) options.replayTtlMs)
    (hfits : Fits options (noncesSince n (s.commits accountId))) :
    isReplay options s.manager accountId n now := by
  have hrecorded := (hi accountId).later hnow
  rcases hrecorded.kept n seenTime hlast with hmem | hexpired | hfull
  · obtain ⟨entry, hentry, rfl⟩ := List.mem_map.mp hmem
    obtain rfl : entry.2 = seenTime := Option.some.inj ((hrecorded.time entry hentry).symm.trans hlast)
    rw [isReplay, OrdMap.get?_of_mem _ hentry]
    simp [hrecent]
  · rw [not_isExpired_of_lt hrecent] at hexpired
    cases hexpired
  · exact absurd hfits hfull

theorem checkOrder_invalid {state : NonceState} {n : Int} (hcounter : state.currentNonce ≠ n)
    (hflight : n ∉ state.inFlightNonces) : (checkOrder state n true).valid = false := by
  unfold checkOrder
  dsimp only
  split_ifs with hstale hgap
  · rfl
  · rfl
  · exfalso
    rcases lt_trichotomy n state.currentNonce with h | h | h
    · exact hstale ⟨h, hflight⟩
    · exact hcounter h.symm
    · exact hgap ⟨rfl, h⟩

/-- A nonce is not valid within `replayTtlMs` of its last commit while the window has room for
what was committed since its first, and neither while the counter is not back at it. -/
theorem validate_rejects_recent (options : NonceManagerOptions) (events : List Event) (t : State)
    (hkeeps : ∀ event ∈ events, KeepsHistory event) (hforward : Allowed (step options) Forward {} events)
    (hrun : run (step options) {} events = some t) (accountId : String) (nonce : Nonce) (n : Int)
    (hparse : parseNonce nonce = .ok n) (seenTime now : Nat)
    (hlast : (t.commits accountId).lookup n = some seenTime) (hnow : t.clock ≤ now)
    (hrecent : JsNumber.lt (.finite ((now : ℚ) - seenTime)) options.replayTtlMs) (strictOrdering : Option Bool)
    (hstrict : strictOrdering.getD options.strictOrdering = true)
    (hguarded : Fits options (noncesSince n (t.commits accountId)) ∨
      counter options t.manager accountId ≠ n ∧ n ∉ inFlight t.manager accountId)
    (result : NonceValidationResult)
    (hresult : (validate options t.manager accountId nonce strictOrdering now).1 = .ok result) :
    result.valid = false := by
  have hstart : Inv options {} := fun _ => ⟨List.nodup_nil, nofun, .nil, nofun⟩
  have hinv := run_invariant step_inv {} t events hstart
    (allowed_and (allowed_of_forall _ hkeeps) hforward) hrun
  simp only [validate, hparse] at hresult
  split_ifs at hresult with hreplay
  · cases hresult
    rfl
  · rcases hguarded with hfits | ⟨hcounter, hflight⟩
    · exact absurd (isReplay_of_fits hinv hlast hnow hrecent hfits) hreplay
    · rcases tracked_cases options t.manager accountId now with ⟨e, h⟩ | ⟨state, states, h, hstate, hstate', _⟩
      · rw [h] at hresult
        cases hresult
      · rw [h] at hresult
        cases hresult
        rw [hstrict]
        exact checkOrder_invalid (hstate ▸ hcounter) (hstate' ▸ hflight)

end Result

section Runs

/-- A nonce is committed and the counter is set back to it. -/
def commitAndReset : List Event :=
  [.acquireNextNonce "GA" 1, .commitNonce "GA" (.bigint 0) 2 2, .resetNonce "GA" {} 3]

theorem validate_rejects_after_reset : ∃ t result, run (step {}) {} commitAndReset = some t ∧
    (validate {} t.manager "GA" (.bigint 0) none 4).1 = .ok result ∧ result.valid = false := by
  have hkeeps : ∀ event ∈ commitAndReset, KeepsHistory event := by simp [commitAndReset, KeepsHistory]
  refine ⟨_, replayError "GA" 0, rfl, by decide +kernel, ?_⟩
  exact validate_rejects_recent {} commitAndReset _ hkeeps (by decide) rfl "GA" (.bigint 0) 0 rfl 2 4 rfl
    (by decide) (by decide +kernel) none rfl (.inl (by rfl)) _ (by decide +kernel)

def smallWindow : NonceManagerOptions := { replayWindowSize := .finite 1 }

/-- One more commit, and the window forgets the nonce that the counter is set back to. -/
def commitTwoAndReset : List Event :=
  [.acquireNextNonce "GA" 1, .acquireNextNonce "GA" 2, .commitNonce "GA" (.bigint 0) 3 3,
    .commitNonce "GA" (.bigint 1) 4 4, .resetNonce "GA" {} 5]

theorem forgotten_validates : (∀ event ∈ commitTwoAndReset, KeepsHistory event) ∧
    Allowed (step smallWindow) Forward {} commitTwoAndReset ∧
    ∃ t result, run (step smallWindow) {} commitTwoAndReset = some t ∧
      (t.commits "GA").lookup 0 = some 3 ∧ JsNumber.lt (.finite ((6 : ℚ) - 3)) smallWindow.replayTtlMs ∧
      (validate smallWindow t.manager "GA" (.bigint 0) none 6).1 = .ok result ∧ result.valid = true := by
  have hkeeps : ∀ event ∈ commitTwoAndReset, KeepsHistory event := by simp [commitTwoAndReset, KeepsHistory]
  exact ⟨hkeeps, by decide, _, { valid := true, expectedNonce := some 0, receivedNonce := some 0 }, rfl, rfl,
    by decide +kernel, by decide +kernel, rfl⟩

end Runs

end SplitSdk.NonceReplay
