import SplitSdk.ChannelAccountManager

namespace SplitSdk.ChannelWaiters

open ChannelAccountManager Interleaving Numbers

section Statement

def isRefreshing : Acquire → Bool
  | .refreshing _ => true
  | _ => false

/-- The balance takes the low mark off a slot that is not in use. -/
def Frees (s : Manager) (slot : Nat) (xlm : Option JsNumber) : Prop :=
  ∃ held ∈ s.slots[slot]?, held.inUse = false ∧ held.lowBalance ∧
    ∃ balance ∈ xlm, balance.lt s.minBalanceXlm = false

/-- While somebody waits, a balance frees a slot only when a call that still refreshes will take it. -/
def Sound (s : Manager) : Event → Prop
  | .refreshed _ slot xlm => Frees s slot xlm → s.waiters ≠ [] →
      availableCount s < s.acquires.countP isRefreshing
  | _ => True

end Statement

section Invariant

variable {s t : Manager}

/-- Those who wait are waiting, each once, and no more slots are available then than the refreshing calls will take. -/
structure Inv (s : Manager) : Prop where
  nodup : s.waiters.Nodup
  waiting : ∀ k ∈ s.waiters, s.acquires[k]? = some .waiting
  covered : s.waiters ≠ [] → availableCount s ≤ s.acquires.countP isRefreshing

/-- A call that does not wait moves on. -/
theorem waiting_moveTo {k : Nat} {before next : Acquire}
    (h : ∀ j ∈ s.waiters, s.acquires[j]? = some .waiting)
    (hk : s.acquires[k]? = some before) (hne : before ≠ .waiting) :
    ∀ j ∈ s.waiters, (moveTo s k next).acquires[j]? = some .waiting := by
  intro j hj
  have hjk : k ≠ j := by
    rintro rfl
    exact hne (Option.some.inj (hk.symm.trans (h k hj)))
  exact (List.getElem?_set_ne hjk).trans (h j hj)

/-- A call that has refreshed is one refreshing call less. -/
theorem refreshing_set {acquires : List Acquire} {k : Nat} {pending : List Nat} {next : Acquire}
    (hk : acquires[k]? = some (.refreshing pending)) (hnext : isRefreshing next = false) :
    (acquires.set k next).countP isRefreshing + 1 = acquires.countP isRefreshing := by
  have hcount := countP_set isRefreshing (u := next) hk
  rwa [hnext] at hcount

/-- A call moves on, and as many calls refresh as before. -/
theorem covered_moveTo {k : Nat} {before next : Acquire} (h : Inv s) (hk : s.acquires[k]? = some before)
    (hsame : isRefreshing next = isRefreshing before) (hne : s.waiters ≠ []) :
    availableCount s ≤ (moveTo s k next).acquires.countP isRefreshing :=
  (h.covered hne).trans_eq (countP_set_same isRefreshing hk hsame).symm

/-- A slot is given away. -/
theorem availableCount_assignSlot {k slot : Nat} (h : findAvailableSlot s = some slot) :
    availableCount (assignSlot s k slot) + 1 = availableCount s := by
  obtain ⟨held, hslot, havailable, hslots⟩ := assignSlot_slots h
  have hcount := countP_set available (u := { held with inUse := true }) hslot
  have hused : available { held with inUse := true } = false := rfl
  rw [havailable, hused] at hcount
  rw [availableCount, availableCount, hslots]
  simpa using hcount

theorem availableCount_none (h : findAvailableSlot s = none) : availableCount s = 0 :=
  List.countP_eq_zero.mpr (fun slot hslot => Bool.eq_false_iff.mp (not_available_of_none h slot hslot))

theorem acquire_inv (h : Inv s) : Inv (acquire s) := by
  refine ⟨h.nodup, ?_, ?_⟩
  · intro k hk
    have hwaiting := h.waiting k hk
    exact (List.getElem?_append_left (List.getElem?_eq_some_iff.mp hwaiting).1).trans hwaiting
  · intro hne
    refine (h.covered hne).trans ?_
    rw [acquire, List.countP_append]
    exact Nat.le_add_right _ _

theorem resume_inv (h : Inv s) {k : Nat} (hk : s.acquires[k]? = some (.refreshing [])) :
    Inv (resume s k) := by
  unfold resume
  cases hfind : findAvailableSlot s with
  | some slot =>
      refine ⟨h.nodup, waiting_moveTo (s := setInUse s slot true) h.waiting hk nofun, ?_⟩
      intro hne
      have hcovered : availableCount s ≤ s.acquires.countP isRefreshing := h.covered hne
      have hrefreshing : (assignSlot s k slot).acquires.countP isRefreshing + 1 =
          s.acquires.countP isRefreshing := refreshing_set hk rfl
      rw [← availableCount_assignSlot (k := k) hfind, ← hrefreshing] at hcovered
      exact Nat.le_of_succ_le_succ hcovered
  | none =>
      have hnot : k ∉ s.waiters := fun hmem => nomatch hk.symm.trans (h.waiting k hmem)
      refine ⟨?_, ?_, fun _ => ?_⟩
      · exact List.nodup_append'.mpr ⟨h.nodup, List.nodup_singleton k, List.disjoint_singleton.mpr hnot⟩
      · intro j hj
        rcases List.mem_append.mp hj with hold | hnew
        · exact waiting_moveTo h.waiting hk nofun j hold
        · rw [List.mem_singleton.mp hnew]
          exact List.getElem?_set_self (List.getElem?_eq_some_iff.mp hk).1
      · exact (availableCount_none hfind).trans_le (Nat.zero_le _)

/-- A balance that frees no slot leaves no more slots available. -/
theorem availableCount_refreshed (s : Manager) (k slot : Nat) (pending : List Nat)
    (xlm : Option JsNumber) :
    availableCount (refreshed s k slot pending xlm) ≤ availableCount s ∨
      Frees s slot xlm ∧ availableCount (refreshed s k slot pending xlm) ≤ availableCount s + 1 := by
  obtain ⟨low, hslots, hlow⟩ := refreshed_slots s k slot pending xlm
  rw [availableCount, availableCount, hslots]
  cases hslot : s.slots[slot]? with
  | none =>
      rw [List.modify_eq_self (List.getElem?_eq_none_iff.mp hslot)]
      exact .inl (Nat.le_refl _)
  | some held =>
      rw [modify_eq_set hslot]
      by_cases hgained : available { held with lowBalance := low held.lowBalance } → available held
      · exact .inl (countP_set_le available hslot hgained)
      · obtain ⟨hafter, hbefore⟩ := Classical.not_imp.mp hgained
        refine .inr ⟨⟨held, hslot, ?_⟩, countP_set_le_succ available hslot⟩
        simp only [available, Bool.and_eq_true, Bool.not_eq_true', not_and,
          Bool.not_eq_false] at hbefore hafter
        obtain ⟨hfree, hclear⟩ := hafter
        have hmarked := hbefore hfree
        rw [hlow, hmarked] at hclear
        cases xlm with
        | none => nomatch hclear
        | some balance => exact ⟨hfree, hmarked, balance, rfl, hclear⟩

theorem refreshed_inv (h : Inv s) {k slot : Nat} {pending : List Nat} {xlm : Option JsNumber}
    (hk : s.acquires[k]? = some (.refreshing pending)) (hsound : Sound s (.refreshed k slot xlm)) :
    Inv (refreshed s k slot pending xlm) := by
  have hrefreshing : (refreshed s k slot pending xlm).acquires.countP isRefreshing =
      s.acquires.countP isRefreshing := countP_set_same isRefreshing hk rfl
  refine ⟨h.nodup, waiting_moveTo h.waiting hk nofun, fun hne => ?_⟩
  rw [hrefreshing]
  rcases availableCount_refreshed s k slot pending xlm with hfewer | ⟨hfrees, hmore⟩
  · exact hfewer.trans (h.covered hne)
  · exact hmore.trans (hsound hfrees hne)

/-- After a release the first of those who wait gets a slot, when there is one. -/
theorem notifyWaiters_inv (hnodup : s.waiters.Nodup)
    (hwaiting : ∀ k ∈ s.waiters, s.acquires[k]? = some .waiting)
    (hcovered : s.waiters ≠ [] → availableCount s ≤ s.acquires.countP isRefreshing + 1) :
    Inv (notifyWaiters s) := by
  unfold notifyWaiters
  split
  · rename_i hnil
    exact ⟨hnodup, hwaiting, fun hne => absurd hnil hne⟩
  · rename_i waiter waiters hwaiters
    split
    · rename_i hfind
      exact ⟨hnodup, hwaiting, fun _ => (availableCount_none hfind).trans_le (Nat.zero_le _)⟩
    · rename_i slot hfind
      have hbound := hcovered (hwaiters ▸ List.cons_ne_nil _ _)
      rw [hwaiters] at hnodup hwaiting
      obtain ⟨hfirst, hrest⟩ := List.nodup_cons.mp hnodup
      have hwaiter := hwaiting waiter List.mem_cons_self
      have hshifted : findAvailableSlot { s with waiters } = some slot := hfind
      have hrefreshing : (assignSlot { s with waiters } waiter slot).acquires.countP isRefreshing =
          s.acquires.countP isRefreshing := countP_set_same isRefreshing hwaiter rfl
      rw [wake, if_pos hwaiter]
      refine ⟨hrest, ?_, fun _ => ?_⟩
      · intro j hj
        have hne : waiter ≠ j := fun heq => hfirst (heq ▸ hj)
        exact (List.getElem?_set_ne hne).trans (hwaiting j (List.mem_cons_of_mem _ hj))
      · rw [hrefreshing]
        exact Nat.le_of_succ_le_succ ((availableCount_assignSlot (k := waiter) hshifted).trans_le hbound)

theorem availableCount_setInUse_false (s : Manager) (slot : Nat) :
    availableCount (setInUse s slot false) ≤ availableCount s + 1 := by
  rw [availableCount, availableCount, setInUse]
  cases hslot : s.slots[slot]? with
  | none =>
      rw [List.modify_eq_self (List.getElem?_eq_none_iff.mp hslot)]
      exact Nat.le_add_right _ _
  | some held =>
      rw [modify_eq_set hslot]
      exact countP_set_le_succ available hslot

theorem release_inv (h : Inv s) {k slot : Nat} {sequenceNumber : String}
    (hk : s.acquires[k]? = some (.assigned slot sequenceNumber false)) :
    Inv (release s k slot sequenceNumber) := by
  refine notifyWaiters_inv h.nodup (waiting_moveTo h.waiting hk nofun) (fun hne => ?_)
  exact (availableCount_setInUse_false _ slot).trans (Nat.succ_le_succ (covered_moveTo h hk rfl hne))

theorem timeout_inv (h : Inv s) {k : Nat} (hk : s.acquires[k]? = some .waiting) :
    Inv (timeout s k) := by
  refine ⟨h.nodup.erase k, ?_, fun hne => ?_⟩
  · intro j hj
    obtain ⟨hjk, hmem⟩ := (h.nodup.mem_erase_iff).mp hj
    exact (List.getElem?_set_ne hjk.symm).trans (h.waiting j hmem)
  · refine covered_moveTo h hk rfl (fun hnil => hne ?_)
    rw [timeout, hnil]
    rfl

theorem loaded_inv (h : Inv s) {k slot : Nat} (hk : s.acquires[k]? = some (.loading slot))
    (sequenceNumber : Option String) :
    Inv (loaded s k slot sequenceNumber) :=
  ⟨h.nodup, waiting_moveTo h.waiting hk nofun, covered_moveTo h hk rfl⟩

theorem step_inv {e : Event} (h : Inv s) (hsound : Sound s e) (hstep : step s e = some t) : Inv t := by
  cases moves_of_step hstep with
  | acquire => exact acquire_inv h
  | refreshed slot xlm hk => exact refreshed_inv h hk hsound
  | resume hk => exact resume_inv h hk
  | loaded sequenceNumber hk => exact loaded_inv h hk sequenceNumber
  | release hk => exact release_inv h hk
  | releasedAgain k => exact h
  | timeout hk => exact timeout_inv h hk

end Invariant

section Result

variable {accounts : List ChannelAccount} {minBalanceXlm acquireTimeoutMs : Option JsNumber}
    {first s : Manager}

theorem create_inv (h : create accounts minBalanceXlm acquireTimeoutMs = .ok first) : Inv first := by
  unfold create at h
  split_ifs at h
  obtain rfl := Except.ok.inj h
  exact ⟨.nil, nofun, fun hne => absurd rfl hne⟩

/-- When no call refreshes and a slot is available, nobody waits. -/
theorem no_stranded_waiter (hcreate : create accounts minBalanceXlm acquireTimeoutMs = .ok first)
    (es : List Event)
    (h : Reaches step Sound first es s) (hquiet : ∀ acquire ∈ s.acquires, isRefreshing acquire = false)
    (hfree : ∃ slot ∈ s.slots, available slot) : s.waiters = [] := by
  have hinv := run_invariant (fun _ _ _ hi hok hstep => step_inv hi hok hstep) first s es
    (create_inv hcreate) h.allowed h.run
  by_contra hne
  have hcovered := hinv.covered hne
  have hnone : s.acquires.countP isRefreshing = 0 :=
    List.countP_eq_zero.mpr (fun acquire hacquire hrefreshing =>
      Bool.eq_false_iff.mp (hquiet acquire hacquire) hrefreshing)
  have hsome : 0 < availableCount s := List.countP_pos_iff.mpr hfree
  omega

end Result

section Runs

def pool : Manager where
  minBalanceXlm := .finite 1
  acquireTimeoutMs := .finite 5000
  slots := [{ account := ⟨"GA", "SA"⟩ }, { account := ⟨"GB", "SB"⟩ }]

/-- Both balances are low when the first call refreshes them, and are not when the second one does. -/
def toppedUp : List Event :=
  [.acquire, .refreshed 0 0 (some (.finite 0)), .refreshed 0 1 (some (.finite 0)), .resume 0,
    .acquire, .refreshed 1 0 (some (.finite 9)), .refreshed 1 1 (some (.finite 9)),
    .resume 1, .loaded 1 none]

/-- The first call still waits with the second slot available. -/
theorem stranded : ∃ s ∈ run step pool toppedUp,
    s.waiters = [0] ∧ availableCount s = 1 ∧ ∀ acquire ∈ s.acquires, isRefreshing acquire = false := by
  decide

instance (s : Manager) (slot : Nat) (xlm : Option JsNumber) : Decidable (Frees s slot xlm) := by
  unfold Frees
  infer_instance

instance (s : Manager) (e : Event) : Decidable (Sound s e) := by
  cases e <;> unfold Sound <;> infer_instance

/-- The third call waits until the first one releases its account, and the second one has been released as well. -/
def released : List Event :=
  [.acquire, .refreshed 0 0 (some (.finite 9)), .refreshed 0 1 (some (.finite 9)),
    .resume 0, .loaded 0 (some "7"),
    .acquire, .refreshed 1 0 none, .refreshed 1 1 none, .resume 1, .loaded 1 none,
    .acquire, .refreshed 2 0 none, .refreshed 2 1 none,
    .resume 2, .release 0, .loaded 2 none, .release 1]

theorem no_stranded_waiter_released : ∃ s ∈ run step pool released,
    s.acquires = [.assigned 0 "7" true, .assigned 1 "0" true, .assigned 0 "0" false] ∧
      s.waiters = [] := by
  have hrun : ∃ s ∈ run step pool released,
      s.acquires = [.assigned 0 "7" true, .assigned 1 "0" true, .assigned 0 "0" false] ∧
      (∀ acquire ∈ s.acquires, isRefreshing acquire = false) ∧ ∃ slot ∈ s.slots, available slot := by
    decide
  obtain ⟨s, hs, hacquires, hquiet, hfree⟩ := hrun
  have hcreate : create [⟨"GA", "SA"⟩, ⟨"GB", "SB"⟩] none (some (.finite 5000)) = .ok pool := rfl
  exact ⟨s, hs, hacquires, no_stranded_waiter hcreate released ⟨hs, by decide⟩ hquiet hfree⟩

end Runs

end SplitSdk.ChannelWaiters
