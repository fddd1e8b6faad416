import SplitSdk.ChannelAccountManager

namespace SplitSdk.ChannelExclusivity

open ChannelAccountManager Interleaving Numbers

section Statement

/-- The assignment of the call is not released, and has the account. -/
def Unreleased (s : Manager) (k : Nat) (account : ChannelAccount) : Prop :=
  ∃ slot sequenceNumber held, s.acquires[k]? = some (.assigned slot sequenceNumber false) ∧
    s.slots[slot]? = some held ∧ held.account = account

end Statement

section Invariant

variable {s t : Manager}

/-- The slot that a call has claimed and not released. -/
def holds : Acquire → Option Nat
  | .loading slot | .assigned slot _ false => some slot
  | _ => none

def InUse (s : Manager) (slot : Nat) : Prop := ∃ held, s.slots[slot]? = some held ∧ held.inUse

/-- A slot is held by one call at most, and is in use then. -/
structure Inv (s : Manager) : Prop where
  exclusive : ∀ (j k : Nat) (a b : Acquire) (slot : Nat), s.acquires[j]? = some a →
    s.acquires[k]? = some b →
    holds a = some slot → holds b = some slot → j = k
  inUse : ∀ a ∈ s.acquires, ∀ slot, holds a = some slot → InUse s slot

theorem Inv.slots (h : Inv s) (hacquires : t.acquires = s.acquires)
    (hslots : ∀ slot, InUse s slot → InUse t slot) : Inv t := by
  refine ⟨hacquires ▸ h.exclusive, ?_⟩
  intro a ha slot hslot
  exact hslots slot (h.inUse a (hacquires ▸ ha) slot hslot)

/-- A call moves on and holds no slot that it did not hold. -/
theorem Inv.moveTo (h : Inv s) {k : Nat} {before next : Acquire} (hk : s.acquires[k]? = some before)
    (hholds : ∀ slot, holds next = some slot → holds before = some slot) : Inv (moveTo s k next) := by
  refine ⟨exclusive_set_of_imp h.exclusive hk hholds, forall_mem_set h.inUse ?_⟩
  intro slot hslot
  exact h.inUse before (List.mem_of_getElem? hk) slot (hholds slot hslot)

theorem inUse_setInUse {slot other : Nat} {inUse : Bool} (h : InUse s other)
    (hne : other = slot → inUse = true) :
    InUse (setInUse s slot inUse) other := by
  obtain ⟨held, hheld, hinUse⟩ := h
  by_cases heq : slot = other
  · subst heq
    refine ⟨{ held with inUse }, ?_, hne rfl⟩
    rw [setInUse, modify_eq_set hheld]
    exact List.getElem?_set_self (List.getElem?_eq_some_iff.mp hheld).1
  · exact ⟨held, (List.getElem?_modify_ne _ _ heq).trans hheld, hinUse⟩

/-- A slot that is available is held by no call. -/
theorem Inv.not_held (h : Inv s) {slot : Nat} {held : PoolSlot} (hslot : s.slots[slot]? = some held)
    (havailable : available held) :
    ∀ a ∈ s.acquires, holds a ≠ some slot := by
  intro a ha hholds
  obtain ⟨other, hother, hinUse⟩ := h.inUse a ha slot hholds
  obtain rfl : other = held := Option.some.inj (hother.symm.trans hslot)
  rw [available, hinUse] at havailable
  nomatch havailable

theorem assignSlot_inv (h : Inv s) {slot : Nat} (k : Nat)
    (hfind : findAvailableSlot s = some slot) : Inv (assignSlot s k slot) := by
  obtain ⟨held, hslot, havailable⟩ := findAvailableSlot_eq_some hfind
  have hfree := h.not_held hslot havailable
  refine ⟨?_, ?_⟩
  · refine exclusive_set h.exclusive (fun other hother j a hj ha => ?_)
    exact absurd (ha.trans hother.symm) (hfree a (List.mem_of_getElem? hj))
  · intro a ha other hholds
    rcases List.mem_or_eq_of_mem_set ha with hold | rfl
    · exact inUse_setInUse (h.inUse a hold other hholds) (fun _ => rfl)
    · obtain rfl : slot = other := Option.some.inj hholds
      refine ⟨{ held with inUse := true }, ?_, rfl⟩
      rw [assignSlot, ChannelAccountManager.moveTo, setInUse, modify_eq_set hslot]
      exact List.getElem?_set_self (List.getElem?_eq_some_iff.mp hslot).1

theorem notifyWaiters_inv (h : Inv s) : Inv (notifyWaiters s) := by
  unfold notifyWaiters
  split
  · exact h
  · rename_i waiter waiters hwaiters
    split
    · exact h
    · rename_i slot hfind
      have hshifted : Inv { s with waiters } := h.slots rfl (fun _ => id)
      unfold wake
      split
      · exact assignSlot_inv hshifted waiter hfind
      · exact hshifted

theorem release_inv (h : Inv s) {k slot : Nat} {sequenceNumber : String}
    (hk : s.acquires[k]? = some (.assigned slot sequenceNumber false)) :
    Inv (release s k slot sequenceNumber) := by
  apply notifyWaiters_inv
  have hmoved : Inv (moveTo s k (.assigned slot sequenceNumber true)) := h.moveTo hk nofun
  refine ⟨hmoved.exclusive, ?_⟩
  intro a ha other hholds
  refine inUse_setInUse (hmoved.inUse a ha other hholds) ?_
  rintro rfl
  -- the call that has released the slot was the one that held it
  obtain ⟨j, hj⟩ := List.mem_iff_getElem?.mp ha
  rcases of_getElem?_set hj with ⟨-, rfl⟩ | ⟨hne, hold⟩
  · nomatch hholds
  · exact absurd (h.exclusive j k a _ other hold hk hholds rfl) hne

end Invariant

section Steps

variable {s t : Manager}

theorem refreshed_inv (h : Inv s) {k : Nat} {pending : List Nat}
    (hk : s.acquires[k]? = some (.refreshing pending)) (slot : Nat)
    (xlm : Option JsNumber) : Inv (refreshed s k slot pending xlm) := by
  have hmoved : Inv (moveTo s k (.refreshing (pending.erase slot))) := h.moveTo hk nofun
  refine hmoved.slots rfl ?_
  rintro other ⟨held, hheld, hinUse⟩
  cases xlm with
  | none => exact ⟨held, hheld, hinUse⟩
  | some xlm =>
      by_cases heq : slot = other
      · subst heq
        refine ⟨{ held with lowBalance := xlm.lt s.minBalanceXlm }, ?_, hinUse⟩
        refine (congrArg (·[slot]?) (modify_eq_set hheld _)).trans ?_
        exact List.getElem?_set_self (List.getElem?_eq_some_iff.mp hheld).1
      · exact ⟨held, (List.getElem?_modify_ne _ _ heq).trans hheld, hinUse⟩

theorem resume_inv (h : Inv s) {k : Nat} (hk : s.acquires[k]? = some (.refreshing [])) :
    Inv (resume s k) := by
  unfold resume
  split
  · rename_i slot hfind
    exact assignSlot_inv h k hfind
  · have hmoved : Inv (moveTo s k .waiting) := h.moveTo hk nofun
    exact hmoved.slots rfl (fun _ => id)

theorem acquire_inv (h : Inv s) : Inv (acquire s) := by
  refine ⟨exclusive_push h.exclusive nofun, ?_⟩
  intro a ha slot hslot
  rcases List.mem_append.mp ha with hold | hnew
  · exact h.inUse a hold slot hslot
  · rw [List.mem_singleton.mp hnew] at hslot
    nomatch hslot

theorem step_inv {e : Event} (h : Inv s) (hstep : step s e = some t) : Inv t := by
  cases moves_of_step hstep with
  | acquire => exact acquire_inv h
  | refreshed slot xlm hk => exact refreshed_inv h hk slot xlm
  | resume hk => exact resume_inv h hk
  | loaded sequenceNumber hk => exact h.moveTo hk (fun _ => id)
  | release hk => exact release_inv h hk
  | releasedAgain k => exact h
  | timeout hk =>
      have hmoved : Inv (moveTo s _ (.rejected ⟨s.slots.length, s.acquireTimeoutMs⟩)) :=
        h.moveTo hk nofun
      exact hmoved.slots rfl (fun _ => id)

end Steps

section Counting

variable {s t : Manager}

def heldCount (s : Manager) : Nat := s.acquires.countP (fun a => (holds a).isSome)

/-- As many slots are in use as are held, so that none is lost. -/
def Balanced (s : Manager) : Prop := inUseCount s = heldCount s

theorem moveTo_balanced (h : Balanced s) {k : Nat} {before next : Acquire}
    (hk : s.acquires[k]? = some before)
    (hholds : (holds next).isSome = (holds before).isSome) : Balanced (moveTo s k next) :=
  h.trans (countP_set_same (fun a => (holds a).isSome) hk hholds).symm

theorem inUseCount_assignSlot {k slot : Nat} (hfind : findAvailableSlot s = some slot) :
    inUseCount (assignSlot s k slot) = inUseCount s + 1 := by
  obtain ⟨held, hslot, havailable, hslots⟩ := assignSlot_slots (k := k) hfind
  have hcount := countP_set PoolSlot.inUse (u := { held with inUse := true }) hslot
  obtain ⟨hfree, -⟩ := Bool.and_eq_true_iff.mp havailable
  rw [Bool.not_eq_true'] at hfree
  rw [hfree] at hcount
  rw [inUseCount, inUseCount, hslots]
  simpa using hcount

theorem assignSlot_balanced (h : Balanced s) {k slot : Nat} {before : Acquire}
    (hk : s.acquires[k]? = some before)
    (hbefore : holds before = none) (hfind : findAvailableSlot s = some slot) :
    Balanced (assignSlot s k slot) := by
  have hcount := countP_set (fun a => (holds a).isSome) (u := .loading slot) hk
  rw [hbefore] at hcount
  have hheld : heldCount (assignSlot s k slot) = heldCount s + 1 := hcount
  rw [Balanced, inUseCount_assignSlot hfind, hheld, h]

theorem notifyWaiters_balanced (h : Balanced s) : Balanced (notifyWaiters s) := by
  unfold notifyWaiters
  split
  · exact h
  · rename_i waiter waiters hwaiters
    split
    · exact h
    · rename_i slot hfind
      have hshifted : Balanced { s with waiters } := h
      unfold wake
      split
      · rename_i hwaiting
        exact assignSlot_balanced hshifted hwaiting rfl hfind
      · exact hshifted

theorem release_balanced (h : Balanced s) (hi : Inv s) {k slot : Nat} {sequenceNumber : String}
    (hk : s.acquires[k]? = some (.assigned slot sequenceNumber false)) :
    Balanced (release s k slot sequenceNumber) := by
  apply notifyWaiters_balanced
  obtain ⟨held, hheld, hinUse⟩ := hi.inUse _ (List.mem_of_getElem? hk) slot rfl
  have hslots := countP_set PoolSlot.inUse (u := { held with inUse := false }) hheld
  have hacquires := countP_set (fun a => (holds a).isSome) (u := .assigned slot sequenceNumber true) hk
  rw [hinUse] at hslots
  have hfewer : inUseCount (setInUse s slot false) + 1 = inUseCount s := by
    rw [inUseCount, setInUse, modify_eq_set hheld]
    exact hslots
  have hreleased : heldCount (moveTo s k (.assigned slot sequenceNumber true)) + 1 = heldCount s :=
    hacquires
  exact Nat.add_right_cancel (hfewer.trans (h.trans hreleased.symm))

theorem inUseCount_refreshed (s : Manager) (k slot : Nat) (pending : List Nat) (xlm : Option JsNumber) :
    inUseCount (refreshed s k slot pending xlm) = inUseCount s := by
  obtain ⟨low, hslots, -⟩ := refreshed_slots s k slot pending xlm
  rw [inUseCount, hslots]
  cases hslot : s.slots[slot]? with
  | none =>
      rw [List.modify_eq_self (List.getElem?_eq_none_iff.mp hslot)]
      rfl
  | some held =>
      rw [modify_eq_set hslot]
      exact countP_set_same PoolSlot.inUse hslot rfl

theorem step_balanced {e : Event} (h : Balanced s) (hi : Inv s) (hstep : step s e = some t) :
    Balanced t := by
  cases moves_of_step hstep with
  | acquire =>
      refine h.trans ?_
      rw [heldCount, heldCount, acquire, List.countP_append]
      rfl
  | @refreshed k pending slot xlm hk =>
      have hmoved : Balanced (moveTo s k (.refreshing (pending.erase slot))) := moveTo_balanced h hk rfl
      exact (inUseCount_refreshed s k slot pending xlm).trans hmoved
  | resume hk =>
      unfold resume
      split
      · rename_i slot hfind
        exact assignSlot_balanced h hk rfl hfind
      · exact moveTo_balanced h hk rfl
  | loaded sequenceNumber hk => exact moveTo_balanced h hk rfl
  | release hk => exact release_balanced h hi hk
  | releasedAgain k => exact h
  | timeout hk => exact moveTo_balanced h hk rfl

end Counting

section Result

variable {accounts : List ChannelAccount} {minBalanceXlm acquireTimeoutMs : Option JsNumber}
    {first s : Manager}

theorem create_eq (h : create accounts minBalanceXlm acquireTimeoutMs = .ok first) :
    first.acquires = [] ∧ first.slots.map PoolSlot.account = accounts := by
  unfold create at h
  split_ifs at h
  obtain rfl := Except.ok.inj h
  refine ⟨rfl, ?_⟩
  rw [List.map_map]
  exact List.map_id _

theorem create_inv (h : create accounts minBalanceXlm acquireTimeoutMs = .ok first) : Inv first := by
  obtain ⟨hacquires, -⟩ := create_eq h
  refine ⟨hacquires ▸ exclusive_nil, ?_⟩
  intro a ha
  rw [hacquires] at ha
  nomatch ha

theorem create_balanced (h : create accounts minBalanceXlm acquireTimeoutMs = .ok first) :
    Balanced first := by
  unfold create at h
  split_ifs at h
  obtain rfl := Except.ok.inj h
  refine List.countP_eq_zero.mpr ?_
  intro slot hslot hinUse
  obtain ⟨account, -, rfl⟩ := List.mem_map.mp hslot
  nomatch hinUse

/-- No slot is lost: those in use are the ones that the calls hold. -/
theorem inUseCount_eq_heldCount
    (hcreate : create accounts minBalanceXlm acquireTimeoutMs = .ok first) (es : List Event)
    (hrun : run step first es = some s) : inUseCount s = heldCount s :=
  (run_preserves (I := fun s => Inv s ∧ Balanced s)
    (fun _ _ _ hi hstep => ⟨step_inv hi.1 hstep, step_balanced hi.2 hi.1 hstep⟩)
    ⟨create_inv hcreate, create_balanced hcreate⟩ hrun).2

/-- Two calls with unreleased assignments have different accounts. -/
theorem assignments_exclusive (hkeys : (accounts.map ChannelAccount.publicKey).Nodup)
    (hcreate : create accounts minBalanceXlm acquireTimeoutMs = .ok first) (es : List Event)
    (hrun : run step first es = some s)
    {j k : Nat} {a b : ChannelAccount} (hj : Unreleased s j a) (hk : Unreleased s k b) (hne : j ≠ k) :
    a.publicKey ≠ b.publicKey := by
  intro hkey
  have hinv := run_preserves (I := fun s => Inv s ∧ s.slots.map PoolSlot.account = accounts)
    (fun _ _ _ hi hstep => ⟨step_inv hi.1 hstep, (step_accounts hstep).trans hi.2⟩)
    ⟨create_inv hcreate, (create_eq hcreate).2⟩ hrun
  obtain ⟨slot, n, held, hassigned, hheld, rfl⟩ := hj
  obtain ⟨other, m, held', hassigned', hheld', rfl⟩ := hk
  have hpublic : ((s.slots.map PoolSlot.account).map ChannelAccount.publicKey).Nodup :=
    hinv.2.symm ▸ hkeys
  rw [List.map_map] at hpublic
  have hslot : slot = other := eq_of_nodup_map _ hpublic hheld hheld' hkey
  exact hne (hinv.1.exclusive j k _ _ slot hassigned hassigned' rfl (hslot ▸ rfl))

end Result

section Runs

def pool : Manager where
  minBalanceXlm := .finite 1
  acquireTimeoutMs := .finite 5000
  slots := [{ account := ⟨"GA", "SA"⟩ }, { account := ⟨"GB", "SB"⟩ }, { account := ⟨"GC", "SC"⟩ }]

/-- The second account is low at first; the first one is released, and released again when another call has it. -/
def releasedTwice : List Event :=
  [.acquire, .refreshed 0 0 none, .refreshed 0 1 (some (.finite 0)), .refreshed 0 2 none,
    .resume 0, .loaded 0 (some "7"), .release 0,
    .acquire, .refreshed 1 0 none, .refreshed 1 1 none, .refreshed 1 2 none,
    .resume 1, .loaded 1 none, .release 0,
    .acquire, .refreshed 2 0 none, .refreshed 2 1 none, .refreshed 2 2 none,
    .resume 2, .loaded 2 none]

theorem assignments_exclusive_releasedTwice : ∃ s ∈ run step pool releasedTwice,
    s.acquires = [.assigned 0 "7" true, .assigned 0 "0" false, .assigned 2 "0" false] ∧
      (ChannelAccount.mk "GA" "SA").publicKey ≠ (ChannelAccount.mk "GC" "SC").publicKey := by
  have hrun : ∃ s ∈ run step pool releasedTwice,
      s.acquires = [.assigned 0 "7" true, .assigned 0 "0" false, .assigned 2 "0" false] ∧
      s.slots.map PoolSlot.account = [⟨"GA", "SA"⟩, ⟨"GB", "SB"⟩, ⟨"GC", "SC"⟩] := by
    decide
  obtain ⟨s, hs, hacquires, haccounts⟩ := hrun
  refine ⟨s, hs, hacquires, ?_⟩
  have hunreleased {k slot : Nat} {account : ChannelAccount} {n : String}
    (hk : s.acquires[k]? = some (.assigned slot n false))
      (hslot : (s.slots.map PoolSlot.account)[slot]? = some account) : Unreleased s k account := by
    obtain ⟨held, hheld, rfl⟩ := Option.map_eq_some_iff.mp (List.getElem?_map.symm.trans hslot)
    exact ⟨slot, n, held, hk, hheld, rfl⟩
  have hcreate : create [⟨"GA", "SA"⟩, ⟨"GB", "SB"⟩, ⟨"GC", "SC"⟩] none (some (.finite 5000)) =
      .ok pool := rfl
  have hfirst : Unreleased s 1 ⟨"GA", "SA"⟩ :=
    hunreleased (by rw [hacquires]; rfl) (by rw [haccounts]; rfl)
  have hsecond : Unreleased s 2 ⟨"GC", "SC"⟩ :=
    hunreleased (by rw [hacquires]; rfl) (by rw [haccounts]; rfl)
  exact assignments_exclusive (by decide) hcreate releasedTwice hs hfirst hsecond (by decide)

end Runs

end SplitSdk.ChannelExclusivity
