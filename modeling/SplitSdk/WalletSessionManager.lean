import Mathlib.Logic.Function.Basic
import SplitSdk.Interleaving

namespace SplitSdk.WalletSessionManager

structure SessionState where
  walletName : String
  connectedAccount : String
  timestamp : Int
  deriving DecidableEq

/-- What stands under the session key: a session, or a text that is none. -/
inductive Stored
  | session (state : SessionState)
  | unreadable
  deriving DecidableEq

inductive WalletEvent
  | connected (walletName address : String)
  | accountChanged (address : String)
  | disconnected (walletName : Option String)
  deriving DecidableEq

/-- The manager, with what is stored for it and the events it has emitted. -/
structure Manager (α : Type) where
  activeAdapter : Option α := none
  activeWalletName : Option String := none
  connectedAccount : Option String := none
  sessionStorage : Option Stored := none
  emitted : List WalletEvent := []

namespace Manager

variable {α : Type} (name : α → String) (m : Manager α)

/-- A write that throws is logged and leaves the old session. -/
def saveSession (now : Int) (written : Bool) : Manager α :=
  if written then
    { m with sessionStorage := some (.session ⟨m.activeWalletName.getD "", m.connectedAccount.getD "", now⟩) }
  else m

def clearSession (removed : Bool) : Manager α := if removed then { m with sessionStorage := none } else m

def emit (event : WalletEvent) : Manager α := { m with emitted := m.emitted ++ [event] }

/-- The rest of `connect` once the adapter has answered. -/
def finishConnect (adapter : α) (address : String) (now : Int) (written : Bool) : Manager α :=
  let m := { m with
    activeAdapter := some adapter, activeWalletName := some (name adapter), connectedAccount := some address }
  (m.saveSession now written).emit (.connected (name adapter) address)

/-- The listener that a connect leaves with its adapter; where a listener of the event throws, nothing is saved. -/
def accountChange (newAddress : String) (heard : Except String Unit) (now : Int) (written : Bool) : Manager α :=
  let m := { m with connectedAccount := some newAddress }.emit (.accountChanged newAddress)
  match heard with
  | .ok () => m.saveSession now written
  | .error _ => m

/-- Nothing happens where the adapter throws. -/
def disconnect (left : Except String Unit) (removed : Bool) : Manager α :=
  match m.activeAdapter, left with
  | some _, .error _ => m
  | _, _ =>
      let previousWallet := m.activeWalletName
      ({ m with activeAdapter := none, activeWalletName := none, connectedAccount := none }.clearSession removed).emit
        (.disconnected previousWallet)

/-- A session of at most an hour ago is taken up again if its wallet is detected. -/
def restoreSession (now : Int) (detected : List α) (removed : Bool) : Manager α :=
  match m.sessionStorage with
  | none => m
  | some .unreadable => m.clearSession removed
  | some (.session state) =>
      if now - state.timestamp > 3600000 then m.clearSession removed
      else match detected.find? (fun a => name a = state.walletName) with
        | some adapter => { m with
            activeAdapter := some adapter
            activeWalletName := some state.walletName
            connectedAccount := some state.connectedAccount }
        | none => m.clearSession removed

end Manager

end SplitSdk.WalletSessionManager

namespace SplitSdk.WalletAccounts

open Interleaving WalletSessionManager

section Runs

inductive Event (α : Type)
  | connect (adapter : α)
  | settle (call : Nat) (answer : Except String String) (now : Int) (written : Bool)
  | disconnect (left : Except String Unit) (removed : Bool)
  | accountChange (adapter : α) (newAddress : String) (heard : Except String Unit) (now : Int) (written : Bool)

/-- The manager, the adapters of the connects that wait for an answer, the adapters with a listener, and what each adapter reported
last. -/
structure Session (α : Type) where
  manager : Manager α
  pending : List (Option α) := []
  listened : List α := []
  reported : α → Option String

variable {α : Type} [DecidableEq α] (name : α → String)

/-- A manager is made where something may be stored; the address of a session that it takes up was reported before. -/
def start (sessionStorage : Option Stored) (now : Int) (detected : List α) (removed : Bool) : Session α :=
  let manager := Manager.restoreSession name { sessionStorage } now detected removed
  { manager
    listened := manager.activeAdapter.toList
    reported := fun adapter => if manager.activeAdapter = some adapter then manager.connectedAccount else none }

/-- Listeners are never taken back, so every adapter that was once connected may go on reporting. -/
def step (s : Session α) : Event α → Option (Session α)
  | .connect adapter => some { s with pending := s.pending ++ [some adapter] }
  | .settle call answer now written =>
      match s.pending[call]? with
      | some (some adapter) =>
          let s := { s with pending := s.pending.set call none }
          match answer with
          | .error _ => some s
          | .ok address => some { s with
              manager := s.manager.finishConnect name adapter address now written
              listened := s.listened ++ [adapter]
              reported := Function.update s.reported adapter (some address) }
      | _ => none
  | .disconnect left removed => some { s with manager := s.manager.disconnect left removed }
  | .accountChange adapter newAddress heard now written =>
      if adapter ∈ s.listened then
        some { s with
          manager := s.manager.accountChange newAddress heard now written
          reported := Function.update s.reported adapter (some newAddress) }
      else none

/-- What is stored is a session of this wallet and this address. -/
def StoresSession (s : Session α) (adapter : α) (address : String) : Prop :=
  ∃ timestamp, s.manager.sessionStorage = some (.session ⟨name adapter, address, timestamp⟩)

/-- Without an active adapter there is no account and no session; the account of an active one is what it reported last. -/
def Faithful (s : Session α) : Prop :=
  match s.manager.activeAdapter with
  | none => s.manager.connectedAccount = none ∧ s.manager.sessionStorage = none
  | some adapter => ∃ address, s.manager.connectedAccount = some address ∧ s.reported adapter = some address ∧
      StoresSession name s adapter address

/-- The store takes the write of a connect, and the removal of a disconnect, unless there is nothing to change; an account change
comes from the active adapter and is stored, or it brings the account that is connected already. -/
def InTurn (s : Session α) : Event α → Prop
  | .settle call (.ok address) _ written =>
      ∀ adapter, s.pending[call]? = some (some adapter) → written ∨ StoresSession name s adapter address
  | .disconnect left removed => (s.manager.activeAdapter.isSome ∧ left ≠ .ok ()) ∨ removed ∨ s.manager.sessionStorage = none
  | .accountChange adapter newAddress heard _ written => adapter ∈ s.listened → s.manager.activeAdapter.isSome ∧
      (s.manager.connectedAccount = some newAddress ∨
        s.manager.activeAdapter = some adapter ∧ heard = .ok () ∧ written)
  | _ => True

/-- What stands in the store when the manager is made is taken up, or removed, or nothing. -/
def StartsClean (sessionStorage : Option Stored) (now : Int) (detected : List α) (removed : Bool) : Prop :=
  removed ∨ sessionStorage = none ∨
    ∃ state, sessionStorage = some (.session state) ∧ now - state.timestamp ≤ 3600000 ∧
      ∃ adapter ∈ detected, name adapter = state.walletName

end Runs

section Steps

variable {α : Type} {name : α → String} {s : Session α}

theorem faithful_of_some {adapter : α} (h : s.manager.activeAdapter = some adapter) :
    Faithful name s ↔ ∃ address, s.manager.connectedAccount = some address ∧ s.reported adapter = some address ∧
      StoresSession name s adapter address := by
  rw [Faithful, h]

theorem faithful_of_none (h : s.manager.activeAdapter = none) :
    Faithful name s ↔ s.manager.connectedAccount = none ∧ s.manager.sessionStorage = none := by
  rw [Faithful, h]

theorem StoresSession.inj {adapter : α} {address other : String} (h : StoresSession name s adapter address)
    (ho : StoresSession name s adapter other) : address = other := by
  obtain ⟨timestamp, h⟩ := h
  obtain ⟨timestamp', ho⟩ := ho
  have heq := Option.some.inj (h.symm.trans ho)
  exact congrArg SessionState.connectedAccount (Stored.session.inj heq)

/-- The wallet name is that of the active adapter. -/
def Named (name : α → String) (s : Session α) : Prop := s.manager.activeWalletName = s.manager.activeAdapter.map name

theorem named_saveSession {m : Manager α} (h : m.activeWalletName = m.activeAdapter.map name) (now : Int) (written : Bool) :
    (m.saveSession now written).activeWalletName = (m.saveSession now written).activeAdapter.map name := by
  unfold Manager.saveSession
  split_ifs <;> exact h

theorem disconnect_iff (hfaithful : Faithful name s) (left : Except String Unit) (removed : Bool) :
    Faithful name { s with manager := s.manager.disconnect left removed } ↔
      InTurn name s (.disconnect left removed) := by
  by_cases hthrown : s.manager.activeAdapter.isSome ∧ left ≠ .ok ()
  · have hsame : s.manager.disconnect left removed = s.manager := by
      obtain ⟨adapter, hactive⟩ := Option.isSome_iff_exists.mp hthrown.1
      unfold Manager.disconnect
      rw [hactive]
      cases left with
      | ok left => exact absurd rfl hthrown.2
      | error message => rfl
    rw [hsame]
    exact iff_of_true hfaithful (.inl hthrown)
  · have hgone : s.manager.disconnect left removed =
        ({ s.manager with activeAdapter := none, activeWalletName := none, connectedAccount := none }.clearSession
          removed).emit (.disconnected s.manager.activeWalletName) := by
      unfold Manager.disconnect
      split
      next adapter message hactive => exact absurd ⟨by rw [hactive]; rfl, by simp⟩ hthrown
      next => rfl
    rw [hgone]
    have hturn : InTurn name s (.disconnect left removed) ↔ removed ∨ s.manager.sessionStorage = none :=
      or_iff_right hthrown
    rw [hturn]
    cases removed with
    | true => exact iff_of_true ⟨rfl, rfl⟩ (.inl rfl)
    | false =>
        rw [faithful_of_none rfl]
        simp [Manager.emit, Manager.clearSession]

variable [DecidableEq α] {t : Session α} {e : Event α}

theorem step_named (h : Named name s) (hstep : step name s e = some t) : Named name t := by
  cases e with
  | connect adapter =>
      cases hstep
      exact h
  | settle call answer now written =>
      rw [step] at hstep
      split at hstep
      next adapter hcall =>
        cases answer with
        | error message =>
            cases hstep
            exact h
        | ok address =>
            cases hstep
            exact named_saveSession rfl now written
      next => cases hstep
  | disconnect left removed =>
      cases hstep
      unfold Named Manager.disconnect
      split
      · exact h
      · unfold Manager.clearSession
        split_ifs <;> rfl
  | accountChange adapter newAddress heard now written =>
      rw [step] at hstep
      split_ifs at hstep
      cases hstep
      cases heard with
      | error message => exact h
      | ok heard => cases written <;> exact h

theorem settle_iff {call : Nat} {address : String} {now : Int} {written : Bool}
    (hstep : step name s (.settle call (.ok address) now written) = some t) :
    Faithful name t ↔ InTurn name s (.settle call (.ok address) now written) := by
  rw [step] at hstep
  split at hstep
  next adapter hcall =>
    cases hstep
    have hactive (stored : Bool) (m : Manager α) : (m.finishConnect name adapter address now stored).activeAdapter =
        some adapter ∧ (m.finishConnect name adapter address now stored).connectedAccount = some address := by
      cases stored <;> exact ⟨rfl, rfl⟩
    rw [faithful_of_some (hactive written s.manager).1]
    have hturn : InTurn name s (.settle call (.ok address) now written) ↔ written ∨ StoresSession name s adapter address := by
      simp [InTurn, hcall]
    rw [hturn]
    constructor
    · rintro ⟨other, hother, -, hstores⟩
      obtain rfl := Option.some.inj ((hactive written s.manager).2.symm.trans hother)
      cases written with
      | true => exact .inl rfl
      | false => exact .inr hstores
    · intro h
      refine ⟨address, (hactive written s.manager).2, Function.update_self _ _ _, ?_⟩
      cases written with
      | true => exact ⟨now, rfl⟩
      | false => exact h.resolve_left Bool.false_ne_true
  next => cases hstep

theorem accountChange_iff (hnamed : Named name s) (hfaithful : Faithful name s) {adapter : α} {newAddress : String}
    {heard : Except String Unit} {now : Int} {written : Bool}
    (hstep : step name s (.accountChange adapter newAddress heard now written) = some t) :
    Faithful name t ↔ InTurn name s (.accountChange adapter newAddress heard now written) := by
  rw [step] at hstep
  split_ifs at hstep with hlistened
  cases hstep
  have hactive : (s.manager.accountChange newAddress heard now written).activeAdapter = s.manager.activeAdapter ∧
      (s.manager.accountChange newAddress heard now written).connectedAccount = some newAddress := by
    cases heard with
    | error message => exact ⟨rfl, rfl⟩
    | ok heard => cases written <;> exact ⟨rfl, rfl⟩
  have hturn : InTurn name s (.accountChange adapter newAddress heard now written) ↔ s.manager.activeAdapter.isSome ∧
      (s.manager.connectedAccount = some newAddress ∨
        s.manager.activeAdapter = some adapter ∧ heard = .ok () ∧ written) := by
    simp [InTurn, hlistened]
  rw [hturn]
  cases hcurrent : s.manager.activeAdapter with
  | none =>
      rw [faithful_of_none (hactive.1.trans hcurrent)]
      refine iff_of_false (fun h => ?_) (by simp)
      rw [hactive.2] at h
      cases h.1
  | some current =>
      obtain ⟨address, haccount, hreported, hstores⟩ := (faithful_of_some hcurrent).mp hfaithful
      have hstored : StoresSession name
          { s with manager := s.manager.accountChange newAddress heard now written } current newAddress ↔
            (heard = .ok () ∧ written) ∨ address = newAddress := by
        have hname : s.manager.activeWalletName.getD "" = name current := by
          rw [hnamed, hcurrent]
          rfl
        have hkept : StoresSession name s current newAddress ↔ address = newAddress :=
          ⟨hstores.inj, fun heq => heq ▸ hstores⟩
        cases heard with
        | error message =>
            rw [or_iff_right (by simp)]
            exact hkept
        | ok heard =>
            cases written with
            | false =>
                rw [or_iff_right (by simp)]
                exact hkept
            | true =>
                refine iff_of_true ⟨now, ?_⟩ (.inl ⟨rfl, rfl⟩)
                change some (Stored.session ⟨s.manager.activeWalletName.getD "", newAddress, now⟩) = _
                rw [hname]
      rw [faithful_of_some (hactive.1.trans hcurrent), haccount, Option.some.injEq, Option.some.injEq]
      constructor
      · rintro ⟨_, haddress, hlast, hkept⟩
        obtain rfl := Option.some.inj (hactive.2.symm.trans haddress)
        refine ⟨rfl, ?_⟩
        rcases hstored.mp hkept with hwritten | hsame
        · by_cases hown : current = adapter
          · exact .inr ⟨hown, hwritten⟩
          · have hlast : s.reported current = some newAddress := (Function.update_of_ne hown _ _).symm.trans hlast
            exact .inl (Option.some.inj (hreported.symm.trans hlast))
        · exact .inl hsame
      · rintro ⟨-, h⟩
        refine ⟨newAddress, hactive.2, ?_, hstored.mpr (h.symm.imp_left And.right)⟩
        by_cases hown : current = adapter
        · rw [hown]
          exact Function.update_self _ _ _
        · have hsame := h.resolve_right (fun hwritten => hown hwritten.1)
          exact (Function.update_of_ne hown _ _).trans (hsame ▸ hreported)

end Steps

section Result

variable {α : Type} [DecidableEq α] {name : α → String}

theorem step_iff {s t : Session α} {e : Event α} (hnamed : Named name s) (hfaithful : Faithful name s)
    (hstep : step name s e = some t) : Faithful name t ↔ InTurn name s e := by
  cases e with
  | connect adapter =>
      cases hstep
      exact iff_of_true hfaithful trivial
  | settle call answer now written =>
      cases answer with
      | ok address => exact settle_iff hstep
      | error message =>
          rw [step] at hstep
          split at hstep
          next adapter hcall =>
            cases hstep
            exact iff_of_true hfaithful trivial
          next => cases hstep
  | disconnect left removed =>
      cases hstep
      exact disconnect_iff hfaithful left removed
  | accountChange adapter newAddress heard now written => exact accountChange_iff hnamed hfaithful hstep

theorem inTurn_of_none {s : Session α} {e : Event α} (hstep : step name s e = none) : InTurn name s e := by
  cases e with
  | connect | disconnect => cases hstep
  | settle call answer now written =>
      cases answer with
      | error message => trivial
      | ok address =>
          intro adapter hcall
          rw [step, hcall] at hstep
          cases hstep
  | accountChange adapter newAddress heard now written =>
      intro hlistened
      rw [step, if_pos hlistened] at hstep
      cases hstep

/-- A manager that takes no session up is faithful exactly if nothing is left in the store. -/
theorem cleared_spec (sessionStorage : Option Stored) (removed : Bool) {now : Int} {detected : List α}
    (h : Manager.restoreSession name { sessionStorage } now detected removed =
      ({ sessionStorage } : Manager α).clearSession removed) :
    Named name (start name sessionStorage now detected removed) ∧
      (Faithful name (start name sessionStorage now detected removed) ↔ removed ∨ sessionStorage = none) := by
  rw [start, h]
  cases removed with
  | true => exact ⟨rfl, iff_of_true ⟨rfl, rfl⟩ (.inl rfl)⟩
  | false =>
      refine ⟨rfl, ?_⟩
      rw [faithful_of_none rfl]
      simp [Manager.clearSession]

theorem start_spec (sessionStorage : Option Stored) (now : Int) (detected : List α) (removed : Bool) :
    Named name (start name sessionStorage now detected removed) ∧
      (Faithful name (start name sessionStorage now detected removed) ↔
        StartsClean name sessionStorage now detected removed) := by
  have hcleared (h : Manager.restoreSession name { sessionStorage } now detected removed =
      ({ sessionStorage } : Manager α).clearSession removed)
      (hnone : ∀ state, sessionStorage = some (.session state) → now - state.timestamp ≤ 3600000 →
        ∀ adapter ∈ detected, name adapter ≠ state.walletName) : Named name (start name sessionStorage now detected removed) ∧
      (Faithful name (start name sessionStorage now detected removed) ↔
        StartsClean name sessionStorage now detected removed) := by
    obtain ⟨hnamed, hiff⟩ := cleared_spec sessionStorage removed h
    refine ⟨hnamed, hiff.trans (or_congr_right ?_)⟩
    refine (or_iff_left ?_).symm
    rintro ⟨state, hstate, hrecent, adapter, hadapter, hname⟩
    exact hnone state hstate hrecent adapter hadapter hname
  match hstored : sessionStorage with
  | none => exact ⟨rfl, iff_of_true ⟨rfl, rfl⟩ (.inr (.inl rfl))⟩
  | some .unreadable => exact hcleared rfl (fun _ h => nomatch h)
  | some (.session state) =>
      by_cases hold : now - state.timestamp > 3600000
      · refine hcleared ?_ ?_
        · exact if_pos hold
        · rintro _ ⟨⟩ hrecent
          omega
      · cases hfind : detected.find? (fun a => name a = state.walletName) with
        | none =>
            refine hcleared ?_ ?_
            · refine (if_neg hold).trans ?_
              dsimp only
              rw [hfind]
            · rintro _ ⟨⟩ - adapter hadapter hname
              exact absurd (decide_eq_true hname) (List.find?_eq_none.mp hfind adapter hadapter)
        | some adapter =>
            have hname : name adapter = state.walletName := by simpa using List.find?_some hfind
            have hrestored : Manager.restoreSession name { sessionStorage := some (.session state) } now detected removed =
                ⟨some adapter, some state.walletName, some state.connectedAccount, some (.session state), []⟩ := by
              refine (if_neg hold).trans ?_
              dsimp only
              rw [hfind]
            rw [start, hrestored]
            refine ⟨congrArg some hname.symm, iff_of_true ?_ (.inr (.inr ⟨state, rfl, by omega, adapter, ?_, hname⟩))⟩
            · rw [faithful_of_some rfl]
              exact ⟨state.connectedAccount, rfl, if_pos rfl, state.timestamp, by rw [hname]⟩
            · exact List.mem_of_find?_eq_some hfind

/-- The account and the session are those of the active wallet in every state of a run, from the start on, exactly if the manager
starts clean and every step is in turn. -/
theorem account_of_active_iff (name : α → String) (sessionStorage : Option Stored) (now : Int) (detected : List α)
    (removed : Bool) (es : List (Event α)) :
    (Faithful name (start name sessionStorage now detected removed) ∧
      Allowed (step name) (fun s e => ∀ t, step name s e = some t → Faithful name t)
        (start name sessionStorage now detected removed) es) ↔
      StartsClean name sessionStorage now detected removed ∧
        Allowed (step name) (InTurn name) (start name sessionStorage now detected removed) es := by
  obtain ⟨hnamed, hstart⟩ := @start_spec α _ name sessionStorage now detected removed
  rw [hstart]
  refine and_congr_right fun hclean => ?_
  refine allowed_iff (I := fun s => Named name s ∧ Faithful name s) ?_ ?_ ⟨hnamed, hstart.mpr hclean⟩ es
  · intro s e t hs hok hstep
    exact ⟨step_named hs.1 hstep, hok t hstep⟩
  · intro s e hs
    cases hstep : step name s e with
    | none => exact iff_of_true (fun _ h => nomatch h) (inTurn_of_none hstep)
    | some t =>
        rw [← step_iff hs.1 hs.2 hstep]
        exact ⟨fun h => h t rfl, fun h _ ht => Option.some.inj ht ▸ h⟩

/-- A wallet that was connected before reports another account: it is shown as that of the wallet connected since. -/
theorem earlier_wallet_heard :
    ¬(Faithful Nat.repr (start Nat.repr none 0 [] true) ∧
      Allowed (step Nat.repr) (fun s e => ∀ t, step Nat.repr s e = some t → Faithful Nat.repr t)
        (start Nat.repr none 0 [] true)
        [.connect 0, .settle 0 (.ok "GA") 0 true, .connect 1, .settle 1 (.ok "GB") 0 true,
          .accountChange 0 "GC" (.ok ()) 0 true]) := by
  rintro ⟨-, h⟩
  have hlast := ((((h.2 _ rfl).2 _ rfl).2 _ rfl).2 _ rfl).1 _ rfl
  obtain ⟨address, haccount, hreported, -⟩ := hlast
  cases haccount
  revert hreported
  decide

end Result

end SplitSdk.WalletAccounts
