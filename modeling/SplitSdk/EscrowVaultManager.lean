import SplitSdk.OrderedMap
import SplitSdk.Interleaving

namespace SplitSdk.EscrowVaultManager

open OrderedMap

section Data

inductive EscrowStatus
  | holding
  | released
  | expired
  deriving DecidableEq

def EscrowStatus.text : EscrowStatus → String
  | .holding => "holding"
  | .released => "released"
  | .expired => "expired"

structure EscrowVault where
  holdUntil : Int
  status : EscrowStatus
  releasedAt : Option Int := none
  recipientId : Option String := none

inductive Failure
  | vaultNotFound (vaultId : String)
  | notHolding (vaultId : String) (status : EscrowStatus)
  | beforeHoldUntil (vaultId : String) (holdUntil : Int)
  /-- The key pair, Horizon or the transaction builder failed. -/
  | rejected (message : String)
  deriving DecidableEq

def Failure.message (toISOString : Int → String) : Failure → String
  | .vaultNotFound vaultId => "Escrow vault not found: " ++ vaultId
  | .notHolding vaultId status =>
      "Cannot release vault \"" ++ vaultId ++ "\": current status is \"" ++ status.text ++ "\"."
  | .beforeHoldUntil vaultId holdUntil =>
      "Cannot release vault \"" ++ vaultId ++ "\" before holdUntil (" ++ toISOString holdUntil ++ ")."
  | .rejected message => message

/-- The `await` at which a call of `release` is. -/
inductive Stage
  | importing
  | loading
  | submitting
  deriving DecidableEq

inductive Release
  | waiting (stage : Stage) (vaultId recipientId : String)
  | returned (txHash : String)
  | threw (failure : Failure)
  deriving DecidableEq

inductive Query
  /-- `getStatus` at its `await`; `rest` are the vaults that are left when the polling loop called it. -/
  | checking (vaultId : String) (rest : Option (List String))
  | polling (rest : List String)
  | returned (status : EscrowStatus)
  | threw (failure : Failure)

inductive EventName
  | escrowReleased
  | escrowExpired
  deriving DecidableEq

/-- The vaults are shared objects, so a call that resumes sees what the others wrote. -/
structure Manager where
  vaultStore : OrdMap String EscrowVault
  releases : List Release := []
  queries : List Query := []
  emitted : List (EventName × String) := []

end Data

section Release

/-- The checks of `release`. -/
def releasable (s : Manager) (vaultId : String) (now : Int) : Except Failure EscrowVault :=
  match s.vaultStore.get? vaultId with
  | none => .error (.vaultNotFound vaultId)
  | some vault =>
      if vault.status ≠ .holding then .error (.notHolding vaultId vault.status)
      else if now < vault.holdUntil then .error (.beforeHoldUntil vaultId vault.holdUntil)
      else .ok vault

def release (s : Manager) (vaultId recipientId : String) (now : Int) : Manager :=
  match releasable s vaultId now with
  | .error e => { s with releases := s.releases ++ [.threw e] }
  | .ok _ => { s with releases := s.releases ++ [.waiting .importing vaultId recipientId] }

/-- From one `await` of `release` to the next, unless something throws between them. -/
def proceed (s : Manager) (i : Nat) (stage : Stage) (vaultId recipientId : String) (error : Option String) : Manager :=
  let next := error.elim (.waiting stage vaultId recipientId) (fun message => .threw (.rejected message))
  { s with releases := s.releases.set i next }

/-- From the answer of `submitTransaction`, which may be an error with a message. -/
def submitted (s : Manager) (i : Nat) (vaultId recipientId : String) (vault : EscrowVault)
    (answer : Except String String) (now : Int) : Manager :=
  match answer with
  | .error message => { s with releases := s.releases.set i (.threw (.rejected message)) }
  | .ok txHash =>
      let vault := { vault with status := .released, releasedAt := some now, recipientId := some recipientId }
      { s with
        vaultStore := s.vaultStore.set vaultId vault
        releases := s.releases.set i (.returned txHash)
        emitted := (.escrowReleased, vaultId) :: s.emitted }

end Release

section Status

/-- `getStatus` up to its `await`. -/
def getStatus (s : Manager) (vaultId : String) (rest : Option (List String)) (now : Int) : Query :=
  match s.vaultStore.get? vaultId with
  | none => rest.elim (.threw (.vaultNotFound vaultId)) .polling
  | some vault =>
      if vault.status = .released ∨ vault.status = .expired then rest.elim (.returned vault.status) .polling
      else if now > vault.holdUntil then .checking vaultId rest
      else rest.elim (.returned vault.status) .polling

/-- A balance that Horizon does not find counts as claimed, and so does an error. -/
def checkClaimedOnChain (found : Bool) : Bool := !found

/-- `getStatus` from its `await`. -/
def checked (s : Manager) (i : Nat) (vaultId : String) (rest : Option (List String)) (vault : EscrowVault)
    (found : Bool) : Manager :=
  if !checkClaimedOnChain found then
    { s with
      vaultStore := s.vaultStore.set vaultId { vault with status := .expired }
      queries := s.queries.set i (rest.elim (.returned .expired) .polling)
      emitted := (.escrowExpired, vaultId) :: s.emitted }
  else { s with queries := s.queries.set i (rest.elim (.returned vault.status) .polling) }

def pollExpiry (s : Manager) : Manager := { s with queries := s.queries ++ [.polling s.vaultStore.keys] }

/-- One turn of the polling loop. -/
def pollNext (s : Manager) (vaultId : String) (rest : List String) (now : Int) : Query :=
  if (s.vaultStore.get? vaultId).map EscrowVault.status ≠ some .holding then .polling rest
  else getStatus s vaultId (some rest) now

end Status

section Runs

inductive Event
  | release (vaultId recipientId : String) (now : Int)
  | imported (i : Nat) (error : Option String)
  | loaded (i : Nat) (error : Option String)
  | submitted (i : Nat) (answer : Except String String) (now : Int)
  | getStatus (vaultId : String) (now : Int)
  | pollExpiry
  | pollNext (i : Nat) (now : Int)
  | checked (i : Nat) (found : Bool)

def step (s : Manager) : Event → Option Manager
  | .release vaultId recipientId now => some (release s vaultId recipientId now)
  | .imported i error =>
      match s.releases[i]? with
      | some (.waiting .importing vaultId recipientId) => some (proceed s i .loading vaultId recipientId error)
      | _ => none
  | .loaded i error =>
      match s.releases[i]? with
      | some (.waiting .loading vaultId recipientId) => some (proceed s i .submitting vaultId recipientId error)
      | _ => none
  | .submitted i answer now =>
      match s.releases[i]? with
      | some (.waiting .submitting vaultId recipientId) =>
          (s.vaultStore.get? vaultId).map (fun vault => submitted s i vaultId recipientId vault answer now)
      | _ => none
  | .getStatus vaultId now => some { s with queries := s.queries ++ [getStatus s vaultId none now] }
  | .pollExpiry => some (pollExpiry s)
  | .pollNext i now =>
      match s.queries[i]? with
      | some (.polling (vaultId :: rest)) => some { s with queries := s.queries.set i (pollNext s vaultId rest now) }
      | _ => none
  | .checked i found =>
      match s.queries[i]? with
      | some (.checking vaultId rest) =>
          (s.vaultStore.get? vaultId).map (fun vault => checked s i vaultId rest vault found)
      | _ => none

end Runs

end SplitSdk.EscrowVaultManager

namespace SplitSdk.EscrowLifecycle

open Interleaving OrderedMap EscrowVaultManager

section Statement

def statusOf (s : Manager) (vaultId : String) : Option EscrowStatus :=
  (s.vaultStore.get? vaultId).map EscrowVault.status

/-- The vault whose claim a call of `release` has submitted. -/
def submitting (s : Manager) (i : Nat) : Option String :=
  match s.releases[i]? with
  | some (.waiting .submitting vaultId _) => some vaultId
  | _ => none

/-- The vault whose balance a call of `getStatus` looks for. -/
def checking (s : Manager) (i : Nat) : Option String :=
  match s.queries[i]? with
  | some (.checking vaultId _) => some vaultId
  | _ => none

/-- A claim that succeeds releases its vault, and a balance that is found expires it. -/
def ends (s : Manager) : Event → Option (EventName × String)
  | .submitted i (.ok _) _ => (submitting s i).map (fun vaultId => (.escrowReleased, vaultId))
  | .checked i true => (checking s i).map (fun vaultId => (.escrowExpired, vaultId))
  | _ => none

def endStatus : EventName → EscrowStatus
  | .escrowReleased => .released
  | .escrowExpired => .expired

/-- A vault that has ended does not end the other way: no claim succeeds for an expired vault, and the
balance of a released vault is not found. -/
def Undisturbed (s : Manager) (event : Event) : Prop :=
  ∀ e ∈ ends s event, ∀ status ∈ statusOf s e.2, status = .holding ∨ status = endStatus e.1

instance (s : Manager) (event : Event) : Decidable (Undisturbed s event) := by
  unfold Undisturbed
  infer_instance

end Statement

section Steps

variable {s t : Manager}

/-- A step leaves the vaults alone or ends one of them. -/
inductive Wrote (s : Manager) (event : Event) (t : Manager) : Prop
  | nothing (hends : ends s event = none) (hvaults : t.vaultStore = s.vaultStore) (hemitted : t.emitted = s.emitted)
  | ended (name : EventName) (vaultId : String) (hends : ends s event = some (name, vaultId)) (old new : EscrowVault)
      (hold : s.vaultStore.get? vaultId = some old) (hvaults : t.vaultStore = s.vaultStore.set vaultId new)
      (hstatus : new.status = endStatus name) (hholdUntil : new.holdUntil = old.holdUntil)
      (hemitted : t.emitted = (name, vaultId) :: s.emitted)

theorem release_wrote (s : Manager) (vaultId recipientId : String) (now : Int) :
    (release s vaultId recipientId now).vaultStore = s.vaultStore ∧
      (release s vaultId recipientId now).emitted = s.emitted := by
  unfold release
  cases releasable s vaultId now <;> exact ⟨rfl, rfl⟩

theorem step_wrote {event : Event} (h : step s event = some t) : Wrote s event t := by
  cases event with
  | release vaultId recipientId now =>
      obtain rfl := Option.some.inj h
      obtain ⟨hvaults, hemitted⟩ := release_wrote s vaultId recipientId now
      exact .nothing rfl hvaults hemitted
  | imported i error =>
      simp only [step] at h
      split at h
      · obtain rfl := Option.some.inj h
        exact .nothing rfl rfl rfl
      · nomatch h
  | loaded i error =>
      simp only [step] at h
      split at h
      · obtain rfl := Option.some.inj h
        exact .nothing rfl rfl rfl
      · nomatch h
  | submitted i answer now =>
      simp only [step] at h
      split at h
      · rename_i vaultId recipientId hcall
        obtain ⟨vault, hvault, rfl⟩ := Option.map_eq_some_iff.mp h
        cases answer with
        | error message => exact .nothing rfl rfl rfl
        | ok txHash =>
            have hends : ends s (.submitted i (.ok txHash) now) = some (.escrowReleased, vaultId) := by
              rw [ends, submitting, hcall]
              rfl
            exact .ended .escrowReleased vaultId hends vault _ hvault rfl rfl rfl rfl
      · nomatch h
  | getStatus vaultId now =>
      obtain rfl := Option.some.inj h
      exact .nothing rfl rfl rfl
  | pollExpiry =>
      obtain rfl := Option.some.inj h
      exact .nothing rfl rfl rfl
  | pollNext i now =>
      simp only [step] at h
      split at h
      · obtain rfl := Option.some.inj h
        exact .nothing rfl rfl rfl
      · nomatch h
  | checked i found =>
      simp only [step] at h
      split at h
      · rename_i vaultId rest hcall
        obtain ⟨vault, hvault, rfl⟩ := Option.map_eq_some_iff.mp h
        cases found with
        | false => exact .nothing rfl rfl rfl
        | true =>
            have hends : ends s (.checked i true) = some (.escrowExpired, vaultId) := by
              rw [ends, checking, hcall]
              rfl
            exact .ended .escrowExpired vaultId hends vault _ hvault rfl rfl rfl rfl
      · nomatch h

theorem statusOf_set {vaultId : String} {vault : EscrowVault} (h : t.vaultStore = s.vaultStore.set vaultId vault)
    (id : String) : statusOf t id = if id = vaultId then some vault.status else statusOf s id := by
  rw [statusOf, h, OrdMap.get?_set]
  split_ifs
  · rfl
  · rfl

end Steps

section Invariant

variable {s t u : Manager}

/-- Vaults stay, and only a holding vault changes its status. -/
def Moves (s t : Manager) : Prop :=
  ∀ id, ∀ status ∈ statusOf s id, ∃ status' ∈ statusOf t id, status' = status ∨ status = .holding

theorem Moves.refl (s : Manager) : Moves s s := fun _ status h => ⟨status, h, .inl rfl⟩

theorem Moves.trans (h : Moves s t) (h' : Moves t u) : Moves s u := by
  intro id status hstatus
  obtain ⟨_, hmid, rfl | rfl⟩ := h id status hstatus
  · exact h' id _ hmid
  · obtain ⟨status', hstatus', _⟩ := h' id _ hmid
    exact ⟨status', hstatus', .inr rfl⟩

/-- The end that was announced of a vault is its status. -/
def Inv (s : Manager) : Prop := ∀ name id, (name, id) ∈ s.emitted → statusOf s id = some (endStatus name)

theorem endStatus_injective {name other : EventName} (h : endStatus name = endStatus other) : name = other := by
  cases name <;> cases other <;> first | rfl | nomatch h

theorem endStatus_ne_holding (name : EventName) : endStatus name ≠ .holding := by
  cases name <;> nofun

theorem step_inv (s : Manager) (event : Event) (t : Manager) (hi : Inv s) (hok : Undisturbed s event)
    (h : step s event = some t) : Inv t ∧ Moves s t := by
  cases step_wrote h with
  | nothing _ hvaults hemitted =>
      have hstatus : ∀ id, statusOf t id = statusOf s id := fun id => by rw [statusOf, hvaults, statusOf]
      refine ⟨?_, ?_⟩
      · intro name id hmem
        rw [hemitted] at hmem
        exact (hstatus id).trans (hi name id hmem)
      · intro id status h
        exact ⟨status, (hstatus id).trans h, .inl rfl⟩
  | ended name vaultId hends old new hold hvaults hstatus _ hemitted =>
      have hstatusOf : statusOf s vaultId = some old.status := by rw [statusOf, hold, Option.map_some]
      have hmoves : old.status = .holding ∨ old.status = endStatus name := hok (name, vaultId) hends _ hstatusOf
      refine ⟨?_, ?_⟩
      · intro other id hmem
        rw [statusOf_set hvaults]
        rw [hemitted, List.mem_cons, Prod.mk.injEq] at hmem
        split_ifs with hid
        · subst hid
          rcases hmem with ⟨rfl, _⟩ | hmem
          · rw [hstatus]
          · -- The vault had ended before, so it ended the same way.
            have hend := Option.some.inj (hstatusOf.symm.trans (hi other id hmem))
            rcases hmoves with h | h
            · exact absurd (hend.symm.trans h) (endStatus_ne_holding other)
            · rw [hstatus, endStatus_injective (hend.symm.trans h)]
        · exact hi other id (hmem.resolve_left (fun h => hid h.2))
      · intro id status h
        rw [statusOf_set hvaults]
        split_ifs with hid
        · subst hid
          obtain rfl : old.status = status := Option.some.inj (hstatusOf.symm.trans h)
          exact ⟨new.status, rfl, hmoves.symm.imp (fun h => hstatus.trans h.symm) (fun h => h)⟩
        · exact ⟨status, h, .inl rfl⟩

theorem run_inv {events : List Event} (hi : Inv s) (hok : Allowed step Undisturbed s events)
    (h : run step s events = some t) : Inv t ∧ Moves s t := by
  refine run_invariant (I := fun t => Inv t ∧ Moves s t) ?_ s t events ⟨hi, Moves.refl s⟩ hok h
  rintro u event v ⟨hu, hmoves⟩ hok hstep
  obtain ⟨hv, hmoves'⟩ := step_inv u event v hu hok hstep
  exact ⟨hv, hmoves.trans hmoves'⟩

end Invariant

section Result

/-- In an undisturbed run a vault leaves the status holding at most once, and one end of it at most is announced. -/
theorem escrow_lifecycle (vaultStore : OrdMap String EscrowVault) (events more : List Event) (s t : Manager)
    (vaultId : String) (hevents : Allowed step Undisturbed { vaultStore } events)
    (hmore : Allowed step Undisturbed s more) (hs : run step { vaultStore } events = some s)
    (ht : run step s more = some t) :
    (∀ status, statusOf s vaultId = some status → ∃ status', statusOf t vaultId = some status' ∧
      (status' = status ∨ status = .holding)) ∧
    ¬((.escrowReleased, vaultId) ∈ t.emitted ∧ (.escrowExpired, vaultId) ∈ t.emitted) := by
  obtain ⟨hinv, _⟩ := run_inv (s := { vaultStore }) nofun hevents hs
  obtain ⟨hinv', hmoves⟩ := run_inv hinv hmore ht
  refine ⟨hmoves vaultId, ?_⟩
  rintro ⟨hreleased, hexpired⟩
  have h := (hinv' .escrowReleased vaultId hreleased).symm.trans (hinv' .escrowExpired vaultId hexpired)
  nomatch h

end Result

section Runs

def held (holdUntil : Int) : OrdMap String EscrowVault := OrdMap.empty.set "vault" { holdUntil, status := .holding }

/-- A release has submitted its claim while `getStatus` waits for Horizon. -/
def overlapping : List Event :=
  [.release "vault" "recipient" 2000, .imported 0 none, .loaded 0 none, .getStatus "vault" 2001]

theorem escrow_lifecycle_released : ∃ s t, run step { vaultStore := held 1000 } overlapping = some s ∧
    run step s [.submitted 0 (.ok "hash") 2002, .checked 0 false] = some t ∧
    statusOf t "vault" = some .released ∧
    ¬((.escrowReleased, "vault") ∈ t.emitted ∧ (.escrowExpired, "vault") ∈ t.emitted) := by
  refine ⟨_, _, rfl, rfl, by rfl, ?_⟩
  exact (escrow_lifecycle (held 1000) overlapping [.submitted 0 (.ok "hash") 2002, .checked 0 false] _ _ "vault"
    (by decide) (by decide) rfl rfl).2

/-- Horizon still finds the balance, and then the claim succeeds. -/
theorem expired_releases : ∃ s t, run step { vaultStore := held 1000 } (overlapping ++ [.checked 0 true]) = some s ∧
    run step s [.submitted 0 (.ok "hash") 2002] = some t ∧
    statusOf s "vault" = some .expired ∧ statusOf t "vault" = some .released ∧
    t.emitted = [(.escrowReleased, "vault"), (.escrowExpired, "vault")] :=
  ⟨_, _, rfl, rfl, by decide⟩

end Runs

end SplitSdk.EscrowLifecycle

namespace SplitSdk.EscrowPayout

open Interleaving OrderedMap EscrowVaultManager EscrowLifecycle

section Statement

variable (vaultId : String)

/-- A release that is started now submits its claim when the key is valid and the account loads. -/
def ReachesSubmission (s : Manager) (vaultId recipientId : String) (now : Int) : Prop :=
  let i := s.releases.length
  (run step s [.release vaultId recipientId now, .imported i none, .loaded i none]).bind (fun t => t.releases[i]?) =
    some (.waiting .submitting vaultId recipientId)

instance (s : Manager) (vaultId recipientId : String) (now : Int) :
    Decidable (ReachesSubmission s vaultId recipientId now) :=
  inferInstanceAs (Decidable (_ = _))

/-- No claim of the vault succeeds. -/
def Unclaimed (s : Manager) (event : Event) : Prop := ends s event ≠ some (.escrowReleased, vaultId)

/-- No call of `getStatus` made after `holdUntil` is answered that the balance is still there. -/
def Unfound (s : Manager) (event : Event) : Prop := ends s event ≠ some (.escrowExpired, vaultId)

instance (s : Manager) (event : Event) : Decidable (Unclaimed vaultId s event) :=
  inferInstanceAs (Decidable (_ ≠ _))

instance (s : Manager) (event : Event) : Decidable (Unfound vaultId s event) :=
  inferInstanceAs (Decidable (_ ≠ _))

end Statement

section Steps

variable {s t : Manager} {vaultId recipientId : String} {now : Int}

theorem releasable_iff {vault : EscrowVault} :
    releasable s vaultId now = .ok vault ↔
      s.vaultStore.get? vaultId = some vault ∧ vault.status = .holding ∧ vault.holdUntil ≤ now := by
  unfold releasable
  cases hget : s.vaultStore.get? vaultId with
  | none => simp
  | some found =>
      dsimp only
      split_ifs with hstatus hnow
      · simp only [Option.some.injEq, false_iff]
        rintro ⟨rfl, h, _⟩
        exact hstatus h
      · simp only [Option.some.injEq, false_iff]
        rintro ⟨rfl, _, h⟩
        omega
      · simp only [Except.ok.injEq, Option.some.injEq]
        refine ⟨?_, And.left⟩
        rintro rfl
        exact ⟨rfl, not_not.mp hstatus, by omega⟩

theorem reachesSubmission_iff :
    ReachesSubmission s vaultId recipientId now ↔ ∃ vault, releasable s vaultId now = .ok vault := by
  unfold ReachesSubmission
  cases hok : releasable s vaultId now with
  | error e => simp [run, step, release, hok]
  | ok vault => simp [run, step, release, hok, proceed]

/-- Without a claim a step keeps the vault, unless it is a check that finds the balance. -/
theorem step_vault {event : Event} {vault : EscrowVault} (h : step s event = some t)
    (hclaim : Unclaimed vaultId s event) (hvault : s.vaultStore.get? vaultId = some vault) :
    ∃ vault', t.vaultStore.get? vaultId = some vault' ∧ vault'.holdUntil = vault.holdUntil ∧
      (vault'.status = .holding ↔ vault.status = .holding ∧ Unfound vaultId s event) := by
  cases step_wrote h with
  | nothing hends hvaults =>
      refine ⟨vault, by rw [hvaults, hvault], rfl, ?_⟩
      rw [Unfound, hends]
      exact (and_iff_left nofun).symm
  | ended name id hends old new hold hvaults hstatus hholdUntil =>
      rw [hvaults, OrdMap.get?_set, Unfound, hends]
      by_cases hid : vaultId = id
      · subst hid
        obtain rfl := Option.some.inj (hold.symm.trans hvault)
        cases name with
        | escrowReleased => exact absurd hends hclaim
        | escrowExpired =>
            refine ⟨new, if_pos rfl, hholdUntil, ?_⟩
            rw [hstatus]
            simp [endStatus]
      · refine ⟨vault, by rw [if_neg hid, hvault], rfl, ?_⟩
        refine (and_iff_left ?_).symm
        intro heq
        exact hid (congrArg Prod.snd (Option.some.inj heq)).symm

theorem run_vault {events : List Event} {vault : EscrowVault} (h : run step s events = some t)
    (hclaim : Allowed step (Unclaimed vaultId) s events) (hvault : s.vaultStore.get? vaultId = some vault) :
    ∃ vault', t.vaultStore.get? vaultId = some vault' ∧ vault'.holdUntil = vault.holdUntil ∧
      (vault'.status = .holding ↔ vault.status = .holding ∧ Allowed step (Unfound vaultId) s events) := by
  induction events generalizing s vault with
  | nil =>
      cases h
      exact ⟨vault, hvault, rfl, (and_iff_left trivial).symm⟩
  | cons event events ih =>
      obtain ⟨u, hu, hrun⟩ := run_cons h
      obtain ⟨mid, hmid, hholdUntil, hstatus⟩ := step_vault hu hclaim.1 hvault
      obtain ⟨last, hlast, hholdUntil', hstatus'⟩ := ih hrun (hclaim.2 u hu) hmid
      refine ⟨last, hlast, hholdUntil'.trans hholdUntil, ?_⟩
      rw [hstatus', hstatus, and_assoc]
      refine and_congr_right (fun _ => and_congr_right (fun _ => ?_))
      exact ⟨fun h v hv => Option.some.inj (hu.symm.trans hv) ▸ h, fun h => h u hu⟩

end Steps

section Result

/-- After `holdUntil` two runs without a claim agree on a release exactly when the vault was not holding
anyway, or when both or none of them found the balance. -/
theorem release_agrees_iff {s t t' : Manager} {events events' : List Event} {vaultId : String} {vault : EscrowVault}
    (hvault : s.vaultStore.get? vaultId = some vault) (hrun : run step s events = some t)
    (hrun' : run step s events' = some t') (hclaim : Allowed step (Unclaimed vaultId) s events)
    (hclaim' : Allowed step (Unclaimed vaultId) s events') (recipientId : String) {now : Int}
    (hnow : vault.holdUntil ≤ now) :
    (ReachesSubmission t vaultId recipientId now ↔ ReachesSubmission t' vaultId recipientId now) ↔
      (vault.status ≠ .holding ∨
        (Allowed step (Unfound vaultId) s events ↔ Allowed step (Unfound vaultId) s events')) := by
  have hreaches : ∀ {u : Manager} {es : List Event}, run step s es = some u →
      Allowed step (Unclaimed vaultId) s es → (ReachesSubmission u vaultId recipientId now ↔
        vault.status = .holding ∧ Allowed step (Unfound vaultId) s es) := by
    intro u es hu hclaim
    obtain ⟨last, hlast, hholdUntil, hstatus⟩ := run_vault hu hclaim hvault
    rw [reachesSubmission_iff, ← hstatus]
    constructor
    · rintro ⟨found, hfound⟩
      obtain ⟨hget, hholding, _⟩ := releasable_iff.mp hfound
      rwa [← Option.some.inj (hget.symm.trans hlast)]
    · intro hholding
      exact ⟨last, releasable_iff.mpr ⟨hlast, hholding, by rwa [hholdUntil]⟩⟩
  rw [hreaches hrun hclaim, hreaches hrun' hclaim']
  by_cases hholding : vault.status = .holding <;> simp [hholding]

end Result

section Runs

def start : Manager := { vaultStore := held 1000 }

theorem release_agrees_before : ∃ t, run step start [.getStatus "vault" 900] = some t ∧
    (ReachesSubmission t "vault" "recipient" 1002 ↔ ReachesSubmission start "vault" "recipient" 1002) := by
  have hvault : start.vaultStore.get? "vault" = some { holdUntil := 1000, status := .holding } := rfl
  obtain ⟨t, ht⟩ : ∃ t, run step start [.getStatus "vault" 900] = some t := ⟨_, rfl⟩
  refine ⟨t, ht, ?_⟩
  exact (release_agrees_iff hvault ht (run_nil start) (by decide) trivial "recipient" (by decide)).mpr
    (.inr (by decide +kernel))

/-- A query after `holdUntil` closes the vault before it is released. -/
theorem query_blocks_release : ∃ t, run step start [.getStatus "vault" 1001, .checked 0 true] = some t ∧
    ReachesSubmission start "vault" "recipient" 1002 ∧ ¬ReachesSubmission t "vault" "recipient" 1002 :=
  ⟨_, rfl, by decide⟩

end Runs

end SplitSdk.EscrowPayout
