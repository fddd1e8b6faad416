import SplitSdk.Numbers
import SplitSdk.OrderedMap
import Mathlib.Data.Finset.Card
import SplitSdk.Interleaving
import SplitSdk.NumberText
import Mathlib.Algebra.Order.BigOperators.Group.Finset

namespace SplitSdk.ApprovalSession

open Numbers OrderedMap

structure Signer where
  publicKey : String
  weight : JsNumber

structure MultiSigPolicy where
  signers : List Signer
  threshold : JsNumber
  timeoutMs : JsNumber

/-- The emissions of a session. A listener that throws ends the call that emits. -/
inductive SdkEvent
  | approvalReceived
  | approvalWorkflowComplete
  | approvalRejected
  | approvalExecuted
  deriving DecidableEq

inductive Failure
  | approvalTimeout (timeoutMs : JsNumber)
  | error (message : String)
  /-- Thrown by a listener or by `applySignatures`. -/
  | callback
  deriving DecidableEq

structure Session where
  signatures : OrdMap String String := .empty
  rejections : Finset String := ∅
  expiresAt : JsNumber
  completed : Bool := false
  rejected : Bool := false
  executed : Bool := false

structure ApprovalSessionResult where
  complete : Bool
  weight : JsNumber

structure WithdrawalApprovalResult where
  state : String
  weight : JsNumber
  threshold : JsNumber
  approvals : Nat
  rejections : Nat
  deriving DecidableEq

section Session

variable (policy : MultiSigPolicy)

/-- Of several signers with one key the last counts. -/
def signerWeights : OrdMap String JsNumber :=
  policy.signers.foldl (fun weights signer => weights.set signer.publicKey signer.weight) .empty

def weightOf (publicKeys : List String) : JsNumber :=
  publicKeys.foldl (fun total publicKey => total.add (((signerWeights policy).get? publicKey).getD (.finite 0)))
    (.finite 0)

def weight (s : Session) : JsNumber := weightOf policy s.signatures.keys

def create (now : Nat) : Session := { expiresAt := (JsNumber.finite now).add policy.timeoutMs }

def isActive (s : Session) (now : Nat) : Bool := s.completed || s.rejected || !s.expiresAt.lt (.finite now)

def stateOf (s : Session) (now : Nat) : String :=
  if s.executed then "executed"
  else if s.rejected then "rejected"
  else if s.completed then "approved"
  else if s.expiresAt.lt (.finite now) then "expired"
  else "pending"

def status (s : Session) (now : Nat) : WithdrawalApprovalResult where
  state := stateOf s now
  weight := weight policy s
  threshold := policy.threshold
  approvals := s.signatures.keys.length
  rejections := s.rejections.card

/-- What a call returns or throws, and the session after it. -/
abbrev Outcome (α : Type) := Except Failure α × Session

variable (throws : SdkEvent → Bool)

def submitSignature (s : Session) (signerPublicKey signatureBase64 : String) (now : Nat) :
    Outcome ApprovalSessionResult :=
  if !isActive s now then (.error (.approvalTimeout policy.timeoutMs), s)
  else if !(signerWeights policy).has signerPublicKey then
    (.error (.error ("Signer is not authorized: " ++ signerPublicKey)), s)
  else
    let s :=
      { s with
        signatures := s.signatures.set signerPublicKey signatureBase64
        rejections := s.rejections.erase signerPublicKey }
    if throws .approvalReceived then (.error .callback, s)
    else if policy.threshold.le (weight policy s) then
      let s := { s with completed := true }
      if throws .approvalWorkflowComplete then (.error .callback, s) else (.ok ⟨true, weight policy s⟩, s)
    else (.ok ⟨s.completed, weight policy s⟩, s)

def reject (s : Session) (signerPublicKey : String) (now : Nat) : Outcome WithdrawalApprovalResult :=
  if !isActive s now then (.error (.approvalTimeout policy.timeoutMs), s)
  else if !(signerWeights policy).has signerPublicKey then
    (.error (.error ("Signer is not authorized: " ++ signerPublicKey)), s)
  else
    let s :=
      { s with
        signatures := s.signatures.delete signerPublicKey
        rejections := insert signerPublicKey s.rejections
        rejected := true }
    if throws .approvalRejected then (.error .callback, s) else (.ok (status policy s now), s)

/-- `applied` is what `applySignatures` gives, `none` when it throws. -/
def execute (s : Session) (applied : Option String) (now : Nat) : Outcome String :=
  if !isActive s now then (.error (.approvalTimeout policy.timeoutMs), s)
  else if !s.completed then (.error (.error "Approval threshold has not been reached"), s)
  else if s.executed then (.error (.error "Withdrawal has already been executed"), s)
  else match applied with
    | none => (.error .callback, s)
    | some signedXdr =>
        let s := { s with executed := true }
        if throws .approvalExecuted then (.error .callback, s) else (.ok signedXdr, s)

def getSignedXdr (s : Session) (applied : Option String) (now : Nat) : Outcome String :=
  if !isActive s now then (.error (.approvalTimeout policy.timeoutMs), s)
  else if !s.completed then (.error (.error "Approval threshold has not been reached"), s)
  else match applied with
    | none => (.error .callback, s)
    | some signedXdr => (.ok signedXdr, s)

end Session

section Runs

/-- A signed transaction that was returned: the rejections and the weight at that moment. -/
structure Release where
  rejections : Finset String
  weight : JsNumber
  byExecute : Bool

/-- The session, and for the statements the signed transactions it returned. -/
structure State where
  session : Session
  released : List Release := []

inductive Event
  | submitSignature (signerPublicKey signatureBase64 : String) (now : Nat) (throws : SdkEvent → Bool)
  | reject (signerPublicKey : String) (now : Nat) (throws : SdkEvent → Bool)
  | execute (applied : Option String) (now : Nat) (throws : SdkEvent → Bool)
  | getSignedXdr (applied : Option String) (now : Nat)

variable (policy : MultiSigPolicy)

def release (s : State) (byExecute : Bool) : Outcome String → State
  | (.ok _, session) => ⟨session, ⟨s.session.rejections, weight policy s.session, byExecute⟩ :: s.released⟩
  | (.error _, session) => ⟨session, s.released⟩

def step (s : State) : Event → Option State
  | .submitSignature signerPublicKey signatureBase64 now throws =>
      some { s with session := (submitSignature policy throws s.session signerPublicKey signatureBase64 now).2 }
  | .reject signerPublicKey now throws =>
      some { s with session := (reject policy throws s.session signerPublicKey now).2 }
  | .execute applied now throws => some (release policy s true (execute policy throws s.session applied now))
  | .getSignedXdr applied now => some (release policy s false (getSignedXdr policy s.session applied now))

end Runs

end SplitSdk.ApprovalSession

namespace SplitSdk.ApprovalSafety

open Interleaving Numbers NumberText OrderedMap ApprovalSession

section Statement

variable (policy : MultiSigPolicy)

def IsSigner (publicKey : String) : Prop := (signerWeights policy).has publicKey

/-- Signers who reach the threshold still reach it in any other order and together with others. -/
def Steady : Prop :=
  ∀ xs ys : List String, xs.Nodup → ys.Nodup → xs ⊆ ys → (∀ y ∈ ys, IsSigner policy y) →
    policy.threshold.le (weightOf policy xs) → policy.threshold.le (weightOf policy ys)

/-- A session that has been complete is not executed or exported while a rejection is outstanding. -/
def Unrejected (s : State) : Event → Prop
  | .execute .. | .getSignedXdr .. => s.session.completed → s.session.rejections = ∅
  | _ => True

instance (s : State) (event : Event) : Decidable (Unrejected s event) := by
  cases event <;> unfold Unrejected <;> infer_instance

/-- Every signed transaction was returned without a rejection and with enough weight, at most one of
them by `execute`. -/
def Safe (s : State) : Prop :=
  (∀ r ∈ s.released, r.rejections = ∅ ∧ policy.threshold.le r.weight) ∧
    (s.released.filter Release.byExecute).length ≤ 1

instance (s : State) : Decidable (Safe policy s) := inferInstanceAs (Decidable (_ ∧ _))

def start (now : Nat) : State := { session := create policy now }

end Statement

section Invariant

variable {policy : MultiSigPolicy}

/-- Once the threshold has been reached, everyone who reached it has signed or rejected since. -/
structure Inv (policy : MultiSigPolicy) (s : State) : Prop where
  signers : ∀ x ∈ s.session.signatures.keys, IsSigner policy x
  reached : s.session.completed → ∃ xs : List String, xs.Nodup ∧ policy.threshold.le (weightOf policy xs) ∧
    ∀ x ∈ xs, x ∈ s.session.signatures.keys ∨ x ∈ s.session.rejections
  released : ∀ r ∈ s.released, r.rejections = ∅ ∧ policy.threshold.le r.weight
  once : (s.released.filter Release.byExecute).length ≤ if s.session.executed then 1 else 0

theorem mem_keys_set {m : OrdMap String String} {key value x : String} :
    x ∈ (m.set key value).keys ↔ x = key ∨ x ∈ m.keys := by
  rw [← OrdMap.has_iff, ← OrdMap.has_iff, OrdMap.has, OrdMap.get?_set]
  by_cases hx : x = key <;> simp [hx, OrdMap.has]

theorem mem_keys_delete {m : OrdMap String String} {key x : String} :
    x ∈ (m.delete key).keys ↔ x ≠ key ∧ x ∈ m.keys := by
  rw [← OrdMap.has_iff, ← OrdMap.has_iff, OrdMap.has, OrdMap.get?_delete]
  by_cases hx : x = key <;> simp [hx, OrdMap.has]

/-- What a call of `submitSignature` can do. -/
theorem submitSignature_cases (policy : MultiSigPolicy) (throws : SdkEvent → Bool) (s : Session)
    (signerPublicKey signatureBase64 : String) (now : Nat) :
    (submitSignature policy throws s signerPublicKey signatureBase64 now).2 = s ∨
    IsSigner policy signerPublicKey ∧ ∃ completed,
      (submitSignature policy throws s signerPublicKey signatureBase64 now).2 =
        { s with
          signatures := s.signatures.set signerPublicKey signatureBase64
          rejections := s.rejections.erase signerPublicKey
          completed } ∧
      (completed = s.completed ∨ completed ∧
        policy.threshold.le (weightOf policy (s.signatures.set signerPublicKey signatureBase64).keys)) := by
  unfold submitSignature
  by_cases hactive : isActive s now
  · by_cases hsigner : (signerWeights policy).has signerPublicKey
    · simp only [hactive, hsigner, Bool.not_true, Bool.false_eq_true, if_false]
      refine .inr ⟨hsigner, ?_⟩
      split_ifs with hreceived hweight hcomplete
      · exact ⟨s.completed, rfl, .inl rfl⟩
      · exact ⟨true, rfl, .inr ⟨rfl, hweight⟩⟩
      · exact ⟨true, rfl, .inr ⟨rfl, hweight⟩⟩
      · exact ⟨s.completed, rfl, .inl rfl⟩
    · simp [hactive, hsigner]
  · simp [hactive]

theorem reject_cases (policy : MultiSigPolicy) (throws : SdkEvent → Bool) (s : Session)
    (signerPublicKey : String) (now : Nat) :
    (reject policy throws s signerPublicKey now).2 = s ∨
    (reject policy throws s signerPublicKey now).2 =
      { s with
        signatures := s.signatures.delete signerPublicKey
        rejections := insert signerPublicKey s.rejections
        rejected := true } := by
  unfold reject
  split_ifs
  · exact .inl rfl
  · exact .inl rfl
  · exact .inr rfl
  · exact .inr rfl

theorem execute_cases (policy : MultiSigPolicy) (throws : SdkEvent → Bool) (s : Session) (applied : Option String)
    (now : Nat) :
    (∃ e, execute policy throws s applied now = (.error e, s)) ∨
    s.completed ∧ s.executed = false ∧
      ((∃ e, execute policy throws s applied now = (.error e, { s with executed := true })) ∨
        ∃ xdr, execute policy throws s applied now = (.ok xdr, { s with executed := true })) := by
  unfold execute
  by_cases hactive : isActive s now
  · by_cases hcompleted : s.completed
    · by_cases hexecuted : s.executed
      · simp [hactive, hcompleted, hexecuted]
      · cases applied with
        | none => simp [hactive, hcompleted, hexecuted]
        | some xdr => cases throws .approvalExecuted <;> simp [hactive, hcompleted, hexecuted]
    · simp [hactive, hcompleted]
  · simp [hactive]

theorem getSignedXdr_cases (policy : MultiSigPolicy) (s : Session) (applied : Option String) (now : Nat) :
    (∃ e, getSignedXdr policy s applied now = (.error e, s)) ∨
    s.completed ∧ ∃ xdr, getSignedXdr policy s applied now = (.ok xdr, s) := by
  unfold getSignedXdr
  by_cases hactive : isActive s now
  · by_cases hcompleted : s.completed
    · cases applied <;> simp [hactive, hcompleted]
    · simp [hactive, hcompleted]
  · simp [hactive]

/-- A complete session without rejections has enough weight, also when signers came and went. -/
theorem weight_of_completed (hsteady : Steady policy) {s : State} (hi : Inv policy s)
    (hcompleted : s.session.completed) (hrejections : s.session.rejections = ∅) :
    policy.threshold.le (weight policy s.session) := by
  obtain ⟨xs, hnodup, hweight, hxs⟩ := hi.reached hcompleted
  refine hsteady xs _ hnodup s.session.signatures.nodup ?_ hi.signers hweight
  intro x hx
  rcases hxs x hx with h | h
  · exact h
  · rw [hrejections] at h
    exact absurd h (Finset.notMem_empty x)

theorem submit_inv {s : State} (hi : Inv policy s) {signerPublicKey signatureBase64 : String} {completed : Bool}
    (hsigner : IsSigner policy signerPublicKey)
    (hcompleted : completed = s.session.completed ∨ completed ∧ policy.threshold.le
      (weightOf policy (s.session.signatures.set signerPublicKey signatureBase64).keys)) :
    Inv policy { s with session := { s.session with
      signatures := s.session.signatures.set signerPublicKey signatureBase64
      rejections := s.session.rejections.erase signerPublicKey
      completed } } := by
  refine ⟨?_, ?_, hi.released, hi.once⟩
  · intro x hx
    rcases mem_keys_set.mp hx with rfl | hx
    · exact hsigner
    · exact hi.signers x hx
  · intro hdone
    rcases hcompleted with rfl | ⟨_, hweight⟩
    · obtain ⟨xs, hnodup, hweight, hxs⟩ := hi.reached hdone
      refine ⟨xs, hnodup, hweight, ?_⟩
      intro x hx
      by_cases hsame : x = signerPublicKey
      · exact .inl (mem_keys_set.mpr (.inl hsame))
      · exact (hxs x hx).imp (fun h => mem_keys_set.mpr (.inr h)) (fun h => Finset.mem_erase.mpr ⟨hsame, h⟩)
    · exact ⟨_, (s.session.signatures.set signerPublicKey signatureBase64).nodup, hweight, fun x hx => .inl hx⟩

theorem reject_inv {s : State} (hi : Inv policy s) (signerPublicKey : String) :
    Inv policy { s with session := { s.session with
      signatures := s.session.signatures.delete signerPublicKey
      rejections := insert signerPublicKey s.session.rejections
      rejected := true } } := by
  refine ⟨fun x hx => hi.signers x (mem_keys_delete.mp hx).2, ?_, hi.released, hi.once⟩
  intro hdone
  obtain ⟨xs, hnodup, hweight, hxs⟩ := hi.reached hdone
  refine ⟨xs, hnodup, hweight, ?_⟩
  intro x hx
  by_cases hsame : x = signerPublicKey
  · exact .inr (Finset.mem_insert.mpr (.inl hsame))
  · exact (hxs x hx).imp (fun h => mem_keys_delete.mpr ⟨hsame, h⟩) Finset.mem_insert_of_mem

/-- A complete session that is not rejected may release its transaction. -/
theorem release_safe (hsteady : Steady policy) {s : State} (hi : Inv policy s) (hcompleted : s.session.completed)
    (hrejections : s.session.rejections = ∅) (byExecute : Bool) :
    ∀ r ∈ (⟨s.session.rejections, weight policy s.session, byExecute⟩ : Release) :: s.released,
      r.rejections = ∅ ∧ policy.threshold.le r.weight :=
  List.forall_mem_cons.mpr ⟨⟨hrejections, weight_of_completed hsteady hi hcompleted hrejections⟩, hi.released⟩

theorem step_inv (hsteady : Steady policy) (s : State) (event : Event) (t : State) (hi : Inv policy s)
    (hok : Unrejected s event) (h : step policy s event = some t) : Inv policy t := by
  cases event with
  | submitSignature signerPublicKey signatureBase64 now throws =>
      cases h
      rcases submitSignature_cases policy throws s.session signerPublicKey signatureBase64 now with
        h | ⟨hsigner, completed, h, hcompleted⟩
      · rw [h]
        exact hi
      · rw [h]
        exact submit_inv hi hsigner hcompleted
  | reject signerPublicKey now throws =>
      cases h
      rcases reject_cases policy throws s.session signerPublicKey now with h | h
      · rw [h]
        exact hi
      · rw [h]
        exact reject_inv hi signerPublicKey
  | execute applied now throws =>
      cases h
      rcases execute_cases policy throws s.session applied now with
        ⟨e, h⟩ | ⟨hcompleted, hexecuted, ⟨e, h⟩ | ⟨xdr, h⟩⟩
      · rw [h]
        exact hi
      · rw [h]
        refine ⟨hi.signers, hi.reached, hi.released, hi.once.trans ?_⟩
        rw [hexecuted]
        exact Nat.zero_le _
      · rw [h]
        refine ⟨hi.signers, hi.reached, release_safe hsteady hi hcompleted (hok hcompleted) true, ?_⟩
        have honce := hi.once
        rw [hexecuted] at honce
        rw [release, List.filter_cons_of_pos rfl, List.length_cons]
        exact Nat.succ_le_succ honce
  | getSignedXdr applied now =>
      cases h
      rcases getSignedXdr_cases policy s.session applied now with ⟨e, h⟩ | ⟨hcompleted, xdr, h⟩
      · rw [h]
        exact hi
      · rw [h]
        refine ⟨hi.signers, hi.reached, release_safe hsteady hi hcompleted (hok hcompleted) false, ?_⟩
        rw [release, List.filter_cons_of_neg Bool.false_ne_true]
        exact hi.once

end Invariant

section Result

/-- Under a steady policy every run is safe that does not execute or export a complete session while a
rejection is outstanding. -/
theorem session_safe (policy : MultiSigPolicy) (hsteady : Steady policy) (now : Nat) (events : List Event) (t : State)
    (hunrejected : Allowed (step policy) Unrejected (start policy now) events)
    (hrun : run (step policy) (start policy now) events = some t) : Safe policy t := by
  have hstart : Inv policy (start policy now) := ⟨nofun, nofun, nofun, Nat.le_refl 0⟩
  have hinv := run_invariant (step_inv hsteady) _ t events hstart hunrejected hrun
  refine ⟨hinv.released, hinv.once.trans ?_⟩
  split_ifs
  · exact Nat.le_refl 1
  · exact Nat.zero_le 1

end Result

section Weights

variable {policy : MultiSigPolicy}

/-- Natural weights are added exactly. -/
theorem weightOf_eq_sum (w : String → Nat) (xs : List String)
    (hw : ∀ x ∈ xs, (signerWeights policy).get? x = some (.finite (w x)))
    (hsum : (xs.map w).sum < 2 ^ 53) : weightOf policy xs = .finite ((xs.map w).sum : Nat) := by
  have hfold : ∀ (ys : List String) (total : Nat), (∀ y ∈ ys, (signerWeights policy).get? y = some (.finite (w y))) →
      total + (ys.map w).sum < 2 ^ 53 → ys.foldl (fun (total : JsNumber) publicKey => total.add
        (((signerWeights policy).get? publicKey).getD (.finite 0))) (.finite total) =
          .finite (total + (ys.map w).sum : Nat) := by
    intro ys
    induction ys with
    | nil => exact fun _ _ _ => rfl
    | cons y ys ih =>
        intro total hys hbound
        obtain ⟨hy, hys⟩ := List.forall_mem_cons.mp hys
        rw [List.map_cons, List.sum_cons, ← Nat.add_assoc] at hbound ⊢
        have hadd : JsNumber.add (.finite total) (.finite (w y)) = .finite (total + w y : Nat) := by
          rw [JsNumber.add, ← Nat.cast_add]
          exact isDouble_natCast (by omega)
        rw [List.foldl_cons, hy, Option.getD_some, hadd]
        exact ih (total + w y) hys hbound
  have h := hfold xs 0 hw (by omega)
  rw [Nat.zero_add] at h
  exact h

/-- Weights that are natural numbers make a steady policy. -/
theorem steady_of_natural (w : String → Nat)
    (hw : ∀ x ∈ (signerWeights policy).keys, (signerWeights policy).get? x = some (.finite (w x)))
    (hsum : ((signerWeights policy).keys.map w).sum < 2 ^ 53) : Steady policy := by
  intro xs ys hxs hys hsub hsigners hweight
  have hkeys : ys ⊆ (signerWeights policy).keys := fun y hy => (OrdMap.has_iff _ y).mp (hsigners y hy)
  have hle : ∀ {as bs : List String}, as.Nodup → bs.Nodup → as ⊆ bs → (as.map w).sum ≤ (bs.map w).sum := by
    intro as bs has hbs hsub
    rw [← List.sum_toFinset w has, ← List.sum_toFinset w hbs]
    apply Finset.sum_le_sum_of_subset
    intro x hx
    exact List.mem_toFinset.mpr (hsub (List.mem_toFinset.mp hx))
  have hys' := hle hys (signerWeights policy).nodup hkeys
  have hxs' := hle hxs hys hsub
  rw [weightOf_eq_sum w xs (fun x hx => hw x (hkeys (hsub hx))) (by unfold OrdMap.keys at hsum; omega)] at hweight
  rw [weightOf_eq_sum w ys (fun y hy => hw y (hkeys hy)) (by unfold OrdMap.keys at hsum; omega)]
  exact JsNumber.le_natCast_mono hxs' hweight

end Weights

section Runs

/-- Two of three signers have to sign. -/
def twoOfThree : MultiSigPolicy where
  signers := [⟨"G1", .finite 1⟩, ⟨"G2", .finite 1⟩, ⟨"G3", .finite 1⟩]
  threshold := .finite 2
  timeoutMs := .finite 1000

theorem steady_twoOfThree : Steady twoOfThree := by
  apply steady_of_natural (fun _ => 1)
  · decide
  · decide

def quiet : SdkEvent → Bool := fun _ => false

def signTwice : List Event :=
  [.submitSignature "G1" "sig-1" 1 quiet, .submitSignature "G2" "sig-2" 2 quiet]

theorem session_safe_signed : ∃ t, run (step twoOfThree) (start twoOfThree 0)
    (signTwice ++ [.execute (some "signed") 3 quiet]) = some t ∧ t.released.length = 1 ∧ Safe twoOfThree t := by
  refine ⟨_, rfl, by decide +kernel, ?_⟩
  exact session_safe twoOfThree steady_twoOfThree 0 (signTwice ++ [.execute (some "signed") 3 quiet]) _
    (by decide +kernel) rfl

/-- A signer rejects after the threshold is reached, and the session is executed. -/
theorem rejected_executes : ∃ t, run (step twoOfThree) (start twoOfThree 0)
    (signTwice ++ [.reject "G1" 3 quiet, .execute (some "signed") 4 quiet]) = some t ∧ ¬Safe twoOfThree t :=
  ⟨_, rfl, by decide +kernel⟩

end Runs

end SplitSdk.ApprovalSafety
