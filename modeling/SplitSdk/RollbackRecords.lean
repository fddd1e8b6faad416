import SplitSdk.Interleaving
import SplitSdk.SplitRollbackCoordinator

namespace SplitSdk.RollbackRecords

open Interleaving Numbers OperationChunker OrderedMap SharedObjects SplitRollbackCoordinator

section Statement

inductive Call
  | begin (splitId invoiceId : String) (legs : List (String × Int)) (now : Nat)
  | markLegSuccess (splitId : String) (legIndex : JsNumber)
  | markLegFailed (splitId : String) (legIndex : JsNumber)
  | initiateRollback (splitId : String) (now : Nat)

/-- Beside the coordinator, all records that were returned, and for each split the one that was returned last since
its checkpoint was begun. -/
structure History where
  coordinator : RollbackCoordinator
  returned : List (SplitRollbackRecord Ref) := []
  last : String → Option (SplitRollbackRecord Ref) := fun _ => none

variable (sha256Hex : String → String)

/-- A call that throws changes nothing. -/
def next (h : History) : Call → History
  | .begin splitId invoiceId legs now =>
      { h with
        coordinator := (SplitRollbackCoordinator.begin h.coordinator splitId invoiceId legs now).2
        last := Function.update h.last splitId none }
  | .markLegSuccess splitId legIndex =>
      { h with coordinator := (markLegSuccess h.coordinator splitId legIndex).toOption.getD h.coordinator }
  | .markLegFailed splitId legIndex =>
      { h with coordinator := (markLegFailed h.coordinator splitId legIndex).toOption.getD h.coordinator }
  | .initiateRollback splitId now =>
      match initiateRollback sha256Hex h.coordinator splitId now with
      | .error _ => h
      | .ok outcome =>
          { coordinator := outcome.coordinator
            returned := outcome.record :: h.returned
            last := Function.update h.last splitId (some outcome.record) }

def step (h : History) (call : Call) : Option History := some (next sha256Hex h call)

def start (idempotency : IdempotencyManager) : History := { coordinator := { idempotency } }

/-- The time is within the idempotency window of the rollback. -/
def Within (m : IdempotencyManager) (record : SplitRollbackRecord Ref) (now : Nat) : Prop :=
  (JsNumber.add (.finite record.capturedAt) m.ttlMs).lt (.finite now) = false

structure Lawful (h : History) (call : Call) : Prop where
  immutable : ∀ record ∈ h.returned,
    record.contents (next sha256Hex h call).coordinator.legs = record.contents h.coordinator.legs
  repeated : ∀ splitId now record, call = .initiateRollback splitId now → h.last splitId = some record →
    Within h.coordinator.idempotency record now →
      ∃ outcome, initiateRollback sha256Hex h.coordinator splitId now = .ok outcome ∧
        outcome.record = record ∧ outcome.events = []
  current : ∀ splitId now checkpoint, call = .initiateRollback splitId now → h.last splitId = none →
    h.coordinator.checkpoints.get? splitId = some checkpoint →
      ∃ outcome, initiateRollback sha256Hex h.coordinator splitId now = .ok outcome ∧
        outcome.record.checkpoint.contents h.coordinator.legs = checkpoint.contents h.coordinator.legs

/-- The record that was returned last is one of the checkpoint that is there. -/
def Taken (h : History) (splitId : String) : Prop :=
  ∃ record checkpoint, h.last splitId = some record ∧ h.coordinator.checkpoints.get? splitId = some checkpoint ∧
    record.checkpoint.legs = checkpoint.legs

/-- Once its checkpoint has been taken, a leg is marked with no other state than it has. -/
def Keeps (h : History) (splitId : String) (legIndex : JsNumber) (state : SplitLegState) : Prop :=
  Taken h splitId → ∀ checkpoint ref leg, h.coordinator.checkpoints.get? splitId = some checkpoint →
    elementAt checkpoint.legs legIndex = some ref → h.coordinator.legs[ref]? = some leg → leg.state = state

/-- The rollback of the split is remembered. -/
def Held (c : RollbackCoordinator) (splitId : String) (now : Nat) : Prop :=
  (sweep c.idempotency now).store.has (generateKey sha256Hex splitId "rollback")

/-- Within the window of its last record a split is remembered, and a split that was begun again is not, unless its
old record reads as its checkpoint does. -/
def Spares (h : History) : Call → Prop
  | .begin .. => True
  | .markLegSuccess splitId legIndex => Keeps h splitId legIndex .succeeded
  | .markLegFailed splitId legIndex => Keeps h splitId legIndex .failed
  | .initiateRollback splitId now =>
      (∀ record, h.last splitId = some record → Within h.coordinator.idempotency record now →
        Held sha256Hex h.coordinator splitId now) ∧
      (h.last splitId = none → Held sha256Hex h.coordinator splitId now → ∀ existing checkpoint,
        h.coordinator.rollbackRecords.get? splitId = some existing →
        h.coordinator.checkpoints.get? splitId = some checkpoint →
          existing.checkpoint.contents h.coordinator.legs = checkpoint.contents h.coordinator.legs)

end Statement

section Outcomes

variable (sha256Hex : String → String) (c : RollbackCoordinator) (splitId : String) (now : Nat)

inductive Answered : Except String Outcome → Prop
  | unknown (hcheckpoint : c.checkpoints.get? splitId = none) : Answered (.error (unknownSplit splitId))
  | repeated (checkpoint : SplitRollbackCheckpoint Ref) (hcheckpoint : c.checkpoints.get? splitId = some checkpoint)
      (existing : SplitRollbackRecord Ref) (hexisting : c.rollbackRecords.get? splitId = some existing)
      (hheld : Held sha256Hex c splitId now) (idempotency : IdempotencyManager) :
      Answered (.ok ⟨existing, [], { c with idempotency }⟩)
  | taken (checkpoint : SplitRollbackCheckpoint Ref) (hcheckpoint : c.checkpoints.get? splitId = some checkpoint)
      (hnew : ∀ existing, c.rollbackRecords.get? splitId = some existing → ¬Held sha256Hex c splitId now)
      (record : SplitRollbackRecord Ref) (hrecord : record.checkpoint = checkpoint)
      (incomplete : List Ref) (idempotency : IdempotencyManager) :
      Answered (.ok ⟨record, [.splitRollbackInitiated splitId incomplete, .splitRollbackCompleted splitId record],
        { c with rollbackRecords := c.rollbackRecords.set splitId record, idempotency }⟩)

theorem takeSnapshot_eq {checkpoint : SplitRollbackCheckpoint Ref} (key : String)
    (hcheckpoint : c.checkpoints.get? splitId = some checkpoint) :
    ∃ incomplete idempotency,
      takeSnapshot sha256Hex c splitId checkpoint key now =
        .ok ⟨snapshotSplitRollback sha256Hex checkpoint now,
          [.splitRollbackInitiated splitId incomplete,
            .splitRollbackCompleted splitId (snapshotSplitRollback sha256Hex checkpoint now)],
          { c with
            rollbackRecords := c.rollbackRecords.set splitId (snapshotSplitRollback sha256Hex checkpoint now)
            idempotency }⟩ := by
  refine ⟨checkpoint.legs.filter (fun leg => (c.legs[leg]?.map SplitLeg.state) = some .pending),
    (tryClaim c.idempotency now key (snapshotSplitRollback sha256Hex checkpoint now).snapshotId).1, ?_⟩
  rw [takeSnapshot, getIncomplete, getCheckpoint, hcheckpoint]
  rfl

theorem answered : Answered sha256Hex c splitId now (initiateRollback sha256Hex c splitId now) := by
  unfold initiateRollback getCheckpoint
  cases hcheckpoint : c.checkpoints.get? splitId with
  | none => exact .unknown hcheckpoint
  | some checkpoint =>
      cases hexisting : c.rollbackRecords.get? splitId with
      | none =>
          obtain ⟨incomplete, idempotency, htaken⟩ := takeSnapshot_eq sha256Hex c splitId now
            (generateKey sha256Hex splitId "rollback") hcheckpoint
          refine Eq.mpr (congrArg _ htaken) (.taken checkpoint hcheckpoint ?_ _ rfl incomplete idempotency)
          rintro existing hsome
          rw [hexisting] at hsome
          cases hsome
      | some existing =>
          by_cases hheld : Held sha256Hex c splitId now
          · refine Eq.mpr (congrArg _ (if_pos hheld)) ?_
            exact .repeated checkpoint hcheckpoint existing hexisting hheld _
          · obtain ⟨incomplete, idempotency, htaken⟩ := takeSnapshot_eq sha256Hex
              { c with idempotency := sweep c.idempotency now } splitId now
              (generateKey sha256Hex splitId "rollback") hcheckpoint
            refine Eq.mpr (congrArg _ ((if_neg hheld).trans htaken)) ?_
            exact .taken checkpoint hcheckpoint (fun _ _ => hheld) _ rfl incomplete idempotency

inductive Marked (legIndex : JsNumber) (state : SplitLegState) : Except String RollbackCoordinator → Prop
  | unknown (hnone : ∀ checkpoint, c.checkpoints.get? splitId = some checkpoint → elementAt checkpoint.legs legIndex = none)
      (error : String) : Marked legIndex state (.error error)
  | marked (checkpoint : SplitRollbackCheckpoint Ref) (hcheckpoint : c.checkpoints.get? splitId = some checkpoint)
      (ref : Ref) (href : elementAt checkpoint.legs legIndex = some ref) :
      Marked legIndex state (.ok { c with legs := c.legs.modify ref (fun leg => { leg with state }) })

theorem marked (legIndex : JsNumber) (state : SplitLegState) :
    Marked c splitId legIndex state (setLegState c splitId legIndex state) := by
  unfold setLegState getCheckpoint
  cases hcheckpoint : c.checkpoints.get? splitId with
  | none =>
      refine .unknown (fun checkpoint hsome => ?_) _
      rw [hcheckpoint] at hsome
      cases hsome
  | some checkpoint =>
      cases href : elementAt checkpoint.legs legIndex with
      | none =>
          refine Eq.mpr (congrArg _ (?_ : _ = .error _)) (.unknown ?_ (unknownSplit (splitId ++ "[" ++ Numbers.toString legIndex ++ "]")))
          · simp only [bind, Except.bind, href]
          · intro other hother
            rw [hcheckpoint] at hother
            cases hother
            exact href
      | some ref =>
          refine Eq.mpr (congrArg _ (?_ : _ = .ok _)) (.marked checkpoint hcheckpoint ref href)
          simp only [bind, Except.bind, href, pure, Except.pure]

theorem elementAt_mem {legs : List Ref} {legIndex : JsNumber} {ref : Ref} (h : elementAt legs legIndex = some ref) :
    ref ∈ legs := by
  unfold elementAt at h
  split at h
  · split_ifs at h
    exact List.mem_of_getElem? h
  · cases h

end Outcomes

section Invariant

variable {sha256Hex : String → String}

/-- The legs of a checkpoint are its own, and a record shares them only once the checkpoint has been taken. -/
structure Inv (h : History) : Prop where
  recorded : ∀ splitId record, h.last splitId = some record → h.coordinator.rollbackRecords.get? splitId = some record
  known : ∀ splitId record, h.last splitId = some record → ∃ checkpoint, h.coordinator.checkpoints.get? splitId = some checkpoint
  returned : ∀ splitId record, h.coordinator.rollbackRecords.get? splitId = some record → record ∈ h.returned
  placed : ∀ splitId checkpoint, h.coordinator.checkpoints.get? splitId = some checkpoint →
    Placed h.coordinator.legs checkpoint.legs
  held : ∀ record ∈ h.returned, Placed h.coordinator.legs record.checkpoint.legs
  apart : ∀ splitId splitId' checkpoint checkpoint' ref, h.coordinator.checkpoints.get? splitId = some checkpoint →
    h.coordinator.checkpoints.get? splitId' = some checkpoint' → ref ∈ checkpoint.legs → ref ∈ checkpoint'.legs →
      splitId = splitId'
  shared : ∀ splitId checkpoint ref, h.coordinator.checkpoints.get? splitId = some checkpoint → ref ∈ checkpoint.legs →
    ∀ record ∈ h.returned, ref ∈ record.checkpoint.legs → Taken h splitId

theorem start_inv (idempotency : IdempotencyManager) : Inv (start idempotency) where
  recorded _ _ hlast := by cases hlast
  known _ _ hlast := by cases hlast
  returned _ _ hget := by cases hget
  placed _ _ hget := by cases hget
  held _ hrecord := absurd hrecord List.not_mem_nil
  apart _ _ _ _ _ hget := by cases hget
  shared _ _ _ hget := by cases hget

theorem contents_eq_iff {legs legs' : List SplitLeg} {record : SplitRollbackRecord Ref} :
    record.contents legs' = record.contents legs ↔ read legs' record.checkpoint.legs = read legs record.checkpoint.legs := by
  constructor
  · intro heq
    exact congrArg (fun contents => contents.checkpoint.legs) heq
  · intro hread
    rw [SplitRollbackRecord.contents, SplitRollbackRecord.contents, SplitRollbackCheckpoint.contents,
      SplitRollbackCheckpoint.contents, hread]

section Begin

variable {h : History} (hinv : Inv h) (splitId invoiceId : String) (legs : List (String × Int)) (now : Nat)

include hinv

theorem begin_immutable (record : SplitRollbackRecord Ref) (hrecord : record ∈ h.returned) :
    record.contents (next sha256Hex h (.begin splitId invoiceId legs now)).coordinator.legs =
      record.contents h.coordinator.legs :=
  contents_eq_iff.mpr (read_append (hinv.held record hrecord) _)

theorem begin_inv : Inv (next sha256Hex h (.begin splitId invoiceId legs now)) := by
  -- a checkpoint of another split is as it was, and the new legs lie behind all legs so far
  have hget : ∀ k checkpoint, (SplitRollbackCoordinator.begin h.coordinator splitId invoiceId legs now).2.checkpoints.get? k =
      some checkpoint → k = splitId ∧ (∀ ref ∈ checkpoint.legs, h.coordinator.legs.length ≤ ref) ∧
          Placed (SplitRollbackCoordinator.begin h.coordinator splitId invoiceId legs now).2.legs checkpoint.legs ∨
        k ≠ splitId ∧ h.coordinator.checkpoints.get? k = some checkpoint := by
    intro k checkpoint hsome
    have hset := (OrdMap.get?_set _ _ _ _).symm.trans hsome
    split_ifs at hset with hk
    · cases hset
      exact .inl ⟨hk, fun ref href => (mem_places.mp href).1, placed_places _ _⟩
    · exact .inr ⟨hk, hset⟩
  have hlast : ∀ k record, Function.update h.last splitId none k = some record → k ≠ splitId ∧ h.last k = some record := by
    intro k record hsome
    rcases eq_or_ne k splitId with rfl | hk
    · rw [Function.update_self] at hsome
      cases hsome
    · rw [Function.update_of_ne hk] at hsome
      exact ⟨hk, hsome⟩
  constructor
  · exact fun k record hsome => hinv.recorded k record (hlast k record hsome).2
  · intro k record hsome
    obtain ⟨hk, hsame⟩ := hlast k record hsome
    obtain ⟨checkpoint, hcheckpoint⟩ := hinv.known k record hsame
    exact ⟨checkpoint, (OrdMap.get?_set _ _ _ _).trans ((if_neg hk).trans hcheckpoint)⟩
  · exact hinv.returned
  · intro k checkpoint hsome
    rcases hget k checkpoint hsome with ⟨-, -, hplaced⟩ | ⟨-, hold⟩
    · exact hplaced
    · exact (hinv.placed k checkpoint hold).append _
  · exact fun record hrecord => (hinv.held record hrecord).append _
  · intro k k' checkpoint checkpoint' ref hsome hsome' href href'
    rcases hget k checkpoint hsome with ⟨hk, hnew, -⟩ | ⟨hk, hold⟩
    · rcases hget k' checkpoint' hsome' with ⟨hk', -, -⟩ | ⟨-, hold'⟩
      · rw [hk, hk']
      · exact absurd (hinv.placed k' checkpoint' hold' ref href') (Nat.not_lt.mpr (hnew ref href))
    · rcases hget k' checkpoint' hsome' with ⟨-, hnew', -⟩ | ⟨-, hold'⟩
      · exact absurd (hinv.placed k checkpoint hold ref href) (Nat.not_lt.mpr (hnew' ref href'))
      · exact hinv.apart k k' checkpoint checkpoint' ref hold hold' href href'
  · intro k checkpoint ref hsome href record hrecord hmem
    rcases hget k checkpoint hsome with ⟨-, hnew, -⟩ | ⟨hk, hold⟩
    · exact absurd (hinv.held record hrecord ref hmem) (Nat.not_lt.mpr (hnew ref href))
    · obtain ⟨last, taken, hsame, htaken, hlegs⟩ := hinv.shared k checkpoint ref hold href record hrecord hmem
      exact ⟨last, taken, (Function.update_of_ne hk _ _).trans hsame, (OrdMap.get?_set _ _ _ _).trans ((if_neg hk).trans htaken), hlegs⟩

end Begin

section Mark

variable {h : History} (hinv : Inv h) (splitId : String) (legIndex : JsNumber) (state : SplitLegState)

include hinv

theorem mark_immutable_iff :
    (∀ record ∈ h.returned, record.contents
      ((setLegState h.coordinator splitId legIndex state).toOption.getD h.coordinator).legs =
        record.contents h.coordinator.legs) ↔ Keeps h splitId legIndex state := by
  have hmarked := marked h.coordinator splitId legIndex state
  generalize setLegState h.coordinator splitId legIndex state = result at hmarked ⊢
  cases hmarked with
  | unknown hnone error =>
      refine iff_of_true (fun _ _ => rfl) (fun _ checkpoint ref leg hcheckpoint href => ?_)
      rw [hnone checkpoint hcheckpoint] at href
      cases href
  | marked checkpoint hcheckpoint ref href =>
      change (∀ record ∈ h.returned, record.contents (h.coordinator.legs.modify ref (fun leg => { leg with state })) =
        record.contents h.coordinator.legs) ↔ _
      simp only [contents_eq_iff, read_modify_iff]
      constructor
      · rintro hall ⟨record, taken, hlast, htaken, hlegs⟩ other ref' leg hother href' hleg
        cases hother.symm.trans hcheckpoint
        cases htaken.symm.trans hcheckpoint
        cases href'.symm.trans href
        have hrecord := hinv.returned splitId record (hinv.recorded splitId record hlast)
        have hsame := hall record hrecord (hlegs ▸ elementAt_mem href) leg hleg
        exact (congrArg SplitLeg.state hsame).symm
      · intro hkeeps record hrecord hmem leg hleg
        have htaken := hinv.shared splitId checkpoint ref hcheckpoint (elementAt_mem href) record hrecord hmem
        rw [← hkeeps htaken checkpoint ref leg hcheckpoint href hleg]

theorem mark_inv : Inv { h with
    coordinator := (setLegState h.coordinator splitId legIndex state).toOption.getD h.coordinator } := by
  have hmarked := marked h.coordinator splitId legIndex state
  generalize setLegState h.coordinator splitId legIndex state = result at hmarked ⊢
  cases hmarked with
  | unknown hnone error => exact hinv
  | marked checkpoint hcheckpoint ref href =>
      exact {
        recorded := hinv.recorded
        known := hinv.known
        returned := hinv.returned
        placed := fun k other hother => (hinv.placed k other hother).modify ref _
        held := fun record hrecord => (hinv.held record hrecord).modify ref _
        apart := hinv.apart
        shared := hinv.shared }

end Mark

section Rollback

variable {h : History} (hinv : Inv h) (splitId : String) (now : Nat)

theorem rollback_legs : (next sha256Hex h (.initiateRollback splitId now)).coordinator.legs = h.coordinator.legs := by
  unfold next
  dsimp only
  have hanswered := answered sha256Hex h.coordinator splitId now
  generalize initiateRollback sha256Hex h.coordinator splitId now = result at hanswered ⊢
  cases hanswered <;> rfl

include hinv

theorem rollback_inv : Inv (next sha256Hex h (.initiateRollback splitId now)) := by
  unfold next
  dsimp only
  have hanswered := answered sha256Hex h.coordinator splitId now
  generalize initiateRollback sha256Hex h.coordinator splitId now = result at hanswered ⊢
  cases hanswered with
  | unknown hcheckpoint => exact hinv
  | repeated checkpoint hcheckpoint existing hexisting hheld idempotency =>
      have hreturned := hinv.returned splitId existing hexisting
      -- the record that was returned last, if there is one, is the one in the map
      have hlast : ∀ k record, Function.update h.last splitId (some existing) k = some record →
          k = splitId ∧ record = existing ∨ k ≠ splitId ∧ h.last k = some record := by
        intro k record hsome
        rcases eq_or_ne k splitId with rfl | hk
        · rw [Function.update_self] at hsome
          exact .inl ⟨rfl, (Option.some.inj hsome).symm⟩
        · rw [Function.update_of_ne hk] at hsome
          exact .inr ⟨hk, hsome⟩
      refine {
        recorded := fun k record hsome => ?_
        known := fun k record hsome => ?_
        returned := fun k record hget => List.mem_cons_of_mem _ (hinv.returned k record hget)
        placed := hinv.placed
        held := List.forall_mem_cons.mpr ⟨hinv.held existing hreturned, hinv.held⟩
        apart := hinv.apart
        shared := fun k other ref hother href record hrecord hmem => ?_ }
      · rcases hlast k record hsome with ⟨rfl, rfl⟩ | ⟨-, hsame⟩
        · exact hexisting
        · exact hinv.recorded k record hsame
      · rcases hlast k record hsome with ⟨rfl, -⟩ | ⟨-, hsame⟩
        · exact ⟨checkpoint, hcheckpoint⟩
        · exact hinv.known k record hsame
      · have hold : record ∈ h.returned := by
          rcases List.mem_cons.mp hrecord with rfl | hold
          · exact hreturned
          · exact hold
        obtain ⟨last, taken, hsame, htaken, hlegs⟩ := hinv.shared k other ref hother href record hold hmem
        rcases eq_or_ne k splitId with rfl | hk
        · cases (hinv.recorded k last hsame).symm.trans hexisting
          exact ⟨existing, taken, Function.update_self .., htaken, hlegs⟩
        · exact ⟨last, taken, (Function.update_of_ne hk _ _).trans hsame, htaken, hlegs⟩
  | taken checkpoint hcheckpoint hnew record hrecord incomplete idempotency =>
      subst hrecord
      refine {
        recorded := fun k other hsome => ?_
        known := fun k other hsome => ?_
        returned := fun k other hget => ?_
        placed := hinv.placed
        held := List.forall_mem_cons.mpr ⟨hinv.placed splitId record.checkpoint hcheckpoint, hinv.held⟩
        apart := hinv.apart
        shared := fun k other ref hother href old hold hmem => ?_ }
      · refine (OrdMap.get?_set _ _ _ _).trans ?_
        rcases eq_or_ne k splitId with rfl | hk
        · rw [if_pos rfl]
          exact (Function.update_self k (some record) h.last).symm.trans hsome
        · rw [if_neg hk]
          exact hinv.recorded k other ((Function.update_of_ne hk _ _).symm.trans hsome)
      · rcases eq_or_ne k splitId with rfl | hk
        · exact ⟨record.checkpoint, hcheckpoint⟩
        · exact hinv.known k other ((Function.update_of_ne hk _ _).symm.trans hsome)
      · have hset := (OrdMap.get?_set _ _ _ _).symm.trans hget
        split_ifs at hset with hk
        · cases hset
          exact List.mem_cons_self
        · exact List.mem_cons_of_mem _ (hinv.returned k other hset)
      · rcases eq_or_ne k splitId with rfl | hk
        · cases hother.symm.trans hcheckpoint
          exact ⟨record, record.checkpoint, Function.update_self .., hcheckpoint, rfl⟩
        · rcases List.mem_cons.mp hold with rfl | hbefore
          · exact absurd (hinv.apart k splitId other old.checkpoint ref hother hcheckpoint href hmem) hk
          · obtain ⟨last, taken, hsame, htaken, hlegs⟩ := hinv.shared k other ref hother href old hbefore hmem
            exact ⟨last, taken, (Function.update_of_ne hk _ _).trans hsame, htaken, hlegs⟩

theorem repeated_iff {record : SplitRollbackRecord Ref} (hlast : h.last splitId = some record) :
    (∃ outcome, initiateRollback sha256Hex h.coordinator splitId now = .ok outcome ∧
      outcome.record = record ∧ outcome.events = []) ↔ Held sha256Hex h.coordinator splitId now := by
  have hrecorded := hinv.recorded splitId record hlast
  obtain ⟨known, hknown⟩ := hinv.known splitId record hlast
  have hanswered := answered sha256Hex h.coordinator splitId now
  generalize initiateRollback sha256Hex h.coordinator splitId now = result at hanswered ⊢
  cases hanswered with
  | unknown hcheckpoint => cases hcheckpoint.symm.trans hknown
  | repeated checkpoint hcheckpoint existing hexisting hheld idempotency =>
      cases hexisting.symm.trans hrecorded
      exact iff_of_true ⟨_, rfl, rfl, rfl⟩ hheld
  | taken checkpoint hcheckpoint hnew taken htaken incomplete idempotency =>
      refine iff_of_false ?_ (hnew record hrecorded)
      rintro ⟨outcome, hresult, -, hevents⟩
      cases hresult
      cases hevents

omit hinv in
theorem current_iff {checkpoint : SplitRollbackCheckpoint Ref}
    (hcheckpoint : h.coordinator.checkpoints.get? splitId = some checkpoint) :
    (∃ outcome, initiateRollback sha256Hex h.coordinator splitId now = .ok outcome ∧
      outcome.record.checkpoint.contents h.coordinator.legs = checkpoint.contents h.coordinator.legs) ↔
    (Held sha256Hex h.coordinator splitId now → ∀ existing,
      h.coordinator.rollbackRecords.get? splitId = some existing →
        existing.checkpoint.contents h.coordinator.legs = checkpoint.contents h.coordinator.legs) := by
  have hanswered := answered sha256Hex h.coordinator splitId now
  generalize initiateRollback sha256Hex h.coordinator splitId now = result at hanswered ⊢
  cases hanswered with
  | unknown hnone => cases hnone.symm.trans hcheckpoint
  | repeated other hother existing hexisting hheld idempotency =>
      constructor
      · rintro ⟨outcome, hresult, hsame⟩ _ record hrecord
        cases hresult
        cases hrecord.symm.trans hexisting
        exact hsame
      · intro hsame
        exact ⟨_, rfl, hsame hheld existing hexisting⟩
  | taken other hother hnew record hrecord incomplete idempotency =>
      cases hother.symm.trans hcheckpoint
      refine iff_of_true ⟨_, rfl, ?_⟩ (fun hheld existing hexisting => absurd hheld (hnew existing hexisting))
      rw [hrecord]

end Rollback

theorem inv_next {h : History} (hinv : Inv h) (call : Call) : Inv (next sha256Hex h call) := by
  cases call with
  | begin splitId invoiceId legs now => exact begin_inv hinv splitId invoiceId legs now
  | markLegSuccess splitId legIndex => exact mark_inv hinv splitId legIndex .succeeded
  | markLegFailed splitId legIndex => exact mark_inv hinv splitId legIndex .failed
  | initiateRollback splitId now => exact rollback_inv hinv splitId now

theorem lawful_of_immutable {h : History} {call : Call} (hcall : ∀ splitId now, call ≠ .initiateRollback splitId now)
    (himmutable : ∀ record ∈ h.returned,
      record.contents (next sha256Hex h call).coordinator.legs = record.contents h.coordinator.legs) :
    Lawful sha256Hex h call where
  immutable := himmutable
  repeated splitId now _ heq := absurd heq (hcall splitId now)
  current splitId now _ heq := absurd heq (hcall splitId now)

theorem lawful_iff {h : History} (hinv : Inv h) (call : Call) : Lawful sha256Hex h call ↔ Spares sha256Hex h call := by
  cases call with
  | begin splitId invoiceId legs now =>
      exact iff_of_true (lawful_of_immutable (by simp) (begin_immutable hinv splitId invoiceId legs now)) trivial
  | markLegSuccess splitId legIndex =>
      refine Iff.trans ⟨fun h => h.immutable, lawful_of_immutable (by simp)⟩ ?_
      exact mark_immutable_iff hinv splitId legIndex .succeeded
  | markLegFailed splitId legIndex =>
      refine Iff.trans ⟨fun h => h.immutable, lawful_of_immutable (by simp)⟩ ?_
      exact mark_immutable_iff hinv splitId legIndex .failed
  | initiateRollback splitId now =>
      constructor
      · intro hlawful
        refine ⟨fun record hlast hwithin => ?_, fun hlast hheld existing checkpoint hexisting hcheckpoint => ?_⟩
        · exact (repeated_iff hinv splitId now hlast).mp (hlawful.repeated splitId now record rfl hlast hwithin)
        · exact (current_iff splitId now hcheckpoint).mp (hlawful.current splitId now checkpoint rfl hlast hcheckpoint)
            hheld existing hexisting
      · rintro ⟨hremembered, hfresh⟩
        refine ⟨fun record _ => ?_, fun k time record heq hlast hwithin => ?_, fun k time checkpoint heq hlast hcheckpoint => ?_⟩
        · rw [rollback_legs]
        · cases heq
          exact (repeated_iff hinv splitId now hlast).mpr (hremembered record hlast hwithin)
        · cases heq
          exact (current_iff splitId now hcheckpoint).mpr
            (fun hheld existing hexisting => hfresh hlast hheld existing checkpoint hexisting hcheckpoint)

end Invariant

section Runs

variable (sha256Hex : String → String)

theorem step_inv (h : History) (call : Call) (h' : History) (hinv : Inv h) (hstep : step sha256Hex h call = some h') :
    Inv h' := by
  cases hstep
  exact inv_next hinv call

theorem returned_subset (h : History) (call : Call) : h.returned ⊆ (next sha256Hex h call).returned := by
  cases call with
  | begin | markLegSuccess | markLegFailed => exact List.Subset.refl _
  | initiateRollback splitId now =>
      unfold next
      dsimp only
      cases initiateRollback sha256Hex h.coordinator splitId now with
      | error => exact List.Subset.refl _
      | ok outcome => exact List.subset_cons_self _ _

/-- What was returned reads the same at the end of a lawful run. -/
theorem contents_of_lawful {h h' : History} {calls : List Call} (hlawful : Allowed (step sha256Hex) (Lawful sha256Hex) h calls)
    (hrun : run (step sha256Hex) h calls = some h') {record : SplitRollbackRecord Ref} (hrecord : record ∈ h.returned) :
    record.contents h'.coordinator.legs = record.contents h.coordinator.legs := by
  induction calls generalizing h with
  | nil =>
      cases hrun
      rfl
  | cons call calls ih =>
      have hnext := ih (hlawful.2 _ rfl) hrun (returned_subset sha256Hex h call hrecord)
      exact hnext.trans (hlawful.1.immutable record hrecord)

/-- Rollback records keep to the law as long as no leg is marked otherwise once its checkpoint was taken, no key is
forgotten within its window, and no split is begun again while its last rollback is remembered. -/
theorem rollback_records_iff (idempotency : IdempotencyManager) (calls : List Call) :
    Allowed (step sha256Hex) (Lawful sha256Hex) (start idempotency) calls ↔
      Allowed (step sha256Hex) (Spares sha256Hex) (start idempotency) calls :=
  allowed_iff (fun h call h' hinv _ => step_inv sha256Hex h call h' hinv) (fun _ call hinv => lawful_iff hinv call)
    (start_inv idempotency) calls

/-- A leg is marked as failed after the rollback. -/
def lateMark : List Call :=
  [.begin "split-1" "invoice-1" [("GDEST", 10)] 0, .initiateRollback "split-1" 1, .markLegFailed "split-1" (.finite 0)]

/-- The record that was returned at the second call reads otherwise after the third. -/
theorem rollback_records_fail : ¬Allowed (step id) (Lawful id) (start {}) lateMark := by
  intro hlawful
  have hmark := (hlawful.2 _ rfl).2 _ rfl
  have hsame := hmark.1.immutable ⟨"split-1invoice-11", 1, "split-1", "invoice-1", 0, [0]⟩ (List.mem_singleton.mpr rfl)
  cases hsame

end Runs

end SplitSdk.RollbackRecords
