import SplitSdk.Fallible
import SplitSdk.Interleaving
import SplitSdk.VersionNumbering

namespace SplitSdk.RollbackSafety

open Fallible InvoiceDiff InvoiceVersionTracker Interleaving Numbers OfflineQueue
open VersionNumbering (samplePlatform)

section Model

/-- The transitions of the lifecycle, `DEFAULT_TRANSITIONS`. -/
def defaultTransitions : InvoiceStatus → List InvoiceStatus
  | .pending => [.released, .refunded, .cancelled]
  | .released => []
  | .refunded => []
  | .cancelled => []

def allowedFrom (status : InvoiceStatus) : List InvoiceStatus := defaultTransitions status

variable (versions : List InvoiceVersion) (invoiceId : String) (request : RollbackRequest)

/-- `isRollbackSafe` on a history that does not change meanwhile: why there is no rollback, or nothing. -/
def isRollbackSafe : Option String :=
  if isPositiveInteger request.targetVersion then
    match checkLatest invoiceId request.targetVersion (getLatest versions) with
    | .error reason => some reason
    | .ok latest =>
        checkTarget invoiceId request.targetVersion request.options latest
          (getVersion versions request.targetVersion)
  else some (notPositive request.targetVersion)

def refuse (reason : String) : Failure :=
  match refuseLatest request.targetVersion reason (getLatest versions) with
  | some failure => failure
  | none => refuseTarget invoiceId request.targetVersion reason (getVersion versions request.targetVersion)

variable (platform : Platform) (now : Int)

/-- `rollback` on a history that does not change meanwhile. -/
def rollback : Except Failure InvoiceRollbackResult :=
  match isRollbackSafe versions invoiceId request with
  | some reason => .error (refuse versions invoiceId request reason)
  | none =>
      rollbackVersion invoiceId request.targetVersion request.options platform (getLatest versions)
        (getVersion versions request.targetVersion) now

/-- Where a call is after a number of turns. -/
def settle : Nat → Position → Position
  | 0, position => position
  | turns + 1, position =>
      match proceed platform versions invoiceId now position with
      | some next => settle turns next
      | none => position

def finished : Except Failure InvoiceRollbackResult → Position
  | .ok result => .returned (.rolledBack result)
  | .error failure => .rejected failure

end Model

section Turns

variable {versions : List InvoiceVersion} {invoiceId : String} {request : RollbackRequest} {platform : Platform}
  {now : Int}

theorem settle_succ {turns : Nat} {position next : Position}
    (h : proceed platform versions invoiceId now position = some next) :
    settle versions invoiceId platform now (turns + 1) position =
      settle versions invoiceId platform now turns next := by
  rw [settle, h]

theorem settle_ended {turns : Nat} {position : Position}
    (h : proceed platform versions invoiceId now position = none) :
    settle versions invoiceId platform now turns position = position := by
  cases turns with
  | zero => rfl
  | succ turns => rw [settle, h]

theorem settle_refused (turns : Nat) (reason : String) :
    settle versions invoiceId platform now (turns + 3) (.checked request (some reason)) =
      .rejected (refuse versions invoiceId request reason) := by
  rw [settle_succ rfl]
  cases hlatest : refuseLatest request.targetVersion reason (getLatest versions) with
  | some failure =>
      rw [settle_succ (by rw [proceed, hlatest]), settle_ended rfl, refuse, hlatest]
  | none =>
      rw [settle_succ (by rw [proceed, hlatest]), settle_succ rfl, settle_ended rfl, refuse, hlatest]

theorem settle_safe :
    settle versions invoiceId platform now 4 (.checked request none) =
      finished (rollbackVersion invoiceId request.targetVersion request.options platform (getLatest versions)
        (getVersion versions request.targetVersion) now) := by
  rw [settle_succ rfl, settle_succ rfl]
  cases hresult : rollbackVersion invoiceId request.targetVersion request.options platform (getLatest versions)
      (getVersion versions request.targetVersion) now with
  | ok result => rw [settle_succ (by rw [proceed, hresult]), settle_succ rfl, settle, finished]
  | error failure => rw [settle_succ (by rw [proceed, hresult]), settle_ended rfl, finished]

/-- A call of `rollback` that no other call interrupts ends as it does on a fixed history. -/
theorem settle_rollback :
    settle versions invoiceId platform now 6 (startRollback versions request) =
      finished (rollback versions invoiceId request platform now) := by
  unfold startRollback rollback isRollbackSafe
  split_ifs with hpositive
  · cases hlatest : checkLatest invoiceId request.targetVersion (getLatest versions) with
    | error reason =>
        rw [settle_succ (by rw [proceed, hlatest]), settle_refused]
        rfl
    | ok latest =>
        rw [settle_succ (by rw [proceed, hlatest]), settle_succ rfl]
        dsimp only
        cases checkTarget invoiceId request.targetVersion request.options latest
            (getVersion versions request.targetVersion) with
        | some reason => exact settle_refused 1 reason
        | none => exact settle_safe
  · rw [settle_refused]
    rfl

theorem settle_appending (turns : Nat) (outcome : Outcome) (versions versions' : List InvoiceVersion) :
    settle versions invoiceId platform now turns (.appending outcome) =
      settle versions' invoiceId platform now turns (.appending outcome) := by
  cases turns with
  | zero => rfl
  | succ turns => rw [settle_succ rfl, settle_succ rfl, settle_ended rfl, settle_ended rfl]

/-- The turns of one call, with no others between them, are those on a fixed history. -/
theorem run_resumes {s t : Tracker} {k turns : Nat} {call : Call} (hcall : s.calls[k]? = some call)
    (h : run (step platform) s (List.replicate turns (.resume k now)) = some t) :
    t.calls[k]? = some { call with
      position := settle (s.history call.invoiceId) call.invoiceId platform now turns call.position } := by
  induction turns generalizing s call with
  | zero =>
      cases h
      exact hcall
  | succ turns ih =>
      obtain ⟨u, hu, h⟩ := run_cons h
      rw [step, hcall] at hu
      obtain ⟨next, hnext, rfl⟩ := Option.map_eq_some_iff.mp hu
      have hlt := (List.getElem?_eq_some_iff.mp hcall).1
      have hmoved : (moved s k call next).calls[k]? = some { call with position := next } :=
        List.getElem?_set_self hlt
      rw [ih hmoved h, settle_succ hnext]
      cases next with
      | appending outcome => rw [settle_appending turns outcome _ (s.history call.invoiceId)]
      | _ => rfl

end Turns

section Statement

variable (versions : List InvoiceVersion) (request : RollbackRequest)

/-- The latest status is `Cancelled`, and the target is a version before the latest one that can be compared with it. -/
def ReopensCancelled : Prop :=
  isPositiveInteger request.targetVersion ∧
    ∃ latest ∈ getLatest versions, latest.snapshot.status = .cancelled ∧
      JsNumber.lt request.targetVersion (.finite latest.version) ∧
        ∃ target ∈ getVersion versions request.targetVersion, ∃ diff,
          diffInvoices latest.snapshot (restore request.options latest target) = .ok diff

end Statement

section Result

variable {versions : List InvoiceVersion} {invoiceId : String} {request : RollbackRequest} {platform : Platform}
  {now : Int}

theorem checkLatest_eq_ok {latest : Option InvoiceVersion} {current : InvoiceVersion}
    (hpositive : isPositiveInteger request.targetVersion) :
    checkLatest invoiceId request.targetVersion latest = .ok current ↔
      latest = some current ∧ JsNumber.lt request.targetVersion (.finite current.version) := by
  cases latest with
  | none => simp [checkLatest]
  | some latest =>
      cases htarget : request.targetVersion with
      | nan | infinity =>
          rw [htarget] at hpositive
          cases hpositive
      | finite q =>
          have hcompare : JsNumber.lt (.finite q) (.finite latest.version) ↔
              JsNumber.finite q ≠ .finite latest.version ∧ ¬ JsNumber.lt (.finite latest.version) (.finite q) := by
            simp only [JsNumber.lt, decide_eq_true_eq, ne_eq, JsNumber.finite.injEq, not_lt]
            exact lt_iff_le_and_ne.trans and_comm
          unfold checkLatest
          dsimp only
          split_ifs with heq hlt
          · simp only [Option.some.injEq, false_iff, not_and]
            rintro rfl h
            exact (hcompare.mp h).1 heq
          · simp only [Option.some.injEq, false_iff, not_and]
            rintro rfl h
            exact (hcompare.mp h).2 hlt
          · simp only [Except.ok.injEq, Option.some.injEq]
            refine ⟨?_, And.left⟩
            rintro rfl
            exact ⟨rfl, hcompare.mpr ⟨heq, hlt⟩⟩

theorem checkTarget_eq_none {latest : InvoiceVersion} {target : Option InvoiceVersion}
    (hallow : request.options.allowTerminalStateRollback = false) :
    checkTarget invoiceId request.targetVersion request.options latest target = none ↔
      target.isSome ∧ latest.snapshot.status ≠ .released ∧ latest.snapshot.status ≠ .refunded := by
  cases target with
  | none => simp [checkTarget]
  | some target => simp [checkTarget, hallow]

theorem rollbackVersion_ok_iff {latest target : InvoiceVersion} :
    (∃ result, rollbackVersion invoiceId request.targetVersion request.options platform (some latest) (some target) now =
      .ok result) ↔ ∃ diff, diffInvoices latest.snapshot (restore request.options latest target) = .ok diff := by
  rw [rollbackVersion]
  cases diffInvoices latest.snapshot (restore request.options latest target) with
  | error message => simp [ofDiff, bind, Except.bind]
  | ok diff => simp [ofDiff, bind, Except.bind, pure, Except.pure]

/-- When a rollback that does not allow for terminal states succeeds. -/
theorem rollback_ok_iff (hallow : request.options.allowTerminalStateRollback = false) :
    (∃ result, rollback versions invoiceId request platform now = .ok result) ↔
      isPositiveInteger request.targetVersion ∧
        ∃ latest ∈ getLatest versions, latest.snapshot.status ≠ .released ∧ latest.snapshot.status ≠ .refunded ∧
          JsNumber.lt request.targetVersion (.finite latest.version) ∧
            ∃ target ∈ getVersion versions request.targetVersion, ∃ diff,
              diffInvoices latest.snapshot (restore request.options latest target) = .ok diff := by
  unfold rollback isRollbackSafe
  by_cases hpositive : isPositiveInteger request.targetVersion
  · rw [if_pos hpositive]
    cases hlatest : checkLatest invoiceId request.targetVersion (getLatest versions) with
    | error reason =>
        refine iff_of_false (fun ⟨_, h⟩ => nomatch h) ?_
        rintro ⟨-, latest, hmem, -, -, hlt, -⟩
        rw [(checkLatest_eq_ok hpositive).mpr ⟨hmem, hlt⟩] at hlatest
        cases hlatest
    | ok latest =>
        obtain ⟨hmem, hlt⟩ := (checkLatest_eq_ok hpositive).mp hlatest
        dsimp only
        cases hsafe : checkTarget invoiceId request.targetVersion request.options latest
            (getVersion versions request.targetVersion) with
        | some reason =>
            refine iff_of_false (fun ⟨_, h⟩ => nomatch h) ?_
            rintro ⟨-, latest', hmem', hreleased, hrefunded, -, target, htarget, -⟩
            obtain rfl := Option.some.inj (hmem.symm.trans hmem')
            rw [(checkTarget_eq_none hallow).mpr ⟨Option.isSome_of_mem htarget, hreleased, hrefunded⟩] at hsafe
            cases hsafe
        | none =>
            obtain ⟨hsome, hreleased, hrefunded⟩ := (checkTarget_eq_none hallow).mp hsafe
            obtain ⟨target, htarget⟩ := Option.isSome_iff_exists.mp hsome
            rw [hmem, htarget]
            dsimp only
            rw [rollbackVersion_ok_iff]
            simp [hpositive, hreleased, hrefunded, hlt]
  · rw [if_neg hpositive]
    refine iff_of_false (fun ⟨_, h⟩ => nomatch h) (fun h => hpositive h.1)

/-- A rollback leaves the statuses without transitions alone exactly when it is none of a cancelled invoice to a version that it
has. -/
theorem rollback_respects_terminal_iff {versions : List InvoiceVersion} {invoiceId : String} {request : RollbackRequest}
    {platform : Platform} {now : Int} (hallow : request.options.allowTerminalStateRollback = false) :
    ((∃ result, rollback versions invoiceId request platform now = .ok result) →
      ∃ latest ∈ getLatest versions, allowedFrom latest.snapshot.status ≠ []) ↔
        ¬ ReopensCancelled versions request := by
  rw [rollback_ok_iff hallow]
  constructor
  · rintro h ⟨hpositive, latest, hlatest, hstatus, hlt, htarget⟩
    obtain ⟨latest', hlatest', hallowed⟩ :=
      h ⟨hpositive, latest, hlatest, by rw [hstatus]; decide, by rw [hstatus]; decide, hlt, htarget⟩
    obtain rfl := Option.some.inj (hlatest.symm.trans hlatest')
    exact hallowed (by rw [hstatus]; rfl)
  · rintro h ⟨hpositive, latest, hlatest, hreleased, hrefunded, hlt, htarget⟩
    refine ⟨latest, hlatest, fun hnone => ?_⟩
    cases hstatus : latest.snapshot.status with
    | pending =>
        rw [hstatus] at hnone
        cases hnone
    | released => exact hreleased hstatus
    | refunded => exact hrefunded hstatus
    | cancelled => exact h ⟨hpositive, latest, hlatest, hstatus, hlt, htarget⟩

def sampleVersion (version : Nat) (status : InvoiceStatus) : InvoiceVersion where
  version
  snapshot := { recipients := [], status, funded := 0 }
  changedBy := "GA"
  changedAt := 0
  changeSummary := "Initial version."
  checksum := ""

def backToFirst : RollbackRequest where
  targetVersion := .finite 1

theorem rollback_respects_terminal_pending :
    ∃ latest ∈ getLatest [sampleVersion 1 .pending, sampleVersion 2 .pending],
      allowedFrom latest.snapshot.status ≠ [] := by
  have hiff := @rollback_respects_terminal_iff [sampleVersion 1 .pending, sampleVersion 2 .pending] "1001" backToFirst
    samplePlatform 0 rfl
  refine hiff.mpr ?_ ?_
  · rintro ⟨-, latest, hlatest, hstatus, -⟩
    cases hlatest
    cases hstatus
  · have hok : (rollback [sampleVersion 1 .pending, sampleVersion 2 .pending] "1001" backToFirst samplePlatform
        0).toOption.isSome := by
      decide
    obtain ⟨result, hresult⟩ := Option.isSome_iff_exists.mp hok
    exact ⟨result, toOption_eq_some.mp hresult⟩

/-- A cancelled invoice is pending again. -/
theorem cancelled_reopened : ∃ result ∈ (rollback [sampleVersion 1 .pending, sampleVersion 2 .cancelled] "1001" backToFirst
    samplePlatform 0).toOption,
    result.restoredInvoice.status = .pending ∧ allowedFrom .cancelled = [] := by
  decide

end Result

end SplitSdk.RollbackSafety
