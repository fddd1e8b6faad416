import Mathlib.Data.List.Induction
import SplitSdk.Fallible
import SplitSdk.GrowingLog
import SplitSdk.Interleaving
import SplitSdk.InvoiceVersionTracker

namespace SplitSdk.VersionNumbering

open Fallible GrowingLog Interleaving InvoiceVersionTracker OrderedMap

variable {platform : Platform}

section Statement

/-- The versions are numbered 1, 2, and so on. -/
def Numbered (versions : List InvoiceVersion) : Prop :=
  versions.map InvoiceVersion.version = List.range' 1 versions.length

def KeepsNumbered (platform : Platform) (s : Tracker) (e : Event) : Prop :=
  ∀ t, step platform s e = some t → ∀ invoiceId, Numbered (t.history invoiceId)

def outcomeOf : Position → Option Outcome
  | .appending outcome | .returned outcome => some outcome
  | _ => none

/-- The version that a call has appended to the history of an invoice. -/
def appendedVersion (invoiceId : String) (call : Call) : Option InvoiceVersion :=
  if call.invoiceId = invoiceId then (outcomeOf call.position).map Outcome.version else none

def appended (s : Tracker) (invoiceId : String) : List InvoiceVersion := s.calls.filterMap (appendedVersion invoiceId)

/-- The latest version as a call has read it for the version that it will append. -/
def readLatest : Position → Option (Option InvoiceVersion)
  | .recording _ _ latest | .restoring _ latest | .rebuilding _ latest _ => some latest
  | _ => none

/-- A call that goes on now appends a version. -/
def Appends (platform : Platform) (s : Tracker) (call : Call) (now : Int) : Prop :=
  ∃ outcome, proceed platform (s.history call.invoiceId) call.invoiceId now call.position = some (.appending outcome)

/-- A call appends its version only while the latest version is the one that it has read. -/
def LatestUnchanged (platform : Platform) (s : Tracker) : Event → Prop
  | .record .. | .rollback .. => True
  | .resume k now => ∀ call ∈ s.calls[k]?, Appends platform s call now → ∀ latest ∈ readLatest call.position,
      latest.map InvoiceVersion.version = (getLatest (s.history call.invoiceId)).map InvoiceVersion.version

end Statement

section Numbers

def Fits (before : List InvoiceVersion) (version : InvoiceVersion) : Prop := version.version = before.length + 1

theorem numbered_iff (versions : List InvoiceVersion) : Numbered versions ↔ Built Fits versions := by
  induction versions using List.reverseRecOn with
  | nil => exact iff_of_true rfl built_nil
  | append_singleton versions version ih =>
      rw [built_push, ← ih, Numbered, Numbered, Fits, List.map_append, List.length_append, List.map_singleton,
        List.length_singleton, List.range'_1_concat]
      constructor
      · intro h
        obtain ⟨hrest, hlast⟩ := List.append_inj' h rfl
        rw [List.singleton_inj] at hlast
        exact ⟨hrest, by omega⟩
      · rintro ⟨hrest, hlast⟩
        rw [hrest, hlast, add_comm]

/-- The next number is one more than there are versions. -/
theorem nextVersionNumber_getLatest {versions : List InvoiceVersion} (h : Built Fits versions) :
    nextVersionNumber (getLatest versions) = versions.length + 1 := by
  induction versions using List.reverseRecOn with
  | nil => rfl
  | append_singleton versions version ih =>
      rw [getLatest, List.getLast?_concat, nextVersionNumber, (built_push.mp h).2, List.length_append,
        List.length_singleton]

theorem nextVersionNumber_eq {latest latest' : Option InvoiceVersion}
    (h : latest.map InvoiceVersion.version = latest'.map InvoiceVersion.version) :
    nextVersionNumber latest = nextVersionNumber latest' := by
  cases latest <;> cases latest' <;> simp_all [nextVersionNumber]

/-- A version numbered after an earlier reading of the log fits it only when nothing has been appended since. -/
theorem fits_read_iff {versions : List InvoiceVersion} {latest : Option InvoiceVersion} {version : InvoiceVersion}
    (h : Built Fits versions) (hread : ReadOf getLatest versions latest)
    (hversion : version.version = nextVersionNumber latest) :
    Fits versions version ↔
      latest.map InvoiceVersion.version = (getLatest versions).map InvoiceVersion.version := by
  constructor
  · intro hfits
    obtain ⟨before, hbefore, rfl⟩ := hread
    rw [nextVersionNumber_getLatest (h.of_prefix hbefore)] at hversion
    have hlen : before.length = versions.length := by
      rw [Fits] at hfits
      omega
    rw [hbefore.eq_of_length hlen]
  · intro heq
    rw [Fits, hversion, nextVersionNumber_eq heq, nextVersionNumber_getLatest h]

end Numbers

section Steps

variable {s t : Tracker} {e : Event} {versions : List InvoiceVersion} {invoiceId : String} {now : Int}
  {position next : Position}

theorem recordVersion_version {latest : Option InvoiceVersion} {newSnapshot : InvoiceDiff.Invoice} {changedBy : String}
    {version : InvoiceVersion} (h : recordVersion platform latest newSnapshot changedBy now = .ok version) :
    version.version = nextVersionNumber latest := by
  obtain ⟨changeSummary, -, h⟩ := bind_eq_ok.mp h
  cases h
  rfl

theorem rollbackVersion_version {targetVersion : Numbers.JsNumber} {options : RollbackOptions}
    {latest target : Option InvoiceVersion} {result : InvoiceRollbackResult}
    (h : rollbackVersion invoiceId targetVersion options platform latest target now = .ok result) :
    result.version.version = nextVersionNumber latest := by
  unfold rollbackVersion at h
  split at h
  · cases h
  · cases h
  · obtain ⟨diff, -, h⟩ := bind_eq_ok.mp h
    cases h
    rfl

/-- What a call does when it goes on: it appends a version that it numbers after the latest one it has read, or returns, or
reads on. -/
inductive Proceeds (versions : List InvoiceVersion) (position : Position) : Position → Prop
  | appends {latest : Option InvoiceVersion} {outcome : Outcome} (hread : readLatest position = some latest)
      (hnone : outcomeOf position = none) (hversion : outcome.version.version = nextVersionNumber latest) :
      Proceeds versions position (.appending outcome)
  | returns {outcome : Outcome} (hposition : position = .appending outcome) :
      Proceeds versions position (.returned outcome)
  | reads {next : Position} (hposition : outcomeOf position = none) (hnext : outcomeOf next = none)
      (hreads : ∀ latest ∈ readLatest next, latest = getLatest versions ∨ latest ∈ readLatest position) :
      Proceeds versions position next

theorem Proceeds.silent (hposition : outcomeOf position = none) (hnext : outcomeOf next = none)
    (hread : readLatest next = none) : Proceeds versions position next := by
  refine .reads hposition hnext ?_
  rw [hread]
  exact fun latest hlatest => absurd hlatest (Option.not_mem_none latest)

theorem proceeds_of_proceed (h : proceed platform versions invoiceId now position = some next) :
    Proceeds versions position next := by
  cases position with
  | recording newSnapshot changedBy latest =>
      rw [proceed] at h
      split at h
      next version hversion =>
        cases h
        exact .appends rfl rfl (recordVersion_version hversion)
      next =>
        cases h
        exact .silent rfl rfl rfl
  | rebuilding request latest target =>
      rw [proceed] at h
      split at h
      next result hresult =>
        cases h
        exact .appends rfl rfl (rollbackVersion_version hresult)
      next =>
        cases h
        exact .silent rfl rfl rfl
  | checkingLatest request latest =>
      rw [proceed] at h
      split at h <;> cases h <;> exact .silent rfl rfl rfl
  | refusing request reason latest =>
      rw [proceed] at h
      split at h <;> cases h <;> exact .silent rfl rfl rfl
  | checked request reason =>
      cases reason with
      | none =>
          cases h
          exact .reads rfl rfl (fun latest hlatest => .inl (Option.some.inj hlatest).symm)
      | some reason =>
          cases h
          exact .silent rfl rfl rfl
  | restoring request latest =>
      cases h
      exact .reads rfl rfl (fun latest hlatest => .inr hlatest)
  | checkingTarget | refusingTarget =>
      cases h
      exact .silent rfl rfl rfl
  | appending outcome =>
      cases h
      exact .returns rfl
  | returned | rejected => cases h

inductive Moves (platform : Platform) (s : Tracker) : Event → Tracker → Prop
  | start {e : Event} {invoiceId : String} {position : Position} (hnone : outcomeOf position = none)
      (hreads : ∀ latest ∈ readLatest position, latest = getLatest (s.history invoiceId)) :
      Moves platform s e (startCall s invoiceId position)
  | resume {k : Nat} {now : Int} {call : Call} {next : Position} (hcall : s.calls[k]? = some call)
      (hproceed : proceed platform (s.history call.invoiceId) call.invoiceId now call.position = some next) :
      Moves platform s (.resume k now) (moved s k call next)

theorem moves_of_step (h : step platform s e = some t) : Moves platform s e t := by
  cases e with
  | record invoiceId newSnapshot changedBy =>
      cases h
      exact .start rfl (fun latest hlatest => (Option.some.inj hlatest).symm)
  | rollback invoiceId targetVersion options =>
      cases h
      unfold startRollback
      split_ifs
      · exact .start rfl (fun latest hlatest => absurd hlatest (Option.not_mem_none latest))
      · exact .start rfl (fun latest hlatest => absurd hlatest (Option.not_mem_none latest))
  | resume k now =>
      rw [step] at h
      split at h
      next call hcall =>
        obtain ⟨next, hproceed, rfl⟩ := Option.map_eq_some_iff.mp h
        exact .resume hcall hproceed
      next => cases h

theorem history_moved_of_outcome_none {k : Nat} {call : Call} (hnext : ∀ outcome, next ≠ .appending outcome)
    (invoiceId : String) : (moved s k call next).history invoiceId = s.history invoiceId := by
  cases next with
  | appending outcome => exact absurd rfl (hnext outcome)
  | _ => rfl

theorem history_appended (k : Nat) (call : Call) (outcome : Outcome) (invoiceId : String) :
    (moved s k call (.appending outcome)).history invoiceId =
      if invoiceId = call.invoiceId then s.history invoiceId ++ [outcome.version] else s.history invoiceId := by
  unfold moved Tracker.history
  rw [OrdMap.get?_set]
  split_ifs with heq
  · rw [heq, Option.getD_some]
  · rfl

/-- Histories only grow. -/
theorem history_prefix (h : step platform s e = some t) (invoiceId : String) :
    s.history invoiceId <+: t.history invoiceId := by
  cases moves_of_step h with
  | start => exact List.prefix_rfl
  | @resume k now call next hcall hproceed =>
      cases next with
      | appending outcome =>
          rw [history_appended]
          split_ifs
          · exact List.prefix_append _ _
          · exact List.prefix_rfl
      | _ => exact List.prefix_rfl

end Steps

section Runs

variable {s t : Tracker} {e : Event}

/-- The histories are numbered, and what the calls have read of them was the latest version then. -/
structure Inv (s : Tracker) : Prop where
  numbered : ∀ invoiceId, Built Fits (s.history invoiceId)
  reads : ∀ call ∈ s.calls, ∀ latest ∈ readLatest call.position,
    ReadOf getLatest (s.history call.invoiceId) latest

theorem inv_start : Inv {} where
  numbered _ := built_nil
  reads := List.forall_mem_nil _

theorem step_inv (hs : Inv s) (hok : KeepsNumbered platform s e) (h : step platform s e = some t) : Inv t where
  numbered invoiceId := (numbered_iff _).mp (hok t h invoiceId)
  reads := by
    have hgrown := history_prefix h
    cases moves_of_step h with
    | @start _ invoiceId position hnone hreads =>
        intro call hcall latest hlatest
        rcases List.mem_append.mp hcall with hold | hnew
        · exact hs.reads call hold latest hlatest
        · obtain rfl := List.mem_singleton.mp hnew
          rw [hreads latest hlatest]
          exact readOf_now getLatest _
    | @resume k now call next hcall hproceed =>
        intro call' hcall' latest hlatest
        rcases List.mem_or_eq_of_mem_set hcall' with hold | rfl
        · exact (hs.reads call' hold latest hlatest).mono (hgrown _)
        · have hold := hs.reads call (List.mem_of_getElem? hcall)
          cases proceeds_of_proceed hproceed with
          | appends | returns => exact absurd hlatest (Option.not_mem_none latest)
          | reads hposition hnext hreads =>
              refine ReadOf.mono ?_ (hgrown _)
              rcases hreads latest hlatest with rfl | hlatest
              · exact readOf_now getLatest _
              · exact hold latest hlatest

/-- A version that a call appends is in turn when the latest version is the one that the call has read. -/
theorem numbered_appended_iff (hs : Inv s) {call : Call} (hcall : call ∈ s.calls) (k : Nat) {outcome : Outcome}
    {latest : Option InvoiceVersion} (hlatest : latest ∈ readLatest call.position)
    (hversion : outcome.version.version = nextVersionNumber latest) :
    (∀ invoiceId, Numbered ((moved s k call (.appending outcome)).history invoiceId)) ↔
      latest.map InvoiceVersion.version = (getLatest (s.history call.invoiceId)).map InvoiceVersion.version := by
  have hfits := fits_read_iff (hs.numbered call.invoiceId) (hs.reads call hcall latest hlatest) hversion
  constructor
  · intro h
    have h := (numbered_iff _).mp (h call.invoiceId)
    rw [history_appended, if_pos rfl] at h
    exact hfits.mp (built_push.mp h).2
  · intro h invoiceId
    rw [history_appended, numbered_iff]
    split_ifs with heq
    · rw [heq]
      exact built_push.mpr ⟨hs.numbered _, hfits.mpr h⟩
    · exact hs.numbered invoiceId

theorem keepsNumbered_iff (hs : Inv s) (e : Event) : KeepsNumbered platform s e ↔ LatestUnchanged platform s e := by
  have hsame (hgrown : ∀ t, step platform s e = some t → ∀ invoiceId, t.history invoiceId = s.history invoiceId) :
      KeepsNumbered platform s e := by
    intro t ht invoiceId
    rw [hgrown t ht invoiceId]
    exact (numbered_iff _).mpr (hs.numbered invoiceId)
  cases e with
  | record | rollback =>
      refine iff_of_true (hsame ?_) trivial
      rintro t ⟨⟩ invoiceId
      rfl
  | resume k now =>
      cases hcall : s.calls[k]? with
      | none =>
          refine iff_of_true (hsame ?_) ?_
          · intro t ht
            rw [step, hcall] at ht
            cases ht
          · intro call hk
            rw [hcall] at hk
            cases hk
      | some call =>
          have hstep : step platform s (.resume k now) =
              (proceed platform (s.history call.invoiceId) call.invoiceId now call.position).map (moved s k call) := by
            rw [step, hcall]
          have hmem := List.mem_of_getElem? hcall
          constructor
          · rintro h call' hcall' ⟨outcome, houtcome⟩ latest hlatest
            obtain rfl := Option.some.inj (hcall.symm.trans hcall')
            rw [houtcome] at hstep
            cases proceeds_of_proceed houtcome with
            | appends hread hnone hversion =>
                obtain rfl := Option.some.inj (hread.symm.trans hlatest)
                exact (numbered_appended_iff hs hmem k hlatest hversion).mp (h _ hstep)
            | reads hposition hnext => cases hnext
          · intro h t ht
            rw [hstep] at ht
            obtain ⟨next, hnext, rfl⟩ := Option.map_eq_some_iff.mp ht
            cases proceeds_of_proceed hnext with
            | @appends latest outcome hread hnone hversion =>
                exact (numbered_appended_iff hs hmem k hread hversion).mpr (h call hcall ⟨outcome, hnext⟩ latest hread)
            | returns => exact fun invoiceId => (numbered_iff _).mpr (hs.numbered invoiceId)
            | reads hposition hnone hreads =>
                intro invoiceId
                rw [history_moved_of_outcome_none]
                · exact (numbered_iff _).mpr (hs.numbered invoiceId)
                · rintro outcome rfl
                  cases hnone

/-- Each version of a history is there for one call that has appended it. -/
def Complete (s : Tracker) : Prop := ∀ invoiceId, (s.history invoiceId).Perm (appended s invoiceId)

theorem complete_start : Complete {} := fun _ => List.Perm.refl []

theorem appended_moved {k : Nat} {call : Call} {next : Position} {invoiceId : String} (hcall : s.calls[k]? = some call)
    (hnext : appendedVersion invoiceId { call with position := next } = appendedVersion invoiceId call) :
    appended (moved s k call next) invoiceId = appended s invoiceId :=
  filterMap_set (appendedVersion invoiceId) hcall hnext

theorem step_complete (hs : Complete s) (h : step platform s e = some t) : Complete t := by
  intro invoiceId
  have hs := hs invoiceId
  cases moves_of_step h with
  | @start _ invoiceId' position hnone hreads =>
      have hcalls : appended (startCall s invoiceId' position) invoiceId = appended s invoiceId := by
        rw [appended, startCall, List.filterMap_append]
        simp [appended, appendedVersion, hnone]
      rw [hcalls]
      exact hs
  | @resume k now call next hcall hproceed =>
      cases proceeds_of_proceed hproceed with
      | @appends latest outcome hread hnone hversion =>
          rw [history_appended]
          split_ifs with heq
          · have hold : appendedVersion invoiceId call = none := by simp [appendedVersion, hnone]
            have hnew : appendedVersion invoiceId { call with position := .appending outcome } = some outcome.version :=
              if_pos heq.symm
            exact (List.perm_append_singleton _ _).trans
              ((hs.cons _).trans (filterMap_set_perm (appendedVersion invoiceId) hcall hold hnew).symm)
          · rw [appended_moved hcall]
            · exact hs
            · rw [appendedVersion, appendedVersion, if_neg (Ne.symm heq), if_neg (Ne.symm heq)]
      | @returns outcome hposition =>
          rw [appended_moved hcall]
          · exact hs
          · rw [appendedVersion, appendedVersion, hposition]
            rfl
      | reads hposition hnext hreads =>
          rw [appended_moved hcall, history_moved_of_outcome_none]
          · exact hs
          · rintro outcome rfl
            cases hnext
          · rw [appendedVersion, appendedVersion, hposition, hnext]

end Runs

section Result

/-- The histories are numbered after every step exactly when no call appends a version behind a latest one that it has not read,
and in any case there is one version for each call that has appended. -/
theorem versions_numbered_iff (platform : Platform) (es : List Event) :
    (Allowed (step platform) (KeepsNumbered platform) {} es ∧
        ∀ s, run (step platform) {} es = some s → ∀ invoiceId, (s.history invoiceId).Perm (appended s invoiceId)) ↔
      Allowed (step platform) (LatestUnchanged platform) {} es := by
  have hcomplete : ∀ s, run (step platform) {} es = some s → Complete s :=
    fun s => run_preserves (fun s e t hs ht => step_complete hs ht) complete_start
  refine (and_iff_left hcomplete).trans ?_
  exact allowed_iff (fun s e t => step_inv) (fun s e hs => keepsNumbered_iff hs e) inv_start es

def samplePlatform : Platform where
  toUpperCase := String.toUpper
  stringify _ := "{}"
  sha256 _ := ⟨"44136fa355b3678a1146ad16f7e8649e94fb4fc21fe77e8310c060f61caaff8a", Merkle.isDigest_ofList (by decide)⟩

def sampleInvoice : InvoiceDiff.Invoice where
  recipients := []
  status := .pending
  funded := 0

/-- The second call reads the latest version before the first one has appended its own. -/
def overlapping : List Event :=
  [.record "1001" sampleInvoice "GA", .record "1001" sampleInvoice "GB", .resume 0 0, .resume 1 0]

theorem overlapping_duplicate : ∃ s ∈ run (step samplePlatform) {} overlapping,
    (s.history "1001").map InvoiceVersion.version = [1, 1] := by
  decide

end Result

end SplitSdk.VersionNumbering
