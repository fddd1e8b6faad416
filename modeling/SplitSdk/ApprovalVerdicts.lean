import Mathlib.Data.List.Dedup
import SplitSdk.ApprovalWorkflow
import SplitSdk.Interleaving

namespace SplitSdk.ApprovalVerdicts

open ApprovalWorkflow Interleaving Numbers OrderedMap

section Statement

def isLate (deadline : Option JsNumber) (time : ℚ) : Bool := deadline.any (fun limit => limit.lt (.finite time))

def isTimelyApproval (deadline : Option JsNumber) (d : ApprovalDecision) : Bool :=
  d.decision = .approved ∧ isLate deadline d.timestamp = false

def isRejection (d : ApprovalDecision) : Bool := d.decision = .rejected

/-- The last decision of an approver. In a log the newest decision comes first. -/
def latest (log : List ApprovalDecision) (approver : String) : Option ApprovalDecision :=
  log.find? (fun d => d.approver = approver)

/-- The number of distinct approvers whose latest decisions are of a kind. -/
def tally (approvers : List String) (kind : ApprovalDecision → Bool) (log : List ApprovalDecision) : Nat :=
  (approvers.dedup.filter (fun approver => (latest log approver).any kind)).length

def statusOf (quorum exhausted : Bool) : ApprovalRequestStatus :=
  if quorum then .approved else if exhausted then .rejected else .pending

/-- What the latest decisions come to. -/
def judge (minApprovals : JsNumber) (approvers : List String) (deadline : Option JsNumber)
    (log : List ApprovalDecision) : ApprovalRequestStatus :=
  statusOf (isQuorum minApprovals (tally approvers (isTimelyApproval deadline) log))
    (isExhausted minApprovals approvers.dedup.length (tally approvers isRejection log))

/-- The first judgement that is final. -/
def verdict (minApprovals : JsNumber) (approvers : List String) (deadline : Option JsNumber) :
    List ApprovalDecision → ApprovalRequestStatus
  | [] => judge minApprovals approvers deadline []
  | d :: earlier =>
      if verdict minApprovals approvers deadline earlier = .pending then
        judge minApprovals approvers deadline (d :: earlier)
      else verdict minApprovals approvers deadline earlier

def verdictOn (request : ApprovalRequest) (log : List ApprovalDecision) : ApprovalRequestStatus :=
  verdict request.minApprovals request.requiredApprovers request.deadline log

/-- The decisions of required approvers on each request, whether the request took them or not. -/
structure History where
  manager : InvoiceCollaborationManager := {}
  logs : String → List ApprovalDecision := fun _ => []

def History.request (h : History) (id : String) : Option ApprovalRequest := h.manager.approvalRequests.get? id

def observe (h : History) : Event → History
  | .elapse _ => h
  | .requestApproval params =>
      { h with
        logs := (h.manager.requestApproval params).toOption.elim h.logs (fun result =>
          Function.update h.logs result.1.id []) }
  | .submitDecision requestId approver decision notes =>
      { h with
        logs := (h.request requestId).elim h.logs (fun request =>
          if approver ∈ request.requiredApprovers then
            Function.update h.logs requestId (⟨approver, decision, notes, h.manager.now⟩ :: h.logs requestId)
          else h.logs) }

def observedStep (h : History) (e : Event) : Option History :=
  (step h.manager e).map (fun manager => { observe h e with manager })

/-- A request has the status that the decisions on it come to. Nothing is said about a request without a final verdict
whose deadline has passed, except that it is neither approved nor rejected. -/
structure Faithful (now : ℚ) (request : ApprovalRequest) (log : List ApprovalDecision) : Prop where
  approved : request.status = .approved ↔ verdictOn request log = .approved
  rejected : request.status = .rejected ↔ verdictOn request log = .rejected
  pending : isLate request.deadline now = false → verdictOn request log = .pending → request.status = .pending

def AllFaithful (h : History) : Prop :=
  ∀ id request, h.request id = some request → Faithful h.manager.now request (h.logs id)

/-- A status that is not pending does not change. -/
def Final (h h' : History) : Prop := ∀ id request, h.request id = some request → request.status ≠ .pending →
  ∃ request', h'.request id = some request' ∧ request'.status = request.status

/-- No request is pending after its deadline. -/
def NoneOverdue (h : History) : Prop :=
  ∀ id request, h.request id = some request → request.status = .pending → isLate request.deadline h.manager.now = false

/-- The latest decisions of the approvers after another decision. -/
def superseded (d : ApprovalDecision) (decisions : List ApprovalDecision) : List ApprovalDecision :=
  d :: decisions.filter (fun e => e.approver ≠ d.approver)

/-- A request is made with enough distinct approvers, no quorum needs a late approval, and no approver that is listed
more than once still counts when the others cannot bring about a quorum. -/
def DecidesRightly (h : History) : Event → Prop
  | .elapse _ => True
  | .requestApproval params =>
      (h.manager.requestApproval params).toOption.isSome →
        isExhausted (h.manager.newRequest params).minApprovals params.requiredApprovers.dedup.length 0 = false
  | .submitDecision requestId approver decision notes =>
      ∀ request, h.request requestId = some request → approver ∈ request.requiredApprovers → request.status = .pending →
        let decisions := superseded ⟨approver, decision, notes, h.manager.now⟩ request.decisions
        let quorum := isQuorum request.minApprovals (decisions.countP (isTimelyApproval request.deadline))
        let rejections := decisions.countP isRejection
        (isQuorum request.minApprovals (countOf .approved decisions) → quorum) ∧
          (isExhausted request.minApprovals request.requiredApprovers.dedup.length rejections →
            quorum ∨ isExhausted request.minApprovals request.requiredApprovers.length rejections)

/-- No deadline passes while a request is pending. -/
def KeepsDeadlines (h : History) : Event → Prop
  | .elapse ms =>
      0 ≤ ms → ∀ id request, h.request id = some request → request.status = .pending →
        isLate request.deadline (h.manager.now + ms) = false
  | .requestApproval params =>
      (h.manager.requestApproval params).toOption.isSome → isLate params.deadline h.manager.now = false
  | .submitDecision _ _ _ _ => True

end Statement

section Counting

variable {approvers : List String} {log decisions : List ApprovalDecision} {d : ApprovalDecision}

def latestDecisions : List ApprovalDecision → List ApprovalDecision
  | [] => []
  | d :: log => superseded d (latestDecisions log)

theorem mem_superseded {e : ApprovalDecision} :
    e ∈ superseded d decisions ↔ e = d ∨ e ∈ decisions ∧ e.approver ≠ d.approver := by
  simp [superseded]

theorem nodup_superseded (h : (decisions.map ApprovalDecision.approver).Nodup) :
    ((superseded d decisions).map ApprovalDecision.approver).Nodup := by
  rw [superseded, List.map_cons, List.nodup_cons]
  refine ⟨fun hmem => ?_, h.sublist (List.filter_sublist.map _)⟩
  obtain ⟨e, he, heq⟩ := List.mem_map.mp hmem
  exact of_decide_eq_true (List.mem_filter.mp he).2 heq

theorem nodup_latestDecisions (log : List ApprovalDecision) :
    ((latestDecisions log).map ApprovalDecision.approver).Nodup := by
  induction log with
  | nil => exact List.nodup_nil
  | cons d log ih => exact nodup_superseded ih

theorem latest_eq_some_iff {approver : String} :
    latest log approver = some d ↔ d ∈ latestDecisions log ∧ d.approver = approver := by
  induction log with
  | nil => simp [latest, latestDecisions]
  | cons first log ih =>
      rw [latestDecisions, mem_superseded, latest]
      rcases eq_or_ne first.approver approver with rfl | hne
      · rw [List.find?_cons_of_pos (by simp)]
        constructor
        · rintro ⟨⟩
          exact ⟨.inl rfl, rfl⟩
        · rintro ⟨rfl | ⟨-, hother⟩, heq⟩
          · rfl
          · exact absurd heq hother
      · rw [List.find?_cons_of_neg (by simpa using hne), ← latest, ih]
        constructor
        · rintro ⟨hmem, rfl⟩
          exact ⟨.inr ⟨hmem, hne.symm⟩, rfl⟩
        · rintro ⟨rfl | ⟨hmem, -⟩, heq⟩
          · exact absurd heq hne
          · exact ⟨hmem, heq⟩

theorem mem_of_mem_latestDecisions (h : d ∈ latestDecisions log) : d ∈ log :=
  List.mem_of_find?_eq_some (latest_eq_some_iff.mpr ⟨h, rfl⟩)

/-- Each approver that has decided has one latest decision. -/
theorem tally_eq (hrequired : ∀ d ∈ log, d.approver ∈ approvers) (kind : ApprovalDecision → Bool) :
    tally approvers kind log = (latestDecisions log).countP kind := by
  have hperm : (approvers.dedup.filter (fun approver => (latest log approver).any kind)).Perm
      (((latestDecisions log).filter kind).map ApprovalDecision.approver) := by
    refine (List.perm_ext_iff_of_nodup ((List.nodup_dedup _).filter _)
      ((nodup_latestDecisions log).sublist (List.filter_sublist.map _))).mpr (fun approver => ?_)
    rw [List.mem_filter, List.mem_dedup, List.mem_map, Option.any_eq_true]
    constructor
    · rintro ⟨-, d, hlatest, hkind⟩
      obtain ⟨hmem, heq⟩ := latest_eq_some_iff.mp hlatest
      exact ⟨d, List.mem_filter.mpr ⟨hmem, hkind⟩, heq⟩
    · rintro ⟨d, hmem, rfl⟩
      obtain ⟨hmem, hkind⟩ := List.mem_filter.mp hmem
      exact ⟨hrequired d (mem_of_mem_latestDecisions hmem), d, latest_eq_some_iff.mpr ⟨hmem, rfl⟩, hkind⟩
  rw [tally, hperm.length_eq, List.length_map, List.countP_eq_length_filter]

theorem recordDecision_perm (h : (decisions.map ApprovalDecision.approver).Nodup) :
    (recordDecision d decisions).Perm (superseded d decisions) := by
  induction decisions with
  | nil => exact .refl _
  | cons first decisions ih =>
      rw [List.map_cons, List.nodup_cons] at h
      unfold recordDecision superseded
      split_ifs with hfirst
      · have hkept : decisions.filter (fun e => e.approver ≠ d.approver) = decisions :=
          List.filter_eq_self.mpr (fun e he => decide_eq_true (fun heq =>
            h.1 (hfirst.trans heq.symm ▸ List.mem_map_of_mem he)))
        rw [List.filter_cons_of_neg (by simpa using hfirst), hkept]
      · rw [List.filter_cons_of_pos (by simpa using hfirst)]
        exact ((ih h.2).cons first).trans (.swap d first _)

end Counting

section Requests

variable {now : ℚ} {request : ApprovalRequest} {log : List ApprovalDecision} {d : ApprovalDecision}

theorem judge_ne_expired (minApprovals : JsNumber) (approvers : List String) (deadline : Option JsNumber) :
    judge minApprovals approvers deadline log ≠ .expired := by
  unfold judge statusOf
  split_ifs <;> simp

theorem verdict_ne_expired (request : ApprovalRequest) (log : List ApprovalDecision) :
    verdictOn request log ≠ .expired := by
  induction log with
  | nil => exact judge_ne_expired _ _ _
  | cons d log ih =>
      unfold verdictOn verdict
      split_ifs
      · exact judge_ne_expired _ _ _
      · exact ih

theorem verdict_of_pending (h : verdictOn request log = .pending) :
    verdictOn request (d :: log) = judge request.minApprovals request.requiredApprovers request.deadline (d :: log) :=
  if_pos h

theorem verdict_of_final (h : verdictOn request log ≠ .pending) : verdictOn request (d :: log) = verdictOn request log :=
  if_neg h

theorem isLate_mono {deadline : Option JsNumber} {later : ℚ} (hlater : now ≤ later) (h : isLate deadline later = false) :
    isLate deadline now = false := by
  refine Bool.eq_false_iff.mpr (fun hlate => Bool.eq_false_iff.mp h ?_)
  obtain ⟨limit, hlimit, hlt⟩ := (Option.any_eq_true _ _).mp hlate
  refine (Option.any_eq_true _ _).mpr ⟨limit, hlimit, ?_⟩
  cases limit with
  | nan => cases hlt
  | infinity negative => exact hlt
  | finite q => exact decide_eq_true ((of_decide_eq_true hlt).trans_le hlater)

theorem Faithful.mono {later : ℚ} (hlater : now ≤ later) (h : Faithful now request log) : Faithful later request log :=
  { h with pending := fun hlate => h.pending (isLate_mono hlater hlate) }

/-- What a request and the decisions on it have in common. -/
structure Recorded (request : ApprovalRequest) (log : List ApprovalDecision) : Prop where
  required : ∀ d ∈ log, d.approver ∈ request.requiredApprovers
  known : request.status ≠ .expired
  decisions : request.status = .pending → request.decisions.Perm (latestDecisions log)

theorem faithful_iff (hknown : request.status ≠ .expired) :
    Faithful now request log ↔ request.status = verdictOn request log := by
  have hverdict := verdict_ne_expired request log
  constructor
  · rintro ⟨happroved, hrejected, -⟩
    generalize verdictOn request log = verdict at hverdict happroved hrejected
    cases hstatus : request.status with
    | approved => exact (happroved.mp hstatus).symm
    | rejected => exact (hrejected.mp hstatus).symm
    | expired => exact absurd hstatus hknown
    | pending =>
        rw [hstatus] at happroved hrejected
        cases verdict with
        | pending => rfl
        | approved => exact happroved.mpr rfl
        | rejected => exact hrejected.mpr rfl
        | expired => exact absurd rfl hverdict
  · intro heq
    exact ⟨by rw [heq], by rw [heq], fun _ hpending => heq.trans hpending⟩

theorem isQuorum_mono {minApprovals : JsNumber} {a b : Nat} (hab : a ≤ b) (h : isQuorum minApprovals a) :
    isQuorum minApprovals b :=
  JsNumber.le_natCast_mono hab h

theorem isExhausted_mono {minApprovals : JsNumber} {a b rejections : Nat} (hab : a ≤ b)
    (h : isExhausted minApprovals b rejections) : isExhausted minApprovals a rejections := by
  have hle : (a : ℚ) - rejections ≤ b - rejections := sub_le_sub_right (by exact_mod_cast hab) _
  unfold isExhausted at h ⊢
  cases minApprovals with
  | nan => cases h
  | infinity negative => exact h
  | finite q => exact decide_eq_true (hle.trans_lt (of_decide_eq_true h))

/-- Two ways to judge agree if they agree about a quorum and, where there is none, about whether one can be reached. -/
theorem statusOf_eq_iff {quorum quorum' exhausted exhausted' : Bool} (hquorum : quorum' → quorum)
    (hexhausted : exhausted → exhausted') :
    statusOf quorum exhausted = statusOf quorum' exhausted' ↔
      (quorum → quorum') ∧ (exhausted' → quorum' ∨ exhausted) := by
  revert hquorum hexhausted
  cases quorum <;> cases quorum' <;> cases exhausted <;> cases exhausted' <;> simp [statusOf]

theorem countOf_eq (decision : Decision) (decisions : List ApprovalDecision) :
    countOf decision decisions = decisions.countP (fun e => e.decision = decision) :=
  List.countP_eq_length_filter.symm

theorem timelyApprovals_le (deadline : Option JsNumber) (decisions : List ApprovalDecision) :
    decisions.countP (isTimelyApproval deadline) ≤ countOf .approved decisions := by
  rw [countOf_eq]
  exact List.countP_mono_left (fun e _ h => decide_eq_true (of_decide_eq_true h).1)

theorem superseded_perm {decisions decisions' : List ApprovalDecision} (h : decisions.Perm decisions') :
    (superseded d decisions).Perm (superseded d decisions') :=
  (h.filter _).cons d

/-- A request that has no decisions is as good as its approvers. -/
theorem faithful_new (hpending : request.status = .pending)
    (haccepted : request.minApprovals.le (.finite 0) = false) :
    Faithful now request [] ↔ isExhausted request.minApprovals request.requiredApprovers.dedup.length 0 = false := by
  have htally (kind : ApprovalDecision → Bool) : tally request.requiredApprovers kind [] = 0 := tally_eq (by simp) kind
  have hverdict : verdictOn request [] =
      statusOf false (isExhausted request.minApprovals request.requiredApprovers.dedup.length 0) := by
    rw [verdictOn, verdict, judge, htally, htally, isQuorum, Nat.cast_zero, haccepted]
  rw [faithful_iff (by simp [hpending]), hpending, hverdict]
  cases isExhausted request.minApprovals request.requiredApprovers.dedup.length 0 <;> simp [statusOf]

variable {m : InvoiceCollaborationManager}

theorem decide_perm (hr : Recorded request log) (hpending : request.status = .pending) :
    (recordDecision d request.decisions).Perm (latestDecisions (d :: log)) := by
  have hperm := hr.decisions hpending
  have hnodup : (request.decisions.map ApprovalDecision.approver).Nodup :=
    (hperm.map _).nodup_iff.mpr (nodup_latestDecisions log)
  exact (recordDecision_perm hnodup).trans (superseded_perm hperm)

theorem evaluate_ne_expired (hknown : request.status ≠ .expired) : evaluate request ≠ .expired := by
  unfold evaluate
  split_ifs
  · simp
  · simp
  · exact hknown

theorem recorded_decide (hr : Recorded request log) (hpending : request.status = .pending)
    (hrequired : d.approver ∈ request.requiredApprovers) : Recorded (m.decide request d) (d :: log) where
  required := List.forall_mem_cons.mpr ⟨hrequired, hr.required⟩
  known := evaluate_ne_expired hr.known
  decisions _ := decide_perm hr hpending

theorem faithful_decide (hr : Recorded request log) (hf : Faithful now request log) (hpending : request.status = .pending)
    (hrequired : d.approver ∈ request.requiredApprovers) :
    Faithful now (m.decide request d) (d :: log) ↔
      let decisions := superseded d request.decisions
      let quorum := isQuorum request.minApprovals (decisions.countP (isTimelyApproval request.deadline))
      let rejections := decisions.countP isRejection
      (isQuorum request.minApprovals (countOf .approved decisions) → quorum) ∧
        (isExhausted request.minApprovals request.requiredApprovers.dedup.length rejections →
          quorum ∨ isExhausted request.minApprovals request.requiredApprovers.length rejections) := by
  have hafter : Recorded (m.decide request d) (d :: log) := recorded_decide hr hpending hrequired
  have hlatest : (superseded d request.decisions).Perm (latestDecisions (d :: log)) := superseded_perm (hr.decisions hpending)
  have hdecisions := (decide_perm (d := d) hr hpending).trans hlatest.symm
  have hstatus : (m.decide request d).status =
      statusOf (isQuorum request.minApprovals (countOf .approved (superseded d request.decisions)))
        (isExhausted request.minApprovals request.requiredApprovers.length
          ((superseded d request.decisions).countP isRejection)) := by
    have hcount (kind : Decision) :
        countOf kind (recordDecision d request.decisions) = countOf kind (superseded d request.decisions) :=
      (hdecisions.filter _).length_eq
    have hrejections : countOf .rejected (superseded d request.decisions) =
        (superseded d request.decisions).countP isRejection := countOf_eq _ _
    unfold InvoiceCollaborationManager.decide evaluate
    dsimp only
    rw [hcount, hcount, hrejections, hpending, statusOf]
  have hverdict : verdictOn (m.decide request d) (d :: log) =
      statusOf (isQuorum request.minApprovals ((superseded d request.decisions).countP (isTimelyApproval request.deadline)))
        (isExhausted request.minApprovals request.requiredApprovers.dedup.length
          ((superseded d request.decisions).countP isRejection)) := by
    have hearlier : verdictOn request log = .pending := ((faithful_iff hr.known).mp hf).symm.trans hpending
    have hsame : verdictOn (m.decide request d) (d :: log) = verdictOn request (d :: log) := rfl
    have hall : ∀ e ∈ d :: log, e.approver ∈ request.requiredApprovers := hafter.required
    rw [hsame, verdict_of_pending hearlier, judge, tally_eq hall, tally_eq hall, hlatest.countP_eq, hlatest.countP_eq]
  rw [faithful_iff hafter.known, hstatus, hverdict]
  exact statusOf_eq_iff (isQuorum_mono (timelyApprovals_le _ _))
    (isExhausted_mono (List.dedup_sublist _).length_le)

end Requests

section Steps

variable {h h' : History} {e : Event}

structure Inv (h : History) : Prop where
  ids : ∀ id request, h.request id = some request → ∃ k ≤ h.manager.requestSeq, id = "req-" ++ k.repr
  recorded : ∀ id request, h.request id = some request → Recorded request (h.logs id)
  faithful : AllFaithful h

theorem Inv.fresh (hi : Inv h) (params : RequestParams) : h.request (h.manager.newRequest params).id = none := by
  refine Option.eq_none_iff_forall_ne_some.mpr (fun request hget => ?_)
  obtain ⟨k, hk, heq⟩ := hi.ids _ request hget
  have hnumber : h.manager.requestSeq + 1 = k := NumberText.natRepr_inj (String.append_right_inj _ |>.mp heq)
  omega

theorem observedStep_of (h : History) (e : Event) (manager : InvoiceCollaborationManager)
    (logs : String → List ApprovalDecision) (hmanager : step h.manager e = some manager)
    (hlogs : (observe h e).logs = logs) : observedStep h e = some ⟨manager, logs⟩ := by
  rw [observedStep, hmanager]
  subst hlogs
  rfl

theorem observedStep_elapse (h : History) {ms : ℚ} (hms : 0 ≤ ms) :
    observedStep h (.elapse ms) = some { h with manager := { h.manager with now := h.manager.now + ms } } :=
  observedStep_of h (.elapse ms) _ _ (if_pos hms) rfl

theorem elapse_nonneg {ms : ℚ} (hstep : observedStep h (.elapse ms) = some h') : 0 ≤ ms := by
  by_contra hms
  rw [observedStep, step, if_neg hms] at hstep
  cases hstep

/-- What a request for approval does. -/
inductive Requested (h : History) (params : RequestParams) : History → Prop
  | thrown (hthrown : ¬(h.manager.requestApproval params).toOption.isSome) : Requested h params h
  | created (haccepted : (h.manager.requestApproval params).toOption.isSome)
      (hpositive : (h.manager.newRequest params).minApprovals.le (.finite 0) = false)
      (requestsByInvoice : OrdMap String (List String)) :
      Requested h params
        { manager := { h.manager with
            approvalRequests :=
              h.manager.approvalRequests.set (h.manager.newRequest params).id (h.manager.newRequest params)
            requestsByInvoice
            requestSeq := h.manager.requestSeq + 1 }
          logs := Function.update h.logs (h.manager.newRequest params).id [] }

theorem requested (h : History) (params : RequestParams) :
    ∃ h', observedStep h (.requestApproval params) = some h' ∧ Requested h params h' := by
  have hstep := observedStep_of h (.requestApproval params)
  unfold step observe at hstep
  dsimp only at hstep
  cases hresult : h.manager.requestApproval params with
  | error error =>
      rw [hresult] at hstep
      exact ⟨h, hstep _ _ rfl rfl, .thrown (by simp [hresult, Except.toOption])⟩
  | ok result =>
      have haccepted : (h.manager.requestApproval params).toOption.isSome := by rw [hresult]; rfl
      rw [hresult] at hstep
      unfold InvoiceCollaborationManager.requestApproval at hresult
      dsimp only at hresult
      split_ifs at hresult with hnone hbounds
      obtain rfl := Except.ok.inj hresult
      exact ⟨_, hstep _ _ rfl rfl, .created haccepted (Bool.eq_false_iff.mpr (not_or.mp hbounds).1) _⟩

/-- What a decision does to the requests and to the log. -/
inductive Submitted (h : History) (id : String) (d : ApprovalDecision) : History → Prop
  | refused (hno : ∀ request, h.request id = some request → d.approver ∉ request.requiredApprovers) : Submitted h id d h
  | ended {request : ApprovalRequest} (hget : h.request id = some request) (hrequired : d.approver ∈ request.requiredApprovers)
      (hended : request.status ≠ .pending) :
      Submitted h id d { h with logs := Function.update h.logs id (d :: h.logs id) }
  | decided {request : ApprovalRequest} (hget : h.request id = some request)
      (hrequired : d.approver ∈ request.requiredApprovers) (hpending : request.status = .pending) :
      Submitted h id d
        { manager := { h.manager with approvalRequests := h.manager.approvalRequests.set id (h.manager.decide request d) }
          logs := Function.update h.logs id (d :: h.logs id) }

theorem submitted (h : History) (id approver : String) (decision : Decision) (notes : Option String) :
    ∃ h', observedStep h (.submitDecision id approver decision notes) = some h' ∧
      Submitted h id ⟨approver, decision, notes, h.manager.now⟩ h' := by
  have hstep := observedStep_of h (.submitDecision id approver decision notes)
  unfold step InvoiceCollaborationManager.submitDecision observe at hstep
  dsimp only [History.request] at hstep
  cases hget : h.manager.approvalRequests.get? id with
  | none =>
      rw [hget] at hstep
      refine ⟨h, hstep _ _ rfl rfl, .refused (fun request hsome => ?_)⟩
      cases hget.symm.trans hsome
  | some request =>
      rw [hget] at hstep
      dsimp only [Option.elim_some] at hstep
      by_cases hrequired : approver ∈ request.requiredApprovers
      · rw [if_neg (not_not.mpr hrequired), if_pos hrequired] at hstep
        by_cases hpending : request.status = .pending
        · rw [if_neg (not_not.mpr hpending)] at hstep
          exact ⟨_, hstep _ _ rfl rfl, .decided hget hrequired hpending⟩
        · rw [if_pos hpending] at hstep
          exact ⟨_, hstep _ _ rfl rfl, .ended hget hrequired hpending⟩
      · rw [if_pos hrequired, if_neg hrequired] at hstep
        refine ⟨h, hstep _ _ rfl rfl, .refused (fun other hother => ?_)⟩
        obtain rfl : request = other := Option.some.inj (hget.symm.trans hother)
        exact hrequired

theorem final_of_manager_eq (hmanager : h'.manager.approvalRequests = h.manager.approvalRequests) : Final h h' := by
  intro id request hget _
  exact ⟨request, by rw [History.request, hmanager]; exact hget, rfl⟩

/-- Only a pending or a new request is changed. -/
theorem final_set {id : String} {request : ApprovalRequest}
    (hset : h'.manager.approvalRequests = h.manager.approvalRequests.set id request)
    (hold : ∀ old, h.request id = some old → old.status = .pending) : Final h h' := by
  intro other old hget hended
  have hne : other ≠ id := fun heq => hended (hold old (heq ▸ hget))
  exact ⟨old, by rw [History.request, hset, OrdMap.get?_set, if_neg hne]; exact hget, rfl⟩

/-- Only the decisions on one request are more than before. -/
theorem forall_update {P : ApprovalRequest → List ApprovalDecision → Prop}
    (hall : ∀ id request, h.request id = some request → P request (h.logs id)) {id : String} {request : ApprovalRequest}
    (hget : h.request id = some request) {log : List ApprovalDecision} (hlog : P request log) :
    ∀ other request, h.request other = some request → P request (Function.update h.logs id log other) := by
  refine (Function.forall_update_iff h.logs
    (p := fun other log => ∀ request, h.request other = some request → P request log)).mpr ⟨?_, fun other _ => hall other⟩
  intro request' hget'
  exact Option.some.inj (hget.symm.trans hget') ▸ hlog

theorem inv_step (hi : Inv h) (hfaithful : AllFaithful h') (hstep : observedStep h e = some h') : Inv h' := by
  cases e with
  | elapse ms =>
      obtain rfl := Option.some.inj ((observedStep_elapse h (elapse_nonneg hstep)).symm.trans hstep)
      exact ⟨hi.ids, hi.recorded, hfaithful⟩
  | requestApproval params =>
      obtain ⟨_, hafter, hspec⟩ := requested h params
      obtain rfl := Option.some.inj (hafter.symm.trans hstep)
      cases hspec with
      | thrown => exact hi
      | created haccepted hpositive requestsByInvoice =>
          refine ⟨?_, ?_, hfaithful⟩
          · refine (OrdMap.forall_set_iff
              (P := fun id _ _ => ∃ k ≤ h.manager.requestSeq + 1, id = "req-" ++ k.repr) (f := h.logs)
              (fun id request hget => ?_) (c := [])).mpr ⟨_, le_rfl, rfl⟩
            obtain ⟨k, hk, heq⟩ := hi.ids id request hget
            exact ⟨k, hk.trans (Nat.le_succ _), heq⟩
          · exact (OrdMap.forall_set_iff (P := fun _ request log => Recorded request log) hi.recorded).mpr
              ⟨by simp, by simp [InvoiceCollaborationManager.newRequest], fun _ => .refl _⟩
  | submitDecision id approver decision notes =>
      obtain ⟨_, hafter, hspec⟩ := submitted h id approver decision notes
      obtain rfl := Option.some.inj (hafter.symm.trans hstep)
      cases hspec with
      | refused => exact hi
      | @ended request hget hrequired hended =>
          have hr := hi.recorded id request hget
          refine ⟨hi.ids, forall_update (P := Recorded) hi.recorded hget ?_, hfaithful⟩
          exact ⟨List.forall_mem_cons.mpr ⟨hrequired, hr.required⟩, hr.known, fun hpending => absurd hpending hended⟩
      | @decided request hget hrequired hpending =>
          refine ⟨?_, ?_, hfaithful⟩
          · exact (OrdMap.forall_set_iff (P := fun id _ _ => ∃ k ≤ h.manager.requestSeq, id = "req-" ++ k.repr)
              (f := h.logs) hi.ids (c := [])).mpr (hi.ids id request hget)
          · exact (OrdMap.forall_set_iff (P := fun _ request log => Recorded request log) hi.recorded).mpr
              (recorded_decide (hi.recorded id request hget) hpending hrequired)

/-- What a step makes of the statuses depends on the decision that it takes. -/
theorem step_iff (hi : Inv h) (e : Event) :
    (∀ h', observedStep h e = some h' → Final h h' ∧ AllFaithful h') ↔ DecidesRightly h e := by
  cases e with
  | elapse ms =>
      refine iff_of_true (fun h' hstep => ?_) trivial
      have hms := elapse_nonneg hstep
      obtain rfl := Option.some.inj ((observedStep_elapse h hms).symm.trans hstep)
      exact ⟨final_of_manager_eq rfl, fun id request hget =>
        (hi.faithful id request hget).mono (le_add_of_nonneg_right hms)⟩
  | requestApproval params =>
      obtain ⟨h', hstep, hspec⟩ := requested h params
      rw [forall_next_iff hstep]
      cases hspec with
      | thrown hthrown =>
          exact iff_of_true ⟨final_of_manager_eq rfl, hi.faithful⟩ (fun haccepted => absurd haccepted hthrown)
      | created haccepted hpositive requestsByInvoice =>
          have hfresh := hi.fresh params
          rw [and_iff_right (final_set rfl (fun old hold => by cases hfresh.symm.trans hold))]
          refine (OrdMap.forall_set_iff (P := fun _ => Faithful h.manager.now) hi.faithful).trans
            ((faithful_new rfl hpositive).trans ?_)
          exact ⟨fun henough _ => henough, fun hright => hright haccepted⟩
  | submitDecision id approver decision notes =>
      obtain ⟨h', hstep, hspec⟩ := submitted h id approver decision notes
      rw [forall_next_iff hstep]
      cases hspec with
      | refused hno =>
          exact iff_of_true ⟨final_of_manager_eq rfl, hi.faithful⟩
            (fun request hget hrequired => absurd hrequired (hno request hget))
      | @ended request hget hrequired hended =>
          refine iff_of_true ⟨final_of_manager_eq rfl, ?_⟩ (fun other hother _ hpending => ?_)
          · have hknown := (hi.recorded id request hget).known
            have heq := (faithful_iff hknown).mp (hi.faithful id request hget)
            exact forall_update (P := Faithful h.manager.now) hi.faithful hget
              ((faithful_iff hknown).mpr (heq.trans (verdict_of_final (heq ▸ hended)).symm))
          · obtain rfl : request = other := Option.some.inj (hget.symm.trans hother)
            exact absurd hpending hended
      | @decided request hget hrequired hpending =>
          have honly : ∀ old, h.request id = some old → old.status = .pending := fun old hold =>
            Option.some.inj (hget.symm.trans hold) ▸ hpending
          rw [and_iff_right (final_set rfl honly)]
          refine (OrdMap.forall_set_iff (P := fun _ => Faithful h.manager.now) hi.faithful).trans
            ((faithful_decide (hi.recorded id request hget) (hi.faithful id request hget) hpending hrequired).trans ?_)
          constructor
          · intro hright other hother _ _
            obtain rfl : request = other := Option.some.inj (hget.symm.trans hother)
            exact hright
          · intro hall
            exact hall request hget hrequired hpending

theorem noneOverdue_set {id : String} {request : ApprovalRequest} (hnone : NoneOverdue h)
    (hset : h'.manager.approvalRequests = h.manager.approvalRequests.set id request)
    (hnow : h'.manager.now = h.manager.now) :
    NoneOverdue h' ↔ (request.status = .pending → isLate request.deadline h.manager.now = false) := by
  unfold NoneOverdue History.request
  rw [hset, hnow]
  exact OrdMap.forall_set_iff (P := fun _ (request : ApprovalRequest) _ => request.status = .pending →
    isLate request.deadline h.manager.now = false) (f := h.logs) hnone (c := [])

/-- Only time and new requests make a request overdue. -/
theorem noneOverdue_iff (hnone : NoneOverdue h) (e : Event) :
    (∀ h', observedStep h e = some h' → NoneOverdue h') ↔ KeepsDeadlines h e := by
  cases e with
  | elapse ms =>
      constructor
      · intro hall hms
        exact hall _ (observedStep_elapse h hms)
      · intro hkeeps h' hstep
        have hms := elapse_nonneg hstep
        obtain rfl := Option.some.inj ((observedStep_elapse h hms).symm.trans hstep)
        exact hkeeps hms
  | requestApproval params =>
      obtain ⟨h', hstep, hspec⟩ := requested h params
      rw [forall_next_iff hstep]
      cases hspec with
      | thrown hthrown => exact iff_of_true hnone (fun haccepted => absurd haccepted hthrown)
      | created haccepted hpositive requestsByInvoice =>
          refine Iff.trans (noneOverdue_set hnone rfl rfl) ?_
          exact ⟨fun hnew _ => hnew rfl, fun hkeeps _ => hkeeps haccepted⟩
  | submitDecision id approver decision notes =>
      obtain ⟨h', hstep, hspec⟩ := submitted h id approver decision notes
      rw [forall_next_iff hstep]
      cases hspec with
      | refused | ended => exact iff_of_true hnone trivial
      | @decided request hget hrequired hpending =>
          exact iff_of_true (Iff.mpr (noneOverdue_set hnone rfl rfl) (fun _ => hnone id request hget hpending)) trivial

end Steps

section Main

theorem inv_init : Inv {} where
  ids _ _ hget := by cases hget
  recorded _ _ hget := by cases hget
  faithful _ _ hget := by cases hget

theorem statuses_follow_decisions (es : List Event) :
    Allowed observedStep (fun h e => ∀ h', observedStep h e = some h' → Final h h' ∧ AllFaithful h') {} es ↔
      Allowed observedStep DecidesRightly {} es :=
  allowed_iff (fun _ _ _ hi hok hstep => inv_step hi (hok _ hstep).2 hstep) (fun _ e hi => step_iff hi e) inv_init es

theorem deadlines_end_requests (es : List Event) :
    Allowed observedStep (fun h e => ∀ h', observedStep h e = some h' → NoneOverdue h') {} es ↔
      Allowed observedStep KeepsDeadlines {} es :=
  allowed_iff (fun _ _ _ _ hok hstep => hok _ hstep) (fun _ e hnone => noneOverdue_iff hnone e)
    (fun _ _ hget => by cases hget) es

/-- Statuses are final and follow the decisions exactly if every decision is taken rightly. If moreover no request may
be pending after its deadline, then no deadline passes while a request is pending. -/
theorem approval_workflow (es : List Event) :
    (Allowed observedStep (fun h e => ∀ h', observedStep h e = some h' → Final h h' ∧ AllFaithful h') {} es ↔
      Allowed observedStep DecidesRightly {} es) ∧
    (Allowed observedStep (fun h e => ∀ h', observedStep h e = some h' →
        (Final h h' ∧ AllFaithful h') ∧ NoneOverdue h') {} es ↔
      Allowed observedStep (fun h e => DecidesRightly h e ∧ KeepsDeadlines h e) {} es) := by
  refine ⟨statuses_follow_decisions es, ?_⟩
  constructor
  · intro hall
    exact allowed_and
      ((statuses_follow_decisions es).mp (allowed_mono (fun _ _ hok h' hstep => (hok h' hstep).1) hall))
      ((deadlines_end_requests es).mp (allowed_mono (fun _ _ hok h' hstep => (hok h' hstep).2) hall))
  · intro hall
    exact allowed_mono (fun _ _ hok h' hstep => ⟨hok.1 h' hstep, hok.2 h' hstep⟩) (allowed_and
      ((statuses_follow_decisions es).mpr (allowed_mono (fun _ _ hok => hok.1) hall))
      ((deadlines_end_requests es).mpr (allowed_mono (fun _ _ hok => hok.2) hall)))

end Main

section Sample

/-- The approver approves ten milliseconds after the deadline. -/
def lateSchedule : List Event :=
  [.requestApproval { invoiceId := "i", requestedBy := "R", requiredApprovers := ["A"], deadline := some (.finite 10) },
    .elapse 20, .submitDecision "req-1" "A" .approved none]

/-- The only approver is listed twice, and approves. -/
def repeatedSchedule : List Event :=
  [.requestApproval { invoiceId := "i", requestedBy := "R", requiredApprovers := ["A", "A"] },
    .submitDecision "req-1" "A" .approved none]

/-- A late approval ends the first request, and the second one stays pending though it has no quorum. -/
theorem approval_workflow_fails :
    (∃ h request, run observedStep {} lateSchedule = some h ∧ h.request "req-1" = some request ∧
      request.status = .approved ∧ verdictOn request (h.logs "req-1") = .pending) ∧
    ∃ h request, run observedStep {} repeatedSchedule = some h ∧ h.request "req-1" = some request ∧
      request.status = .pending ∧ verdictOn request (h.logs "req-1") = .rejected := by
  have hfacts (es : List Event) (status verdict : ApprovalRequestStatus)
      (hdecided : (run observedStep {} es).any (fun h => (h.request "req-1").any (fun request =>
        request.status = status ∧ verdictOn request (h.logs "req-1") = verdict))) :
      ∃ h request, run observedStep {} es = some h ∧ h.request "req-1" = some request ∧
        request.status = status ∧ verdictOn request (h.logs "req-1") = verdict := by
    obtain ⟨h, hrun, hh⟩ := (Option.any_eq_true _ _).mp hdecided
    obtain ⟨request, hget, hrequest⟩ := (Option.any_eq_true _ _).mp hh
    exact ⟨h, request, hrun, hget, of_decide_eq_true hrequest⟩
  exact ⟨hfacts lateSchedule .approved .pending (by decide +kernel),
    hfacts repeatedSchedule .pending .rejected (by decide +kernel)⟩

end Sample

end SplitSdk.ApprovalVerdicts
