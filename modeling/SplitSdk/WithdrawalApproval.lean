import Mathlib.Data.Finset.Card
import SplitSdk.Numbers
import SplitSdk.OrderedMap
import SplitSdk.Fallible
import SplitSdk.Interleaving

namespace SplitSdk.WithdrawalApproval

open Numbers OrderedMap

section Data

inductive WithdrawalStatus
  | pending
  | approved
  | rejected
  | executed
  deriving DecidableEq

def WithdrawalStatus.text : WithdrawalStatus → String
  | .pending => "pending"
  | .approved => "approved"
  | .rejected => "rejected"
  | .executed => "executed"

structure WithdrawalRequest where
  id : String
  resourceId : String
  requester : String
  amount : String
  status : WithdrawalStatus
  approvals : List String
  rejections : List String
  createdAt : ℚ
  updatedAt : ℚ

inductive WithdrawalEventType
  | submitted
  | approved
  | rejected
  | executed
  deriving DecidableEq

structure WithdrawalEvent where
  type : WithdrawalEventType
  request : String
  actor : String
  timestamp : ℚ

/-- `acl` says whether there is an `AclManager`. -/
structure WithdrawalApprovalOptions where
  requiredApprovals : JsNumber := .finite 1
  acl : Bool := false

/-- Where a call is: it waits for the answer of the ACL, or has come to its end. -/
inductive Call
  | approving (id approver : String)
  | rejecting (id rejector : String)
  | fulfilled
  | failed (message : String)
  deriving DecidableEq

structure Workflow where
  requests : OrdMap String WithdrawalRequest := .empty
  calls : List Call := []
  events : List WithdrawalEvent := []

/-- What happens next. The answer of the ACL is an error when its store's check rejects. -/
inductive Event
  | submit (id resourceId requester amount : String) (now : ℚ)
  | approve (id approver : String) (now : ℚ)
  | reject (id rejector : String) (now : ℚ)
  | checked (call : Nat) (answer : Except String Bool) (now : ℚ)
  | execute (id executor : String) (now : ℚ)

end Data

section Operations

def create (options : WithdrawalApprovalOptions) : Except String Workflow :=
  if options.requiredApprovals.lt (.finite 1) then .error "requiredApprovals must be at least 1" else .ok {}

def getRequest (w : Workflow) (id : String) : Except String WithdrawalRequest :=
  ((w.requests.get? id).map .ok).getD (.error s!"Withdrawal request {id} not found")

/-- The checks of `approve` before it asks the ACL. -/
def approveChecks (w : Workflow) (id approver : String) : Except String WithdrawalRequest := do
  let request ← getRequest w id
  let status := request.status.text
  if request.status ≠ .pending then throw s!"Cannot approve request in status {status}"
  else if approver = request.requester then throw "Requester cannot approve their own withdrawal"
  else if approver ∈ request.approvals then throw s!"Approver {approver} has already approved"
  else return request

def rejectChecks (w : Workflow) (id rejector : String) : Except String WithdrawalRequest := do
  let request ← getRequest w id
  let status := request.status.text
  if request.status ≠ .pending then throw s!"Cannot reject request in status {status}"
  else if rejector ∈ request.rejections then throw s!"Rejector {rejector} has already rejected"
  else return request

def executeChecks (w : Workflow) (id : String) : Except String WithdrawalRequest := do
  let request ← getRequest w id
  let status := request.status.text
  if request.status ≠ .approved then throw s!"Cannot execute request in status {status}" else return request

/-- A changed request with the event that tells of the change. -/
def Workflow.save (w : Workflow) (type : WithdrawalEventType) (id : String) (request : WithdrawalRequest)
    (actor : String) (now : ℚ) : Workflow :=
  { w with
    requests := w.requests.set id request
    events := w.events ++ [⟨type, id, actor, now⟩] }

/-- The rest of `approve`, behind the ACL. -/
def addApproval (options : WithdrawalApprovalOptions) (approver : String) (now : ℚ) (request : WithdrawalRequest) :
    WithdrawalRequest :=
  let approvals := request.approvals ++ [approver]
  { request with
    approvals
    updatedAt := now
    status := if options.requiredApprovals.le (.finite approvals.length) then .approved else request.status }

def addRejection (rejector : String) (now : ℚ) (request : WithdrawalRequest) : WithdrawalRequest :=
  { request with rejections := request.rejections ++ [rejector], status := .rejected, updatedAt := now }

def markExecuted (now : ℚ) (request : WithdrawalRequest) : WithdrawalRequest :=
  { request with status := .executed, updatedAt := now }

def Workflow.settle (w : Workflow) (outcome : Call) : Workflow := { w with calls := w.calls ++ [outcome] }

def submit (w : Workflow) (id resourceId requester amount : String) (now : ℚ) : Workflow :=
  if w.requests.has id then w.settle (.failed s!"Withdrawal request {id} already exists")
  else
    (w.save .submitted id
      { id, resourceId, requester, amount, status := .pending, approvals := [], rejections := [], createdAt := now,
        updatedAt := now } requester now).settle .fulfilled

def approve (options : WithdrawalApprovalOptions) (w : Workflow) (id approver : String) (now : ℚ) : Workflow :=
  match approveChecks w id approver with
  | .error message => w.settle (.failed message)
  | .ok request =>
      if options.acl then w.settle (.approving id approver)
      else (w.save .approved id (addApproval options approver now request) approver now).settle .fulfilled

def reject (options : WithdrawalApprovalOptions) (w : Workflow) (id rejector : String) (now : ℚ) : Workflow :=
  match rejectChecks w id rejector with
  | .error message => w.settle (.failed message)
  | .ok request =>
      if options.acl then w.settle (.rejecting id rejector)
      else (w.save .rejected id (addRejection rejector now request) rejector now).settle .fulfilled

def execute (w : Workflow) (id executor : String) (now : ℚ) : Workflow :=
  match executeChecks w id with
  | .error message => w.settle (.failed message)
  | .ok request => (w.save .executed id (markExecuted now request) executor now).settle .fulfilled

/-- A call goes on with the answer of the ACL. -/
def checked (options : WithdrawalApprovalOptions) (w : Workflow) (k : Nat) (answer : Except String Bool) (now : ℚ) :
    Option Workflow :=
  let finish (w : Workflow) (outcome : Call) : Workflow := { w with calls := w.calls.set k outcome }
  match w.calls[k]?, answer with
  | some (.approving id approver), .ok true =>
      (w.requests.get? id).map (fun request =>
        finish (w.save .approved id (addApproval options approver now request) approver now) .fulfilled)
  | some (.rejecting id rejector), .ok true =>
      (w.requests.get? id).map (fun request =>
        finish (w.save .rejected id (addRejection rejector now request) rejector now) .fulfilled)
  | some (.approving _ approver), .ok false => some (finish w (.failed s!"Approver {approver} lacks access to resource"))
  | some (.rejecting _ rejector), .ok false => some (finish w (.failed s!"Rejector {rejector} lacks access to resource"))
  | some (.approving ..), .error message | some (.rejecting ..), .error message => some (finish w (.failed message))
  | _, _ => none

def step (options : WithdrawalApprovalOptions) (w : Workflow) : Event → Option Workflow
  | .submit id resourceId requester amount now => some (submit w id resourceId requester amount now)
  | .approve id approver now => some (approve options w id approver now)
  | .reject id rejector now => some (reject options w id rejector now)
  | .checked k answer now => checked options w k answer now
  | .execute id executor now => some (execute w id executor now)

end Operations

end SplitSdk.WithdrawalApproval

namespace SplitSdk.WithdrawalSafety

open Fallible Interleaving Numbers OrderedMap WithdrawalApproval

section Statement

/-- A request that may be executed: enough approvers, not counting one twice, without the requester and without a rejection. -/
def Entitled (options : WithdrawalApprovalOptions) (request : WithdrawalRequest) : Prop :=
  options.requiredApprovals.le (.finite request.approvals.toFinset.card) ∧ request.requester ∉ request.approvals ∧
    request.rejections = []

def isFinal (status : WithdrawalStatus) : Bool := status = .rejected ∨ status = .executed

def executions (w : Workflow) (id : String) : Nat :=
  w.events.countP (fun event => event.type = .executed ∧ event.request = id)

/-- What a step may do to the requests. -/
structure SafeStep (options : WithdrawalApprovalOptions) (w t : Workflow) : Prop where
  final : ∀ id, ∀ request ∈ w.requests.get? id, isFinal request.status →
    (t.requests.get? id).map WithdrawalRequest.status = some request.status
  executed : ∀ id, executions w id < executions t id → ∀ request ∈ w.requests.get? id, Entitled options request
  once : ∀ id, executions t id ≤ 1

def Safe (options : WithdrawalApprovalOptions) (w : Workflow) (e : Event) : Prop :=
  ∀ t, step options w e = some t → SafeStep options w t

/-- A call that has passed the ACL still finds what it checked before: the request is not decided, and the approver is
not recorded yet. -/
def StillValid (w : Workflow) : Event → Prop
  | .checked k (.ok true) _ =>
      match w.calls[k]? with
      | some (.approving id approver) => ∀ request ∈ w.requests.get? id,
          ¬isFinal request.status ∧ approver ∉ request.approvals
      | some (.rejecting id _) => ∀ request ∈ w.requests.get? id, request.status ≠ .executed
      | _ => True
  | _ => True

end Statement

section Changes

variable {options : WithdrawalApprovalOptions} {w t : Workflow}

/-- How a call may change a request, when it still finds what it checked. -/
inductive Change (options : WithdrawalApprovalOptions) (w : Workflow) (id : String) :
    WithdrawalEventType → WithdrawalRequest → Prop
  | submitted {request : WithdrawalRequest} (hnew : w.requests.get? id = none) (hstatus : request.status = .pending)
      (happrovals : request.approvals = []) (hrejections : request.rejections = []) : Change options w id .submitted request
  | approved {request : WithdrawalRequest} {approver : String} {now : ℚ} (hold : w.requests.get? id = some request)
      (hopen : ¬isFinal request.status) (hother : approver ≠ request.requester) (hfirst : approver ∉ request.approvals) :
      Change options w id .approved (addApproval options approver now request)
  | rejected {request : WithdrawalRequest} {rejector : String} {now : ℚ} (hold : w.requests.get? id = some request)
      (hopen : request.status ≠ .executed) : Change options w id .rejected (addRejection rejector now request)
  | executed {request : WithdrawalRequest} {now : ℚ} (hold : w.requests.get? id = some request)
      (happroved : request.status = .approved) : Change options w id .executed (markExecuted now request)

/-- What a step does: one request may change, and a call may start to wait. -/
inductive Moves (options : WithdrawalApprovalOptions) (w : Workflow) : Workflow → Prop
  | same {t : Workflow} (hrequests : t.requests = w.requests) (hevents : t.events = w.events) : Moves options w t
  | saved {t : Workflow} {type : WithdrawalEventType} {id actor : String} {request : WithdrawalRequest} {now : ℚ}
      (hrequests : t.requests = w.requests.set id request) (hevents : t.events = w.events ++ [⟨type, id, actor, now⟩])
      (hchange : Change options w id type request) : Moves options w t

/-- The approvers whose calls wait are not the requesters. -/
def WaitingOk (w : Workflow) : Prop :=
  ∀ id approver, .approving id approver ∈ w.calls →
    ∃ request, w.requests.get? id = some request ∧ approver ≠ request.requester

theorem getRequest_ok {id : String} {request : WithdrawalRequest} :
    getRequest w id = .ok request ↔ w.requests.get? id = some request := by
  rw [getRequest]
  cases w.requests.get? id with
  | none => simp
  | some r => simp

theorem approveChecks_ok {id approver : String} {request : WithdrawalRequest}
    (h : approveChecks w id approver = .ok request) :
    w.requests.get? id = some request ∧ request.status = .pending ∧ approver ≠ request.requester ∧
      approver ∉ request.approvals := by
  obtain ⟨r, hr, h⟩ := bind_eq_ok.mp h
  dsimp only at h
  split_ifs at h with hstatus hrequester hold
  cases h
  exact ⟨getRequest_ok.mp hr, not_not.mp hstatus, hrequester, hold⟩

theorem rejectChecks_ok {id rejector : String} {request : WithdrawalRequest}
    (h : rejectChecks w id rejector = .ok request) :
    w.requests.get? id = some request ∧ request.status = .pending := by
  obtain ⟨r, hr, h⟩ := bind_eq_ok.mp h
  dsimp only at h
  split_ifs at h with hstatus hold
  cases h
  exact ⟨getRequest_ok.mp hr, not_not.mp hstatus⟩

theorem executeChecks_ok {id : String} {request : WithdrawalRequest} (h : executeChecks w id = .ok request) :
    w.requests.get? id = some request ∧ request.status = .approved := by
  obtain ⟨r, hr, h⟩ := bind_eq_ok.mp h
  dsimp only at h
  split_ifs at h with hstatus
  cases h
  exact ⟨getRequest_ok.mp hr, not_not.mp hstatus⟩

theorem checked_moves {k : Nat} {answer : Except String Bool} {now : ℚ} (hwaiting : WaitingOk w)
    (hok : StillValid w (.checked k answer now)) (h : checked options w k answer now = some t) : Moves options w t := by
  unfold checked at h
  dsimp only at h
  split at h
  · rename_i id approver hcall
    obtain ⟨request, hrequest, rfl⟩ := Option.map_eq_some_iff.mp h
    unfold StillValid at hok
    dsimp only at hok
    rw [hcall] at hok
    obtain ⟨hopen, hfirst⟩ := hok request hrequest
    obtain ⟨r, hr, hother⟩ := hwaiting id approver (List.mem_of_getElem? hcall)
    rw [hrequest, Option.some_inj] at hr
    exact .saved rfl rfl (.approved hrequest hopen (hr ▸ hother) hfirst)
  · rename_i id rejector hcall
    obtain ⟨request, hrequest, rfl⟩ := Option.map_eq_some_iff.mp h
    unfold StillValid at hok
    dsimp only at hok
    rw [hcall] at hok
    exact .saved rfl rfl (.rejected hrequest (hok request hrequest))
  all_goals
    cases h
  all_goals
    exact .same rfl rfl

theorem moves_of_step {e : Event} (hwaiting : WaitingOk w) (hok : StillValid w e) (h : step options w e = some t) :
    Moves options w t := by
  cases e with
  | submit id resourceId requester amount now =>
      obtain rfl := Option.some_inj.mp h
      unfold submit
      split_ifs with hhas
      · exact .same rfl rfl
      · exact .saved rfl rfl (.submitted (Option.not_isSome_iff_eq_none.mp hhas) rfl rfl rfl)
  | approve id approver now =>
      obtain rfl := Option.some_inj.mp h
      unfold approve
      split
      · exact .same rfl rfl
      · rename_i request hchecks
        obtain ⟨hrequest, hstatus, hother, hfirst⟩ := approveChecks_ok hchecks
        split_ifs
        · exact .same rfl rfl
        · exact .saved rfl rfl (.approved hrequest (by rw [hstatus]; decide) hother hfirst)
  | reject id rejector now =>
      obtain rfl := Option.some_inj.mp h
      unfold reject
      split
      · exact .same rfl rfl
      · rename_i request hchecks
        obtain ⟨hrequest, hstatus⟩ := rejectChecks_ok hchecks
        split_ifs
        · exact .same rfl rfl
        · exact .saved rfl rfl (.rejected hrequest (by rw [hstatus]; decide))
  | checked k answer now => exact checked_moves hwaiting hok h
  | execute id executor now =>
      obtain rfl := Option.some_inj.mp h
      unfold execute
      split
      · exact .same rfl rfl
      · rename_i request hchecks
        obtain ⟨hrequest, hstatus⟩ := executeChecks_ok hchecks
        exact .saved rfl rfl (.executed hrequest hstatus)

end Changes

section Invariant

variable {options : WithdrawalApprovalOptions} {w t : Workflow}

/-- A request that is approved or executed has enough approvals, and none of them twice. -/
structure Sound (options : WithdrawalApprovalOptions) (request : WithdrawalRequest) : Prop where
  distinct : request.approvals.Nodup
  others : request.requester ∉ request.approvals
  enough : request.status = .approved ∨ request.status = .executed →
    options.requiredApprovals.le (.finite request.approvals.length)
  unrejected : request.status ≠ .rejected → request.rejections = []

/-- A request was executed once, if that is its status. -/
def executionsOf : Option WithdrawalRequest → Nat
  | some request => if request.status = .executed then 1 else 0
  | none => 0

structure Inv (options : WithdrawalApprovalOptions) (w : Workflow) : Prop where
  sound : ∀ id, ∀ request ∈ w.requests.get? id, Sound options request
  executions : ∀ id, executions w id = executionsOf (w.requests.get? id)
  waiting : WaitingOk w

theorem inv_empty : Inv options {} := ⟨by simp [OrdMap.get?_empty], fun _ => rfl, by simp [WaitingOk]⟩

theorem Sound.entitled {request : WithdrawalRequest} (h : Sound options request) (happroved : request.status = .approved) :
    Entitled options request := by
  refine ⟨?_, h.others, h.unrejected (by rw [happroved]; decide)⟩
  rw [List.toFinset_card_of_nodup h.distinct]
  exact h.enough (.inl happroved)

/-- A change keeps a request sound. -/
theorem Change.sound {type : WithdrawalEventType} {id : String} {request : WithdrawalRequest}
    (h : Change options w id type request) (hi : Inv options w) : Sound options request := by
  cases h with
  | submitted hnew hstatus happrovals hrejections =>
      refine ⟨by rw [happrovals]; exact List.nodup_nil, by rw [happrovals]; simp, fun h => ?_, fun _ => hrejections⟩
      rw [hstatus] at h
      simp at h
  | @approved request approver now hold hopen hother hfirst =>
      have hs := hi.sound id request hold
      have hlive : request.status ≠ .rejected := fun h => hopen (by rw [h]; rfl)
      refine ⟨?_, ?_, fun h => ?_, fun _ => hs.unrejected hlive⟩
      · exact List.nodup_append'.mpr ⟨hs.distinct, List.nodup_singleton _, List.disjoint_singleton.mpr hfirst⟩
      · intro hmem
        rcases List.mem_append.mp hmem with hmem | hmem
        · exact hs.others hmem
        · exact hother (List.mem_singleton.mp hmem).symm
      · by_cases hreached : options.requiredApprovals.le (.finite (request.approvals ++ [approver]).length)
        · exact hreached
        · have hstatus : request.status = .approved ∨ request.status = .executed := by
            simpa only [addApproval, if_neg hreached] using h
          refine JsNumber.le_natCast_mono ?_ (hs.enough hstatus)
          simp [addApproval]
  | @rejected request rejector now hold hopen =>
      have hs := hi.sound id request hold
      exact ⟨hs.distinct, hs.others, fun h => by simp [addRejection] at h, fun h => absurd rfl h⟩
  | @executed request now hold happroved =>
      have hs := hi.sound id request hold
      exact ⟨hs.distinct, hs.others, fun _ => hs.enough (.inl happroved),
        fun _ => hs.unrejected (by rw [happroved]; decide)⟩

theorem calls_step {e : Event} (h : step options w e = some t) {id approver : String} (hcall : .approving id approver ∈ t.calls) :
    .approving id approver ∈ w.calls ∨ ∃ request, w.requests.get? id = some request ∧ approver ≠ request.requester := by
  have hsettle : ∀ {calls : List Call} {outcome : Call}, .approving id approver ∈ calls ++ [outcome] →
      outcome ≠ .approving id approver → .approving id approver ∈ calls := fun hmem hne =>
    (List.mem_append.mp hmem).resolve_right (fun hlast => hne (List.mem_singleton.mp hlast).symm)
  cases e with
  | submit id' resourceId requester amount now =>
      obtain rfl := Option.some_inj.mp h
      unfold submit at hcall
      split_ifs at hcall
      · exact .inl (hsettle hcall (by simp))
      · exact .inl (hsettle hcall (by simp))
  | approve id' approver' now =>
      obtain rfl := Option.some_inj.mp h
      unfold approve at hcall
      split at hcall
      · exact .inl (hsettle hcall (by simp))
      · rename_i request hchecks
        obtain ⟨hrequest, -, hother, -⟩ := approveChecks_ok hchecks
        split_ifs at hcall
        · rcases List.mem_append.mp hcall with hold | hnew
          · exact .inl hold
          · rw [List.mem_singleton, Call.approving.injEq] at hnew
            obtain ⟨rfl, rfl⟩ := hnew
            exact .inr ⟨request, hrequest, hother⟩
        · exact .inl (hsettle hcall (by simp))
  | reject id' rejector now =>
      obtain rfl := Option.some_inj.mp h
      unfold reject at hcall
      split at hcall
      · exact .inl (hsettle hcall (by simp))
      · split_ifs at hcall
        · exact .inl (hsettle hcall (by simp))
        · exact .inl (hsettle hcall (by simp))
  | checked k answer now =>
      left
      have hset : ∀ {outcome : Call}, .approving id approver ∈ w.calls.set k outcome →
          outcome ≠ .approving id approver → .approving id approver ∈ w.calls := fun hmem hne =>
        (List.mem_or_eq_of_mem_set hmem).resolve_right (fun he => hne he.symm)
      change checked options w k answer now = some t at h
      unfold checked at h
      dsimp only at h
      split at h
      · obtain ⟨request, -, rfl⟩ := Option.map_eq_some_iff.mp h
        exact hset hcall (by simp)
      · obtain ⟨request, -, rfl⟩ := Option.map_eq_some_iff.mp h
        exact hset hcall (by simp)
      all_goals
        cases h
      all_goals
        exact hset hcall (by simp)
  | execute id' executor now =>
      obtain rfl := Option.some_inj.mp h
      unfold execute at hcall
      split at hcall
      · exact .inl (hsettle hcall (by simp))
      · exact .inl (hsettle hcall (by simp))

theorem Change.requester {type : WithdrawalEventType} {id : String} {request old : WithdrawalRequest}
    (h : Change options w id type request) (hold : w.requests.get? id = some old) : request.requester = old.requester := by
  cases h with
  | submitted hnew => rw [hnew] at hold; cases hold
  | approved hold' => rw [hold, Option.some_inj] at hold'; rw [hold']; rfl
  | rejected hold' => rw [hold, Option.some_inj] at hold'; rw [hold']; rfl
  | executed hold' => rw [hold, Option.some_inj] at hold'; rw [hold']; rfl

/-- The events count the executions of a request that changes. -/
theorem Change.executions {type : WithdrawalEventType} {id : String} {request : WithdrawalRequest}
    (h : Change options w id type request) (hi : Inv options w) :
    executions w id + (if type = .executed then 1 else 0) = if request.status = .executed then 1 else 0 := by
  have hcount := hi.executions id
  cases h with
  | submitted hnew hstatus =>
      rw [hnew] at hcount
      rw [hcount, hstatus]
      rfl
  | @approved request approver now hold hopen =>
      have hstatus : request.status ≠ .executed := fun h => hopen (by rw [h]; rfl)
      have hnew : (addApproval options approver now request).status ≠ .executed := by
        unfold addApproval
        dsimp only
        split_ifs
        · simp
        · exact hstatus
      rw [hold] at hcount
      rw [hcount.trans (if_neg hstatus), if_neg hnew]
      rfl
  | rejected hold hopen =>
      rw [hold] at hcount
      rw [hcount.trans (if_neg hopen)]
      rfl
  | executed hold happroved =>
      rw [hold] at hcount
      rw [hcount.trans (if_neg (by rw [happroved]; decide))]
      rfl

theorem executions_saved {type : WithdrawalEventType} {id actor : String} {now : ℚ}
    (hevents : t.events = w.events ++ [⟨type, id, actor, now⟩]) (id' : String) :
    executions t id' = executions w id' + if type = .executed ∧ id = id' then 1 else 0 := by
  rw [WithdrawalSafety.executions, hevents, List.countP_append, List.countP_singleton]
  simp [WithdrawalSafety.executions]

theorem step_inv {e : Event} (hi : Inv options w) (hok : StillValid w e) (h : step options w e = some t) :
    Inv options t := by
  have hwaiting : (∀ id request, w.requests.get? id = some request →
      ∃ request', t.requests.get? id = some request' ∧ request'.requester = request.requester) → WaitingOk t := by
    intro hkept id approver hcall
    have hfound : ∃ request, w.requests.get? id = some request ∧ approver ≠ request.requester :=
      (calls_step h hcall).elim (hi.waiting id approver) (fun h => h)
    obtain ⟨request, hrequest, hother⟩ := hfound
    obtain ⟨request', hrequest', hrequester⟩ := hkept id request hrequest
    exact ⟨request', hrequest', hrequester ▸ hother⟩
  cases moves_of_step hi.waiting hok h with
  | same hrequests hevents =>
      refine ⟨by rw [hrequests]; exact hi.sound, fun id => ?_, hwaiting ?_⟩
      · rw [executions, hevents, hrequests]
        exact hi.executions id
      · rw [hrequests]
        exact fun id request hrequest => ⟨request, hrequest, rfl⟩
  | @saved type id actor request now hrequests hevents hchange =>
      refine ⟨fun id' request' hrequest' => ?_, fun id' => ?_, hwaiting (fun id' old hold => ?_)⟩
      · rw [hrequests, Option.mem_def, OrdMap.get?_set] at hrequest'
        split_ifs at hrequest'
        · cases hrequest'
          exact hchange.sound hi
        · exact hi.sound id' request' hrequest'
      · rw [executions_saved hevents, hrequests, OrdMap.get?_set]
        by_cases hid : id' = id
        · subst hid
          rw [if_pos rfl]
          simpa [executionsOf] using hchange.executions hi
        · rw [if_neg hid, if_neg (fun h => hid h.2.symm)]
          exact hi.executions id'
      · rw [hrequests, OrdMap.get?_set]
        split_ifs with hid
        · subst hid
          exact ⟨request, rfl, hchange.requester hold⟩
        · exact ⟨old, hold, rfl⟩

end Invariant

section Main

variable {options : WithdrawalApprovalOptions}

theorem step_safe {w : Workflow} {e : Event} (hi : Inv options w) (hok : StillValid w e) : Safe options w e := by
  intro t h
  have hi' := step_inv hi hok h
  have honce : ∀ id, executions t id ≤ 1 := fun id => by
    rw [hi'.executions]
    cases t.requests.get? id with
    | none => exact Nat.zero_le 1
    | some request =>
        rw [executionsOf]
        split_ifs <;> omega
  cases moves_of_step hi.waiting hok h with
  | same hrequests hevents =>
      refine ⟨fun id request hrequest _ => ?_, fun id hlt => ?_, honce⟩
      · rw [hrequests, hrequest]
        rfl
      · rw [executions, executions, hevents] at hlt
        exact absurd hlt (lt_irrefl _)
  | @saved type id actor request now hrequests hevents hchange =>
      refine ⟨fun id' old hold hfinal => ?_, fun id' hlt old hold => ?_, honce⟩
      · rw [hrequests, OrdMap.get?_set]
        split_ifs with hid
        · subst hid
          cases hchange with
          | submitted hnew => rw [Option.mem_def, hnew] at hold; cases hold
          | approved hold' hopen => rw [hold, Option.some_inj] at hold'; exact absurd hfinal (hold' ▸ hopen)
          | rejected hold' hopen =>
              rw [hold, Option.some_inj] at hold'
              subst hold'
              have hrejected : old.status = .rejected := (of_decide_eq_true hfinal).resolve_right hopen
              rw [hrejected]
              rfl
          | executed hold' happroved =>
              rw [hold, Option.some_inj] at hold'
              subst hold'
              rw [happroved] at hfinal
              cases hfinal
        · rw [hold]
          rfl
      · rw [executions_saved hevents] at hlt
        have htype : type = .executed ∧ id = id' := by
          by_contra hne
          rw [if_neg hne] at hlt
          exact absurd hlt (lt_irrefl _)
        obtain ⟨rfl, rfl⟩ := htype
        cases hchange with
        | executed hold' happroved =>
            rw [hold, Option.some_inj] at hold'
            subst hold'
            exact (hi.sound id old hold).entitled happroved

/-- While every call that has passed the ACL still finds what it checked, no step is unsafe. -/
theorem withdrawals_safe {w₀ : Workflow} (hcreate : create options = .ok w₀) {es : List Event}
    (h : Allowed (step options) StillValid w₀ es) : Allowed (step options) (Safe options) w₀ es := by
  unfold create at hcreate
  split_ifs at hcreate
  cases hcreate
  exact allowed_of_invariant (fun _ _ _ hi hok h => step_inv hi hok h) (fun _ _ hi hok => step_safe hi hok) inv_empty h

end Main

section Sample

def twoApprovals : WithdrawalApprovalOptions := { requiredApprovals := .finite 2, acl := true }

def requested (approver : String) : List Event :=
  [.submit "w" "vault" "owner" "5" 0, .approve "w" "alice" 1, .approve "w" approver 1, .checked 1 (.ok true) 2,
    .checked 2 (.ok true) 2, .execute "w" "bob" 3]

instance (w : Workflow) : DecidablePred (StillValid w) := fun e => by
  unfold StillValid
  split
  · split <;> infer_instance
  · infer_instance

theorem withdrawals_safe_pair : Allowed (step twoApprovals) (Safe twoApprovals) {} (requested "bob") :=
  withdrawals_safe rfl (by decide)

def duplicated : Option Workflow := run (step twoApprovals) {} ((requested "alice").take 5)

/-- One approver who calls twice before the ACL answers makes both of the approvals, and the request is executed. -/
theorem duplicated_unsafe : ∃ w, duplicated = some w ∧ ¬Safe twoApprovals w (.execute "w" "bob" 3) := by
  have hfacts : duplicated.any (fun w => (w.requests.get? "w").any (fun request =>
      ¬twoApprovals.requiredApprovals.le (.finite request.approvals.toFinset.card)) ∧
        executions w "w" < executions (execute w "w" "bob" 3) "w") := by rfl
  obtain ⟨w, hw, h⟩ := (Option.any_eq_true _ _).mp hfacts
  obtain ⟨hshort, hexecuted⟩ := of_decide_eq_true h
  obtain ⟨request, hrequest, hshort⟩ := (Option.any_eq_true _ _).mp hshort
  exact ⟨w, hw, fun hsafe => of_decide_eq_true hshort ((hsafe _ rfl).executed "w" hexecuted request hrequest).1⟩

end Sample

end SplitSdk.WithdrawalSafety
