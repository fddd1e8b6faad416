import SplitSdk.NumberText
import SplitSdk.OrderedMap

namespace SplitSdk.ApprovalWorkflow

open Numbers OrderedMap

section Data

inductive Error
  | approvalRequestNotFound (requestId : String)
  | unauthorizedCollaboration (actor action reason : String)
  | error (message : String)

inductive Decision
  | approved
  | rejected
  deriving DecidableEq

structure ApprovalDecision where
  approver : String
  decision : Decision
  notes : Option String
  timestamp : ℚ
  deriving DecidableEq

inductive ApprovalRequestStatus
  | pending
  | approved
  | rejected
  | expired
  deriving DecidableEq

structure ApprovalRequest where
  id : String
  invoiceId : String
  requestedBy : String
  title : Option String
  description : Option String
  requiredApprovers : List String
  minApprovals : JsNumber
  deadline : Option JsNumber
  status : ApprovalRequestStatus := .pending
  decisions : List ApprovalDecision := []
  createdAt : ℚ
  updatedAt : ℚ

structure RequestParams where
  invoiceId : String
  requestedBy : String
  requiredApprovers : List String
  minApprovals : Option JsNumber := none
  title : Option String := none
  description : Option String := none
  deadline : Option JsNumber := none

structure InvoiceCollaborationManager where
  approvalRequests : OrdMap String ApprovalRequest := .empty
  requestsByInvoice : OrdMap String (List String) := .empty
  requestSeq : Nat := 0
  now : ℚ := 0

end Data

section Operations

def ApprovalRequestStatus.text : ApprovalRequestStatus → String
  | .pending => "pending"
  | .approved => "approved"
  | .rejected => "rejected"
  | .expired => "expired"

/-- The first decision of the approver is replaced, if there is one. -/
def recordDecision (decision : ApprovalDecision) : List ApprovalDecision → List ApprovalDecision
  | [] => [decision]
  | first :: decisions =>
      if first.approver = decision.approver then decision :: decisions else first :: recordDecision decision decisions

def countOf (decision : Decision) (decisions : List ApprovalDecision) : Nat :=
  (decisions.filter (fun d => d.decision = decision)).length

/-- There are enough approvals. -/
def isQuorum (minApprovals : JsNumber) (approvals : Nat) : Bool := minApprovals.le (.finite approvals)

/-- The approvers that have not rejected are too few. -/
def isExhausted (minApprovals : JsNumber) (approvers rejections : Nat) : Bool :=
  (JsNumber.finite ((approvers : ℚ) - rejections)).lt minApprovals

def evaluate (request : ApprovalRequest) : ApprovalRequestStatus :=
  if isQuorum request.minApprovals (countOf .approved request.decisions) then .approved
  else if isExhausted request.minApprovals request.requiredApprovers.length (countOf .rejected request.decisions) then
    .rejected
  else request.status

namespace InvoiceCollaborationManager

def newRequest (m : InvoiceCollaborationManager) (params : RequestParams) : ApprovalRequest where
  id := "req-" ++ (m.requestSeq + 1).repr
  invoiceId := params.invoiceId
  requestedBy := params.requestedBy
  title := params.title
  description := params.description
  requiredApprovers := params.requiredApprovers
  minApprovals := params.minApprovals.getD (.finite params.requiredApprovers.length)
  deadline := params.deadline
  createdAt := m.now
  updatedAt := m.now

def requestApproval (m : InvoiceCollaborationManager) (params : RequestParams) :
    Except Error (ApprovalRequest × InvoiceCollaborationManager) :=
  let request := m.newRequest params
  if params.requiredApprovers.length = 0 then .error (.error "Approval request requires at least one approver")
  else if request.minApprovals.le (.finite 0) ∨ (JsNumber.finite params.requiredApprovers.length).lt request.minApprovals then
    .error (.error ("minApprovals must be between 1 and " ++ params.requiredApprovers.length.repr))
  else
    .ok (request, { m with
      approvalRequests := m.approvalRequests.set request.id request
      requestsByInvoice := m.requestsByInvoice.set params.invoiceId
        ((m.requestsByInvoice.get? params.invoiceId).getD [] ++ [request.id])
      requestSeq := m.requestSeq + 1 })

/-- The request after a decision that is admitted. -/
def decide (m : InvoiceCollaborationManager) (request : ApprovalRequest) (decision : ApprovalDecision) : ApprovalRequest :=
  let request := { request with decisions := recordDecision decision request.decisions }
  { request with status := evaluate request, updatedAt := m.now }

def submitDecision (m : InvoiceCollaborationManager) (requestId approver : String) (decision : Decision)
    (notes : Option String) : Except Error (ApprovalRequest × InvoiceCollaborationManager) :=
  match m.approvalRequests.get? requestId with
  | none => .error (.approvalRequestNotFound requestId)
  | some request =>
      if approver ∉ request.requiredApprovers then
        .error (.unauthorizedCollaboration approver "submit approval decision" "Not in required approvers list")
      else if request.status ≠ .pending then
        .error (.error ("Approval request is already in \"" ++ request.status.text ++ "\" state"))
      else
        let request := m.decide request ⟨approver, decision, notes, m.now⟩
        .ok (request, { m with approvalRequests := m.approvalRequests.set requestId request })

end InvoiceCollaborationManager

inductive Event
  | elapse (ms : ℚ)
  | requestApproval (params : RequestParams)
  | submitDecision (requestId approver : String) (decision : Decision) (notes : Option String)

/-- A call that throws changes nothing. -/
def step (m : InvoiceCollaborationManager) : Event → Option InvoiceCollaborationManager
  | .elapse ms => if 0 ≤ ms then some { m with now := m.now + ms } else none
  | .requestApproval params => some ((m.requestApproval params).toOption.elim m Prod.snd)
  | .submitDecision requestId approver decision notes =>
      some ((m.submitDecision requestId approver decision notes).toOption.elim m Prod.snd)

end Operations

end SplitSdk.ApprovalWorkflow
