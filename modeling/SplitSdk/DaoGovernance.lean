import SplitSdk.Numbers
import SplitSdk.OrderedMap

namespace SplitSdk.DaoGovernance

open Numbers OrderedMap

section Data

inductive ProposalState
  | pending | active | succeeded | defeated | queued | executed | cancelled
  deriving DecidableEq

def ProposalState.name : ProposalState → String
  | .pending => "pending"
  | .active => "active"
  | .succeeded => "succeeded"
  | .defeated => "defeated"
  | .queued => "queued"
  | .executed => "executed"
  | .cancelled => "cancelled"

inductive VoteChoice
  | «for» | against | abstain
  deriving DecidableEq

structure GovernanceConfig where
  quorum : JsNumber
  approvalThreshold : JsNumber
  votingPeriodMs : JsNumber
  proposalThreshold : JsNumber

structure ProposalAction where
  target : Option String := none
  amount : Option ℚ := none

/-- Amounts and powers are exact. -/
structure Proposal where
  id : String
  proposer : String
  title : String
  description : String
  createdAt : ℚ
  startAt : ℚ
  endAt : JsNumber
  state : ProposalState
  action : ProposalAction
  votes : VoteChoice → ℚ
  voters : OrdMap String VoteChoice

structure DAOGovernance where
  proposals : OrdMap String Proposal := .empty
  treasuryBalance : ℚ := 0
  proposalCounter : Nat := 0

end Data

section Proposals

variable (config : GovernanceConfig) (dao : DAOGovernance)

def proposalId (n : Nat) : String := s!"prop-{n}"

/-- The names that an empty object inherits. -/
def inherited : List String :=
  ["constructor", "__defineGetter__", "__defineSetter__", "hasOwnProperty", "__lookupGetter__", "__lookupSetter__", "isPrototypeOf",
    "propertyIsEnumerable", "toString", "valueOf", "__proto__", "toLocaleString"]

/-- `proposal.voters[voter]` is truthy. -/
def hasVoted (proposal : Proposal) (voter : String) : Bool := proposal.voters.has voter || inherited.contains voter

/-- The result of the votes: whether a quorum was reached and the proposal approved. -/
def passes (votes : VoteChoice → ℚ) : Bool :=
  let totalCast := votes .for + votes .against + votes .abstain
  let decisive := votes .for + votes .against
  let approval := if decisive = 0 then 0 else votes .for / decisive
  config.quorum.le (.finite totalCast) && config.approvalThreshold.le (.finite approval)

def refreshState (proposal : Proposal) (now : ℚ) : Proposal :=
  if proposal.state ≠ .active ∨ (JsNumber.finite now).lt proposal.endAt then proposal
  else { proposal with state := if passes config proposal.votes then .succeeded else .defeated }

/-- A proposal is an object that the map refers to. -/
def write (proposal : Proposal) : DAOGovernance := { dao with proposals := dao.proposals.set proposal.id proposal }

/-- The voting power is what the power source answers to this call. -/
def createProposal (power : ℚ) (proposer title description : String) (action : ProposalAction) (now : ℚ) :
    Except String Proposal × DAOGovernance :=
  if (JsNumber.finite power).lt config.proposalThreshold then (.error "Insufficient voting power to create proposal", dao)
  else if trim title.toList = [] then (.error "Proposal title is required", dao)
  else
    let counter := dao.proposalCounter + 1
    let proposal : Proposal :=
      ⟨proposalId counter, proposer, title, description, now, now, (JsNumber.finite now).add config.votingPeriodMs, .active, action,
        fun _ => 0, .empty⟩
    (.ok proposal, { write dao proposal with proposalCounter := counter })

def cancelProposal (id caller : String) : Except String Proposal × DAOGovernance :=
  match dao.proposals.get? id with
  | none => (.error s!"Proposal {id} not found", dao)
  | some proposal =>
      if proposal.proposer ≠ caller then (.error "Only the proposer can cancel this proposal", dao)
      else if proposal.state = .executed then (.error "Cannot cancel an executed proposal", dao)
      else
        let proposal := { proposal with state := .cancelled }
        (.ok proposal, write dao proposal)

def castVote (id voter : String) (choice : VoteChoice) (power now : ℚ) : Except String Proposal × DAOGovernance :=
  match dao.proposals.get? id with
  | none => (.error s!"Proposal {id} not found", dao)
  | some proposal =>
      let proposal := refreshState config proposal now
      let dao := write dao proposal
      if proposal.state ≠ .active then
        let state := proposal.state.name
        (.error s!"Cannot vote on proposal in state {state}", dao)
      else if hasVoted proposal voter then (.error "Address has already voted on this proposal", dao)
      else if power ≤ 0 then (.error "Address has no voting power", dao)
      else
        let proposal :=
          { proposal with
            voters := proposal.voters.set voter choice,
            votes := Function.update proposal.votes choice (proposal.votes choice + power) }
        (.ok proposal, write dao proposal)

end Proposals

section Treasury

variable (config : GovernanceConfig) (dao : DAOGovernance)

def withdraw (target : Option String) (amount : ℚ) : Except String Unit × DAOGovernance :=
  if dao.treasuryBalance < amount then (.error "Insufficient treasury balance", dao)
  else if target.getD "" = "" then (.error "Withdrawal target is required", dao)
  else (.ok (), { dao with treasuryBalance := dao.treasuryBalance - amount })

/-- The transfer of an action that has a positive amount. -/
def transfer (action : ProposalAction) : Except String Unit × DAOGovernance :=
  match action.amount.filter (fun amount => 0 < amount) with
  | none => (.ok (), dao)
  | some amount =>
      if action.target.getD "" = "" then (.error "Treasury transfer requires a target address", dao)
      else withdraw dao action.target amount

def executeProposal (id : String) (now : ℚ) : Except String Proposal × DAOGovernance :=
  match dao.proposals.get? id with
  | none => (.error s!"Proposal {id} not found", dao)
  | some proposal =>
      let proposal := refreshState config proposal now
      let dao := write dao proposal
      if proposal.state ≠ .succeeded then
        let state := proposal.state.name
        (.error s!"Proposal cannot be executed in state {state}", dao)
      else
        match transfer dao proposal.action with
        | (.error message, dao) => (.error message, dao)
        | (.ok (), dao) =>
            let proposal := { proposal with state := .executed }
            (.ok proposal, write dao proposal)

def deposit (amount : ℚ) : Except String ℚ × DAOGovernance :=
  if amount ≤ 0 then (.error "Deposit amount must be positive", dao)
  else (.ok (dao.treasuryBalance + amount), { dao with treasuryBalance := dao.treasuryBalance + amount })

end Treasury

section Runs

inductive Event
  | createProposal (power : ℚ) (proposer title description : String) (action : ProposalAction) (now : ℚ)
  | castVote (id voter : String) (choice : VoteChoice) (power now : ℚ)
  | cancelProposal (id caller : String)
  | executeProposal (id : String) (now : ℚ)
  | deposit (amount : ℚ)

def succeeded {α : Type} : Except String α × DAOGovernance → Bool × DAOGovernance
  | (result, dao) => (result.isOk, dao)

/-- Whether a call returns, and the state it leaves. -/
def perform (config : GovernanceConfig) (dao : DAOGovernance) : Event → Bool × DAOGovernance
  | .createProposal power proposer title description action now =>
      succeeded (createProposal config dao power proposer title description action now)
  | .castVote id voter choice power now => succeeded (castVote config dao id voter choice power now)
  | .cancelProposal id caller => succeeded (cancelProposal dao id caller)
  | .executeProposal id now => succeeded (executeProposal config dao id now)
  | .deposit amount => succeeded (deposit dao amount)

/-- The calls that have returned, with the state. -/
structure History where
  dao : DAOGovernance := {}
  log : List Event := []

def History.step (config : GovernanceConfig) (h : History) (event : Event) : History where
  dao := (perform config h.dao event).2
  log := if (perform config h.dao event).1 then h.log ++ [event] else h.log

def history (config : GovernanceConfig) (events : List Event) : History := events.foldl (History.step config) {}

end Runs

end SplitSdk.DaoGovernance
