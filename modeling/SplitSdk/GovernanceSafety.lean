import SplitSdk.DaoGovernance
import SplitSdk.NumberText

namespace SplitSdk.GovernanceSafety

open Numbers NumberText OrderedMap DaoGovernance

section Statement

structure Ballot where
  voter : String
  choice : VoteChoice
  power : ℚ
  now : ℚ

def ballotOn (id : String) : Event → Option Ballot
  | .castVote id' voter choice power now => if id' = id then some ⟨voter, choice, power, now⟩ else none
  | _ => none

/-- The votes cast on a proposal. -/
def ballots (log : List Event) (id : String) : List Ballot := log.filterMap (ballotOn id)

def tally (log : List Event) (id : String) (choice : VoteChoice) : ℚ :=
  (((ballots log id).filter (fun ballot => ballot.choice = choice)).map Ballot.power).sum

def isExecution (id : String) : Event → Bool
  | .executeProposal id' _ => id' = id
  | _ => false

def isCancellation (id : String) : Event → Bool
  | .cancelProposal id' _ => id' = id
  | _ => false

def depositOf : Event → ℚ
  | .deposit amount => amount
  | _ => 0

def deposited (log : List Event) : ℚ := (log.map depositOf).sum

def positiveAmount (action : ProposalAction) : ℚ := max 0 (action.amount.getD 0)

def payout (dao : DAOGovernance) : Event → ℚ
  | .executeProposal id _ => (dao.proposals.get? id).elim 0 (fun proposal => positiveAmount proposal.action)
  | _ => 0

/-- The positive amounts of the executed proposals. -/
def paid (h : History) : ℚ := (h.log.map (payout h.dao)).sum

/-- What holds in every state of a run. All votes that count were cast before the end of voting, so that the tallies of the
log are those at the end. -/
structure Safe (config : GovernanceConfig) (h : History) : Prop where
  solvent : 0 ≤ h.dao.treasuryBalance
  balanced : h.dao.treasuryBalance = deposited h.log - paid h
  once : ∀ id, h.log.countP (isExecution id) ≤ 1
  notCancelled : ∀ id, h.log.any (isExecution id) → h.log.any (isCancellation id) = false
  passed : ∀ id, h.log.any (isExecution id) → passes config (tally h.log id)
  tallied : ∀ id, ∀ proposal ∈ h.dao.proposals.get? id, proposal.votes = tally h.log id
  distinct : ∀ id, ((ballots h.log id).map Ballot.voter).Nodup
  early : ∀ id, ∀ proposal ∈ h.dao.proposals.get? id, ∀ ballot ∈ ballots h.log id, (JsNumber.finite ballot.now).lt proposal.endAt
  failing : ∀ id now, (executeProposal config h.dao id now).1.isOk = false →
    (executeProposal config h.dao id now).2.treasuryBalance = h.dao.treasuryBalance ∧
      ∀ id', ((executeProposal config h.dao id now).2.proposals.get? id').map Proposal.votes =
        (h.dao.proposals.get? id').map Proposal.votes

end Statement

section Calls

variable {config : GovernanceConfig} {dao : DAOGovernance}

/-- What a call may do. -/
inductive Outcome (config : GovernanceConfig) (dao : DAOGovernance) : Event → Bool × DAOGovernance → Prop
  | refused (event : Event) : Outcome config dao event (false, dao)
  | refreshed (event : Event) {id : String} {proposal : Proposal} (now : ℚ) (hproposal : dao.proposals.get? id = some proposal) :
      Outcome config dao event (false, write dao (refreshState config proposal now))
  | created (power : ℚ) (proposer title description : String) (action : ProposalAction) (now : ℚ) :
      Outcome config dao (.createProposal power proposer title description action now)
        (true, { write dao ⟨proposalId (dao.proposalCounter + 1), proposer, title, description, now, now,
          (JsNumber.finite now).add config.votingPeriodMs, .active, action, fun _ => 0, .empty⟩ with
          proposalCounter := dao.proposalCounter + 1 })
  | cast {id : String} {proposal : Proposal} (voter : String) (choice : VoteChoice) (power now : ℚ)
      (hproposal : dao.proposals.get? id = some proposal) (hactive : (refreshState config proposal now).state = .active)
      (hfirst : voter ∉ (refreshState config proposal now).voters.keys) :
      Outcome config dao (.castVote id voter choice power now)
        (true, write (write dao (refreshState config proposal now))
          { refreshState config proposal now with
            voters := (refreshState config proposal now).voters.set voter choice,
            votes := Function.update (refreshState config proposal now).votes choice
              ((refreshState config proposal now).votes choice + power) })
  | cancelled {id : String} {proposal : Proposal} (caller : String) (hproposal : dao.proposals.get? id = some proposal)
      (hstate : proposal.state ≠ .executed) :
      Outcome config dao (.cancelProposal id caller) (true, write dao { proposal with state := .cancelled })
  | executed {id : String} {proposal : Proposal} (now : ℚ) (hproposal : dao.proposals.get? id = some proposal)
      (hstate : (refreshState config proposal now).state = .succeeded)
      (hfunds : 0 ≤ dao.treasuryBalance → positiveAmount (refreshState config proposal now).action ≤ dao.treasuryBalance) :
      Outcome config dao (.executeProposal id now)
        (true, write { write dao (refreshState config proposal now) with
          treasuryBalance := dao.treasuryBalance - positiveAmount (refreshState config proposal now).action }
          { refreshState config proposal now with state := .executed })
  | deposited {amount : ℚ} (hpos : 0 < amount) :
      Outcome config dao (.deposit amount) (true, { dao with treasuryBalance := dao.treasuryBalance + amount })

theorem refreshState_action (proposal : Proposal) (now : ℚ) : (refreshState config proposal now).action = proposal.action := by
  unfold refreshState
  split_ifs <;> rfl

theorem refreshState_votes (proposal : Proposal) (now : ℚ) : (refreshState config proposal now).votes = proposal.votes := by
  unfold refreshState
  split_ifs <;> rfl

theorem transfer_cases (dao : DAOGovernance) (action : ProposalAction) :
    (∃ message, transfer dao action = (.error message, dao)) ∨
      (0 ≤ dao.treasuryBalance → positiveAmount action ≤ dao.treasuryBalance) ∧
        transfer dao action = (.ok (), { dao with treasuryBalance := dao.treasuryBalance - positiveAmount action }) := by
  unfold transfer positiveAmount
  cases hcase : action.amount.filter (fun amount => 0 < amount) with
  | none =>
      have hzero : max 0 (action.amount.getD 0) = 0 := by
        apply max_eq_left
        cases hamount : action.amount with
        | none => exact le_refl 0
        | some amount =>
            rw [hamount, Option.filter_some] at hcase
            split_ifs at hcase with hpos
            exact not_lt.mp (fun h => hpos (decide_eq_true h))
      rw [hzero, sub_zero]
      exact .inr ⟨id, rfl⟩
  | some amount =>
      obtain ⟨hamount, hpos⟩ := Option.filter_eq_some_iff.mp hcase
      have hmax : max 0 (action.amount.getD 0) = amount := by
        rw [hamount, Option.getD_some]
        exact max_eq_right (of_decide_eq_true hpos).le
      rw [hmax]
      dsimp only
      unfold withdraw
      split_ifs with htarget hfunds
      · exact .inl ⟨_, rfl⟩
      · exact .inl ⟨_, rfl⟩
      · exact .inr ⟨fun _ => not_lt.mp hfunds, rfl⟩

theorem createProposal_outcome (power : ℚ) (proposer title description : String) (action : ProposalAction) (now : ℚ) :
    Outcome config dao (.createProposal power proposer title description action now)
      (succeeded (createProposal config dao power proposer title description action now)) := by
  unfold createProposal
  split_ifs
  · exact .refused _
  · exact .refused _
  · exact .created power proposer title description action now

theorem castVote_outcome (id voter : String) (choice : VoteChoice) (power now : ℚ) :
    Outcome config dao (.castVote id voter choice power now) (succeeded (castVote config dao id voter choice power now)) := by
  unfold castVote
  cases hproposal : dao.proposals.get? id with
  | none => exact .refused _
  | some proposal =>
      dsimp only
      split_ifs with hstate hvoted hpower
      · exact .refreshed _ now hproposal
      · exact .refreshed _ now hproposal
      · exact .refreshed _ now hproposal
      · refine .cast voter choice power now hproposal (not_not.mp hstate) (fun hmem => hvoted ?_)
        exact (Bool.or_eq_true _ _).mpr (.inl ((OrdMap.has_iff _ _).mpr hmem))

theorem cancelProposal_outcome (id caller : String) :
    Outcome config dao (.cancelProposal id caller) (succeeded (cancelProposal dao id caller)) := by
  unfold cancelProposal
  cases hproposal : dao.proposals.get? id with
  | none => exact .refused _
  | some proposal =>
      dsimp only
      split_ifs with hcaller hstate
      · exact .refused _
      · exact .refused _
      · exact .cancelled caller hproposal hstate

theorem executeProposal_outcome (config : GovernanceConfig) (dao : DAOGovernance) (id : String) (now : ℚ) :
    Outcome config dao (.executeProposal id now) (succeeded (executeProposal config dao id now)) := by
  unfold executeProposal
  cases hproposal : dao.proposals.get? id with
  | none => exact .refused _
  | some proposal =>
      dsimp only
      split_ifs with hstate
      · exact .refreshed _ now hproposal
      · rw [not_not] at hstate
        rcases transfer_cases (write dao (refreshState config proposal now)) (refreshState config proposal now).action with
          ⟨message, htransfer⟩ | ⟨hfunds, htransfer⟩
        · rw [htransfer]
          exact .refreshed _ now hproposal
        · rw [htransfer]
          exact .executed now hproposal hstate hfunds

theorem deposit_outcome (amount : ℚ) : Outcome config dao (.deposit amount) (succeeded (deposit dao amount)) := by
  unfold deposit
  split_ifs with hamount
  · exact .refused _
  · exact .deposited (not_le.mp hamount)

theorem perform_outcome (config : GovernanceConfig) (dao : DAOGovernance) (event : Event) :
    Outcome config dao event (perform config dao event) := by
  cases event with
  | createProposal power proposer title description action now =>
      exact createProposal_outcome power proposer title description action now
  | castVote id voter choice power now => exact castVote_outcome id voter choice power now
  | cancelProposal id caller => exact cancelProposal_outcome id caller
  | executeProposal id now => exact executeProposal_outcome config dao id now
  | deposit amount => exact deposit_outcome amount

end Calls

section Proposals

variable {config : GovernanceConfig} {log : List Event} {id : String} {proposal : Proposal}

/-- The proposal that a call is about. -/
def subject : Event → Option String
  | .castVote id .. | .cancelProposal id _ | .executeProposal id _ => some id
  | .createProposal .. | .deposit _ => none

/-- A proposal as the calls that have returned left it. -/
structure Agrees (config : GovernanceConfig) (log : List Event) (id : String) (proposal : Proposal) : Prop where
  named : proposal.id = id
  votes : proposal.votes = tally log id
  voters : ∀ voter, voter ∈ proposal.voters.keys ↔ voter ∈ (ballots log id).map Ballot.voter
  distinct : ((ballots log id).map Ballot.voter).Nodup
  early : ∀ ballot ∈ ballots log id, (JsNumber.finite ballot.now).lt proposal.endAt
  executions : log.countP (isExecution id) = if proposal.state = .executed then 1 else 0
  cancelled : log.any (isCancellation id) = decide (proposal.state = .cancelled)
  passed : proposal.state = .succeeded ∨ proposal.state = .executed → passes config proposal.votes

theorem ballots_concat (log : List Event) (event : Event) (id : String) :
    ballots (log ++ [event]) id = ballots log id ++ (ballotOn id event).toList := by
  rw [ballots, ballots, List.filterMap_append]
  cases hcase : ballotOn id event with
  | none => rw [List.filterMap_cons_none hcase, List.filterMap_nil, Option.toList_none]
  | some ballot => rw [List.filterMap_cons_some hcase, List.filterMap_nil, Option.toList_some]

theorem tally_concat (log : List Event) (event : Event) (id : String) (choice : VoteChoice) :
    tally (log ++ [event]) id choice = tally log id choice +
      (((ballotOn id event).toList.filter (fun ballot => ballot.choice = choice)).map Ballot.power).sum := by
  rw [tally, ballots_concat, List.filter_append, List.map_append, List.sum_append]
  rfl

theorem silent_of_subject {event : Event} (h : subject event ≠ some id) :
    ballotOn id event = none ∧ isExecution id event = false ∧ isCancellation id event = false := by
  cases event with
  | castVote id' => exact ⟨if_neg (fun heq => h (congrArg some heq)), rfl, rfl⟩
  | cancelProposal id' => exact ⟨rfl, rfl, decide_eq_false (fun heq => h (congrArg some heq))⟩
  | executeProposal id' => exact ⟨rfl, decide_eq_false (fun heq => h (congrArg some heq)), rfl⟩
  | createProposal | deposit => exact ⟨rfl, rfl, rfl⟩

theorem ballots_concat_of_none {event : Event} (h : ballotOn id event = none) : ballots (log ++ [event]) id = ballots log id := by
  rw [ballots_concat, h, Option.toList_none, List.append_nil]

/-- No vote is cast; the state changes as the log says. -/
theorem Agrees.settle (h : Agrees config log id proposal) {log' : List Event} {state : ProposalState}
    (hballots : ballots log' id = ballots log id)
    (hexecutions : log'.countP (isExecution id) = if state = .executed then 1 else 0)
    (hcancelled : log'.any (isCancellation id) = decide (state = .cancelled))
    (hpassed : state = .succeeded ∨ state = .executed → passes config proposal.votes) :
    Agrees config log' id { proposal with state := state } where
  named := h.named
  votes := by
    rw [h.votes]
    funext choice
    rw [tally, tally, hballots]
  voters := by
    rw [hballots]
    exact h.voters
  distinct := by
    rw [hballots]
    exact h.distinct
  early := by
    rw [hballots]
    exact h.early
  executions := hexecutions
  cancelled := hcancelled
  passed := hpassed

theorem Agrees.other (h : Agrees config log id proposal) {event : Event} (hother : subject event ≠ some id) :
    Agrees config (log ++ [event]) id proposal := by
  obtain ⟨hballot, hexecution, hcancellation⟩ := silent_of_subject hother
  refine h.settle (ballots_concat_of_none hballot) ?_ ?_ h.passed
  · rw [List.countP_append, List.countP_singleton, hexecution, h.executions]
    rfl
  · rw [List.any_append, List.any_cons, hcancellation, List.any_nil, Bool.or_false, Bool.or_false, h.cancelled]

theorem refreshState_cases (config : GovernanceConfig) (proposal : Proposal) (now : ℚ) :
    (refreshState config proposal now = proposal ∧
        (proposal.state = .active → (JsNumber.finite now).lt proposal.endAt)) ∨
      proposal.state = .active ∧ refreshState config proposal now =
        { proposal with state := if passes config proposal.votes then .succeeded else .defeated } := by
  unfold refreshState
  by_cases h : proposal.state ≠ .active ∨ (JsNumber.finite now).lt proposal.endAt
  · rw [if_pos h]
    exact .inl ⟨rfl, fun hactive => h.resolve_left (not_not_intro hactive)⟩
  · rw [if_neg h]
    exact .inr ⟨not_not.mp (not_or.mp h).1, rfl⟩

theorem Agrees.refresh (h : Agrees config log id proposal) (now : ℚ) : Agrees config log id (refreshState config proposal now) := by
  rcases refreshState_cases config proposal now with ⟨hsame, -⟩ | ⟨hactive, hstate⟩
  · rw [hsame]
    exact h
  · rw [hstate]
    refine h.settle rfl ?_ ?_ ?_
    · rw [h.executions, hactive]
      split_ifs <;> rfl
    · rw [h.cancelled, hactive]
      split_ifs <;> rfl
    · intro hsucceeded
      by_contra hfails
      rw [if_neg hfails] at hsucceeded
      rcases hsucceeded with hsucceeded | hsucceeded <;> cases hsucceeded

/-- A proposal that is active after a refreshing has been active before it, and the time has not come. -/
theorem of_active {now : ℚ} (h : (refreshState config proposal now).state = .active) :
    refreshState config proposal now = proposal ∧ proposal.state = .active ∧ (JsNumber.finite now).lt proposal.endAt := by
  rcases refreshState_cases config proposal now with ⟨hsame, htime⟩ | ⟨-, hstate⟩
  · rw [hsame] at h
    exact ⟨hsame, h, htime h⟩
  · rw [hstate] at h
    dsimp only at h
    split_ifs at h

theorem Agrees.cast (h : Agrees config log id proposal) {voter : String} {now : ℚ} (choice : VoteChoice) (power : ℚ)
    (hactive : proposal.state = .active) (htime : (JsNumber.finite now).lt proposal.endAt) (hfirst : voter ∉ proposal.voters.keys) :
    Agrees config (log ++ [.castVote id voter choice power now]) id
      { proposal with
        voters := proposal.voters.set voter choice,
        votes := Function.update proposal.votes choice (proposal.votes choice + power) } := by
  have hballots : ballots (log ++ [.castVote id voter choice power now]) id = ballots log id ++ [⟨voter, choice, power, now⟩] := by
    rw [ballots_concat, ballotOn, if_pos rfl]
    rfl
  refine ⟨h.named, ?_, ?_, ?_, ?_, ?_, ?_, ?_⟩
  · funext choice'
    have hbefore : (((ballots log id).filter (fun ballot => ballot.choice = choice')).map Ballot.power).sum = proposal.votes choice' :=
      (congrFun h.votes choice').symm
    rw [tally, hballots, List.filter_append, List.map_append, List.sum_append, hbefore]
    by_cases hchoice : choice' = choice
    · subst hchoice
      simp
    · simp [hchoice, Ne.symm hchoice]
  · intro voter'
    rw [hballots, List.map_append, List.mem_append, ← h.voters, List.map_singleton, List.mem_singleton, OrdMap.keys_set,
      if_neg hfirst, List.mem_append, List.mem_singleton]
  · rw [hballots, List.map_append]
    refine List.nodup_append'.mpr ⟨h.distinct, List.nodup_singleton _, List.disjoint_singleton.mpr ?_⟩
    exact fun hmem => hfirst ((h.voters voter).mpr hmem)
  · rw [hballots]
    exact List.forall_mem_append.mpr ⟨h.early, List.forall_mem_singleton.mpr htime⟩
  · rw [List.countP_append, h.executions]
    rfl
  · rw [List.any_append, h.cancelled]
    exact Bool.or_false _
  · intro hstate
    rw [hactive] at hstate
    rcases hstate with hstate | hstate <;> cases hstate

theorem Agrees.cancel (h : Agrees config log id proposal) (hstate : proposal.state ≠ .executed) (caller : String) :
    Agrees config (log ++ [.cancelProposal id caller]) id { proposal with state := .cancelled } := by
  refine h.settle (ballots_concat_of_none rfl) ?_ ?_ ?_
  · rw [List.countP_append, h.executions, if_neg hstate]
    rfl
  · rw [List.any_append, List.any_cons, isCancellation, decide_eq_true rfl, Bool.true_or, Bool.or_true]
    rfl
  · intro hpassed
    rcases hpassed with hpassed | hpassed <;> cases hpassed

theorem Agrees.execute (h : Agrees config log id proposal) (hstate : proposal.state = .succeeded) (now : ℚ) :
    Agrees config (log ++ [.executeProposal id now]) id { proposal with state := .executed } := by
  refine h.settle (ballots_concat_of_none rfl) ?_ ?_ (fun _ => h.passed (.inl hstate))
  · rw [List.countP_append, h.executions, hstate, List.countP_singleton, isExecution, decide_eq_true rfl]
    rfl
  · rw [List.any_append, h.cancelled, hstate]
    rfl

end Proposals

section Invariant

variable {config : GovernanceConfig} {dao : DAOGovernance} {log : List Event}

/-- The proposals are those that were created, and the calls that have returned are about them. -/
structure Records (config : GovernanceConfig) (dao : DAOGovernance) (log : List Event) : Prop where
  numbered : ∀ id ∈ dao.proposals.keys, ∃ n ≤ dao.proposalCounter, id = proposalId n
  known : ∀ event ∈ log, ∀ id, subject event = some id → id ∈ dao.proposals.keys
  agrees : ∀ id proposal, dao.proposals.get? id = some proposal → Agrees config log id proposal

structure Funds (dao : DAOGovernance) (log : List Event) : Prop where
  solvent : 0 ≤ dao.treasuryBalance
  balanced : dao.treasuryBalance = deposited log - (log.map (payout dao)).sum

theorem mem_keys_of_get? {id : String} {proposal : Proposal} (h : dao.proposals.get? id = some proposal) : id ∈ dao.proposals.keys := by
  rw [← OrdMap.has_iff, OrdMap.has, h]
  rfl

theorem Records.unknown (h : Records config dao log) {id : String} (hid : id ∉ dao.proposals.keys) :
    ballots log id = [] ∧ log.countP (isExecution id) = 0 ∧ log.any (isCancellation id) = false := by
  have hother : ∀ event ∈ log, ballotOn id event = none ∧ isExecution id event = false ∧ isCancellation id event = false :=
    fun event hmem => silent_of_subject (fun heq => hid (h.known event hmem id heq))
  refine ⟨List.filterMap_eq_nil_iff.mpr (fun event hmem => (hother event hmem).1), ?_, ?_⟩
  · exact List.countP_eq_zero.mpr (fun event hmem => Bool.not_eq_true _ ▸ (hother event hmem).2.1)
  · exact List.any_eq_false.mpr (fun event hmem => Bool.not_eq_true _ ▸ (hother event hmem).2.2)

/-- A proposal is written, and nothing is added to the log or a call about it. -/
theorem Records.written (h : Records config dao log) {id : String} {proposal proposal' : Proposal} {log' : List Event}
    (hproposal : dao.proposals.get? id = some proposal) (hagrees : Agrees config log' id proposal')
    (hlog : log' = log ∨ ∃ event, log' = log ++ [event] ∧ subject event = some id) : Records config (write dao proposal') log' := by
  have hmem := mem_keys_of_get? hproposal
  have hkeys : (write dao proposal').proposals.keys = dao.proposals.keys := by
    rw [DaoGovernance.write, OrdMap.keys_set, hagrees.named, if_pos hmem]
  refine ⟨?_, ?_, fun id' found hfound => ?_⟩
  · rw [hkeys]
    exact h.numbered
  · rw [hkeys]
    rcases hlog with rfl | ⟨event, rfl, hsubject⟩
    · exact h.known
    · refine List.forall_mem_append.mpr ⟨h.known, List.forall_mem_singleton.mpr (fun id' heq => ?_)⟩
      rwa [Option.some.inj (heq.symm.trans hsubject)]
  · rw [DaoGovernance.write, OrdMap.get?_set, hagrees.named] at hfound
    split_ifs at hfound with hsame
    · cases hfound
      rw [hsame]
      exact hagrees
    · have hold := h.agrees id' found hfound
      rcases hlog with rfl | ⟨event, rfl, hsubject⟩
      · exact hold
      · exact hold.other (fun heq => hsame (Option.some.inj (heq.symm.trans hsubject)))

theorem proposalId_injective {m n : Nat} (h : proposalId m = proposalId n) : m = n := by
  have hlist := congrArg String.toList h
  have hm : proposalId m = "prop-" ++ m.repr := rfl
  have hn : proposalId n = "prop-" ++ n.repr := rfl
  rw [hm, hn, String.toList_append, String.toList_append] at hlist
  exact natRepr_inj (String.toList_injective (List.append_cancel_left hlist))

theorem Records.fresh (h : Records config dao log) : proposalId (dao.proposalCounter + 1) ∉ dao.proposals.keys := by
  intro hmem
  obtain ⟨n, hn, heq⟩ := h.numbered _ hmem
  have := proposalId_injective heq
  omega

theorem agrees_new (h : Records config dao log) {proposal : Proposal} (hid : proposal.id ∉ dao.proposals.keys)
    (hstate : proposal.state = .active) (hvotes : proposal.votes = fun _ => 0) (hvoters : proposal.voters = .empty) :
    Agrees config log proposal.id proposal := by
  obtain ⟨hballots, hexecutions, hcancelled⟩ := h.unknown hid
  refine ⟨rfl, ?_, ?_, ?_, ?_, ?_, ?_, ?_⟩
  · rw [hvotes]
    funext choice
    rw [tally, hballots]
    rfl
  · rw [hvoters, hballots]
    exact fun _ => Iff.rfl
  · rw [hballots]
    exact List.nodup_nil
  · rw [hballots]
    exact List.forall_mem_nil _
  · rw [hexecutions, hstate]
    rfl
  · rw [hcancelled, hstate]
    rfl
  · rw [hstate]
    intro hpassed
    rcases hpassed with hpassed | hpassed <;> cases hpassed

theorem Records.created (h : Records config dao log) {proposal : Proposal} (hid : proposal.id = proposalId (dao.proposalCounter + 1))
    (hstate : proposal.state = .active) (hvotes : proposal.votes = fun _ => 0) (hvoters : proposal.voters = .empty) {event : Event}
    (hevent : subject event = none) :
    Records config { write dao proposal with proposalCounter := dao.proposalCounter + 1 } (log ++ [event]) := by
  have hfresh : proposal.id ∉ dao.proposals.keys := by
    rw [hid]
    exact h.fresh
  have hkeys : (dao.proposals.set proposal.id proposal).keys = dao.proposals.keys ++ [proposal.id] := by
    rw [OrdMap.keys_set, if_neg hfresh]
  have hother (id : String) : subject event ≠ some id := by
    rw [hevent]
    exact (Option.some_ne_none id).symm
  refine ⟨fun id hmem => ?_, fun event' hmem id hsubject => ?_, fun id found hfound => ?_⟩
  · change id ∈ (dao.proposals.set proposal.id proposal).keys at hmem
    rw [hkeys, List.mem_append, List.mem_singleton] at hmem
    rcases hmem with hmem | rfl
    · obtain ⟨n, hn, heq⟩ := h.numbered id hmem
      exact ⟨n, Nat.le_succ_of_le hn, heq⟩
    · exact ⟨_, le_refl _, hid⟩
  · change id ∈ (dao.proposals.set proposal.id proposal).keys
    rw [hkeys]
    rcases List.mem_append.mp hmem with hmem | hmem
    · exact List.mem_append_left _ (h.known event' hmem id hsubject)
    · rw [List.mem_singleton.mp hmem] at hsubject
      exact absurd hsubject (hother id)
  · change (dao.proposals.set proposal.id proposal).get? id = some found at hfound
    rw [OrdMap.get?_set] at hfound
    split_ifs at hfound with hsame
    · cases hfound
      rw [hsame]
      exact (agrees_new h hfresh hstate hvotes hvoters).other (hother _)
    · exact (h.agrees id found hfound).other (hother id)

theorem Funds.congr {dao' : DAOGovernance} (h : Funds dao log) (hbalance : dao'.treasuryBalance = dao.treasuryBalance)
    (hpayout : ∀ event ∈ log, payout dao' event = payout dao event) : Funds dao' log := by
  refine ⟨hbalance ▸ h.solvent, ?_⟩
  rw [hbalance, h.balanced, List.map_congr_left hpayout]

theorem payout_write {id : String} {proposal proposal' : Proposal} (hproposal : dao.proposals.get? id = some proposal)
    (hid : proposal'.id = id) (haction : proposal'.action = proposal.action) (event : Event) :
    payout (write dao proposal') event = payout dao event := by
  cases event with
  | executeProposal id' now =>
      rw [payout, payout, DaoGovernance.write, OrdMap.get?_set, hid]
      split_ifs with hsame
      · rw [hsame, hproposal, Option.elim_some, Option.elim_some, haction]
      · rfl
  | castVote | cancelProposal | createProposal | deposit => rfl

theorem payout_create (h : Records config dao log) {proposal : Proposal} (hid : proposal.id ∉ dao.proposals.keys) :
    ∀ event ∈ log, payout (write dao proposal) event = payout dao event := by
  intro event hmem
  cases event with
  | executeProposal id' now =>
      have hknown := h.known _ hmem id' rfl
      rw [payout, payout, DaoGovernance.write, OrdMap.get?_set, if_neg]
      rintro rfl
      exact hid hknown
  | castVote | cancelProposal | createProposal | deposit => rfl

/-- A call that moves no money is added to the log. -/
theorem Funds.unmoved (h : Funds dao log) {event : Event} (hdeposit : depositOf event = 0) (hpayout : payout dao event = 0) :
    Funds dao (log ++ [event]) := by
  refine ⟨h.solvent, ?_⟩
  rw [h.balanced, deposited, deposited, List.map_append, List.map_append, List.sum_append, List.sum_append, List.map_singleton,
    List.map_singleton, List.sum_singleton, List.sum_singleton, hdeposit, hpayout, add_zero, add_zero]

theorem deposited_concat (log : List Event) (event : Event) : deposited (log ++ [event]) = deposited log + depositOf event := by
  rw [deposited, List.map_append, List.sum_append, List.map_singleton, List.sum_singleton]
  rfl

theorem Funds.executed (h : Funds dao log) {id : String} {proposal proposal' : Proposal} (now : ℚ)
    (hproposal : dao.proposals.get? id = some proposal) (hid : proposal'.id = id) (haction : proposal'.action = proposal.action)
    (henough : positiveAmount proposal.action ≤ dao.treasuryBalance) :
    Funds (write { dao with treasuryBalance := dao.treasuryBalance - positiveAmount proposal.action } proposal')
      (log ++ [.executeProposal id now]) := by
  have hpayout := payout_write hproposal hid haction
  have hpayout' : payout (write { dao with treasuryBalance := dao.treasuryBalance - positiveAmount proposal.action } proposal') =
      payout dao := by
    funext event
    exact hpayout event
  have hpaid : payout dao (.executeProposal id now) = positiveAmount proposal.action := by
    rw [payout, hproposal]
    rfl
  refine ⟨sub_nonneg.mpr henough, ?_⟩
  rw [hpayout', deposited_concat, List.map_append, List.sum_append, List.map_singleton, List.sum_singleton, hpaid]
  change dao.treasuryBalance - _ = deposited log + 0 - _
  rw [h.balanced]
  ring

theorem Funds.deposited (h : Funds dao log) {amount : ℚ} (hpos : 0 < amount) :
    Funds { dao with treasuryBalance := dao.treasuryBalance + amount } (log ++ [.deposit amount]) := by
  have hpayout : payout { dao with treasuryBalance := dao.treasuryBalance + amount } = payout dao := by
    funext event
    cases event <;> rfl
  refine ⟨add_nonneg h.solvent hpos.le, ?_⟩
  rw [hpayout, deposited_concat, List.map_append, List.sum_append, List.map_singleton, List.sum_singleton]
  change dao.treasuryBalance + amount = GovernanceSafety.deposited log + amount - (_ + 0)
  rw [h.balanced]
  ring

structure Inv (config : GovernanceConfig) (h : History) : Prop where
  records : Records config h.dao h.log
  funds : Funds h.dao h.log

theorem get?_write (dao : DAOGovernance) {id : String} {proposal : Proposal} (hid : proposal.id = id) :
    (write dao proposal).proposals.get? id = some proposal := by
  rw [DaoGovernance.write, OrdMap.get?_set, if_pos hid.symm]

theorem Records.refreshed (h : Records config dao log) {id : String} {proposal : Proposal}
    (hproposal : dao.proposals.get? id = some proposal) (now : ℚ) :
    Records config (write dao (refreshState config proposal now)) log :=
  h.written hproposal ((h.agrees id proposal hproposal).refresh now) (.inl rfl)

theorem Funds.written (h : Funds dao log) {id : String} {proposal proposal' : Proposal}
    (hproposal : dao.proposals.get? id = some proposal) (hid : proposal'.id = id) (haction : proposal'.action = proposal.action) :
    Funds (write dao proposal') log :=
  h.congr rfl (fun event _ => payout_write hproposal hid haction event)

theorem Funds.refreshed (h : Funds dao log) {id : String} {proposal : Proposal} (hproposal : dao.proposals.get? id = some proposal)
    {now : ℚ}
    (hid : (refreshState config proposal now).id = id) : Funds (write dao (refreshState config proposal now)) log :=
  h.written hproposal hid (refreshState_action proposal now)

theorem Inv.step {h : History} (hinv : Inv config h) (event : Event) : Inv config (h.step config event) := by
  obtain ⟨dao, log⟩ := h
  obtain ⟨hrecords, hfunds⟩ := hinv
  dsimp only at hrecords hfunds
  have houtcome := perform_outcome config dao event
  unfold History.step
  dsimp only
  generalize perform config dao event = result at houtcome
  cases houtcome with
  | refused => exact ⟨hrecords, hfunds⟩
  | @refreshed _ id proposal now hproposal =>
      have hagrees := (hrecords.agrees id proposal hproposal).refresh now
      exact ⟨hrecords.refreshed hproposal now, hfunds.refreshed hproposal hagrees.named⟩
  | created power proposer title description action now =>
      refine ⟨hrecords.created rfl rfl rfl rfl rfl, ?_⟩
      refine Funds.unmoved ?_ rfl rfl
      exact hfunds.congr rfl (payout_create hrecords hrecords.fresh)
  | @cast id proposal voter choice power now hproposal hactive hfirst =>
      have hagrees := hrecords.agrees id proposal hproposal
      obtain ⟨hsame, hstate, htime⟩ := of_active hactive
      rw [hsame] at hfirst ⊢
      have hwritten := hrecords.written hproposal hagrees (.inl rfl)
      have hget := get?_write dao hagrees.named
      refine ⟨hwritten.written hget (hagrees.cast choice power hstate htime hfirst) (.inr ⟨_, rfl, rfl⟩), ?_⟩
      refine Funds.unmoved ?_ rfl rfl
      refine Funds.written (hfunds.written hproposal hagrees.named rfl) hget ?_ ?_
      · exact hagrees.named
      · rfl
  | @cancelled id proposal caller hproposal hstate =>
      have hagrees := hrecords.agrees id proposal hproposal
      refine ⟨hrecords.written hproposal (hagrees.cancel hstate caller) (.inr ⟨_, rfl, rfl⟩), ?_⟩
      refine Funds.unmoved ?_ rfl rfl
      refine hfunds.written hproposal ?_ ?_
      · exact hagrees.named
      · rfl
  | @executed id proposal now hproposal hstate henough =>
      have hagrees := (hrecords.agrees id proposal hproposal).refresh now
      have hwritten := hrecords.refreshed hproposal now
      have hpaying := hfunds.refreshed hproposal hagrees.named
      have hget := get?_write dao hagrees.named
      have hpaid : Records config { write dao (refreshState config proposal now) with
          treasuryBalance := dao.treasuryBalance - positiveAmount (refreshState config proposal now).action } log :=
        ⟨hwritten.numbered, hwritten.known, hwritten.agrees⟩
      refine ⟨hpaid.written hget (hagrees.execute hstate now) (.inr ⟨_, rfl, rfl⟩), ?_⟩
      exact hpaying.executed now hget hagrees.named rfl (henough hfunds.solvent)
  | @deposited amount hpos =>
      refine ⟨⟨hrecords.numbered, ?_, fun id proposal hproposal => ?_⟩, hfunds.deposited hpos⟩
      · refine List.forall_mem_append.mpr ⟨hrecords.known, List.forall_mem_singleton.mpr (fun id hsubject => ?_)⟩
        cases hsubject
      · exact (hrecords.agrees id proposal hproposal).other nofun

theorem inv_history (config : GovernanceConfig) (events : List Event) : Inv config (history config events) := by
  induction events using List.reverseRecOn with
  | nil =>
      refine ⟨⟨List.forall_mem_nil _, List.forall_mem_nil _, fun id proposal hproposal => ?_⟩, le_refl 0, (sub_zero 0).symm⟩
      cases hproposal
  | append_singleton events event ih =>
      rw [history, List.foldl_append]
      exact ih.step event

end Invariant

section Safety

variable {config : GovernanceConfig} {h : History}

/-- A proposal that was executed is there, and has been executed once. -/
theorem Inv.of_execution (hinv : Inv config h) {id : String} (hexecuted : h.log.any (isExecution id)) :
    ∃ proposal, Agrees config h.log id proposal ∧ proposal.state = .executed := by
  obtain ⟨event, hmem, hexecution⟩ := List.any_eq_true.mp hexecuted
  have hcount : 0 < h.log.countP (isExecution id) := List.countP_pos_iff.mpr ⟨event, hmem, hexecution⟩
  by_cases hid : id ∈ h.dao.proposals.keys
  · obtain ⟨proposal, hproposal⟩ := Option.isSome_iff_exists.mp ((OrdMap.has_iff _ _).mpr hid)
    have hagrees := hinv.records.agrees id proposal hproposal
    refine ⟨proposal, hagrees, ?_⟩
    by_contra hstate
    rw [hagrees.executions, if_neg hstate] at hcount
    exact lt_irrefl 0 hcount
  · rw [(hinv.records.unknown hid).2.1] at hcount
    exact absurd hcount (lt_irrefl 0)

theorem executeProposal_failing (hinv : Inv config h) {id : String} {now : ℚ}
    (hfails : (executeProposal config h.dao id now).1.isOk = false) :
    (executeProposal config h.dao id now).2.treasuryBalance = h.dao.treasuryBalance ∧
      ∀ id', ((executeProposal config h.dao id now).2.proposals.get? id').map Proposal.votes =
        (h.dao.proposals.get? id').map Proposal.votes := by
  have houtcome := executeProposal_outcome config h.dao id now
  generalize executeProposal config h.dao id now = called at hfails houtcome ⊢
  obtain ⟨result, dao⟩ := called
  rw [succeeded, hfails] at houtcome
  cases houtcome with
  | refused => exact ⟨rfl, fun _ => rfl⟩
  | @refreshed _ id' proposal now' hproposal =>
      have hagrees := (hinv.records.agrees id' proposal hproposal).refresh now'
      refine ⟨rfl, fun id'' => ?_⟩
      rw [write, OrdMap.get?_set, hagrees.named]
      split_ifs with hsame
      · rw [hsame, hproposal, Option.map_some, Option.map_some, refreshState_votes]
      · rfl

end Safety

end SplitSdk.GovernanceSafety
