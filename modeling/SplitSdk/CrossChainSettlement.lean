import SplitSdk.OrderedMap
import SplitSdk.Interleaving

namespace SplitSdk.CrossChainSettlement

open OrderedMap

section Data

structure SettlementParams where
  sourceChain : String
  targetChain : String
  amount : Int
  recipient : String
  token : String

inductive SettlementStatus
  | pending
  | submitted
  | confirmed
  | failed
  | unknown
  deriving DecidableEq

structure Settlement where
  id : String
  params : SettlementParams
  status : SettlementStatus
  txId : Option String := none
  createdAt : String
  updatedAt : String
  error : Option String := none

structure SubmitResult where
  txId : String
  status : SettlementStatus

structure StatusResult where
  status : SettlementStatus
  error : Option String

inductive Failure
  | settlementValidation (message : String)
  | unregisteredChain (chainId : String)
  | settlementNotFound (id : String)
  deriving DecidableEq

def Failure.message : Failure → String
  | .settlementValidation message => message
  | .unregisteredChain chainId => "No adapter registered for chain \"" ++ chainId ++ "\""
  | .settlementNotFound id => "Settlement \"" ++ id ++ "\" not found"

inductive EventName
  | initiated
  | confirmed
  | failed
  deriving DecidableEq

/-- A call that waits for the adapter or is over. -/
inductive Call
  | submitting (id : String)
  | polling (id : String)
  | returned (settlement : Settlement)
  | threw (failure : Failure)

/-- The service, its calls and the events it emitted, the newest first. -/
structure Service where
  adapters : List String := []
  settlements : OrdMap String Settlement := .empty
  calls : List Call := []
  emitted : List (EventName × String) := []

end Data

section Operations

def isNonEmpty (s message : String) : Except Failure Unit :=
  if s = "" then .error (.settlementValidation message) else .ok ()

def validateParams (params : SettlementParams) : Except Failure Unit := do
  isNonEmpty params.sourceChain "sourceChain must be a non-empty string"
  isNonEmpty params.targetChain "targetChain must be a non-empty string"
  if params.sourceChain = params.targetChain then
    throw (.settlementValidation "sourceChain and targetChain must be different")
  if params.amount ≤ 0 then throw (.settlementValidation "amount must be a positive bigint")
  isNonEmpty params.recipient "recipient must be a non-empty string"
  isNonEmpty params.token "token must be a non-empty string"

def registerChain (s : Service) (chainId : String) : Except Failure Service :=
  if chainId = "" then .error (.settlementValidation "chainId must be a non-empty string")
  else .ok { s with adapters := chainId :: s.adapters }

def Service.add (s : Service) (call : Call) : Service := { s with calls := s.calls ++ [call] }

/-- A call writes its settlement, may emit an event, and returns. -/
def Service.conclude (s : Service) (i : Nat) (settlement : Settlement) (event : Option EventName) : Service where
  adapters := s.adapters
  settlements := s.settlements.set settlement.id settlement
  calls := s.calls.set i (.returned settlement)
  emitted := event.elim s.emitted (fun event => (event, settlement.id) :: s.emitted)

/-- Up to the `await` of `adapter.submit`. -/
def initiateSettlement (s : Service) (params : SettlementParams) (id now : String) : Service :=
  match validateParams params with
  | .error e => s.add (.threw e)
  | .ok () =>
      if params.targetChain ∉ s.adapters then s.add (.threw (.unregisteredChain params.targetChain))
      else
        let settlement : Settlement := { id, params, status := .pending, createdAt := now, updatedAt := now }
        { s with
          settlements := s.settlements.set id settlement
          calls := s.calls ++ [.submitting id]
          emitted := (.initiated, id) :: s.emitted }

/-- From the answer of `adapter.submit`, which may be an error with a message. -/
def submitAnswered (s : Service) (i : Nat) (settlement : Settlement) (answer : Except String SubmitResult)
    (now : String) : Service :=
  match answer with
  | .ok result =>
      let status := if result.status = .confirmed then .confirmed else .submitted
      let settlement := { settlement with txId := some result.txId, status, updatedAt := now }
      s.conclude i settlement (if settlement.status = .confirmed then some .confirmed else none)
  | .error message =>
      let settlement := { settlement with status := .failed, error := some message, updatedAt := now }
      s.conclude i settlement (some .failed)

/-- Up to the `await` of `adapter.getStatus`. -/
def getSettlementStatus (s : Service) (id : String) : Service :=
  match s.settlements.get? id with
  | none => s.add (.threw (.settlementNotFound id))
  | some settlement =>
      if settlement.status = .confirmed ∨ settlement.status = .failed then s.add (.returned settlement)
      else if settlement.txId.getD "" = "" then s.add (.returned settlement)
      else if settlement.params.targetChain ∉ s.adapters then
        s.add (.threw (.unregisteredChain settlement.params.targetChain))
      else s.add (.polling id)

/-- From the answer of `adapter.getStatus`, `none` when it rejects. -/
def statusAnswered (s : Service) (i : Nat) (settlement : Settlement) (answer : Option StatusResult) (now : String) :
    Service :=
  match answer with
  | some result =>
      let previousStatus := settlement.status
      let settlement :=
        { settlement with
          status := result.status
          error := if result.error.getD "" = "" then settlement.error else result.error
          updatedAt := now }
      if previousStatus ≠ .confirmed ∧ settlement.status = .confirmed then
        s.conclude i settlement (some .confirmed)
      else if previousStatus ≠ .failed ∧ settlement.status = .failed then
        s.conclude i { settlement with error := some (settlement.error.getD "Unknown failure") } (some .failed)
      else s.conclude i settlement none
  | none => s.conclude i { settlement with status := .unknown, updatedAt := now } none

end Operations

section Runs

inductive Event
  | registerChain (chainId : String)
  /-- The service numbers the ids it generates, so that none comes twice. -/
  | initiate (params : SettlementParams) (id now : String)
  | submitAnswers (i : Nat) (answer : Except String SubmitResult) (now : String)
  | getStatus (id : String)
  | statusAnswers (i : Nat) (answer : Option StatusResult) (now : String)

def step (s : Service) : Event → Option Service
  | .registerChain chainId => (registerChain s chainId).toOption
  | .initiate params id now => if s.settlements.has id then none else some (initiateSettlement s params id now)
  | .submitAnswers i answer now =>
      match s.calls[i]? with
      | some (.submitting id) =>
          (s.settlements.get? id).map (fun settlement => submitAnswered s i settlement answer now)
      | _ => none
  | .getStatus id => some (getSettlementStatus s id)
  | .statusAnswers i answer now =>
      match s.calls[i]? with
      | some (.polling id) => (s.settlements.get? id).map (fun settlement => statusAnswered s i settlement answer now)
      | _ => none

end Runs

end SplitSdk.CrossChainSettlement

namespace SplitSdk.SettlementFinality

open Interleaving OrderedMap CrossChainSettlement

section Statement

def IsTerminal (status : SettlementStatus) : Prop := status = .confirmed ∨ status = .failed

instance : DecidablePred IsTerminal := fun _ => inferInstanceAs (Decidable (_ ∨ _))

def statusOf (s : Service) (id : String) : Option SettlementStatus := (s.settlements.get? id).map Settlement.status

/-- The events `settlement:confirmed` and `settlement:failed` of a settlement. -/
def outcomes (s : Service) (id : String) : List (EventName × String) :=
  s.emitted.filter (fun event => event.1 ≠ .initiated ∧ event.2 = id)

/-- Final settlements keep their status. -/
def Kept (s t : Service) : Prop :=
  ∀ id status, statusOf s id = some status → IsTerminal status → statusOf t id = some status

def polled (s : Service) (i : Nat) : Option String :=
  match s.calls[i]? with
  | some (.polling id) => some id
  | _ => none

/-- A poll that is answered after its settlement became final is answered with the final status. -/
def Agrees (s : Service) : Event → Prop
  | .statusAnswers i answer _ => ∀ id ∈ polled s i, ∀ status ∈ statusOf s id,
      IsTerminal status → answer.map StatusResult.status = some status
  | _ => True

instance (s : Service) (event : Event) : Decidable (Agrees s event) := by
  cases event <;> unfold Agrees <;> infer_instance

end Statement

section Invariant

variable {s t : Service}

structure Inv (s : Service) : Prop where
  keyed : ∀ id settlement, s.settlements.get? id = some settlement → settlement.id = id
  submitting : ∀ id, .submitting id ∈ s.calls →
    ∃ settlement, s.settlements.get? id = some settlement ∧ settlement.status = .pending ∧ settlement.txId = none
  polling : ∀ id, .polling id ∈ s.calls →
    ∃ settlement, s.settlements.get? id = some settlement ∧ settlement.txId ≠ none
  alone : ∀ (i j : Nat) id, s.calls[i]? = some (.submitting id) → s.calls[j]? = some (.submitting id) → i = j
  outcomes : ∀ id, (outcomes s id).length = if ∃ status, statusOf s id = some status ∧ IsTerminal status then 1 else 0

/-- What the last step of a call writes and emits: an event exactly when the settlement becomes final. -/
def Reports (old new : Settlement) (event : Option EventName) : Prop :=
  new.id = old.id ∧ (event = none ∧ (IsTerminal new.status → new.status = old.status) ∨
    (∃ name, event = some name ∧ name ≠ .initiated) ∧ IsTerminal new.status ∧ new.status ≠ old.status)

theorem submitAnswered_cases (s : Service) (i : Nat) (old : Settlement) (hpending : old.status = .pending)
    (answer : Except String SubmitResult) (now : String) :
    ∃ new event, submitAnswered s i old answer now = s.conclude i new event ∧ Reports old new event := by
  cases answer with
  | error message =>
      refine ⟨_, _, rfl, rfl, .inr ⟨⟨.failed, rfl, nofun⟩, .inr rfl, ?_⟩⟩
      rw [hpending]
      nofun
  | ok result =>
      refine ⟨_, _, rfl, rfl, ?_⟩
      by_cases hconfirmed : result.status = .confirmed
      · simp [IsTerminal, hconfirmed, hpending]
      · simp [IsTerminal, hconfirmed]

/-- The answer of a poll is reported when it makes the settlement final. -/
theorem report_cases (s : Service) (i : Nat) (old new : Settlement) (hid : new.id = old.id) :
    ∃ settlement event,
      (if old.status ≠ .confirmed ∧ new.status = .confirmed then s.conclude i new (some .confirmed)
        else if old.status ≠ .failed ∧ new.status = .failed then
          s.conclude i { new with error := some (new.error.getD "Unknown failure") } (some .failed)
        else s.conclude i new none) = s.conclude i settlement event ∧
      Reports old settlement event ∧ settlement.txId = new.txId ∧ settlement.status = new.status := by
  by_cases hconfirmed : old.status ≠ .confirmed ∧ new.status = .confirmed
  · refine ⟨new, _, if_pos hconfirmed, ⟨hid, .inr ⟨⟨.confirmed, rfl, nofun⟩, .inl hconfirmed.2, ?_⟩⟩, rfl, rfl⟩
    intro h
    exact hconfirmed.1 (h.symm.trans hconfirmed.2)
  · rw [if_neg hconfirmed]
    by_cases hfailed : old.status ≠ .failed ∧ new.status = .failed
    · refine ⟨_, _, if_pos hfailed, ⟨hid, .inr ⟨⟨.failed, rfl, nofun⟩, .inr hfailed.2, ?_⟩⟩, rfl, rfl⟩
      intro h
      exact hfailed.1 (h.symm.trans hfailed.2)
    · refine ⟨new, _, if_neg hfailed, ⟨hid, .inl ⟨rfl, ?_⟩⟩, rfl, rfl⟩
      rintro (h | h)
      · exact h.trans (not_not.mp (fun hne => hconfirmed ⟨hne, h⟩)).symm
      · exact h.trans (not_not.mp (fun hne => hfailed ⟨hne, h⟩)).symm

theorem statusAnswered_cases (s : Service) (i : Nat) (old : Settlement) (answer : Option StatusResult) (now : String) :
    ∃ new event, statusAnswered s i old answer now = s.conclude i new event ∧ Reports old new event ∧
      new.txId = old.txId ∧ (answer.map StatusResult.status = some old.status → new.status = old.status) := by
  cases answer with
  | none => exact ⟨_, _, rfl, ⟨rfl, .inl ⟨rfl, by simp [IsTerminal]⟩⟩, rfl, nofun⟩
  | some result =>
      obtain ⟨new, event, h, hreports, htx, hstatus⟩ := report_cases s i old
        { old with
          status := result.status
          error := if result.error.getD "" = "" then old.error else result.error
          updatedAt := now } rfl
      exact ⟨new, event, h, hreports, htx, fun hanswer => hstatus.trans (Option.some.inj hanswer)⟩

theorem get?_conclude (s : Service) (i : Nat) (new : Settlement) (event : Option EventName) (id : String) :
    (s.conclude i new event).settlements.get? id = if id = new.id then some new else s.settlements.get? id :=
  s.settlements.get?_set new.id id new

theorem statusOf_conclude (s : Service) (i : Nat) (new : Settlement) (event : Option EventName) (id : String) :
    statusOf (s.conclude i new event) id = if id = new.id then some new.status else statusOf s id := by
  rw [statusOf, get?_conclude]
  split_ifs
  · rfl
  · rfl

/-- A call that is under way after a step was under way before, unless it is the call that returned. -/
theorem getElem?_conclude {i j : Nat} {new : Settlement} {event : Option EventName} {call : Call}
    (h : (s.conclude i new event).calls[j]? = some call)
    (hcall : ∀ settlement, call ≠ .returned settlement) : j ≠ i ∧ s.calls[j]? = some call := by
  change (s.calls.set i (.returned new))[j]? = some call at h
  by_cases hj : j = i
  · subst hj
    rw [List.getElem?_set_self'] at h
    obtain ⟨_, _, h⟩ := Option.map_eq_some_iff.mp h
    exact absurd h.symm (hcall new)
  · rw [List.getElem?_set_ne (Ne.symm hj)] at h
    exact ⟨hj, h⟩

theorem outcomes_conclude (hi : Inv s) (i : Nat) {old new : Settlement} {event : Option EventName}
    (hold : s.settlements.get? old.id = some old) (hreports : Reports old new event)
    (hfinal : IsTerminal old.status → new.status = old.status) (id : String) :
    (outcomes (s.conclude i new event) id).length =
      if ∃ status, statusOf (s.conclude i new event) id = some status ∧ IsTerminal status then 1 else 0 := by
  have hstatus : statusOf s old.id = some old.status := congrArg (Option.map Settlement.status) hold
  have hcount := hi.outcomes id
  obtain ⟨hid, ⟨rfl, hsame⟩ | ⟨⟨name, rfl, hname⟩, hterminal, hne⟩⟩ := hreports
  · change (SettlementFinality.outcomes s id).length = _
    rw [hcount, statusOf_conclude, hid]
    by_cases h : id = old.id
    · subst h
      rw [if_pos rfl, hstatus]
      congr 1
      simp only [Option.some.injEq, exists_eq_left', eq_iff_iff]
      exact ⟨fun h => by rwa [hfinal h], fun h => by rwa [← hsame h]⟩
    · rw [if_neg h]
  · change (((name, new.id) :: s.emitted).filter _).length = _
    rw [statusOf_conclude, hid, List.filter_cons]
    by_cases h : id = old.id
    · subst h
      have hzero : (SettlementFinality.outcomes s old.id).length = 0 := by
        rw [hcount, if_neg]
        rintro ⟨status, hs, ht⟩
        obtain rfl : old.status = status := Option.some.inj (hstatus.symm.trans hs)
        exact hne (hfinal ht)
      rw [if_pos rfl, if_pos (by simp [hname]), if_pos ⟨_, rfl, hterminal⟩, List.length_cons]
      exact congrArg (· + 1) hzero
    · rw [if_neg h, if_neg (by simp [Ne.symm h])]
      exact hcount

theorem conclude_inv (hi : Inv s) {i : Nat} {old new : Settlement} {event : Option EventName}
    (hold : s.settlements.get? old.id = some old) (hreports : Reports old new event)
    (hfinal : IsTerminal old.status → new.status = old.status)
    (halone : ∀ j, j ≠ i → s.calls[j]? ≠ some (.submitting old.id))
    (htx : .polling old.id ∈ s.calls → new.txId ≠ none) : Inv (s.conclude i new event) := by
  refine ⟨?_, ?_, ?_, ?_, outcomes_conclude hi i hold hreports hfinal⟩
  · intro id settlement h
    rw [get?_conclude] at h
    split_ifs at h with hid
    · obtain rfl : new = settlement := Option.some.inj h
      exact hid.symm
    · exact hi.keyed id settlement h
  · intro id h
    obtain ⟨j, hj⟩ := List.mem_iff_getElem?.mp h
    obtain ⟨hne, hj⟩ := getElem?_conclude hj (by simp)
    have hid : id ≠ new.id := by
      rintro rfl
      rw [hreports.1] at hj
      exact halone j hne hj
    rw [get?_conclude, if_neg hid]
    exact hi.submitting id (List.mem_of_getElem? hj)
  · intro id h
    obtain ⟨j, hj⟩ := List.mem_iff_getElem?.mp h
    obtain ⟨hne, hj⟩ := getElem?_conclude hj (by simp)
    rw [get?_conclude]
    by_cases hid : id = new.id
    · rw [if_pos hid]
      rw [hid, hreports.1] at hj
      exact ⟨new, rfl, htx (List.mem_of_getElem? hj)⟩
    · rw [if_neg hid]
      exact hi.polling id (List.mem_of_getElem? hj)
  · intro j k id hj hk
    exact hi.alone j k id (getElem?_conclude hj (by simp)).2 (getElem?_conclude hk (by simp)).2

theorem add_inv (hi : Inv s) {call : Call} (hsubmitting : ∀ id, call ≠ .submitting id)
    (hpolling : ∀ id, call = .polling id →
      ∃ settlement, s.settlements.get? id = some settlement ∧ settlement.txId ≠ none) : Inv (s.add call) := by
  have hold : ∀ (j : Nat) id, (s.add call).calls[j]? = some (.submitting id) → s.calls[j]? = some (.submitting id) := by
    intro j id h
    change (s.calls ++ [call])[j]? = _ at h
    rw [List.getElem?_append] at h
    split_ifs at h with hj
    · exact h
    · exact absurd (List.mem_singleton.mp (List.mem_of_getElem? h)).symm (hsubmitting id)
  refine ⟨hi.keyed, ?_, ?_, fun j k id hj hk => hi.alone j k id (hold j id hj) (hold k id hk), hi.outcomes⟩
  · intro id h
    obtain ⟨j, hj⟩ := List.mem_iff_getElem?.mp h
    exact hi.submitting id (List.mem_of_getElem? (hold j id hj))
  · intro id h
    rcases List.mem_append.mp h with h | h
    · exact hi.polling id h
    · exact hpolling id (List.mem_singleton.mp h).symm

theorem conclude_kept {i : Nat} {old new : Settlement} {event : Option EventName}
    (hold : s.settlements.get? old.id = some old) (hid : new.id = old.id)
    (hfinal : IsTerminal old.status → new.status = old.status) : Kept s (s.conclude i new event) := by
  intro id status hstatus hterminal
  rw [statusOf_conclude, hid]
  split_ifs with h
  · subst h
    obtain rfl : old.status = status :=
      Option.some.inj ((congrArg (Option.map Settlement.status) hold).symm.trans hstatus)
    exact congrArg some (hfinal hterminal)
  · exact hstatus

theorem submitAnswered_inv (hi : Inv s) {i : Nat} {id : String} {old : Settlement}
    (hcall : s.calls[i]? = some (.submitting id)) (hold : s.settlements.get? id = some old)
    (answer : Except String SubmitResult) (now : String) :
    Inv (submitAnswered s i old answer now) ∧ Kept s (submitAnswered s i old answer now) := by
  obtain rfl := hi.keyed id old hold
  have hmem : .submitting old.id ∈ s.calls := List.mem_of_getElem? hcall
  obtain ⟨_, hget, hpending, htx⟩ := hi.submitting old.id hmem
  obtain rfl := Option.some.inj (hold.symm.trans hget)
  obtain ⟨new, event, h, hreports⟩ := submitAnswered_cases s i old hpending answer now
  have hfinal : IsTerminal old.status → new.status = old.status := by
    rw [hpending]
    rintro (h | h) <;> nomatch h
  rw [h]
  refine ⟨conclude_inv hi hold hreports hfinal ?_ ?_, conclude_kept hold hreports.1 hfinal⟩
  · exact fun j hj hcall' => hj (hi.alone j i old.id hcall' hcall)
  · intro hpolling
    obtain ⟨_, hget', htx'⟩ := hi.polling old.id hpolling
    obtain rfl := Option.some.inj (hold.symm.trans hget')
    exact absurd htx htx'

theorem statusAnswered_inv (hi : Inv s) {i : Nat} {id : String} {old : Settlement}
    (hcall : s.calls[i]? = some (.polling id)) (hold : s.settlements.get? id = some old)
    {answer : Option StatusResult} {now : String} (hok : Agrees s (.statusAnswers i answer now)) :
    Inv (statusAnswered s i old answer now) ∧ Kept s (statusAnswered s i old answer now) := by
  obtain rfl := hi.keyed id old hold
  obtain ⟨_, hget, htx⟩ := hi.polling old.id (List.mem_of_getElem? hcall)
  obtain rfl := Option.some.inj (hold.symm.trans hget)
  obtain ⟨new, event, h, hreports, htx', hsame⟩ := statusAnswered_cases s i old answer now
  have hfinal : IsTerminal old.status → new.status = old.status := fun hterminal =>
    hsame (hok old.id (by rw [polled, hcall]; rfl) old.status (congrArg (Option.map Settlement.status) hold) hterminal)
  rw [h]
  refine ⟨conclude_inv hi hold hreports hfinal ?_ ?_, conclude_kept hold hreports.1 hfinal⟩
  · intro j _ hcall'
    obtain ⟨_, hget', _, hnone⟩ := hi.submitting old.id (List.mem_of_getElem? hcall')
    obtain rfl := Option.some.inj (hold.symm.trans hget')
    exact htx hnone
  · intro _
    rw [htx']
    exact htx

theorem initiate_inv (hi : Inv s) (params : SettlementParams) {id : String} (now : String)
    (hnew : s.settlements.get? id = none) :
    Inv (initiateSettlement s params id now) ∧ Kept s (initiateSettlement s params id now) := by
  unfold initiateSettlement
  cases validateParams params with
  | error e => exact ⟨add_inv hi (by simp) (by simp), fun _ _ h _ => h⟩
  | ok _ =>
      by_cases hadapter : params.targetChain ∉ s.adapters
      · simp only [if_pos hadapter]
        exact ⟨add_inv hi (by simp) (by simp), fun _ _ h _ => h⟩
      · simp only [if_neg hadapter]
        have hne : ∀ {other settlement}, s.settlements.get? other = some settlement → other ≠ id := by
          rintro other settlement h rfl
          cases hnew.symm.trans h
        refine ⟨⟨?_, ?_, ?_, ?_, ?_⟩, ?_⟩
        · intro other settlement h
          rw [OrdMap.get?_set] at h
          split_ifs at h with hid
          · rw [← Option.some.inj h, hid]
          · exact hi.keyed other settlement h
        · intro other h
          rcases List.mem_append.mp h with h | h
          · obtain ⟨settlement, hget, hstatus⟩ := hi.submitting other h
            exact ⟨settlement, by rw [OrdMap.get?_set, if_neg (hne hget), hget], hstatus⟩
          · obtain rfl := Call.submitting.inj (List.mem_singleton.mp h)
            exact ⟨_, by rw [OrdMap.get?_set, if_pos rfl], rfl, rfl⟩
        · intro other h
          rcases List.mem_append.mp h with h | h
          · obtain ⟨settlement, hget, htx⟩ := hi.polling other h
            exact ⟨settlement, by rw [OrdMap.get?_set, if_neg (hne hget), hget], htx⟩
          · cases List.mem_singleton.mp h
        · have hlast : ∀ {j : Nat} {other}, (s.calls ++ [.submitting id])[j]? = some (.submitting other) →
              s.calls[j]? = some (.submitting other) ∨ j = s.calls.length ∧ other = id := by
            intro j other h
            rw [List.getElem?_append] at h
            split_ifs at h with hj
            · exact .inl h
            · obtain ⟨hlt, h⟩ := List.getElem?_eq_some_iff.mp h
              rw [List.length_singleton] at hlt
              exact .inr ⟨by omega, (Call.submitting.inj (List.mem_singleton.mp (h ▸ List.getElem_mem hlt)))⟩
          have hnone : ∀ {j : Nat}, s.calls[j]? ≠ some (.submitting id) := by
            intro j h
            obtain ⟨_, hget, _⟩ := hi.submitting id (List.mem_of_getElem? h)
            exact hne hget rfl
          intro j k other hj hk
          rcases hlast hj with hj | ⟨hj, hid⟩
          · rcases hlast hk with hk | ⟨_, hid⟩
            · exact hi.alone j k other hj hk
            · exact absurd (hid ▸ hj) hnone
          · rcases hlast hk with hk | ⟨hk, _⟩
            · exact absurd (hid ▸ hk) hnone
            · exact hj.trans hk.symm
        · intro other
          refine (hi.outcomes other).trans ?_
          congr 1
          rw [statusOf, statusOf, OrdMap.get?_set]
          by_cases hother : other = id
          · subst hother
            simp [hnew, IsTerminal]
          · rw [if_neg hother]
        · intro other status h _
          obtain ⟨settlement, hget, _⟩ := Option.map_eq_some_iff.mp h
          rw [statusOf, OrdMap.get?_set, if_neg (hne hget)]
          exact h

theorem getSettlementStatus_inv (hi : Inv s) (id : String) :
    Inv (getSettlementStatus s id) ∧ Kept s (getSettlementStatus s id) := by
  unfold getSettlementStatus
  cases hget : s.settlements.get? id with
  | none => exact ⟨add_inv hi nofun nofun, fun _ _ h _ => h⟩
  | some settlement =>
      dsimp only
      split_ifs with _ htx
      · exact ⟨add_inv hi nofun nofun, fun _ _ h _ => h⟩
      · exact ⟨add_inv hi nofun nofun, fun _ _ h _ => h⟩
      · refine ⟨add_inv hi nofun ?_, fun _ _ h _ => h⟩
        rintro other h
        obtain rfl := Call.polling.inj h
        refine ⟨settlement, hget, ?_⟩
        intro hnone
        rw [hnone] at htx
        exact htx rfl
      · exact ⟨add_inv hi nofun nofun, fun _ _ h _ => h⟩

theorem step_submitAnswers {i : Nat} {answer : Except String SubmitResult} {now : String}
    (h : step s (.submitAnswers i answer now) = some t) : ∃ id old, s.calls[i]? = some (.submitting id) ∧
      s.settlements.get? id = some old ∧ submitAnswered s i old answer now = t := by
  simp only [step] at h
  split at h
  · obtain ⟨old, hold, h⟩ := Option.map_eq_some_iff.mp h
    exact ⟨_, old, ‹_›, hold, h⟩
  · cases h

theorem step_statusAnswers {i : Nat} {answer : Option StatusResult} {now : String}
    (h : step s (.statusAnswers i answer now) = some t) : ∃ id old, s.calls[i]? = some (.polling id) ∧
      s.settlements.get? id = some old ∧ statusAnswered s i old answer now = t := by
  simp only [step] at h
  split at h
  · obtain ⟨old, hold, h⟩ := Option.map_eq_some_iff.mp h
    exact ⟨_, old, ‹_›, hold, h⟩
  · cases h

theorem step_inv (s : Service) (event : Event) (t : Service) (hi : Inv s) (hok : Agrees s event)
    (h : step s event = some t) : Inv t ∧ Kept s t := by
  cases event with
  | registerChain chainId =>
      change (registerChain s chainId).toOption = some t at h
      unfold registerChain at h
      split_ifs at h
      · nomatch h
      obtain rfl := Option.some.inj h
      exact ⟨⟨hi.keyed, hi.submitting, hi.polling, hi.alone, hi.outcomes⟩, fun _ _ h _ => h⟩
  | initiate params id now =>
      change (if s.settlements.has id then none else some (initiateSettlement s params id now)) = some t at h
      split_ifs at h with hnew
      obtain rfl := Option.some.inj h
      exact initiate_inv hi params now (Option.not_isSome_iff_eq_none.mp hnew)
  | submitAnswers i answer now =>
      obtain ⟨id, old, hcall, hold, rfl⟩ := step_submitAnswers h
      exact submitAnswered_inv hi hcall hold answer now
  | getStatus id =>
      obtain rfl := Option.some.inj h
      exact getSettlementStatus_inv hi id
  | statusAnswers i answer now =>
      obtain ⟨id, old, hcall, hold, rfl⟩ := step_statusAnswers h
      exact statusAnswered_inv hi hcall hold hok

end Invariant

section Result

theorem inv_start : Inv {} := by
  refine ⟨nofun, nofun, nofun, nofun, ?_⟩
  intro id
  rw [if_neg]
  · rfl
  · rintro ⟨_, h, _⟩
    nomatch h

theorem run_inv {s t : Service} {events : List Event} (hi : Inv s) (hagrees : Allowed step Agrees s events)
    (h : run step s events = some t) : Inv t ∧ Kept s t := by
  refine run_invariant (I := fun t => Inv t ∧ Kept s t) ?_ s t events ⟨hi, fun _ _ h _ => h⟩ hagrees h
  rintro u event v ⟨hu, hkept⟩ hok hstep
  obtain ⟨hv, hkept'⟩ := step_inv u event v hu hok hstep
  exact ⟨hv, fun id status h hterminal => hkept' id status (hkept id status h hterminal) hterminal⟩

/-- A final status stays while every late answer agrees with it, and it is reported once. -/
theorem settlement_final (events more : List Event) (s t : Service) (id : String)
    (hagrees : Allowed step Agrees {} events) (hmore : Allowed step Agrees s more)
    (hs : run step {} events = some s) (ht : run step s more = some t) :
    (∀ status, statusOf s id = some status → IsTerminal status → statusOf t id = some status) ∧
      (outcomes t id).length ≤ 1 := by
  obtain ⟨hinv, _⟩ := run_inv inv_start hagrees hs
  obtain ⟨hinv', hkept⟩ := run_inv hinv hmore ht
  refine ⟨hkept id, ?_⟩
  rw [hinv'.outcomes]
  split_ifs
  · exact Nat.le_refl 1
  · exact Nat.zero_le 1

end Result

section Runs

def toEthereum : SettlementParams := ⟨"stellar", "ethereum", 50000000, "0xABCDEF", "USDC"⟩

/-- Two polls of a submitted settlement wait for the adapter. -/
def twoPolls : List Event :=
  [.registerChain "ethereum", .initiate toEthereum "settle-0001" "t0",
    .submitAnswers 0 (.ok ⟨"tx", .submitted⟩) "t1", .getStatus "settle-0001", .getStatus "settle-0001"]

def firstConfirms : List Event := twoPolls ++ [.statusAnswers 1 (some ⟨.confirmed, none⟩) "t2"]

theorem settlement_final_confirmed : ∃ s t, run step {} firstConfirms = some s ∧
    run step s [.statusAnswers 2 (some ⟨.confirmed, none⟩) "t3"] = some t ∧
    statusOf t "settle-0001" = some .confirmed ∧ (outcomes t "settle-0001").length ≤ 1 := by
  refine ⟨_, _, rfl, rfl, ?_⟩
  obtain ⟨hkept, honce⟩ := settlement_final firstConfirms [.statusAnswers 2 (some ⟨.confirmed, none⟩) "t3"] _ _
    "settle-0001" (by decide) (by decide) rfl rfl
  exact ⟨hkept .confirmed (by decide) (.inl rfl), honce⟩

/-- The adapter confirms the settlement to the first poll and fails it to the second one. -/
theorem confirmed_fails : ∃ s t, run step {} firstConfirms = some s ∧
    run step s [.statusAnswers 2 (some ⟨.failed, none⟩) "t3"] = some t ∧
    statusOf s "settle-0001" = some .confirmed ∧ statusOf t "settle-0001" = some .failed ∧
    outcomes t "settle-0001" = [(.failed, "settle-0001"), (.confirmed, "settle-0001")] :=
  ⟨_, _, rfl, rfl, by decide⟩

end Runs

end SplitSdk.SettlementFinality
