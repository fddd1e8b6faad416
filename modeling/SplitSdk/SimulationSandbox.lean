import SplitSdk.Interleaving

namespace SplitSdk.SimulationSandbox

/-- An argument or a return value, as far as `extractInvoiceId` looks at it. -/
inductive JsValue
  | string (s : String)
  | withInvoiceId (invoiceId : JsValue)
  | other
  deriving DecidableEq

structure SimulationCost where
  cpuInsns : Nat := 0
  memBytes : Nat := 0
  deriving DecidableEq

inductive SimulateTransactionResponse
  | success (instructions readBytes writeBytes : Nat) (events : List String)
  | error (message : String) (events : List String)
  deriving DecidableEq

structure SimulationResult where
  success : Bool
  value : Option JsValue := none
  cost : SimulationCost
  events : List String
  error : Option String := none
  deriving DecidableEq

structure SandboxPaymentRecord where
  step : Nat
  method : String
  args : List JsValue
  deriving DecidableEq

structure SandboxInvoiceRecord where
  invoiceId : String
  createdAtStep : Nat
  createArgs : List JsValue
  payments : List SandboxPaymentRecord := []
  deriving DecidableEq

structure SandboxCallLogEntry where
  step : Nat
  method : String
  args : List JsValue
  success : Bool
  referencedInvoiceId : Option String := none
  deriving DecidableEq

structure SandboxLedgerDiff where
  invoices : List (String × SandboxInvoiceRecord) := []
  callLog : List SandboxCallLogEntry := []
  deriving DecidableEq

def mutatingMethods : List String :=
  ["createInvoice", "pay", "cloneInvoice", "payWithAttestation", "createInvoiceBatch",
    "batchCreateInvoices", "batchPay", "disputeInvoice", "raiseDispute", "resolveDispute",
    "submitArbiterVote", "voteDispute", "addDisputeEvidence", "bulkCancel", "bulkArchive",
    "createGroup", "releaseGroup", "cancelRecurring", "updateRecurringAmount",
    "createFromTemplate", "saveTemplate"]

def extractCost : SimulateTransactionResponse → SimulationCost
  | .success instructions readBytes writeBytes _ => ⟨instructions, readBytes + writeBytes⟩
  | .error _ _ => {}

def eventsOf : SimulateTransactionResponse → List String
  | .success _ _ _ events => events
  | .error _ events => events

def extractInvoiceId : JsValue → Option String
  | .string s => some s
  | .withInvoiceId (.string s) => some s
  | _ => none

/-- The function found under `_submitTx`: the one of the class, another one the client
was given before any sandbox call, or the one of a sandbox proxy. -/
inductive SubmitTx
  | prototype
  | replaced
  | sandbox (proxy : Nat)
  deriving DecidableEq

structure Sandbox where
  diff : SandboxLedgerDiff := {}
  step : Nat := 0
  lastSim : Option SimulateTransactionResponse := none
  deriving DecidableEq

/-- A call of a mutating method through a proxy; without a result it has not settled. -/
structure Call where
  proxy : Nat
  method : String
  args : List JsValue
  step : Nat
  hadOwnSubmitTx : Bool
  savedSubmitTx : SubmitTx
  result : Option SimulationResult := none
  deriving DecidableEq

/-- A call of `this._submitTx` from inside a sandboxed call. -/
structure Submission where
  call : Nat
  submitTx : SubmitTx
  answered : Bool := false
  deriving DecidableEq

structure State where
  ownSubmitTx : Option SubmitTx
  sandboxes : List Sandbox
  proxies : List Nat
  calls : List Call := []
  submissions : List Submission := []
  deriving DecidableEq

/-- `client._submitTx`: an own property hides the method of the class. -/
def State.submitTx (s : State) : SubmitTx := s.ownSubmitTx.getD .prototype

inductive Outcome
  | returned (value : JsValue)
  | threw (message : String)
  deriving DecidableEq

def recordInvoice (invoices : List (String × SandboxInvoiceRecord)) (r : SandboxInvoiceRecord) :
    List (String × SandboxInvoiceRecord) :=
  if invoices.any (fun entry => entry.1 = r.invoiceId) then
    invoices.map (fun entry => if entry.1 = r.invoiceId then (r.invoiceId, r) else entry)
  else invoices ++ [(r.invoiceId, r)]

def recordPayment (invoices : List (String × SandboxInvoiceRecord)) (invoiceId : String)
    (p : SandboxPaymentRecord) : List (String × SandboxInvoiceRecord) :=
  invoices.map (fun entry =>
    if entry.1 = invoiceId then (entry.1, { entry.2 with payments := entry.2.payments ++ [p] })
    else entry)

/-- An empty `invoiceId` counts as none. -/
def nonEmpty (invoiceId : Option String) : Option String := invoiceId.filter (· ≠ "")

def record (diff : SandboxLedgerDiff) (step : Nat) (method : String) (args : List JsValue) :
    Outcome → SandboxLedgerDiff
  | .returned value =>
      if method = "createInvoice" then
        match nonEmpty (extractInvoiceId value) with
        | some id =>
            ⟨recordInvoice diff.invoices ⟨id, step, args, []⟩,
              diff.callLog ++ [⟨step, method, args, true, some id⟩]⟩
        | none => { diff with callLog := diff.callLog ++ [⟨step, method, args, true, none⟩] }
      else if method = "pay" ∨ method = "payWithAttestation" then
        match nonEmpty (extractInvoiceId (args.headD .other)) with
        | some id =>
            ⟨recordPayment diff.invoices id ⟨step, method, args⟩,
              diff.callLog ++ [⟨step, method, args, true, some id⟩]⟩
        | none => { diff with callLog := diff.callLog ++ [⟨step, method, args, true, none⟩] }
      else { diff with callLog := diff.callLog ++ [⟨step, method, args, true, none⟩] }
  | .threw _ => { diff with callLog := diff.callLog ++ [⟨step, method, args, false, none⟩] }

def simulationResult (sim : Option SimulateTransactionResponse) : Outcome → SimulationResult
  | .returned value => ⟨true, some value, (sim.map extractCost).getD {}, (sim.map eventsOf).getD [], none⟩
  | .threw message => ⟨false, none, (sim.map extractCost).getD {}, (sim.map eventsOf).getD [], some message⟩

/-- `runIntercepted` up to the call of the original method. -/
def start (s : State) (proxy sandbox : Nat) (box : Sandbox) (method : String)
    (args : List JsValue) : State :=
  { s with
    ownSubmitTx := some (.sandbox proxy)
    sandboxes := s.sandboxes.set sandbox { box with lastSim := none, step := box.step + 1 }
    calls := s.calls ++ [⟨proxy, method, args, box.step + 1, s.ownSubmitTx.isSome, s.submitTx, none⟩] }

/-- What the `finally` block makes of the client's own property. -/
def Call.restored (call : Call) : Option SubmitTx :=
  if call.hadOwnSubmitTx then some call.savedSubmitTx else none

/-- `runIntercepted` from the end of the original method on. -/
def settle (s : State) (c sandbox : Nat) (call : Call) (box : Sandbox) (outcome : Outcome) : State :=
  { s with
    ownSubmitTx := call.restored
    sandboxes := s.sandboxes.set sandbox
      { box with diff := record box.diff call.step call.method call.args outcome }
    calls := s.calls.set c { call with result := some (simulationResult box.lastSim outcome) } }

inductive Action
  | fork
  | attach (sandbox : Nat)
  | reset (sandbox : Nat)
  | call (proxy : Nat) (method : String) (args : List JsValue)
  | submit (c : Nat)
  | simulated (k : Nat) (sim : SimulateTransactionResponse)
  | settle (c : Nat) (outcome : Outcome)
  deriving DecidableEq

/-- The sandbox behind a proxy. -/
def sandboxOf (s : State) (proxy : Nat) : Option (Nat × Sandbox) :=
  (s.proxies[proxy]?).bind (fun i => (s.sandboxes[i]?).map (fun box => (i, box)))

/-- When and with what a method calls `_submitTx` and how it ends is left to the
schedule: it may do so after any of its awaits, several times, or not at all. -/
def step (s : State) : Action → Option State
  | .fork => some { s with
      sandboxes := s.sandboxes ++ [{}]
      proxies := s.proxies ++ [s.sandboxes.length] }
  | .attach sandbox => some { s with proxies := s.proxies ++ [sandbox] }
  | .reset sandbox => some { s with
      sandboxes := s.sandboxes.modify sandbox (fun box => { box with diff := {}, step := 0 }) }
  | .call proxy method args =>
      if method ∈ mutatingMethods then
        (sandboxOf s proxy).map (fun (sandbox, box) => start s proxy sandbox box method args)
      else none
  | .submit c =>
      (s.calls[c]?).bind (fun call =>
        if call.result = none then
          some { s with submissions := s.submissions ++ [⟨c, s.submitTx, false⟩] }
        else none)
  | .simulated k sim =>
      (s.submissions[k]?).bind (fun submission =>
        match submission with
        | ⟨_, .sandbox proxy, false⟩ =>
            (sandboxOf s proxy).map (fun (sandbox, box) => { s with
              sandboxes := s.sandboxes.set sandbox { box with lastSim := some sim }
              submissions := s.submissions.set k { submission with answered := true } })
        | _ => none)
  | .settle c outcome =>
      (s.calls[c]?).bind (fun call =>
        if call.result = none then
          (sandboxOf s call.proxy).map (fun (sandbox, box) => settle s c sandbox call box outcome)
        else none)

end SplitSdk.SimulationSandbox

namespace SplitSdk.SandboxOverlap

open Interleaving SimulationSandbox

/-- The call found no other sandboxed call in place when it started. -/
def FoundOriginal (call : Call) : Prop := ∀ proxy, call.savedSubmitTx ≠ .sandbox proxy

/-- Call `i` has not settled. -/
def InFlight (s : State) (i : Nat) (call : Call) : Prop :=
  s.calls[i]? = some call ∧ call.result = none

/-- A call that found the original `_submitTx` settles after all others in flight. -/
def OutermostLast (s : State) : Action → Prop
  | .settle c _ => ∀ call, InFlight s c call → FoundOriginal call →
      ∀ i other, InFlight s i other → i = c
  | _ => True

/-- Between calls the client is as it was; during calls it holds the function of a
sandbox, and one of the calls will put back what there was. -/
structure Inv (own : Option SubmitTx) (s : State) : Prop where
  simulated : ∀ sub ∈ s.submissions, ∃ proxy, sub.submitTx = .sandbox proxy
  idle : (∀ i call, ¬InFlight s i call) → s.ownSubmitTx = own
  busy : ∀ i call, InFlight s i call → ∃ proxy, s.ownSubmitTx = some (.sandbox proxy)
  outermost : ∀ i call, InFlight s i call → ∃ j first, InFlight s j first ∧ FoundOriginal first
  restores : ∀ i call, InFlight s i call → FoundOriginal call → call.restored = own
  nested : ∀ i call, InFlight s i call → ¬FoundOriginal call →
    ∃ proxy, call.restored = some (.sandbox proxy)

def initial (own : Option SubmitTx) (sandboxes : List Sandbox) (proxies : List Nat) : State :=
  ⟨own, sandboxes, proxies, [], []⟩

theorem initial_inv (own : Option SubmitTx) (sandboxes : List Sandbox) (proxies : List Nat) :
    Inv own (initial own sandboxes proxies) := by
  have hnone : ∀ i call, ¬InFlight (initial own sandboxes proxies) i call := by
    intro i call h
    cases h.1
  refine ⟨?_, fun _ => rfl, ?_, ?_, ?_, ?_⟩
  · intro sub h
    cases h
  all_goals
    intro i call h
    exact absurd h (hnone i call)

section Step

variable {own : Option SubmitTx} {s : State}

theorem Inv.of_same (hi : Inv own s) {t : State} (hown : t.ownSubmitTx = s.ownSubmitTx)
    (hcalls : t.calls = s.calls)
    (hsub : ∀ sub ∈ t.submissions, ∃ proxy, sub.submitTx = .sandbox proxy) : Inv own t := by
  have hflight : ∀ i call, InFlight t i call ↔ InFlight s i call := by
    intro i call
    rw [InFlight, hcalls, InFlight]
  refine ⟨hsub, ?_, ?_, ?_, ?_, ?_⟩
  · intro h
    rw [hown]
    exact hi.idle (fun i call hf => h i call ((hflight i call).mpr hf))
  · intro i call h
    rw [hown]
    exact hi.busy i call ((hflight i call).mp h)
  · intro i call h
    obtain ⟨j, first, hf, ho⟩ := hi.outermost i call ((hflight i call).mp h)
    exact ⟨j, first, (hflight j first).mpr hf, ho⟩
  · intro i call h
    exact hi.restores i call ((hflight i call).mp h)
  · intro i call h
    exact hi.nested i call ((hflight i call).mp h)

theorem inFlight_append {c call : Call} {i : Nat} {t : State} (ht : t.calls = s.calls ++ [c]) :
    InFlight t i call ↔
      InFlight s i call ∨ (i = s.calls.length ∧ call = c ∧ c.result = none) := by
  rw [InFlight, ht, List.getElem?_append]
  by_cases hlt : i < s.calls.length
  · rw [if_pos hlt]
    exact ⟨.inl, fun h => h.resolve_right (fun he => absurd he.1 (Nat.ne_of_lt hlt))⟩
  · rw [if_neg hlt]
    have hs : ¬InFlight s i call := fun h => hlt (List.getElem?_eq_some_iff.mp h.1).1
    rw [List.getElem?_singleton]
    by_cases he : i - s.calls.length = 0
    · rw [if_pos he]
      constructor
      · rintro ⟨hc, hr⟩
        cases hc
        exact .inr ⟨by omega, rfl, hr⟩
      · rintro (h | ⟨_, rfl, hr⟩)
        · exact absurd h hs
        · exact ⟨rfl, hr⟩
    · rw [if_neg he]
      constructor
      · rintro ⟨⟨⟩, _⟩
      · rintro (h | ⟨hl, _⟩)
        · exact absurd h hs
        · omega

theorem inFlight_set {c i : Nat} {settled call : Call} {t : State}
    (ht : t.calls = s.calls.set c settled) (hr : settled.result ≠ none) :
    InFlight t i call ↔ InFlight s i call ∧ i ≠ c := by
  rw [InFlight, ht, List.getElem?_set]
  split
  · next he =>
    subst he
    constructor
    · rintro ⟨h, hn⟩
      split at h
      · cases h; exact absurd hn hr
      · cases h
    · rintro ⟨_, hne⟩
      exact absurd rfl hne
  · next hne => exact ⟨fun h => ⟨h, fun he => hne he.symm⟩, fun h => h.1⟩

theorem restored_of_saved (s : State) (proxy step : Nat) (method : String) (args : List JsValue) :
    (⟨proxy, method, args, step, s.ownSubmitTx.isSome, s.submitTx, none⟩ : Call).restored =
      s.ownSubmitTx := by
  cases h : s.ownSubmitTx <;> simp [Call.restored, State.submitTx, h]

/-- A new call takes over; it is the outermost one exactly when it is the only one. -/
theorem start_inv (hown : ∀ proxy, own ≠ some (.sandbox proxy)) (hi : Inv own s)
    (proxy sandbox : Nat) (box : Sandbox) (method : String) (args : List JsValue) :
    Inv own (start s proxy sandbox box method args) := by
  have hsaved := restored_of_saved s proxy (box.step + 1) method args
  generalize hfresh : (⟨proxy, method, args, box.step + 1, s.ownSubmitTx.isSome, s.submitTx, none⟩ : Call)
    = fresh at hsaved
  have hnone : fresh.result = none := hfresh ▸ rfl
  have hflight (i : Nat) (call : Call) : InFlight (start s proxy sandbox box method args) i call ↔
      InFlight s i call ∨ (i = s.calls.length ∧ call = fresh ∧ fresh.result = none) :=
    inFlight_append (by rw [start, hfresh])
  have hnew := (hflight s.calls.length fresh).mpr (.inr ⟨rfl, rfl, hnone⟩)
  have hfound : FoundOriginal fresh ↔ ∀ proxy, s.ownSubmitTx ≠ some (.sandbox proxy) := by
    rw [← hfresh]
    cases h : s.ownSubmitTx <;> simp [FoundOriginal, State.submitTx, h]
  have hidle : FoundOriginal fresh → s.ownSubmitTx = own := by
    intro hf
    apply hi.idle
    intro i call h
    obtain ⟨q, hq⟩ := hi.busy i call h
    exact hfound.mp hf q hq
  refine ⟨hi.simulated, fun h => absurd hnew (h _ _), fun i call h => ⟨proxy, rfl⟩, ?_, ?_, ?_⟩
  · intro i call _
    by_cases hf : FoundOriginal fresh
    · exact ⟨_, fresh, hnew, hf⟩
    · have hbusy : ∃ j other, InFlight s j other := by
        by_contra hempty
        apply hf
        rw [hfound, hi.idle (fun j other h => hempty ⟨j, other, h⟩)]
        exact hown
      obtain ⟨j, other, h⟩ := hbusy
      obtain ⟨k, first, hfirst, ho⟩ := hi.outermost j other h
      exact ⟨k, first, (hflight k first).mpr (.inl hfirst), ho⟩
  · intro i call h ho
    rcases (hflight i call).mp h with h | ⟨_, rfl, _⟩
    · exact hi.restores i call h ho
    · exact hsaved.trans (hidle ho)
  · intro i call h ho
    rcases (hflight i call).mp h with h | ⟨_, rfl, _⟩
    · exact hi.nested i call h ho
    · rw [hfound, not_forall] at ho
      obtain ⟨q, hq⟩ := ho
      exact ⟨q, hsaved.trans (not_not.mp hq)⟩

theorem settle_inv (hi : Inv own s) {c : Nat} {call : Call} (h : InFlight s c call)
    (hlast : FoundOriginal call → ∀ i other, InFlight s i other → i = c)
    (sandbox : Nat) (box : Sandbox) (outcome : Outcome) :
    Inv own (settle s c sandbox call box outcome) := by
  have hflight (i : Nat) (other : Call) :
      InFlight (settle s c sandbox call box outcome) i other ↔ InFlight s i other ∧ i ≠ c :=
    inFlight_set rfl (Option.some_ne_none _)
  by_cases hf : FoundOriginal call
  · have hempty : ∀ i other, ¬InFlight (settle s c sandbox call box outcome) i other := by
      intro i other ho
      obtain ⟨ho, hne⟩ := (hflight i other).mp ho
      exact hne (hlast hf i other ho)
    refine ⟨hi.simulated, fun _ => hi.restores c call h hf, ?_, ?_, ?_, ?_⟩
    all_goals
      intro i other ho
      exact absurd ho (hempty i other)
  · obtain ⟨k, first, hfirst, ho⟩ := hi.outermost c call h
    have hne : k ≠ c := by
      rintro rfl
      obtain rfl : first = call := Option.some.inj (hfirst.1.symm.trans h.1)
      exact hf ho
    have hkeep := (hflight k first).mpr ⟨hfirst, hne⟩
    refine ⟨hi.simulated, fun hidle => absurd hkeep (hidle k first),
      fun _ _ _ => hi.nested c call h hf, fun _ _ _ => ⟨k, first, hkeep, ho⟩, ?_, ?_⟩
    · intro i other hother
      exact hi.restores i other ((hflight i other).mp hother).1
    · intro i other hother
      exact hi.nested i other ((hflight i other).mp hother).1

end Step

theorem step_inv {own : Option SubmitTx} (hown : ∀ proxy, own ≠ some (.sandbox proxy))
    (s : State) (action : Action) (t : State) (hi : Inv own s) (hlast : OutermostLast s action)
    (hstep : step s action = some t) : Inv own t := by
  cases action with
  | fork | attach | reset => cases hstep; exact hi.of_same rfl rfl hi.simulated
  | call proxy method args =>
      rw [step] at hstep
      split at hstep
      · obtain ⟨⟨sandbox, box⟩, _, rfl⟩ := Option.map_eq_some_iff.mp hstep
        exact start_inv hown hi proxy sandbox box method args
      · cases hstep
  | submit c =>
      obtain ⟨call, hc, ht⟩ := Option.bind_eq_some_iff.mp hstep
      split at ht
      · next hr =>
        cases ht
        -- a call in flight finds the function of a sandbox
        obtain ⟨proxy, hp⟩ := hi.busy c call ⟨hc, hr⟩
        refine hi.of_same rfl rfl ?_
        intro sub hsub
        rcases List.mem_append.mp hsub with hsub | hsub
        · exact hi.simulated sub hsub
        · obtain rfl := List.mem_singleton.mp hsub
          exact ⟨proxy, by rw [State.submitTx, hp, Option.getD_some]⟩
      · cases ht
  | simulated k sim =>
      obtain ⟨sub, hk, ht⟩ := Option.bind_eq_some_iff.mp hstep
      split at ht
      · next c proxy =>
        obtain ⟨⟨sandbox, box⟩, _, he⟩ := Option.map_eq_some_iff.mp ht
        cases he
        refine hi.of_same rfl rfl ?_
        exact forall_mem_set hi.simulated ⟨proxy, rfl⟩
      · cases ht
  | settle c outcome =>
      obtain ⟨call, hc, ht⟩ := Option.bind_eq_some_iff.mp hstep
      split at ht
      · next hr =>
        obtain ⟨⟨sandbox, box⟩, _, rfl⟩ := Option.map_eq_some_iff.mp ht
        exact settle_inv hi ⟨hc, hr⟩ (hlast call ⟨hc, hr⟩) sandbox box outcome
      · cases ht

/-- No sandboxed call reaches the original `_submitTx`, and once all calls have settled
the client is as it was, in every run in which the outermost of the overlapping calls
settles last. -/
theorem sandbox_never_broadcasts (own : Option SubmitTx) (sandboxes : List Sandbox)
    (proxies : List Nat) (actions : List Action) (s : State)
    (hown : ∀ proxy, own ≠ some (.sandbox proxy))
    (hlast : Allowed step OutermostLast (initial own sandboxes proxies) actions)
    (hrun : run step (initial own sandboxes proxies) actions = some s) :
    (∀ sub ∈ s.submissions, sub.submitTx ≠ (initial own sandboxes proxies).submitTx) ∧
      ((∀ call ∈ s.calls, call.result ≠ none) → s.ownSubmitTx = own) := by
  have hi := run_invariant (step_inv hown) _ s actions (initial_inv own sandboxes proxies) hlast hrun
  refine ⟨?_, ?_⟩
  · intro sub hsub heq
    obtain ⟨proxy, hp⟩ := hi.simulated sub hsub
    rw [hp] at heq
    cases own with
    | none => cases heq
    | some f => exact hown proxy (congrArg some heq.symm)
  · intro hsettled
    apply hi.idle
    intro i call h
    exact hsettled call (List.mem_of_getElem? h.1) h.2

def onePay : List Action :=
  [.fork, .call 0 "pay" [.withInvoiceId (.string "7")], .submit 0, .simulated 0 (.success 5 1 2 []),
    .settle 0 (.returned .other)]

theorem sandbox_never_broadcasts_single :
    ∃ s, run step (initial none [] []) onePay = some s ∧
      (∀ sub ∈ s.submissions, sub.submitTx ≠ .prototype) ∧
      ((∀ call ∈ s.calls, call.result ≠ none) → s.ownSubmitTx = none) := by
  refine ⟨_, rfl, sandbox_never_broadcasts none [] [] onePay _ (fun _ => nofun) ?_ rfl⟩
  refine ⟨trivial, ?_⟩
  rintro _ ⟨⟩
  refine ⟨trivial, ?_⟩
  rintro _ ⟨⟩
  refine ⟨trivial, ?_⟩
  rintro _ ⟨⟩
  refine ⟨trivial, ?_⟩
  rintro _ ⟨⟩
  refine ⟨?_, fun _ _ => trivial⟩
  intro call _ _ i other ho
  exact Nat.lt_one_iff.mp (List.getElem?_eq_some_iff.mp ho.1).1

/-- The first call settles while the second is still simulating, and takes the
sandbox away from it; then the second leaves the sandbox of the first behind. -/
def overlappingPays : List Action :=
  [.fork, .call 0 "pay" [.withInvoiceId (.string "7")], .call 0 "pay" [.withInvoiceId (.string "7")],
    .submit 0, .simulated 0 (.success 5 1 2 []), .settle 0 (.returned .other), .submit 1,
    .settle 1 (.returned .other)]

theorem overlappingPays_broadcasts :
    ∃ s, run step (initial none [] []) overlappingPays = some s ∧
      (∃ sub ∈ s.submissions, sub.submitTx = (initial none [] []).submitTx) ∧
      (∀ call ∈ s.calls, call.result ≠ none) ∧ s.submitTx = .sandbox 0 := by
  refine ⟨_, rfl, ⟨⟨1, .prototype, false⟩, ?_, rfl⟩, ?_, rfl⟩
  · decide
  · decide

/-- Settling the outermost call early leaves another call with the original `_submitTx`. -/
theorem settle_early_exposes {own : Option SubmitTx} {s t : State} (hi : Inv own s)
    {c : Nat} {outcome : Outcome} (hearly : ¬OutermostLast s (.settle c outcome))
    (hstep : step s (.settle c outcome) = some t) :
    t.ownSubmitTx = own ∧ ∃ i call, InFlight t i call := by
  simp only [OutermostLast, not_forall] at hearly
  obtain ⟨call, h, hf, i, other, ho, hne⟩ := hearly
  obtain ⟨call', hc, ht⟩ := Option.bind_eq_some_iff.mp hstep
  obtain rfl : call' = call := Option.some.inj (hc.symm.trans h.1)
  rw [if_pos h.2] at ht
  obtain ⟨⟨sandbox, box⟩, _, rfl⟩ := Option.map_eq_some_iff.mp ht
  exact ⟨hi.restores c call' h hf, i, other,
    (inFlight_set rfl (Option.some_ne_none _)).mpr ⟨ho, hne⟩⟩

end SplitSdk.SandboxOverlap
