import SplitSdk.Interleaving
import SplitSdk.SmoothRoundRobin
import Mathlib.Algebra.BigOperators.Group.List.Basic
import Mathlib.Algebra.Order.Field.Rat
import Mathlib.Data.Fintype.Pi

namespace SplitSdk.RpcLoadBalancer

open Interleaving SmoothRoundRobin

section Model

structure EndpointConfig where
  url : String
  weight : Option ℚ := none
  maxLatencyMs : Option ℚ := none

inductive Status
  | healthy
  | quarantined
  deriving DecidableEq

structure EndpointRecord (Server : Type) where
  url : String
  server : Server
  weight : ℚ
  maxLatencyMs : ℚ
  totalCalls : Nat
  errorCount : Nat
  observedLatencyMs : ℚ
  score : ℚ
  currentWeight : ℚ
  status : Status

variable {Server : Type} {k : Nat}

abbrev Endpoints (Server : Type) (k : Nat) : Type := Fin k → EndpointRecord Server

def EndpointRecord.rescore (endpoint : EndpointRecord Server) : EndpointRecord Server :=
  let errorRate : ℚ := if endpoint.totalCalls = 0 then 0 else endpoint.errorCount / endpoint.totalCalls
  let latencyRatio := endpoint.maxLatencyMs / max endpoint.observedLatencyMs 1
  { endpoint with score := endpoint.weight * (1 / (errorRate + 1 / 100)) * latencyRatio }

def recomputeScores (endpoints : Endpoints Server k) : Endpoints Server k := fun i => (endpoints i).rescore

/-- The server of an endpoint is made by the factory, which is told whether `http://` is allowed. -/
def record (factory : String → Bool → Server) (config : EndpointConfig) : EndpointRecord Server :=
  let maxLatencyMs := config.maxLatencyMs.getD 1000
  { url := config.url
    server := factory config.url ("http://".toList.isPrefixOf config.url.toList)
    weight := config.weight.getD 1
    maxLatencyMs := maxLatencyMs
    totalCalls := 0
    errorCount := 0
    observedLatencyMs := maxLatencyMs
    score := 0
    currentWeight := 0
    status := .healthy }

def construct (factory : String → Bool → Server) (configs : List EndpointConfig) : Except String (Endpoints Server configs.length) :=
  if configs = [] then .error "RpcLoadBalancer requires at least one endpoint."
  else .ok (recomputeScores (fun i => record factory (configs.get i)))

/-- `reduce((a, b) => (b.f > a.f ? b : a))`, where an empty list would throw. -/
def best (f : Fin k → ℚ) : List (Fin k) → Option (Fin k)
  | [] => none
  | first :: rest => some (rest.foldl (fun a b => if f b > f a then b else a) first)

def healthy (endpoints : Endpoints Server k) : List (Fin k) :=
  (List.finRange k).filter (fun i => (endpoints i).status = .healthy)

/-- The place of the endpoint whose URL and server are returned, and the endpoints afterwards. -/
def selectEndpoint (endpoints : Endpoints Server k) : Option (Fin k × Endpoints Server k) :=
  let healthy := healthy endpoints
  if healthy = [] then (best (fun i => (endpoints i).score) (List.finRange k)).map (fun i => (i, endpoints))
  else
    let totalWeight := (healthy.map (fun i => (endpoints i).score)).sum
    let raised : Endpoints Server k := fun i =>
      if i ∈ healthy then { endpoints i with currentWeight := (endpoints i).currentWeight + (endpoints i).score } else endpoints i
    (best (fun i => (raised i).currentWeight) healthy).map (fun selected =>
      (selected, fun i => if i = selected then { raised i with currentWeight := (raised i).currentWeight - totalWeight } else raised i))

/-- What happens while no result is recorded: selections, and the timer that computes the scores again. -/
inductive Action
  | select
  | rescore
  deriving DecidableEq

/-- The endpoints, and the places that were selected, the last one first. -/
structure Balancer (Server : Type) (k : Nat) where
  endpoints : Endpoints Server k
  selections : List (Fin k)

def step (balancer : Balancer Server k) : Action → Option (Balancer Server k)
  | .rescore => some { balancer with endpoints := recomputeScores balancer.endpoints }
  | .select => (selectEndpoint balancer.endpoints).map (fun selection => ⟨selection.2, selection.1 :: balancer.selections⟩)

end Model

section Selection

variable {Server : Type} {k : Nat} {endpoints : Endpoints Server k}

theorem le_foldl_best (f : Fin k → ℚ) (rest : List (Fin k)) (first : Fin k) :
    ∀ i ∈ first :: rest, f i ≤ f (rest.foldl (fun a b => if f b > f a then b else a) first) := by
  induction rest generalizing first with
  | nil => simp
  | cons next rest ih =>
      intro i hi
      rw [List.foldl_cons]
      split_ifs with hgt
      · rcases List.mem_cons.mp hi with rfl | hi
        · exact hgt.le.trans (ih next next List.mem_cons_self)
        · exact ih next i hi
      · rcases List.mem_cons.mp hi with rfl | hi
        · exact ih _ _ List.mem_cons_self
        · rcases List.mem_cons.mp hi with rfl | hi
          · exact (not_lt.mp hgt).trans (ih first first List.mem_cons_self)
          · exact ih first i (List.mem_cons_of_mem first hi)

/-- Nothing in the list is larger than what is the best of it. -/
theorem best_spec {f : Fin k → ℚ} {xs : List (Fin k)} (hne : xs ≠ []) : ∃ pick, best f xs = some pick ∧ ∀ i ∈ xs, f i ≤ f pick := by
  cases xs with
  | nil => exact absurd rfl hne
  | cons first rest => exact ⟨_, rfl, le_foldl_best f rest first⟩

def scores (endpoints : Endpoints Server k) : Fin k → ℚ := fun i => (endpoints i).score

def weights (endpoints : Endpoints Server k) : Fin k → ℚ := fun i => (endpoints i).currentWeight

theorem healthy_eq (hhealthy : ∀ i, (endpoints i).status = .healthy) : healthy endpoints = List.finRange k :=
  List.filter_eq_self.mpr (fun i _ => decide_eq_true (hhealthy i))

/-- The endpoints after everyone was given their score and who is picked has paid. -/
def charge (endpoints : Endpoints Server k) (pick : Fin k) : Endpoints Server k := fun i =>
  { endpoints i with currentWeight := advance (scores endpoints) (weights endpoints) pick i }

/-- Among healthy endpoints the one with the largest weight is selected, and only the weights change. -/
theorem select_healthy (hk : 0 < k) (hhealthy : ∀ i, (endpoints i).status = .healthy) :
    ∃ pick, (∀ i, weights endpoints i + scores endpoints i ≤ weights endpoints pick + scores endpoints pick) ∧
      selectEndpoint endpoints = some (pick, charge endpoints pick) := by
  have hne : List.finRange k ≠ [] := List.ne_nil_of_mem (List.mem_finRange ⟨0, hk⟩)
  obtain ⟨pick, hpick, hlargest⟩ := best_spec (f := fun i => weights endpoints i + scores endpoints i) hne
  refine ⟨pick, fun i => hlargest i (List.mem_finRange i), ?_⟩
  have hsum : ((List.finRange k).map (scores endpoints)).sum = total (scores endpoints) := (Fin.sum_univ_def _).symm
  unfold selectEndpoint
  simp only [healthy_eq hhealthy, if_neg hne, List.mem_finRange, if_true]
  unfold weights scores at hpick
  rw [hpick, Option.map_some]
  unfold scores at hsum
  rw [hsum]
  refine congrArg some (Prod.ext rfl (funext fun i => ?_))
  dsimp only
  unfold charge advance
  split_ifs
  · rfl
  · rw [sub_zero]
    rfl

end Selection

section Fairness

variable {Server : Type} {k : Nat} {share : Fin k → ℚ} {balancer after : Balancer Server k}

/-- All endpoints are healthy, their scores are the shares, and the selections so far took the largest weights. -/
structure Fair (share : Fin k → ℚ) (balancer : Balancer Server k) : Prop where
  healthy : ∀ i, (balancer.endpoints i).status = .healthy
  settled : ∀ i, (balancer.endpoints i).rescore = balancer.endpoints i
  scores : scores balancer.endpoints = share
  turns : Run share balancer.selections (weights balancer.endpoints)

theorem Fair.rescore (h : Fair share balancer) : recomputeScores balancer.endpoints = balancer.endpoints := funext h.settled

theorem Fair.after_action (hk : 0 < k) (h : Fair share balancer) (action : Action) :
    ∃ after, step balancer action = some after ∧ Fair share after ∧
      after.selections.length = balancer.selections.length + [action].count .select := by
  cases action with
  | rescore => exact ⟨balancer, by rw [step, h.rescore], h, rfl⟩
  | select =>
      obtain ⟨pick, hlargest, hselect⟩ := select_healthy hk h.healthy
      have hscores := h.scores
      subst hscores
      refine ⟨⟨charge balancer.endpoints pick, pick :: balancer.selections⟩, ?_,
        ⟨h.healthy, fun i => ?_, rfl, .pick h.turns pick hlargest⟩, rfl⟩
      · rw [step, hselect]
        rfl
      · exact congrArg (fun e : EndpointRecord Server => { e with currentWeight := (charge balancer.endpoints pick i).currentWeight })
          (h.settled i)

theorem Fair.after_actions (hk : 0 < k) (h : Fair share balancer) (actions : List Action) :
    ∃ after, run step balancer actions = some after ∧ Fair share after ∧
      after.selections.length = balancer.selections.length + actions.count .select := by
  induction actions generalizing balancer with
  | nil => exact ⟨balancer, rfl, h, rfl⟩
  | cons action actions ih =>
      obtain ⟨next, hstep, hnext, hlength⟩ := h.after_action hk action
      obtain ⟨after, hrun, hafter, hlength'⟩ := ih hnext
      refine ⟨after, run_step hstep hrun, hafter, ?_⟩
      rw [hlength', hlength, List.count_singleton, List.count_cons]
      omega

/-- A positive weight and a positive latency budget make a positive score. -/
theorem score_pos {endpoint : EndpointRecord Server} (hweight : 0 < endpoint.weight) (hlatency : 0 < endpoint.maxLatencyMs) :
    0 < endpoint.rescore.score := by
  have hrate : (0 : ℚ) ≤ if endpoint.totalCalls = 0 then 0 else endpoint.errorCount / endpoint.totalCalls := by
    split_ifs
    · exact le_refl 0
    · positivity
  unfold EndpointRecord.rescore
  positivity

theorem fair_construct {factory : String → Bool → Server} {configs : List EndpointConfig} {endpoints : Endpoints Server configs.length}
    (h : construct factory configs = .ok endpoints) : 0 < configs.length ∧ Fair (scores endpoints) ⟨endpoints, []⟩ := by
  unfold construct at h
  split_ifs at h with hne
  cases h
  refine ⟨List.length_pos_iff.mpr hne, ⟨fun _ => rfl, fun _ => rfl, rfl, ?_⟩⟩
  have hweights : weights (recomputeScores (fun i => record factory (configs.get i))) = 0 := rfl
  rw [hweights]
  exact .start

/-- Every endpoint is selected in proportion to its score, up to the number of the others. -/
theorem selections_fair {factory : String → Bool → Server} {configs : List EndpointConfig} {endpoints : Endpoints Server configs.length}
    (h : construct factory configs = .ok endpoints) (hpos : ∀ i, 0 < scores endpoints i) (actions : List Action) :
    ∃ after, run step ⟨endpoints, []⟩ actions = some after ∧ after.selections.length = actions.count .select ∧ ∀ i,
      actions.count .select * scores endpoints i / (∑ j, scores endpoints j) - (configs.length - 1) ≤ after.selections.count i ∧
        (after.selections.count i : ℚ) < actions.count .select * scores endpoints i / (∑ j, scores endpoints j) + 1 := by
  obtain ⟨hk, hfair⟩ := fair_construct h
  obtain ⟨after, hrun, hafter, hlength⟩ := hfair.after_actions hk actions
  rw [List.length_nil, Nat.zero_add] at hlength
  refine ⟨after, hrun, hlength, fun i => ?_⟩
  have hbounds := hafter.turns.bounds hpos i
  rwa [hlength, Fintype.card_fin] at hbounds

def twoConfigs : List EndpointConfig := [⟨"https://a", some 2, none⟩, ⟨"https://b", none, none⟩]

def twoEndpoints : Endpoints Unit 2 := recomputeScores (fun i => record (fun _ _ => ()) (twoConfigs.get i))

theorem twoEndpoints_pos (i : Fin 2) : 0 < scores twoEndpoints i := by
  match i with
  | 0 => exact score_pos (by decide) (by decide)
  | 1 => exact score_pos (by decide) (by decide)

theorem selections_fair_two : ∃ after, run step ⟨twoEndpoints, []⟩ [.select, .rescore, .select, .select] = some after ∧
    after.selections.length = 3 ∧ ∀ i, (3 : Nat) * scores twoEndpoints i / (∑ j, scores twoEndpoints j) - ((2 : Nat) - 1) ≤ after.selections.count i ∧
      (after.selections.count i : ℚ) < (3 : Nat) * scores twoEndpoints i / (∑ j, scores twoEndpoints j) + 1 :=
  have h : construct (fun _ _ => ()) twoConfigs = .ok twoEndpoints := rfl
  selections_fair h twoEndpoints_pos [.select, .rescore, .select, .select]

end Fairness

end SplitSdk.RpcLoadBalancer
