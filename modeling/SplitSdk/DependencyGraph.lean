import SplitSdk.BucketIndexes
import SplitSdk.DepthFirst

namespace SplitSdk.DependencyGraph

open OrderedMap BucketIndexes DepthFirst

section Model

structure Invoice where
  id : String
  prerequisites : Option (List String)

def Invoice.deps (inv : Invoice) : List String := inv.prerequisites.getD []

structure MissingNodeError where
  missingNodeIds : List String
  deriving DecidableEq

def MissingNodeError.message (error : MissingNodeError) : String :=
  "Missing dependency nodes: " ++ String.intercalate ", " error.missingNodeIds

structure ValidationResult where
  valid : Bool
  cycles : List (List String)
  warnings : List String
  deriving DecidableEq

def warning (id pre : String) : String := "Invoice \"" ++ id ++ "\" references unknown prerequisite \"" ++ pre ++ "\""

structure Links where
  adj : OrdMap String (List String) := .empty
  warnings : List String := []
  missingNodeIds : List String := []

def addPrerequisite (ids : List String) (id : String) (s : Links × List String) (pre : String) : Links × List String :=
  if pre ∉ ids then
    ({ s.1 with warnings := s.1.warnings ++ [warning id pre], missingNodeIds := add s.1.missingNodeIds pre }, s.2)
  else (s.1, s.2 ++ [pre])

def addInvoice (ids : List String) (s : Links) (inv : Invoice) : Links :=
  let (s, deps) := inv.deps.foldl (addPrerequisite ids inv.id) (s, [])
  { s with adj := s.adj.set inv.id deps }

def idsOf (invoices : List Invoice) : List String := firsts (invoices.map Invoice.id)

def linksOf (invoices : List Invoice) : Links := invoices.foldl (addInvoice (idsOf invoices)) {}

/-- The validation, and nothing when the search needs more fuel. -/
def validateDependencyGraph (fuel : Nat) (invoices : List Invoice) : Option (Except MissingNodeError ValidationResult) :=
  let ids := idsOf invoices
  let links := linksOf invoices
  (dfsAll (fun node => (links.adj.get? node).getD []) fuel ids {}).map (fun search =>
    if links.missingNodeIds.length > 0 then .error ⟨links.missingNodeIds⟩
    else .ok ⟨search.cycles.length = 0, search.cycles, links.warnings⟩)

end Model

section Links

variable {invoices : List Invoice} {ids : List String} {s : Links}

/-- The prerequisites of every invoice with an id. -/
def prerequisitesOf (invoices : List Invoice) (id : String) : List String :=
  (invoices.filter (fun inv => inv.id = id)).flatMap Invoice.deps

/-- The prerequisites of the last invoice with an id. -/
def lastPrerequisitesOf (invoices : List Invoice) (id : String) : List String :=
  ((invoices.filter (fun inv => inv.id = id)).getLast?.map Invoice.deps).getD []

def Known (invoices : List Invoice) : Prop := ∀ inv ∈ invoices, ∀ pre ∈ inv.deps, pre ∈ idsOf invoices

theorem mem_idsOf {id : String} : id ∈ idsOf invoices ↔ ∃ inv ∈ invoices, inv.id = id := by
  rw [idsOf, mem_firsts, List.mem_map]

theorem addPrerequisites_known {id : String} {deps pres : List String} (h : ∀ pre ∈ pres, pre ∈ ids) :
    pres.foldl (addPrerequisite ids id) (s, deps) = (s, deps ++ pres) := by
  induction pres generalizing deps with
  | nil => simp
  | cons pre pres ih =>
      obtain ⟨hpre, hpres⟩ := List.forall_mem_cons.mp h
      have hstep : addPrerequisite ids id (s, deps) pre = (s, deps ++ [pre]) := if_neg (not_not.mpr hpre)
      rw [List.foldl_cons, hstep, ih hpres, List.append_assoc, List.singleton_append]

theorem addInvoice_known {inv : Invoice} (h : ∀ pre ∈ inv.deps, pre ∈ ids) :
    addInvoice ids s inv = { s with adj := s.adj.set inv.id inv.deps } := by
  unfold addInvoice
  rw [addPrerequisites_known h, List.nil_append]

theorem addInvoices_known (h : ∀ inv ∈ invoices, ∀ pre ∈ inv.deps, pre ∈ ids) :
    ∀ id, ((invoices.foldl (addInvoice ids) {}).adj.get? id).getD [] = lastPrerequisitesOf invoices id := by
  induction invoices using List.reverseRecOn with
  | nil => exact fun _ => rfl
  | append_singleton invoices inv ih =>
      obtain ⟨hinvoices, hinv⟩ := List.forall_mem_append.mp h
      rw [List.foldl_append, List.foldl_cons, List.foldl_nil, addInvoice_known (hinv inv List.mem_cons_self)]
      intro id
      have hlast : lastPrerequisitesOf (invoices ++ [inv]) id = if inv.id = id then inv.deps else lastPrerequisitesOf invoices id := by
        unfold lastPrerequisitesOf
        rw [List.filter_append]
        split_ifs with hid <;> simp [hid]
      rw [hlast, OrdMap.get?_set, ← ih hinvoices]
      by_cases hid : inv.id = id
      · rw [if_pos hid.symm, if_pos hid]
        rfl
      · rw [if_neg (Ne.symm hid), if_neg hid]

theorem mem_missing_addPrerequisites {id pre : String} {deps pres : List String} :
    pre ∈ (pres.foldl (addPrerequisite ids id) (s, deps)).1.missingNodeIds ↔ pre ∈ s.missingNodeIds ∨ pre ∈ pres ∧ pre ∉ ids := by
  induction pres generalizing s deps with
  | nil => simp
  | cons first pres ih =>
      rw [List.foldl_cons, List.mem_cons, or_and_right, ← or_assoc, addPrerequisite]
      split_ifs with hfirst
      · rw [ih]
        refine or_congr_left (or_iff_left ?_).symm
        rintro ⟨rfl, hout⟩
        exact hout hfirst
      · rw [ih, mem_add]
        refine or_congr_left (or_congr_right ?_)
        exact ⟨fun h => ⟨h, h ▸ hfirst⟩, And.left⟩

/-- The missing nodes are the unknown prerequisites of all the invoices. -/
theorem mem_missing {pre : String} :
    pre ∈ (linksOf invoices).missingNodeIds ↔ (∃ inv ∈ invoices, pre ∈ inv.deps) ∧ pre ∉ idsOf invoices := by
  rw [linksOf]
  generalize idsOf invoices = ids
  induction invoices using List.reverseRecOn with
  | nil => simp
  | append_singleton invoices inv ih =>
      rw [List.foldl_append, List.foldl_cons, List.foldl_nil, addInvoice]
      refine mem_missing_addPrerequisites.trans ?_
      rw [ih, ← or_and_right]
      simp [or_and_right, exists_or]

theorem missing_known (h : Known invoices) : (linksOf invoices).missingNodeIds = [] := by
  rw [List.eq_nil_iff_forall_not_mem]
  intro pre hpre
  obtain ⟨⟨inv, hinv, hmem⟩, hout⟩ := mem_missing.mp hpre
  exact hout (h inv hinv pre hmem)

end Links

section Validation

variable {invoices : List Invoice}

theorem mem_lastPrerequisitesOf {id pre : String} (h : pre ∈ lastPrerequisitesOf invoices id) : ∃ inv ∈ invoices, inv.id = id ∧ pre ∈ inv.deps := by
  unfold lastPrerequisitesOf at h
  cases hlast : (invoices.filter (fun inv => inv.id = id)).getLast? with
  | none =>
      rw [hlast] at h
      cases h
  | some inv =>
      rw [hlast] at h
      obtain ⟨hmem, hid⟩ := List.mem_filter.mp (List.mem_of_getLast? hlast)
      exact ⟨inv, hmem, of_decide_eq_true hid, h⟩

theorem mem_prerequisitesOf {id pre : String} : pre ∈ prerequisitesOf invoices id ↔ ∃ inv ∈ invoices, inv.id = id ∧ pre ∈ inv.deps := by
  simp [prerequisitesOf, and_assoc]

theorem edge_of_last {a b : String} (h : Edge (lastPrerequisitesOf invoices) a b) : Edge (prerequisitesOf invoices) a b :=
  mem_prerequisitesOf.mpr (mem_lastPrerequisitesOf h)

/-- The validation searches the graph of the last invoice of each id. -/
theorem validate_last (hknown : Known invoices) {fuel : Nat} (hfuel : (idsOf invoices).length ≤ fuel) :
    ∃ result, validateDependencyGraph fuel invoices = some (.ok result) ∧
      (result.valid ↔ Acyclic (lastPrerequisitesOf invoices)) ∧
      ∀ cycle ∈ result.cycles, IsClosedPath (lastPrerequisitesOf invoices) cycle := by
  have hadj (id : String) : ((linksOf invoices).adj.get? id).getD [] = lastPrerequisitesOf invoices id :=
    addInvoices_known hknown id
  have hclosed : ∀ x ∈ idsOf invoices, ∀ y ∈ lastPrerequisitesOf invoices x, y ∈ idsOf invoices := by
    intro x _ y hy
    obtain ⟨inv, hinv, -, hpre⟩ := mem_lastPrerequisitesOf hy
    exact hknown inv hinv y hpre
  have hnodes : ∀ x ∉ idsOf invoices, lastPrerequisitesOf invoices x = [] := by
    intro x hx
    rw [List.eq_nil_iff_forall_not_mem]
    intro y hy
    obtain ⟨inv, hinv, hid, -⟩ := mem_lastPrerequisitesOf hy
    exact hx (mem_idsOf.mpr ⟨inv, hinv, hid⟩)
  obtain ⟨t, ht, hcycles, hnone⟩ := dfsAll_spec hclosed hnodes hfuel
  refine ⟨⟨t.cycles.length = 0, t.cycles, (linksOf invoices).warnings⟩, ?_, ?_, hcycles⟩
  · unfold validateDependencyGraph
    dsimp only
    rw [funext hadj, ht, Option.map_some, missing_known hknown, List.length_nil, if_neg (Nat.lt_irrefl 0)]
  · rw [decide_eq_true_iff, List.length_eq_zero_iff]
    exact hnone

/-- The validation ends, is valid exactly when the graph of all the invoices has no cycle, and reports its closed paths. -/
def Exact (fuel : Nat) (invoices : List Invoice) : Prop :=
  ∃ result, validateDependencyGraph fuel invoices = some (.ok result) ∧
    (result.valid ↔ Acyclic (prerequisitesOf invoices)) ∧ ∀ cycle ∈ result.cycles, IsClosedPath (prerequisitesOf invoices) cycle

/-- A cycle is missed when it needs the prerequisites of an invoice whose id comes again. -/
theorem exact_iff (hknown : Known invoices) {fuel : Nat} (hfuel : (idsOf invoices).length ≤ fuel) :
    Exact fuel invoices ↔ (Acyclic (lastPrerequisitesOf invoices) → Acyclic (prerequisitesOf invoices)) := by
  obtain ⟨result, hresult, hvalid, hcycles⟩ := validate_last hknown hfuel
  constructor
  · rintro ⟨result', hresult', hvalid', -⟩ hlast
    rw [hresult] at hresult'
    obtain rfl : result = result' := by simpa using hresult'
    exact hvalid'.mp (hvalid.mpr hlast)
  · intro h
    have hacyclic (h : Acyclic (prerequisitesOf invoices)) : Acyclic (lastPrerequisitesOf invoices) :=
      h.of_edges (fun _ _ => edge_of_last)
    exact ⟨result, hresult, hvalid.trans ⟨h, hacyclic⟩, fun cycle hmem => (hcycles cycle hmem).of_edges (fun _ _ => edge_of_last)⟩

theorem lastPrerequisitesOf_of_nodup (hnodup : (invoices.map Invoice.id).Nodup) {inv : Invoice} (hinv : inv ∈ invoices) :
    lastPrerequisitesOf invoices inv.id = inv.deps := by
  have hmem : inv ∈ invoices.filter (fun i => i.id = inv.id) := List.mem_filter.mpr ⟨hinv, decide_eq_true rfl⟩
  have hlast := List.getLast?_eq_some_getLast (List.ne_nil_of_mem hmem)
  obtain ⟨hlastmem, hid⟩ := List.mem_filter.mp (List.mem_of_getLast? hlast)
  rw [lastPrerequisitesOf, hlast, List.inj_on_of_nodup_map hnodup hlastmem hinv (of_decide_eq_true hid)]
  rfl

/-- Invoices with different ids are validated exactly. -/
theorem exact_of_nodup (hknown : Known invoices) (hnodup : (invoices.map Invoice.id).Nodup) {fuel : Nat}
    (hfuel : (idsOf invoices).length ≤ fuel) : Exact fuel invoices := by
  refine (exact_iff hknown hfuel).mpr (fun hlast => hlast.of_edges (fun a b hedge => ?_))
  obtain ⟨inv, hinv, rfl, hpre⟩ := mem_prerequisitesOf.mp hedge
  rw [Edge, lastPrerequisitesOf_of_nodup hnodup hinv]
  exact hpre

/-- The second invoice takes away the prerequisite of the first. -/
def repeated : List Invoice := [⟨"A", some ["A"]⟩, ⟨"A", none⟩]

theorem repeated_known : Known repeated := by
  simp [Known, repeated, Invoice.deps, mem_idsOf]

theorem repeated_cycle : ¬Acyclic (prerequisitesOf repeated) := by
  have hedge : Edge (prerequisitesOf repeated) "A" "A" := by simp [Edge, prerequisitesOf, repeated, Invoice.deps]
  exact fun h => h "A" (.single hedge)

theorem repeated_valid (fuel : Nat) : validateDependencyGraph (fuel + 1) repeated = some (.ok ⟨true, [], []⟩) := rfl

theorem cycle_missed : Known repeated ∧ ∀ fuel, ¬Exact (fuel + 1) repeated := by
  refine ⟨repeated_known, ?_⟩
  rintro fuel ⟨result, hresult, hvalid, -⟩
  rw [repeated_valid] at hresult
  cases hresult
  exact repeated_cycle (hvalid.mp rfl)

theorem exact_iff_repeated : Exact 1 repeated ↔ (Acyclic (lastPrerequisitesOf repeated) → Acyclic (prerequisitesOf repeated)) :=
  exact_iff repeated_known (Nat.le_refl 1)

end Validation

end SplitSdk.DependencyGraph
