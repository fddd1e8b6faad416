import SplitSdk.BucketIndexes
import SplitSdk.Numbers

namespace SplitSdk.InvoiceFilter

open Numbers OrderedMap BucketIndexes

section Criteria

inductive InvoiceStatus
  | pending | released | refunded | cancelled
  deriving DecidableEq

/-- The recipients are given by their addresses. -/
structure Invoice where
  creator : String
  token : String
  recipients : List String
  status : InvoiceStatus
  funded : Int
  deadline : JsNumber
  deriving DecidableEq

structure FieldCriteria where
  status : Option InvoiceStatus := none
  creator : Option String := none
  recipient : Option String := none
  token : Option String := none
  minFunded : Option Int := none
  maxFunded : Option Int := none
  deadlineBefore : Option JsNumber := none
  deadlineAfter : Option JsNumber := none

inductive FilterCriteria
  | criteria (and or : Option (List FilterCriteria)) (fields : FieldCriteria)

structure CompiledFilter where
  predicate : Invoice → Bool
  criteria : FilterCriteria

def buildLeafPredicate (c : FieldCriteria) (inv : Invoice) : Bool :=
  c.status.all (fun v => inv.status = v) &&
    c.creator.all (fun v => inv.creator = v) &&
    c.recipient.all (fun v => inv.recipients.contains v) &&
    c.token.all (fun v => inv.token = v) &&
    c.minFunded.all (fun v => v ≤ inv.funded) &&
    c.maxFunded.all (fun v => inv.funded ≤ v) &&
    c.deadlineBefore.all (fun v => inv.deadline.lt v) &&
    c.deadlineAfter.all (fun v => v.lt inv.deadline)

mutual

/-- With `and` or `or` the other fields of the level are not read. -/
def buildPredicate : FilterCriteria → Except String (Invoice → Bool)
  | .criteria (some _) (some _) _ => .error "FilterCriteria cannot have both \"and\" and \"or\" at the same level"
  | .criteria (some criteria) none _ => do
      let predicates ← buildPredicates criteria
      return fun inv => predicates.all (fun p => p inv)
  | .criteria none (some criteria) _ => do
      let predicates ← buildPredicates criteria
      return fun inv => predicates.any (fun p => p inv)
  | .criteria none none fields => .ok (buildLeafPredicate fields)

def buildPredicates : List FilterCriteria → Except String (List (Invoice → Bool))
  | [] => .ok []
  | c :: criteria => do return (← buildPredicate c) :: (← buildPredicates criteria)

end

def compileFilter (criteria : FilterCriteria) : Except String CompiledFilter := do
  return ⟨← buildPredicate criteria, criteria⟩

end Criteria

section Memory

abbrev Ref := Nat

/-- Arrays and invoices are objects, which can be written to. -/
structure Memory where
  arrays : Ref → List Ref
  invoices : Ref → Invoice

def satisfies (memory : Memory) (filter : CompiledFilter) (inv : Ref) : Bool := filter.predicate (memory.invoices inv)

def applyFilter (memory : Memory) (invoices : Ref) (filter : CompiledFilter) : List Ref :=
  (memory.arrays invoices).filter (satisfies memory filter)

end Memory

section Index

structure FilterIndex where
  statusIndex : OrdMap InvoiceStatus (List Ref)
  creatorIndex : OrdMap String (List Ref)
  tokenIndex : OrdMap String (List Ref)
  invoicesRef : Option Ref

def FilterIndex.empty (invoicesRef : Option Ref) : FilterIndex := ⟨.empty, .empty, .empty, invoicesRef⟩

def FilterIndex.add (memory : Memory) (index : FilterIndex) (inv : Ref) : FilterIndex where
  statusIndex := addTo index.statusIndex (memory.invoices inv).status inv
  creatorIndex := addTo index.creatorIndex (memory.invoices inv).creator inv
  tokenIndex := addTo index.tokenIndex (memory.invoices inv).token inv
  invoicesRef := index.invoicesRef

def buildIndex (memory : Memory) (index : FilterIndex) (invoices : Ref) : FilterIndex :=
  if index.invoicesRef = some invoices then index
  else (memory.arrays invoices).foldl (FilterIndex.add memory) (.empty (some invoices))

def narrow {κ : Type} [DecidableEq κ] (map : OrdMap κ (List Ref)) (key : Option κ) (candidates : Option (List Ref)) :
    Option (List Ref) :=
  match key with
  | none => candidates
  | some key =>
      let s := bucket map key
      some (match candidates with
        | some candidates => intersect candidates s
        | none => s)

/-- The indexes are used for criteria without `and` and `or` only. -/
def candidates (index : FilterIndex) : FilterCriteria → Option (List Ref)
  | .criteria none none c =>
      narrow index.tokenIndex c.token (narrow index.creatorIndex c.creator (narrow index.statusIndex c.status none))
  | _ => none

def queryIndex (memory : Memory) (index : FilterIndex) (filter : CompiledFilter) : List Ref :=
  match index.invoicesRef with
  | none => []
  | some invoices => ((candidates index filter.criteria).getD (memory.arrays invoices)).filter (satisfies memory filter)

end Index

section History

/-- What happens before a query: arrays and invoices are written, and the index is built. -/
inductive Event
  | writeArray (array : Ref) (contents : List Ref)
  | writeInvoice (inv : Ref) (invoice : Invoice)
  | buildIndex (invoices : Ref)

def Memory.step (memory : Memory) : Event → Memory
  | .writeArray array contents => { memory with arrays := Function.update memory.arrays array contents }
  | .writeInvoice inv invoice => { memory with invoices := Function.update memory.invoices inv invoice }
  | .buildIndex _ => memory

structure World where
  memory : Memory
  index : FilterIndex

def World.step (world : World) (event : Event) : World where
  memory := world.memory.step event
  index := match event with
    | .buildIndex invoices => InvoiceFilter.buildIndex world.memory world.index invoices
    | _ => world.index

/-- A new index, after a history. -/
def after (memory : Memory) (history : List Event) : World := history.foldl World.step ⟨memory, .empty none⟩

end History

end SplitSdk.InvoiceFilter

namespace SplitSdk.IndexedFiltering

open OrderedMap BucketIndexes InvoiceFilter

section Snapshots

/-- What an index stands for: an array, with the memory at the time it was built. -/
structure Snapshot where
  invoices : Ref
  memory : Memory

def Snapshot.contents (snapshot : Snapshot) : List Ref := snapshot.memory.arrays snapshot.invoices

/-- The index is built anew only for another array than its own. -/
def renew (memory : Memory) (snapshot : Option Snapshot) (invoices : Ref) : Snapshot :=
  (snapshot.filter (fun snapshot => snapshot.invoices = invoices)).getD ⟨invoices, memory⟩

structure Record where
  memory : Memory
  snapshot : Option Snapshot

def Record.step (record : Record) (event : Event) : Record where
  memory := record.memory.step event
  snapshot := match event with
    | .buildIndex invoices => some (renew record.memory record.snapshot invoices)
    | _ => record.snapshot

def recordAfter (memory : Memory) (history : List Event) : Record := history.foldl Record.step ⟨memory, none⟩

/-- The array and the invoices as an index shows them that is built for the array after a history. -/
def indexed (memory : Memory) (history : List Event) (invoices : Ref) : Snapshot :=
  renew (recordAfter memory history).memory (recordAfter memory history).snapshot invoices

end Snapshots

section Representation

/-- An index holds the elements of a list under their status, creator and token. -/
structure Holds (memory : Memory) (index : FilterIndex) (contents : List Ref) : Prop where
  status : Indexes index.statusIndex (fun inv => (memory.invoices inv).status) contents
  creator : Indexes index.creatorIndex (fun inv => (memory.invoices inv).creator) contents
  token : Indexes index.tokenIndex (fun inv => (memory.invoices inv).token) contents

structure Represents (index : FilterIndex) (snapshot : Snapshot) : Prop where
  invoicesRef : index.invoicesRef = some snapshot.invoices
  holds : Holds snapshot.memory index snapshot.contents

theorem holds_foldl (memory : Memory) (invoicesRef : Option Ref) (contents : List Ref) :
    Holds memory (contents.foldl (FilterIndex.add memory) (.empty invoicesRef)) contents ∧
      (contents.foldl (FilterIndex.add memory) (.empty invoicesRef)).invoicesRef = invoicesRef := by
  induction contents using List.reverseRecOn with
  | nil => exact ⟨⟨indexes_empty _, indexes_empty _, indexes_empty _⟩, rfl⟩
  | append_singleton contents inv ih =>
      rw [List.foldl_append]
      exact ⟨⟨ih.1.status.addTo inv, ih.1.creator.addTo inv, ih.1.token.addTo inv⟩, ih.2⟩

/-- An index that is not there stands for no array. -/
def Stands (index : FilterIndex) : Option Snapshot → Prop
  | none => index.invoicesRef = none
  | some snapshot => Represents index snapshot

theorem represents_new {memory : Memory} {index : FilterIndex} {invoices : Ref} (h : index.invoicesRef ≠ some invoices) :
    Represents (buildIndex memory index invoices) ⟨invoices, memory⟩ := by
  rw [buildIndex, if_neg h]
  obtain ⟨hholds, href⟩ := holds_foldl memory (some invoices) (memory.arrays invoices)
  exact ⟨href, hholds⟩

theorem represents_buildIndex {memory : Memory} {index : FilterIndex} {snapshot : Option Snapshot} (h : Stands index snapshot)
    (invoices : Ref) : Represents (buildIndex memory index invoices) (renew memory snapshot invoices) := by
  cases snapshot with
  | none =>
      have href : index.invoicesRef = none := h
      exact represents_new (by rw [href]; exact Option.some_ne_none invoices |>.symm)
  | some snapshot =>
      have href : index.invoicesRef = some snapshot.invoices := h.invoicesRef
      by_cases hsame : snapshot.invoices = invoices
      · rw [buildIndex, if_pos (href.trans (congrArg some hsame)), renew, Option.filter_some, if_pos (decide_eq_true hsame)]
        exact h
      · rw [renew, Option.filter_some, if_neg (by rwa [decide_eq_true_eq])]
        exact represents_new (fun heq => hsame (Option.some.inj (href.symm.trans heq)))

/-- The index of a run stands for the snapshot of its history. -/
theorem stands_after (memory : Memory) (history : List Event) :
    (after memory history).memory = (recordAfter memory history).memory ∧
      Stands (after memory history).index (recordAfter memory history).snapshot := by
  induction history using List.reverseRecOn with
  | nil => exact ⟨rfl, rfl⟩
  | append_singleton history event ih =>
      obtain ⟨hmemory, hstands⟩ := ih
      rw [after, recordAfter, List.foldl_append, List.foldl_append]
      refine ⟨congrArg (fun memory => memory.step event) hmemory, ?_⟩
      cases event with
      | writeArray array contents => exact hstands
      | writeInvoice inv invoice => exact hstands
      | buildIndex invoices =>
          change Represents (buildIndex (after memory history).memory (after memory history).index invoices)
            (renew (recordAfter memory history).memory (recordAfter memory history).snapshot invoices)
          rw [← hmemory]
          exact represents_buildIndex hstands invoices

end Representation

section Candidates

/-- The criteria name fields that the indexes are used for. -/
def LooksUp (criteria : FilterCriteria) (c : FieldCriteria) : Prop :=
  criteria = .criteria none none c ∧ (c.status.isSome || c.creator.isSome || c.token.isSome)

def agrees (c : FieldCriteria) (invoice : Invoice) : Bool :=
  c.status.all (fun v => invoice.status = v) && c.creator.all (fun v => invoice.creator = v) && c.token.all (fun v => invoice.token = v)

theorem agrees_of_leaf {c : FieldCriteria} {inv : Invoice} (h : buildLeafPredicate c inv) : agrees c inv := by
  simp only [buildLeafPredicate, Bool.and_eq_true] at h
  simp only [agrees, Bool.and_eq_true]
  tauto

/-- The candidates so far: none, where nothing has been asked, or those of the indexed elements that were asked for. -/
def Narrowed (contents : List Ref) (asked : Ref → Bool) (candidates : Option (List Ref)) : Prop :=
  candidates = none ∧ (∀ inv, asked inv) ∨ candidates = some ((firsts contents).filter asked)

theorem Narrowed.narrow {κ : Type} [DecidableEq κ] {map : OrdMap κ (List Ref)} {field : Ref → κ} {contents : List Ref}
    {asked : Ref → Bool} {candidates : Option (List Ref)} (h : Narrowed contents asked candidates)
    (hmap : Indexes map field contents) (key : Option κ) :
    Narrowed contents (fun inv => asked inv && key.all (fun v => field inv = v)) (narrow map key candidates) ∧
      (narrow map key candidates).isSome = (candidates.isSome || key.isSome) := by
  cases key with
  | none =>
      simp only [InvoiceFilter.narrow, Option.all_none, Bool.and_true, Option.isSome_none, Bool.or_false]
      exact ⟨h, trivial⟩
  | some key =>
      refine ⟨.inr ?_, (Bool.or_true _).symm⟩
      simp only [InvoiceFilter.narrow, hmap key, Option.all_some]
      rcases h with ⟨rfl, hall⟩ | rfl
      · refine congrArg some (List.filter_congr (fun inv _ => ?_))
        rw [hall inv, Bool.true_and]
      · exact congrArg some (intersect_filter _ _ _)

theorem candidates_of_criteria {memory : Memory} {index : FilterIndex} {contents : List Ref} (h : Holds memory index contents)
    (c : FieldCriteria) :
    Narrowed contents (fun inv => agrees c (memory.invoices inv)) (candidates index (.criteria none none c)) ∧
      (candidates index (.criteria none none c)).isSome = (c.status.isSome || c.creator.isSome || c.token.isSome) := by
  have hnone : Narrowed contents (fun _ => true) none := .inl ⟨rfl, fun _ => rfl⟩
  obtain ⟨hstatus, hsome⟩ := hnone.narrow h.status c.status
  obtain ⟨hcreator, hsome'⟩ := hstatus.narrow h.creator c.creator
  obtain ⟨htoken, hsome''⟩ := hcreator.narrow h.token c.token
  rw [hsome', hsome, Option.isSome_none, Bool.false_or] at hsome''
  simp only [Bool.true_and] at htoken
  exact ⟨htoken, hsome''⟩

theorem candidates_of_looksUp {memory : Memory} {index : FilterIndex} {contents : List Ref} (h : Holds memory index contents)
    {criteria : FilterCriteria} {c : FieldCriteria} (hlooks : LooksUp criteria c) :
    candidates index criteria = some ((firsts contents).filter (fun inv => agrees c (memory.invoices inv))) := by
  obtain ⟨rfl, hfields⟩ := hlooks
  obtain ⟨hnarrowed, hsome⟩ := candidates_of_criteria h c
  rcases hnarrowed with ⟨hnone, -⟩ | hfound
  · rw [hnone, hfields] at hsome
    cases hsome
  · exact hfound

theorem candidates_of_not_looksUp {memory : Memory} {index : FilterIndex} {contents : List Ref} (h : Holds memory index contents)
    {criteria : FilterCriteria} (hlooks : ¬ ∃ c, LooksUp criteria c) : candidates index criteria = none := by
  obtain ⟨and, or, c⟩ := criteria
  cases and with
  | some criteria => rfl
  | none =>
      cases or with
      | some criteria => rfl
      | none =>
          obtain ⟨-, hsome⟩ := candidates_of_criteria h c
          rw [Bool.eq_false_iff.mpr (fun hfields => hlooks ⟨c, rfl, hfields⟩)] at hsome
          exact Option.not_isSome_iff_eq_none.mp (Bool.eq_false_iff.mp hsome)

end Candidates

section Queries

/-- A filter that `compileFilter` returns. -/
abbrev AcceptedFilter := {filter : CompiledFilter // compileFilter filter.criteria = .ok filter}

/-- Of the invoices that satisfy the filter none is repeated, none was added since the index was built or given other values
for the fields, none has moved, and none was removed. -/
structure Current (snapshot : Snapshot) (memory : Memory) (invoices : Ref) (filter : CompiledFilter) (c : FieldCriteria) : Prop where
  kept : ((memory.arrays invoices).filter (satisfies memory filter)).Sublist (firsts snapshot.contents)
  agreed : ∀ inv ∈ memory.arrays invoices, satisfies memory filter inv → agrees c (snapshot.memory.invoices inv)
  present : ∀ inv ∈ snapshot.contents, agrees c (snapshot.memory.invoices inv) → satisfies memory filter inv →
    inv ∈ memory.arrays invoices

theorem queryIndex_iff (memory : Memory) {index : FilterIndex} {snapshot : Snapshot} (h : Represents index snapshot)
    (filter : CompiledFilter) :
    queryIndex memory index filter = applyFilter memory snapshot.invoices filter ↔
      ∀ c, LooksUp filter.criteria c → Current snapshot memory snapshot.invoices filter c := by
  have hquery : queryIndex memory index filter =
      ((candidates index filter.criteria).getD (memory.arrays snapshot.invoices)).filter (satisfies memory filter) := by
    rw [queryIndex, h.invoicesRef]
  rw [hquery]
  by_cases hlooks : ∃ c, LooksUp filter.criteria c
  · obtain ⟨c, hc⟩ := hlooks
    have hunique : ∀ c', LooksUp filter.criteria c' → c' = c := by
      intro c' hc'
      cases hc'.1.symm.trans hc.1
      rfl
    rw [candidates_of_looksUp h.holds hc, Option.getD_some, List.filter_filter, applyFilter, filter_firsts_eq_iff]
    constructor
    · rintro ⟨hkept, hall, hpresent⟩ c' hc'
      rw [hunique c' hc']
      refine ⟨hkept, fun inv hmem hsatisfies => ?_, fun inv hmem hagrees hsatisfies => ?_⟩
      · exact ((Bool.and_eq_true _ _).mp (hall inv (List.mem_filter.mpr ⟨hmem, hsatisfies⟩))).2
      · exact (List.mem_filter.mp (hpresent inv hmem ((Bool.and_eq_true _ _).mpr ⟨hsatisfies, hagrees⟩))).1
    · intro h
      obtain ⟨hkept, hagreed, hpresent⟩ := h c hc
      refine ⟨hkept, fun inv hmem => ?_, fun inv hmem hboth => ?_⟩
      · obtain ⟨hmem, hsatisfies⟩ := List.mem_filter.mp hmem
        exact (Bool.and_eq_true _ _).mpr ⟨hsatisfies, hagreed inv hmem hsatisfies⟩
      · obtain ⟨hsatisfies, hagrees⟩ := (Bool.and_eq_true _ _).mp hboth
        exact List.mem_filter.mpr ⟨hpresent inv hmem hagrees hsatisfies, hsatisfies⟩
  · rw [candidates_of_not_looksUp h.holds hlooks]
    exact ⟨fun _ c hc => absurd ⟨c, hc⟩ hlooks, fun _ => rfl⟩

theorem predicate_of_accepted (filter : AcceptedFilter) {c : FieldCriteria} (h : LooksUp filter.1.criteria c) :
    filter.1.predicate = buildLeafPredicate c := by
  have haccepted := filter.2
  rw [h.1] at haccepted
  have hcompiled : compileFilter (.criteria none none c) = .ok ⟨buildLeafPredicate c, .criteria none none c⟩ := rfl
  exact (congrArg CompiledFilter.predicate (Except.ok.inj (hcompiled.symm.trans haccepted))).symm

/-- An index built for a new array leaves out repeated invoices, and that is all. -/
theorem newly_built_iff (memory : Memory) {index : FilterIndex} {invoices : Ref} (h : index.invoicesRef ≠ some invoices)
    (filter : AcceptedFilter) :
    queryIndex memory (buildIndex memory index invoices) filter.1 = applyFilter memory invoices filter.1 ↔
      ∀ c, LooksUp filter.1.criteria c → (applyFilter memory invoices filter.1).Nodup := by
  rw [queryIndex_iff memory (represents_new h) filter.1]
  refine forall_congr' (fun c => forall_congr' (fun hlooks => ⟨fun hcurrent => ?_, fun hnodup => ?_⟩))
  · exact hcurrent.kept.nodup (nodup_firsts _)
  · refine ⟨?_, fun inv _ hsatisfies => ?_, fun inv hmem _ _ => hmem⟩
    · have hkept : ((memory.arrays invoices).filter (satisfies memory filter.1)) =
          (firsts (memory.arrays invoices)).filter (satisfies memory filter.1) := by
        rw [← firsts_filter]
        exact (firsts_of_nodup hnodup).symm
      rw [hkept]
      exact List.filter_sublist
    · apply agrees_of_leaf
      rw [← predicate_of_accepted filter hlooks]
      exact hsatisfies

theorem invoices_renew (memory : Memory) (snapshot : Option Snapshot) (invoices : Ref) :
    (renew memory snapshot invoices).invoices = invoices := by
  unfold renew
  cases hcase : snapshot.filter (fun snapshot => snapshot.invoices = invoices) with
  | none => rfl
  | some found => exact of_decide_eq_true (Option.filter_eq_some_iff.mp hcase).2

theorem indexed_filtering_iff (memory : Memory) (history : List Event) (invoices : Ref) (filter : AcceptedFilter) :
    queryIndex (after memory history).memory (buildIndex (after memory history).memory (after memory history).index invoices) filter.1 =
        applyFilter (after memory history).memory invoices filter.1 ↔
      ∀ c, LooksUp filter.1.criteria c →
        Current (indexed memory history invoices) (after memory history).memory invoices filter.1 c := by
  obtain ⟨hmemory, hstands⟩ := stands_after memory history
  have hrepresents : Represents (buildIndex (after memory history).memory (after memory history).index invoices)
      (indexed memory history invoices) := by
    rw [indexed, ← hmemory]
    exact represents_buildIndex hstands invoices
  have hinvoices : (indexed memory history invoices).invoices = invoices := invoices_renew _ _ _
  have hiff := queryIndex_iff (after memory history).memory hrepresents filter.1
  rw [hinvoices] at hiff
  exact hiff

/-- An invoice is added to the array that the index was built for. -/
theorem indexed_filtering_fail :
    let invoice : Invoice := ⟨"GA", "USDC", [], .pending, 0, .finite 0⟩
    let world := after ⟨fun _ => [0], fun _ => invoice⟩ [.buildIndex 7, .writeArray 7 [0, 1]]
    let filter : CompiledFilter := ⟨buildLeafPredicate { status := some .pending }, .criteria none none { status := some .pending }⟩
    compileFilter filter.criteria = .ok filter ∧
      queryIndex world.memory (buildIndex world.memory world.index 7) filter ≠ applyFilter world.memory 7 filter := by
  exact ⟨rfl, by decide +kernel⟩

end Queries

end SplitSdk.IndexedFiltering
