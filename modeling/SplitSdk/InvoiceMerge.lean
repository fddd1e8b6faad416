import SplitSdk.ValueShapes
import SplitSdk.Fallible

namespace SplitSdk.InvoiceMerge

open InvoiceDiff Numbers ValueShapes

/-- The two dates are held by their time values. -/
structure TokenGatePolicy where
  asset : String
  minBalance : String
  strict : Option Bool := none
  validFrom : Option JsNumber := none
  validUntil : Option JsNumber := none

def recipientShape : Shape := .record (fun property => if property = "amount" then .bigint else .string)

def paymentShape : Shape :=
  .record (fun property =>
    if property = "amount" then .bigint
    else if property = "ledger" ∨ property = "timestamp" then .number
    else if property = "donateOnFailure" then .boolean
    else .string)

def penaltyTierShape : Shape := .record (fun _ => .number)

def tierShape : Shape := .record (fun property => if property = "upTo" then .bigint else .number)

/-- The three kinds of split rule agree on the properties that they share. -/
def splitRuleShape : Shape :=
  .record (fun property =>
    if property = "amount" then .bigint
    else if property = "bps" then .number
    else if property = "tiers" then .array tierShape
    else .string)

def autoResolveRuleShape : Shape := .record (fun property => if property = "threshold" then .bigint else .string)

def transitionShape : Shape := .record (fun property => if property = "at" then .number else .string)

/-- The fields that `INVOICE_FIELDS` does not list, but for the two that hold no plain data. -/
def unlistedFields : List String := ["createdAt", "tags", "statusHistory"]

def fieldShape (field : String) : Shape :=
  if field = "recipients" then .array recipientShape
  else if field = "payments" then .array paymentShape
  else if field = "penalty_tiers" then .array penaltyTierShape
  else if field = "split_rules" then .array splitRuleShape
  else if field = "auto_resolve_rules" then .array autoResolveRuleShape
  else if field = "statusHistory" then .array transitionShape
  else if field ∈ ["prerequisites", "allowed_callers", "tags"] then .array .string
  else if field = "funded" then .bigint
  else if field = "recurring" then .boolean
  else if field ∈ ["deadline", "createdAt", "scheduledReleaseDate", "lastModifiedLedger", "cloneDepth",
    "penalty_deadline"] then .number
  else .string

/-- An invoice with all its fields. An absent field of plain data is `undefined`. -/
structure Invoice (Metadata : Type) where
  data : String → Value
  typed : ∀ field, HasShape (fieldShape field) (data field)
  accessPolicy : Option TokenGatePolicy
  metadata : Option Metadata

variable {Metadata : Type}

def Invoice.set (invoice : Invoice Metadata) (field : String) (value : Value)
    (h : HasShape (fieldShape field) value) : Invoice Metadata :=
  { invoice with
    data := fun name => if name = field then value else invoice.data name
    typed := fun name => by
      split_ifs with hname
      · exact hname ▸ h
      · exact invoice.typed name }

inductive MergeFailure
  | rangeError (message : String)
  | mergeConflict (field : String) (baseValue localValue remoteValue : Value)

def MergeFailure.message : MergeFailure → String
  | .rangeError message => message
  | .mergeConflict field _ _ _ => s!"Merge conflict on field \"{field}\": both branches diverged from base"

def compareValues (a b : Value) : Except MergeFailure Bool := (valuesEqual a b).mapError .rangeError

/-- What a field of the merged invoice becomes. -/
inductive Choice
  | keepBase
  | takeLocal
  | takeRemote
  deriving DecidableEq

/-- One round of the loop of `mergeInvoices`. -/
def chooseField (field : String) (baseVal localVal remoteVal : Value) : Except MergeFailure Choice := do
  let localSame ← compareValues baseVal localVal
  let remoteSame ← compareValues baseVal remoteVal
  if localSame && remoteSame then return .keepBase
  else if remoteSame then return .takeLocal
  else if localSame then return .takeRemote
  else
    -- both changed: a conflict unless they converged to the same value
    let converged ← compareValues localVal remoteVal
    if converged then return .takeLocal else throw (.mergeConflict field baseVal localVal remoteVal)

section Merging

variable (base localCopy remoteCopy : Invoice Metadata)

def assign (field : String) (merged : Invoice Metadata) : Choice → Invoice Metadata
  | .keepBase => merged
  | .takeLocal => merged.set field (localCopy.data field) (localCopy.typed field)
  | .takeRemote => merged.set field (remoteCopy.data field) (remoteCopy.typed field)

def mergeFields : List String → Invoice Metadata → Except MergeFailure (Invoice Metadata)
  | [], merged => .ok merged
  | field :: fields, merged => do
      let choice ← chooseField field (base.data field) (localCopy.data field) (remoteCopy.data field)
      mergeFields fields (assign localCopy remoteCopy field merged choice)

/-- The three-way merge of a local and a remote copy over their common base. -/
def mergeInvoices : Except MergeFailure (Invoice Metadata) :=
  mergeFields base localCopy remoteCopy invoiceFields base

end Merging

end SplitSdk.InvoiceMerge

namespace SplitSdk.MergeLaws

open Fallible InvoiceDiff InvoiceMerge Numbers ValueShapes

variable {Metadata : Type}

section Laws

/-- Two invoices with equal fields. -/
def SameInvoice (a b : Invoice Metadata) : Prop :=
  (∀ field ∈ invoiceFields ++ unlistedFields, Alike (a.data field) (b.data field)) ∧
    a.accessPolicy = b.accessPolicy ∧ a.metadata = b.metadata

def FastForwards (base x : Invoice Metadata) : Prop :=
  (∃ merged, mergeInvoices base x base = .ok merged ∧ SameInvoice merged x) ∧
    ∃ merged, mergeInvoices base base x = .ok merged ∧ SameInvoice merged x

/-- What only one side has changed is taken from that side. -/
def TakesChanged {α : Type} (same : α → α → Prop) (base ours theirs merged : α) : Prop :=
  (¬same base ours → same base theirs → same merged ours) ∧
    (same base ours → ¬same base theirs → same merged theirs)

def TakesChanges (base localCopy remoteCopy merged : Invoice Metadata) : Prop :=
  (∀ field ∈ invoiceFields ++ unlistedFields,
    TakesChanged Alike (base.data field) (localCopy.data field) (remoteCopy.data field) (merged.data field)) ∧
    TakesChanged Eq base.accessPolicy localCopy.accessPolicy remoteCopy.accessPolicy merged.accessPolicy ∧
      TakesChanged Eq base.metadata localCopy.metadata remoteCopy.metadata merged.metadata

def MergesFairly (base localCopy remoteCopy : Invoice Metadata) : Prop :=
  ∀ merged, mergeInvoices base localCopy remoteCopy = .ok merged →
    (∃ swapped, mergeInvoices base remoteCopy localCopy = .ok swapped ∧ SameInvoice merged swapped) ∧
      TakesChanges base localCopy remoteCopy merged

end Laws

section Conditions

/-- The values agree on the fields that the merge does not walk over. -/
def AgreesUnlisted (a b : Invoice Metadata) : Prop :=
  (∀ field ∈ unlistedFields, Alike (a.data field) (b.data field)) ∧
    a.accessPolicy = b.accessPolicy ∧ a.metadata = b.metadata

def NanFreeListed (base : Invoice Metadata) : Prop := ∀ field ∈ invoiceFields, NanFree (base.data field)

def Same (a b : Value) : Prop := NanFree a ∧ Alike a b

def ConflictFree (base localCopy remoteCopy : Invoice Metadata) : Prop :=
  ∀ field ∈ invoiceFields, Same (base.data field) (localCopy.data field) ∨
    Same (base.data field) (remoteCopy.data field) ∨ Same (localCopy.data field) (remoteCopy.data field)

/-- No field that the merge does not walk over is changed by one side only. -/
def EvenUnlisted (base localCopy remoteCopy : Invoice Metadata) : Prop :=
  (∀ field ∈ unlistedFields,
    (Alike (base.data field) (localCopy.data field) ↔ Alike (base.data field) (remoteCopy.data field))) ∧
    (base.accessPolicy = localCopy.accessPolicy ↔ base.accessPolicy = remoteCopy.accessPolicy) ∧
      (base.metadata = localCopy.metadata ↔ base.metadata = remoteCopy.metadata)

end Conditions

section Fields

variable {shape : Shape} {base ours theirs : Value} (hbase : HasShape shape base) (hours : HasShape shape ours)
  (htheirs : HasShape shape theirs)

theorem Same.symm {a b : Value} (hb : HasShape shape b) (h : Same a b) : Same b a :=
  ⟨nanFree_of_alike hb h.2 h.1, h.2.symm⟩

open Classical in
theorem compareValues_eq {a b : Value} (ha : HasShape shape a) (hb : HasShape shape b) :
    compareValues a b = .ok (decide (Same a b)) := by
  obtain ⟨same, hsame, hiff⟩ := valuesEqual_decided ha hb
  have he : same = decide (Same a b) := by
    rw [Bool.eq_iff_iff, decide_eq_true_iff]
    exact hiff
  rw [compareValues, hsame, he]
  rfl

include hbase hours htheirs

open Classical in
theorem chooseField_eq (field : String) :
    chooseField field base ours theirs =
      if Same base ours ∧ Same base theirs then .ok .keepBase
      else if Same base theirs then .ok .takeLocal
      else if Same base ours then .ok .takeRemote
      else if Same ours theirs then .ok .takeLocal
      else .error (.mergeConflict field base ours theirs) := by
  rw [chooseField, compareValues_eq hbase hours, compareValues_eq hbase htheirs, compareValues_eq hours htheirs]
  simp only [bind, Except.bind, pure, Except.pure, throw, throwThe, MonadExceptOf.throw, Bool.and_eq_true,
    decide_eq_true_iff]

/-- A field merges unless both sides have changed it, to different values. -/
theorem chooseField_ok_iff (field : String) :
    (∃ choice, chooseField field base ours theirs = .ok choice) ↔
      Same base ours ∨ Same base theirs ∨ Same ours theirs := by
  classical
  rw [chooseField_eq hbase hours htheirs]
  split_ifs with h1 h2 h3 h4
  · exact iff_of_true ⟨_, rfl⟩ (.inl h1.1)
  · exact iff_of_true ⟨_, rfl⟩ (.inr (.inl h2))
  · exact iff_of_true ⟨_, rfl⟩ (.inl h3)
  · exact iff_of_true ⟨_, rfl⟩ (.inr (.inr h4))
  · exact iff_of_false (by simp) (by tauto)

def chosen (base ours theirs : Value) : Choice → Value
  | .keepBase => base
  | .takeLocal => ours
  | .takeRemote => theirs

open Classical in
theorem chosen_eq {field : String} {choice : Choice} (h : chooseField field base ours theirs = .ok choice) :
    chosen base ours theirs choice =
      if Same base ours ∧ Same base theirs then base
      else if Same base theirs then ours else if Same base ours then theirs else ours := by
  rw [chooseField_eq hbase hours htheirs] at h
  split_ifs at h ⊢ <;> cases h <;> rfl

theorem chosen_of_same {field : String} {choice : Choice} (h : chooseField field base ours theirs = .ok choice) :
    (Same base theirs → Alike (chosen base ours theirs choice) ours) ∧
      (Same base ours → Alike (chosen base ours theirs choice) theirs) := by
  classical
  rw [chosen_eq hbase hours htheirs h]
  split_ifs with hboth ht ho
  · exact ⟨fun _ => hboth.1.2, fun _ => hboth.2.2⟩
  · exact ⟨fun _ => .refl ours, fun ho => absurd ⟨ho, ht⟩ hboth⟩
  · exact ⟨fun ht' => absurd ht' ht, fun _ => .refl theirs⟩
  · exact ⟨fun ht' => absurd ht' ht, fun ho' => absurd ho' ho⟩

theorem chosen_takesChanged {field : String} {choice : Choice} (h : chooseField field base ours theirs = .ok choice) :
    TakesChanged Alike base ours theirs (chosen base ours theirs choice) := by
  classical
  have hmerges := (chooseField_ok_iff hbase hours htheirs field).mp ⟨choice, h⟩
  rw [chosen_eq hbase hours htheirs h]
  split_ifs with hboth ht ho
  · exact ⟨fun hne => absurd hboth.1.2 hne, fun _ hne => absurd hboth.2.2 hne⟩
  · exact ⟨fun _ _ => .refl ours, fun _ hne => absurd ht.2 hne⟩
  · exact ⟨fun hne => absurd ho.2 hne, fun _ _ => .refl theirs⟩
  · have hsame : Same ours theirs := by tauto
    exact ⟨fun _ _ => .refl ours, fun _ _ => hsame.2⟩

/-- The two orders of the sides choose values that are alike. -/
theorem chosen_swap {field : String} {choice choice' : Choice} (h : chooseField field base ours theirs = .ok choice)
    (h' : chooseField field base theirs ours = .ok choice') :
    Alike (chosen base ours theirs choice) (chosen base theirs ours choice') := by
  classical
  have hmerges := (chooseField_ok_iff hbase hours htheirs field).mp ⟨choice, h⟩
  rw [chosen_eq hbase hours htheirs h, chosen_eq hbase htheirs hours h']
  by_cases ho : Same base ours <;> by_cases ht : Same base theirs
  · simp only [ho, ht, and_self, if_true]
    exact .refl base
  · simp only [ho, ht, and_false, false_and, if_true, if_false]
    exact .refl theirs
  · simp only [ho, ht, and_false, false_and, if_true, if_false]
    exact .refl ours
  · have hsame : Same ours theirs := by tauto
    simp only [ho, ht, and_self, if_false]
    exact hsame.2

end Fields

section Loop

variable (base ours theirs : Invoice Metadata)

def choiceOf (field : String) : Except MergeFailure Choice :=
  chooseField field (base.data field) (ours.data field) (theirs.data field)

/-- What the merge has made of the fields, once it has come to its end. -/
structure Merged (fields : List String) (before merged : Invoice Metadata) : Prop where
  listed : ∀ field ∈ fields, ∃ choice, choiceOf base ours theirs field = .ok choice ∧
    merged.data field = chosen (base.data field) (ours.data field) (theirs.data field) choice
  unlisted : ∀ field ∉ fields, merged.data field = before.data field
  accessPolicy : merged.accessPolicy = before.accessPolicy
  metadata : merged.metadata = before.metadata

variable {base ours theirs}

theorem merged_of_mergeFields {fields : List String} (hnodup : fields.Nodup) {before merged : Invoice Metadata}
    (hbefore : ∀ field ∈ fields, before.data field = base.data field)
    (h : mergeFields base ours theirs fields before = .ok merged) : Merged base ours theirs fields before merged := by
  induction fields generalizing before with
  | nil =>
      cases h
      exact ⟨by simp, fun _ _ => rfl, rfl, rfl⟩
  | cons field fields ih =>
      rw [List.nodup_cons] at hnodup
      obtain ⟨choice, hchoice, h⟩ := bind_eq_ok.mp h
      have hfield : (assign ours theirs field before choice).data field =
          chosen (base.data field) (ours.data field) (theirs.data field) choice := by
        cases choice with
        | keepBase => exact hbefore field List.mem_cons_self
        | takeLocal => exact if_pos rfl
        | takeRemote => exact if_pos rfl
      have hothers : ∀ name, name ≠ field → (assign ours theirs field before choice).data name = before.data name := by
        intro name hname
        cases choice with
        | keepBase => rfl
        | takeLocal => exact if_neg hname
        | takeRemote => exact if_neg hname
      have hrest : (assign ours theirs field before choice).accessPolicy = before.accessPolicy ∧
          (assign ours theirs field before choice).metadata = before.metadata := by
        cases choice <;> exact ⟨rfl, rfl⟩
      have hne : ∀ name ∈ fields, name ≠ field := fun name hname he => hnodup.1 (he ▸ hname)
      obtain ⟨hlisted, hunlisted, haccess, hmetadata⟩ := ih hnodup.2
        (fun name hname => (hothers name (hne name hname)).trans (hbefore name (List.mem_cons_of_mem _ hname))) h
      refine ⟨fun name hname => ?_, fun name hname => ?_, haccess.trans hrest.1, hmetadata.trans hrest.2⟩
      · rcases List.mem_cons.mp hname with rfl | hname
        · exact ⟨choice, hchoice, (hunlisted name hnodup.1).trans hfield⟩
        · exact hlisted name hname
      · obtain ⟨hname, hnot⟩ := not_or.mp (mt List.mem_cons.mpr hname)
        exact (hunlisted name hnot).trans (hothers name hname)

theorem mergeFields_ok {fields : List String} (before : Invoice Metadata)
    (h : ∀ field ∈ fields, ∃ choice, choiceOf base ours theirs field = .ok choice) :
    ∃ merged, mergeFields base ours theirs fields before = .ok merged := by
  induction fields generalizing before with
  | nil => exact ⟨before, rfl⟩
  | cons field fields ih =>
      obtain ⟨choice, hchoice⟩ := h field List.mem_cons_self
      obtain ⟨merged, hmerged⟩ := ih _ (fun name hname => h name (List.mem_cons_of_mem _ hname))
      exact ⟨merged, bind_eq_ok.mpr ⟨choice, hchoice, hmerged⟩⟩

theorem merged_of_mergeInvoices {merged : Invoice Metadata} (h : mergeInvoices base ours theirs = .ok merged) :
    Merged base ours theirs invoiceFields base merged :=
  merged_of_mergeFields (by decide) (fun _ _ => rfl) h

theorem mergeInvoices_ok_iff :
    (∃ merged, mergeInvoices base ours theirs = .ok merged) ↔ ConflictFree base ours theirs := by
  have hfield := fun field => chooseField_ok_iff (base.typed field) (ours.typed field) (theirs.typed field) field
  constructor
  · rintro ⟨merged, h⟩ field hmem
    obtain ⟨choice, hchoice, -⟩ := (merged_of_mergeInvoices h).listed field hmem
    exact (hfield field).mp ⟨choice, hchoice⟩
  · intro h
    exact mergeFields_ok base (fun field hmem => (hfield field).mpr (h field hmem))

end Loop

section Main

variable {base ours theirs : Invoice Metadata}

theorem unlisted_not_listed : ∀ field ∈ unlistedFields, field ∉ invoiceFields := by decide

/-- The merged invoice has the base's values of the fields that the merge does not walk over. -/
theorem agreesUnlisted_iff {merged : Invoice Metadata} (h : Merged base ours theirs invoiceFields base merged)
    (x : Invoice Metadata) : AgreesUnlisted merged x ↔ AgreesUnlisted base x := by
  unfold AgreesUnlisted
  rw [h.accessPolicy, h.metadata]
  refine and_congr_left' (forall₂_congr (fun field hfield => ?_))
  rw [h.unlisted field (unlisted_not_listed field hfield)]

theorem sameInvoice_iff (a b : Invoice Metadata) :
    SameInvoice a b ↔ (∀ field ∈ invoiceFields, Alike (a.data field) (b.data field)) ∧ AgreesUnlisted a b := by
  rw [SameInvoice, AgreesUnlisted, List.forall_mem_append, and_assoc]

/-- A side that is the base decides nothing. -/
theorem fastForwards_iff (base x : Invoice Metadata) :
    FastForwards base x ↔ NanFreeListed base ∧ AgreesUnlisted base x := by
  constructor
  · rintro ⟨⟨merged, hmerged, hsame⟩, -⟩
    have hm := merged_of_mergeInvoices hmerged
    refine ⟨fun field hfield => ?_, (agreesUnlisted_iff hm x).mp ((sameInvoice_iff merged x).mp hsame).2⟩
    rcases mergeInvoices_ok_iff.mp ⟨merged, hmerged⟩ field hfield with h | h | h
    · exact h.1
    · exact h.1
    · exact (h.symm (base.typed field)).1
  · rintro ⟨hfree, hagrees⟩
    have hself : ∀ field ∈ invoiceFields, Same (base.data field) (base.data field) :=
      fun field hfield => ⟨hfree field hfield, .refl _⟩
    have hlocal : ConflictFree base x base := fun field hfield => .inr (.inl (hself field hfield))
    have hremote : ConflictFree base base x := fun field hfield => .inl (hself field hfield)
    obtain ⟨merged, hmerged⟩ := mergeInvoices_ok_iff.mpr hlocal
    obtain ⟨merged', hmerged'⟩ := mergeInvoices_ok_iff.mpr hremote
    have hm := merged_of_mergeInvoices hmerged
    have hm' := merged_of_mergeInvoices hmerged'
    refine ⟨⟨merged, hmerged, (sameInvoice_iff merged x).mpr ⟨fun field hfield => ?_, ?_⟩⟩,
      ⟨merged', hmerged', (sameInvoice_iff merged' x).mpr ⟨fun field hfield => ?_, ?_⟩⟩⟩
    · obtain ⟨choice, hchoice, hvalue⟩ := hm.listed field hfield
      rw [hvalue]
      exact (chosen_of_same (base.typed field) (x.typed field) (base.typed field) hchoice).1 (hself field hfield)
    · exact (agreesUnlisted_iff hm x).mpr hagrees
    · obtain ⟨choice, hchoice, hvalue⟩ := hm'.listed field hfield
      rw [hvalue]
      exact (chosen_of_same (base.typed field) (base.typed field) (x.typed field) hchoice).2 (hself field hfield)
    · exact (agreesUnlisted_iff hm' x).mpr hagrees

theorem takesChanged_base_iff {α : Type} (same : α → α → Prop) (base ours theirs : α) :
    TakesChanged same base ours theirs base ↔ (same base ours ↔ same base theirs) := by
  unfold TakesChanged
  tauto

/-- Every listed field that only one side has changed is taken from that side. -/
theorem takesChanges_iff {merged : Invoice Metadata} (h : Merged base ours theirs invoiceFields base merged) :
    TakesChanges base ours theirs merged ↔ EvenUnlisted base ours theirs := by
  rw [TakesChanges, EvenUnlisted, h.accessPolicy, h.metadata, takesChanged_base_iff, takesChanged_base_iff,
    List.forall_mem_append]
  have hlisted : ∀ field ∈ invoiceFields,
      TakesChanged Alike (base.data field) (ours.data field) (theirs.data field) (merged.data field) := by
    intro field hfield
    obtain ⟨choice, hchoice, hvalue⟩ := h.listed field hfield
    rw [hvalue]
    exact chosen_takesChanged (base.typed field) (ours.typed field) (theirs.typed field) hchoice
  refine and_congr_left' ((and_iff_right hlisted).trans (forall₂_congr (fun field hfield => ?_)))
  rw [h.unlisted field (unlisted_not_listed field hfield)]
  exact takesChanged_base_iff Alike _ _ _

theorem ConflictFree.swap (h : ConflictFree base ours theirs) : ConflictFree base theirs ours := by
  intro field hfield
  rcases h field hfield with h | h | h
  · exact .inr (.inl h)
  · exact .inl h
  · exact .inr (.inr (h.symm (theirs.typed field)))

theorem sameInvoice_swap {merged swapped : Invoice Metadata} (h : Merged base ours theirs invoiceFields base merged)
    (h' : Merged base theirs ours invoiceFields base swapped) : SameInvoice merged swapped := by
  refine (sameInvoice_iff merged swapped).mpr ⟨fun field hfield => ?_, ?_⟩
  · obtain ⟨choice, hchoice, hvalue⟩ := h.listed field hfield
    obtain ⟨choice', hchoice', hvalue'⟩ := h'.listed field hfield
    rw [hvalue, hvalue']
    exact chosen_swap (base.typed field) (ours.typed field) (theirs.typed field) hchoice hchoice'
  · refine (agreesUnlisted_iff h swapped).mpr ⟨fun field hfield => ?_, h'.accessPolicy.symm, h'.metadata.symm⟩
    rw [h'.unlisted field (unlisted_not_listed field hfield)]
    exact .refl _

theorem mergesFairly_iff (base ours theirs : Invoice Metadata) :
    MergesFairly base ours theirs ↔ (ConflictFree base ours theirs → EvenUnlisted base ours theirs) := by
  constructor
  · intro h hfree
    obtain ⟨merged, hmerged⟩ := mergeInvoices_ok_iff.mpr hfree
    exact (takesChanges_iff (merged_of_mergeInvoices hmerged)).mp (h merged hmerged).2
  · intro h merged hmerged
    have hfree := mergeInvoices_ok_iff.mp ⟨merged, hmerged⟩
    have hm := merged_of_mergeInvoices hmerged
    obtain ⟨swapped, hswapped⟩ := mergeInvoices_ok_iff.mpr hfree.swap
    exact ⟨⟨swapped, hswapped, sameInvoice_swap hm (merged_of_mergeInvoices hswapped)⟩,
      (takesChanges_iff hm).mpr (h hfree)⟩

/-- When the merge fast-forwards, and when its result is that of the two sides in either order. -/
theorem mergeInvoices_laws_iff (base x localCopy remoteCopy : Invoice Metadata) :
    (FastForwards base x ↔ NanFreeListed base ∧ AgreesUnlisted base x) ∧
      (MergesFairly base localCopy remoteCopy ↔
        (ConflictFree base localCopy remoteCopy → EvenUnlisted base localCopy remoteCopy)) :=
  ⟨fastForwards_iff base x, mergesFairly_iff base localCopy remoteCopy⟩

end Main

section Tags

def pendingData (tags : Value) (field : String) : Value :=
  if field = "deadline" then .number (.finite 2000000000)
  else if field = "funded" then .bigint 0
  else if field = "recipients" ∨ field = "payments" then .array []
  else if field = "tags" then tags
  else if field = "status" then .string "Pending"
  else if field = "id" ∨ field = "creator" ∨ field = "token" then .string field
  else .undefined

def pending (tags : Value) (h : HasShape (.array .string) tags) : Invoice Unit where
  data := pendingData tags
  typed := fun field => by
    unfold pendingData
    split_ifs with h1 h2 h3 h4 h5 h6
    · subst h1
      exact .number _
    · subst h2
      exact .bigint _
    · rcases h3 with rfl | rfl
      · exact .array (by simp)
      · exact .array (by simp)
    · subst h4
      exact h
    · subst h5
      exact .string _
    · rcases h6 with rfl | rfl | rfl
      · exact .string _
      · exact .string _
      · exact .string _
    · exact .undefined _
  accessPolicy := none
  metadata := none

def untagged : Invoice Unit := pending .undefined (.undefined _)

def tagged : Invoice Unit := pending (.array [.string "urgent"]) (.array (by simpa using HasShape.string "urgent"))

/-- Tags that one side has added are lost. -/
theorem mergeInvoices_loses_tags : ¬FastForwards untagged tagged := by
  intro h
  obtain ⟨-, hagrees, -⟩ := (fastForwards_iff untagged tagged).mp h
  have halike : Alike .undefined (.array [.string "urgent"]) := hagrees "tags" (by decide)
  cases halike

end Tags

end SplitSdk.MergeLaws
