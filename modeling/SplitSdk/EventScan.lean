import Mathlib.Data.List.Basic
import Mathlib.Data.Set.Function

namespace SplitSdk.EventScan

section Scan

variable {ε κ : Type} (key : ε → κ) (watched : ε → Prop)

/-- A loop over a batch that takes what it watches, but nothing whose key it has seen. It may be given up
at an event that it does not watch. The indices are the keys seen before, the batch, the keys seen after it,
what was taken, and whether the loop has come to the end. -/
inductive Scanned : List κ → List ε → List κ → List ε → Bool → Prop
  | nil (seen : List κ) : Scanned seen [] seen [] true
  | known {seen seen' : List κ} {event : ε} {events taken : List ε} {done : Bool} (hseen : key event ∈ seen)
      (h : Scanned seen events seen' taken done) : Scanned seen (event :: events) seen' taken done
  | other {seen seen' : List κ} {event : ε} {events taken : List ε} {done : Bool} (hwatched : ¬watched event)
      (h : Scanned (key event :: seen) events seen' taken done) : Scanned seen (event :: events) seen' taken done
  | fresh {seen seen' : List κ} {event : ε} {events taken : List ε} {done : Bool} (hseen : key event ∉ seen)
      (hwatched : watched event) (h : Scanned (key event :: seen) events seen' taken done) :
      Scanned seen (event :: events) seen' (event :: taken) done
  | givenUp {seen : List κ} {event : ε} {events : List ε} (hwatched : ¬watched event) :
      Scanned seen (event :: events) (key event :: seen) [] false

variable {key watched} {seen seen' : List κ} {events taken : List ε} {done : Bool}

theorem Scanned.subset (h : Scanned key watched seen events seen' taken done) : seen ⊆ seen' := by
  induction h with
  | nil => exact List.Subset.refl _
  | known _ _ ih => exact ih
  | other _ _ ih => exact List.Subset.trans (List.subset_cons_self _ _) ih
  | fresh _ _ _ ih => exact List.Subset.trans (List.subset_cons_self _ _) ih
  | givenUp => exact List.subset_cons_self _ _

/-- A loop that has come to the end has seen every key. -/
theorem Scanned.seen_of_done (h : Scanned key watched seen events seen' taken done) (hdone : done = true) :
    ∀ event ∈ events, key event ∈ seen' := by
  induction h with
  | nil => simp
  | known hseen h ih => exact List.forall_mem_cons.mpr ⟨h.subset hseen, ih hdone⟩
  | other _ h ih => exact List.forall_mem_cons.mpr ⟨h.subset List.mem_cons_self, ih hdone⟩
  | fresh _ _ h ih => exact List.forall_mem_cons.mpr ⟨h.subset List.mem_cons_self, ih hdone⟩
  | givenUp => cases hdone

theorem Scanned.taken_new (h : Scanned key watched seen events seen' taken done) :
    ∀ event ∈ taken, key event ∉ seen := by
  induction h with
  | nil | givenUp => simp
  | known _ _ ih => exact ih
  | other _ _ ih => exact fun event hevent => mt (List.mem_cons_of_mem _) (ih event hevent)
  | fresh hseen _ _ ih =>
      exact List.forall_mem_cons.mpr
        ⟨hseen, fun event hevent => mt (List.mem_cons_of_mem _) (ih event hevent)⟩

/-- A key is first seen on an event that is taken, if it is watched. -/
theorem Scanned.source (h : Scanned key watched seen events seen' taken done) :
    ∀ k ∈ seen', k ∈ seen ∨ ∃ event ∈ events, key event = k ∧ (watched event → event ∈ taken) := by
  induction h with
  | nil => exact fun k hk => .inl hk
  | known _ _ ih =>
      intro k hk
      refine (ih k hk).imp_right ?_
      rintro ⟨event, hevent, hkey⟩
      exact ⟨event, List.mem_cons_of_mem _ hevent, hkey⟩
  | @other _ _ first _ _ _ hwatched _ ih =>
      intro k hk
      rcases ih k hk with hmem | ⟨event, hevent, hkey⟩
      · rcases List.mem_cons.mp hmem with rfl | hmem
        · exact .inr ⟨first, List.mem_cons_self, rfl, fun h => absurd h hwatched⟩
        · exact .inl hmem
      · exact .inr ⟨event, List.mem_cons_of_mem _ hevent, hkey⟩
  | @fresh _ _ first _ _ _ _ _ _ ih =>
      intro k hk
      rcases ih k hk with hmem | ⟨event, hevent, hkey, htaken⟩
      · rcases List.mem_cons.mp hmem with rfl | hmem
        · exact .inr ⟨first, List.mem_cons_self, rfl, fun _ => List.mem_cons_self⟩
        · exact .inl hmem
      · exact .inr ⟨event, List.mem_cons_of_mem _ hevent, hkey, fun h => List.mem_cons_of_mem _ (htaken h)⟩
  | @givenUp _ first _ hwatched =>
      intro k hk
      rcases List.mem_cons.mp hk with rfl | hk
      · exact .inr ⟨first, List.mem_cons_self, rfl, fun h => absurd h hwatched⟩
      · exact .inl hk

end Scan

section Account

variable {ι ε κ : Type} {key : ε → κ} {watched : ε → Prop} {content : ι → ε}

/-- Of the events that were returned, those in batches that were gone through have keys that were seen, and
behind every such key is an event that was handed over, if it is watched. -/
structure Accounted (key : ε → κ) (watched : ε → Prop) (content : ι → ε) (returned settled : List ι)
    (seen : List κ) (handed : List ε) : Prop where
  settled : ∀ id ∈ settled, key (content id) ∈ seen
  source : ∀ k ∈ seen, ∃ id ∈ returned, key (content id) = k ∧ (watched (content id) → content id ∈ handed)

variable {returned settled ids : List ι} {seen seen' : List κ} {handed taken : List ε} {done : Bool}

theorem accounted_nil : Accounted key watched content [] [] [] [] := ⟨by simp, by simp⟩

theorem Accounted.scan (ha : Accounted key watched content returned settled seen handed)
    (h : Scanned key watched seen (ids.map content) seen' taken done) :
    Accounted key watched content (returned ++ ids) (if done then settled ++ ids else settled) seen' (handed ++ taken) := by
  constructor
  · intro id hid
    cases done with
    | false => exact h.subset (ha.settled id hid)
    | true =>
        rcases List.mem_append.mp hid with hid | hid
        · exact h.subset (ha.settled id hid)
        · exact h.seen_of_done rfl _ (List.mem_map_of_mem hid)
  · intro k hk
    rcases h.source k hk with hold | ⟨event, hevent, hkey, htaken⟩
    · obtain ⟨id, hid, hkey, hhanded⟩ := ha.source k hold
      exact ⟨id, List.mem_append_left _ hid, hkey, fun hw => List.mem_append_left _ (hhanded hw)⟩
    · obtain ⟨id, hid, rfl⟩ := List.mem_map.mp hevent
      exact ⟨id, List.mem_append_right _ hid, hkey, fun hw => List.mem_append_right _ (htaken hw)⟩

/-- A watched event with a key of its own was handed over. -/
theorem Accounted.handed_of_distinct (ha : Accounted key watched content returned settled seen handed) {id : ι}
    (hid : id ∈ settled) (hwatched : watched (content id))
    (hdistinct : ∀ id' ∈ returned, key (content id') = key (content id) → id' = id) : content id ∈ handed := by
  obtain ⟨id', hid', hkey, hhanded⟩ := ha.source _ (ha.settled id hid)
  obtain rfl := hdistinct id' hid' hkey
  exact hhanded hwatched

/-- Every watched event was handed over, each at a place of its own. -/
def HandedEach (watched : ε → Prop) (content : ι → ε) (settled : List ι) (handed : List ε) : Prop :=
  ∃ place : ι → Nat, (∀ id ∈ settled, watched (content id) → handed[place id]? = some (content id)) ∧
    ∀ id ∈ settled, ∀ id' ∈ settled, watched (content id) → watched (content id') → place id = place id' → id = id'

/-- Equal keys are those of one event, where it is watched. -/
def KeysIdentify (key : ε → κ) (watched : ε → Prop) (content : ι → ε) (returned : List ι) : Prop :=
  ∀ id ∈ returned, ∀ id' ∈ returned, watched (content id) → key (content id') = key (content id) → id' = id

theorem Accounted.handedEach (ha : Accounted key watched content returned settled seen handed)
    (hkeys : KeysIdentify key watched content returned) (hsub : settled ⊆ returned) :
    HandedEach watched content settled handed := by
  classical
  have hhanded : ∀ id ∈ settled, watched (content id) → content id ∈ handed := fun id hid hwatched =>
    ha.handed_of_distinct hid hwatched (fun id' hid' => hkeys id (hsub hid) id' hid' hwatched)
  have hplace : ∀ id ∈ settled, watched (content id) → handed[handed.idxOf (content id)]? = some (content id) :=
    fun id hid hwatched => List.getElem?_idxOf (hhanded id hid hwatched)
  refine ⟨fun id => handed.idxOf (content id), hplace, fun id hid id' hid' hw hw' he => ?_⟩
  have hcontent : content id = content id' := by
    have h := hplace id hid hw
    dsimp only at he
    rw [he, hplace id' hid' hw', Option.some_inj] at h
    exact h.symm
  exact hkeys id' (hsub hid') id (hsub hid) hw' (congrArg key hcontent)

end Account

end SplitSdk.EventScan
