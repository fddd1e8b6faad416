import SplitSdk.Interleaving
import SplitSdk.OptimisticCache

namespace SplitSdk.OptimisticRollback

open Interleaving Numbers OrderedMap OptimisticCache

section Statement

variable {V : Type} [DecidableEq V]

/-- A prediction takes as its rollback value what `get` returns just before. -/
inductive Move (V : Type)
  | predict (invoiceId : String) (predictedValue : Option V) (dateNow : JsNumber)
  | commit (i : Nat) (now dateNow : JsNumber)
  | rollback (i : Nat) (now dateNow : JsNumber)

def move (c : Cache V) : Move V → Option (Cache V)
  | .predict invoiceId predictedValue dateNow =>
      let (value, c) := get c invoiceId dateNow
      step c (.applyOptimistic invoiceId predictedValue value)
  | .commit i now dateNow => step c (.commit i now dateNow)
  | .rollback i now dateNow => step c (.rollback i now dateNow)

def committed (c : Cache V) (invoiceId : String) : List (OptimisticEntry V) :=
  c.entries.filter (fun entry => entry.invoiceId = invoiceId ∧ entry.settled = some .committed)

def AllSettled (c : Cache V) (invoiceId : String) : Prop :=
  ∀ entry ∈ c.entries, entry.invoiceId = invoiceId → entry.settled.isSome

/-- The committed prediction with the highest version, or the value before the first prediction. -/
def IsDue (before : Option V) (c : Cache V) (invoiceId : String) (value : Option V) : Prop :=
  (∃ entry ∈ committed c invoiceId,
    (∀ other ∈ committed c invoiceId, other.version ≤ entry.version) ∧ entry.predictedValue = value) ∨
  committed c invoiceId = [] ∧ value = before

instance (c : Cache V) (invoiceId : String) : Decidable (AllSettled c invoiceId) :=
  inferInstanceAs (Decidable (∀ entry ∈ c.entries, _))

instance (before : Option V) (c : Cache V) (invoiceId : String) (value : Option V) :
    Decidable (IsDue before c invoiceId value) :=
  inferInstanceAs (Decidable (_ ∨ _))

/-- The value of an invoice has not outlived its time. -/
def Unexpired (c : Cache V) (invoiceId : String) (dateNow : JsNumber) : Prop :=
  isExpired c invoiceId dateNow = false ∧
    ∀ entry ∈ c.base.store.get? invoiceId, entry.expiresAt.lt dateNow = false

instance (c : Cache V) (invoiceId : String) (dateNow : JsNumber) : Decidable (Unexpired c invoiceId dateNow) :=
  inferInstanceAs (Decidable (_ ∧ _))

/-- The step settles the prediction at place `i`, and no other one of the invoice is pending. -/
def SettlesLast (c : Cache V) (invoiceId : String) (i : Nat) (entry : OptimisticEntry V) : Prop :=
  entry.invoiceId = invoiceId ∧ entry.settled = none ∧ (queue c invoiceId).erase i = []

/-- The last pending prediction is committed only when no higher version has been, and rolled back only when
what it captured is still due. -/
def LastIsDue (before : Option V) (invoiceId : String) (c : Cache V) : Move V → Prop
  | .predict .. => True
  | .commit i _ _ => ∀ entry ∈ c.entries[i]?, SettlesLast c invoiceId i entry →
      ∀ other ∈ committed c invoiceId, other.version ≤ entry.version
  | .rollback i _ _ => ∀ entry ∈ c.entries[i]?, SettlesLast c invoiceId i entry →
      IsDue before c invoiceId entry.rollbackValue

/-- Nothing has expired when it is read, and no other invoice takes the place of this one in the base cache. -/
def Retained (invoiceId : String) (c : Cache V) : Move V → Prop
  | .predict k _ dateNow => Unexpired c k dateNow
  | .commit i _ _ | .rollback i _ _ =>
      ∀ entry ∈ c.entries[i]?, SimpleCache.evicted c.base entry.invoiceId ≠ some invoiceId

instance (c : Cache V) (invoiceId : String) (i : Nat) (entry : OptimisticEntry V) :
    Decidable (SettlesLast c invoiceId i entry) :=
  inferInstanceAs (Decidable (_ ∧ _ = none ∧ _))

instance (before : Option V) (invoiceId : String) (c : Cache V) (m : Move V) :
    Decidable (LastIsDue before invoiceId c m) := by
  cases m <;> unfold LastIsDue <;> infer_instance

instance (invoiceId : String) (c : Cache V) (m : Move V) : Decidable (Retained invoiceId c m) := by
  cases m <;> unfold Retained <;> infer_instance

end Statement

section Queue

variable {V : Type} {c : Cache V} {invoiceId : String}

theorem queue_removeEntry (c : Cache V) (i : Nat) (entry : OptimisticEntry V) (invoiceId : String) :
    queue (removeEntry c i entry) invoiceId =
      if invoiceId = entry.invoiceId then (queue c invoiceId).erase i else queue c invoiceId := by
  unfold removeEntry queue
  cases hget : c.pending.get? entry.invoiceId with
  | none =>
      split_ifs with h
      · rw [h, hget]
        rfl
      · rfl
  | some waiting =>
      dsimp only
      by_cases hnil : waiting.erase i = []
      · rw [if_pos hnil, OrdMap.get?_delete]
        split_ifs with h
        · rw [h, hget, Option.getD_some, hnil]
          rfl
        · rfl
      · rw [if_neg hnil, OrdMap.get?_set]
        split_ifs with h
        · rw [h, hget]
          rfl
        · rfl

/-- The queue of an invoice holds unsettled predictions of it. -/
structure QueueInv (c : Cache V) (invoiceId : String) : Prop where
  nodup : (queue c invoiceId).Nodup
  unsettled : ∀ i ∈ queue c invoiceId, ∃ entry, c.entries[i]? = some entry ∧ entry.invoiceId = invoiceId ∧
    entry.settled = none

theorem QueueInv.eq_nil (hi : QueueInv c invoiceId) (h : AllSettled c invoiceId) : queue c invoiceId = [] := by
  refine List.eq_nil_iff_forall_not_mem.mpr ?_
  intro i hmem
  obtain ⟨entry, hentry, hid, hsettled⟩ := hi.unsettled i hmem
  have := h entry (List.mem_of_getElem? hentry) hid
  rw [hsettled] at this
  nomatch this

theorem QueueInv.apply (hi : QueueInv c invoiceId) (k : String) (predictedValue rollbackValue : Option V) :
    QueueInv (applyOptimistic c k predictedValue rollbackValue) invoiceId := by
  have hlt : ∀ i ∈ queue c invoiceId, i < c.entries.length := by
    intro i hmem
    obtain ⟨entry, hentry, _⟩ := hi.unsettled i hmem
    exact (List.getElem?_eq_some_iff.mp hentry).1
  have hqueue : queue (applyOptimistic c k predictedValue rollbackValue) invoiceId =
      if invoiceId = k then queue c invoiceId ++ [c.entries.length] else queue c invoiceId := by
    unfold applyOptimistic queue
    rw [OrdMap.get?_set]
    split_ifs with h
    · rw [h]
      rfl
    · rfl
  refine ⟨?_, ?_⟩
  · rw [hqueue]
    split_ifs
    · refine List.nodup_append'.mpr ⟨hi.nodup, List.nodup_singleton _, List.disjoint_singleton.mpr ?_⟩
      exact fun hmem => absurd (hlt _ hmem) (Nat.lt_irrefl _)
    · exact hi.nodup
  · intro i hmem
    change ∃ entry, (c.entries ++ [_])[i]? = some entry ∧ _
    have hold : i ∈ queue c invoiceId → ∃ entry, (c.entries ++ [({
        invoiceId := k, version := (c.versionCounters.get? k).getD 0 + 1, predictedValue, rollbackValue } :
          OptimisticEntry V)])[i]? = some entry ∧ entry.invoiceId = invoiceId ∧ entry.settled = none := by
      intro hmem
      rw [List.getElem?_append_left (hlt i hmem)]
      exact hi.unsettled i hmem
    rw [hqueue] at hmem
    split_ifs at hmem with h
    · rcases List.mem_append.mp hmem with hmem | hmem
      · exact hold hmem
      · obtain rfl := List.mem_singleton.mp hmem
        exact ⟨_, List.getElem?_concat_length, h.symm, rfl⟩
    · exact hold hmem

theorem QueueInv.settle (hi : QueueInv c invoiceId) {i : Nat} {entry : OptimisticEntry V}
    (hentry : c.entries[i]? = some entry) {t : Cache V} {outcome : Outcome}
    (hentries : t.entries = c.entries.set i { entry with settled := some outcome })
    (hqueue : queue t invoiceId =
      if invoiceId = entry.invoiceId then (queue c invoiceId).erase i else queue c invoiceId) :
    QueueInv t invoiceId := by
  have hmem : ∀ j ∈ queue t invoiceId, j ∈ queue c invoiceId ∧ j ≠ i := by
    intro j hj
    rw [hqueue] at hj
    split_ifs at hj with h
    · obtain ⟨hne, hj⟩ := hi.nodup.mem_erase_iff.mp hj
      exact ⟨hj, hne⟩
    · refine ⟨hj, ?_⟩
      rintro rfl
      obtain ⟨other, hother, hid, _⟩ := hi.unsettled j hj
      obtain rfl := Option.some.inj (hentry.symm.trans hother)
      exact h hid.symm
  refine ⟨?_, ?_⟩
  · rw [hqueue]
    split_ifs
    · exact hi.nodup.erase i
    · exact hi.nodup
  · intro j hj
    obtain ⟨hj, hne⟩ := hmem j hj
    rw [hentries, List.getElem?_set_ne (Ne.symm hne)]
    exact hi.unsettled j hj

end Queue

section Due

variable {V : Type} {c t : Cache V} {invoiceId : String} {before value : Option V}

theorem mem_committed {entry : OptimisticEntry V} :
    entry ∈ committed c invoiceId ↔ entry ∈ c.entries ∧ entry.invoiceId = invoiceId ∧ entry.settled = some .committed := by
  simp only [committed, List.mem_filter, decide_eq_true_eq]

theorem IsDue.congr (h : IsDue before c invoiceId value)
    (hsame : ∀ entry, entry ∈ committed t invoiceId ↔ entry ∈ committed c invoiceId) : IsDue before t invoiceId value := by
  rcases h with ⟨entry, hmem, hmax, hvalue⟩ | ⟨hnil, hvalue⟩
  · exact .inl ⟨entry, (hsame entry).mpr hmem, fun other hother => hmax other ((hsame other).mp hother), hvalue⟩
  · refine .inr ⟨List.eq_nil_iff_forall_not_mem.mpr ?_, hvalue⟩
    intro entry hmem
    rw [hsame, hnil] at hmem
    nomatch hmem

/-- Settling a prediction changes what is committed by that prediction only. -/
theorem mem_committed_settle {i : Nat} {entry : OptimisticEntry V} (hentry : c.entries[i]? = some entry)
    (hunsettled : entry.settled = none) {outcome : Outcome}
    (hentries : t.entries = c.entries.set i { entry with settled := some outcome }) (other : OptimisticEntry V) :
    other ∈ committed t invoiceId ↔
      (other = { entry with settled := some outcome } ∧ entry.invoiceId = invoiceId ∧ outcome = .committed) ∨
      other ∈ committed c invoiceId := by
  have hlt := (List.getElem?_eq_some_iff.mp hentry).1
  rw [mem_committed, mem_committed, hentries]
  constructor
  · rintro ⟨hmem, hid, hsettled⟩
    obtain ⟨j, hj⟩ := List.mem_iff_getElem?.mp hmem
    by_cases hji : j = i
    · rw [hji, List.getElem?_set_self hlt] at hj
      obtain rfl := Option.some.inj hj
      exact .inl ⟨rfl, hid, Option.some.inj hsettled⟩
    · rw [List.getElem?_set_ne (Ne.symm hji)] at hj
      exact .inr ⟨List.mem_of_getElem? hj, hid, hsettled⟩
  · rintro (⟨rfl, hid, rfl⟩ | ⟨hmem, hid, hsettled⟩)
    · exact ⟨List.mem_of_getElem? (List.getElem?_set_self hlt), hid, rfl⟩
    · refine ⟨?_, hid, hsettled⟩
      obtain ⟨j, hj⟩ := List.mem_iff_getElem?.mp hmem
      have hji : j ≠ i := by
        rintro rfl
        rw [← Option.some.inj (hentry.symm.trans hj), hunsettled] at hsettled
        nomatch hsettled
      exact List.mem_of_getElem? ((List.getElem?_set_ne (Ne.symm hji)).trans hj)

end Due

section Base

variable {V : Type} {c : Cache V} {invoiceId : String}

/-- The value of an invoice in the base cache. -/
def stored (c : Cache V) (invoiceId : String) : Option V :=
  if c.base.config.enabled then (c.base.store.get? invoiceId).bind SimpleCache.MethodCacheEntry.value else none

theorem stores_congr {base base' : SimpleCache.Cache V} (h : base'.config = base.config) (key : String) :
    SimpleCache.stores base' key = SimpleCache.stores base key := by
  unfold SimpleCache.stores SimpleCache.ttlOf
  rw [h]

theorem base_get_value {dateNow : JsNumber} (h : ∀ entry ∈ c.base.store.get? invoiceId, entry.expiresAt.lt dateNow = false) :
    (SimpleCache.get c.base invoiceId dateNow).1 = stored c invoiceId := by
  rw [SimpleCache.get_value, stored]
  split_ifs
  · cases hentry : c.base.store.get? invoiceId with
    | none => rfl
    | some entry => rw [Option.bind_some, Option.bind_some, h entry hentry, if_neg Bool.false_ne_true]
  · rfl

/-- Reading an unexpired value only renews its use in the base cache. -/
theorem get_unexpired (invoiceId : String) {dateNow : JsNumber} (h : Unexpired c invoiceId dateNow) :
    ∃ base, (get c invoiceId dateNow).2 = { c with base } ∧ base.config = c.base.config ∧
      ∀ key, base.store.get? key = c.base.store.get? key := by
  unfold OptimisticCache.get
  cases newest c invoiceId with
  | some entry => exact ⟨c.base, rfl, rfl, fun _ => rfl⟩
  | none =>
      dsimp only
      rw [h.1, if_neg Bool.false_ne_true]
      exact ⟨_, rfl, SimpleCache.get_config _ _ _, SimpleCache.get?_get_of_fresh _ h.2⟩

theorem get_of_queue_eq_nil {dateNow : JsNumber} (h : Unexpired c invoiceId dateNow) (hnil : queue c invoiceId = []) :
    (get c invoiceId dateNow).1 = stored c invoiceId := by
  have hnewest : newest c invoiceId = none := by
    rw [newest, hnil]
    rfl
  rw [get_value, hnewest, h.1]
  exact base_get_value h.2

theorem stored_set_self (hstores : SimpleCache.stores c.base invoiceId) (value : Option V) (ttlMs now dateNow : JsNumber) :
    stored (set c invoiceId value ttlMs now dateNow) invoiceId = value := by
  have henabled : c.base.config.enabled = true := (Bool.and_eq_true_iff.mp hstores).1
  unfold stored OptimisticCache.set
  rw [SimpleCache.set_config, henabled, SimpleCache.get?_set_self _ _ _ hstores]
  rfl

theorem stored_set_of_ne {k : String} (hk : invoiceId ≠ k) (hroom : SimpleCache.evicted c.base k ≠ some invoiceId)
    (value : Option V) (ttlMs now dateNow : JsNumber) :
    stored (set c k value ttlMs now dateNow) invoiceId = stored c invoiceId := by
  unfold stored OptimisticCache.set
  rw [SimpleCache.set_config]
  rcases SimpleCache.get?_set_of_ne c.base value dateNow hk with h | ⟨h, _⟩
  · rw [h]
  · exact absurd h hroom

end Base

section Invariant

variable {V : Type} {c t : Cache V} {invoiceId : String} {before : Option V}

/-- While nothing is pending the base cache has the value that is due. -/
structure Inv (before : Option V) (invoiceId : String) (c : Cache V) : Prop where
  queue : QueueInv c invoiceId
  stores : SimpleCache.stores c.base invoiceId
  due : OptimisticCache.queue c invoiceId = [] → IsDue before c invoiceId (stored c invoiceId)

theorem predict_inv (hi : Inv before invoiceId c) {k : String} {dateNow : JsNumber} (h : Unexpired c k dateNow)
    (predictedValue : Option V) :
    Inv before invoiceId (applyOptimistic (get c k dateNow).2 k predictedValue (get c k dateNow).1) := by
  obtain ⟨base, hget, hconfig, hstore⟩ := get_unexpired k h
  rw [hget]
  have hqueue : QueueInv { c with base } invoiceId := ⟨hi.queue.nodup, hi.queue.unsettled⟩
  refine ⟨hqueue.apply k predictedValue _, ?_, ?_⟩
  · exact (stores_congr hconfig invoiceId).trans hi.stores
  · intro hnil
    have hk : invoiceId ≠ k := by
      rintro rfl
      change ((c.pending.set invoiceId _).get? invoiceId).getD [] = [] at hnil
      rw [OrdMap.get?_set, if_pos rfl] at hnil
      exact List.append_ne_nil_of_right_ne_nil _ (List.cons_ne_nil _ _) hnil
    have hnil' : queue c invoiceId = [] := by
      change ((c.pending.set k _).get? invoiceId).getD [] = [] at hnil
      rwa [OrdMap.get?_set, if_neg hk] at hnil
    have hstored : stored { c with base } invoiceId = stored c invoiceId := by
      unfold stored
      rw [hconfig, hstore]
    refine IsDue.congr (hstored ▸ hi.due hnil' : IsDue before c invoiceId (stored { c with base } invoiceId)) ?_
    intro entry
    rw [mem_committed, mem_committed]
    change entry ∈ c.entries ++ [_] ∧ _ ↔ _
    rw [List.mem_append, List.mem_singleton]
    constructor
    · rintro ⟨hmem | rfl, hid, hsettled⟩
      · exact ⟨hmem, hid, hsettled⟩
      · nomatch hsettled
    · rintro ⟨hmem, h⟩
      exact ⟨.inl hmem, h⟩

/-- What the last step of a prediction has to keep for the other invoices, and to reach for its own one. -/
theorem settle_inv (hi : Inv before invoiceId c) {i : Nat} {entry : OptimisticEntry V}
    (hentry : c.entries[i]? = some entry) (hsettled : entry.settled = none) {outcome : Outcome}
    (hentries : t.entries = c.entries.set i { entry with settled := some outcome })
    (hqueue : queue t invoiceId =
      if invoiceId = entry.invoiceId then (queue c invoiceId).erase i else queue c invoiceId)
    (hconfig : t.base.config = c.base.config)
    (hother : invoiceId ≠ entry.invoiceId → stored t invoiceId = stored c invoiceId)
    (hself : SettlesLast c invoiceId i entry → IsDue before t invoiceId (stored t invoiceId)) :
    Inv before invoiceId t := by
  refine ⟨hi.queue.settle hentry hentries hqueue, (stores_congr hconfig invoiceId).trans hi.stores, ?_⟩
  intro hnil
  rw [hqueue] at hnil
  split_ifs at hnil with hid
  · exact hself ⟨hid.symm, hsettled, hnil⟩
  · rw [hother hid]
    refine (hi.due hnil).congr ?_
    intro other
    rw [mem_committed_settle hentry hsettled hentries]
    exact or_iff_right (fun h => hid h.2.1.symm)

theorem commit_inv (hi : Inv before invoiceId c) {i : Nat} {entry : OptimisticEntry V}
    (hentry : c.entries[i]? = some entry) (now dateNow : JsNumber)
    (hlast : SettlesLast c invoiceId i entry → ∀ other ∈ committed c invoiceId, other.version ≤ entry.version)
    (hroom : SimpleCache.evicted c.base entry.invoiceId ≠ some invoiceId) :
    Inv before invoiceId (commit c i entry now dateNow) := by
  by_cases hsettled : entry.settled = none
  · rw [commit_of_unsettled i hsettled]
    obtain ⟨hentries, hbase⟩ := removeEntry_entries (set (settle c i entry .committed) entry.invoiceId
      entry.predictedValue c.options.defaultTtlMs now dateNow) i entry
    have hstored : ∀ id, stored (removeEntry (set (settle c i entry .committed) entry.invoiceId
        entry.predictedValue c.options.defaultTtlMs now dateNow) i entry) id =
        stored (set (settle c i entry .committed) entry.invoiceId entry.predictedValue c.options.defaultTtlMs now
          dateNow) id := by
      intro id
      unfold stored
      rw [hbase]
    refine settle_inv hi hentry hsettled hentries (queue_removeEntry _ i entry invoiceId) ?_ ?_ ?_
    · rw [hbase]
      exact SimpleCache.set_config _ _ _ _
    · intro hid
      rw [hstored]
      exact stored_set_of_ne (c := settle c i entry .committed) hid hroom _ _ _ _
    · intro hsettles
      obtain ⟨rfl, -, -⟩ := id hsettles
      rw [hstored, stored_set_self (c := settle c i entry .committed) hi.stores]
      refine .inl ⟨{ entry with settled := some .committed }, ?_, ?_, rfl⟩
      · exact (mem_committed_settle hentry hsettled hentries _).mpr (.inl ⟨rfl, rfl, rfl⟩)
      · intro other hother
        rcases (mem_committed_settle hentry hsettled hentries other).mp hother with ⟨rfl, _⟩ | hother
        · exact Nat.le_refl _
        · exact hlast hsettles other hother
  · rw [commit_of_settled i hsettled]
    exact hi

theorem rollback_inv (hi : Inv before invoiceId c) {i : Nat} {entry : OptimisticEntry V}
    (hentry : c.entries[i]? = some entry) (now dateNow : JsNumber)
    (hlast : SettlesLast c invoiceId i entry → IsDue before c invoiceId entry.rollbackValue)
    (hroom : SimpleCache.evicted c.base entry.invoiceId ≠ some invoiceId) :
    Inv before invoiceId (rollback c i entry now dateNow).2 := by
  by_cases hsettled : entry.settled = none
  · rw [rollback_of_unsettled i hsettled]
    obtain ⟨hentries, hbase⟩ := removeEntry_entries (settle c i entry .rolledBack) i entry
    have hqueue := queue_removeEntry (settle c i entry .rolledBack) i entry
    generalize removeEntry (settle c i entry .rolledBack) i entry = removed at hentries hbase hqueue
    have hsame : ∀ {t : Cache V}, t.entries = removed.entries → ∀ other,
        other ∈ committed t invoiceId ↔ other ∈ committed c invoiceId := by
      intro t ht other
      rw [mem_committed_settle hentry hsettled (ht.trans hentries)]
      exact or_iff_right (fun h => nomatch h.2.2)
    dsimp only
    split_ifs with hnil
    · refine settle_inv hi hentry hsettled hentries (hqueue invoiceId) ?_ ?_ ?_
      · refine (SimpleCache.set_config _ _ _ _).trans ?_
        rw [hbase]
        rfl
      · intro hid
        rw [stored_set_of_ne hid (by rw [hbase]; exact hroom), stored, hbase]
        rfl
      · intro hsettles
        obtain ⟨rfl, -, -⟩ := id hsettles
        rw [stored_set_self (by rw [hbase]; exact hi.stores)]
        exact (hlast hsettles).congr (hsame rfl)
    · refine settle_inv hi hentry hsettled hentries (hqueue invoiceId) ?_ ?_ ?_
      · rw [hbase]
        rfl
      · intro hid
        rw [stored, hbase]
        rfl
      · rintro ⟨hid, -, herase⟩
        rw [hqueue, if_pos rfl, hid] at hnil
        exact absurd herase hnil
  · rw [rollback_of_settled i hsettled]
    exact hi

theorem move_inv (c : Cache V) (m : Move V) (t : Cache V) (hi : Inv before invoiceId c)
    (hok : LastIsDue before invoiceId c m ∧ Retained invoiceId c m) (h : move c m = some t) :
    Inv before invoiceId t := by
  obtain ⟨hdue, hretained⟩ := hok
  cases m with
  | predict k predictedValue dateNow =>
      obtain rfl := Option.some.inj h
      exact predict_inv hi hretained predictedValue
  | commit i now dateNow =>
      obtain ⟨entry, hentry, rfl⟩ := Option.map_eq_some_iff.mp h
      exact commit_inv hi hentry now dateNow (hdue entry hentry) (hretained entry hentry)
  | rollback i now dateNow =>
      obtain ⟨entry, hentry, rfl⟩ := Option.map_eq_some_iff.mp h
      exact rollback_inv hi hentry now dateNow (hdue entry hentry) (hretained entry hentry)

end Invariant

section Result

variable {V : Type}

/-- Once all predictions of an invoice are settled, `get` returns what is due, provided that the one that was
settled last left that in the base cache. -/
theorem get_due (c t : Cache V) (invoiceId : String) (moves : List (Move V)) (start stop : JsNumber)
    (hentries : c.entries = []) (hpending : c.pending = .empty) (hstores : SimpleCache.stores c.base invoiceId)
    (hstart : Unexpired c invoiceId start)
    (hdue : Allowed move (LastIsDue (get c invoiceId start).1 invoiceId) c moves)
    (hretained : Allowed move (Retained invoiceId) c moves) (hrun : run move c moves = some t)
    (hsettled : AllSettled t invoiceId) (hstop : Unexpired t invoiceId stop) :
    IsDue (get c invoiceId start).1 t invoiceId (get t invoiceId stop).1 := by
  have hqueue : queue c invoiceId = [] := by
    rw [queue, hpending]
    rfl
  have hinv : Inv (get c invoiceId start).1 invoiceId c := by
    refine ⟨⟨hqueue ▸ List.nodup_nil, ?_⟩, hstores, ?_⟩
    · intro i hmem
      rw [hqueue] at hmem
      nomatch hmem
    · intro _
      refine .inr ⟨by rw [committed, hentries]; rfl, ?_⟩
      exact (get_of_queue_eq_nil hstart hqueue).symm
  have hfinal := run_invariant move_inv c t moves hinv (allowed_and hdue hretained) hrun
  have hnil := hfinal.queue.eq_nil hsettled
  rw [get_of_queue_eq_nil hstop hnil]
  exact hfinal.due hnil

end Result

section Runs

def inv1 : Cache Nat := set (create none {}) "inv-1" (some 100) (.finite 60000) (.finite 0) (.finite 0)

def twoPredictions : List (Move Nat) :=
  [.predict "inv-1" (some 150) (.finite 1), .predict "inv-1" (some 200) (.finite 2)]

def newestRolledBack : List (Move Nat) :=
  twoPredictions ++ [.rollback 1 (.finite 3) (.finite 3), .commit 0 (.finite 4) (.finite 4)]

theorem get_due_newest_first : ∃ t, run move inv1 newestRolledBack = some t ∧
    IsDue (get inv1 "inv-1" (.finite 0)).1 t "inv-1" (get t "inv-1" (.finite 5)).1 := by
  obtain ⟨t, hrun, hsettled, hstop⟩ : ∃ t ∈ run move inv1 newestRolledBack,
      AllSettled t "inv-1" ∧ Unexpired t "inv-1" (.finite 5) := by decide +kernel
  refine ⟨t, hrun, ?_⟩
  exact get_due inv1 t "inv-1" newestRolledBack (.finite 0) (.finite 5) rfl rfl (by rfl) (by decide +kernel)
    (by decide +kernel) (by decide +kernel) hrun hsettled hstop

/-- Both predictions are rolled back, and the first one stays visible. -/
theorem rolled_back_stays : (get inv1 "inv-1" (.finite 0)).1 = some 100 ∧
    ∃ t ∈ run move inv1
      (twoPredictions ++ [.rollback 0 (.finite 3) (.finite 3), .rollback 1 (.finite 4) (.finite 4)]),
      AllSettled t "inv-1" ∧ Unexpired t "inv-1" (.finite 5) ∧ (committed t "inv-1").length = 0 ∧
        (get t "inv-1" (.finite 5)).1 = some 150 := by
  decide +kernel

end Runs

end SplitSdk.OptimisticRollback
