import SplitSdk.Interleaving
import SplitSdk.OptimisticCache

namespace SplitSdk.CacheInvalidation

open Interleaving Numbers OptimisticCache OrderedMap

section Statement

variable {V : Type}

/-- The step stores no value under `k`. A prediction stores one when it is applied and one when it is settled. -/
def StoresNothing (k : String) (c : Cache V) : Event V → Prop
  | .set invoiceId _ _ _ _ | .applyOptimistic invoiceId _ _ => invoiceId ≠ k
  | .commit i _ _ | .rollback i _ _ => ∀ entry ∈ c.entries[i]?, entry.settled = none → entry.invoiceId ≠ k
  | .fetched j answer _ _ => ∀ fetch ∈ c.fetches[j]?.join, answer.join.isSome → fetch.key ≠ k
  | _ => True

/-- `get` has no value for `k`, and `read` has to fetch one. -/
def Forgotten (k : String) (now dateNow : JsNumber) (c : Cache V) : Prop :=
  (get c k dateNow).1 = none ∧ ∀ ttlMs, (read c k ttlMs now).1 = .fetching

/-- Nothing is answered for `k` until a value is stored under it. -/
def StaysForgotten (k : String) (now dateNow : JsNumber) (c : Cache V) : Prop :=
  ∀ es t, Allowed step (StoresNothing k) c es → run step c es = some t → Forgotten k now dateNow t

def AnswersAs (k : String) (now dateNow : JsNumber) (c t : Cache V) : Prop :=
  (get t k dateNow).1 = (get c k dateNow).1 ∧ ∀ ttlMs, (read t k ttlMs now).1 = (read c k ttlMs now).1

/-- `read` still answers `k` with what was stored last. -/
def Servable (k : String) (now : JsNumber) (c : Cache V) : Prop :=
  ∃ entry ∈ c.freshness.get? k, now.lt entry.staleUntil

def Held (k : String) (dateNow : JsNumber) (base : SimpleCache.Cache V) : Prop :=
  base.config.enabled ∧ ∃ entry ∈ base.store.get? k, entry.expiresAt.lt dateNow = false ∧ entry.value.isSome

/-- `get` answers `k` from the base cache. -/
def InBase (k : String) (dateNow : JsNumber) (c : Cache V) : Prop :=
  newest c k = none ∧ isExpired c k dateNow = false ∧ Held k dateNow c.base

end Statement

section Base

variable {V : Type} {base base' base'' : SimpleCache.Cache V} {k : String}

/-- The value of `k` in the base cache can only get lost. -/
structure Sheds (k : String) (base base' : SimpleCache.Cache V) : Prop where
  config : base'.config = base.config
  store : base'.store.get? k = none ∨ base'.store.get? k = base.store.get? k

theorem Sheds.refl (base : SimpleCache.Cache V) : Sheds k base base := ⟨rfl, .inr rfl⟩

theorem Sheds.trans (h : Sheds k base base') (h' : Sheds k base' base'') : Sheds k base base'' := by
  refine ⟨h'.config.trans h.config, ?_⟩
  rcases h'.store with hnone | hsame
  · exact .inl hnone
  · rw [hsame]
    exact h.store

theorem sheds_get (base : SimpleCache.Cache V) (key : String) (now : JsNumber) :
    Sheds k base (SimpleCache.get base key now).2 := by
  refine ⟨SimpleCache.get_config base key now, ?_⟩
  rcases SimpleCache.get?_get base key k now with hsame | ⟨_, hnone⟩
  · exact .inr hsame
  · exact .inl hnone

theorem sheds_delete (base : SimpleCache.Cache V) (key : String) : Sheds k base (SimpleCache.delete base key) := by
  refine ⟨SimpleCache.delete_config base key, ?_⟩
  rw [SimpleCache.get?_delete]
  split_ifs
  · exact .inl rfl
  · exact .inr rfl

theorem sheds_set {key : String} (hk : key ≠ k) (base : SimpleCache.Cache V) (value : Option V) (now : JsNumber) :
    Sheds k base (SimpleCache.set base key value now) := by
  refine ⟨SimpleCache.set_config base key value now, ?_⟩
  rcases SimpleCache.get?_set_of_ne base value now (Ne.symm hk) with hsame | ⟨_, hnone⟩
  · exact .inr hsame
  · exact .inl hnone

/-- A value is read from the base cache when it holds one. -/
theorem get_eq_none_iff (base : SimpleCache.Cache V) (k : String) (dateNow : JsNumber) :
    (SimpleCache.get base k dateNow).1 = none ↔ ¬Held k dateNow base := by
  rw [SimpleCache.get_value, Held]
  cases base.config.enabled with
  | false => simp
  | true =>
      cases base.store.get? k with
      | none => simp
      | some entry => cases hexpired : entry.expiresAt.lt dateNow <;> simp [hexpired]

theorem Held.of_sheds {dateNow : JsNumber} (hsheds : Sheds k base base') (h : Held k dateNow base') :
    Held k dateNow base := by
  obtain ⟨henabled, entry, hentry, hvalue⟩ := h
  rcases hsheds.store with hnone | hsame
  · nomatch hnone.symm.trans hentry
  · exact ⟨hsheds.config ▸ henabled, entry, hsame ▸ hentry, hvalue⟩

end Base

section Steps

variable {V : Type} {c t u : Cache V} {k : String}

/-- What is left of `k` when nothing is stored under it. -/
structure OnlyForgets (k : String) (c t : Cache V) : Prop where
  pending : c.pending.get? k = none → t.pending.get? k = none
  freshness : t.freshness.get? k = c.freshness.get? k
  base : Sheds k c.base t.base

theorem OnlyForgets.refl (c : Cache V) : OnlyForgets k c c := ⟨id, rfl, .refl _⟩

theorem OnlyForgets.trans (h : OnlyForgets k c t) (h' : OnlyForgets k t u) : OnlyForgets k c u :=
  ⟨h'.pending ∘ h.pending, h'.freshness.trans h.freshness, h.base.trans h'.base⟩

theorem onlyForgets_get (c : Cache V) (invoiceId : String) (dateNow : JsNumber) :
    OnlyForgets k c (get c invoiceId dateNow).2 := by
  unfold OptimisticCache.get
  cases newest c invoiceId with
  | some entry => exact .refl c
  | none =>
      dsimp only
      split_ifs
      · exact ⟨id, rfl, (sheds_get _ _ _).trans (sheds_delete _ _)⟩
      · exact ⟨id, rfl, sheds_get _ _ _⟩

theorem onlyForgets_set {invoiceId : String} (hk : invoiceId ≠ k) (c : Cache V) (value : Option V)
    (ttlMs now dateNow : JsNumber) : OnlyForgets k c (set c invoiceId value ttlMs now dateNow) := by
  refine ⟨id, ?_, sheds_set hk _ _ _⟩
  exact (OrdMap.get?_set _ _ _ _).trans (if_neg (Ne.symm hk))

theorem onlyForgets_removeEntry {entry : OptimisticEntry V} (hk : entry.invoiceId ≠ k) (c : Cache V) (i : Nat) :
    OnlyForgets k c (removeEntry c i entry) := by
  unfold removeEntry
  split
  · exact .refl c
  · refine ⟨fun hnone => ?_, rfl, .refl _⟩
    dsimp only
    split_ifs
    · rw [OrdMap.get?_delete, if_neg (Ne.symm hk), hnone]
    · rw [OrdMap.get?_set, if_neg (Ne.symm hk), hnone]

theorem onlyForgets_settle (c : Cache V) (i : Nat) (entry : OptimisticEntry V) (outcome : Outcome) :
    OnlyForgets k c (settle c i entry outcome) := ⟨id, rfl, .refl _⟩

theorem onlyForgets_commit {i : Nat} {entry : OptimisticEntry V} (hk : entry.settled = none → entry.invoiceId ≠ k)
    (c : Cache V) (now dateNow : JsNumber) : OnlyForgets k c (commit c i entry now dateNow) := by
  by_cases hsettled : entry.settled = none
  · have hid := hk hsettled
    rw [commit_of_unsettled i hsettled]
    exact ((onlyForgets_settle c i entry _).trans (onlyForgets_set hid _ _ _ _ _)).trans
      (onlyForgets_removeEntry hid _ _)
  · rw [commit_of_settled i hsettled]
    exact .refl c

theorem onlyForgets_rollback {i : Nat} {entry : OptimisticEntry V} (hk : entry.settled = none → entry.invoiceId ≠ k)
    (c : Cache V) (now dateNow : JsNumber) : OnlyForgets k c (rollback c i entry now dateNow).2 := by
  by_cases hsettled : entry.settled = none
  · have hid := hk hsettled
    have hremoved := (onlyForgets_settle c i entry .rolledBack).trans (onlyForgets_removeEntry hid _ i)
    rw [rollback_of_unsettled i hsettled]
    dsimp only
    split_ifs
    · exact hremoved.trans (onlyForgets_set hid _ _ _ _ _)
    · exact hremoved
  · rw [rollback_of_settled i hsettled]
    exact .refl c

theorem onlyForgets_read (c : Cache V) (key : String) (ttlMs now : JsNumber) :
    OnlyForgets k c (read c key ttlMs now).2 := by
  unfold OptimisticCache.read
  split
  · split_ifs
    · exact .refl c
    · exact ⟨id, rfl, .refl _⟩
  · exact ⟨id, rfl, .refl _⟩

theorem onlyForgets_fetched {fetch : Fetch} {answer : Option (Option V)} (hk : answer.join.isSome → fetch.key ≠ k)
    (c : Cache V) (j : Nat) (now dateNow : JsNumber) : OnlyForgets k c (fetched c j fetch answer now dateNow) := by
  match answer with
  | none => exact ⟨id, rfl, .refl _⟩
  | some none => exact ⟨id, rfl, .refl _⟩
  | some (some value) =>
      have hset := onlyForgets_set (hk rfl) c (some value) fetch.ttlMs now dateNow
      exact ⟨hset.pending, hset.freshness, hset.base⟩

theorem onlyForgets_invalidate (c : Cache V) (invoiceId : String) : OnlyForgets k c (invalidate c invoiceId) := by
  refine ⟨fun hnone => ?_, rfl, sheds_delete _ _⟩
  change (c.pending.delete invoiceId).get? k = none
  rw [OrdMap.get?_delete, hnone, ite_self]

theorem onlyForgets_invalidateAll (c : Cache V) : OnlyForgets k c (invalidateAll c) := by
  unfold invalidateAll
  generalize knownKeys c = keys
  induction keys generalizing c with
  | nil => exact .refl c
  | cons key keys ih => exact (onlyForgets_invalidate c key).trans (ih _)

theorem step_onlyForgets (e : Event V) (hok : StoresNothing k c e) (h : step c e = some t) : OnlyForgets k c t := by
  cases e with
  | get invoiceId dateNow =>
      obtain rfl := Option.some.inj h
      exact onlyForgets_get c invoiceId dateNow
  | set invoiceId value ttlMs now dateNow =>
      obtain rfl := Option.some.inj h
      exact onlyForgets_set hok c value ttlMs now dateNow
  | read key ttlMs now =>
      obtain rfl := Option.some.inj h
      exact onlyForgets_read c key ttlMs now
  | fetched j answer now dateNow =>
      obtain ⟨fetch, hfetch, rfl⟩ := Option.map_eq_some_iff.mp h
      exact onlyForgets_fetched (hok fetch hfetch) c j now dateNow
  | applyOptimistic invoiceId predictedValue rollbackValue =>
      obtain rfl := Option.some.inj h
      refine ⟨fun hnone => ?_, rfl, .refl _⟩
      exact ((OrdMap.get?_set _ _ _ _).trans (if_neg (Ne.symm hok))).trans hnone
  | commit i now dateNow =>
      obtain ⟨entry, hentry, rfl⟩ := Option.map_eq_some_iff.mp h
      exact onlyForgets_commit (hok entry hentry) c now dateNow
  | rollback i now dateNow =>
      obtain ⟨entry, hentry, rfl⟩ := Option.map_eq_some_iff.mp h
      exact onlyForgets_rollback (hok entry hentry) c now dateNow
  | invalidate invoiceId =>
      obtain rfl := Option.some.inj h
      exact onlyForgets_invalidate c invoiceId
  | invalidateAll =>
      obtain rfl := Option.some.inj h
      exact onlyForgets_invalidateAll c

theorem run_onlyForgets (c t : Cache V) (es : List (Event V)) (hok : Allowed step (StoresNothing k) c es)
    (hrun : run step c es = some t) : OnlyForgets k c t := by
  refine run_invariant (I := OnlyForgets k c) ?_ c t es (.refl c) hok hrun
  intro s e u hs he hstep
  exact hs.trans (step_onlyForgets e he hstep)

end Steps

section Answers

variable {V : Type} {c t : Cache V} {k : String} {now dateNow : JsNumber}

theorem read_fetching_iff (c : Cache V) (k : String) (now : JsNumber) :
    (∀ ttlMs, (read c k ttlMs now).1 = .fetching) ↔ ¬Servable k now c := by
  unfold OptimisticCache.read Servable
  cases hentry : (c.freshness.get? k).filter (fun entry => now.lt entry.staleUntil) with
  | none =>
      refine ⟨fun _ => ?_, fun _ _ => rfl⟩
      rintro ⟨entry, hmem, hstale⟩
      exact absurd hstale (Option.filter_eq_none_iff.mp hentry entry hmem)
  | some entry =>
      obtain ⟨hmem, hstale⟩ := Option.filter_eq_some_iff.mp hentry
      refine ⟨fun h => ?_, fun h => absurd ⟨entry, hmem, hstale⟩ h⟩
      have hread := h (.finite 0)
      dsimp only at hread
      split_ifs at hread

/-- What `read` answers depends on the freshness of the key only. -/
theorem read_congr (hfreshness : t.freshness = c.freshness) (hrevalidations : t.revalidations = c.revalidations)
    (ttlMs : JsNumber) : (read t k ttlMs now).1 = (read c k ttlMs now).1 := by
  unfold OptimisticCache.read
  rw [hfreshness, hrevalidations]
  split
  · split_ifs
    · rfl
    · rfl
  · rfl

theorem newest_eq_none (h : c.pending.get? k = none) : newest c k = none := by
  rw [newest, queue, h]
  rfl

theorem forgotten_of_not_held (hpending : c.pending.get? k = none) (hread : ¬Servable k now c)
    (hbase : ¬Held k dateNow c.base) : Forgotten k now dateNow c := by
  refine ⟨?_, (read_fetching_iff c k now).mpr hread⟩
  rw [get_value, newest_eq_none hpending, (get_eq_none_iff _ _ _).mpr hbase]
  exact ite_self _

/-- A key without predictions and without an expiry is forgotten for good when it is in neither place that is left. -/
theorem staysForgotten_iff (hpending : c.pending.get? k = none) (hexpiry : c.expiries.get? k = none) :
    StaysForgotten k now dateNow c ↔ ¬Servable k now c ∧ ¬Held k dateNow c.base := by
  constructor
  · intro h
    obtain ⟨hget, hread⟩ := h [] c trivial rfl
    refine ⟨(read_fetching_iff c k now).mp hread, (get_eq_none_iff _ _ _).mp ?_⟩
    have hexpired : isExpired c k dateNow = false := by
      rw [isExpired, hexpiry]
      rfl
    rw [get_value, newest_eq_none hpending, hexpired] at hget
    exact hget
  · rintro ⟨hread, hbase⟩ es t hok hrun
    have hforgets := run_onlyForgets c t es hok hrun
    refine forgotten_of_not_held (hforgets.pending hpending) ?_ (fun h => hbase (h.of_sheds hforgets.base))
    rintro ⟨entry, hentry, hstale⟩
    exact hread ⟨entry, hforgets.freshness ▸ hentry, hstale⟩

end Answers

section Invalidate

variable {V : Type} {k : String} {now dateNow : JsNumber}

theorem invalidate_pending (c : Cache V) (invoiceId k : String) :
    (invalidate c invoiceId).pending.get? k = if k = invoiceId then none else c.pending.get? k :=
  OrdMap.get?_delete _ _ _

theorem invalidate_expiries (c : Cache V) (invoiceId k : String) :
    (invalidate c invoiceId).expiries.get? k = if k = invoiceId then none else c.expiries.get? k :=
  OrdMap.get?_delete _ _ _

theorem get_delete (base : SimpleCache.Cache V) (key k : String) (dateNow : JsNumber) :
    (SimpleCache.get (SimpleCache.delete base key) k dateNow).1 =
      if SimpleCache.Swept key k then none else (SimpleCache.get base k dateNow).1 := by
  rw [SimpleCache.get_value, SimpleCache.get_value, SimpleCache.delete_config, SimpleCache.get?_delete]
  split_ifs
  · rfl
  · rfl
  · rfl
  · rfl

theorem held_delete (base : SimpleCache.Cache V) (key k : String) (dateNow : JsNumber) :
    Held k dateNow (SimpleCache.delete base key) ↔ Held k dateNow base ∧ ¬SimpleCache.Swept key k := by
  rw [← not_iff_not, ← get_eq_none_iff, get_delete, not_and_not_right]
  split_ifs with hswept
  · exact iff_of_true rfl (fun _ => hswept)
  · rw [get_eq_none_iff]
    exact ⟨fun h hheld => absurd hheld h, fun h hheld => hswept (h hheld)⟩

theorem swept_self (k : String) : SimpleCache.Swept k k := .inr (.inl rfl)

theorem invalidate_staysForgotten_iff (c : Cache V) (k : String) (now dateNow : JsNumber) :
    StaysForgotten k now dateNow (invalidate c k) ↔ ¬Servable k now c := by
  rw [staysForgotten_iff ((invalidate_pending c k k).trans (if_pos rfl)) ((invalidate_expiries c k k).trans (if_pos rfl))]
  refine and_iff_left ?_
  rintro h
  exact ((held_delete _ _ _ _).mp h).2 (swept_self k)

/-- Another key is answered as before, unless it is answered from the base cache and goes with the invalidated key. -/
theorem invalidate_answersAs_iff (c : Cache V) {k other : String} (hne : other ≠ k) (now dateNow : JsNumber) :
    AnswersAs other now dateNow c (invalidate c k) ↔ (SimpleCache.Swept k other → ¬InBase other dateNow c) := by
  have hnewest : newest (invalidate c k) other = newest c other := by
    rw [newest, queue, invalidate_pending, if_neg hne]
    rfl
  have hexpired : isExpired (invalidate c k) other dateNow = isExpired c other dateNow := by
    rw [isExpired, invalidate_expiries, if_neg hne]
    rfl
  have hread : ∀ ttlMs, (read (invalidate c k) other ttlMs now).1 = (read c other ttlMs now).1 := read_congr rfl rfl
  rw [AnswersAs, and_iff_left hread, get_value, get_value, hnewest, hexpired, InBase]
  cases newest c other with
  | some entry => simp
  | none =>
      cases isExpired c other dateNow with
      | true => simp
      | false =>
          simp only [Bool.false_eq_true, if_false, true_and]
          rw [← get_eq_none_iff]
          change (SimpleCache.get (SimpleCache.delete c.base k) other dateNow).1 = _ ↔ _
          rw [get_delete]
          split_ifs with hswept
          · rw [eq_comm, forall_prop_of_true hswept]
          · exact iff_of_true rfl (fun h => absurd h hswept)

theorem invalidateAll_lookup (c : Cache V) (keys : List String) (k : String) (dateNow : JsNumber) :
    (keys.foldl invalidate c).pending.get? k = (if k ∈ keys then none else c.pending.get? k) ∧
      (keys.foldl invalidate c).expiries.get? k = (if k ∈ keys then none else c.expiries.get? k) ∧
      (Held k dateNow (keys.foldl invalidate c).base ↔
        Held k dateNow c.base ∧ ∀ key ∈ keys, ¬SimpleCache.Swept key k) ∧
      (keys.foldl invalidate c).freshness = c.freshness := by
  induction keys generalizing c with
  | nil => simp
  | cons key keys ih =>
      obtain ⟨hpending, hexpiries, hheld, hfreshness⟩ := ih (invalidate c key)
      refine ⟨?_, ?_, ?_, hfreshness⟩
      · rw [List.foldl_cons, hpending, invalidate_pending]
        by_cases hk : k = key <;> simp [hk]
      · rw [List.foldl_cons, hexpiries, invalidate_expiries]
        by_cases hk : k = key <;> simp [hk]
      · rw [List.foldl_cons, hheld, List.forall_mem_cons, ← and_assoc]
        exact and_congr_left' (held_delete c.base key k dateNow)

theorem mem_knownKeys (c : Cache V) (k : String) :
    k ∈ knownKeys c ↔ (c.pending.get? k).isSome ∨ (c.expiries.get? k).isSome := by
  rw [knownKeys, List.mem_eraseDups, List.mem_append, ← OrdMap.has_iff, ← OrdMap.has_iff]
  rfl

/-- Also the keys that `invalidateAll` does not know of are forgotten where `read` and `get` have nothing for them. -/
theorem invalidateAll_staysForgotten_iff (c : Cache V) (k : String) (now dateNow : JsNumber) :
    StaysForgotten k now dateNow (invalidateAll c) ↔
      ¬Servable k now c ∧ (Held k dateNow c.base → ∃ key ∈ knownKeys c, SimpleCache.Swept key k) := by
  obtain ⟨hpending, hexpiries, hheld, hfreshness⟩ := invalidateAll_lookup c (knownKeys c) k dateNow
  have hunknown : k ∉ knownKeys c → c.pending.get? k = none ∧ c.expiries.get? k = none := by
    intro h
    rw [mem_knownKeys, not_or, Option.not_isSome_iff_eq_none, Option.not_isSome_iff_eq_none] at h
    exact h
  have hpending' : (invalidateAll c).pending.get? k = none :=
    hpending.trans (ite_eq_left_iff.mpr (fun h => (hunknown h).1))
  have hexpiries' : (invalidateAll c).expiries.get? k = none :=
    hexpiries.trans (ite_eq_left_iff.mpr (fun h => (hunknown h).2))
  rw [staysForgotten_iff hpending' hexpiries', invalidateAll, hheld, Servable, hfreshness, ← Servable]
  refine and_congr_right' ?_
  simp only [not_and, not_forall, not_not, exists_prop]

end Invalidate

section Result

variable {V : Type}

/-- An invalidation does what it should, from any state, exactly where `read` has nothing left for the key and where
no other key is taken along or left over in the base cache. -/
theorem invalidation_iff (c : Cache V) (now dateNow : JsNumber) :
    (∀ k, (StaysForgotten k now dateNow (invalidate c k) ∧
        ∀ other, other ≠ k → AnswersAs other now dateNow c (invalidate c k)) ↔
      ¬Servable k now c ∧ ∀ other, other ≠ k → SimpleCache.Swept k other → ¬InBase other dateNow c) ∧
    ((∀ k, StaysForgotten k now dateNow (invalidateAll c)) ↔
      ∀ k, ¬Servable k now c ∧ (Held k dateNow c.base → ∃ key ∈ knownKeys c, SimpleCache.Swept key k)) := by
  constructor
  · intro k
    refine and_congr (invalidate_staysForgotten_iff c k now dateNow) ?_
    exact forall₂_congr (fun other hne => invalidate_answersAs_iff c hne now dateNow)
  · exact forall_congr' (fun k => invalidateAll_staysForgotten_iff c k now dateNow)

end Result

section Runs

def cached : Cache Nat := set (create none {}) "inv-1" (some 1) (.finite 60000) (.finite 0) (.finite 0)

def withDraft : Cache Nat := set cached "inv-1:draft" (some 2) (.finite 60000) (.finite 0) (.finite 0)

def withoutExpiry : Cache Nat := set (create none {}) "inv-2" (some 3) (.finite 0) (.finite 0) (.finite 0)

/-- An invoice is read after its invalidation, a key goes with another one, and one without an expiry is kept. -/
theorem invalidation_incomplete :
    (read (invalidate cached "inv-1") "inv-1" (.finite 60000) (.finite 1)).1 = .returned (some 1) ∧
    (get withDraft "inv-1:draft" (.finite 1)).1 = some 2 ∧
    (get (invalidate withDraft "inv-1") "inv-1:draft" (.finite 1)).1 = none ∧
    (get (invalidateAll withoutExpiry) "inv-2" (.finite 1)).1 = some 3 := by
  decide +kernel

end Runs

end SplitSdk.CacheInvalidation
