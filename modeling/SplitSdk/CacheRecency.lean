import SplitSdk.Interleaving
import SplitSdk.RecencyLists
import SplitSdk.SimpleCache

namespace SplitSdk.CacheRecency

open Interleaving Numbers OrderedMap RecencyLists SimpleCache

variable {V : Type}

section Statement

/-- An enabled configuration whose TTLs are positive. -/
structure Settings where
  config : CacheConfig
  maxEntries : Nat
  one_le : 1 ≤ maxEntries
  enabled : config.enabled = true
  bound : config.maxEntries = .finite maxEntries
  positive : ∀ key, (JsNumber.finite 0).lt (ttlOf (V := Empty) { config } key)

/-- A cache, the keys that were set or read with success, the latest first, and the values that were set last. -/
structure History (V : Type) where
  cache : Cache V
  uses : List String := []
  values : String → Option (Option V) := fun _ => none

inductive Event (V : Type)
  | get (key : String) (now : JsNumber)
  | set (key : String) (value : Option V) (now : JsNumber)

def begin (V : Type) (settings : Settings) : History V := { cache := { config := settings.config } }

def Fresh (c : Cache V) (key : String) (now : JsNumber) : Prop :=
  ∀ entry ∈ c.store.get? key, entry.expiresAt.lt now = false

instance (c : Cache V) (key : String) (now : JsNumber) : Decidable (Fresh c key now) :=
  inferInstanceAs (Decidable (∀ entry ∈ _, _))

/-- A call that no entry has expired at. -/
def observedStep (h : History V) : Event V → Option (History V)
  | .get key now =>
      if Fresh h.cache key now then
        some { h with cache := (get h.cache key now).2, uses := if h.cache.store.has key then key :: h.uses else h.uses }
      else none
  | .set key value now =>
      some { cache := set h.cache key value now, uses := key :: h.uses, values := Function.update h.values key (some value) }

/-- The value can be read as long as its entry has not expired. -/
def Retrievable (c : Cache V) (key : String) (value : Option V) : Prop :=
  c.store.has key ∧ ∀ now, Fresh c key now → (get c key now).1 = value

structure IsLru (settings : Settings) (h : History V) : Prop where
  size_le : h.cache.store.size ≤ settings.maxEntries
  kept : ∀ key value, h.values key = some value → usedSince key h.uses < settings.maxEntries → Retrievable h.cache key value

/-- A key that is in the cache is only set again while it is the one that was used last. -/
def SetsLatest (h : History V) : Event V → Prop
  | .get _ _ => True
  | .set key _ _ => h.cache.store.has key → h.uses.head? = some key

instance (h : History V) : (e : Event V) → Decidable (SetsLatest h e)
  | .get _ _ => .isTrue trivial
  | .set key _ _ => inferInstanceAs (Decidable (h.cache.store.has key → h.uses.head? = some key))

end Statement

section Order

variable {settings : Settings} {h h' : History V} {c : Cache V} {key : String}

/-- The store holds the keys that were used last, the latest at the end, with the values that were set last. -/
structure Ordered (settings : Settings) (h : History V) : Prop where
  config : h.cache.config = settings.config
  keys : h.cache.store.keys = ((recency h.uses).take settings.maxEntries).reverse
  used : ∀ key value, h.values key = some value → key ∈ h.uses
  stored : ∀ key entry, h.cache.store.get? key = some entry → h.values key = some entry.value

theorem ordered_begin (settings : Settings) : Ordered settings (begin V settings) where
  config := rfl
  keys := by simp [begin, recency, OrdMap.keys, OrdMap.empty]
  used := nofun
  stored := nofun

theorem has_iff_mem_take (ho : Ordered settings h) (key : String) :
    h.cache.store.has key ↔ key ∈ (recency h.uses).take settings.maxEntries := by
  rw [OrdMap.has_iff, ho.keys, List.mem_reverse]

theorem Ordered.isLru (ho : Ordered settings h) : IsLru settings h where
  size_le := by
    have hlength : h.cache.store.size = h.cache.store.keys.length := (List.length_map _).symm
    rw [hlength, ho.keys, List.length_reverse]
    exact List.length_take_le _ _
  kept key value hvalue hfew := by
    have hhas := (has_iff_mem_take ho key).mpr ((mem_take_recency_iff (ho.used key value hvalue) _).mpr hfew)
    obtain ⟨entry, hentry⟩ := Option.isSome_iff_exists.mp hhas
    refine ⟨hhas, fun now hfresh => ?_⟩
    have henabled : h.cache.config.enabled = true := ho.config ▸ settings.enabled
    rw [get_value, if_pos henabled, hentry, Option.bind_some, hfresh entry hentry, if_neg Bool.false_ne_true]
    exact Option.some.inj ((ho.stored key entry hentry).symm.trans hvalue)

theorem keys_get (hconfig : c.config = settings.config) {now : JsNumber} (hfresh : Fresh c key now) :
    (get c key now).2.store.keys =
      if c.store.has key then c.store.keys.filter (· ≠ key) ++ [key] else c.store.keys := by
  have henabled : c.config.enabled = true := hconfig ▸ settings.enabled
  have hkeys : (c.store.delete key).keys = c.store.keys.filter (· ≠ key) := by
    rw [OrdMap.keys, OrdMap.keys, List.filter_map]
    rfl
  have hnot : key ∉ (c.store.delete key).keys := fun hmem => (OrdMap.mem_keys_delete.mp hmem).2 rfl
  unfold SimpleCache.get OrdMap.has
  rw [henabled]
  cases hentry : c.store.get? key with
  | none => rfl
  | some entry =>
      simp only [Bool.not_true, Bool.false_eq_true, if_false, hfresh entry hentry, Option.isSome_some, if_true]
      rw [OrdMap.keys_set, if_neg hnot, hkeys]

theorem not_le_zero {x : JsNumber} (h : (JsNumber.finite 0).lt x) : x.le (.finite 0) = false := by
  cases x with
  | nan => rfl
  | infinity negative =>
      cases negative with
      | false => rfl
      | true => cases h
  | finite q =>
      have hpos : 0 < q := of_decide_eq_true h
      rw [Bool.eq_false_iff, ne_eq, JsNumber.finite_le_finite_iff]
      exact not_le.mpr hpos

theorem stores_of_config (hconfig : c.config = settings.config) (key : String) : stores c key := by
  have httl : ttlOf c key = ttlOf (V := Empty) { config := settings.config } key := by
    rw [← hconfig]
    rfl
  rw [stores, hconfig, settings.enabled, httl, not_le_zero (settings.positive key)]
  rfl

/-- The key that stands first makes room in a full store. -/
theorem evicted_of_config (hconfig : c.config = settings.config) (key : String) : evicted c key =
    if settings.maxEntries ≤ c.store.keys.length ∧ c.store.has key = false then c.store.keys.head? else none := by
  have hzero : (JsNumber.finite 0).lt (.finite settings.maxEntries) = true :=
    decide_eq_true (by exact_mod_cast settings.one_le)
  have hle : (JsNumber.finite settings.maxEntries).le (.finite c.store.keys.length) ↔
      settings.maxEntries ≤ c.store.keys.length := by
    rw [JsNumber.finite_le_finite_iff, Nat.cast_le]
  rw [evicted, hconfig, settings.bound]
  simp only [hzero, hle, true_and]

theorem keys_delete_head {m : OrdMap String (MethodCacheEntry V)} {oldest : String} (h : m.keys.head? = some oldest) :
    (m.delete oldest).keys = m.keys.tail := by
  obtain ⟨entries, hnodup⟩ := m
  cases entries with
  | nil => cases h
  | cons entry entries =>
      obtain rfl := Option.some.inj h
      rw [List.map_cons, List.nodup_cons] at hnodup
      have hkeep : entries.filter (fun e => e.1 ≠ entry.1) = entries :=
        List.filter_eq_self.mpr (fun e he => decide_eq_true (fun heq => hnodup.1 (heq ▸ List.mem_map_of_mem he)))
      have hentries : (entry :: entries).filter (fun e => e.1 ≠ entry.1) = entries := by
        rw [List.filter_cons_of_neg (by simp), hkeep]
      exact congrArg (List.map Prod.fst) hentries

theorem keys_evict (hconfig : c.config = settings.config) (hnew : c.store.has key = false) : (evict c key).store.keys =
    if settings.maxEntries ≤ c.store.keys.length then c.store.keys.tail else c.store.keys := by
  rw [evict, evicted_of_config hconfig]
  by_cases hfull : settings.maxEntries ≤ c.store.keys.length
  · rw [if_pos ⟨hfull, hnew⟩, if_pos hfull]
    cases hhead : c.store.keys.head? with
    | none => rw [List.head?_eq_none_iff.mp hhead, List.tail_nil]
    | some oldest => exact keys_delete_head hhead
  · rw [if_neg (fun h => hfull h.1), if_neg hfull]

theorem keys_set_of_new (hconfig : c.config = settings.config) (hnew : c.store.has key = false) (value : Option V)
    (now : JsNumber) : (set c key value now).store.keys =
      (if settings.maxEntries ≤ c.store.keys.length then c.store.keys.tail else c.store.keys) ++ [key] := by
  have hnot : key ∉ (evict c key).store.keys := by
    have hout : key ∉ c.store.keys := fun hmem => Bool.false_ne_true (hnew.symm.trans ((OrdMap.has_iff _ _).mpr hmem))
    rw [keys_evict hconfig hnew]
    split_ifs
    · exact fun hmem => hout (List.mem_of_mem_tail hmem)
    · exact hout
  rw [SimpleCache.set, stores_of_config hconfig key]
  exact (OrdMap.keys_set _ _ _).trans (by rw [if_neg hnot, keys_evict hconfig hnew])

theorem keys_set_of_has (hconfig : c.config = settings.config) (hhas : c.store.has key) (value : Option V) (now : JsNumber) :
    (set c key value now).store.keys = c.store.keys := by
  have hevict : evict c key = c := by
    rw [evict, evicted_of_config hconfig, if_neg (fun h => Bool.false_ne_true (h.2.symm.trans hhas))]
  rw [SimpleCache.set, stores_of_config hconfig key, hevict]
  exact (OrdMap.keys_set _ _ _).trans (if_pos ((OrdMap.has_iff _ _).mp hhas))

end Order

section Steps

variable {settings : Settings} {h h' : History V} {key : String}

theorem exists_succ (settings : Settings) : ∃ n, settings.maxEntries = n + 1 := Nat.exists_eq_add_of_le' settings.one_le

theorem ordered_get (ho : Ordered settings h) {now : JsNumber} (hfresh : Fresh h.cache key now) :
    Ordered settings { h with
      cache := (get h.cache key now).2, uses := if h.cache.store.has key then key :: h.uses else h.uses } where
  config := (get_config h.cache key now).trans ho.config
  keys := by
    obtain ⟨n, hn⟩ := exists_succ settings
    have hmem := has_iff_mem_take ho key
    dsimp only
    rw [keys_get ho.config hfresh, ho.keys]
    split_ifs with hhas
    · rw [hn] at hmem ⊢
      rw [take_recency_of_mem (hmem.mp hhas), List.reverse_cons, List.filter_reverse]
    · rfl
  used k value hvalue := by
    dsimp only
    split_ifs
    · exact List.mem_cons_of_mem _ (ho.used k value hvalue)
    · exact ho.used k value hvalue
  stored k entry hentry := ho.stored k entry (of_get?_get _ hentry)

theorem keys_of_latest (hlatest : h.uses.head? = some key) :
    (recency (key :: h.uses)).take settings.maxEntries = (recency h.uses).take settings.maxEntries := by
  obtain ⟨n, hn⟩ := exists_succ settings
  obtain ⟨uses, huses⟩ := List.head?_eq_some_iff.mp hlatest
  have hfilter : ((recency uses).filter (· ≠ key)).filter (· ≠ key) = (recency uses).filter (· ≠ key) := by
    rw [List.filter_filter]
    simp
  rw [huses, recency, recency, List.filter_cons_of_neg (by simp), hfilter]

theorem ordered_set (ho : Ordered settings h) (hlatest : h.cache.store.has key → h.uses.head? = some key)
    (value : Option V) (now : JsNumber) :
    Ordered settings { cache := set h.cache key value now, uses := key :: h.uses, values := Function.update h.values key (some value) } where
  config := (set_config h.cache key value now).trans ho.config
  keys := by
    obtain ⟨n, hn⟩ := exists_succ settings
    have hmem := has_iff_mem_take ho key
    dsimp only
    cases hhas : h.cache.store.has key with
    | true => rw [keys_set_of_has ho.config hhas, ho.keys, keys_of_latest (hlatest hhas)]
    | false =>
        have hnot : key ∉ (recency h.uses).take settings.maxEntries :=
          fun hin => Bool.false_ne_true (hhas.symm.trans (hmem.mpr hin))
        rw [keys_set_of_new ho.config hhas, ho.keys, List.length_reverse]
        rw [hn] at hnot ⊢
        rw [take_recency_of_notMem hnot, List.reverse_cons]
        congr 1
        split_ifs with hfull
        · rw [List.tail_reverse, List.dropLast_eq_take]
          have hlength : ((recency h.uses).take (n + 1)).length = n + 1 := le_antisymm (List.length_take_le _ _) hfull
          rw [hlength, Nat.add_sub_cancel]
        · rw [List.take_of_length_le (Nat.lt_succ_iff.mp (not_le.mp hfull))]
  used k other hvalue := by
    by_cases hk : k = key
    · subst hk
      exact List.mem_cons_self
    · dsimp only at hvalue
      rw [Function.update_of_ne hk] at hvalue
      exact List.mem_cons_of_mem _ (ho.used k other hvalue)
  stored k entry hentry := by
    dsimp only at hentry ⊢
    by_cases hk : k = key
    · subst hk
      have hself := get?_set_self h.cache value now (stores_of_config ho.config k)
      rw [Function.update_self, ← Option.some.inj (hself.symm.trans hentry)]
    · rw [Function.update_of_ne hk]
      rcases of_get?_set _ hentry with ⟨heq, -⟩ | hbefore
      · exact absurd heq hk
      · exact ho.stored k entry hbefore

theorem ordered_step (s : History V) (e : Event V) (t : History V) (ho : Ordered settings s) (hok : SetsLatest s e)
    (hstep : observedStep s e = some t) : Ordered settings t := by
  cases e with
  | get key now =>
      dsimp only [observedStep] at hstep
      by_cases hfresh : Fresh s.cache key now
      · rw [if_pos hfresh] at hstep
        cases hstep
        exact ordered_get ho hfresh
      · rw [if_neg hfresh] at hstep
        cases hstep
  | set key value now =>
      cases hstep
      exact ordered_set ho hok value now

/-- The cache is a map of the keys that were used last, in every run that sets a key that is in the cache only while it is
the one that was used last. -/
theorem lru_of_setsLatest (settings : Settings) {es : List (Event V)} {h : History V}
    (hlatest : Allowed observedStep SetsLatest (begin V settings) es)
    (hrun : run observedStep (begin V settings) es = some h) : IsLru settings h :=
  (run_invariant ordered_step _ _ es (ordered_begin settings) hlatest hrun).isLru

end Steps

section Sample

def pairConfig : CacheConfig where
  enabled := true
  ttlConfig := OrdMap.empty.set "default" (.finite 1000)
  maxEntries := .finite (2 : Nat)

/-- Room for two entries. -/
def pairSettings : Settings where
  config := pairConfig
  maxEntries := 2
  one_le := by omega
  enabled := rfl
  bound := rfl
  positive key := by
    have hempty (k : String) : (OrdMap.empty : OrdMap String JsNumber).get? k = none := OrdMap.get?_empty k
    rw [ttlOf, pairConfig]
    dsimp only
    rw [OrdMap.get?_set, OrdMap.get?_set, if_pos rfl, hempty]
    split_ifs
    · rfl
    · rfl

/-- The entry of `a` is read, and that of `b` makes room for another one. -/
def readFirst : List (Event Nat) :=
  [.set "a" (some 1) (.finite 0), .set "b" (some 2) (.finite 1), .get "a" (.finite 2), .set "c" (some 3) (.finite 3)]

theorem lru_of_setsLatest_readFirst : ∃ h, run observedStep (begin Nat pairSettings) readFirst = some h ∧
    IsLru pairSettings h := by
  have hsome : (run observedStep (begin Nat pairSettings) readFirst).isSome ∧
      Allowed observedStep SetsLatest (begin Nat pairSettings) readFirst := by
    decide +kernel
  obtain ⟨h, hrun⟩ := Option.isSome_iff_exists.mp hsome.1
  exact ⟨h, hrun, lru_of_setsLatest pairSettings hsome.2 hrun⟩

/-- The entry of `a` is set again, and makes room for that of `c` all the same. -/
def setAgain : List (Event Nat) :=
  [.set "a" (some 1) (.finite 0), .set "b" (some 2) (.finite 1), .set "a" (some 3) (.finite 2), .set "c" (some 4) (.finite 3)]

theorem set_again_evicted : ∃ h, run observedStep (begin Nat pairSettings) setAgain = some h ∧
    h.values "a" = some (some 3) ∧ usedSince "a" h.uses = 1 ∧ h.cache.store.has "a" = false ∧ ¬IsLru pairSettings h := by
  have hfacts : (run observedStep (begin Nat pairSettings) setAgain).any (fun h =>
      h.values "a" = some (some 3) ∧ usedSince "a" h.uses = 1 ∧ h.cache.store.has "a" = false) := by
    decide +kernel
  obtain ⟨h, hrun, hh⟩ := (Option.any_eq_true _ _).mp hfacts
  obtain ⟨hvalue, hused, hgone⟩ := of_decide_eq_true hh
  refine ⟨h, hrun, hvalue, hused, hgone, fun hlru => ?_⟩
  have hkept := (hlru.kept "a" (some 3) hvalue (hused ▸ Nat.lt_succ_self 1)).1
  exact Bool.false_ne_true (hgone.symm.trans hkept)

end Sample

end SplitSdk.CacheRecency
