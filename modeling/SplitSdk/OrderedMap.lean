import Mathlib.Data.List.Nodup
import Mathlib.Data.List.Perm.Subperm

namespace SplitSdk.OrderedMap

/-- A `Map`: its entries in the order in which their keys were first set. -/
structure OrdMap (α β : Type) where
  entries : List (α × β)
  nodup : (entries.map Prod.fst).Nodup

variable {α β : Type} [DecidableEq α]

namespace OrdMap

def empty : OrdMap α β := ⟨[], List.nodup_nil⟩

def keys (m : OrdMap α β) : List α := m.entries.map Prod.fst

def get? (m : OrdMap α β) (key : α) : Option β := m.entries.lookup key

def has (m : OrdMap α β) (key : α) : Bool := (m.get? key).isSome

def replace (key : α) (value : β) (entry : α × β) : α × β :=
  if entry.1 = key then (key, value) else entry

theorem replace_fst (key : α) (value : β) (entry : α × β) : (replace key value entry).1 = entry.1 := by
  unfold replace
  split_ifs with h
  · exact h.symm
  · rfl

theorem map_replace_fst (key : α) (value : β) (entries : List (α × β)) :
    (entries.map (replace key value)).map Prod.fst = entries.map Prod.fst := by
  rw [List.map_map]
  exact List.map_congr_left (fun entry _ => replace_fst key value entry)

/-- A key that is there keeps its place. -/
def set (m : OrdMap α β) (key : α) (value : β) : OrdMap α β :=
  if h : key ∈ m.keys then
    ⟨m.entries.map (replace key value), (map_replace_fst key value m.entries).symm ▸ m.nodup⟩
  else
    ⟨m.entries ++ [(key, value)], by
      rw [List.map_append]
      exact List.nodup_append'.mpr ⟨m.nodup, List.nodup_singleton key,
        List.disjoint_singleton.mpr h⟩⟩

def delete (m : OrdMap α β) (key : α) : OrdMap α β :=
  ⟨m.entries.filter (fun entry => entry.1 ≠ key),
    m.nodup.sublist (List.filter_sublist.map Prod.fst)⟩

def filter (keep : α × β → Bool) (m : OrdMap α β) : OrdMap α β :=
  ⟨m.entries.filter keep, m.nodup.sublist (List.filter_sublist.map Prod.fst)⟩

def size (m : OrdMap α β) : Nat := m.entries.length

/-- The entries whose keys are kept. -/
def filterKeys (keep : α → Bool) (m : OrdMap α β) : OrdMap α β :=
  ⟨m.entries.filter (fun entry => keep entry.1), m.nodup.sublist (List.filter_sublist.map Prod.fst)⟩

section Lookup

variable (key : α) (value : β) (entries : List (α × β))

theorem lookup_self : ((key, value) :: entries).lookup key = some value := by
  rw [List.lookup_cons, beq_self_eq_true]

theorem lookup_of_ne {k : α} (h : k ≠ key) : ((key, value) :: entries).lookup k = entries.lookup k := by
  rw [List.lookup_cons, beq_false_of_ne h]

theorem lookup_isSome : (entries.lookup key).isSome ↔ key ∈ entries.map Prod.fst := by
  induction entries with
  | nil => simp
  | cons entry entries ih =>
      obtain ⟨k, v⟩ := entry
      rw [List.map_cons, List.mem_cons]
      by_cases h : key = k
      · subst h
        simp
      · rw [lookup_of_ne k v entries h, ih]
        simp [h]

theorem lookup_replace_self (h : key ∈ entries.map Prod.fst) :
    (entries.map (replace key value)).lookup key = some value := by
  induction entries with
  | nil => simp at h
  | cons entry entries ih =>
      obtain ⟨k, v⟩ := entry
      rw [List.map_cons, replace]
      split_ifs with hk
      · exact lookup_self key value _
      · have hne : key ≠ k := fun he => hk he.symm
        rw [lookup_of_ne k v _ hne]
        exact ih (List.mem_of_ne_of_mem hne h)

theorem lookup_replace_of_ne {k : α} (h : k ≠ key) :
    (entries.map (replace key value)).lookup k = entries.lookup k := by
  induction entries with
  | nil => rfl
  | cons entry entries ih =>
      obtain ⟨j, v⟩ := entry
      rw [List.map_cons, replace]
      split_ifs with hj
      · have hkj : k ≠ j := fun he => h (he.trans hj)
        rw [lookup_of_ne key value _ h, lookup_of_ne j v _ hkj, ih]
      · rw [List.lookup_cons, List.lookup_cons, ih]

theorem lookup_filter_of_ne {k : α} (h : k ≠ key) :
    (entries.filter (fun entry => entry.1 ≠ key)).lookup k = entries.lookup k := by
  induction entries with
  | nil => rfl
  | cons entry entries ih =>
      obtain ⟨j, v⟩ := entry
      rw [List.filter_cons]
      split_ifs with hj
      · rw [List.lookup_cons, List.lookup_cons, ih]
      · have hkj : k ≠ j := fun he => h (he.trans (by simpa using hj))
        rw [lookup_of_ne j v _ hkj, ih]

end Lookup

theorem has_iff (m : OrdMap α β) (key : α) : m.has key ↔ key ∈ m.keys :=
  lookup_isSome key m.entries

theorem get?_empty (key : α) : (empty : OrdMap α β).get? key = none := rfl

theorem get?_set (m : OrdMap α β) (key k : α) (value : β) :
    (m.set key value).get? k = if k = key then some value else m.get? k := by
  unfold set
  split_ifs with hmem hk hk
  · subst hk
    exact lookup_replace_self k value m.entries hmem
  · exact lookup_replace_of_ne key value m.entries hk
  · subst hk
    have hnone : m.entries.lookup k = none :=
      Option.not_isSome_iff_eq_none.mp (mt (lookup_isSome k m.entries).mp hmem)
    rw [get?, List.lookup_append, hnone, lookup_self]
    rfl
  · rw [get?, List.lookup_append, lookup_of_ne key value [] hk, List.lookup_nil, Option.or_none]
    rfl

theorem get?_delete (m : OrdMap α β) (key k : α) :
    (m.delete key).get? k = if k = key then none else m.get? k := by
  split_ifs with hk
  · subst hk
    rw [← Option.not_isSome_iff_eq_none, get?, lookup_isSome]
    simp [delete]
  · exact lookup_filter_of_ne key m.entries hk

theorem get?_filterKeys (keep : α → Bool) (m : OrdMap α β) (key : α) :
    (m.filterKeys keep).get? key = if keep key then m.get? key else none := by
  obtain ⟨entries, hnodup⟩ := m
  unfold filterKeys get?
  dsimp only
  clear hnodup
  induction entries with
  | nil => simp
  | cons entry entries ih =>
      obtain ⟨k, v⟩ := entry
      by_cases hk : key = k
      · subst hk
        rw [List.filter_cons]
        split_ifs with hkeep
        · rw [lookup_self, lookup_self]
        · rw [ih, if_neg hkeep]
      · rw [lookup_of_ne k v entries hk, ← ih, List.filter_cons]
        split_ifs
        · exact lookup_of_ne k v _ hk
        · rfl

omit [DecidableEq α] in
theorem filter_of_forall {keep : α × β → Bool} {m : OrdMap α β} (h : ∀ entry ∈ m.entries, keep entry) : m.filter keep = m := by
  obtain ⟨entries, hnodup⟩ := m
  have heq : entries.filter keep = entries := List.filter_eq_self.mpr h
  unfold filter
  congr 1

theorem set_of_notMem {m : OrdMap α β} {key : α} (h : key ∉ m.keys) (value : β) :
    (m.set key value).entries = m.entries ++ [(key, value)] := by
  unfold set
  rw [dif_neg h]

/-- Deleting the last entry and setting it again changes nothing. -/
theorem set_delete_last {m : OrdMap α β} {key : α} {value : β} (h : m.entries.getLast? = some (key, value)) :
    (m.delete key).set key value = m := by
  obtain ⟨entries, hnodup⟩ := m
  obtain ⟨before, rfl⟩ := List.getLast?_eq_some_iff.mp h
  have hfresh : ∀ entry ∈ before, entry.1 ≠ key := by
    rw [List.map_append] at hnodup
    have hdisjoint := (List.nodup_append'.mp hnodup).2.2
    exact fun entry hentry heq => hdisjoint (List.mem_map_of_mem hentry) (List.mem_singleton.mpr heq)
  have hdelete : (delete ⟨before ++ [(key, value)], hnodup⟩ key).entries = before := by
    change (before ++ [(key, value)]).filter (fun entry => entry.1 ≠ key) = before
    rw [List.filter_append, List.filter_eq_self.mpr (fun entry hentry => decide_eq_true (hfresh entry hentry)),
      List.filter_cons_of_neg (by simp), List.filter_nil, List.append_nil]
  have hnone : key ∉ (delete ⟨before ++ [(key, value)], hnodup⟩ key).keys := by
    unfold keys
    rw [hdelete]
    rintro hmem
    obtain ⟨entry, hentry, heq⟩ := List.mem_map.mp hmem
    exact hfresh entry hentry heq
  have hset := set_of_notMem hnone value
  rw [hdelete] at hset
  generalize (delete ⟨before ++ [(key, value)], hnodup⟩ key).set key value = m at hset
  cases m
  congr 1

theorem keys_set (m : OrdMap α β) (key : α) (value : β) :
    (m.set key value).keys = if key ∈ m.keys then m.keys else m.keys ++ [key] := by
  unfold set
  split_ifs
  · exact map_replace_fst key value m.entries
  · exact List.map_append

theorem mem_set {m : OrdMap α β} {key : α} {value : β} {entry : α × β} (h : entry ∈ (m.set key value).entries) :
    entry ∈ m.entries ∨ entry = (key, value) := by
  unfold set at h
  split_ifs at h
  · obtain ⟨before, hbefore, rfl⟩ := List.mem_map.mp h
    unfold replace
    split_ifs
    · exact .inr rfl
    · exact .inl hbefore
  · rcases List.mem_append.mp h with hold | hnew
    · exact .inl hold
    · exact .inr (List.mem_singleton.mp hnew)

theorem mem_of_get? {m : OrdMap α β} {key : α} {value : β} (h : m.get? key = some value) :
    (key, value) ∈ m.entries := by
  obtain ⟨before, after, he, _⟩ := List.lookup_eq_some_iff.mp h
  simp [he]

theorem get?_of_mem (m : OrdMap α β) {entry : α × β} (h : entry ∈ m.entries) : m.get? entry.1 = some entry.2 := by
  obtain ⟨entries, hnodup⟩ := m
  induction entries with
  | nil => cases h
  | cons e entries ih =>
      rw [List.map_cons, List.nodup_cons] at hnodup
      rcases List.mem_cons.mp h with rfl | h
      · exact lookup_self _ _ _
      · have hne : entry.1 ≠ e.1 := fun he => hnodup.1 (he ▸ List.mem_map_of_mem h)
        exact (lookup_of_ne e.1 e.2 entries hne).trans (ih hnodup.2 h)

theorem get?_eq_some_iff {m : OrdMap α β} {key : α} {value : β} : m.get? key = some value ↔ (key, value) ∈ m.entries :=
  ⟨mem_of_get?, fun h => get?_of_mem m h⟩

theorem get?_filter_eq_some_iff {keep : α × β → Bool} {m : OrdMap α β} {key : α} {value : β} :
    (m.filter keep).get? key = some value ↔ m.get? key = some value ∧ keep (key, value) := by
  rw [get?_eq_some_iff, get?_eq_some_iff, filter, List.mem_filter]

omit [DecidableEq α] in
theorem size_le_of_subset {m : OrdMap α β} {keys : List α} (h : m.keys ⊆ keys) : m.size ≤ keys.length := by
  have hlength : m.keys.length = m.size := List.length_map Prod.fst
  rw [← hlength]
  exact (List.subperm_of_subset m.nodup h).length_le

theorem mem_keys_delete {m : OrdMap α β} {key k : α} : k ∈ (m.delete key).keys ↔ k ∈ m.keys ∧ k ≠ key := by
  constructor
  · intro hk
    obtain ⟨entry, hentry, rfl⟩ := List.mem_map.mp hk
    obtain ⟨hmem, hne⟩ := List.mem_filter.mp hentry
    exact ⟨List.mem_map_of_mem hmem, of_decide_eq_true hne⟩
  · rintro ⟨hk, hne⟩
    obtain ⟨entry, hentry, rfl⟩ := List.mem_map.mp hk
    exact List.mem_map_of_mem (List.mem_filter.mpr ⟨hentry, decide_eq_true hne⟩)

theorem delete_of_notMem {m : OrdMap α β} {key : α} (h : key ∉ m.keys) : m.delete key = m :=
  filter_of_forall (fun _ hentry => decide_eq_true (fun heq => h (heq ▸ List.mem_map_of_mem hentry)))

theorem size_delete_le (m : OrdMap α β) (key : α) : (m.delete key).size ≤ m.size := List.length_filter_le _ _

theorem size_delete_of_mem {m : OrdMap α β} {key : α} (h : key ∈ m.keys) : (m.delete key).size + 1 = m.size := by
  have hkeys : (m.delete key).keys = m.keys.erase key := by
    have hfilter : m.keys.erase key = m.keys.filter (fun k => k != key) := m.nodup.erase_eq_filter key
    rw [hfilter, keys, delete, keys, List.filter_map]
    refine congrArg _ (List.filter_congr (fun entry _ => ?_))
    exact decide_not
  have hlength (m : OrdMap α β) : m.size = m.keys.length := (List.length_map Prod.fst).symm
  have hpos := List.length_pos_of_mem h
  rw [hlength, hlength, hkeys, List.length_erase_of_mem h]
  omega

theorem size_set_of_notMem {m : OrdMap α β} {key : α} (h : key ∉ m.keys) (value : β) : (m.set key value).size = m.size + 1 := by
  rw [size, set_of_notMem h, List.length_append]
  rfl

/-- What holds of every value and what is kept beside it, after the value of one key has changed. -/
theorem forall_set_iff {γ : Type} {P : α → β → γ → Prop} {m : OrdMap α β} {f : α → γ}
    (h : ∀ k v, m.get? k = some v → P k v (f k)) {key : α} {value : β} {c : γ} :
    (∀ k v, (m.set key value).get? k = some v → P k v (Function.update f key c k)) ↔ P key value c := by
  constructor
  · intro hall
    have hkey := hall key value (by rw [get?_set, if_pos rfl])
    rwa [Function.update_self] at hkey
  · intro hnew k v hget
    rw [get?_set] at hget
    split_ifs at hget with hk
    · subst hk
      cases hget
      rwa [Function.update_self]
    · rw [Function.update_of_ne hk]
      exact h k v hget

end OrdMap

end SplitSdk.OrderedMap
