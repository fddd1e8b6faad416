import SplitSdk.JsonText
import SplitSdk.OrderedMap

namespace SplitSdk.SimpleCache

open JsonText Numbers OrderedMap

section Data

/-- A value is `none` when it is `undefined`. -/
structure MethodCacheEntry (V : Type) where
  value : Option V
  expiresAt : JsNumber

structure CacheConfig where
  enabled : Bool
  ttlConfig : OrdMap String JsNumber
  maxEntries : JsNumber

/-- The entries of `store` stand in the order of their last use. -/
structure Cache (V : Type) where
  config : CacheConfig
  store : OrdMap String (MethodCacheEntry V) := .empty
  hits : Nat := 0
  misses : Nat := 0
  evictions : Nat := 0

/-- `new SimpleCache(ttl)`, and `new SimpleCache({ enabled: true, ttlMs: ttl })`. -/
def withTtl (ttlMs : JsNumber) : CacheConfig where
  enabled := true
  ttlConfig := OrdMap.empty.set "default" ttlMs
  maxEntries := .finite 1000

end Data

section Operations

variable {V : Type} (c : Cache V)

def get (key : String) (now : JsNumber) : Option V × Cache V :=
  if !c.config.enabled then (none, c)
  else match c.store.get? key with
    | none => (none, { c with misses := c.misses + 1 })
    | some entry =>
        if entry.expiresAt.lt now then (none, { c with store := c.store.delete key, misses := c.misses + 1 })
        else (entry.value, { c with store := (c.store.delete key).set key entry, hits := c.hits + 1 })

/-- The part of a key before the first colon, or the whole key when it is empty. -/
def methodOf (key : String) : String :=
  let method := String.ofList (key.toList.takeWhile (· ≠ ':'))
  if method = "" then key else method

def ttlOf (key : String) : JsNumber :=
  ((c.config.ttlConfig.get? (methodOf key)).or (c.config.ttlConfig.get? "default")).getD (.finite 0)

/-- Whether a value that is set is stored at all. -/
def stores (key : String) : Bool := c.config.enabled && !(ttlOf c key).le (.finite 0)

/-- The key that has to make room for another one. -/
def evicted (key : String) : Option String :=
  if (JsNumber.finite 0).lt c.config.maxEntries ∧ c.config.maxEntries.le (.finite c.store.keys.length) ∧
      c.store.has key = false then c.store.keys.head?
  else none

def evict (key : String) : Cache V :=
  match evicted c key with
  | none => c
  | some oldestKey => { c with store := c.store.delete oldestKey, evictions := c.evictions + 1 }

def set (key : String) (value : Option V) (now : JsNumber) : Cache V :=
  if !stores c key then c
  else
    let expiresAt := now.add (ttlOf c key)
    let c := evict c key
    { c with store := c.store.set key { value, expiresAt } }

/-- The other keys that go with a key when it is invalidated as a method. -/
def hasPrefix (methodOrKey key : String) : Bool := (methodOrKey ++ ":").toList.isPrefixOf key.toList

/-- Without a method or a key everything is invalidated. -/
def invalidate (methodOrKey : Option String) (args : Option (List Json)) : Cache V :=
  let name := methodOrKey.getD ""
  if name = "" then { c with store := .empty }
  else match args with
    | some args => { c with store := c.store.delete (name ++ ":" ++ stringify (.array args)) }
    | none => { c with store := (c.store.delete name).filterKeys (fun key => !hasPrefix name key) }

def delete (key : String) : Cache V := invalidate c (some key) none

end Operations

section Lookup

variable {V : Type} (c : Cache V)

/-- Invalidating `key` removes `k`. -/
def Swept (key k : String) : Prop := key = "" ∨ k = key ∨ hasPrefix key k

instance (key k : String) : Decidable (Swept key k) := inferInstanceAs (Decidable (_ ∨ _ ∨ _))

theorem get_config (key : String) (now : JsNumber) : (get c key now).2.config = c.config := by
  unfold get
  split_ifs
  · rfl
  · split
    · rfl
    · split_ifs
      · rfl
      · rfl

theorem evict_config (key : String) : (evict c key).config = c.config := by
  unfold evict
  split
  · rfl
  · rfl

theorem set_config (key : String) (value : Option V) (now : JsNumber) : (set c key value now).config = c.config := by
  unfold set
  split_ifs
  · rfl
  · exact evict_config c key

theorem delete_config (key : String) : (delete c key).config = c.config := by
  unfold delete invalidate
  dsimp only
  split_ifs
  · rfl
  · rfl

/-- The value that is read is the stored one while it has not expired. -/
theorem get_value (key : String) (now : JsNumber) :
    (get c key now).1 =
      if c.config.enabled then (c.store.get? key).bind (fun entry => if entry.expiresAt.lt now then none else entry.value)
      else none := by
  unfold get
  cases c.config.enabled with
  | false => rfl
  | true =>
      cases c.store.get? key with
      | none => rfl
      | some entry =>
          simp only [Bool.not_true, Bool.false_eq_true, if_false, if_true, Option.bind_some]
          split_ifs
          · rfl
          · rfl

/-- Reading a value keeps all entries, unless it has expired. -/
theorem get?_get (key k : String) (now : JsNumber) :
    (get c key now).2.store.get? k = c.store.get? k ∨ k = key ∧ (get c key now).2.store.get? k = none := by
  unfold get
  split_ifs
  · exact .inl rfl
  · split
    · exact .inl rfl
    · rename_i entry hentry
      split_ifs
      · by_cases hk : k = key
        · exact .inr ⟨hk, by rw [OrdMap.get?_delete, if_pos hk]⟩
        · exact .inl (by rw [OrdMap.get?_delete, if_neg hk])
      · refine .inl ?_
        rw [OrdMap.get?_set, OrdMap.get?_delete]
        split_ifs with hk
        · rw [hk, hentry]
        · rfl

theorem get?_get_of_fresh {key : String} {now : JsNumber}
    (h : ∀ entry ∈ c.store.get? key, entry.expiresAt.lt now = false) (k : String) :
    (get c key now).2.store.get? k = c.store.get? k := by
  rcases get?_get c key k now with hsame | ⟨rfl, hnone⟩
  · exact hsame
  · cases hentry : c.store.get? k with
    | none => exact hnone
    | some entry =>
        unfold get at hnone
        rw [hentry] at hnone
        simp only [h entry hentry, Bool.false_eq_true, if_false] at hnone
        split_ifs at hnone
        · cases hentry.symm.trans hnone
        · rw [OrdMap.get?_set, if_pos rfl] at hnone
          cases hnone

theorem get?_evict (key k : String) :
    (evict c key).store.get? k = if evicted c key = some k then none else c.store.get? k := by
  unfold evict
  cases evicted c key with
  | none => rfl
  | some oldest =>
      rw [OrdMap.get?_delete]
      simp only [Option.some.injEq, eq_comm]

theorem get?_set_self {key : String} (value : Option V) (now : JsNumber) (hstores : stores c key) :
    (set c key value now).store.get? key = some { value, expiresAt := now.add (ttlOf c key) } := by
  unfold set
  rw [hstores]
  exact (OrdMap.get?_set _ _ _ _).trans (if_pos rfl)

theorem get?_set_of_ne {key k : String} (value : Option V) (now : JsNumber) (hk : k ≠ key) :
    (set c key value now).store.get? k = c.store.get? k ∨
      evicted c key = some k ∧ (set c key value now).store.get? k = none := by
  unfold set
  split_ifs
  · exact .inl rfl
  · rw [OrdMap.get?_set, if_neg hk, get?_evict]
    split_ifs with hevicted
    · exact .inr ⟨hevicted, rfl⟩
    · exact .inl rfl

theorem of_get?_get {key k : String} {now : JsNumber} {entry : MethodCacheEntry V}
    (h : (get c key now).2.store.get? k = some entry) : c.store.get? k = some entry := by
  rcases get?_get c key k now with hsame | ⟨-, hnone⟩
  · exact hsame ▸ h
  · nomatch hnone.symm.trans h

theorem of_get?_set {key k : String} {value : Option V} {now : JsNumber} {entry : MethodCacheEntry V}
    (h : (set c key value now).store.get? k = some entry) : k = key ∧ entry.value = value ∨ c.store.get? k = some entry := by
  by_cases hk : k = key
  · subst hk
    by_cases hstores : stores c k
    · obtain rfl := Option.some.inj ((get?_set_self c value now hstores).symm.trans h)
      exact .inl ⟨rfl, rfl⟩
    · rw [set, if_pos (by simpa using hstores)] at h
      exact .inr h
  · rcases get?_set_of_ne c value now hk with hsame | ⟨-, hnone⟩
    · exact .inr (hsame ▸ h)
    · nomatch hnone.symm.trans h

theorem of_get_value {key : String} {now : JsNumber} {value : V} (h : (get c key now).1 = some value) :
    ∃ entry, c.store.get? key = some entry ∧ entry.value = some value := by
  rw [get_value] at h
  split_ifs at h
  obtain ⟨entry, hentry, hvalue⟩ := Option.bind_eq_some_iff.mp h
  split_ifs at hvalue
  exact ⟨entry, hentry, hvalue⟩

theorem get?_delete (key k : String) :
    (delete c key).store.get? k = if Swept key k then none else c.store.get? k := by
  unfold delete invalidate
  dsimp only
  rw [Option.getD_some]
  by_cases hempty : key = ""
  · rw [if_pos hempty, if_pos (.inl hempty)]
    rfl
  · rw [if_neg hempty, OrdMap.get?_filterKeys, OrdMap.get?_delete]
    by_cases hk : k = key
    · simp [Swept, hk]
    · cases hbefore : hasPrefix key k <;> simp [Swept, hempty, hk, hbefore]

end Lookup

end SplitSdk.SimpleCache
