import SplitSdk.Numbers
import SplitSdk.OrderedMap
import SplitSdk.Interleaving
import SplitSdk.PlatformTimers

namespace SplitSdk.AccessControl

open Numbers OrderedMap

section Store

/-- The grants of an `InMemoryAclStore`: the addresses of every resource. -/
abbrev InMemoryAclStore := OrdMap String (List String)

namespace InMemoryAclStore

def grant (store : InMemoryAclStore) (resourceId address : String) : InMemoryAclStore :=
  store.set resourceId (((store.get? resourceId).getD []).insert address)

def revoke (store : InMemoryAclStore) (resourceId address : String) : InMemoryAclStore :=
  ((store.get? resourceId).map (fun addresses => store.set resourceId (addresses.filter (· ≠ address)))).getD store

def check (store : InMemoryAclStore) (resourceId address : String) : Bool :=
  (store.get? resourceId).any (fun addresses => address ∈ addresses)

theorem check_grant (store : InMemoryAclStore) (r a r' a' : String) :
    (store.grant r a).check r' a' ↔ (r' = r ∧ a' = a) ∨ store.check r' a' := by
  rw [check, grant, OrdMap.get?_set]
  split_ifs with hr
  · subst hr
    rw [check]
    cases store.get? r' with
    | none => simp
    | some addresses => simp
  · rw [check]
    simp [hr]

theorem check_revoke (store : InMemoryAclStore) (r a r' a' : String) :
    (store.revoke r a).check r' a' ↔ ¬(r' = r ∧ a' = a) ∧ store.check r' a' := by
  rw [revoke]
  cases hget : store.get? r with
  | none =>
      rw [Option.map_none, Option.getD_none, check]
      by_cases hr : r' = r
      · subst hr
        simp [hget]
      · simp [hr]
  | some addresses =>
      rw [Option.map_some, Option.getD_some, check, check, OrdMap.get?_set]
      split_ifs with hr
      · subst hr
        rw [hget]
        simp [and_comm]
      · simp [hr]

end InMemoryAclStore

end Store

section Data

structure CacheEntry where
  value : Bool
  expiresAt : JsNumber

/-- A call that waits for the store, with the answer that it will get, or one that has come to its end. -/
inductive Call
  | granting (address : String)
  | revoking (address : String)
  | checking (resourceId address : String) (allowed : Bool)
  | resolved
  | answered (value : Bool)
  deriving DecidableEq

structure AclManager where
  store : InMemoryAclStore := .empty
  cache : OrdMap String CacheEntry := .empty
  calls : List Call := []
  now : ℚ := 0

inductive Event
  | elapse (ms : ℚ)
  | grant (resourceId address : String)
  | revoke (resourceId address : String)
  | check (resourceId address : String)
  | resume (call : Nat)

end Data

section Operations

def cacheKey (resourceId address : String) : String := resourceId ++ ":" ++ address

def invalidateCache (cache : OrdMap String CacheEntry) (principal : String) : OrdMap String CacheEntry :=
  cache.filterKeys (fun key => !(":" ++ principal).toList.isSuffixOf key.toList)

/-- The cached answer that is still valid. -/
def cached (m : AclManager) (resourceId address : String) : Option Bool :=
  ((m.cache.get? (cacheKey resourceId address)).filter (fun entry => (JsNumber.finite m.now).lt entry.expiresAt)).map
    CacheEntry.value

/-- A call that goes on when the store has answered. -/
def resume (cacheTtlMs : JsNumber) (m : AclManager) (k : Nat) : Option AclManager :=
  match m.calls[k]? with
  | some (.granting address) =>
      some { m with cache := invalidateCache m.cache address, calls := m.calls.set k .resolved }
  | some (.revoking address) =>
      some { m with cache := invalidateCache m.cache address, calls := m.calls.set k .resolved }
  | some (.checking resourceId address allowed) =>
      some { m with
        cache := m.cache.set (cacheKey resourceId address) ⟨allowed, (JsNumber.finite m.now).add cacheTtlMs⟩
        calls := m.calls.set k (.answered allowed) }
  | _ => none

/-- The store does its work when it is called. -/
def step (cacheTtlMs : JsNumber) (m : AclManager) : Event → Option AclManager
  | .elapse ms => if 0 ≤ ms then some { m with now := m.now + ms } else none
  | .grant resourceId address =>
      some { m with store := m.store.grant resourceId address, calls := m.calls ++ [.granting address] }
  | .revoke resourceId address =>
      some { m with store := m.store.revoke resourceId address, calls := m.calls ++ [.revoking address] }
  | .check resourceId address =>
      some { m with
        calls := m.calls ++ [(cached m resourceId address).elim
          (.checking resourceId address (m.store.check resourceId address)) .answered] }
  | .resume k => resume cacheTtlMs m k

end Operations

end SplitSdk.AccessControl

namespace SplitSdk.AclRevocation

open AccessControl Interleaving Numbers OrderedMap
open PlatformTimers (NotBefore NotBefore.mono)

variable {cacheTtlMs : JsNumber}

section Statement

/-- A manager with what was revoked: the calls of `revoke` that wait and those pairs for which one has resolved, as
long as the pair is not granted again, and the calls of `check` that started on such a pair. -/
structure History where
  acl : AclManager := {}
  waiting : List (Nat × String × String) := []
  revoked : List (String × String) := []
  denied : List Nat := []

def observe (h : History) (acl : AclManager) : Event → History
  | .elapse _ => { h with acl }
  | .grant resourceId address =>
      { h with
        acl
        waiting := h.waiting.filter (fun entry => entry.2 ≠ (resourceId, address))
        revoked := h.revoked.filter (· ≠ (resourceId, address)) }
  | .revoke resourceId address => { h with acl, waiting := (h.acl.calls.length, resourceId, address) :: h.waiting }
  | .check resourceId address =>
      { h with acl, denied := if (resourceId, address) ∈ h.revoked then h.acl.calls.length :: h.denied else h.denied }
  | .resume k =>
      { h with
        acl
        waiting := h.waiting.filter (fun entry => entry.1 ≠ k)
        revoked := (h.waiting.filter (fun entry => entry.1 = k)).map Prod.snd ++ h.revoked }

def observedStep (cacheTtlMs : JsNumber) (h : History) (e : Event) : Option History :=
  (step cacheTtlMs h.acl e).map (fun acl => observe h acl e)

/-- A check that started on a revoked pair does not return true. -/
def DeniedReturnFalse (h : History) : Prop := ∀ k ∈ h.denied, h.acl.calls[k]? ≠ some (.answered true)

/-- No check puts an answer that is true, and that will be valid, into the cache under the key of a revoked pair. -/
def NoStaleAnswer (cacheTtlMs : JsNumber) (h : History) : Event → Prop
  | .resume k =>
      match h.acl.calls[k]? with
      | some (.checking resourceId address true) => ∀ pair ∈ h.revoked,
          cacheKey pair.1 pair.2 = cacheKey resourceId address → NotBefore h.acl.now ((JsNumber.finite h.acl.now).add cacheTtlMs)
      | _ => True
  | _ => True

instance (h : History) : DecidablePred (NoStaleAnswer cacheTtlMs h) := fun e => by
  unfold NoStaleAnswer
  split
  · split <;> infer_instance
  · infer_instance

end Statement

section Invariant

variable {h h' : History}

theorem cacheKey_suffix (resourceId address : String) :
    (":" ++ address).toList.isSuffixOf (cacheKey resourceId address).toList := by
  rw [List.isSuffixOf_iff_suffix, cacheKey, String.append_assoc, String.toList_append (s := resourceId)]
  exact List.suffix_append _ _

/-- What is known of a pair that is revoked: it is not in the store, and no valid cache entry says that it is. -/
structure Inv (h : History) : Prop where
  waiting : ∀ entry ∈ h.waiting, h.acl.calls[entry.1]? = some (.revoking entry.2.2) ∧
    h.acl.store.check entry.2.1 entry.2.2 = false
  revoked : ∀ pair ∈ h.revoked, h.acl.store.check pair.1 pair.2 = false
  cache : ∀ pair ∈ h.revoked, ∀ entry ∈ h.acl.cache.get? (cacheKey pair.1 pair.2),
    entry.value = false ∨ NotBefore h.acl.now entry.expiresAt
  denied : ∀ k ∈ h.denied, h.acl.calls[k]? = some (.answered false) ∨
    ∃ resourceId address, h.acl.calls[k]? = some (.checking resourceId address false)

theorem inv_empty : Inv {} := ⟨by simp, by simp, by simp, by simp⟩

theorem getElem?_push {calls : List Call} {k : Nat} {call : Call} (hk : calls[k]? = some call) (last : Call) :
    (calls ++ [last])[k]? = some call := by
  obtain ⟨hlt, -⟩ := List.getElem?_eq_some_iff.mp hk
  rw [List.getElem?_append_left hlt, hk]

theorem Inv.denied_push (hi : Inv h) (last : Call) : ∀ k ∈ h.denied,
    (h.acl.calls ++ [last])[k]? = some (.answered false) ∨
      ∃ resourceId address, (h.acl.calls ++ [last])[k]? = some (.checking resourceId address false) := by
  intro k hk
  rcases hi.denied k hk with hanswered | ⟨r, a, hchecking⟩
  · exact .inl (getElem?_push hanswered last)
  · exact .inr ⟨r, a, getElem?_push hchecking last⟩

theorem grant_inv (hi : Inv h) (r a : String) (hstep : observedStep cacheTtlMs h (.grant r a) = some h') : Inv h' := by
  obtain ⟨acl, hacl, rfl⟩ := Option.map_eq_some_iff.mp hstep
  cases hacl
  have hkept : ∀ {r' a' : String}, (r', a') ≠ (r, a) → h.acl.store.check r' a' = false →
      (h.acl.store.grant r a).check r' a' = false := by
    intro r' a' hne hcheck
    rw [Bool.eq_false_iff]
    intro hgrant
    rcases (InMemoryAclStore.check_grant ..).mp hgrant with ⟨rfl, rfl⟩ | hold
    · exact hne rfl
    · exact Bool.eq_false_iff.mp hcheck hold
  refine ⟨fun entry hentry => ?_, fun pair hpair => ?_, fun pair hpair => ?_, hi.denied_push _⟩
  · obtain ⟨hentry, hne⟩ := List.mem_filter.mp hentry
    obtain ⟨hcall, hcheck⟩ := hi.waiting entry hentry
    exact ⟨getElem?_push hcall _, hkept (of_decide_eq_true hne) hcheck⟩
  · obtain ⟨hpair, hne⟩ := List.mem_filter.mp hpair
    exact hkept (of_decide_eq_true hne) (hi.revoked pair hpair)
  · exact hi.cache pair (List.mem_filter.mp hpair).1

theorem revoke_inv (hi : Inv h) (r a : String) (hstep : observedStep cacheTtlMs h (.revoke r a) = some h') : Inv h' := by
  obtain ⟨acl, hacl, rfl⟩ := Option.map_eq_some_iff.mp hstep
  cases hacl
  have hkept : ∀ {r' a' : String}, h.acl.store.check r' a' = false → (h.acl.store.revoke r a).check r' a' = false := by
    intro r' a' hcheck
    rw [Bool.eq_false_iff]
    intro hrevoke
    exact Bool.eq_false_iff.mp hcheck ((InMemoryAclStore.check_revoke ..).mp hrevoke).2
  refine ⟨fun entry hentry => ?_, fun pair hpair => hkept (hi.revoked pair hpair), hi.cache, hi.denied_push _⟩
  rcases List.mem_cons.mp hentry with rfl | hentry
  · refine ⟨List.getElem?_concat_length, Bool.eq_false_iff.mpr (fun hrevoke => ?_)⟩
    exact ((InMemoryAclStore.check_revoke ..).mp hrevoke).1 ⟨rfl, rfl⟩
  · obtain ⟨hcall, hcheck⟩ := hi.waiting entry hentry
    exact ⟨getElem?_push hcall _, hkept hcheck⟩

/-- A check of a revoked pair neither finds a valid answer in the cache nor the pair in the store. -/
theorem check_inv (hi : Inv h) (r a : String) (hstep : observedStep cacheTtlMs h (.check r a) = some h') : Inv h' := by
  obtain ⟨acl, hacl, rfl⟩ := Option.map_eq_some_iff.mp hstep
  cases hacl
  refine ⟨fun entry hentry => ?_, hi.revoked, hi.cache, fun k hk => ?_⟩
  · obtain ⟨hcall, hcheck⟩ := hi.waiting entry hentry
    exact ⟨getElem?_push hcall _, hcheck⟩
  · unfold observe at hk
    dsimp only at hk
    split_ifs at hk with hrevoked
    · rcases List.mem_cons.mp hk with rfl | hk
      · dsimp only [observe]
        rw [List.getElem?_concat_length]
        cases hcached : cached h.acl r a with
        | none =>
            have hstore := hi.revoked (r, a) hrevoked
            exact .inr ⟨r, a, by rw [Option.elim_none, hstore]⟩
        | some value =>
            obtain ⟨entry, hentry, rfl⟩ := Option.map_eq_some_iff.mp hcached
            obtain ⟨hentry, hvalid⟩ := Option.filter_eq_some_iff.mp hentry
            rcases hi.cache (r, a) hrevoked entry hentry with hvalue | hexpired
            · exact .inl (by rw [Option.elim_some, hvalue])
            · rw [NotBefore, hvalid] at hexpired
              cases hexpired
      · exact hi.denied_push _ k hk
    · exact hi.denied_push _ k hk

theorem elapse_inv (hi : Inv h) (ms : ℚ) (hstep : observedStep cacheTtlMs h (.elapse ms) = some h') : Inv h' := by
  obtain ⟨acl, hacl, rfl⟩ := Option.map_eq_some_iff.mp hstep
  rw [step] at hacl
  split_ifs at hacl with hms
  cases hacl
  refine ⟨hi.waiting, hi.revoked, fun pair hpair entry hentry => ?_, hi.denied⟩
  exact (hi.cache pair hpair entry hentry).imp_right (fun h => h.mono (le_add_of_nonneg_right hms))

section Resume

variable {k : Nat} (hi : Inv h)

include hi

/-- The calls of `revoke` that wait are where they were when another call goes on. -/
theorem Inv.waiting_set (outcome : Call) : ∀ entry ∈ h.waiting.filter (fun entry => entry.1 ≠ k),
    (h.acl.calls.set k outcome)[entry.1]? = some (.revoking entry.2.2) ∧
      h.acl.store.check entry.2.1 entry.2.2 = false := by
  intro entry hentry
  obtain ⟨hentry, hne⟩ := List.mem_filter.mp hentry
  obtain ⟨hcall, hcheck⟩ := hi.waiting entry hentry
  rw [List.getElem?_set_ne (Ne.symm (of_decide_eq_true hne)), hcall]
  exact ⟨rfl, hcheck⟩

theorem Inv.denied_set (outcome : Call) (hk : k ∈ h.denied → outcome = .answered false) : ∀ j ∈ h.denied,
    (h.acl.calls.set k outcome)[j]? = some (.answered false) ∨
      ∃ resourceId address, (h.acl.calls.set k outcome)[j]? = some (.checking resourceId address false) := by
  intro j hj
  by_cases hjk : k = j
  · subst hjk
    have hlt : k < h.acl.calls.length := by
      rcases hi.denied k hj with hcall | ⟨r, a, hcall⟩
      · exact (List.getElem?_eq_some_iff.mp hcall).1
      · exact (List.getElem?_eq_some_iff.mp hcall).1
    exact .inl (by rw [List.getElem?_set_self hlt, hk hj])
  · rw [List.getElem?_set_ne hjk]
    exact hi.denied j hj

/-- The pairs that are revoked when a call goes on. -/
theorem Inv.revoked_resume : ∀ pair ∈ (h.waiting.filter (fun entry => entry.1 = k)).map Prod.snd ++ h.revoked,
    h.acl.store.check pair.1 pair.2 = false ∧
      (pair ∈ h.revoked ∨ h.acl.calls[k]? = some (.revoking pair.2)) := by
  intro pair hpair
  rcases List.mem_append.mp hpair with hpair | hpair
  · obtain ⟨entry, hentry, rfl⟩ := List.mem_map.mp hpair
    obtain ⟨hentry, hk⟩ := List.mem_filter.mp hentry
    obtain ⟨hcall, hcheck⟩ := hi.waiting entry hentry
    exact ⟨hcheck, .inr (of_decide_eq_true hk ▸ hcall)⟩
  · exact ⟨hi.revoked pair hpair, .inl hpair⟩

/-- Invalidation leaves no entry for a pair of the address, and no new one for others. -/
theorem Inv.cache_invalidate {address : String} (pair : String × String)
    (hpair : pair ∈ h.revoked ∨ pair.2 = address) :
    ∀ entry ∈ (invalidateCache h.acl.cache address).get? (cacheKey pair.1 pair.2),
      entry.value = false ∨ NotBefore h.acl.now entry.expiresAt := by
  intro entry hentry
  rw [Option.mem_def, invalidateCache, OrdMap.get?_filterKeys] at hentry
  split_ifs at hentry with hkept
  rcases hpair with hpair | rfl
  · exact hi.cache pair hpair entry hentry
  · rw [cacheKey_suffix] at hkept
    cases hkept

theorem resume_inv (hok : NoStaleAnswer cacheTtlMs h (.resume k))
    (hstep : observedStep cacheTtlMs h (.resume k) = some h') : Inv h' := by
  obtain ⟨acl, hacl, rfl⟩ := Option.map_eq_some_iff.mp hstep
  change resume cacheTtlMs h.acl k = some acl at hacl
  unfold resume at hacl
  split at hacl
  · rename_i address hcall
    cases hacl
    refine ⟨hi.waiting_set _, fun pair hpair => (hi.revoked_resume pair hpair).1, fun pair hpair => ?_, hi.denied_set _ ?_⟩
    · have hwhich := (hi.revoked_resume pair hpair).2
      rw [hcall] at hwhich
      exact hi.cache_invalidate pair (hwhich.imp_right (by simp))
    · intro hk
      rcases hi.denied k hk with hdenied | ⟨r, a, hdenied⟩ <;> rw [hcall] at hdenied <;> cases hdenied
  · rename_i address hcall
    cases hacl
    refine ⟨hi.waiting_set _, fun pair hpair => (hi.revoked_resume pair hpair).1, fun pair hpair => ?_, hi.denied_set _ ?_⟩
    · have hwhich := (hi.revoked_resume pair hpair).2
      rw [hcall] at hwhich
      exact hi.cache_invalidate pair (hwhich.imp_right (fun he => by simpa using he.symm))
    · intro hk
      rcases hi.denied k hk with hdenied | ⟨r, a, hdenied⟩ <;> rw [hcall] at hdenied <;> cases hdenied
  · rename_i r a allowed hcall
    cases hacl
    refine ⟨hi.waiting_set _, fun pair hpair => (hi.revoked_resume pair hpair).1, fun pair hpair entry hentry => ?_,
      hi.denied_set _ ?_⟩
    · have hwhich := (hi.revoked_resume pair hpair).2
      rw [hcall] at hwhich
      have hrevoked : pair ∈ h.revoked := hwhich.resolve_right (by simp)
      change (h.acl.cache.set _ _).get? _ = some entry at hentry
      rw [OrdMap.get?_set] at hentry
      split_ifs at hentry with hkey
      · cases hentry
        cases allowed with
        | false => exact .inl rfl
        | true =>
            unfold NoStaleAnswer at hok
            dsimp only at hok
            rw [hcall] at hok
            exact .inr (hok pair hrevoked hkey)
      · exact hi.cache pair hrevoked entry hentry
    · intro hk
      rcases hi.denied k hk with hdenied | ⟨r', a', hdenied⟩
      · rw [hcall] at hdenied
        cases hdenied
      · rw [hcall] at hdenied
        cases hdenied
        rfl
  · cases hacl

end Resume

theorem step_inv {e : Event} (hi : Inv h) (hok : NoStaleAnswer cacheTtlMs h e)
    (hstep : observedStep cacheTtlMs h e = some h') : Inv h' := by
  cases e with
  | elapse ms => exact elapse_inv hi ms hstep
  | grant r a => exact grant_inv hi r a hstep
  | revoke r a => exact revoke_inv hi r a hstep
  | check r a => exact check_inv hi r a hstep
  | resume k => exact resume_inv hi hok hstep

end Invariant

section Main

/-- While no stale answer gets into the cache, every check that starts on a revoked pair returns false. -/
theorem revocation_takes_effect {es : List Event} {h : History}
    (hok : Allowed (observedStep cacheTtlMs) (NoStaleAnswer cacheTtlMs) {} es)
    (hrun : run (observedStep cacheTtlMs) {} es = some h) : DeniedReturnFalse h := by
  have hinv := run_invariant (fun _ _ _ hi hok h => step_inv hi hok h) {} h es inv_empty hok hrun
  intro k hk htrue
  rcases hinv.denied k hk with hfalse | ⟨r, a, hchecking⟩
  · rw [hfalse] at htrue
    cases htrue
  · rw [hchecking] at htrue
    cases htrue

end Main

section Sample

def minute : JsNumber := .finite 60000

def observed (es : List Event) : Option History := run (observedStep minute) {} es

/-- A grant, a check, a revocation and a second check. -/
def plainSchedule : List Event :=
  [.grant "r" "a", .resume 0, .check "r" "a", .resume 1, .revoke "r" "a", .resume 2, .check "r" "a", .resume 3]

theorem revocation_takes_effect_plain : ∃ h, observed plainSchedule = some h ∧ h.denied = [3] ∧ DeniedReturnFalse h := by
  have hfacts : (observed plainSchedule).any (fun h => h.denied = [3]) := by rfl
  obtain ⟨h, hrun, hdenied⟩ := (Option.any_eq_true _ _).mp hfacts
  exact ⟨h, hrun, of_decide_eq_true hdenied, revocation_takes_effect (by decide) hrun⟩

/-- The pairs `("r", "b:a")` and `("r:b", "a")` have one cache key. -/
def collidingSchedule : List Event :=
  [.grant "r" "b:a", .resume 0, .revoke "r:b" "a", .resume 1, .check "r" "b:a", .resume 2, .check "r:b" "a"]

theorem revoked_pair_passes : ∃ h, observed collidingSchedule = some h ∧ ¬DeniedReturnFalse h := by
  have hfacts : (observed collidingSchedule).any (fun h => 3 ∈ h.denied ∧ h.acl.calls[3]? = some (.answered true)) := by
    decide +kernel
  obtain ⟨h, hrun, hcall⟩ := (Option.any_eq_true _ _).mp hfacts
  obtain ⟨hdenied, htrue⟩ := of_decide_eq_true hcall
  exact ⟨h, hrun, fun hfalse => hfalse 3 hdenied htrue⟩

end Sample

end SplitSdk.AclRevocation
