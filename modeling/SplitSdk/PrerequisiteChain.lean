import SplitSdk.Interleaving
import SplitSdk.OrderedMap
import SplitSdk.PointerWalks

namespace SplitSdk.PrerequisiteChain

open OrderedMap PointerWalks

section Model

inductive InvoiceStatus
  | pending
  | released
  | refunded
  | cancelled
  deriving DecidableEq

structure Invoice where
  id : String
  status : InvoiceStatus
  prerequisite_id : Option String := none
  deriving DecidableEq

structure PrerequisiteChainEntry where
  id : String
  status : InvoiceStatus
  isBlocking : Bool
  deriving DecidableEq

def MAX_PREREQUISITE_CHAIN_DEPTH : Nat := 20

/-- The errors of a traversal, and those of the client. -/
inductive Failure (ε : Type)
  | chainTooDeep (maxDepth : Nat)
  | circularPrerequisite (invoiceId : String)
  | client (error : ε)
  deriving DecidableEq

/-- `current.prerequisite_id`, where the empty text is none. -/
def Invoice.next (current : Invoice) : Option String := current.prerequisite_id.filter (fun id => id ≠ "")

def entryOf (prerequisite : Invoice) : PrerequisiteChainEntry :=
  ⟨prerequisite.id, prerequisite.status, prerequisite.status ≠ .released⟩

/-- The cache, and the ids that the client was asked for. -/
structure Session where
  cache : OrdMap String Invoice := .empty
  asked : List String := []

variable {ε : Type} (getInvoice : String → Except ε Invoice)

def fetch (s : Session) (id : String) : Except ε Invoice × Session :=
  match s.cache.get? id with
  | some cached => (.ok cached, s)
  | none =>
      match getInvoice id with
      | .ok invoice => (.ok invoice, ⟨s.cache.set id invoice, s.asked ++ [id]⟩)
      | .error error => (.error error, { s with asked := s.asked ++ [id] })

/-- The loop, with the depth that is left. The depth is looked at before the ids that were visited. -/
def walk : Nat → List String → List PrerequisiteChainEntry → Invoice → Session →
    Except (Failure ε) (List PrerequisiteChainEntry) × Session
  | left, visited, chain, current, s =>
      match current.next with
      | none => (.ok chain.reverse, s)
      | some nextId =>
          match left with
          | 0 => (.error (.chainTooDeep MAX_PREREQUISITE_CHAIN_DEPTH), s)
          | left + 1 =>
              if nextId ∈ visited then (.error (.circularPrerequisite nextId), s)
              else
                match fetch getInvoice s nextId with
                | (.error error, s') => (.error (.client error), s')
                | (.ok prerequisite, s') => walk left (visited ++ [nextId]) (chain ++ [entryOf prerequisite]) prerequisite s'

def resolvePrerequisiteChain (invoiceId : String) (s : Session) :
    Except (Failure ε) (List PrerequisiteChainEntry) × Session :=
  match fetch getInvoice s invoiceId with
  | (.error error, s') => (.error (.client error), s')
  | (.ok current, s') => walk getInvoice MAX_PREREQUISITE_CHAIN_DEPTH [invoiceId] [] current s'

/-- Some traversals, each of which is awaited before the next one. -/
def resolveFrom (done : List (Except (Failure ε) (List PrerequisiteChainEntry)) × Session) (invoiceIds : List String) :
    List (Except (Failure ε) (List PrerequisiteChainEntry)) × Session :=
  invoiceIds.foldl (fun done invoiceId =>
    let resolved := resolvePrerequisiteChain getInvoice invoiceId done.2
    (done.1 ++ [resolved.1], resolved.2)) done

end Model

section Lookups

variable {ε : Type} {getInvoice : String → Except ε Invoice} {s s' : Session}

/-- What a traversal finds under an id. -/
def lookup (getInvoice : String → Except ε Invoice) (s : Session) (id : String) : Except ε Invoice :=
  match s.cache.get? id with
  | some cached => .ok cached
  | none => getInvoice id

theorem fetch_fst (id : String) : (fetch getInvoice s id).1 = lookup getInvoice s id := by
  unfold fetch lookup
  cases s.cache.get? id with
  | some cached => rfl
  | none => cases getInvoice id <;> rfl

/-- What is put into the cache is what is found without it. -/
theorem lookup_fetch (id : String) : lookup getInvoice (fetch getInvoice s id).2 = lookup getInvoice s := by
  unfold fetch
  cases hcache : s.cache.get? id with
  | some cached => rfl
  | none =>
      cases hget : getInvoice id with
      | error error => rfl
      | ok invoice =>
          funext k
          rw [lookup, lookup, OrdMap.get?_set]
          split_ifs with hk
          · rw [hk, hcache, hget]
          · rfl

end Lookups

section Outcome

variable {ε : Type} {getInvoice : String → Except ε Invoice}

/-- Where the loop stops, and with what, when it has followed a trail to its last invoice. -/
def Stops (found : String → Except ε Invoice) (left : Nat) (visited : List String) (chain : List PrerequisiteChainEntry)
    (trail : List (String × Invoice)) (last : Invoice) : Except (Failure ε) (List PrerequisiteChainEntry) → Prop
  | .ok entries => last.next = none ∧ entries = (chain ++ trail.map (fun step => entryOf step.2)).reverse
  | .error (.chainTooDeep maxDepth) => maxDepth = MAX_PREREQUISITE_CHAIN_DEPTH ∧ trail.length = left ∧ last.next ≠ none
  | .error (.circularPrerequisite id) => trail.length < left ∧ last.next = some id ∧ id ∈ visited ++ trail.map Prod.fst
  | .error (.client error) =>
      trail.length < left ∧ ∃ id, last.next = some id ∧ id ∉ visited ++ trail.map Prod.fst ∧ found id = .error error

/-- A trail that the loop can have followed: within the depth, and to no id twice. -/
structure Trail (found : String → Except ε Invoice) (left : Nat) (visited : List String) (current : Invoice)
    (trail : List (String × Invoice)) (last : Invoice) : Prop where
  follows : Follows Invoice.next found current trail last
  length_le : trail.length ≤ left
  nodup : (trail.map Prod.fst).Nodup
  fresh : ∀ id ∈ trail.map Prod.fst, id ∉ visited

variable {found : String → Except ε Invoice} {left : Nat} {visited : List String} {chain : List PrerequisiteChainEntry}
  {current last last' : Invoice} {trail trail' : List (String × Invoice)}
  {r r' : Except (Failure ε) (List PrerequisiteChainEntry)}

theorem Trail.here (found : String → Except ε Invoice) (left : Nat) (visited : List String) (current : Invoice) :
    Trail found left visited current [] current :=
  ⟨.here current, Nat.zero_le _, List.nodup_nil, fun _ h => absurd h List.not_mem_nil⟩

theorem Trail.cons {id : String} {prerequisite : Invoice} (hnext : current.next = some id) (hfound : found id = .ok prerequisite)
    (hfresh : id ∉ visited) (h : Trail found left (visited ++ [id]) prerequisite trail last) :
    Trail found (left + 1) visited current ((id, prerequisite) :: trail) last := by
  refine ⟨.step hnext hfound h.follows, Nat.succ_le_succ h.length_le, ?_, ?_⟩
  · exact List.nodup_cons.mpr ⟨fun hmem => h.fresh id hmem (List.mem_append_right _ List.mem_cons_self), h.nodup⟩
  · intro k hk
    rcases List.mem_cons.mp hk with rfl | hk
    · exact hfresh
    · exact fun hvisited => h.fresh k hk (List.mem_append_left _ hvisited)

theorem Stops.cons {id : String} {prerequisite : Invoice}
    (h : Stops found left (visited ++ [id]) (chain ++ [entryOf prerequisite]) trail last r) :
    Stops found (left + 1) visited chain ((id, prerequisite) :: trail) last r := by
  cases r with
  | ok entries => exact ⟨h.1, by rw [h.2, List.map_cons, List.append_assoc, List.singleton_append]⟩
  | error failure =>
      cases failure with
      | chainTooDeep maxDepth => exact ⟨h.1, congrArg Nat.succ h.2.1, h.2.2⟩
      | circularPrerequisite k =>
          obtain ⟨hlength, hnext, hmem⟩ := h
          refine ⟨Nat.succ_lt_succ hlength, hnext, ?_⟩
          rwa [List.append_assoc] at hmem
      | client error =>
          obtain ⟨hlength, k, hnext, hmem, herror⟩ := h
          refine ⟨Nat.succ_lt_succ hlength, k, hnext, ?_, herror⟩
          rwa [List.append_assoc] at hmem

/-- The loop follows a trail and stops where it must. -/
theorem walk_stops (left : Nat) (visited : List String) (chain : List PrerequisiteChainEntry) (current : Invoice) (s : Session) :
    ∃ trail last, Trail (lookup getInvoice s) left visited current trail last ∧
      Stops (lookup getInvoice s) left visited chain trail last (walk getInvoice left visited chain current s).1 := by
  induction left generalizing visited chain current s with
  | zero =>
      refine ⟨[], current, .here _ _ _ _, ?_⟩
      unfold walk
      cases hnext : current.next with
      | none => exact ⟨hnext, by rw [List.map_nil, List.append_nil]⟩
      | some id => exact ⟨rfl, rfl, by rw [hnext]; exact Option.some_ne_none id⟩
  | succ left ih =>
      unfold walk
      cases hnext : current.next with
      | none => exact ⟨[], current, .here _ _ _ _, hnext, by rw [List.map_nil, List.append_nil]⟩
      | some id =>
          dsimp only
          split_ifs with hvisited
          · exact ⟨[], current, .here _ _ _ _, Nat.succ_pos left, hnext, List.mem_append_left _ hvisited⟩
          · have hfetch := @fetch_fst _ getInvoice s id
            have hsame := @lookup_fetch _ getInvoice s id
            cases hanswer : fetch getInvoice s id with
            | mk answer s' =>
                rw [hanswer] at hfetch hsame
                cases answer with
                | error error =>
                    refine ⟨[], current, .here _ _ _ _, Nat.succ_pos left, id, hnext, ?_, hfetch.symm⟩
                    rwa [List.map_nil, List.append_nil]
                | ok prerequisite =>
                    obtain ⟨trail, last, htrail, hstops⟩ := ih (visited ++ [id]) (chain ++ [entryOf prerequisite]) prerequisite s'
                    rw [hsame] at htrail hstops
                    exact ⟨_, last, htrail.cons hnext hfetch.symm hvisited, hstops.cons⟩

/-- A trail that goes on cannot stop. -/
theorem Stops.ne_append (h : Stops found left visited chain trail last r) (htrail' : Trail found left visited current trail' last')
    (id : String) (invoice : Invoice) (rest : List (String × Invoice)) (hnext : last.next = some id) (hfound : found id = .ok invoice) :
    trail' ≠ trail ++ (id, invoice) :: rest := by
  rintro rfl
  have hlength := htrail'.length_le
  have hnodup := htrail'.nodup
  have hfresh := htrail'.fresh id (by simp)
  rw [List.length_append, List.length_cons] at hlength
  rw [List.map_append, List.map_cons] at hnodup
  have hnew : id ∉ visited ++ trail.map Prod.fst := by
    rw [List.mem_append, not_or]
    refine ⟨hfresh, fun hmem => ?_⟩
    exact (List.nodup_append.mp hnodup).2.2 id hmem id List.mem_cons_self rfl
  cases r with
  | ok entries => exact Option.some_ne_none id (hnext.symm.trans h.1)
  | error failure =>
      cases failure with
      | chainTooDeep maxDepth =>
          have := h.2.1
          omega
      | circularPrerequisite k =>
          obtain rfl := Option.some.inj (hnext.symm.trans h.2.1)
          exact hnew h.2.2
      | client error =>
          obtain ⟨-, k, hk, -, herror⟩ := h
          obtain rfl := Option.some.inj (hnext.symm.trans hk)
          exact absurd (hfound.symm.trans herror) (by rintro ⟨⟩)

theorem Stops.unique (h : Stops found left visited chain trail last r) (h' : Stops found left visited chain trail last r') :
    r = r' := by
  cases r with
  | ok entries =>
      cases r' with
      | ok entries' => rw [h.2, h'.2]
      | error failure' =>
          cases failure' with
          | chainTooDeep => exact absurd h.1 h'.2.2
          | circularPrerequisite => exact absurd (h.1.symm.trans h'.2.1) (by rintro ⟨⟩)
          | client =>
              obtain ⟨-, k, hk, -⟩ := h'
              exact absurd (h.1.symm.trans hk) (by rintro ⟨⟩)
  | error failure =>
      cases r' with
      | ok entries' =>
          cases failure with
          | chainTooDeep => exact absurd h'.1 h.2.2
          | circularPrerequisite => exact absurd (h'.1.symm.trans h.2.1) (by rintro ⟨⟩)
          | client =>
              obtain ⟨-, k, hk, -⟩ := h
              exact absurd (h'.1.symm.trans hk) (by rintro ⟨⟩)
      | error failure' =>
          cases failure with
          | chainTooDeep =>
              cases failure' with
              | chainTooDeep => rw [h.1, h'.1]
              | circularPrerequisite => exact absurd h.2.1 (Nat.ne_of_lt h'.1)
              | client => exact absurd h.2.1 (Nat.ne_of_lt h'.1)
          | circularPrerequisite =>
              cases failure' with
              | chainTooDeep => exact absurd h'.2.1 (Nat.ne_of_lt h.1)
              | circularPrerequisite => rw [Option.some.inj (h.2.1.symm.trans h'.2.1)]
              | client =>
                  obtain ⟨-, k, hk, hnew, -⟩ := h'
                  obtain rfl := Option.some.inj (h.2.1.symm.trans hk)
                  exact absurd h.2.2 hnew
          | client =>
              obtain ⟨hlt, k, hk, hnew, herror⟩ := h
              cases failure' with
              | chainTooDeep => exact absurd h'.2.1 (Nat.ne_of_lt hlt)
              | circularPrerequisite =>
                  obtain rfl := Option.some.inj (hk.symm.trans h'.2.1)
                  exact absurd h'.2.2 hnew
              | client =>
                  obtain ⟨-, k', hk', -, herror'⟩ := h'
                  obtain rfl := Option.some.inj (hk.symm.trans hk')
                  rw [Except.error.inj (herror.symm.trans herror')]

theorem walk_eq_iff {s : Session} : (walk getInvoice left visited chain current s).1 = r ↔
    ∃ trail last, Trail (lookup getInvoice s) left visited current trail last ∧
      Stops (lookup getInvoice s) left visited chain trail last r := by
  constructor
  · rintro rfl
    exact walk_stops left visited chain current s
  · rintro ⟨trail', last', htrail', hstops'⟩
    obtain ⟨trail, last, htrail, hstops⟩ := @walk_stops _ getInvoice left visited chain current s
    obtain rfl := htrail.follows.eq_of_stops htrail'.follows (hstops.ne_append htrail') (hstops'.ne_append htrail)
    obtain rfl := htrail.follows.end_eq htrail'.follows
    exact hstops.unique hstops'

/-- The traversal is its loop, at the invoice that it was asked for. -/
theorem resolve_eq_iff {invoiceId : String} {s : Session} (hfound : lookup getInvoice s invoiceId = .ok current) :
    (resolvePrerequisiteChain getInvoice invoiceId s).1 = r ↔
      ∃ trail last, Trail (lookup getInvoice s) MAX_PREREQUISITE_CHAIN_DEPTH [invoiceId] current trail last ∧
        Stops (lookup getInvoice s) MAX_PREREQUISITE_CHAIN_DEPTH [invoiceId] [] trail last r := by
  have hfetch := @fetch_fst _ getInvoice s invoiceId
  have hsame := @lookup_fetch _ getInvoice s invoiceId
  unfold resolvePrerequisiteChain
  cases hanswer : fetch getInvoice s invoiceId with
  | mk answer s' =>
      rw [hanswer] at hfetch hsame
      obtain rfl : answer = .ok current := hfetch.trans hfound
      rw [← hsame]
      exact walk_eq_iff

/-- What a traversal comes to, by the trail of prerequisites from the invoice it was asked for. -/
theorem resolve_outcome {invoiceId : String} {s : Session} {current : Invoice}
    (hfound : lookup getInvoice s invoiceId = .ok current) :
    (∀ r, (resolvePrerequisiteChain getInvoice invoiceId s).1 = r ↔
      ∃ trail last, Trail (lookup getInvoice s) MAX_PREREQUISITE_CHAIN_DEPTH [invoiceId] current trail last ∧
        Stops (lookup getInvoice s) MAX_PREREQUISITE_CHAIN_DEPTH [invoiceId] [] trail last r) ∧
    ∀ entries, (resolvePrerequisiteChain getInvoice invoiceId s).1 = .ok entries ↔
      ∃ trail last, Follows Invoice.next (lookup getInvoice s) current trail last ∧ last.next = none ∧
        trail.length ≤ MAX_PREREQUISITE_CHAIN_DEPTH ∧ entries = (trail.map (fun step => entryOf step.2)).reverse := by
  refine ⟨fun r => resolve_eq_iff hfound, fun entries => ⟨fun h => ?_, ?_⟩⟩
  · obtain ⟨trail, last, htrail, hstops⟩ := (resolve_eq_iff hfound).mp h
    exact ⟨trail, last, htrail.follows, hstops.1, htrail.length_le, hstops.2⟩
  · rintro ⟨trail, last, hfollows, hend, hlength, rfl⟩
    refine (resolve_eq_iff hfound).mpr ⟨trail, last, ⟨hfollows, hlength, hfollows.nodup hend, fun id hid hmem => ?_⟩, hend, rfl⟩
    obtain rfl := List.mem_singleton.mp hmem
    exact hfollows.notMem_keys hend hfound hid

/-- An invoice behind two others. -/
theorem resolve_outcome_two : (resolvePrerequisiteChain (fun id : String => if id = "3" then (.ok ⟨"3", .pending, some "2"⟩ : Except Unit Invoice)
    else if id = "2" then .ok ⟨"2", .pending, some "1"⟩ else .ok ⟨"1", .released, none⟩) "3" {}).1 =
    .ok [⟨"1", .released, false⟩, ⟨"2", .pending, true⟩] := by
  refine ((@resolve_outcome _ _ _ _ ⟨"3", .pending, some "2"⟩ rfl).2 _).mpr
    ⟨[("2", ⟨"2", .pending, some "1"⟩), ("1", ⟨"1", .released, none⟩)], ⟨"1", .released, none⟩, ?_, rfl, by decide, rfl⟩
  exact .step rfl rfl (.step rfl rfl (.here _))

end Outcome

section SharedCache

variable {ε : Type} {getInvoice : String → Except ε Invoice} {s : Session}

def isLoaded (getInvoice : String → Except ε Invoice) (id : String) : Bool := (getInvoice id).toOption.isSome

/-- The cache holds what the client answers, and all that it has answered. -/
structure Kept (getInvoice : String → Except ε Invoice) (s : Session) : Prop where
  coherent : ∀ id invoice, s.cache.get? id = some invoice → getInvoice id = .ok invoice
  cached : ∀ id ∈ s.asked, isLoaded getInvoice id → s.cache.has id
  once : (s.asked.filter (isLoaded getInvoice)).Nodup

theorem kept_empty : Kept getInvoice {} :=
  ⟨fun _ _ h => (Option.some_ne_none _ h.symm).elim, fun _ h => absurd h List.not_mem_nil, List.nodup_nil⟩

theorem Kept.lookup_eq (h : Kept getInvoice s) : lookup getInvoice s = getInvoice := by
  funext id
  rw [lookup]
  cases hcache : s.cache.get? id with
  | some invoice => exact (h.coherent id invoice hcache).symm
  | none => rfl

theorem Kept.fetch (h : Kept getInvoice s) (id : String) : Kept getInvoice (fetch getInvoice s id).2 := by
  unfold PrerequisiteChain.fetch
  cases hcache : s.cache.get? id with
  | some cached => exact h
  | none =>
      cases hget : getInvoice id with
      | error error =>
          have hfailed : ¬isLoaded getInvoice id := by
            rw [isLoaded, hget]
            exact Bool.false_ne_true
          refine ⟨h.coherent, fun k hk hsome => ?_, ?_⟩
          · rcases List.mem_append.mp hk with hk | hk
            · exact h.cached k hk hsome
            · obtain rfl := List.mem_singleton.mp hk
              exact absurd hsome hfailed
          · rw [List.filter_append, List.filter_cons_of_neg hfailed, List.filter_nil, List.append_nil]
            exact h.once
      | ok invoice =>
          have hfound : isLoaded getInvoice id := by
            rw [isLoaded, hget]
            rfl
          have hnew : id ∉ s.asked := by
            intro hasked
            have hhas := h.cached id hasked hfound
            rw [OrdMap.has, hcache] at hhas
            exact Bool.false_ne_true hhas
          refine ⟨fun k value hk => ?_, fun k hk hsome => ?_, ?_⟩
          · rw [OrdMap.get?_set] at hk
            split_ifs at hk with heq
            · rw [heq, hget, Option.some.inj hk]
            · exact h.coherent k value hk
          · rw [OrdMap.has, OrdMap.get?_set]
            split_ifs with heq
            · rfl
            · rcases List.mem_append.mp hk with hk | hk
              · exact h.cached k hk hsome
              · exact absurd (List.mem_singleton.mp hk) heq
          · rw [List.filter_append, List.filter_cons_of_pos hfound, List.filter_nil, List.nodup_append]
            refine ⟨h.once, List.nodup_singleton id, fun k hk k' hk' => ?_⟩
            rw [List.mem_singleton.mp hk']
            rintro rfl
            exact hnew (List.mem_of_mem_filter hk)

theorem Kept.walk (left : Nat) (visited : List String) (chain : List PrerequisiteChainEntry) (current : Invoice)
    (h : Kept getInvoice s) : Kept getInvoice (walk getInvoice left visited chain current s).2 := by
  induction left generalizing visited chain current s with
  | zero =>
      unfold PrerequisiteChain.walk
      cases current.next <;> exact h
  | succ left ih =>
      unfold PrerequisiteChain.walk
      cases current.next with
      | none => exact h
      | some id =>
          dsimp only
          split_ifs
          · exact h
          · have hkept := h.fetch id
            cases hanswer : PrerequisiteChain.fetch getInvoice s id with
            | mk answer s' =>
                rw [hanswer] at hkept
                cases answer with
                | error error => exact hkept
                | ok prerequisite => exact ih _ _ _ hkept

theorem Kept.resolve (h : Kept getInvoice s) (invoiceId : String) :
    Kept getInvoice (resolvePrerequisiteChain getInvoice invoiceId s).2 := by
  have hkept := h.fetch invoiceId
  unfold resolvePrerequisiteChain
  cases hanswer : PrerequisiteChain.fetch getInvoice s invoiceId with
  | mk answer s' =>
      rw [hanswer] at hkept
      cases answer with
      | error error => exact hkept
      | ok current => exact hkept.walk _ _ _ _

/-- What a cache holds makes no difference to the outcome. -/
theorem resolve_same {s' : Session} (hsame : lookup getInvoice s = lookup getInvoice s') (invoiceId : String) :
    (resolvePrerequisiteChain getInvoice invoiceId s).1 = (resolvePrerequisiteChain getInvoice invoiceId s').1 := by
  cases hfound : lookup getInvoice s invoiceId with
  | ok current =>
      refine (resolve_eq_iff hfound).mpr ?_
      rw [hsame]
      exact (resolve_eq_iff (hsame ▸ hfound)).mp rfl
  | error error =>
      have hfailed : ∀ s : Session, lookup getInvoice s invoiceId = .error error →
          (resolvePrerequisiteChain getInvoice invoiceId s).1 = .error (.client error) := by
        intro s h
        have hfetch := @fetch_fst _ getInvoice s invoiceId
        unfold resolvePrerequisiteChain
        cases hanswer : fetch getInvoice s invoiceId with
        | mk answer s' =>
            rw [hanswer] at hfetch
            obtain rfl : answer = .error error := hfetch.trans h
            rfl
      rw [hfailed s hfound, hfailed s' (hsame ▸ hfound)]

/-- Traversals that share a cache come to what each comes to by itself, and no invoice is loaded twice in all of them. -/
theorem shared_cache (getInvoice : String → Except ε Invoice) (invoiceIds : List String) :
    (resolveFrom getInvoice ([], {}) invoiceIds).1 = invoiceIds.map (fun id => (resolvePrerequisiteChain getInvoice id {}).1) ∧
      ((resolveFrom getInvoice ([], {}) invoiceIds).2.asked.filter (isLoaded getInvoice)).Nodup := by
  have hall : ∀ (ids : List String) (done : List (Except (Failure ε) (List PrerequisiteChainEntry)) × Session),
      Kept getInvoice done.2 → (resolveFrom getInvoice done ids).1 =
        done.1 ++ ids.map (fun id => (resolvePrerequisiteChain getInvoice id {}).1) ∧
        Kept getInvoice (resolveFrom getInvoice done ids).2 := by
    intro ids
    induction ids with
    | nil => exact fun done hdone => ⟨(List.append_nil _).symm, hdone⟩
    | cons id ids ih =>
        intro done hdone
        obtain ⟨hresults, hkept⟩ := ih (_, _) (hdone.resolve id)
        refine ⟨hresults.trans ?_, hkept⟩
        rw [List.map_cons, List.append_assoc, List.singleton_append,
          resolve_same (hdone.lookup_eq.trans kept_empty.lookup_eq.symm) id]
  obtain ⟨hresults, hkept⟩ := hall invoiceIds ([], {}) kept_empty
  exact ⟨hresults, hkept.once⟩

end SharedCache

end SplitSdk.PrerequisiteChain
