import SplitSdk.Interleaving
import SplitSdk.SimpleCache

namespace SplitSdk.SequenceCache

open Numbers OrderedMap SimpleCache

section Data

inductive CacheState
  | valid
  | invalidated
  | refreshing
  deriving DecidableEq

structure SequenceEntry where
  base : Int
  offset : Nat := 1
  fetchedAt : ℚ
  state : CacheState := .valid
  deriving DecidableEq

/-- Where a call is. `existing` is the entry that a fetch is to replace, and `advances` is set in a call of `getSequence`. -/
inductive Position
  | fetching (existing : Option Nat) (advances : Bool)
  | fetched (entry : Nat)
  | returned (sequence : Option Int)
  | rejected (error : String)
  deriving DecidableEq

structure Call where
  accountId : String
  position : Position
  deriving DecidableEq

/-- The cache holds the places of its entries in `entries`, which are all that were ever fetched, with their accounts.
`handedOut` has the sequence numbers in the order in which they were returned. -/
structure Sequences where
  cache : Cache Nat
  entries : List (String × SequenceEntry) := []
  calls : List Call := []
  handedOut : List (String × Int) := []
  now : ℚ

end Data

section Operations

variable (s : Sequences)

def start (ttlMs maxEntries : JsNumber) (now : ℚ) : Sequences where
  cache := { config := { withTtl ttlMs with maxEntries } }
  now := now

def seqKey (accountId : String) : String := "seq:" ++ accountId

def cached (accountId : String) : Option Nat := (get s.cache (seqKey accountId) (.finite s.now)).1

/-- Reading an entry also moves it in the cache. -/
def touch (accountId : String) : Sequences :=
  { s with cache := (get s.cache (seqKey accountId) (.finite s.now)).2 }

def store (accountId : String) (entry : Nat) : Sequences :=
  { s with cache := set s.cache (seqKey accountId) (some entry) (.finite s.now) }

def setState (entry : Nat) (state : CacheState) : Sequences :=
  { s with entries := s.entries.modify entry (fun (accountId, entry) => (accountId, { entry with state })) }

def call (call : Call) : Sequences := { s with calls := s.calls ++ [call] }

def moveTo (k : Nat) (call : Call) (position : Position) : Sequences :=
  { s with calls := s.calls.set k { call with position } }

/-- A valid entry is invalidated first, so that in the end any entry is refreshing. -/
def beginFetch (accountId : String) (existing : Option Nat) (advances : Bool) : Sequences :=
  match existing with
  | some entry =>
      call (setState s entry .refreshing) { accountId, position := .fetching existing advances }
  | none => call s { accountId, position := .fetching none advances }

/-- The end of `getSequence`, from the local counter on. -/
def advance (accountId : String) (entry : Nat) : Sequences × Option Int :=
  match s.entries[entry]? with
  | some (owner, held) =>
      let nextSeq := held.base + held.offset
      let s := { s with
        entries := s.entries.set entry (owner, { held with offset := held.offset + 1 })
        handedOut := s.handedOut ++ [(accountId, nextSeq)] }
      (store s accountId entry, some nextSeq)
  | none => (s, none)

def getSequence (accountId : String) : Sequences :=
  match cached s accountId with
  | none => beginFetch (touch s accountId) accountId none true
  | some entry =>
      let s := touch s accountId
      if (s.entries[entry]?).any (fun held => held.2.state = .invalidated) then
        beginFetch s accountId (some entry) true
      else
        let (s, sequence) := advance s accountId entry
        call s { accountId, position := .returned sequence }

/-- `invalidate` and `refresh`. -/
def refetch (accountId : String) : Sequences :=
  beginFetch (touch s accountId) accountId (cached s accountId) false

def clear : Sequences := { s with cache := invalidate s.cache none none }

/-- The rest of `fetchAndCache`, from the answer of Horizon, which is the sequence number of the account or an error. -/
def loaded (k : Nat) (pending : Call) (existing : Option Nat) (advances : Bool) :
    Except String Int → Sequences
  | .ok base =>
      let entry := s.entries.length
      let s := store { s with entries := s.entries ++ [(pending.accountId, { base, fetchedAt := s.now })] }
        pending.accountId entry
      moveTo s k pending (if advances then .fetched entry else .returned none)
  | .error message =>
      let s := match existing with
        | some entry =>
            if (s.entries[entry]?).any (fun held => held.2.state = .refreshing) then setState s entry .invalidated else s
        | none => s
      moveTo s k pending (.rejected s!"Failed to fetch sequence for {pending.accountId}: {message}")

/-- A call of `getSequence` goes on after its fetch. -/
def continued (k : Nat) (pending : Call) (entry : Nat) : Sequences :=
  let (s, sequence) := advance s pending.accountId entry
  moveTo s k pending (.returned sequence)

end Operations

section Runs

inductive Event
  | getSequence (accountId : String)
  | invalidate (accountId : String)
  | refresh (accountId : String)
  | clear
  | loaded (k : Nat) (answer : Except String Int)
  | continued (k : Nat)
  /-- What `Date.now` reads from then on. -/
  | setClock (now : ℚ)

def step (s : Sequences) : Event → Option Sequences
  | .getSequence accountId => some (getSequence s accountId)
  | .invalidate accountId | .refresh accountId => some (refetch s accountId)
  | .clear => some (clear s)
  | .loaded k answer =>
      match s.calls[k]? with
      | some pending =>
          match pending.position with
          | .fetching existing advances => some (loaded s k pending existing advances answer)
          | _ => none
      | none => none
  | .continued k =>
      match s.calls[k]? with
      | some pending =>
          match pending.position with
          | .fetched entry => some (continued s k pending entry)
          | _ => none
      | none => none
  | .setClock now => some { s with now }

end Runs

end SplitSdk.SequenceCache

namespace SplitSdk.SequenceNumbers

open Interleaving OrderedMap SequenceCache SimpleCache

section Statement

variable (s : Sequences) (a : String)

/-- The sequence numbers that were returned for the account. -/
def handed : List Int := (s.handedOut.filter (fun number => number.1 = a)).map Prod.snd

def upTo (base : Int) (n : Nat) : List Int := (List.range n).map (fun i : Nat => base + (i + 1))

/-- The numbers of the account are the ones after the number that was fetched for it, each of them once. -/
structure Consecutive : Prop where
  distinct : (handed s a).Nodup
  following : handed s a ≠ [] → ∃ entry, (a, entry) ∈ s.entries ∧
    handed s a = upTo entry.base (handed s a).length

def isFetching (call : Call) : Bool :=
  match call.position with
  | .fetching _ _ => true
  | _ => false

/-- Nothing is invalidated or refreshed, and a call that finds no entry is the first one for its account: none was
fetched before, and none is being fetched. -/
def Sound : Event → Prop
  | .getSequence a => cached s a = none → a ∉ s.entries.map Prod.fst ∧
      ∀ call ∈ s.calls, call.accountId = a → ¬isFetching call
  | .invalidate _ | .refresh _ | .clear => False
  | _ => True

end Statement

section Invariant

variable {s t : Sequences} {a : String}

def Owns (s : Sequences) (entry : Nat) (a : String) : Prop := ∃ held, s.entries[entry]? = some (a, held)

/-- There is one entry for an account, and it tells which numbers the account got. -/
structure Tracked (s : Sequences) : Prop where
  accounts : (s.entries.map Prod.fst).Nodup
  numbered : ∀ cell ∈ s.entries, cell.2.state = .valid ∧ cell.2.offset = (handed s cell.1).length + 1 ∧
    handed s cell.1 = upTo cell.2.base (handed s cell.1).length
  untouched : ∀ a, a ∉ s.entries.map Prod.fst → handed s a = []
  cached : ∀ a entry, s.cache.store.get? (seqKey a) = some entry →
    ∃ place, entry.value = some place ∧ Owns s place a

structure Waiting (s : Sequences) : Prop where
  held : ∀ call ∈ s.calls, ∀ entry, call.position = .fetched entry → Owns s entry call.accountId
  alone : ∀ (j k : Nat) (c d : Call), s.calls[j]? = some c → s.calls[k]? = some d →
    isFetching c → isFetching d → c.accountId = d.accountId → j = k
  first : ∀ call ∈ s.calls, isFetching call → call.accountId ∉ s.entries.map Prod.fst
  plain : ∀ call ∈ s.calls, ∀ existing advances, call.position = .fetching existing advances →
    existing = none

theorem seqKey_inj {a b : String} (h : seqKey a = seqKey b) : a = b :=
  (String.append_right_inj "seq:").mp h

theorem upTo_succ (base : Int) (n : Nat) :
    upTo base (n + 1) = upTo base n ++ [base + ((n : Int) + 1)] := by
  rw [upTo, List.range_succ, List.map_append]
  rfl

theorem upTo_nodup (base : Int) (n : Nat) : (upTo base n).Nodup := by
  refine List.Nodup.map ?_ List.nodup_range
  intro i j h
  simpa using h

theorem handed_append (s : Sequences) (a b : String) (n : Int) :
    handed { s with handedOut := s.handedOut ++ [(b, n)] } a = handed s a ++ if b = a then [n] else [] := by
  rw [handed, List.filter_append, List.map_append, List.filter_singleton]
  by_cases hb : b = a
  · rw [if_pos hb]
    simp [hb, handed]
  · rw [if_neg hb]
    simp [hb, handed]

theorem Tracked.consecutive (h : Tracked s) (a : String) : Consecutive s a := by
  by_cases ha : a ∈ s.entries.map Prod.fst
  · obtain ⟨⟨_, entry⟩, hentry, rfl⟩ := List.mem_map.mp ha
    obtain ⟨-, -, hnumbers⟩ := h.numbered _ hentry
    exact ⟨hnumbers ▸ upTo_nodup _ _, fun _ => ⟨entry, hentry, hnumbers⟩⟩
  · have hnone := h.untouched a ha
    exact ⟨hnone ▸ List.nodup_nil, fun hne => absurd hnone hne⟩

end Invariant

section Advance

variable {s t : Sequences} {a : String} {entry : Nat}

/-- The account gets the next number, and its entry counts on. -/
theorem advance_spec (howns : Owns s entry a) : ∃ held, s.entries[entry]? = some (a, held) ∧
    (advance s a entry).1 = store { s with
      entries := s.entries.set entry (a, { held with offset := held.offset + 1 })
      handedOut := s.handedOut ++ [(a, held.base + held.offset)] } a entry ∧
    ∀ b, handed (advance s a entry).1 b =
      handed s b ++ if a = b then [held.base + (held.offset : Int)] else [] := by
  obtain ⟨held, hheld⟩ := howns
  refine ⟨held, hheld, ?_⟩
  rw [advance, hheld]
  exact ⟨rfl, fun b => handed_append s b a _⟩

theorem advance_calls (s : Sequences) (a : String) (entry : Nat) :
    (advance s a entry).1.calls = s.calls := by
  unfold advance
  split
  · rfl
  · rfl

theorem advance_accounts (howns : Owns s entry a) :
    (advance s a entry).1.entries.map Prod.fst = s.entries.map Prod.fst := by
  obtain ⟨held, hheld, heq, -⟩ := advance_spec howns
  rw [heq]
  exact map_set Prod.fst hheld rfl

theorem owns_of_accounts (haccounts : t.entries.map Prod.fst = s.entries.map Prod.fst) {entry : Nat}
    {a : String}
    (h : Owns s entry a) : Owns t entry a := by
  obtain ⟨held, hheld⟩ := h
  have hfst : (t.entries.map Prod.fst)[entry]? = some a := by
    rw [haccounts, List.getElem?_map, hheld]
    rfl
  obtain ⟨cell, hcell, rfl⟩ := Option.map_eq_some_iff.mp (List.getElem?_map.symm.trans hfst)
  exact ⟨cell.2, hcell⟩

/-- Storing an entry of the account keeps what the cache holds for any account. -/
theorem store_cached
    (hcached : ∀ b held, s.cache.store.get? (seqKey b) = some held →
      ∃ place, held.value = some place ∧ Owns s place b)
    (howns : Owns s entry a) : ∀ b held, (store s a entry).cache.store.get? (seqKey b) = some held →
      ∃ place, held.value = some place ∧ Owns (store s a entry) place b := by
  intro b held hheld
  rcases of_get?_set s.cache hheld with ⟨hkey, hvalue⟩ | hold
  · obtain rfl := seqKey_inj hkey
    exact ⟨entry, hvalue, howns⟩
  · exact hcached b held hold

/-- The numbers of an account whose entry counts on. -/
theorem numbered_advance {base : Int} {offset : Nat} {numbers : List Int}
    (hoffset : offset = numbers.length + 1)
    (hnumbers : numbers = upTo base numbers.length) :
    offset + 1 = (numbers ++ [base + (offset : Int)]).length + 1 ∧
      numbers ++ [base + (offset : Int)] = upTo base (numbers ++ [base + (offset : Int)]).length := by
  subst hoffset
  rw [List.length_append, List.length_singleton, upTo_succ, ← hnumbers, Nat.cast_add, Nat.cast_one]
  exact ⟨rfl, rfl⟩

theorem Tracked.advance (h : Tracked s) (howns : Owns s entry a) : Tracked (advance s a entry).1 := by
  obtain ⟨held, hheld, heq, hhanded⟩ := advance_spec howns
  obtain ⟨hvalid, hoffset, hnumbers⟩ := h.numbered _ (List.mem_of_getElem? hheld)
  have haccounts := advance_accounts howns
  refine ⟨haccounts ▸ h.accounts, ?_, ?_, ?_⟩
  · intro cell hcell
    rw [hhanded]
    rw [heq] at hcell
    obtain ⟨i, hi⟩ := List.mem_iff_getElem?.mp hcell
    rcases of_getElem?_set hi with ⟨rfl, rfl⟩ | ⟨hne, hold⟩
    · rw [if_pos rfl]
      exact ⟨hvalid, numbered_advance hoffset hnumbers⟩
    · have hother : a ≠ cell.1 := by
        rintro rfl
        exact hne (eq_of_nodup_map Prod.fst h.accounts hold hheld rfl)
      rw [if_neg hother, List.append_nil]
      exact h.numbered cell (List.mem_of_getElem? hold)
  · intro b hb
    have hnot : b ∉ s.entries.map Prod.fst := haccounts ▸ hb
    have hother : a ≠ b := by
      rintro rfl
      exact hnot (List.mem_map_of_mem (List.mem_of_getElem? hheld))
    rw [hhanded, if_neg hother, List.append_nil]
    exact h.untouched b hnot
  · rw [heq] at haccounts ⊢
    refine store_cached (s := { s with entries := _, handedOut := _ }) ?_
      (owns_of_accounts haccounts howns)
    intro b entry' hentry'
    obtain ⟨place, hvalue, hplace⟩ := h.cached b entry' hentry'
    exact ⟨place, hvalue, owns_of_accounts haccounts hplace⟩

end Advance

section Steps

variable {s t : Sequences} {a : String} {entry : Nat}

theorem Tracked.calls (h : Tracked s) (calls : List Call) : Tracked { s with calls } :=
  ⟨h.accounts, h.numbered, h.untouched, h.cached⟩

theorem Tracked.touch (h : Tracked s) (a : String) : Tracked (touch s a) :=
  ⟨h.accounts, h.numbered, h.untouched, fun b held hheld => h.cached b held (of_get?_get s.cache hheld)⟩

theorem Waiting.congr (h : Waiting s) (hcalls : t.calls = s.calls)
    (haccounts : t.entries.map Prod.fst = s.entries.map Prod.fst) :
    Waiting t := by
  refine ⟨?_, hcalls ▸ h.alone, ?_, hcalls ▸ h.plain⟩
  · intro call hcall entry hposition
    exact owns_of_accounts haccounts (h.held call (hcalls ▸ hcall) entry hposition)
  · intro call hcall hfetching
    rw [haccounts]
    exact h.first call (hcalls ▸ hcall) hfetching

/-- The account whose number the call is fetching. -/
def fetchingFor (call : Call) : Option String := if isFetching call then some call.accountId else none

theorem fetchingFor_eq_some {call : Call} :
    fetchingFor call = some a ↔ isFetching call ∧ call.accountId = a := by
  rw [fetchingFor]
  split_ifs with hfetching
  · simp [hfetching]
  · simp [hfetching]

theorem Waiting.exclusive (h : Waiting s) : Exclusive fetchingFor s.calls := by
  intro j k c d account hj hk hc hd
  obtain ⟨hcFetching, rfl⟩ := fetchingFor_eq_some.mp hc
  obtain ⟨hdFetching, haccount⟩ := fetchingFor_eq_some.mp hd
  exact h.alone j k c d hj hk hcFetching hdFetching haccount.symm

theorem alone_of_exclusive {calls : List Call} (h : Exclusive fetchingFor calls) (j k : Nat)
    (c d : Call) (hj : calls[j]? = some c)
    (hk : calls[k]? = some d) (hc : isFetching c) (hd : isFetching d)
    (haccount : c.accountId = d.accountId) : j = k :=
  h j k c d d.accountId hj hk (fetchingFor_eq_some.mpr ⟨hc, haccount⟩) (fetchingFor_eq_some.mpr ⟨hd, rfl⟩)

/-- A new call that fetches is the first one for its account. -/
theorem Waiting.push (h : Waiting s) (new : Call) (hheld : ∀ entry, new.position ≠ .fetched entry)
    (hplain : ∀ existing advances, new.position = .fetching existing advances → existing = none)
    (hfirst : isFetching new → new.accountId ∉ s.entries.map Prod.fst ∧
      ∀ call ∈ s.calls, call.accountId = new.accountId → ¬isFetching call) : Waiting (call s new) := by
  refine ⟨?_, alone_of_exclusive (exclusive_push h.exclusive ?_), ?_, ?_⟩
  · intro other hother entry hposition
    rcases List.mem_append.mp hother with hold | hnew
    · exact h.held other hold entry hposition
    · rw [List.mem_singleton.mp hnew] at hposition
      exact absurd hposition (hheld entry)
  · intro account hnew other hother hfor
    obtain ⟨hfetching, rfl⟩ := fetchingFor_eq_some.mp hnew
    obtain ⟨hotherFetching, haccount⟩ := fetchingFor_eq_some.mp hfor
    exact (hfirst hfetching).2 other hother haccount hotherFetching
  · intro other hother hfetching
    rcases List.mem_append.mp hother with hold | hnew
    · exact h.first other hold hfetching
    · rw [List.mem_singleton.mp hnew] at hfetching ⊢
      exact (hfirst hfetching).1
  · intro other hother existing advances hposition
    rcases List.mem_append.mp hother with hold | hnew
    · exact h.plain other hold existing advances hposition
    · rw [List.mem_singleton.mp hnew] at hposition
      exact hplain existing advances hposition

theorem Waiting.pushReturned (h : Waiting s) (a : String) (sequence : Option Int) :
    Waiting (call s { accountId := a, position := .returned sequence }) := h.push _ nofun nofun nofun

theorem Waiting.pushFetch (h : Waiting s) (hfirst : a ∉ s.entries.map Prod.fst)
    (hfree : ∀ call ∈ s.calls, call.accountId = a → ¬isFetching call) :
    Waiting (call s { accountId := a, position := .fetching none true }) :=
  h.push _ nofun (fun _ _ hposition => (Position.fetching.inj hposition).1.symm)
    (fun _ => ⟨hfirst, hfree⟩)

/-- A call moves on and does not fetch any more. -/
theorem Waiting.moveTo (h : Waiting s) {k : Nat} {pending : Call} {position : Position}
    (hposition : isFetching { pending with position } = false)
    (hheld : ∀ entry, position = .fetched entry → Owns s entry pending.accountId) :
    Waiting (moveTo s k pending position) := by
  refine ⟨?_, alone_of_exclusive (exclusive_set h.exclusive ?_), ?_, ?_⟩
  · intro other hother entry hfetched
    rcases List.mem_or_eq_of_mem_set hother with hold | rfl
    · exact h.held other hold entry hfetched
    · exact hheld entry hfetched
  · intro account hfor
    nomatch hposition.symm.trans (fetchingFor_eq_some.mp hfor).1
  · intro other hother hfetching
    rcases List.mem_or_eq_of_mem_set hother with hold | rfl
    · exact h.first other hold hfetching
    · nomatch hposition.symm.trans hfetching
  · intro other hother existing advances hfetching
    rcases List.mem_or_eq_of_mem_set hother with hold | rfl
    · exact h.plain other hold existing advances hfetching
    · obtain rfl : position = .fetching existing advances := hfetching
      nomatch hposition

theorem getSequence_inv (h : Tracked s) (hw : Waiting s) (hsound : Sound s (.getSequence a)) :
    Tracked (getSequence s a) ∧ Waiting (getSequence s a) := by
  unfold getSequence
  cases hcached : cached s a with
  | none =>
      obtain ⟨hfirst, hfree⟩ := hsound hcached
      exact ⟨(h.touch a).calls _, (hw.congr (t := touch s a) rfl rfl).pushFetch hfirst hfree⟩
  | some entry =>
      obtain ⟨held, hheld, hvalue⟩ := of_get_value s.cache hcached
      obtain ⟨place, hplace, howns⟩ := h.cached a held hheld
      obtain rfl : place = entry := Option.some.inj (hplace.symm.trans hvalue)
      have howns' : Owns (touch s a) place a := howns
      obtain ⟨cell, hcell⟩ := howns
      have hvalid := (h.numbered _ (List.mem_of_getElem? hcell)).1
      have hnot :
          ((touch s a).entries[place]?).any (fun held => held.2.state = .invalidated) = false := by
        change (s.entries[place]?).any _ = false
        rw [hcell]
        exact decide_eq_false (fun hinvalid => nomatch hvalid.symm.trans hinvalid)
      dsimp only
      rw [hnot]
      refine ⟨((h.touch a).advance howns').calls _, ?_⟩
      have htouched : Waiting (touch s a) := hw.congr rfl rfl
      exact (htouched.congr (advance_calls _ _ _) (advance_accounts howns')).pushReturned a _

theorem continued_inv (h : Tracked s) (hw : Waiting s) {k : Nat} {pending : Call}
    (hcall : s.calls[k]? = some pending)
    (hposition : pending.position = .fetched entry) :
    Tracked (continued s k pending entry) ∧ Waiting (continued s k pending entry) := by
  have howns := hw.held pending (List.mem_of_getElem? hcall) entry hposition
  refine ⟨(h.advance howns).calls _, ?_⟩
  exact (hw.congr (advance_calls _ _ _) (advance_accounts howns)).moveTo rfl nofun

theorem Owns.push (h : Owns s entry a) (cell : String × SequenceEntry) :
    Owns { s with entries := s.entries ++ [cell] } entry a := by
  obtain ⟨held, hheld⟩ := h
  exact ⟨held, (List.getElem?_append_left (List.getElem?_eq_some_iff.mp hheld).1).trans hheld⟩

theorem owns_new (s : Sequences) (a : String) (held : SequenceEntry) :
    Owns { s with entries := s.entries ++ [(a, held)] } s.entries.length a :=
  ⟨held, List.getElem?_concat_length⟩

/-- The number of an account is fetched for the first time. -/
theorem Tracked.fetched (h : Tracked s) (hnew : a ∉ s.entries.map Prod.fst) (base : Int) :
    Tracked (store { s with entries := s.entries ++ [(a, { base, fetchedAt := s.now })] } a s.entries.length) := by
  refine ⟨?_, ?_, ?_, ?_⟩
  · change ((s.entries ++ [_]).map Prod.fst).Nodup
    rw [List.map_append]
    exact List.nodup_append'.mpr ⟨h.accounts, List.nodup_singleton a, List.disjoint_singleton.mpr hnew⟩
  · intro cell hcell
    rcases List.mem_append.mp hcell with hold | hlast
    · exact h.numbered cell hold
    · obtain rfl := List.mem_singleton.mp hlast
      have hnone : handed s a = [] := h.untouched a hnew
      change _ ∧ _ = (handed s a).length + 1 ∧ handed s a = upTo base (handed s a).length
      rw [hnone]
      exact ⟨rfl, rfl, rfl⟩
  · intro b hb
    refine h.untouched b (fun hmem => hb ?_)
    change b ∈ (s.entries ++ [_]).map Prod.fst
    rw [List.map_append]
    exact List.mem_append_left _ hmem
  · refine store_cached (s := { s with entries := _ }) ?_ (owns_new s a _)
    intro b held hheld
    obtain ⟨place, hvalue, hplace⟩ := h.cached b held hheld
    exact ⟨place, hvalue, hplace.push _⟩

theorem Waiting.fetched (h : Waiting s) {held : SequenceEntry}
    (hother : ∀ call ∈ s.calls, isFetching call → call.accountId ≠ a) :
    Waiting { s with entries := s.entries ++ [(a, held)] } := by
  refine ⟨fun call hcall entry hposition => (h.held call hcall entry hposition).push _, h.alone, ?_,
    h.plain⟩
  intro call hcall hfetching hmem
  rw [List.map_append] at hmem
  rcases List.mem_append.mp hmem with hold | hlast
  · exact h.first call hcall hfetching hold
  · exact hother call hcall hfetching (List.mem_singleton.mp hlast)

theorem loaded_inv (h : Tracked s) (hw : Waiting s) {k : Nat} {pending : Call}
    {existing : Option Nat} {advances : Bool}
    (hcall : s.calls[k]? = some pending) (hposition : pending.position = .fetching existing advances)
    (answer : Except String Int) :
    Tracked (loaded s k pending existing advances answer) ∧
      Waiting (loaded s k pending existing advances answer) := by
  obtain rfl := hw.plain pending (List.mem_of_getElem? hcall) existing advances hposition
  cases answer with
  | error message => exact ⟨h.calls _, hw.moveTo rfl nofun⟩
  | ok base =>
      have hfetching : isFetching pending := by
        rw [isFetching, hposition]
      have hnew := hw.first pending (List.mem_of_getElem? hcall) hfetching
      -- no other call is fetching the number of this account
      have hother : ∀ call ∈ (moveTo s k pending (.returned none)).calls, isFetching call →
        call.accountId ≠ pending.accountId := by
        intro call hmem hcallFetching haccount
        obtain ⟨j, hj⟩ := List.mem_iff_getElem?.mp hmem
        rcases of_getElem?_set hj with ⟨-, rfl⟩ | ⟨hne, hold⟩
        · nomatch hcallFetching
        · exact hne (hw.alone j k call pending hold hcall hcallFetching hfetching haccount)
      have hmoved : Waiting (moveTo s k pending (.returned none)) := hw.moveTo rfl nofun
      have hfetched : Waiting { moveTo s k pending (.returned none) with
          entries := s.entries ++ [(pending.accountId, { base, fetchedAt := s.now })] } := hmoved.fetched hother
      have hposition' : isFetching { pending with
          position := if advances then .fetched s.entries.length else .returned none } = false := by
        cases advances <;> rfl
      have hwaiting := hfetched.moveTo (k := k) hposition' (fun entry hentry => by
        cases advances with
        | false => nomatch hentry
        | true =>
            obtain rfl := Position.fetched.inj hentry
            exact owns_new s pending.accountId _)
      exact ⟨(h.fetched hnew base).calls _, hwaiting.congr (List.set_set _).symm rfl⟩

theorem step_inv (e : Event) (h : Tracked s) (hw : Waiting s) (hsound : Sound s e)
    (hstep : step s e = some t) :
    Tracked t ∧ Waiting t := by
  cases e with
  | getSequence a =>
      obtain rfl := Option.some.inj hstep
      exact getSequence_inv h hw hsound
  | invalidate a => exact hsound.elim
  | refresh a => exact hsound.elim
  | clear => exact hsound.elim
  | loaded k answer =>
      rw [step] at hstep
      split at hstep
      · rename_i pending hcall
        split at hstep
        · rename_i existing advances hposition
          obtain rfl := Option.some.inj hstep
          exact loaded_inv h hw hcall hposition answer
        · nomatch hstep
      · nomatch hstep
  | continued k =>
      rw [step] at hstep
      split at hstep
      · rename_i pending hcall
        split at hstep
        · rename_i entry hposition
          obtain rfl := Option.some.inj hstep
          exact continued_inv h hw hcall hposition
        · nomatch hstep
      · nomatch hstep
  | setClock now =>
      obtain rfl := Option.some.inj hstep
      exact ⟨⟨h.accounts, h.numbered, h.untouched, h.cached⟩, hw.congr rfl rfl⟩

end Steps

section Result

theorem start_tracked (ttlMs maxEntries : Numbers.JsNumber) (now : ℚ) :
    Tracked (start ttlMs maxEntries now) :=
  ⟨.nil, nofun, fun _ _ => rfl, nofun⟩

theorem start_waiting (ttlMs maxEntries : Numbers.JsNumber) (now : ℚ) :
    Waiting (start ttlMs maxEntries now) :=
  ⟨nofun, alone_of_exclusive exclusive_nil, nofun, nofun⟩

/-- The numbers of every account follow the one that was fetched for it, in every run in which only the first call for
an account finds no entry. -/
theorem handed_out_once (ttlMs maxEntries : Numbers.JsNumber) (now : ℚ) (es : List Event)
    (s : Sequences)
    (h : Reaches step Sound (start ttlMs maxEntries now) es s) (a : String) : Consecutive s a := by
  have hinv := run_invariant (I := fun s => Tracked s ∧ Waiting s)
    (fun _ e _ hi hok hstep => step_inv e hi.1 hi.2 hok hstep)
    _ s es ⟨start_tracked ttlMs maxEntries now, start_waiting ttlMs maxEntries now⟩ h.allowed h.run
  exact hinv.1.consecutive a

end Result

section Runs

/-- Two first calls both fetch, and both get the number after the fetched one. -/
theorem handed_out_twice : ∃ s ∈ run step (start (.finite 30000) (.finite 10000) 0)
    [.getSequence "G", .getSequence "G", .loaded 0 (.ok 41), .loaded 1 (.ok 41),
      .continued 0, .continued 1],
    handed s "G" = [42, 42] := by decide +kernel

instance (s : Sequences) (e : Event) : Decidable (Sound s e) := by
  cases e <;> unfold Sound <;> infer_instance

def queued : List Event :=
  [.getSequence "G", .getSequence "H", .loaded 0 (.ok 41), .getSequence "G", .loaded 1 (.ok 7),
    .continued 0, .getSequence "G", .continued 1]

theorem handed_out_in_turn : ∃ s ∈ run step (start (.finite 30000) (.finite 10000) 0) queued,
    handed s "G" = [42, 43, 44] ∧ Consecutive s "G" := by
  have hrun : ∃ s ∈ run step (start (.finite 30000) (.finite 10000) 0) queued,
      handed s "G" = [42, 43, 44] := by
    decide +kernel
  obtain ⟨s, hs, hhanded⟩ := hrun
  exact ⟨s, hs, hhanded, handed_out_once _ _ _ queued s ⟨hs, by decide +kernel⟩ "G"⟩

end Runs

end SplitSdk.SequenceNumbers
