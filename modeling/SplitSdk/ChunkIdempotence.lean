import SplitSdk.OperationChunker

namespace SplitSdk.ChunkIdempotence

open Interleaving OperationChunker OrderedMap

variable {T : Type} (sha256Hex : String → String) (json : T → Except String String)

section Statement

/-- How often `submitChunk` has succeeded for the chunks with the key. -/
def successes (s : Chunker T) (key : String) : Nat :=
  (s.calls.map (fun call => call.attempts.countP (fun attempt => attempt.key = key ∧ attempt.succeeded))).sum

/-- The chunks are submitted in order, and none after one that has failed. -/
structure InOrder (call : Call T) : Prop where
  attempts : call.attempts.Pairwise (fun a b => a.index < b.index ∧ a.succeeded)
  current : ∀ index key rest, call.position = .submitting index key rest → ∀ attempt ∈ call.attempts,
    attempt.index < index ∧ attempt.succeeded

def NoneExpired (m : IdempotencyManager) (now : ℚ) : Prop :=
  ∀ entry ∈ m.store.entries, ¬Expired now entry.2

/-- No key is forgotten, be it for its age or to make room. -/
def WithinLimits (s : Chunker T) : Event T → Prop
  | .submitAll _ _ => NoneExpired s.idempotency s.now
  | .answered _ (.ok _) => NoneExpired s.idempotency s.now ∧
      ((Numbers.JsNumber.finite s.now).add s.idempotency.ttlMs).lt (.finite s.now) = false ∧
        s.idempotency.maxEntries.le (.finite s.idempotency.store.size) = false
  | _ => True

def submittingKey (call : Call T) : Option String :=
  match call.position with
  | .submitting _ key _ => some key
  | _ => none

/-- The key of the first chunk that has no result yet. -/
def upcoming (m : IdempotencyManager) (sourceAddress : String) : List (List T × Nat) → Option String
  | [] => none
  | (operations, index) :: rest =>
      match chunkKey sha256Hex json sourceAddress index operations with
      | .error _ => none
      | .ok key => if m.store.has key then upcoming m sourceAddress rest else some key

/-- No call but `k` is submitting a chunk with the key. -/
def Free (s : Chunker T) (k : Nat) (key : String) : Prop :=
  ∀ j < s.calls.length, j ≠ k → ∀ call ∈ s.calls[j]?, submittingKey call ≠ some key

/-- A call starts to submit a chunk only when no other call is submitting it. -/
def Sound (s : Chunker T) : Event T → Prop
  | .submitAll sourceAddress chunks =>
      ∀ key ∈ upcoming sha256Hex json s.idempotency sourceAddress chunks.zipIdx,
        Free s s.calls.length key
  | .answered k (.ok txHash) =>
      match s.calls[k]? with
      | some call =>
          match call.position with
          | .submitting _ key rest =>
              ∀ next ∈ upcoming sha256Hex json (tryClaim s.idempotency s.now key txHash).1
                call.sourceAddress rest, Free s k next
          | _ => True
      | none => True
  | _ => True

end Statement

section Loop

variable {m : IdempotencyManager} {now : ℚ}

theorem advance_attempts (m : IdempotencyManager) (now : ℚ) (call : Call T)
    (rest : List (List T × Nat)) :
    (advance sha256Hex json m now call rest).2.attempts = call.attempts := by
  induction rest generalizing m call with
  | nil => rfl
  | cons chunk rest ih =>
      obtain ⟨operations, index⟩ := chunk
      rw [advance]
      split
      · rfl
      · split
        · exact ih _ _
        · rfl

theorem sweep_of_noneExpired (h : NoneExpired m now) : sweep m now = m := by
  have hstore : m.store.filter (fun entry => ¬Expired now entry.2) = m.store :=
    OrdMap.filter_of_forall (fun entry hentry => decide_eq_true (h entry hentry))
  unfold sweep
  rw [hstore]

/-- Without an expired entry the loop leaves the store as it is, and stops at the first chunk that has no result. -/
theorem advance_spec (h : sweep m now = m) (call : Call T) (rest : List (List T × Nat)) :
    (advance sha256Hex json m now call rest).1 = m ∧
      submittingKey (advance sha256Hex json m now call rest).2 =
        upcoming sha256Hex json m call.sourceAddress rest := by
  induction rest generalizing call with
  | nil => exact ⟨rfl, rfl⟩
  | cons chunk rest ih =>
      obtain ⟨operations, index⟩ := chunk
      cases hkey : chunkKey sha256Hex json call.sourceAddress index operations with
      | error error =>
          rw [advance, upcoming, hkey]
          exact ⟨rfl, rfl⟩
      | ok key =>
          rw [advance, upcoming, hkey]
          dsimp only
          rw [getResult, h, OrdMap.has]
          cases hget : m.store.get? key with
          | none => exact ⟨rfl, rfl⟩
          | some entry => exact ih _

theorem upcoming_new {sourceAddress : String} {rest : List (List T × Nat)} {key : String}
    (h : upcoming sha256Hex json m sourceAddress rest = some key) : m.store.has key = false := by
  induction rest with
  | nil => nomatch h
  | cons chunk rest ih =>
      obtain ⟨operations, index⟩ := chunk
      rw [upcoming] at h
      split at h
      · nomatch h
      · split at h
        · exact ih h
        · rename_i hnew
          obtain rfl := Option.some.inj h
          exact Bool.eq_false_iff.mpr hnew

end Loop

section Order

/-- What holds of a call, with the chunks that are left to it. -/
structure Ordered (call : Call T) : Prop where
  attempts : call.attempts.Pairwise (fun a b => a.index < b.index ∧ a.succeeded)
  current : ∀ index key rest, call.position = .submitting index key rest →
    (∀ attempt ∈ call.attempts, attempt.index < index ∧ attempt.succeeded) ∧
      (∀ chunk ∈ rest, index < chunk.2) ∧
      rest.Pairwise (fun a b => a.2 < b.2)

theorem Ordered.inOrder {call : Call T} (h : Ordered call) : InOrder call :=
  ⟨h.attempts, fun index key rest hposition => (h.current index key rest hposition).1⟩

theorem advance_ordered {call : Call T} {rest : List (List T × Nat)} (m : IdempotencyManager) (now : ℚ)
    (hattempts : call.attempts.Pairwise (fun a b => a.index < b.index ∧ a.succeeded))
    (hrest : rest.Pairwise (fun a b => a.2 < b.2))
    (hbefore : ∀ attempt ∈ call.attempts, attempt.succeeded ∧ ∀ chunk ∈ rest, attempt.index < chunk.2) :
    Ordered (advance sha256Hex json m now call rest).2 := by
  induction rest generalizing m call with
  | nil => exact ⟨hattempts, fun _ _ _ => nofun⟩
  | cons chunk rest ih =>
      obtain ⟨operations, index⟩ := chunk
      obtain ⟨hfirst, hpairs⟩ := List.pairwise_cons.mp hrest
      rw [advance]
      split
      · exact ⟨hattempts, fun _ _ _ => nofun⟩
      · split
        · refine ih _ hattempts hpairs (fun attempt hattempt => ?_)
          obtain ⟨hsucceeded, hless⟩ := hbefore attempt hattempt
          exact ⟨hsucceeded, fun chunk hchunk => hless chunk (List.mem_cons_of_mem _ hchunk)⟩
        · refine ⟨hattempts, fun current key left hposition => ?_⟩
          obtain ⟨rfl, rfl, rfl⟩ := Position.submitting.inj hposition
          refine ⟨fun attempt hattempt => ?_, hfirst, hpairs⟩
          obtain ⟨hsucceeded, hless⟩ := hbefore attempt hattempt
          exact ⟨hless _ List.mem_cons_self, hsucceeded⟩

theorem pairwise_append_attempt {attempts : List Attempt}
    (h : attempts.Pairwise (fun a b => a.index < b.index ∧ a.succeeded))
    {attempt : Attempt} (hlast : ∀ before ∈ attempts, before.index < attempt.index ∧ before.succeeded) :
    (attempts ++ [attempt]).Pairwise (fun a b => a.index < b.index ∧ a.succeeded) := by
  refine List.pairwise_append.mpr ⟨h, List.pairwise_singleton _ _, ?_⟩
  intro before hbefore last hmem
  obtain rfl := List.mem_singleton.mp hmem
  exact hlast before hbefore

theorem zipIdx_pairwise (chunks : List (List T)) : chunks.zipIdx.Pairwise (fun a b => a.2 < b.2) := by
  have h : (chunks.zipIdx.map Prod.snd).Pairwise (· < ·) := by
    rw [List.zipIdx_map_snd]
    exact List.pairwise_lt_range'
  exact List.pairwise_map.mp h

theorem answered_ordered {s : Chunker T} (h : ∀ call ∈ s.calls, Ordered call) {k index : Nat}
    {call : Call T} {key : String}
    {rest : List (List T × Nat)} (hcall : s.calls[k]? = some call)
    (hposition : call.position = .submitting index key rest)
    (answer : Except String String) :
    ∀ other ∈ (answered sha256Hex json s k call index key rest answer).calls, Ordered other := by
  have hordered := h call (List.mem_of_getElem? hcall)
  obtain ⟨hbefore, hrest, hpairs⟩ := hordered.current index key rest hposition
  cases answer with
  | error error =>
      exact forall_mem_set h ⟨pairwise_append_attempt hordered.attempts hbefore, fun _ _ _ => nofun⟩
  | ok txHash =>
      have hattempts : (submitted call index key txHash).attempts.Pairwise
          (fun a b => a.index < b.index ∧ a.succeeded) :=
        pairwise_append_attempt hordered.attempts hbefore
      apply forall_mem_set h
      refine advance_ordered sha256Hex json _ _ hattempts hpairs ?_
      intro attempt hattempt
      rcases List.mem_append.mp hattempt with hold | hnew
      · exact ⟨(hbefore attempt hold).2,
          fun chunk hchunk => (hbefore attempt hold).1.trans (hrest chunk hchunk)⟩
      · rw [List.mem_singleton.mp hnew]
        exact ⟨rfl, hrest⟩

theorem step_ordered {s t : Chunker T} (e : Event T) (h : ∀ call ∈ s.calls, Ordered call)
    (hstep : step sha256Hex json s e = some t) : ∀ call ∈ t.calls, Ordered call := by
  cases moves_of_step hstep with
  | submitAll sourceAddress chunks =>
      intro call hcall
      rcases List.mem_append.mp hcall with hold | hnew
      · exact h call hold
      · rw [List.mem_singleton.mp hnew]
        exact advance_ordered sha256Hex json _ _ .nil (zipIdx_pairwise chunks) nofun
  | answered answer hcall hposition => exact answered_ordered sha256Hex json h hcall hposition answer
  | setClock now => exact h

end Order

section Claims

variable {m : IdempotencyManager} {now : ℚ} {s t : Chunker T}

/-- A claim within the limits. -/
theorem tryClaim_eq (hexpired : NoneExpired m now)
    (hroom : m.maxEntries.le (.finite m.store.size) = false) (key txHash : String) :
    (tryClaim m now key txHash).1 = if m.store.has key then m else
      { m with store := m.store.set key ⟨txHash, (Numbers.JsNumber.finite now).add m.ttlMs⟩ } := by
  rw [tryClaim, sweep_of_noneExpired hexpired, evict, hroom, OrdMap.has]
  dsimp only
  cases m.store.get? key with
  | some entry => rfl
  | none => rfl

theorem tryClaim_has (hexpired : NoneExpired m now)
    (hroom : m.maxEntries.le (.finite m.store.size) = false) (key txHash other : String) :
    (tryClaim m now key txHash).1.store.has other ↔ other = key ∨ m.store.has other := by
  rw [tryClaim_eq hexpired hroom]
  by_cases hhas : m.store.has key
  · rw [if_pos hhas]
    exact ⟨.inr, fun h => h.elim (fun heq => heq ▸ hhas) id⟩
  · rw [if_neg hhas, OrdMap.has, OrdMap.get?_set, OrdMap.has]
    split_ifs with heq
    · exact iff_of_true rfl (.inl heq)
    · exact ⟨.inr, fun h => h.elim (fun hother => absurd hother heq) id⟩

theorem tryClaim_noneExpired (hexpired : NoneExpired m now)
    (hlasting : ((Numbers.JsNumber.finite now).add m.ttlMs).lt (.finite now) = false)
    (hroom : m.maxEntries.le (.finite m.store.size) = false) (key txHash : String) :
    NoneExpired (tryClaim m now key txHash).1 now := by
  rw [tryClaim_eq hexpired hroom]
  split_ifs
  · exact hexpired
  · intro entry hentry
    rcases OrdMap.mem_set hentry with hold | rfl
    · exact hexpired entry hold
    · exact Bool.eq_false_iff.mp hlasting

/-- No two calls are submitting chunks with one key. -/
def Exclusive (calls : List (Call T)) : Prop :=
  ∀ (j k : Nat) (a b : Call T) (key : String), calls[j]? = some a → calls[k]? = some b →
    submittingKey a = some key → submittingKey b = some key → j = k

theorem Free.eq {k j : Nat} {key : String} {call : Call T} (h : Free s k key)
    (hcall : s.calls[j]? = some call)
    (hkey : submittingKey call = some key) : j = k := by
  by_contra hne
  exact h j (List.getElem?_eq_some_iff.mp hcall).1 hne call hcall hkey

theorem Exclusive.set (h : Exclusive s.calls) {k : Nat} {next : Call T}
    (hfree : ∀ key, submittingKey next = some key → Free s k key) : Exclusive (s.calls.set k next) :=
  exclusive_set h (fun key hnext _ _ hcall hkey => (hfree key hnext).eq hcall hkey)

theorem Exclusive.push (h : Exclusive s.calls) {next : Call T}
    (hfree : ∀ key, submittingKey next = some key → Free s s.calls.length key) :
    Exclusive (s.calls ++ [next]) := by
  refine exclusive_push h (fun key hnext call hmem hkey => ?_)
  obtain ⟨j, hcall⟩ := List.mem_iff_getElem?.mp hmem
  exact (List.getElem?_eq_some_iff.mp hcall).1.ne ((hfree key hnext).eq hcall hkey)

/-- A key that is being submitted is submitted by one call, and has not succeeded; one that has succeeded is in the store. -/
structure Inv (s : Chunker T) : Prop where
  exclusive : Exclusive s.calls
  unclaimed : ∀ call ∈ s.calls, ∀ key, submittingKey call = some key → successes s key = 0
  claimed : ∀ key, successes s key ≠ 0 → s.idempotency.store.has key
  once : ∀ key, successes s key ≤ 1

theorem start_inv (m : IdempotencyManager) (now : ℚ) : Inv (start (T := T) m now) :=
  ⟨exclusive_nil, nofun, fun _ h => absurd rfl h, fun _ => Nat.zero_le _⟩

def isSuccess (key : String) (attempt : Attempt) : Bool := attempt.key = key ∧ attempt.succeeded

theorem successes_eq (s : Chunker T) (key : String) :
    successes s key = (s.calls.map (fun call => call.attempts.countP (isSuccess key))).sum := rfl

/-- An attempt more. -/
theorem successes_set {k : Nat} {call next : Call T} (hcall : s.calls[k]? = some call)
    {attempt : Attempt}
    (hattempts : next.attempts = call.attempts ++ [attempt]) (m : IdempotencyManager) (key : String) :
    successes { s with idempotency := m, calls := s.calls.set k next } key =
      successes s key + if isSuccess key attempt then 1 else 0 := by
  have hsum := sum_set (fun call : Call T => call.attempts.countP (isSuccess key)) s.calls k call next hcall
  rw [hattempts, List.countP_append, List.countP_singleton] at hsum
  rw [successes_eq, successes_eq]
  dsimp only
  omega

theorem successes_push {next : Call T} (hattempts : next.attempts = []) (m : IdempotencyManager)
    (key : String) :
    successes { s with idempotency := m, calls := s.calls ++ [next] } key = successes s key := by
  rw [successes_eq, successes_eq, List.map_append, List.sum_append, List.map_singleton, hattempts]
  rfl

theorem Inv.not_claimed (h : Inv s) {key : String} (hkey : s.idempotency.store.has key = false) :
    successes s key = 0 := by
  by_contra hne
  exact Bool.eq_false_iff.mp hkey (h.claimed key hne)

theorem submitAll_inv (h : Inv s) (sourceAddress : String) (chunks : List (List T))
    (hexpired : NoneExpired s.idempotency s.now)
    (hsound : ∀ key ∈ upcoming sha256Hex json s.idempotency sourceAddress chunks.zipIdx,
      Free s s.calls.length key) :
    Inv (submitAll sha256Hex json s sourceAddress chunks) := by
  obtain ⟨hmanager, hkey⟩ :=
    advance_spec sha256Hex json (sweep_of_noneExpired hexpired) { sourceAddress } chunks.zipIdx
  have hattempts := advance_attempts sha256Hex json s.idempotency s.now { sourceAddress } chunks.zipIdx
  unfold submitAll
  generalize advance sha256Hex json s.idempotency s.now { sourceAddress } chunks.zipIdx = next
    at hmanager hkey hattempts
  have hsuccesses := successes_push (s := s) hattempts next.1
  dsimp only
  refine ⟨h.exclusive.push (fun key hnext => hsound key (hkey ▸ hnext)), ?_, ?_, ?_⟩
  · intro call hcall key hsubmitting
    rw [hsuccesses]
    rcases List.mem_append.mp hcall with hold | hlast
    · exact h.unclaimed call hold key hsubmitting
    · obtain rfl := List.mem_singleton.mp hlast
      exact h.not_claimed (upcoming_new sha256Hex json (hkey ▸ hsubmitting))
  · intro key hne
    rw [hsuccesses] at hne
    exact hmanager.symm ▸ h.claimed key hne
  · intro key
    rw [hsuccesses]
    exact h.once key

theorem failed_inv (h : Inv s) {k index : Nat} {call : Call T} (hcall : s.calls[k]? = some call)
    (key error : String) :
    Inv { s with calls := s.calls.set k (failed call index key error) } := by
  have hsuccesses (other : String) :
      successes { s with calls := s.calls.set k (failed call index key error) } other =
        successes s other := by
    refine (successes_set hcall rfl s.idempotency other).trans ?_
    rw [if_neg (by simp [isSuccess])]
    rfl
  refine ⟨h.exclusive.set nofun, ?_, ?_, ?_⟩
  · intro other hother next hnext
    rw [hsuccesses]
    rcases List.mem_or_eq_of_mem_set hother with hold | rfl
    · exact h.unclaimed other hold next hnext
    · nomatch hnext
  · intro other hne
    rw [hsuccesses] at hne
    exact h.claimed other hne
  · intro other
    rw [hsuccesses]
    exact h.once other

theorem submittingKey_eq {call : Call T} {index : Nat} {key : String} {rest : List (List T × Nat)}
    (h : call.position = .submitting index key rest) : submittingKey call = some key := by
  rw [submittingKey, h]

/-- A chunk succeeds for the first time. -/
theorem succeeded_inv (h : Inv s) {k index : Nat} {call : Call T} {key txHash : String}
    {rest : List (List T × Nat)}
    (hcall : s.calls[k]? = some call) (hposition : call.position = .submitting index key rest)
    (hlimits : WithinLimits s (.answered k (.ok txHash)))
    (hsound : ∀ next ∈ upcoming sha256Hex json (tryClaim s.idempotency s.now key txHash).1
      call.sourceAddress rest, Free s k next) :
    Inv (answered sha256Hex json s k call index key rest (.ok txHash)) := by
  obtain ⟨hexpired, hlasting, hroom⟩ := hlimits
  have hhas := tryClaim_has hexpired hroom key txHash
  have hclaimed := sweep_of_noneExpired (tryClaim_noneExpired hexpired hlasting hroom key txHash)
  have hfirst : successes s key = 0 := h.unclaimed call (List.mem_of_getElem? hcall) key
    (submittingKey_eq hposition)
  unfold answered
  dsimp only
  generalize (tryClaim s.idempotency s.now key txHash).1 = claimed at hsound hhas hclaimed
  obtain ⟨hmanager, hkey⟩ := advance_spec sha256Hex json hclaimed (submitted call index key txHash) rest
  have hattempts := advance_attempts sha256Hex json claimed s.now (submitted call index key txHash) rest
  generalize advance sha256Hex json claimed s.now (submitted call index key txHash) rest = next
    at hmanager hkey hattempts
  have hsuccesses := successes_set hcall hattempts next.1
  have hsuccess (other : String) : isSuccess other ⟨index, key, true⟩ ↔ other = key := by
    simp [isSuccess, eq_comm]
  refine ⟨h.exclusive.set (fun other hother => hsound other (hkey ▸ hother)), ?_, ?_, ?_⟩
  · intro other hother key' hsubmitting
    rw [hsuccesses]
    obtain ⟨j, hj⟩ := List.mem_iff_getElem?.mp hother
    rcases of_getElem?_set hj with ⟨rfl, rfl⟩ | ⟨hne, hold⟩
    · have hnew := upcoming_new sha256Hex json (hkey ▸ hsubmitting)
      rw [Bool.eq_false_iff, ne_eq, hhas, not_or] at hnew
      rw [if_neg (mt (hsuccess key').mp hnew.1), h.not_claimed (Bool.eq_false_iff.mpr hnew.2)]
    · have hother : key' ≠ key := by
        rintro rfl
        exact hne (h.exclusive j k other call key' hold hcall hsubmitting (submittingKey_eq hposition))
      rw [if_neg (mt (hsuccess key').mp hother),
        h.unclaimed other (List.mem_of_getElem? hold) key' hsubmitting]
  · intro other hne
    rw [hsuccesses] at hne
    dsimp only
    rw [hmanager, hhas]
    by_cases heq : other = key
    · exact .inl heq
    · rw [if_neg (mt (hsuccess other).mp heq)] at hne
      exact .inr (h.claimed other hne)
  · intro other
    rw [hsuccesses]
    split_ifs with heq
    · rw [(hsuccess other).mp heq, hfirst]
    · exact h.once other

theorem step_inv (e : Event T) (h : Inv s) (hlimits : WithinLimits s e)
    (hsound : Sound sha256Hex json s e)
    (hstep : step sha256Hex json s e = some t) : Inv t := by
  cases moves_of_step hstep with
  | submitAll sourceAddress chunks => exact submitAll_inv sha256Hex json h sourceAddress chunks hlimits hsound
  | answered answer hcall hposition =>
      cases answer with
      | error error => exact failed_inv h hcall _ error
      | ok txHash =>
          rw [Sound, hcall] at hsound
          dsimp only at hsound
          rw [hposition] at hsound
          exact succeeded_inv sha256Hex json h hcall hposition hlimits hsound
  | setClock now => exact ⟨h.exclusive, h.unclaimed, h.claimed, h.once⟩

end Claims

section Result

/-- Each call submits its chunks in order up to the first failure. Within the limits of the store, and when no chunk
is submitted by two calls at a time, no chunk is submitted with success twice. -/
theorem submitted_once (m : IdempotencyManager) (now : ℚ) (es : List (Event T)) (s : Chunker T) :
    (run (step sha256Hex json) (start m now) es = some s → ∀ call ∈ s.calls, InOrder call) ∧
      (Reaches (step sha256Hex json) (fun s e => WithinLimits s e ∧ Sound sha256Hex json s e)
        (start m now) es s →
        ∀ key, successes s key ≤ 1) := by
  constructor
  · intro h call hcall
    have hordered := run_preserves (fun _ e _ hi hstep => step_ordered sha256Hex json e hi hstep)
      (List.forall_mem_nil _) h
    exact (hordered call hcall).inOrder
  · intro h
    exact (run_invariant
      (fun _ e _ hi hok hstep => step_inv sha256Hex json e hi hok.1 hok.2 hstep) (start m now) s es
      (start_inv m now) h.allowed h.run).once

end Result

section Runs

instance (s : Chunker T) (e : Event T) : Decidable (WithinLimits s e) := by
  unfold WithinLimits NoneExpired
  split <;> infer_instance

instance (s : Chunker T) (k : Nat) (key : String) : Decidable (Free s k key) := by
  unfold Free
  infer_instance

instance (s : Chunker T) (e : Event T) : Decidable (Sound sha256Hex json s e) := by
  unfold Sound
  split
  · infer_instance
  · split
    · split <;> infer_instance
    · infer_instance
  · infer_instance

def overlapping : List (Event String) :=
  [.submitAll "G" [["pay"]], .submitAll "G" [["pay"]], .answered 0 (.ok "tx-1"),
    .answered 1 (.ok "tx-2")]

/-- A second call begins while the first one is submitting the chunk, and both succeed. -/
theorem submitted_twice : Allowed (step id .ok) WithinLimits (start {} 0) overlapping ∧
    ∃ s ∈ run (step id .ok) (start {} 0) overlapping,
      (chunkKey id .ok "G" 0 ["pay"]).toOption.map (successes s) = some 2 := by
  decide +kernel

def retried : List (Event String) :=
  [.submitAll "G" [["pay"], ["refund"]], .answered 0 (.ok "tx-1"), .answered 0 (.error "timeout"),
    .submitAll "G" [["pay"], ["refund"]], .answered 1 (.ok "tx-2")]

theorem submitted_once_retried : ∃ s ∈ run (step id .ok) (start {} 0) retried,
    (s.calls.map (fun call => call.attempts.map Attempt.index) = [[0, 1], [1]] ∧
      ∀ call ∈ s.calls, InOrder call) ∧
      ∀ key, successes s key ≤ 1 := by
  have hrun : ∃ s ∈ run (step id .ok) (start {} 0) retried,
    s.calls.map (fun call => call.attempts.map Attempt.index) = [[0, 1], [1]] := by
    decide +kernel
  obtain ⟨s, hs, hindices⟩ := hrun
  exact ⟨s, hs, ⟨hindices, (submitted_once id .ok {} 0 retried s).1 hs⟩,
    (submitted_once id .ok {} 0 retried s).2 ⟨hs, by decide +kernel⟩⟩

end Runs

end SplitSdk.ChunkIdempotence
