import Mathlib.Data.Finset.Basic
import Mathlib.Data.Fintype.EquivFin

namespace SplitSdk.StreamDeduplicator

section Data

structure StreamDeduplicatorOptions where
  windowSize : Nat := 1000
  flushIntervalTokens : Nat := 100

/-- `saved` is the list of tokens that was last persisted for the namespace. -/
structure Deduplicator where
  windowSize : Nat
  flushIntervalTokens : Nat
  seen : Finset String := ∅
  buffer : List String := []
  writeIndex : Nat := 0
  newTokensSinceFlush : Nat := 0
  saved : Option (List String) := none

end Data

section Operations

def create (options : StreamDeduplicatorOptions) (saved : Option (List String)) : Deduplicator where
  windowSize := options.windowSize
  flushIntervalTokens := options.flushIntervalTokens
  saved := saved

/-- `Array.prototype.slice(-n)`. -/
def sliceLast (n : Nat) (tokens : List String) : List String :=
  if n = 0 then tokens else tokens.drop (tokens.length - n)

def restoreToken (d : Deduplicator) (token : String) : Deduplicator :=
  if token ∈ d.seen then d else { d with seen := insert token d.seen, buffer := d.buffer ++ [token] }

def restore (d : Deduplicator) : Deduplicator :=
  match d.saved with
  | none => d
  | some tokens =>
      let d := (sliceLast d.windowSize tokens).foldl restoreToken d
      { d with writeIndex := d.buffer.length % d.windowSize }

/-- The part of `record` that writes the token into the circular buffer. -/
def store (d : Deduplicator) (token : String) : Deduplicator :=
  let writeIndex := (d.writeIndex + 1) % d.windowSize
  if d.buffer.length ≥ d.windowSize then
    let seen := d.buffer[d.writeIndex]?.elim d.seen d.seen.erase
    { d with seen := insert token seen, buffer := d.buffer.set d.writeIndex token, writeIndex }
  else { d with seen := insert token d.seen, buffer := d.buffer ++ [token], writeIndex }

def record (d : Deduplicator) (token : String) : Deduplicator :=
  let d := store d token
  let d := { d with newTokensSinceFlush := d.newTokensSinceFlush + 1 }
  if d.newTokensSinceFlush ≥ d.flushIntervalTokens then
    { d with newTokensSinceFlush := 0, saved := some d.buffer }
  else d

/-- `filter` returns false on a duplicate, which is what `duplicateEventDiscarded` is emitted for. -/
def filter (d : Deduplicator) (token : String) : Bool × Deduplicator :=
  if token ∈ d.seen then (false, d) else (true, record d token)

/-- The results of a sequence of calls of `filter` and the state after them. -/
def filterAll (d : Deduplicator) : List String → List Bool × Deduplicator
  | [] => ([], d)
  | token :: tokens =>
      let (result, d) := filter d token
      let (results, d) := filterAll d tokens
      (result :: results, d)

end Operations

section Invariant

variable {d : Deduplicator} {windowSize : Nat}

/-- The window holds its tokens once, and it is filled from the front before it wraps around. -/
structure Inv (windowSize : Nat) (d : Deduplicator) : Prop where
  window : d.windowSize = windowSize
  seen : ∀ token, token ∈ d.seen ↔ token ∈ d.buffer
  nodup : d.buffer.Nodup
  length : d.buffer.length ≤ windowSize
  index : d.writeIndex < windowSize
  filling : d.buffer.length < windowSize → d.writeIndex = d.buffer.length

theorem mem_set_iff {tokens : List String} (hnodup : tokens.Nodup) {i : Nat} (hi : i < tokens.length)
    (token other : String) : other ∈ tokens.set i token ↔ other = token ∨ other ≠ tokens[i] ∧ other ∈ tokens := by
  rw [(List.set_perm_cons_eraseIdx hi token).mem_iff, List.mem_cons, ← hnodup.erase_getElem, hnodup.mem_erase_iff]

theorem Inv.index_lt (hi : Inv windowSize d) (hfull : windowSize ≤ d.buffer.length) : d.writeIndex < d.buffer.length :=
  hi.index.trans_le hfull

theorem store_inv (hi : Inv windowSize d) {token : String} (hnew : token ∉ d.seen) : Inv windowSize (store d token) := by
  have hmem : token ∉ d.buffer := mt (hi.seen token).mpr hnew
  have hindex : (d.writeIndex + 1) % windowSize < windowSize := Nat.mod_lt _ (Nat.zero_lt_of_lt hi.index)
  unfold store
  rw [hi.window]
  by_cases hfull : d.buffer.length ≥ windowSize
  · have hlt := hi.index_lt hfull
    simp only [if_pos hfull, List.getElem?_eq_getElem hlt, Option.elim_some]
    refine ⟨rfl, ?_, hi.nodup.set hmem, ?_, hindex, ?_⟩
    · intro other
      rw [Finset.mem_insert, Finset.mem_erase, hi.seen other, mem_set_iff hi.nodup hlt]
    · rw [List.length_set]
      exact hi.length
    · rw [List.length_set]
      exact fun h => absurd hfull (Nat.not_le.mpr h)
  · simp only [if_neg hfull]
    refine ⟨rfl, ?_, ?_, ?_, hindex, ?_⟩
    · intro other
      rw [Finset.mem_insert, List.mem_append, List.mem_singleton, hi.seen other, or_comm]
    · rw [List.nodup_append']
      exact ⟨hi.nodup, List.nodup_singleton token, List.disjoint_singleton.mpr hmem⟩
    · rw [List.length_append, List.length_singleton]
      omega
    · intro h
      rw [List.length_append, List.length_singleton] at h ⊢
      rw [hi.filling (by omega), Nat.mod_eq_of_lt h]

theorem record_inv (hi : Inv windowSize d) {token : String} (hnew : token ∉ d.seen) :
    Inv windowSize (record d token) := by
  have h := store_inv hi hnew
  unfold record
  dsimp only
  split_ifs
  · exact ⟨h.window, h.seen, h.nodup, h.length, h.index, h.filling⟩
  · exact ⟨h.window, h.seen, h.nodup, h.length, h.index, h.filling⟩

theorem filterAll_inv (hi : Inv windowSize d) (tokens : List String) : Inv windowSize (filterAll d tokens).2 := by
  induction tokens generalizing d with
  | nil => exact hi
  | cons token tokens ih =>
      change Inv windowSize (filterAll (filter d token).2 tokens).2
      apply ih
      unfold filter
      split_ifs with hseen
      · exact hi
      · exact record_inv hi hseen

/-- The list that is persisted is the buffer. -/
theorem record_saved {token : String} (h : (record d token).newTokensSinceFlush = 0) :
    (record d token).saved = some (record d token).buffer := by
  unfold record at h ⊢
  dsimp only at h ⊢
  split_ifs at h ⊢
  rfl

end Invariant

section Restore

variable {d : Deduplicator}

theorem foldl_restoreToken (tokens : List String) (hseen : ∀ token, token ∈ d.seen ↔ token ∈ d.buffer)
    (hnodup : d.buffer.Nodup) :
    (∀ token, token ∈ (tokens.foldl restoreToken d).seen ↔ token ∈ (tokens.foldl restoreToken d).buffer) ∧
      (tokens.foldl restoreToken d).buffer.Nodup ∧ (tokens.foldl restoreToken d).windowSize = d.windowSize ∧
      (tokens.foldl restoreToken d).buffer.length ≤ d.buffer.length + tokens.length := by
  induction tokens generalizing d with
  | nil => exact ⟨hseen, hnodup, rfl, Nat.le_refl _⟩
  | cons token tokens ih =>
      rw [List.foldl_cons, List.length_cons]
      by_cases hmem : token ∈ d.seen
      · rw [restoreToken, if_pos hmem]
        obtain ⟨h₁, h₂, h₃, h₄⟩ := ih hseen hnodup
        exact ⟨h₁, h₂, h₃, by omega⟩
      · have hnew : token ∉ d.buffer := mt (hseen token).mpr hmem
        rw [restoreToken, if_neg hmem]
        obtain ⟨h₁, h₂, h₃, h₄⟩ := @ih { d with seen := insert token d.seen, buffer := d.buffer ++ [token] }
          (fun other => by rw [Finset.mem_insert, List.mem_append, List.mem_singleton, hseen other, or_comm])
          (List.nodup_append'.mpr ⟨hnodup, List.nodup_singleton token, List.disjoint_singleton.mpr hnew⟩)
        rw [List.length_append, List.length_singleton] at h₄
        exact ⟨h₁, h₂, h₃, by omega⟩

/-- Tokens that are not in the window yet are all restored. -/
theorem foldl_restoreToken_of_nodup (tokens : List String) (hseen : ∀ token ∈ tokens, token ∉ d.seen)
    (hnodup : tokens.Nodup) : (tokens.foldl restoreToken d).buffer = d.buffer ++ tokens := by
  induction tokens generalizing d with
  | nil => exact (List.append_nil _).symm
  | cons token tokens ih =>
      obtain ⟨hnew, hnodup⟩ := List.nodup_cons.mp hnodup
      rw [List.foldl_cons, restoreToken, if_neg (hseen token List.mem_cons_self), ih _ hnodup]
      · exact List.append_assoc _ _ _
      · intro other hother hmem
        rcases Finset.mem_insert.mp hmem with rfl | hmem
        · exact hnew hother
        · exact hseen other (List.mem_cons_of_mem _ hother) hmem

theorem length_sliceLast {n : Nat} (hn : 0 < n) (tokens : List String) : (sliceLast n tokens).length ≤ n := by
  rw [sliceLast, if_neg (Nat.ne_of_gt hn), List.length_drop]
  omega

theorem sliceLast_of_length_le {n : Nat} (hn : 0 < n) {tokens : List String} (h : tokens.length ≤ n) :
    sliceLast n tokens = tokens := by
  rw [sliceLast, if_neg (Nat.ne_of_gt hn), Nat.sub_eq_zero_of_le h, List.drop_zero]

theorem restore_inv (options : StreamDeduplicatorOptions) (hw : 0 < options.windowSize)
    (saved : Option (List String)) : Inv options.windowSize (restore (create options saved)) := by
  cases saved with
  | none => exact ⟨rfl, fun token => by simp [create, restore], List.nodup_nil, Nat.zero_le _, hw, fun _ => rfl⟩
  | some tokens =>
      obtain ⟨hseen, hnodup, hwindow, hlength⟩ := foldl_restoreToken (d := create options (some tokens))
        (sliceLast (create options (some tokens)).windowSize tokens) (fun token => by simp [create]) List.nodup_nil
      have hlength := hlength.trans ((Nat.zero_add _).le.trans (length_sliceLast hw tokens))
      refine ⟨hwindow, hseen, hnodup, hlength, ?_, ?_⟩
      · change _ % _ < _
        rw [hwindow]
        exact Nat.mod_lt _ hw
      · intro h
        change _ % _ = _
        rw [hwindow]
        exact Nat.mod_eq_of_lt h

/-- Restoring a window leaves its tokens in their places and starts to write behind them. -/
theorem restore_window (options : StreamDeduplicatorOptions) (hw : 0 < options.windowSize) {tokens : List String}
    (hnodup : tokens.Nodup) (hlength : tokens.length ≤ options.windowSize) :
    (restore (create options (some tokens))).buffer = tokens ∧
      (restore (create options (some tokens))).writeIndex = tokens.length % options.windowSize := by
  have hbuffer : (restore (create options (some tokens))).buffer = tokens := by
    change ((sliceLast options.windowSize tokens).foldl restoreToken _).buffer = tokens
    rw [sliceLast_of_length_le hw hlength]
    exact foldl_restoreToken_of_nodup tokens (fun token _ => Finset.notMem_empty token) hnodup
  refine ⟨hbuffer, ?_⟩
  have hwindow := (restore_inv options hw (some tokens)).window
  change (restore (create options (some tokens))).buffer.length % (restore (create options (some tokens))).windowSize = _
  rw [hbuffer, hwindow]

end Restore

section Restart

variable {d e : Deduplicator} {windowSize : Nat}

/-- The fields on which the results of `filter` depend. -/
def SameWindow (d e : Deduplicator) : Prop :=
  d.windowSize = e.windowSize ∧ d.seen = e.seen ∧ d.buffer = e.buffer ∧ d.writeIndex = e.writeIndex

theorem SameWindow.symm (h : SameWindow d e) : SameWindow e d := ⟨h.1.symm, h.2.1.symm, h.2.2.1.symm, h.2.2.2.symm⟩

theorem SameWindow.trans {f : Deduplicator} (h : SameWindow d e) (h' : SameWindow e f) : SameWindow d f :=
  ⟨h.1.trans h'.1, h.2.1.trans h'.2.1, h.2.2.1.trans h'.2.2.1, h.2.2.2.trans h'.2.2.2⟩

theorem record_store (d : Deduplicator) (token : String) : SameWindow (record d token) (store d token) := by
  unfold record
  dsimp only
  split_ifs
  · exact ⟨rfl, rfl, rfl, rfl⟩
  · exact ⟨rfl, rfl, rfl, rfl⟩

theorem record_sameWindow (h : SameWindow d e) (token : String) : SameWindow (record d token) (record e token) := by
  have hstore : SameWindow (store d token) (store e token) := by
    obtain ⟨hwindow, hseen, hbuffer, hindex⟩ := h
    unfold store
    rw [hwindow, hseen, hbuffer, hindex]
    dsimp only
    split_ifs
    · exact ⟨rfl, rfl, rfl, rfl⟩
    · exact ⟨rfl, rfl, rfl, rfl⟩
  exact (record_store d token).trans (hstore.trans (record_store e token).symm)

theorem filterAll_sameWindow (h : SameWindow d e) (records : List String) :
    (filterAll d records).1 = (filterAll e records).1 := by
  induction records generalizing d e with
  | nil => rfl
  | cons token records ih =>
      change (filter d token).1 :: (filterAll (filter d token).2 records).1 =
        (filter e token).1 :: (filterAll (filter e token).2 records).1
      unfold filter
      rw [h.2.1]
      split_ifs
      · exact congrArg _ (ih h)
      · exact congrArg _ (ih (record_sameWindow h token))

/-- A new token takes the place of the one at the write index of a full window. -/
theorem filterAll_evicts (hi : Inv windowSize d) (hfull : windowSize ≤ d.buffer.length) {token : String}
    (hnew : token ∉ d.buffer) {i : Nat} (hlt : i < d.buffer.length) :
    (filterAll d [token, d.buffer[i]]).1 = [true, decide (i = d.writeIndex)] := by
  have hnew' : token ∉ d.seen := mt (hi.seen token).mp hnew
  have hindex := hi.index_lt hfull
  have hbuffer : (record d token).buffer = d.buffer.set d.writeIndex token := by
    rw [(record_store d token).2.2.1, store, if_pos (by rw [hi.window]; exact hfull)]
  have hseen : d.buffer[i] ∈ (record d token).seen ↔ i ≠ d.writeIndex := by
    rw [(record_inv hi hnew').seen, hbuffer, mem_set_iff hi.nodup hindex]
    constructor
    · rintro (h | ⟨h, _⟩) rfl
      · exact hnew (h ▸ List.getElem_mem hlt)
      · exact h rfl
    · intro hne
      exact .inr ⟨fun h => hne (hi.nodup.getElem_inj_iff.mp h), List.getElem_mem hlt⟩
  simp only [filterAll, filter, if_neg hnew']
  by_cases hi : i = d.writeIndex
  · rw [if_neg (fun h => hseen.mp h hi)]
    simp [hi]
  · rw [if_pos (hseen.mpr hi)]
    simp [hi]

/-- After a restart from the list that was just persisted `filter` answers as before exactly when the window
was not full or its oldest token was its first one. -/
theorem restart_equivalent_iff (options : StreamDeduplicatorOptions) (hw : 0 < options.windowSize)
    (earlier : Option (List String)) (tokens : List String) (token : String)
    (hnew : (filter (filterAll (restore (create options earlier)) tokens).2 token).1 = true)
    (hd : (filter (filterAll (restore (create options earlier)) tokens).2 token).2 = d)
    (hsaves : d.newTokensSinceFlush = 0) :
    (∀ records, (filterAll (restore (create options d.saved)) records).1 = (filterAll d records).1) ↔
      (d.buffer.length < options.windowSize ∨ d.writeIndex = 0) := by
  have hi := filterAll_inv (restore_inv options hw earlier) tokens
  have hnotSeen : token ∉ (filterAll (restore (create options earlier)) tokens).2.seen := by
    intro hmem
    rw [filter, if_pos hmem] at hnew
    nomatch hnew
  rw [filter, if_neg hnotSeen] at hd
  have hinv : Inv options.windowSize d := hd ▸ record_inv hi hnotSeen
  have hsaved : d.saved = some d.buffer := by
    subst hd
    exact record_saved hsaves
  rw [hsaved]
  have hrestored := restore_inv options hw (some d.buffer)
  obtain ⟨hbuffer, hindex⟩ := restore_window options hw hinv.nodup hinv.length
  constructor
  · intro hsame
    by_contra hne
    obtain ⟨hfull, hne⟩ := not_or.mp hne
    have hlength : d.buffer.length = options.windowSize := Nat.le_antisymm hinv.length (Nat.not_lt.mp hfull)
    obtain ⟨fresh, hfresh⟩ := Infinite.exists_notMem_finset d.buffer.toFinset
    rw [List.mem_toFinset] at hfresh
    have hpos : 0 < d.buffer.length := by omega
    -- The original keeps the token in the first place, the restored one evicts it.
    have horiginal := filterAll_evicts hinv hlength.ge hfresh hpos
    have hpos' : 0 < (restore (create options (some d.buffer))).buffer.length := by rwa [hbuffer]
    have hagain := filterAll_evicts hrestored (by rw [hbuffer]; exact hlength.ge) (by rw [hbuffer]; exact hfresh) hpos'
    have hfirst : (restore (create options (some d.buffer))).buffer[0] = d.buffer[0] := by
      simp only [hbuffer]
    rw [hfirst, hsame, horiginal, hindex, hlength, Nat.mod_self] at hagain
    simp [Ne.symm hne] at hagain
  · intro hpositions
    apply filterAll_sameWindow
    refine ⟨hrestored.window.trans hinv.window.symm, ?_, hbuffer, ?_⟩
    · ext other
      rw [hrestored.seen, hinv.seen, hbuffer]
    · rw [hindex]
      rcases Nat.lt_or_ge d.buffer.length options.windowSize with hlt | hge
      · rw [Nat.mod_eq_of_lt hlt, hinv.filling hlt]
      · rw [Nat.le_antisymm hinv.length hge, Nat.mod_self]
        exact (hpositions.resolve_left (Nat.not_lt.mpr hge)).symm

end Restart

section Runs

/-- Two tokens are remembered and every new one is persisted. -/
def pair : StreamDeduplicatorOptions := ⟨2, 1⟩

theorem restart_equivalent_pair : (filterAll (create pair none) ["a", "b"]).2.saved = some ["a", "b"] ∧
    ∀ records, (filterAll (restore (create pair (some ["a", "b"]))) records).1 =
      (filterAll (filterAll (create pair none) ["a", "b"]).2 records).1 := by
  refine ⟨by rfl, ?_⟩
  exact (restart_equivalent_iff pair (by decide) none ["a"] "b" (by rfl) rfl (by rfl)).mpr
    (.inr (by rfl))

/-- The third token has wrapped around, so the restored window evicts the newest token first. -/
theorem restart_differs : (filterAll (create pair none) ["a", "b", "c"]).2.saved = some ["c", "b"] ∧
    (filterAll (filterAll (create pair none) ["a", "b", "c"]).2 ["d", "c"]).1 = [true, false] ∧
    (filterAll (restore (create pair (some ["c", "b"]))) ["d", "c"]).1 = [true, true] := by
  decide

end Runs

end SplitSdk.StreamDeduplicator
