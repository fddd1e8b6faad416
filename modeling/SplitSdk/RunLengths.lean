import Mathlib.Data.List.Infix

namespace SplitSdk.RunLengths

variable {α : Type} [DecidableEq α]

section Definitions

/-- How counts are written: a marker announces the digits of a number. -/
structure Format (α : Type) where
  marker : α
  isDigit : α → Bool
  digits : Nat → List α
  value : List α → Nat

namespace Format

variable (F : Format α)

/-- A run of more than three is written as its count. -/
def writeRun (c : α) (run : Nat) : List α :=
  if 3 < run then F.marker :: F.digits run ++ [c] else List.replicate run c

/-- The text that begins with a run that is not known to have ended. -/
def writeFrom (c : α) : Nat → List α → List α
  | run, [] => F.writeRun c run
  | run, next :: s => if next = c then writeFrom c (run + 1) s else F.writeRun c run ++ writeFrom next 1 s

def write : List α → List α
  | [] => []
  | c :: s => F.writeFrom c 1 s

/-- The digits of a count are collected; what follows them is repeated. -/
def readFrom : Option (List α) → List α → List α
  | _, [] => []
  | none, c :: s => if c = F.marker then readFrom (some []) s else c :: readFrom none s
  | some ds, c :: s =>
      if F.isDigit c then readFrom (some (ds ++ [c])) s else List.replicate (F.value ds) c ++ readFrom none s

def read (s : List α) : List α := F.readFrom none s

/-- No digit is repeated often enough to be counted. -/
def Safe (s : List α) : Prop := ∀ d, F.isDigit d → ¬List.replicate 4 d <:+: s

/-- The texts differ at a digit, or the second one ends there. -/
def Diverges (s t : List α) : Prop :=
  ∃ before d after, s = before ++ d :: after ∧ F.isDigit d ∧
    (t = before ∨ ∃ c after', F.isDigit c = false ∧ t = before ++ c :: after')

/-- What is needed of the numbers. -/
structure Lawful : Prop where
  marker : F.isDigit F.marker = false
  digits : ∀ n, ∀ d ∈ F.digits n, F.isDigit d
  value : ∀ n, F.value (F.digits n) = n
  positive : ∀ n ds, 0 < n → (∀ d ∈ ds, F.isDigit d) → 0 < F.value (F.digits n ++ ds)

end Format

end Definitions

section Runs

variable {F : Format α} {c d : α} {run : Nat} {s t : List α}

omit [DecidableEq α] in
/-- Four in a row do not reach over the end of a run. -/
theorem infix_of_infix_append (hend : s.head? ≠ some c) (h : List.replicate 4 d <:+: List.replicate run c ++ s) :
    d = c ∧ 3 < run ∨ List.replicate 4 d <:+: s := by
  induction run with
  | zero => exact .inr h
  | succ run ih =>
      rw [List.replicate_succ (n := run), List.cons_append] at h
      rcases List.infix_cons_iff.mp h with hstarts | hinside
      · have hget := List.prefix_iff_getElem?.mp hstarts
        have hhead : c = d := by simpa using hget 0 (by simp)
        refine .inl ⟨hhead.symm, ?_⟩
        by_contra hshort
        have hnext := hget (run + 1) (by simp; omega)
        rw [List.getElem_replicate, List.getElem?_cons_succ, List.getElem?_append_right (by simp), List.length_replicate,
          Nat.sub_self, ← List.head?_eq_getElem?, ← hhead] at hnext
        exact hend hnext
      · rcases ih hinside with ⟨heq, hlong⟩ | hlater
        · exact .inl ⟨heq, hlong.trans (Nat.lt_succ_self run)⟩
        · exact .inr hlater

omit [DecidableEq α] in
theorem infix_replicate_append (hlong : 3 < run) (s : List α) : List.replicate 4 c <:+: List.replicate run c ++ s := by
  have hsplit : List.replicate run c = List.replicate 4 c ++ List.replicate (run - 4) c := by
    rw [List.replicate_append_replicate, Nat.add_sub_cancel' hlong]
  rw [hsplit, List.append_assoc]
  exact (List.prefix_append _ _).isInfix

omit [DecidableEq α] in
theorem safe_append_iff (hend : s.head? ≠ some c) :
    F.Safe (List.replicate run c ++ s) ↔ (3 < run → F.isDigit c = false) ∧ F.Safe s := by
  constructor
  · intro h
    refine ⟨fun hlong => ?_, fun d hd hinside => h d hd (hinside.trans (List.suffix_append _ s).isInfix)⟩
    by_contra hdigit
    exact h c (by simpa using hdigit) (infix_replicate_append hlong s)
  · rintro ⟨hrun, hs⟩ d hd hinside
    rcases infix_of_infix_append hend hinside with ⟨rfl, hlong⟩ | hlater
    · rw [hrun hlong] at hd
      cases hd
    · exact hs d hd hlater

omit [DecidableEq α] in
theorem Format.Diverges.append (h : F.Diverges s t) (first : List α) : F.Diverges (first ++ s) (first ++ t) := by
  obtain ⟨before, d, after, rfl, hd, hend⟩ := h
  refine ⟨first ++ before, d, after, (List.append_assoc first before _).symm, hd, ?_⟩
  rcases hend with rfl | ⟨c, after', hc, rfl⟩
  · exact .inl rfl
  · exact .inr ⟨c, after', hc, (List.append_assoc first before _).symm⟩

omit [DecidableEq α] in
theorem infix_append_of_notMem (h : d ∉ t) (n : Nat) :
    List.replicate (n + 1) d <:+: t ++ s ↔ List.replicate (n + 1) d <:+: s := by
  induction t with
  | nil => exact Iff.rfl
  | cons c t ih =>
      rw [List.mem_cons, not_or] at h
      rw [List.cons_append, List.infix_cons_iff, ih h.2, or_iff_right_iff_imp]
      intro hstarts
      rw [List.replicate_succ, List.cons_prefix_cons] at hstarts
      exact absurd hstarts.1 h.1

omit [DecidableEq α] in
theorem prefix_flatMap_iff {f : α → List α} (h : ∀ c ∈ s, f c = [c] ∨ f c ≠ [] ∧ d ∉ c :: f c) (n : Nat) :
    List.replicate n d <+: s.flatMap f ↔ List.replicate n d <+: s := by
  induction s generalizing n with
  | nil => exact Iff.rfl
  | cons c s ih =>
      have hrest := ih (fun c hc => h c (List.mem_cons_of_mem _ hc))
      cases n with
      | zero => simp
      | succ n =>
          rw [List.flatMap_cons, List.replicate_succ]
          rcases h c List.mem_cons_self with hsame | ⟨hne, hnot⟩
          · rw [hsame, List.singleton_append, List.cons_prefix_cons, List.cons_prefix_cons, hrest]
          · obtain ⟨x, xs, hx⟩ := List.exists_cons_of_ne_nil hne
            rw [hx, List.mem_cons, List.mem_cons, not_or, not_or] at hnot
            rw [hx, List.cons_append, List.cons_prefix_cons, List.cons_prefix_cons]
            exact iff_of_false (fun hboth => hnot.2.1 hboth.1) (fun hboth => hnot.1 hboth.1)

omit [DecidableEq α] in
theorem infix_flatMap_iff {f : α → List α} (h : ∀ c ∈ s, f c = [c] ∨ f c ≠ [] ∧ d ∉ c :: f c) (n : Nat) :
    List.replicate (n + 1) d <:+: s.flatMap f ↔ List.replicate (n + 1) d <:+: s := by
  induction s with
  | nil => exact Iff.rfl
  | cons c s ih =>
      have hstarts := prefix_flatMap_iff h (n + 1)
      have hrest := ih (fun c hc => h c (List.mem_cons_of_mem _ hc))
      rcases h c List.mem_cons_self with hsame | ⟨-, hnot⟩
      · rw [List.flatMap_cons, hsame, List.singleton_append] at hstarts ⊢
        rw [List.infix_cons_iff, List.infix_cons_iff, hstarts, hrest]
      · rw [List.mem_cons, not_or] at hnot
        rw [List.flatMap_cons, infix_append_of_notMem hnot.2, hrest, ← infix_append_of_notMem (t := [c]) (by simpa using hnot.1)]
        rfl

omit [DecidableEq α] in
/-- A map that keeps the digits, and makes none, keeps the runs of them. -/
theorem safe_flatMap_iff {f : α → List α}
    (h : ∀ c ∈ s, f c = [c] ∨ f c ≠ [] ∧ ∀ d ∈ c :: f c, F.isDigit d = false) :
    F.Safe (s.flatMap f) ↔ F.Safe s := by
  refine forall₂_congr (fun d hd => not_congr (infix_flatMap_iff (fun c hc => ?_) 3))
  refine (h c hc).imp_right (And.imp_right (fun hplain hmem => ?_))
  rw [hplain d hmem] at hd
  cases hd

end Runs

section Reading

variable {F : Format α} {c : α} {run : Nat} {s : List α}

theorem readFrom_cons (F : Format α) (c : α) (s : List α) :
    F.readFrom none (c :: s) = if c = F.marker then F.readFrom (some []) s else c :: F.readFrom none s := rfl

theorem readFrom_cons_count (F : Format α) (ds : List α) (c : α) (s : List α) :
    F.readFrom (some ds) (c :: s) =
      if F.isDigit c then F.readFrom (some (ds ++ [c])) s else List.replicate (F.value ds) c ++ F.readFrom none s := rfl

theorem read_literal (h : F.marker ∉ s) (rest : List α) : F.read (s ++ rest) = s ++ F.read rest := by
  induction s with
  | nil => rfl
  | cons c s ih =>
      rw [List.mem_cons, not_or] at h
      have hc : c ≠ F.marker := fun heq => h.1 heq.symm
      rw [List.cons_append, Format.read, readFrom_cons, if_neg hc, List.cons_append, ← ih h.2]
      rfl

theorem readFrom_digits {ds : List α} (h : ∀ d ∈ ds, F.isDigit d) (before rest : List α) :
    F.readFrom (some before) (ds ++ rest) = F.readFrom (some (before ++ ds)) rest := by
  induction ds generalizing before with
  | nil => rw [List.append_nil, List.nil_append]
  | cons d ds ih =>
      rw [List.cons_append, readFrom_cons_count, if_pos (h d List.mem_cons_self), ih (fun d hd => h d (List.mem_cons_of_mem _ hd)),
        List.append_assoc]
      rfl

theorem read_writeRun_long (hlaw : F.Lawful) (hlong : 3 < run) (rest : List α) :
    F.read (F.writeRun c run ++ rest) = F.readFrom (some (F.digits run)) (c :: rest) := by
  rw [Format.writeRun, if_pos hlong, Format.read, List.append_assoc, List.cons_append, readFrom_cons, if_pos rfl,
    readFrom_digits (hlaw.digits run)]
  rfl

/-- A run that is not one of many digits is read back. -/
theorem read_writeRun (hlaw : F.Lawful) (hc : c ≠ F.marker) (hsafe : 3 < run → F.isDigit c = false) (rest : List α) :
    F.read (F.writeRun c run ++ rest) = List.replicate run c ++ F.read rest := by
  rcases Nat.lt_or_ge 3 run with hlong | hshort
  · rw [read_writeRun_long hlaw hlong, readFrom_cons_count, if_neg (by rw [hsafe hlong]; exact Bool.false_ne_true), hlaw.value]
    rfl
  · rw [Format.writeRun, if_neg (not_lt.mpr hshort)]
    exact read_literal (fun hmem => hc (List.eq_of_mem_replicate hmem).symm) rest

/-- After a count there is something that is not a digit, or nothing. -/
theorem readFrom_count {ds : List α} (hpos : ∀ ds', (∀ d ∈ ds', F.isDigit d) → 0 < F.value (ds ++ ds')) (rest : List α) :
    F.readFrom (some ds) rest = [] ∨ ∃ c after, F.isDigit c = false ∧ F.readFrom (some ds) rest = c :: after := by
  induction rest generalizing ds with
  | nil => exact .inl rfl
  | cons c rest ih =>
      rw [readFrom_cons_count]
      split_ifs with hc
      · refine ih (fun ds' hds' => ?_)
        rw [List.append_assoc]
        exact hpos _ (List.forall_mem_cons.mpr ⟨hc, hds'⟩)
      · obtain ⟨n, hn⟩ : ∃ n, F.value ds = n + 1 := by
          have hds := hpos [] (by simp)
          rw [List.append_nil] at hds
          exact ⟨F.value ds - 1, by omega⟩
        rw [hn, List.replicate_succ, List.cons_append]
        exact .inr ⟨c, _, by simpa using hc, rfl⟩

theorem diverges_writeRun (hlaw : F.Lawful) (hc : F.isDigit c) (hlong : 3 < run) (s rest : List α) :
    F.Diverges (List.replicate run c ++ s) (F.read (F.writeRun c run ++ rest)) := by
  obtain ⟨n, rfl⟩ : ∃ n, run = n + 1 := ⟨run - 1, by omega⟩
  rw [read_writeRun_long hlaw hlong, readFrom_cons_count, if_pos hc]
  refine ⟨[], c, List.replicate n c ++ s, rfl, hc, ?_⟩
  refine readFrom_count (fun ds hds => ?_) rest
  rw [List.append_assoc]
  exact hlaw.positive _ _ (Nat.succ_pos n) (List.forall_mem_cons.mpr ⟨hc, hds⟩)

/-- A safe text is read back, and of another one the result diverges. -/
def Faithful (F : Format α) (s written : List α) : Prop :=
  (F.Safe s → F.read written = s) ∧ (¬F.Safe s → F.Diverges s (F.read written))

theorem faithful_append (hlaw : F.Lawful) (hc : c ≠ F.marker) (hend : s.head? ≠ some c) {written : List α}
    (h : Faithful F s written) : Faithful F (List.replicate run c ++ s) (F.writeRun c run ++ written) := by
  unfold Faithful
  rw [safe_append_iff hend]
  by_cases hrun : 3 < run → F.isDigit c = false
  · rw [read_writeRun hlaw hc hrun]
    refine ⟨fun hsafe => ?_, fun hunsafe => ?_⟩
    · rw [h.1 hsafe.2]
    · exact (h.2 (fun hsafe => hunsafe ⟨hrun, hsafe⟩)).append _
  · refine ⟨fun hsafe => absurd hsafe.1 hrun, fun _ => ?_⟩
    obtain ⟨hlong, hdigit⟩ := Classical.not_imp.mp hrun
    exact diverges_writeRun hlaw (by simpa using hdigit) hlong s written

theorem faithful_nil (F : Format α) : Faithful F [] [] :=
  ⟨fun _ => rfl, fun hunsafe => absurd (fun d _ hinside => by simpa using hinside.length_le) hunsafe⟩

theorem faithful_writeFrom (hlaw : F.Lawful) (hc : c ≠ F.marker) (hs : F.marker ∉ s) (run : Nat) :
    Faithful F (List.replicate run c ++ s) (F.writeFrom c run s) := by
  induction s generalizing c run with
  | nil =>
      rw [Format.writeFrom, ← List.append_nil (F.writeRun c run)]
      exact faithful_append hlaw hc (by simp) (faithful_nil F)
  | cons next s ih =>
      rw [List.mem_cons, not_or] at hs
      rw [Format.writeFrom]
      split_ifs with heq
      · have hlonger := ih hc hs.2 (run + 1)
        rw [List.replicate_succ', List.append_assoc] at hlonger
        rw [heq]
        exact hlonger
      · exact faithful_append hlaw hc (by simpa using heq) (ih (fun hnext => hs.1 hnext.symm) hs.2 1)

theorem faithful_write (hlaw : F.Lawful) (hs : F.marker ∉ s) : Faithful F s (F.write s) := by
  cases s with
  | nil => exact faithful_nil F
  | cons c s =>
      rw [List.mem_cons, not_or] at hs
      exact faithful_writeFrom hlaw (fun hc => hs.1 hc.symm) hs.2 1

end Reading

end SplitSdk.RunLengths
