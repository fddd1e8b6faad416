import SplitSdk.InvoiceQuery

namespace SplitSdk.Pagination

open Numbers NumberText Fallible InvoiceQuery

section Cursors

theorem digitIn_of_isDigit {c : Char} (hc : c.isDigit) : digitIn 10 c = some (c.toNat - '0'.toNat) := by
  obtain ⟨_, hhigh⟩ := Char.isDigit_iff_toNat.mp hc
  change c.toNat ≤ 57 at hhigh
  change (if c.isDigit then some (c.toNat - 48) else _).filter (· < 10) = some (c.toNat - 48)
  rw [if_pos hc, Option.filter_some, if_pos (decide_eq_true (by omega))]

/-- The digits of a number are read back as the number. -/
theorem parseInt_toDigits {n : Nat} (h : n < 2 ^ 53) : parseInt 10 (Nat.toDigits 10 n) = .finite n := by
  have hdigits := allDigits_toDigits n
  have hread : Nat.ofDigitChars 10 (Nat.toDigits 10 n) 0 = n := Nat.ofDigitChars_ten_toDigits
  have hne : Nat.toDigits 10 n ≠ [] := Nat.toDigits_ne_nil
  generalize Nat.toDigits 10 n = ds at hdigits hread hne
  obtain ⟨d, ds, rfl⟩ := List.exists_cons_of_ne_nil hne
  have hd : d.isDigit := hdigits d List.mem_cons_self
  have hplus : d ≠ '+' := by rintro rfl; cases hd
  have hminus : d ≠ '-' := by rintro rfl; cases hd
  have hmap : (d :: ds).map (digitIn 10) = (d :: ds).map (fun c => some (c.toNat - '0'.toNat)) :=
    List.map_congr_left (fun c hc => digitIn_of_isDigit (hdigits c hc))
  have htake : ((d :: ds).map (digitIn 10)).takeWhile Option.isSome = (d :: ds).map (fun c => some (c.toNat - '0'.toNat)) := by
    rw [hmap, List.takeWhile_map]
    congr 1
    exact List.takeWhile_eq_self_iff.mpr (fun _ _ => rfl)
  have hvalues : ((d :: ds).map (fun c => some (c.toNat - '0'.toNat))).reduceOption = (d :: ds).map (fun c => c.toNat - '0'.toNat) := by
    change List.filterMap id _ = _
    rw [List.filterMap_map]
    exact congrFun List.filterMap_eq_map (d :: ds)
  have hspace : (d :: ds).dropWhile isSpace = d :: ds := List.dropWhile_cons_of_neg (by rw [not_isSpace_of_isPlain (.inl hd)]; decide)
  simp only [parseInt, hspace, List.head?_cons, Option.some.injEq, hplus, hminus, or_self, if_false]
  rw [if_neg (fun hradix => absurd hradix.1 (by decide)), htake, List.map_cons]
  change fl (((d :: ds).map (fun c => some (c.toNat - '0'.toNat))).reduceOption.foldl (fun v d => 10 * v + d) 0 : Nat) = _
  rw [hvalues, List.foldl_map, ← Nat.ofDigitChars_eq_foldl, hread]
  exact isDouble_natCast h

theorem decode_encode {n : Nat} (h : n < 2 ^ 53) : decodeCursor (some (encodeCursor n)) = .ok (some n) := by
  have hlist : (encodeCursor n).toList = "off:".toList ++ Nat.toDigits 10 n := by
    have hcursor : encodeCursor n = "off:" ++ n.repr := rfl
    rw [hcursor, String.toList_append, Nat.toList_repr]
  have hoffset : parseInt 10 ((encodeCursor n).toList.drop 4) = .finite n := by
    rw [hlist]
    exact parseInt_toDigits h
  have hstart : (encodeCursor n).toList.take 4 = "off:".toList := by
    rw [hlist]
    rfl
  have hnonneg : (JsNumber.finite n).lt (.finite 0) = false := decide_eq_false (not_lt.mpr (Nat.cast_nonneg n))
  change (if (encodeCursor n).toList.take 4 ≠ "off:".toList then _ else _) = _
  rw [if_neg (not_not_intro hstart), hoffset]
  rw [hnonneg, Bool.or_false, isInteger, Rat.den_natCast, if_neg (by decide), natValue, Rat.num_natCast, Int.toNat_natCast]

end Cursors

section Order

instance (locale : TextLocale) : Std.TransCmp locale.localeCompare := locale.consistent

theorem compareBig_eq (a b : Int) : compareBig a b = compare (a : ℚ) (b : ℚ) := by
  unfold compareBig
  split_ifs with hlt hgt
  · exact (compare_lt_iff_lt.mpr (Int.cast_lt.mpr hlt)).symm
  · exact (compare_gt_iff_gt.mpr (Int.cast_lt.mpr hgt)).symm
  · exact (compare_eq_iff_eq.mpr (congrArg Int.cast (by omega : a = b))).symm

theorem compareBig_swap (a b : Int) : compareBig b a = compare (-(a : ℚ)) (-(b : ℚ)) := by
  rw [compareBig_eq]
  rcases lt_trichotomy (a : ℚ) b with hlt | heq | hgt
  · rw [compare_gt_iff_gt.mpr hlt, compare_gt_iff_gt.mpr (neg_lt_neg hlt)]
  · rw [heq, compare_eq_iff_eq.mpr rfl, compare_eq_iff_eq.mpr rfl]
  · rw [compare_lt_iff_lt.mpr hgt, compare_lt_iff_lt.mpr (neg_lt_neg hgt)]

/-- First by the keys, then by the ids. -/
def Precedes {κ : Type} [LinearOrder κ] (locale : TextLocale) (key : Invoice → κ) (a b : Invoice) : Prop :=
  key a < key b ∨ key a = key b ∧ (locale.localeCompare a.id b.id).isLE

def value : JsNumber → ℚ
  | .finite q => q
  | _ => 0

/-- The requested order, by exact times and exact amounts. -/
def InOrder (locale : TextLocale) (sort : InvoiceSort) : Invoice → Invoice → Prop :=
  Precedes locale (fun invoice => match sort with
    | .newest => -value (dateKey invoice)
    | .oldest => value (dateKey invoice)
    | .highest => -(invoiceTotal invoice : ℚ)
    | .lowest => (invoiceTotal invoice : ℚ))

variable {locale : TextLocale} {κ : Type} [LinearOrder κ] {key : Invoice → κ}

theorem precedes_iff {a b : Invoice} :
    ((compare (key a) (key b)).then (tieBreak locale a b)).isLE ↔ Precedes locale key a b := by
  rw [Precedes]
  rcases lt_trichotomy (key a) (key b) with hlt | heq | hgt
  · simp [compare_lt_iff_lt.mpr hlt, hlt]
  · simp [heq, tieBreak]
  · simp [compare_gt_iff_gt.mpr hgt, hgt.not_gt, hgt.ne']

theorem Precedes.trans {a b c : Invoice} (hab : Precedes locale key a b) (hbc : Precedes locale key b c) :
    Precedes locale key a c := by
  rcases hab with hab | ⟨hab, hids⟩
  · exact .inl (hab.trans_le (hbc.elim le_of_lt (fun h => h.1.le)))
  · rcases hbc with hbc | ⟨hbc, hids'⟩
    · exact .inl (hab.trans_lt hbc)
    · exact .inr ⟨hab.trans hbc, Std.TransCmp.isLE_trans hids hids'⟩

theorem Precedes.total (a b : Invoice) : Precedes locale key a b ∨ Precedes locale key b a := by
  rcases lt_trichotomy (key a) (key b) with hlt | heq | hgt
  · exact .inl (.inl hlt)
  · by_cases hids : (locale.localeCompare a.id b.id).isLE
    · exact .inl (.inr ⟨heq, hids⟩)
    · exact .inr (.inr ⟨heq.symm, Ordering.isLE_of_eq_lt (Std.OrientedCmp.lt_of_not_isLE hids)⟩)
  · exact .inr (.inl hgt)

end Order

section Sorting

variable {locale : TextLocale} {key : Invoice → Except QueryError Int} {compareKeys : Int → Int → Ordering}

theorem pairwise_of_few {α : Type} {R : α → α → Prop} {xs : List α} (h : xs.length < 2) : xs.Pairwise R := by
  cases xs with
  | nil => exact .nil
  | cons x xs =>
      obtain rfl : xs = [] := List.length_eq_zero_iff.mp (by rw [List.length_cons] at h; omega)
      exact List.pairwise_singleton R x

/-- Where every key is there, the invoices are sorted by them. -/
theorem sortByKey_spec {κ : Type} [LinearOrder κ] {sign : Int → κ} {rank : Invoice → κ} {invoices : List Invoice}
    (hcompare : ∀ m n, compareKeys m n = compare (sign m) (sign n))
    (hkey : ∀ invoice ∈ invoices, ∃ n, key invoice = .ok n ∧ rank invoice = sign n) :
    ∃ sorted, sortByKey locale key compareKeys invoices = .ok sorted ∧ sorted.Perm invoices ∧
      sorted.Pairwise (Precedes locale rank) := by
  by_cases hfew : invoices.length < 2
  · exact ⟨invoices, if_pos hfew, .refl _, pairwise_of_few hfew⟩
  · let number (invoice : Invoice) : Int := (key invoice).toOption.getD 0
    let pair (invoice : Invoice) : Int × Invoice := (number invoice, invoice)
    have hnumber : ∀ invoice ∈ invoices, key invoice = .ok (number invoice) ∧ rank invoice = sign (number invoice) := by
      intro invoice hmem
      obtain ⟨n, hn, hrank⟩ := hkey invoice hmem
      have heq : number invoice = n := by simp only [number, hn, Except.toOption, Option.getD_some]
      rw [heq]
      exact ⟨hn, hrank⟩
    have hkeyed : invoices.mapM (fun invoice => do return (← key invoice, invoice)) = .ok (invoices.map pair) := by
      apply mapM_eq_map
      intro invoice hmem
      rw [(hnumber invoice hmem).1]
      rfl
    let le (a b : Invoice) : Bool := ((compare (rank a) (rank b)).then (tieBreak locale a b)).isLE
    have hsort := List.map_mergeSort (f := pair) (l := invoices) (r := le)
      (s := fun a b => ((compareKeys a.1 b.1).then (tieBreak locale a.2 b.2)).isLE)
      (fun a ha b hb => by simp only [le, pair, hcompare, (hnumber a ha).2, (hnumber b hb).2])
    refine ⟨invoices.mergeSort le, ?_, List.mergeSort_perm _ _, ?_⟩
    · rw [sortByKey, if_neg hfew, hkeyed]
      change Except.ok (List.map Prod.snd ((invoices.map pair).mergeSort _)) = _
      rw [← hsort, List.map_map]
      exact congrArg Except.ok (List.map_id _)
    · refine (List.pairwise_mergeSort ?_ ?_ invoices).imp (fun h => precedes_iff.mp h)
      · exact fun a b c hab hbc => precedes_iff.mpr ((precedes_iff.mp hab).trans (precedes_iff.mp hbc))
      · exact fun a b => (Bool.or_eq_true _ _).mpr ((Precedes.total a b).imp precedes_iff.mpr precedes_iff.mpr)

/-- Two or more invoices are not sorted unless every key is there. -/
theorem key_of_sortByKey {invoices sorted : List Invoice} (h : sortByKey locale key compareKeys invoices = .ok sorted)
    (hmany : 2 ≤ invoices.length) : ∀ invoice ∈ invoices, ∃ n, key invoice = .ok n := by
  intro invoice hmem
  rw [sortByKey, if_neg (Nat.not_lt.mpr hmany)] at h
  obtain ⟨keyed, hkeyed, -⟩ := bind_eq_ok.mp h
  obtain ⟨_, hpair⟩ := ok_of_mapM hkeyed invoice hmem
  obtain ⟨n, hn, -⟩ := bind_eq_ok.mp hpair
  exact ⟨n, hn⟩

/-- The time of creation in milliseconds is a whole number, where it is known. -/
def WholeMilliseconds (invoice : Invoice) : Prop :=
  ∀ q : ℚ, invoice.createdAt = some (.finite q) → 0 < q →
    ∃ n : Int, (if 10 ^ 12 < q then .finite q else fl (q * 1000)) = JsNumber.finite n

theorem toBigInt_eq_ok {x : JsNumber} {n : Int} : toBigInt x = .ok n ↔ x = .finite n := by
  constructor
  · intro h
    cases x with
    | finite q =>
        rw [toBigInt] at h
        split_ifs at h with hden
        cases h
        exact congrArg JsNumber.finite (Rat.coe_int_num_of_den_eq_one hden).symm
    | nan => cases h
    | infinity negative => cases h
  · rintro rfl
    rw [toBigInt, if_pos (Rat.den_intCast n), Rat.num_intCast]

theorem rank_of_toBigInt {x : JsNumber} {n : Int} (h : toBigInt x = .ok n) : value x = n := by
  rw [toBigInt_eq_ok.mp h]
  rfl

theorem dateKey_cases (invoice : Invoice) :
    ((∀ q, invoice.createdAt = some (.finite q) → ¬ 0 < q) ∧ dateKey invoice = .finite 0) ∨
      ∃ q, invoice.createdAt = some (.finite q) ∧ 0 < q ∧
        dateKey invoice = if 10 ^ 12 < q then .finite q else fl (q * 1000) := by
  unfold dateKey createdAtMs
  split
  case h_1 q hq =>
    by_cases hpos : q ≤ 0
    · rw [if_pos hpos]
      refine .inl ⟨fun q' hq' => ?_, rfl⟩
      cases hq.symm.trans hq'
      exact not_lt.mpr hpos
    · rw [if_neg hpos]
      refine .inr ⟨q, hq, not_le.mp hpos, ?_⟩
      rw [Option.getD_some, toMs]
      exact ite_congr (decide_eq_true_iff.eq) (fun _ => rfl) (fun _ => rfl)
  case h_2 hne => exact .inl ⟨fun q hq => absurd hq (hne q), rfl⟩

theorem wholeMilliseconds_iff {invoice : Invoice} : WholeMilliseconds invoice ↔ ∃ n, toBigInt (dateKey invoice) = .ok n := by
  simp only [toBigInt_eq_ok]
  rcases dateKey_cases invoice with ⟨hnone, hkey⟩ | ⟨q, hq, hpos, hkey⟩
  · rw [hkey]
    exact ⟨fun _ => ⟨0, congrArg JsNumber.finite Int.cast_zero.symm⟩, fun _ q hq hpos => absurd hpos (hnone q hq)⟩
  · rw [hkey]
    refine ⟨fun h => h q hq hpos, fun h q' hq' _ => ?_⟩
    cases hq.symm.trans hq'
    exact h

/-- The dates are not compared, or can be. -/
def Comparable (sort : InvoiceSort) (invoices : List Invoice) : Prop :=
  sort = .highest ∨ sort = .lowest ∨ invoices.length < 2 ∨ ∀ invoice ∈ invoices, WholeMilliseconds invoice

theorem sortInvoices_few {invoices : List Invoice} (h : invoices.length < 2) (sort : InvoiceSort) :
    sortInvoices locale invoices sort = .ok invoices := by
  cases sort <;> exact if_pos h

theorem sortInvoices_spec (locale : TextLocale) {invoices : List Invoice} {sort : InvoiceSort} (h : Comparable sort invoices) :
    ∃ sorted, sortInvoices locale invoices sort = .ok sorted ∧ sorted.Perm invoices ∧ sorted.Pairwise (InOrder locale sort) := by
  have hdates : sort ≠ .highest → sort ≠ .lowest → ¬ invoices.length < 2 →
      ∀ invoice ∈ invoices, ∃ n, toBigInt (dateKey invoice) = .ok n := by
    intro hhighest hlowest hfew invoice hmem
    rcases h with h | h | h | h
    · exact absurd h hhighest
    · exact absurd h hlowest
    · exact absurd h hfew
    · exact wholeMilliseconds_iff.mp (h invoice hmem)
  by_cases hfew : invoices.length < 2
  · exact ⟨invoices, sortInvoices_few hfew sort, .refl _, pairwise_of_few hfew⟩
  · cases sort with
    | newest =>
        refine sortByKey_spec (fun m n => compareBig_swap m n) (fun invoice hmem => ?_)
        obtain ⟨n, hn⟩ := hdates (by decide) (by decide) hfew invoice hmem
        exact ⟨n, hn, congrArg Neg.neg (rank_of_toBigInt hn)⟩
    | oldest =>
        refine sortByKey_spec compareBig_eq (fun invoice hmem => ?_)
        obtain ⟨n, hn⟩ := hdates (by decide) (by decide) hfew invoice hmem
        exact ⟨n, hn, rank_of_toBigInt hn⟩
    | highest => exact sortByKey_spec (fun m n => compareBig_swap m n) (fun invoice _ => ⟨_, rfl, rfl⟩)
    | lowest => exact sortByKey_spec compareBig_eq (fun invoice _ => ⟨_, rfl, rfl⟩)

theorem comparable_of_sortInvoices {invoices sorted : List Invoice} {sort : InvoiceSort}
    (h : sortInvoices locale invoices sort = .ok sorted) : Comparable sort invoices := by
  by_cases hfew : invoices.length < 2
  · exact .inr (.inr (.inl hfew))
  · cases sort with
    | highest => exact .inl rfl
    | lowest => exact .inr (.inl rfl)
    | newest | oldest =>
        unfold sortInvoices at h
        have hkeys := key_of_sortByKey h (Nat.not_lt.mp hfew)
        exact .inr (.inr (.inr (fun invoice hmem => wholeMilliseconds_iff.mpr (hkeys invoice hmem))))

end Sorting

section Pages

/-- A filter that passes its validation. -/
structure ValidFilter extends InvoiceFilter where
  valid : validateFilter toInvoiceFilter = .ok ()

variable (locale : TextLocale) (engine : InvoiceQueryEngine) (filter : InvoiceFilter)

def matching : List Invoice := engine.invoices.filter (fun invoice => «matches» locale invoice (resolveFilter locale filter))

/-- The pages from a cursor on, each reached by the `nextCursor` of the one before. -/
inductive Followed : Option String → List InvoicePage → Prop
  | last {cursor : Option String} {page : InvoicePage} : query locale engine { filter with cursor := cursor } = .ok page →
      page.nextCursor = none → Followed cursor [page]
  | next {cursor : Option String} {page : InvoicePage} {nextCursor : String} {pages : List InvoicePage} :
      query locale engine { filter with cursor := cursor } = .ok page → page.nextCursor = some nextCursor →
      Followed (some nextCursor) pages → Followed cursor (page :: pages)

structure Exact (pages : List InvoicePage) : Prop where
  followed : Followed locale engine filter none pages
  each : (pages.flatMap InvoicePage.items).Perm (matching locale engine filter)
  sorted : (pages.flatMap InvoicePage.items).Pairwise (InOrder locale (resolveFilter locale filter).sort)
  total : ∀ page ∈ pages, page.total = (matching locale engine filter).length

def PaginationExact : Prop := ∃ pages, Exact locale engine filter pages

variable {locale engine filter}

theorem limit_pos (locale : TextLocale) (h : validateFilter filter = .ok ()) : 0 < (resolveFilter locale filter).limit := by
  change 0 < (filter.limit.map natValue).getD defaultQueryLimit
  unfold validateFilter at h
  split_ifs at h with hlimit
  cases hcase : filter.limit with
  | none => decide
  | some limit =>
      rw [hcase, Option.any_some, Bool.or_eq_true, not_or, Bool.not_eq_true', Bool.not_eq_false] at hlimit
      cases limit with
      | nan => cases hlimit.1
      | infinity negative => cases hlimit.1
      | finite q =>
          have hpos : 0 < q := not_le.mp (fun hle => hlimit.2 (JsNumber.finite_le_finite_iff.mpr hle))
          have hnum := Rat.num_pos.mpr hpos
          change 0 < q.num.toNat
          omega

theorem query_eq {cursor : Option String} {offset : Option Nat} {sorted : List Invoice} (hvalid : validateFilter filter = .ok ())
    (hcursor : decodeCursor cursor = .ok offset)
    (hsorted : sortInvoices locale (matching locale engine filter) (resolveFilter locale filter).sort = .ok sorted) :
    query locale engine { filter with cursor := cursor } = .ok (pageAt sorted (offset.getD 0) (resolveFilter locale filter).limit) := by
  have hvalid' : validateFilter { filter with cursor := cursor } = .ok () := hvalid
  have hsorted' : sortInvoices locale (engine.invoices.filter (fun invoice =>
      «matches» locale invoice (resolveFilter locale { filter with cursor := cursor })))
      (resolveFilter locale { filter with cursor := cursor }).sort = .ok sorted := hsorted
  simp only [query, hvalid', hcursor, hsorted']
  rfl

theorem nextCursor_pageAt (sorted : List Invoice) (offset limit : Nat) :
    (sorted.length ≤ offset + limit ∧ (pageAt sorted offset limit).nextCursor = none ∧
      (pageAt sorted offset limit).items = sorted.drop offset) ∨
    (offset + limit < sorted.length ∧ (pageAt sorted offset limit).nextCursor = some (encodeCursor (offset + limit)) ∧
      (pageAt sorted offset limit).items ++ sorted.drop (offset + limit) = sorted.drop offset) := by
  have hitems : (pageAt sorted offset limit).items = (sorted.drop offset).take limit := rfl
  have hcount : ((sorted.drop offset).take limit).length = min limit (sorted.length - offset) := by
    rw [List.length_take, List.length_drop]
  by_cases hmore : offset + limit < sorted.length
  · refine .inr ⟨hmore, ?_, ?_⟩
    · unfold pageAt
      dsimp only
      rw [hcount, Nat.min_eq_left (by omega), if_pos hmore]
    · rw [hitems, ← List.drop_drop, List.take_append_drop]
  · refine .inl ⟨Nat.not_lt.mp hmore, ?_, ?_⟩
    · unfold pageAt
      dsimp only
      rw [hcount, if_neg (by omega)]
    · rw [hitems, List.take_of_length_le (by rw [List.length_drop]; omega)]

/-- From an offset on, the pages carry what the sorted list has left. -/
theorem followed_from (hvalid : validateFilter filter = .ok ()) {sorted : List Invoice} (hlength : sorted.length < 2 ^ 32)
    (hsorted : sortInvoices locale (matching locale engine filter) (resolveFilter locale filter).sort = .ok sorted)
    {cursor : Option String} {offset : Option Nat} (hcursor : decodeCursor cursor = .ok offset) :
    ∃ pages, Followed locale engine filter cursor pages ∧
      pages.flatMap InvoicePage.items = sorted.drop (offset.getD 0) ∧ ∀ page ∈ pages, page.total = sorted.length := by
  have hlimit := limit_pos locale hvalid
  generalize hstart : offset.getD 0 = start
  induction hleft : sorted.length - start using Nat.strong_induction_on generalizing cursor offset start with
  | _ left ih =>
      have hquery := query_eq hvalid hcursor hsorted
      rw [hstart] at hquery
      generalize (resolveFilter locale filter).limit = limit at hlimit hquery ih
      rcases nextCursor_pageAt sorted start limit with ⟨_, hlast, hitems⟩ | ⟨hmore, hnext, hitems⟩
      · refine ⟨_, .last hquery hlast, ?_, ?_⟩
        · rw [List.flatMap_singleton, hitems]
        · exact List.forall_mem_singleton.mpr rfl
      · have hdecode := decode_encode (n := start + limit) (by omega)
        obtain ⟨pages, hpages, hrest, htotals⟩ := ih (sorted.length - (start + limit)) (by omega) hdecode _ rfl rfl
        refine ⟨_, .next hquery hnext hpages, ?_, ?_⟩
        · rw [List.flatMap_cons, hrest, Option.getD_some, hitems]
        · exact List.forall_mem_cons.mpr ⟨rfl, htotals⟩

theorem sorted_of_followed {cursor : Option String} {pages : List InvoicePage} (h : Followed locale engine filter cursor pages) :
    ∃ sorted, sortInvoices locale (matching locale engine filter) (resolveFilter locale filter).sort = .ok sorted := by
  have hquery : ∃ page, query locale engine { filter with cursor := cursor } = .ok page := by
    cases h with
    | last hquery _ => exact ⟨_, hquery⟩
    | next hquery _ _ => exact ⟨_, hquery⟩
  obtain ⟨page, hpage⟩ := hquery
  obtain ⟨_, -, hpage⟩ := bind_eq_ok.mp hpage
  obtain ⟨_, -, hpage⟩ := bind_eq_ok.mp hpage
  obtain ⟨sorted, hsorted, -⟩ := bind_eq_ok.mp hpage
  exact ⟨sorted, hsorted⟩

theorem pagination_exact_iff (locale : TextLocale) (engine : InvoiceQueryEngine) (filter : ValidFilter) :
    PaginationExact locale engine filter.toInvoiceFilter ↔
      Comparable (resolveFilter locale filter.toInvoiceFilter).sort (matching locale engine filter.toInvoiceFilter) := by
  constructor
  · rintro ⟨pages, hexact⟩
    obtain ⟨sorted, hsorted⟩ := sorted_of_followed hexact.followed
    exact comparable_of_sortInvoices hsorted
  · intro h
    obtain ⟨sorted, hsorted, hperm, hpairwise⟩ := sortInvoices_spec locale h
    have hlength : sorted.length < 2 ^ 32 := by
      rw [hperm.length_eq]
      exact (List.length_filter_le _ _).trans_lt engine.short
    obtain ⟨pages, hfollowed, hitems, htotals⟩ := followed_from filter.valid hlength hsorted (rfl : decodeCursor none = .ok none)
    have hall : pages.flatMap InvoicePage.items = sorted := hitems
    refine ⟨pages, hfollowed, ?_, ?_, ?_⟩
    · rw [hall]
      exact hperm
    · rw [hall]
      exact hpairwise
    · rw [← hperm.length_eq]
      exact htotals

def asciiLocale : TextLocale := ⟨String.toLower, compare, inferInstance⟩

/-- Two invoices, the first of which was created within a millisecond. -/
def withinMillisecond : InvoiceQueryEngine :=
  ⟨[⟨"a", "GA", [⟨5⟩], .pending, 0, some (.finite (1025 / 1024)), none, none⟩,
    ⟨"b", "GA", [⟨7⟩], .pending, 0, some (.finite 2), none, none⟩], by decide⟩

theorem pagination_exact_fail : ¬ PaginationExact asciiLocale withinMillisecond {} := by
  rintro ⟨pages, hexact⟩
  obtain ⟨sorted, hsorted⟩ := sorted_of_followed hexact.followed
  have hthrows : sortInvoices asciiLocale (matching asciiLocale withinMillisecond {}) (resolveFilter asciiLocale {}).sort = .error .range := by
    decide +kernel
  cases hthrows.symm.trans hsorted

end Pages

end SplitSdk.Pagination
