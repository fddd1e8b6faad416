import Mathlib.Algebra.Order.Group.Nat
import Mathlib.Data.List.Basic

namespace SplitSdk.HorizonPagination

section Paginator

structure HorizonPaginator where
  requestedPageSize : Nat
  effectivePageSize : Nat := requestedPageSize
  firstPageSeen : Bool := false
  deriving DecidableEq

variable (p : HorizonPaginator) (recordCount : Nat)

def observeFirstPage : HorizonPaginator :=
  if p.firstPageSeen then p
  else
    let p := { p with firstPageSeen := true }
    if recordCount < p.requestedPageSize then { p with effectivePageSize := recordCount } else p

def isLastPage : Bool := recordCount < p.effectivePageSize

end Paginator

section Loop

variable {α : Type}

/-- The limit of the records is a whole number; without one it is unlimited. -/
structure HorizonPaginatorOptions where
  maxRecords : Option Int := none
  pageSize : Nat := 200
  cursorNamespace : String := "horizon"

/-- The state of the loop, with the records yielded and the cursors saved so far; the current page has the number of the `next` calls. -/
structure Pagination (α : Type) where
  paginator : HorizonPaginator
  isFirst : Bool := true
  yielded : List α := []
  saved : List (String × String) := []
  nexts : Nat := 0

variable (pagingToken : α → Option String) (opts : HorizonPaginatorOptions)

def buildCursorKey (namespaceName name : String) : String := namespaceName ++ ":" ++ name

/-- `records.slice(0, stop)`. -/
def slice (records : List α) (stop : Int) : List α :=
  records.take (if stop < 0 then (records.length + stop).toNat else stop.toNat)

def reached (yielded : List α) : Bool := opts.maxRecords.any (fun (maxRecords : Int) => maxRecords ≤ yielded.length)

def batchOf (records yielded : List α) : List α :=
  match opts.maxRecords with
  | some maxRecords => slice records (maxRecords - yielded.length)
  | none => records

/-- The inner loop, and whether it has returned from `paginate`. -/
def deliver : List α → List α → Bool × List α
  | yielded, [] => (false, yielded)
  | yielded, record :: batch => if reached opts yielded then (true, yielded) else deliver (yielded ++ [record]) batch

def saveCursor (batch : List α) (saved : List (String × String)) : List (String × String) :=
  match batch.getLast?.bind pagingToken with
  | none => saved
  | some token => saved ++ [(buildCursorKey opts.cursorNamespace "last", token)]

def observed (records : List α) (s : Pagination α) : HorizonPaginator :=
  if s.isFirst then observeFirstPage s.paginator records.length else s.paginator

/-- One turn of the loop with a page, and whether `paginate` has returned. -/
def turn (records : List α) (s : Pagination α) : Bool × Pagination α :=
  let batch := batchOf opts records s.yielded
  let paginator := observed records s
  let s := { s with paginator, isFirst := false }
  match deliver opts s.yielded batch with
  | (true, yielded) => (true, { s with yielded })
  | (false, yielded) =>
      let s := { s with yielded, saved := saveCursor pagingToken opts batch s.saved }
      if reached opts yielded then (true, s)
      else if isLastPage paginator records.length then (true, s)
      else (false, { s with nexts := s.nexts + 1 })

/-- What is left after a number of turns is `none`. -/
def paginate (pages : Nat → Option (List α)) : Nat → Pagination α → Option (Pagination α)
  | 0, _ => none
  | turns + 1, s =>
      match pages s.nexts with
      | none => some s
      | some records =>
          match turn pagingToken opts records s with
          | (true, s) => some s
          | (false, s) => paginate pages turns s

end Loop

section Statement

variable {α : Type} (pagingToken : α → Option String) (opts : HorizonPaginatorOptions) (collection : List α)

/-- The server gives the next records of the collection, at most as many as are asked for and as it allows, and nothing past its end. -/
def serve (limit : {limit : Nat // 1 ≤ limit}) (i : Nat) : Option (List α) :=
  let size := min opts.pageSize limit.1
  some ((collection.drop (i * size)).take size)

/-- The first records up to the limit. -/
def limited (records : List α) : List α :=
  match opts.maxRecords with
  | none => records
  | some maxRecords => records.take maxRecords.toNat

/-- The cursor saved last is the token of the last record. -/
structure Saved (s : Pagination α) : Prop where
  none : s.yielded = [] → s.saved = []
  last : ∀ record token, s.yielded.getLast? = some record → pagingToken record = some token →
    s.saved.getLast? = some (buildCursorKey opts.cursorNamespace "last", token)

structure Complete (s : Pagination α) : Prop where
  yielded : s.yielded = limited opts collection
  saved : Saved pagingToken opts s

def start : Pagination α := { paginator := { requestedPageSize := opts.pageSize } }

def Paginates (limit : {limit : Nat // 1 ≤ limit}) : Prop :=
  ∃ turns s, paginate pagingToken opts (serve opts collection limit) turns (start opts) = some s ∧
    Complete pagingToken opts collection s

end Statement

section Turns

variable {α : Type} {pagingToken : α → Option String} {opts : HorizonPaginatorOptions} {s : Pagination α}
  {yielded batch records : List α}

theorem reached_none (h : opts.maxRecords = none) (yielded : List α) : reached opts yielded = false := by
  rw [reached, h]
  rfl

theorem reached_some {maxRecords : Int} (h : opts.maxRecords = some maxRecords) (yielded : List α) :
    reached opts yielded = true ↔ maxRecords ≤ yielded.length := by
  rw [reached, h]
  exact decide_eq_true_iff

theorem deliver_all (hroom : ∀ maxRecords, opts.maxRecords = some maxRecords → yielded.length + batch.length ≤ maxRecords) :
    deliver opts yielded batch = (false, yielded ++ batch) := by
  induction batch generalizing yielded with
  | nil => rw [deliver, List.append_nil]
  | cons record batch ih =>
      have hfree : ¬ reached opts yielded := by
        cases hmax : opts.maxRecords with
        | none =>
            rw [reached_none hmax]
            decide
        | some maxRecords =>
            have := hroom maxRecords hmax
            rw [List.length_cons] at this
            rw [reached_some hmax]
            omega
      rw [deliver, if_neg hfree, ih, List.append_assoc]
      · rfl
      · intro maxRecords hmax
        have := hroom maxRecords hmax
        rw [List.length_cons] at this
        rw [List.length_append, List.length_singleton]
        omega

/-- While the limit is not reached, the records of a page are yielded up to it. -/
theorem deliver_batch (h : ¬ reached opts yielded) (records : List α) :
    deliver opts yielded (batchOf opts records yielded) = (false, limited opts (yielded ++ records)) ∧
      ∃ batch, batchOf opts records yielded = batch ∧ limited opts (yielded ++ records) = yielded ++ batch := by
  cases hmax : opts.maxRecords with
  | none =>
      have hbatch : batchOf opts records yielded = records := by rw [batchOf, hmax]
      have hlimited : limited opts (yielded ++ records) = yielded ++ records := by rw [limited, hmax]
      rw [hbatch, hlimited]
      exact ⟨deliver_all (fun maxRecords hsome => by cases hmax.symm.trans hsome), _, rfl, rfl⟩
  | some maxRecords =>
      rw [reached_some hmax] at h
      have hslice : batchOf opts records yielded = records.take (maxRecords.toNat - yielded.length) := by
        rw [batchOf, hmax]
        dsimp only
        rw [slice, if_neg (by omega)]
        congr 1
        omega
      have hlimited : limited opts (yielded ++ records) = yielded ++ records.take (maxRecords.toNat - yielded.length) := by
        rw [limited, hmax]
        dsimp only
        rw [List.take_append, List.take_of_length_le (by omega)]
      rw [hslice, hlimited]
      refine ⟨deliver_all (fun max hsome => ?_), _, rfl, rfl⟩
      obtain rfl := Option.some.inj (hmax.symm.trans hsome)
      rw [List.length_take]
      omega

theorem saveCursor_saved (hsaved : Saved pagingToken opts s) (batch : List α) {t : Pagination α}
    (hyielded : t.yielded = s.yielded ++ batch) (hcursor : t.saved = saveCursor pagingToken opts batch s.saved) :
    Saved pagingToken opts t := by
  rcases List.eq_nil_or_concat' batch with rfl | ⟨init, last, rfl⟩
  · rw [List.append_nil] at hyielded
    have hcursor : t.saved = s.saved := hcursor
    refine ⟨?_, ?_⟩
    · rw [hyielded, hcursor]
      exact hsaved.none
    · rw [hyielded, hcursor]
      exact hsaved.last
  · refine ⟨fun hempty => ?_, fun record token hrecord htoken => ?_⟩
    · rw [hyielded] at hempty
      exact absurd (List.append_eq_nil_iff.mp hempty).2 (List.concat_ne_nil _ _)
    · rw [hyielded, ← List.append_assoc, List.getLast?_concat] at hrecord
      cases hrecord
      rw [hcursor, saveCursor, List.getLast?_concat, Option.bind_some, htoken]
      exact List.getLast?_concat

/-- A turn before the limit is reached. -/
theorem turn_eq (h : ¬ reached opts s.yielded) (hsaved : Saved pagingToken opts s) (records : List α) :
    ∃ saved, Saved pagingToken opts { s with yielded := limited opts (s.yielded ++ records), saved } ∧
      turn pagingToken opts records s =
        (if reached opts (limited opts (s.yielded ++ records)) || isLastPage (observed records s) records.length then
          (true, ⟨observed records s, false, limited opts (s.yielded ++ records), saved, s.nexts⟩)
        else (false, ⟨observed records s, false, limited opts (s.yielded ++ records), saved, s.nexts + 1⟩)) := by
  obtain ⟨hdeliver, batch, hbatch, hyielded⟩ := deliver_batch h records
  refine ⟨saveCursor pagingToken opts batch s.saved, saveCursor_saved hsaved batch hyielded rfl, ?_⟩
  unfold turn
  dsimp only
  rw [hdeliver, hbatch]
  dsimp only
  cases reached opts (limited opts (s.yielded ++ records)) <;> cases isLastPage (observed records s) records.length <;> rfl

theorem limited_eq_self (h : ¬ reached opts (limited opts records)) : limited opts records = records := by
  cases hmax : opts.maxRecords with
  | none => rw [limited, hmax]
  | some maxRecords =>
      rw [reached_some hmax] at h
      rw [limited, hmax] at h ⊢
      dsimp only at h ⊢
      rw [List.length_take] at h
      exact List.take_of_length_le (by omega)

theorem limited_take_of_reached (n : Nat) (h : reached opts (limited opts (records.take n))) :
    limited opts (records.take n) = limited opts records := by
  cases hmax : opts.maxRecords with
  | none =>
      rw [reached_none hmax] at h
      cases h
  | some maxRecords =>
      rw [reached_some hmax, limited, hmax] at h
      rw [limited, limited, hmax]
      dsimp only at h ⊢
      rw [List.take_take] at h ⊢
      rw [List.length_take] at h
      rw [Nat.min_eq_left (by omega)]

end Turns

section Pages

variable {α : Type} {pagingToken : α → Option String} {opts : HorizonPaginatorOptions} {collection : List α} {size : Nat}
  {s : Pagination α}

def pageOf (collection : List α) (size i : Nat) : List α := (collection.drop (i * size)).take size

theorem take_pageOf (collection : List α) (size i : Nat) :
    collection.take (i * size) ++ pageOf collection size i = collection.take ((i + 1) * size) := by
  rw [pageOf, Nat.succ_mul, List.take_add]

theorem length_pageOf (collection : List α) (size i : Nat) :
    (pageOf collection size i).length = min size (collection.length - i * size) := by
  rw [pageOf, List.length_take, List.length_drop]

/-- The state before the turn with a page, as long as the limit is not reached: all pages so far were full, and the first one was
taken as the measure. -/
structure Turning (pagingToken : α → Option String) (opts : HorizonPaginatorOptions) (collection : List α) (size i : Nat)
    (s : Pagination α) : Prop where
  nexts : s.nexts = i
  yielded : s.yielded = collection.take (i * size)
  unreached : ¬ reached opts s.yielded
  saved : Saved pagingToken opts s
  effective : (observed (pageOf collection size i) s).effectivePageSize = min size collection.length

theorem turning_start (h : ¬ reached opts (α := α) []) (hsize : size ≤ opts.pageSize) :
    Turning pagingToken opts collection size 0 (start opts) := by
  refine ⟨rfl, ?_, h, ⟨fun _ => rfl, fun record token hrecord => ?_⟩, ?_⟩
  · rw [Nat.zero_mul]
    rfl
  · cases hrecord
  · have hlength := length_pageOf collection size 0
    rw [Nat.zero_mul, Nat.sub_zero] at hlength
    unfold observed observeFirstPage start
    dsimp only
    rw [if_pos rfl, if_neg Bool.false_ne_true, hlength]
    split_ifs with hless
    · rfl
    · dsimp only
      omega

/-- A page that is shorter than the first one is the last one. -/
theorem length_le_of_isLastPage {i : Nat} (h : Turning pagingToken opts collection size i s)
    (hlast : isLastPage (observed (pageOf collection size i) s) (pageOf collection size i).length) :
    collection.length ≤ (i + 1) * size := by
  have hless := of_decide_eq_true hlast
  rw [h.effective, length_pageOf] at hless
  rw [Nat.succ_mul]
  omega

theorem turning_turn {i : Nat} (h : Turning pagingToken opts collection size i s) :
    ∃ t, turn pagingToken opts (pageOf collection size i) s = (true, t) ∧ Complete pagingToken opts collection t ∨
      turn pagingToken opts (pageOf collection size i) s = (false, t) ∧ Turning pagingToken opts collection size (i + 1) t ∧
        ¬ isLastPage (observed (pageOf collection size i) s) (pageOf collection size i).length := by
  obtain ⟨saved, hsaved, hturn⟩ := turn_eq h.unreached h.saved (pageOf collection size i)
  rw [h.yielded, take_pageOf] at hturn hsaved
  rw [hturn]
  by_cases hreached : reached opts (limited opts (collection.take ((i + 1) * size))) = true
  · rw [if_pos (by rw [hreached, Bool.true_or])]
    exact ⟨_, .inl ⟨rfl, limited_take_of_reached _ hreached, ⟨hsaved.none, hsaved.last⟩⟩⟩
  · by_cases hlast : isLastPage (observed (pageOf collection size i) s) (pageOf collection size i).length = true
    · rw [if_pos (by rw [hlast, Bool.or_true])]
      refine ⟨_, .inl ⟨rfl, ?_, ⟨hsaved.none, hsaved.last⟩⟩⟩
      exact congrArg (limited opts) (List.take_of_length_le (length_le_of_isLastPage h hlast))
    · rw [if_neg (by rw [Bool.or_eq_true]; exact not_or.mpr ⟨hreached, hlast⟩)]
      refine ⟨_, .inr ⟨rfl, ?_, hlast⟩⟩
      exact ⟨congrArg Nat.succ h.nexts, limited_eq_self hreached, hreached, ⟨hsaved.none, hsaved.last⟩, h.effective⟩

theorem paginate_turning (limit : {limit : Nat // 1 ≤ limit}) (hsize : 1 ≤ opts.pageSize) (hsome : collection ≠ []) (n i : Nat)
    (h : Turning pagingToken opts collection (min opts.pageSize limit.1) i s) (hn : collection.length ≤ i + n) :
    ∃ t, paginate pagingToken opts (serve opts collection limit) (n + 1) s = some t ∧
      Complete pagingToken opts collection t := by
  have hserve : serve opts collection limit s.nexts = some (pageOf collection (min opts.pageSize limit.1) i) := by
    rw [h.nexts]
    rfl
  induction n generalizing i s with
  | zero =>
      obtain ⟨t, ⟨hturn, hcomplete⟩ | ⟨hturn, -, hlast⟩⟩ := turning_turn h
      · refine ⟨t, ?_, hcomplete⟩
        rw [paginate, hserve]
        dsimp only
        rw [hturn]
      · have hpos := List.length_pos_iff.mpr hsome
        have hlimit := limit.2
        have hi : i ≤ i * min opts.pageSize limit.1 := Nat.le_mul_of_pos_right i (by omega)
        refine absurd ?_ hlast
        apply decide_eq_true
        rw [h.effective, length_pageOf]
        omega
  | succ n ih =>
      obtain ⟨t, ⟨hturn, hcomplete⟩ | ⟨hturn, hturning, -⟩⟩ := turning_turn h
      · refine ⟨t, ?_, hcomplete⟩
        rw [paginate, hserve]
        dsimp only
        rw [hturn]
      · obtain ⟨u, hu, hcomplete⟩ := ih (i + 1) hturning (by omega) (by
          rw [hturning.nexts]
          rfl)
        refine ⟨u, ?_, hcomplete⟩
        rw [paginate, hserve]
        dsimp only
        rw [hturn]
        exact hu

end Pages

section Results

variable {α : Type} {pagingToken : α → Option String} {opts : HorizonPaginatorOptions} {collection : List α}
  {limit : {limit : Nat // 1 ≤ limit}}

/-- When the limit is reached, nothing more is yielded and no cursor is saved. -/
theorem turn_reached (pagingToken : α → Option String) {s : Pagination α} (h : reached opts s.yielded) (records : List α) :
    ∃ t, turn pagingToken opts records s = (true, t) ∧ t.yielded = s.yielded ∧ t.saved = s.saved := by
  unfold turn
  dsimp only
  cases batchOf opts records s.yielded with
  | nil =>
      rw [deliver]
      dsimp only
      rw [if_pos h]
      exact ⟨_, rfl, rfl, rfl⟩
  | cons record batch =>
      rw [deliver, if_pos h]
      exact ⟨_, rfl, rfl, rfl⟩

theorem paginates_of_reached {maxRecords : Int} (hmax : opts.maxRecords = some maxRecords) (hle : maxRecords ≤ 0) :
    Paginates pagingToken opts collection limit := by
  have hreached : reached opts (start (α := α) opts).yielded := (reached_some hmax _).mpr hle
  obtain ⟨t, hturn, hyielded, hsaved⟩ :=
    turn_reached pagingToken hreached (pageOf collection (min opts.pageSize limit.1) 0)
  have hlimited : limited opts collection = [] := by
    rw [limited, hmax]
    dsimp only
    rw [Int.toNat_of_nonpos hle, List.take_zero]
  refine ⟨1, t, ?_, hyielded.trans hlimited.symm, fun _ => hsaved, fun record token hrecord => ?_⟩
  · change (match turn pagingToken opts (pageOf collection (min opts.pageSize limit.1) 0) (start opts) with
      | (true, s) => some s
      | (false, s) => paginate pagingToken opts (serve opts collection limit) 0 s) = some t
    rw [hturn]
  · rw [hyielded] at hrecord
    cases hrecord

theorem limited_nil (opts : HorizonPaginatorOptions) : limited opts ([] : List α) = [] := by
  unfold limited
  cases opts.maxRecords with
  | none => rfl
  | some maxRecords => exact List.take_nil

/-- Empty pages from the first one on are never the last one. -/
theorem paginate_empty (pagingToken : α → Option String) (h : ∀ n, serve opts collection limit n = some []) (hfree : ¬ reached opts (α := α) []) (turns : Nat)
    {s : Pagination α} (hyielded : s.yielded = []) (hsaved : Saved pagingToken opts s)
    (hpaginator : (observed [] s).effectivePageSize = 0) :
    paginate pagingToken opts (serve opts collection limit) turns s = none := by
  induction turns generalizing s with
  | zero => rfl
  | succ turns ih =>
      obtain ⟨saved, hsaved', hturn⟩ := turn_eq (hyielded ▸ hfree) hsaved []
      rw [hyielded, List.append_nil, limited_nil] at hturn hsaved'
      have hlast : isLastPage (observed [] s) ([] : List α).length = false := by
        rw [isLastPage, hpaginator]
        rfl
      rw [hlast, Bool.or_false, if_neg hfree] at hturn
      rw [paginate, h]
      dsimp only
      rw [hturn]
      exact ih rfl ⟨hsaved'.none, hsaved'.last⟩ hpaginator

/-- The first page of an empty collection, or of pages of no size, sets the page size to zero. -/
theorem serve_empty (limit : {limit : Nat // 1 ≤ limit}) (h : ¬ (collection ≠ [] ∧ 1 ≤ opts.pageSize)) (n : Nat) : serve opts collection limit n = some [] := by
  change some ((collection.drop (n * min opts.pageSize limit.1)).take (min opts.pageSize limit.1)) = some []
  rcases not_and_or.mp h with hempty | hzero
  · rw [not_not.mp hempty, List.drop_nil, List.take_nil]
  · rw [Nat.lt_one_iff.mp (Nat.not_le.mp hzero), Nat.zero_min, List.take_zero]

theorem observed_start (opts : HorizonPaginatorOptions) : (observed ([] : List α) (start opts)).effectivePageSize = 0 := by
  unfold observed observeFirstPage start
  rw [if_pos rfl, if_neg Bool.false_ne_true]
  dsimp only
  split_ifs with hpos
  · rfl
  · exact Nat.eq_zero_of_not_pos hpos

/-- All records up to the limit are yielded, and the loop ends, unless the pages are empty from the first one on. -/
theorem pagination_complete_iff (pagingToken : α → Option String) (opts : HorizonPaginatorOptions) (collection : List α)
    (limit : {limit : Nat // 1 ≤ limit}) :
    Paginates pagingToken opts collection limit ↔
      (∃ maxRecords, opts.maxRecords = some maxRecords ∧ maxRecords ≤ 0) ∨ (collection ≠ [] ∧ 1 ≤ opts.pageSize) := by
  by_cases hlimit : ∃ maxRecords, opts.maxRecords = some maxRecords ∧ maxRecords ≤ 0
  · obtain ⟨maxRecords, hmax, hle⟩ := hlimit
    exact iff_of_true (paginates_of_reached hmax hle) (.inl ⟨maxRecords, hmax, hle⟩)
  · have hfree : ¬ reached opts (α := α) [] := by
      cases hmax : opts.maxRecords with
      | none =>
          rw [reached_none hmax]
          decide
      | some maxRecords =>
          rw [reached_some hmax]
          exact fun hle => hlimit ⟨maxRecords, hmax, hle⟩
    rw [or_iff_right hlimit]
    constructor
    · rintro ⟨turns, s, hpaginate, -⟩
      by_contra hempty
      have hnone := paginate_empty pagingToken (serve_empty limit hempty) hfree turns
        rfl ⟨fun _ => rfl, fun record token hrecord => by cases hrecord⟩ (observed_start opts)
      cases hnone.symm.trans hpaginate
    · rintro ⟨hsome, hsize⟩
      obtain ⟨t, ht, hcomplete⟩ := paginate_turning limit hsize hsome collection.length 0
        (turning_start hfree (Nat.min_le_left _ _)) (Nat.le_add_left _ _)
      exact ⟨_, t, ht, hcomplete⟩

/-- An empty collection with the default options: there is no end to the pages. -/
theorem pagination_complete_fail : ¬ Paginates (fun token : String => some token) {} [] ⟨200, by decide⟩ := by
  rintro ⟨turns, s, hpaginate, -⟩
  have hfree : ¬ reached {} ([] : List String) := by decide
  have hnone := paginate_empty (fun token : String => some token) (serve_empty ⟨200, by decide⟩ (fun h => h.1 rfl)) hfree turns rfl
    ⟨fun _ => rfl, fun record token hrecord => by cases hrecord⟩ (observed_start {})
  cases hnone.symm.trans hpaginate

end Results

end SplitSdk.HorizonPagination
