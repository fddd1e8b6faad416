import SplitSdk.Interleaving
import SplitSdk.ContractEventSubscriber
import Mathlib.Data.List.Nodup

namespace SplitSdk.LosslessPages

open Interleaving ContractEventSubscriber

section Statement

variable {ρ δ : Type} (decodeScVal : ρ → δ) (matching : RawEvent ρ → Bool) (limit : Nat)

/-- The events after a ledger as they are to be yielded. -/
def wanted (history : List (RawEvent ρ)) (start : Nat) : List (ParsedContractEvent δ) :=
  (history.filter (fun event => matching event && decide (start < event.ledger))).map (parseEvent decodeScVal)

/-- All events up to a ledger were yielded by one loop or another. -/
def Covered (s : Feed ρ δ) (ledger : Nat) : Prop :=
  ∀ event ∈ s.history, matching event → s.origin < event.ledger → event.ledger ≤ ledger →
    ∃ loop ∈ s.loops, parseEvent decodeScVal event ∈ loop.yielded

/-- Each loop has yielded the first of the events after its start, none of them twice, and nothing up to the cursor was left out. -/
structure Lossless (s : Feed ρ δ) : Prop where
  ordered : ∀ loop ∈ s.loops, loop.yielded <+: wanted decodeScVal matching s.history loop.start
  once : ∀ loop ∈ s.loops, (loop.yielded.map ParsedContractEvent.id).Nodup
  covered : ∀ cursor, s.cursor = some cursor → Covered decodeScVal matching s cursor

/-- The last ledger of a loop once it goes on. -/
def top (loop : Loop δ) : Nat :=
  match loop.phase with
  | .suspended event _ => max loop.lastLedger event.ledger
  | _ => loop.lastLedger

def rest (loop : Loop δ) : List (ParsedContractEvent δ) :=
  match loop.phase with
  | .suspended _ rest => rest
  | _ => []

/-- No page ends inside a ledger, and a new event is of a later ledger than all that were saved or that a loop has read. -/
def Timely (s : Feed ρ δ) : Event ρ → Prop
  | .append event => matching event → s.origin < event.ledger →
      (∀ cursor, s.cursor = some cursor → cursor < event.ledger) ∧
        ∀ loop ∈ s.loops, loop.phase ≠ .done → top loop < event.ledger ∧ ∀ other ∈ rest loop, other.ledger < event.ledger
  | .answered k true => ∀ loop, s.loops[k]? = some loop → loop.phase = .polling →
      ∀ event ∈ getEvents matching limit s.history (startAfter loop.lastLedger), loop.lastLedger < event.ledger →
        ∀ other ∈ (asked matching s.history (startAfter loop.lastLedger)).drop limit, event.ledger < other.ledger
  | _ => True

end Statement

section Reading

variable {ρ δ : Type} {decodeScVal : ρ → δ} {matching : RawEvent ρ → Bool} {limit startLedger : Nat}
  {s t : Feed ρ δ}

theorem mem_wanted (decodeScVal : ρ → δ) {history : List (RawEvent ρ)} {start : Nat} {event : RawEvent ρ} (hmem : event ∈ history)
    (hmatching : matching event) (hledger : start < event.ledger) :
    parseEvent decodeScVal event ∈ wanted decodeScVal matching history start :=
  List.mem_map_of_mem (List.mem_filter.mpr ⟨hmem, by simp [hmatching, hledger]⟩)

theorem lt_of_mem_wanted {history : List (RawEvent ρ)} {start : Nat} {event : ParsedContractEvent δ}
    (h : event ∈ wanted decodeScVal matching history start) : start < event.ledger := by
  obtain ⟨raw, hraw, rfl⟩ := List.mem_map.mp h
  have hraw := (List.mem_filter.mp hraw).2
  rw [Bool.and_eq_true, decide_eq_true_eq] at hraw
  exact hraw.2

theorem wanted_append (history : List (RawEvent ρ)) (event : RawEvent ρ) (start : Nat) :
    wanted decodeScVal matching (history ++ [event]) start = wanted decodeScVal matching history start ++
      if matching event && decide (start < event.ledger) then [parseEvent decodeScVal event] else [] := by
  rw [wanted, wanted, List.filter_append, List.map_append, List.filter_singleton]
  cases matching event && decide (start < event.ledger) <;> rfl

theorem nodup_ids {history : List (RawEvent ρ)} (h : (history.map RawEvent.id).Nodup) (start : Nat) :
    ((wanted decodeScVal matching history start).map ParsedContractEvent.id).Nodup := by
  rw [wanted, List.map_map]
  exact h.sublist (List.filter_sublist.map _)

/-- A loop that started at `start` has read up to `lastLedger` and holds the rest of its batch: what it has yielded and holds comes first of
what it is to yield, and all that is left is of later ledgers. -/
structure Reads (decodeScVal : ρ → δ) (matching : RawEvent ρ → Bool) (s : Feed ρ δ) (start lastLedger : Nat)
    (yielded rest : List (ParsedContractEvent δ)) : Prop where
  floor : s.origin ≤ start
  le : start ≤ lastLedger
  before : Covered decodeScVal matching s start
  read : ∀ event ∈ yielded, event.ledger ≤ lastLedger
  split : ∃ later, wanted decodeScVal matching s.history start = yielded ++ rest ++ later ∧
    ∀ event ∈ later, lastLedger < event.ledger ∧ ∀ other ∈ rest, other.ledger < event.ledger

theorem Reads.prefix_wanted {start lastLedger : Nat} {yielded rest : List (ParsedContractEvent δ)}
    (h : Reads decodeScVal matching s start lastLedger yielded rest) :
    yielded <+: wanted decodeScVal matching s.history start := by
  obtain ⟨later, hsplit, -⟩ := h.split
  rw [hsplit, List.append_assoc]
  exact List.prefix_append _ _

/-- A loop that holds nothing has yielded all up to its last ledger. -/
theorem Reads.covered {loop : Loop δ} (h : Reads decodeScVal matching s loop.start loop.lastLedger loop.yielded [])
    (hloop : loop ∈ s.loops) : Covered decodeScVal matching s loop.lastLedger := by
  intro event hevent hmatching horigin hledger
  by_cases hstart : event.ledger ≤ loop.start
  · exact h.before event hevent hmatching horigin hstart
  · obtain ⟨later, hsplit, hlater⟩ := h.split
    have hmem := mem_wanted decodeScVal hevent hmatching (Nat.lt_of_not_le hstart)
    rw [hsplit, List.append_nil] at hmem
    rcases List.mem_append.mp hmem with hyielded | hleft
    · exact ⟨loop, hloop, hyielded⟩
    · exact absurd hledger (Nat.not_le.mpr (hlater _ hleft).1)

/-- What is known of a loop in each phase. -/
def LoopInv (decodeScVal : ρ → δ) (matching : RawEvent ρ → Bool) (s : Feed ρ δ) (loop : Loop δ) : Prop :=
  match loop.phase with
  | .loading => loop.yielded = []
  | .done => loop.yielded <+: wanted decodeScVal matching s.history loop.start
  | .suspended event rest =>
      Reads decodeScVal matching s loop.start (max loop.lastLedger event.ledger) loop.yielded rest
  | _ => Reads decodeScVal matching s loop.start loop.lastLedger loop.yielded []

theorem LoopInv.prefix_wanted {loop : Loop δ} (h : LoopInv decodeScVal matching s loop) :
    loop.yielded <+: wanted decodeScVal matching s.history loop.start := by
  unfold LoopInv at h
  split at h
  · rw [h]
    exact List.nil_prefix
  · exact h
  · exact h.prefix_wanted
  · exact h.prefix_wanted

/-- The next event of a batch is yielded, or the loop ends. -/
theorem resume_inv {loop : Loop δ} {batch : List (ParsedContractEvent δ)} (stopped : Bool)
    (h : Reads decodeScVal matching s loop.start loop.lastLedger loop.yielded batch) :
    LoopInv decodeScVal matching s (resume stopped loop batch) := by
  cases batch with
  | nil => exact h
  | cons event batch =>
      cases stopped with
      | true => exact h.prefix_wanted
      | false =>
          obtain ⟨later, hsplit, hlater⟩ := h.split
          refine ⟨h.floor, Nat.le_trans h.le (Nat.le_max_left _ _), h.before, ?_, later, ?_, ?_⟩
          · intro other hother
            rcases List.mem_append.mp hother with hother | hother
            · exact Nat.le_trans (h.read other hother) (Nat.le_max_left _ _)
            · rw [List.mem_singleton.mp hother]
              exact Nat.le_max_right _ _
          · refine hsplit.trans (congrArg (· ++ later) ?_)
            exact (List.append_assoc loop.yielded [event] batch).symm
          · intro other hother
            have hlt := hlater other hother
            exact ⟨Nat.max_lt.mpr ⟨hlt.1, hlt.2 event List.mem_cons_self⟩,
              fun held hheld => hlt.2 held (List.mem_cons_of_mem _ hheld)⟩

theorem again_inv {loop : Loop δ} (stopped : Bool)
    (h : Reads decodeScVal matching s loop.start loop.lastLedger loop.yielded []) :
    LoopInv decodeScVal matching s (again stopped loop) := by
  cases stopped with
  | true => exact h.prefix_wanted
  | false => exact h

/-- The page of a poll is the next part of what a loop is to yield. -/
theorem poll_reads {start lastLedger : Nat} {yielded : List (ParsedContractEvent δ)}
    (h : Reads decodeScVal matching s start lastLedger yielded [])
    (hpage : ∀ event ∈ getEvents matching limit s.history (startAfter lastLedger), lastLedger < event.ledger →
      ∀ other ∈ (asked matching s.history (startAfter lastLedger)).drop limit, event.ledger < other.ledger) :
    Reads decodeScVal matching s start lastLedger yielded (poll decodeScVal matching limit s.history lastLedger true) := by
  let later (events : List (RawEvent ρ)) : List (ParsedContractEvent δ) :=
    (events.filter (fun event => lastLedger < event.ledger)).map (parseEvent decodeScVal)
  have hasked : later (asked matching s.history (startAfter lastLedger)) = wanted decodeScVal matching s.history lastLedger := by
    refine congrArg (List.map _) ?_
    rw [asked, List.filter_filter]
    refine List.filter_congr (fun event _ => ?_)
    rw [Bool.eq_iff_iff]
    simp only [Bool.and_eq_true, decide_eq_true_eq, startAfter]
    split_ifs <;> grind
  have hparts (events : List (RawEvent ρ)) : later events = later (events.take limit) ++ later (events.drop limit) := by
    rw [← List.map_append, ← List.filter_append, List.take_append_drop]
  obtain ⟨left, hsplit, hleft⟩ := h.split
  -- what the loop has yielded is of earlier ledgers and what is left is not
  have hleft' : wanted decodeScVal matching s.history lastLedger = left := by
    have hyielded : yielded.filter (fun event => decide (lastLedger < event.ledger)) = [] :=
      List.filter_eq_nil_iff.mpr (fun event hevent => by simpa using h.read event hevent)
    have hkept : left.filter (fun event => decide (lastLedger < event.ledger)) = left :=
      List.filter_eq_self.mpr (fun event hevent => decide_eq_true (hleft event hevent).1)
    have hlater := congrArg (List.filter (fun event => decide (lastLedger < event.ledger))) hsplit
    rw [List.append_nil, List.filter_append, hyielded, hkept, List.nil_append] at hlater
    rw [← hlater, wanted, wanted, List.filter_map, List.filter_filter]
    refine congrArg (List.map _) (List.filter_congr (fun event _ => ?_))
    have hle := h.le
    rw [Bool.eq_iff_iff]
    simp only [Bool.and_eq_true, decide_eq_true_eq, Function.comp_apply, parseEvent]
    grind
  refine ⟨h.floor, h.le, h.before, h.read, later ((asked matching s.history (startAfter lastLedger)).drop limit), ?_, ?_⟩
  · rw [hsplit, List.append_nil, List.append_assoc, ← hleft', ← hasked, hparts]
    rfl
  · intro event hevent
    obtain ⟨raw, hraw, rfl⟩ := List.mem_map.mp hevent
    obtain ⟨hraw, hledger⟩ := List.mem_filter.mp hraw
    refine ⟨of_decide_eq_true hledger, fun other hother => ?_⟩
    obtain ⟨held, hheld, rfl⟩ := List.mem_map.mp hother
    obtain ⟨hheld, hheldLedger⟩ := List.mem_filter.mp hheld
    exact hpage held hheld (of_decide_eq_true hheldLedger) raw hraw

end Reading

section Steps

variable {ρ δ : Type} {decodeScVal : ρ → δ} {matching : RawEvent ρ → Bool} {limit startLedger : Nat}
  {s t : Feed ρ δ} {e : Event ρ}

structure Inv (decodeScVal : ρ → δ) (matching : RawEvent ρ → Bool) (startLedger : Nat) (s : Feed ρ δ) : Prop where
  floor : s.origin ≤ s.cursor.getD startLedger
  fresh : s.cursor = none → s.origin = startLedger
  ids : (s.history.map RawEvent.id).Nodup
  covered : Covered decodeScVal matching s (s.cursor.getD startLedger)
  loops : ∀ loop ∈ s.loops, LoopInv decodeScVal matching s loop

theorem Inv.lossless (h : Inv decodeScVal matching startLedger s) : Lossless decodeScVal matching s where
  ordered := fun loop hloop => (h.loops loop hloop).prefix_wanted
  once := fun loop hloop => (nodup_ids h.ids loop.start).sublist ((h.loops loop hloop).prefix_wanted.sublist.map _)
  covered := by
    intro cursor hcursor
    have hcovered := h.covered
    rwa [hcursor] at hcovered

/-- Every loop that was there is still there and has yielded all that it had. -/
structure Grows (s t : Feed ρ δ) : Prop where
  origin : t.origin = s.origin
  history : t.history = s.history
  loops : ∀ loop ∈ s.loops, ∃ loop' ∈ t.loops, loop.yielded ⊆ loop'.yielded

theorem Covered.grows {ledger : Nat} (h : Covered decodeScVal matching s ledger) (hgrows : Grows s t) :
    Covered decodeScVal matching t ledger := by
  intro event hevent hmatching horigin hledger
  rw [hgrows.history] at hevent
  rw [hgrows.origin] at horigin
  obtain ⟨loop, hloop, hyielded⟩ := h event hevent hmatching horigin hledger
  obtain ⟨loop', hloop', hsubset⟩ := hgrows.loops loop hloop
  exact ⟨loop', hloop', hsubset hyielded⟩

theorem Reads.grows {start lastLedger : Nat} {yielded rest : List (ParsedContractEvent δ)}
    (h : Reads decodeScVal matching s start lastLedger yielded rest) (hgrows : Grows s t) :
    Reads decodeScVal matching t start lastLedger yielded rest := by
  refine ⟨hgrows.origin ▸ h.floor, h.le, h.before.grows hgrows, h.read, ?_⟩
  rw [hgrows.history]
  exact h.split

theorem LoopInv.grows {loop : Loop δ} (h : LoopInv decodeScVal matching s loop) (hgrows : Grows s t) :
    LoopInv decodeScVal matching t loop := by
  unfold LoopInv at h ⊢
  cases hphase : loop.phase with
  | loading =>
      rw [hphase] at h
      exact h
  | done =>
      rw [hphase] at h
      rw [hgrows.history]
      exact h
  | suspended | polling | saving | sleeping =>
      rw [hphase] at h
      exact Reads.grows h hgrows

/-- What one step of a loop keeps, and what it has yielded of the cursor that it saves. -/
structure Advanced (decodeScVal : ρ → δ) (matching : RawEvent ρ → Bool) (s : Feed ρ δ) (loop loop' : Loop δ) (saved : Option Nat) :
    Prop where
  inv : LoopInv decodeScVal matching s loop'
  yielded : loop.yielded ⊆ loop'.yielded
  saved : ∀ cursor, saved = some cursor → s.origin ≤ cursor ∧ Covered decodeScVal matching s cursor

theorem subset_resume (stopped : Bool) (loop : Loop δ) (batch : List (ParsedContractEvent δ)) :
    loop.yielded ⊆ (resume stopped loop batch).yielded := by
  cases batch with
  | nil => exact List.Subset.refl _
  | cons event batch =>
      cases stopped with
      | true => exact List.Subset.refl _
      | false => exact List.subset_append_left _ _

theorem advance_advanced {k : Nat} {loop loop' : Loop δ} {saved : Option Nat}
    (hs : Inv decodeScVal matching startLedger s) (hk : s.loops[k]? = some loop) (he : e.loop? = some k)
    (htimely : Timely matching limit s e)
    (h : advance decodeScVal matching limit startLedger s loop e = some (loop', saved)) :
    Advanced decodeScVal matching s loop loop' saved := by
  have hloop := List.mem_of_getElem? hk
  have hinv := hs.loops loop hloop
  cases e with
  | loaded k' success =>
      dsimp only [advance] at h
      split at h
      · rename_i hphase
        rw [LoopInv, hphase] at hinv
        dsimp only at hinv
        cases success with
        | false =>
            cases h
            have hnil : loop.yielded <+: wanted decodeScVal matching s.history loop.start := by
              rw [hinv]
              exact List.nil_prefix
            exact ⟨hnil, List.Subset.refl _, nofun⟩
        | true =>
            cases h
            refine ⟨again_inv _ ⟨hs.floor, Nat.le_refl _, hs.covered, ?_, ?_⟩, List.Subset.refl _, nofun⟩
            · rw [hinv]
              exact fun event hevent => absurd hevent List.not_mem_nil
            · rw [hinv]
              exact ⟨_, rfl, fun event hevent => ⟨lt_of_mem_wanted hevent, fun _ hother => absurd hother List.not_mem_nil⟩⟩
      · cases h
  | answered k' success =>
      dsimp only [advance] at h
      split at h
      · rename_i hphase
        cases h
        rw [LoopInv, hphase] at hinv
        refine ⟨resume_inv _ ?_, subset_resume _ _ _, nofun⟩
        cases success with
        | false => exact hinv
        | true =>
            obtain rfl : k' = k := Option.some.inj he
            exact poll_reads hinv (htimely loop hk hphase)
      · cases h
  | next k' =>
      dsimp only [advance] at h
      split at h
      · rename_i event rest hphase
        cases h
        rw [LoopInv, hphase] at hinv
        have hmax : (if event.ledger > loop.lastLedger then event.ledger else loop.lastLedger) =
            max loop.lastLedger event.ledger := by
          split_ifs <;> omega
        rw [hmax]
        exact ⟨resume_inv _ hinv, subset_resume _ { loop with lastLedger := max loop.lastLedger event.ledger } _, nofun⟩
      · cases h
  | leave k' =>
      dsimp only [advance] at h
      split at h
      · cases h
        exact ⟨hinv.prefix_wanted, List.Subset.refl _, nofun⟩
      · cases h
  | saved k' success =>
      dsimp only [advance] at h
      split at h
      · rename_i hphase
        rw [LoopInv, hphase] at hinv
        cases success with
        | false =>
            cases h
            exact ⟨Reads.prefix_wanted hinv, List.Subset.refl _, nofun⟩
        | true =>
            cases h
            refine ⟨?_, List.Subset.refl _, ?_⟩
            · cases s.isStopped loop with
              | true => exact Reads.prefix_wanted hinv
              | false => exact hinv
            · rintro _ ⟨⟩
              exact ⟨Nat.le_trans hinv.floor hinv.le, Reads.covered hinv hloop⟩
      · cases h
  | woke k' =>
      dsimp only [advance] at h
      split at h
      · rename_i hphase
        cases h
        rw [LoopInv, hphase] at hinv
        exact ⟨again_inv _ hinv, List.Subset.refl _, nofun⟩
      · cases h
  | _ => cases he

theorem step_of_loop {k : Nat} (he : e.loop? = some k) (h : step decodeScVal matching limit startLedger s e = some t) :
    ∃ loop loop' saved, s.loops[k]? = some loop ∧
      advance decodeScVal matching limit startLedger s loop e = some (loop', saved) ∧
        t = { s.put k loop' with cursor := saved.or s.cursor } := by
  cases e with
  | create | subscribe | unsubscribe | append => cases he
  | _ =>
      obtain rfl := Option.some.inj he
      dsimp only [step, Event.loop?, bind, Option.bind_some] at h
      obtain ⟨loop, hloop, h⟩ := Option.bind_eq_some_iff.mp h
      obtain ⟨⟨loop', saved⟩, hadvance, h⟩ := Option.bind_eq_some_iff.mp h
      exact ⟨loop, loop', saved, hloop, hadvance, (Option.some.inj h).symm⟩

theorem loop_inv {k : Nat} (he : e.loop? = some k) (hs : Inv decodeScVal matching startLedger s)
    (htimely : Timely matching limit s e) (h : step decodeScVal matching limit startLedger s e = some t) :
    Inv decodeScVal matching startLedger t := by
  obtain ⟨loop, loop', saved, hk, hadvance, rfl⟩ := step_of_loop he h
  have hadvanced := advance_advanced hs hk he htimely hadvance
  have hlt := (List.getElem?_eq_some_iff.mp hk).1
  have hgrows : Grows s { s.put k loop' with cursor := saved.or s.cursor } := by
    refine ⟨rfl, rfl, fun other hother => ?_⟩
    obtain ⟨j, hj⟩ := List.mem_iff_getElem?.mp hother
    by_cases hjk : k = j
    · subst hjk
      obtain rfl : loop = other := Option.some.inj (hk.symm.trans hj)
      exact ⟨loop', List.mem_set hlt loop', hadvanced.yielded⟩
    · exact ⟨other, List.mem_of_getElem? ((List.getElem?_set_ne hjk).trans hj), List.Subset.refl _⟩
  refine ⟨?_, ?_, hs.ids, ?_, forall_mem_set (fun other hother => (hs.loops other hother).grows hgrows) (hadvanced.inv.grows hgrows)⟩
  · cases saved with
    | none => exact hs.floor
    | some cursor => exact (hadvanced.saved cursor rfl).1
  · exact fun hcursor => hs.fresh (Option.or_eq_none_iff.mp hcursor).2
  · cases saved with
    | none => exact hs.covered.grows hgrows
    | some cursor => exact (hadvanced.saved cursor rfl).2.grows hgrows

theorem Covered.append {event : RawEvent ρ} {ledger : Nat} (h : Covered decodeScVal matching s ledger)
    (hnew : matching event → s.origin < event.ledger → ledger < event.ledger) :
    Covered decodeScVal matching { s with history := s.history ++ [event] } ledger := by
  intro other hother hmatching horigin hledger
  rcases List.mem_append.mp hother with hother | hother
  · exact h other hother hmatching horigin hledger
  · obtain rfl := List.mem_singleton.mp hother
    exact absurd hledger (Nat.not_le.mpr (hnew hmatching horigin))

theorem Reads.append {event : RawEvent ρ} {start lastLedger : Nat} {yielded rest : List (ParsedContractEvent δ)}
    (h : Reads decodeScVal matching s start lastLedger yielded rest)
    (hnew : matching event → s.origin < event.ledger →
      lastLedger < event.ledger ∧ ∀ other ∈ rest, other.ledger < event.ledger) :
    Reads decodeScVal matching { s with history := s.history ++ [event] } start lastLedger yielded rest := by
  refine ⟨h.floor, h.le, h.before.append (fun hmatching horigin => Nat.lt_of_le_of_lt h.le (hnew hmatching horigin).1), h.read, ?_⟩
  obtain ⟨later, hsplit, hlater⟩ := h.split
  rw [wanted_append, hsplit]
  split_ifs with hwanted
  · rw [Bool.and_eq_true, decide_eq_true_eq] at hwanted
    refine ⟨later ++ [parseEvent decodeScVal event], List.append_assoc _ _ _, List.forall_mem_append.mpr ⟨hlater, ?_⟩⟩
    exact List.forall_mem_singleton.mpr (hnew hwanted.1 (Nat.lt_of_le_of_lt h.floor hwanted.2))
  · exact ⟨later, List.append_nil _, hlater⟩

/-- A new event goes behind all that the loops have read. -/
theorem append_inv {event : RawEvent ρ} (hs : Inv decodeScVal matching startLedger s)
    (htimely : Timely matching limit s (.append event))
    (h : step decodeScVal matching limit startLedger s (.append event) = some t) : Inv decodeScVal matching startLedger t := by
  dsimp only [step] at h
  split_ifs at h with hnew
  cases h
  refine ⟨hs.floor, hs.fresh, ?_, hs.covered.append (fun hmatching horigin => ?_), fun loop hloop => ?_⟩
  · rw [List.map_append, List.nodup_append']
    exact ⟨hs.ids, List.nodup_singleton _, List.disjoint_singleton.mpr hnew.1⟩
  · cases hcursor : s.cursor with
    | none =>
        have hfresh := hs.fresh hcursor
        rw [Option.getD_none]
        omega
    | some cursor => exact (htimely hmatching horigin).1 cursor hcursor
  · have hinv := hs.loops loop hloop
    have hlate (hphase : loop.phase ≠ .done) (hmatching : matching event) (horigin : s.origin < event.ledger) :=
      (htimely hmatching horigin).2 loop hloop hphase
    unfold LoopInv at hinv ⊢
    unfold top rest at hlate
    cases hphase : loop.phase with
    | loading =>
        rw [hphase] at hinv
        exact hinv
    | done =>
        rw [hphase] at hinv
        rw [wanted_append]
        exact hinv.trans (List.prefix_append _ _)
    | suspended | polling | saving | sleeping =>
        rw [hphase] at hinv hlate
        exact Reads.append hinv (hlate nofun)

theorem inv_of_stopped (hs : Inv decodeScVal matching startLedger s) (stopped : List Bool) :
    Inv decodeScVal matching startLedger { s with stopped } := by
  have hgrows : Grows s { s with stopped } := ⟨rfl, rfl, fun loop hloop => ⟨loop, hloop, List.Subset.refl _⟩⟩
  exact ⟨hs.floor, hs.fresh, hs.ids, hs.covered.grows hgrows, fun loop hloop => (hs.loops loop hloop).grows hgrows⟩

theorem step_inv (hs : Inv decodeScVal matching startLedger s) (htimely : Timely matching limit s e)
    (h : step decodeScVal matching limit startLedger s e = some t) : Inv decodeScVal matching startLedger t := by
  cases e with
  | append event => exact append_inv hs htimely h
  | create =>
      cases h
      exact inv_of_stopped hs _
  | unsubscribe subscriber =>
      dsimp only [step] at h
      split_ifs at h
      cases h
      exact inv_of_stopped hs _
  | subscribe subscriber =>
      dsimp only [step] at h
      split_ifs at h
      cases h
      have hgrows : Grows s { s with stopped := s.stopped.set subscriber false, loops := s.loops ++ [{ subscriber }] } :=
        ⟨rfl, rfl, fun loop hloop => ⟨loop, List.mem_append_left _ hloop, List.Subset.refl _⟩⟩
      refine ⟨hs.floor, hs.fresh, hs.ids, hs.covered.grows hgrows,
        List.forall_mem_append.mpr ⟨?_, List.forall_mem_singleton.mpr rfl⟩⟩
      exact fun loop hloop => (hs.loops loop hloop).grows hgrows
  | _ => exact loop_inv rfl hs htimely h

theorem start_inv (cursor : Option Nat) : Inv decodeScVal matching startLedger (start startLedger cursor : Feed ρ δ) where
  floor := Nat.le_refl _
  fresh := by
    rintro rfl
    rfl
  ids := List.nodup_nil
  covered := fun _ hevent => absurd hevent List.not_mem_nil
  loops := fun _ hloop => absurd hloop List.not_mem_nil

/-- No event is lost in a run all of whose steps are timely. -/
theorem no_event_lost (cursor : Option Nat) (es : List (Event ρ))
    (h : Allowed (step decodeScVal matching limit startLedger) (Timely matching limit) (start startLedger cursor) es) :
    Allowed (step decodeScVal matching limit startLedger)
      (fun s e => ∀ t, step decodeScVal matching limit startLedger s e = some t → Lossless decodeScVal matching t)
      (start startLedger cursor) es :=
  allowed_of_invariant (fun _ _ _ hs htimely ht => step_inv hs htimely ht)
    (fun _ _ hs htimely _ ht => (step_inv hs htimely ht).lossless) (start_inv cursor) h

/-- A matching event of ledger 5. -/
def sample (id : String) : RawEvent Unit := ⟨id, 5, some "C", none, none, (), none, none⟩

def sampleStep (limit : Nat) : Feed Unit Unit → Event Unit → Option (Feed Unit Unit) := step id (fun _ => true) limit 0

def onePoll : List (Event Unit) :=
  [.create, .subscribe 0, .append (sample "a"), .loaded 0 true, .answered 0 true, .next 0, .saved 0 true]

theorem no_event_lost_of_one_poll : Allowed (sampleStep 1)
    (fun s e => ∀ t, sampleStep 1 s e = some t → Lossless id (fun _ => true) t) (start 0 none) onePoll := by
  apply no_event_lost none onePoll
  refine ⟨trivial, fun _ h => ?_⟩
  obtain rfl := Option.some.inj h
  refine ⟨trivial, fun _ h => ?_⟩
  obtain rfl := Option.some.inj h
  refine ⟨?_, fun _ h => ?_⟩
  · exact fun _ _ => ⟨nofun, List.forall_mem_singleton.mpr fun _ => ⟨by decide, fun _ h => absurd h List.not_mem_nil⟩⟩
  obtain rfl := Option.some.inj h
  refine ⟨trivial, fun _ h => ?_⟩
  obtain rfl := Option.some.inj h
  refine ⟨?_, fun _ h => ?_⟩
  · rintro loop ⟨⟩ - event - -
    exact fun _ hother => absurd hother List.not_mem_nil
  obtain rfl := Option.some.inj h
  refine ⟨trivial, fun _ h => ?_⟩
  obtain rfl := Option.some.inj h
  exact ⟨trivial, fun _ h => trivial⟩

/-- With one event a page, the second event of a ledger is passed over: the cursor is saved behind it. -/
theorem second_event_lost : ∃ t, run (sampleStep 1) (start 0 none)
      [.create, .subscribe 0, .append (sample "a"), .append (sample "b"), .loaded 0 true, .answered 0 true, .next 0,
        .saved 0 true] = some t ∧
    t.cursor = some 5 ∧ t.loops.map Loop.yielded = [[parseEvent id (sample "a")]] ∧ ¬ Lossless id (fun _ => true) t := by
  refine ⟨_, rfl, rfl, rfl, fun h => ?_⟩
  obtain ⟨loop, hloop, hyielded⟩ := h.covered 5 rfl (sample "b") (List.mem_of_getElem? (i := 1) rfl) rfl (by decide) (by decide)
  obtain rfl := List.mem_singleton.mp hloop
  exact absurd (congrArg ParsedContractEvent.id (List.mem_singleton.mp hyielded)) (by decide)

end Steps

end SplitSdk.LosslessPages
