import SplitSdk.BigIntText
import SplitSdk.Interleaving

namespace SplitSdk.OfferTracker

section Data

inductive OfferStatus
  | active
  | filled
  | stale
  deriving DecidableEq

structure OfferRecord where
  offerId : String
  selling : String
  buying : String
  price : String
  amount : String
  status : OfferStatus
  createdAt : Int
  deriving DecidableEq

inductive OfferTrackerEvent
  | offerFilled (record : OfferRecord)
  | offerPartiallyFilled (record : OfferRecord)
  | offerCancelled (offerId account : String)
  | error (message : String)
  deriving DecidableEq

structure OfferTrackingError where
  message : String
  deriving DecidableEq

structure ManageSellOffer where
  selling : String
  buying : String
  amount : String
  price : String
  offerId : String
  deriving DecidableEq

/-- A poll that waits for the listing: the place of the offer in the map, its id and where its record stands. -/
structure Fetch where
  place : Nat
  offerId : String
  ref : Nat
  deriving DecidableEq

/-- The tracker with all records that were handed to it. The map holds where the record of an id stands; a slot whose entry was deleted
is `none` and is not used again. -/
structure Tracker where
  staleThresholdMs : Int := 300000
  running : Bool := false
  pollTimer : Bool := false
  records : List OfferRecord := []
  trackedOffers : List (Option (String × Nat)) := []
  polls : List (Option Fetch) := []
  emitted : List OfferTrackerEvent := []

end Data

section Slots

variable (slots : List (Option (String × Nat)))

def holds (offerId : String) (slot : Option (String × Nat)) : Bool := slot.any (fun entry => entry.1 = offerId)

def get (offerId : String) : Option Nat := (slots.find? (holds offerId)).join.map Prod.snd

/-- A key that is there keeps its slot. -/
def set (offerId : String) (ref : Nat) : List (Option (String × Nat)) :=
  if (get slots offerId).isSome then slots.map (fun slot => if holds offerId slot then some (offerId, ref) else slot)
  else slots ++ [some (offerId, ref)]

def delete (offerId : String) : List (Option (String × Nat)) :=
  slots.map (fun slot => if holds offerId slot then none else slot)

/-- The next entry of an iterator. -/
def nextFrom (place : Nat) : Option Fetch :=
  (slots.zipIdx.drop place).findSome? (fun slot => slot.1.map (fun entry => ⟨slot.2, entry.1, entry.2⟩))

end Slots

section Operations

namespace Tracker

variable (t : Tracker)

def track (record : OfferRecord) : Tracker :=
  { t with records := t.records ++ [record], trackedOffers := set t.trackedOffers record.offerId t.records.length }

def untrack (offerId : String) : Tracker := { t with trackedOffers := delete t.trackedOffers offerId }

def emit (event : OfferTrackerEvent) : Tracker := { t with emitted := t.emitted ++ [event] }

def update (ref : Nat) (record : OfferRecord) : Tracker := { t with records := t.records.set ref record }

/-- The part of `poll` before it first waits. -/
def poll : Tracker :=
  if !t.running then t
  else match nextFrom t.trackedOffers 0 with
    | none => t
    | some fetch => { t with polls := t.polls ++ [some fetch] }

def start : Tracker :=
  if t.running then t else { { t with running := true }.poll with pollTimer := true }

def stop : Tracker := { t with running := false, pollTimer := false }

/-- The part of `cancelOffer` before it first waits: the operation that is going to be submitted. -/
def cancelOffer (offerId : String) : Except OfferTrackingError ManageSellOffer :=
  match (get t.trackedOffers offerId).bind (fun ref => t.records[ref]?) with
  | none => .error ⟨s!"Offer {offerId} is not tracked"⟩
  | some record => .ok ⟨record.selling, record.buying, "0", record.price, offerId⟩

def markStale (fetch : Fetch) (record : OfferRecord) (now : Int) : Tracker :=
  if now - record.createdAt > t.staleThresholdMs then
    { t.update fetch.ref { record with status := .stale } with trackedOffers := set t.trackedOffers fetch.offerId fetch.ref }
  else t

end Tracker

/-- What one round of the loop over the offers did, up to its `catch`. -/
structure Checked where
  tracker : Tracker
  emitted : Option OfferTrackerEvent
  threw : Bool

/-- The body of the loop. A listener of the event that is emitted may throw. -/
def check (t : Tracker) (fetch : Fetch) (record : OfferRecord) (fresh : Option String) (now : Int) (throws : Bool) : Checked :=
  match fresh with
  | none =>
      let record := { record with status := .filled }
      let t := (t.update fetch.ref record).emit (.offerFilled record)
      ⟨if throws then t else t.untrack fetch.offerId, some (.offerFilled record), throws⟩
  | some amount =>
      match BigIntText.ofString record.amount, BigIntText.ofString amount with
      | some prevAmount, some newAmount =>
          if newAmount < prevAmount ∧ newAmount > 0 then
            let record := { record with amount }
            let t := (t.update fetch.ref record).emit (.offerPartiallyFilled record)
            ⟨if throws then t else t.markStale fetch record now, some (.offerPartiallyFilled record), throws⟩
          else if newAmount = 0 then
            let record := { record with status := .filled }
            let t := (t.update fetch.ref record).emit (.offerFilled record)
            ⟨if throws then t else (t.untrack fetch.offerId).markStale fetch record now, some (.offerFilled record), throws⟩
          else ⟨t.markStale fetch record now, none, false⟩
      | _, _ => ⟨t, none, true⟩

/-- The rest of the poll up to its next request: an error is emitted, and the loop goes on unless a listener of that throws. -/
def goOn (checked : Checked) (p : Nat) (fetch : Fetch) (errorThrows : Bool) : Tracker :=
  let offerId := fetch.offerId
  let t := if checked.threw then checked.tracker.emit (.error s!"Poll error for offer {offerId}") else checked.tracker
  if checked.threw && errorThrows then { t with polls := t.polls.set p none }
  else { t with polls := t.polls.set p (nextFrom t.trackedOffers (fetch.place + 1)) }

end Operations

section Ledger

/-- The text of an amount with its seven decimals. -/
def amountText (stroops : Nat) : String :=
  String.ofList (Nat.toDigits 10 (stroops / 10000000) ++ '.' :: (Nat.toDigits 10 (stroops % 10000000)).leftpad 7 '0')

/-- The offers on the ledger with their amounts, the newest first. -/
abbrev Book := List (String × Nat)

def limit : Nat := 200

/-- The amount of an offer in the listing, which holds the newest offers; nothing is in one whose request failed. -/
def listed (book : Book) (failed : Bool) (offerId : String) : Option Nat :=
  if failed then none else (book.take limit).lookup offerId

def fetchOffer (book : Book) (failed : Bool) (offerId : String) : Option String :=
  (listed book failed offerId).map amountText

/-- A call of `cancelOffer` that has not returned. -/
structure Cancel where
  operation : ManageSellOffer
  account : String
  applied : Bool := false
  deriving DecidableEq

/-- What a listing showed of a record and whether a decrease was emitted, and where a fill was emitted what the ledger held of the offer
and whether it had been cancelled. -/
inductive Outcome
  | seen (ref amount : Nat) (reported : Bool)
  | filled (ref : Nat) (onLedger : Option Nat) (cancelled : Bool)
  deriving DecidableEq

/-- The tracker and the ledger. The outcomes are kept with the newest first. -/
structure Market where
  tracker : Tracker
  book : Book
  issued : List String
  cancelled : List String := []
  cancels : List (Option Cancel) := []
  log : List Outcome := []

inductive Event
  | start
  | stop
  | tick
  | pollNow
  | track (record : OfferRecord)
  | untrack (offerId : String)
  | cancelOffer (offerId account : String)
  | cancelApplied (c : Nat)
  | cancelAnswered (c : Nat) (success : Bool)
  | answered (p : Nat) (failed : Bool) (now : Int) (throws errorThrows : Bool)
  | placed (offerId : String) (amount : Nat)
  | amended (offerId : String) (amount : Nat)
  | removed (offerId : String)
  deriving DecidableEq

def reports : Option OfferTrackerEvent → Bool
  | some (.offerPartiallyFilled _) => true
  | _ => false

def fills : Option OfferTrackerEvent → Bool
  | some (.offerFilled _) => true
  | _ => false

/-- The outcomes of one answer. -/
def outcomes (m : Market) (fetch : Fetch) (failed : Bool) (checked : Checked) : List Outcome :=
  (if fills checked.emitted then
    [.filled fetch.ref (m.book.lookup fetch.offerId) (fetch.offerId ∈ m.cancelled)] else []) ++
  ((listed m.book failed fetch.offerId).map (fun amount => Outcome.seen fetch.ref amount (reports checked.emitted))).toList

/-- A poll that waits, with the record that it looks at. -/
def Market.fetching (m : Market) (p : Nat) : Option (Fetch × OfferRecord) :=
  m.tracker.polls[p]?.join.bind (fun fetch => m.tracker.records[fetch.ref]?.map (fun record => (fetch, record)))

/-- The listing shows the ledger as it is when the request is answered. -/
def step (m : Market) : Event → Option Market
  | .start => some { m with tracker := m.tracker.start }
  | .stop => some { m with tracker := m.tracker.stop }
  | .tick => if m.tracker.pollTimer then some { m with tracker := m.tracker.poll } else none
  | .pollNow => some { m with tracker := m.tracker.poll }
  | .track record => some { m with tracker := m.tracker.track record }
  | .untrack offerId => some { m with tracker := m.tracker.untrack offerId }
  | .cancelOffer offerId account =>
      match m.tracker.cancelOffer offerId with
      | .error _ => some m
      | .ok operation => some { m with cancels := m.cancels ++ [some ⟨operation, account, false⟩] }
  | .cancelApplied c =>
      match m.cancels[c]?.join with
      | none => none
      | some cancel =>
          let offerId := cancel.operation.offerId
          if cancel.applied ∨ (m.book.lookup offerId).isNone then none
          else some { m with
            book := m.book.filter (fun offer => offer.1 ≠ offerId)
            cancelled := offerId :: m.cancelled
            cancels := m.cancels.set c (some { cancel with applied := true }) }
  | .cancelAnswered c success =>
      match m.cancels[c]?.join with
      | none => none
      | some cancel =>
          let offerId := cancel.operation.offerId
          if success then
            if cancel.applied then some { m with
              tracker := (m.tracker.untrack offerId).emit (.offerCancelled offerId cancel.account)
              cancels := m.cancels.set c none }
            else none
          else some { m with cancels := m.cancels.set c none }
  | .answered p failed now throws errorThrows =>
      (m.fetching p).map (fun (fetch, record) =>
        let checked := check m.tracker fetch record (fetchOffer m.book failed fetch.offerId) now throws
        { m with
          tracker := goOn checked p fetch errorThrows
          log := outcomes m fetch failed checked ++ m.log })
  | .placed offerId amount =>
      if offerId ∈ m.issued then none
      else some { m with book := (offerId, amount) :: m.book, issued := offerId :: m.issued }
  | .amended offerId amount =>
      some { m with book := m.book.map (fun offer => if offer.1 = offerId then (offerId, amount) else offer) }
  | .removed offerId => some { m with book := m.book.filter (fun offer => offer.1 ≠ offerId) }

def opened (staleThresholdMs : Int) (book : Book) : Market where
  tracker := { staleThresholdMs }
  book := book
  issued := book.map Prod.fst

end Ledger

end SplitSdk.OfferTracker

namespace SplitSdk.OfferFills

open BigIntText Interleaving Numbers OfferTracker

section Amounts

theorem mem_dropWhile {p : Char → Bool} {c : Char} {cs : List Char} (hc : p c = false) (h : c ∈ cs) : c ∈ cs.dropWhile p := by
  induction cs with
  | nil => cases h
  | cons d cs ih =>
      rw [List.dropWhile_cons]
      split_ifs with hd
      · rcases List.mem_cons.mp h with rfl | h
        · exact absurd hd (by simp [hc])
        · exact ih h
      · exact h

theorem mem_trim {c : Char} {cs : List Char} (hc : isSpace c = false) (h : c ∈ cs) : c ∈ trim cs := by
  unfold trim List.rdropWhile
  rw [List.mem_reverse]
  exact mem_dropWhile hc (List.mem_reverse.mpr (mem_dropWhile hc h))

theorem readDigits_of_dot {cs : List Char} (h : '.' ∈ cs) : readDigits cs = none := by
  unfold readDigits
  refine if_neg (fun hall => ?_)
  exact absurd (List.all_eq_true.mp hall.2 '.' h) (by decide)

theorem readRadixInt_of_dot {base : Nat} {cs : List Char} (h : '.' ∈ cs) : readRadixInt base cs = none := by
  have hnone : cs.mapM (digitIn base) = none := by
    induction cs with
    | nil => cases h
    | cons c cs ih =>
        rw [List.mapM_cons]
        rcases List.mem_cons.mp h with rfl | h
        · rfl
        · rw [ih h]
          cases digitIn base c <;> rfl
  rw [readRadixInt, hnone]

/-- A text with a decimal point is no bigint. -/
theorem readBigInt_of_dot {cs : List Char} (h : '.' ∈ cs) : readBigInt cs = none := by
  unfold readBigInt
  split
  · cases h
  all_goals
    first
    | exact readRadixInt_of_dot (by simpa using h)
    | (rw [readDigits_of_dot (by simpa using h)]; rfl)

theorem ofString_amountText (stroops : Nat) : BigIntText.ofString (amountText stroops) = none := by
  refine readBigInt_of_dot (mem_trim (by decide) ?_)
  simp [amountText]

end Amounts

section Events

/-- The amount that the last listing with the offer showed of a record. -/
def lastSeen (ref : Nat) (log : List Outcome) : Option Nat :=
  log.findSome? (fun outcome => match outcome with
    | .seen other amount _ => if other = ref then some amount else none
    | .filled _ _ _ => none)

/-- What a listing shows of an open offer is reported where it is less than the last time. -/
def Reported : List Outcome → Prop
  | [] => True
  | .seen ref amount reported :: older =>
      (∀ previous, lastSeen ref older = some previous → 0 < amount → amount < previous → reported = true) ∧ Reported older
  | .filled _ _ _ :: older => Reported older

def filledRef : Outcome → Option Nat
  | .filled ref _ _ => some ref
  | .seen _ _ _ => none

/-- A fill is emitted only of an offer that is off the ledger or used up and was not cancelled, once for each tracked record, and every
decrease of an open offer is reported. -/
structure Real (log : List Outcome) : Prop where
  gone : ∀ ref onLedger cancelled, .filled ref onLedger cancelled ∈ log → onLedger = none ∨ onLedger = some 0
  kept : ∀ ref onLedger cancelled, .filled ref onLedger cancelled ∈ log → cancelled = false
  once : (log.filterMap filledRef).Nodup
  reported : Reported log

/-- An answer without the offer comes only when the offer is off the ledger or used up, was not cancelled, and no fill of the record was
emitted; one with the offer shows no less of it than the last one. -/
def InTime (m : Market) : Event → Prop
  | .answered p failed _ _ _ => ∀ fetch record, m.fetching p = some (fetch, record) →
      match listed m.book failed fetch.offerId with
      | none => (m.book.lookup fetch.offerId = none ∨ m.book.lookup fetch.offerId = some 0) ∧ fetch.offerId ∉ m.cancelled ∧
          fetch.ref ∉ m.log.filterMap filledRef
      | some amount => ∀ previous, lastSeen fetch.ref m.log = some previous → 0 < amount → previous ≤ amount
  | _ => True

variable {m m' : Market} {e : Event}

/-- An offer that is listed is never reported: its amount is no bigint. -/
theorem outcomes_of_listed {t : Tracker} {fetch : Fetch} {record : OfferRecord} {failed throws : Bool} {now : Int} {amount : Nat}
    (h : listed m.book failed fetch.offerId = some amount) :
    outcomes m fetch failed (check t fetch record (fetchOffer m.book failed fetch.offerId) now throws) =
      [.seen fetch.ref amount false] := by
  have hemitted : (check t fetch record (fetchOffer m.book failed fetch.offerId) now throws).emitted = none := by
    rw [fetchOffer, h, Option.map_some, check, ofString_amountText]
    cases BigIntText.ofString record.amount <;> rfl
  rw [outcomes, hemitted, h]
  rfl

/-- A fill is emitted of every offer that is not listed. -/
theorem outcomes_of_absent {t : Tracker} {fetch : Fetch} {record : OfferRecord} {failed throws : Bool} {now : Int}
    (h : listed m.book failed fetch.offerId = none) :
    outcomes m fetch failed (check t fetch record (fetchOffer m.book failed fetch.offerId) now throws) =
      [.filled fetch.ref (m.book.lookup fetch.offerId) (fetch.offerId ∈ m.cancelled)] := by
  rw [outcomes, fetchOffer, h]
  rfl

theorem log_of_step (h : step m e = some m') (hanswered : ∀ p failed now throws errorThrows,
    e ≠ .answered p failed now throws errorThrows) : m'.log = m.log := by
  cases e with
  | answered p failed now throws errorThrows => exact absurd rfl (hanswered p failed now throws errorThrows)
  | start | stop | pollNow | track | untrack | amended | removed =>
      cases h
      rfl
  | tick | placed =>
      dsimp only [step] at h
      split_ifs at h
      cases h
      rfl
  | cancelOffer offerId account =>
      dsimp only [step] at h
      split at h <;> (cases h; rfl)
  | cancelApplied c =>
      dsimp only [step] at h
      split at h
      · cases h
      · split_ifs at h
        cases h
        rfl
  | cancelAnswered c success =>
      dsimp only [step] at h
      split at h
      · cases h
      · split_ifs at h
        all_goals
          cases h
          rfl

theorem real_seen_iff {log : List Outcome} {ref amount : Nat} (h : Real log) : Real (.seen ref amount false :: log) ↔
    ∀ previous, lastSeen ref log = some previous → 0 < amount → previous ≤ amount := by
  constructor
  · intro hreal previous hlast hpos
    exact Nat.le_of_not_lt (fun hlt => nomatch hreal.reported.1 previous hlast hpos hlt)
  · intro hgrown
    refine ⟨?_, ?_, h.once, ?_, h.reported⟩
    · rintro other onLedger cancelled (_ | ⟨_, hmem⟩)
      exact h.gone other onLedger cancelled hmem
    · rintro other onLedger cancelled (_ | ⟨_, hmem⟩)
      exact h.kept other onLedger cancelled hmem
    · exact fun previous hlast hpos hlt => absurd (hgrown previous hlast hpos) (Nat.not_le.mpr hlt)

theorem real_filled_iff {log : List Outcome} {ref : Nat} {onLedger : Option Nat} {cancelled : Bool} (h : Real log) :
    Real (.filled ref onLedger cancelled :: log) ↔
      (onLedger = none ∨ onLedger = some 0) ∧ cancelled = false ∧ ref ∉ log.filterMap filledRef := by
  have hrefs : (Outcome.filled ref onLedger cancelled :: log).filterMap filledRef = ref :: log.filterMap filledRef := rfl
  constructor
  · intro hreal
    have honce := hreal.once
    rw [hrefs] at honce
    exact ⟨hreal.gone _ _ _ List.mem_cons_self, hreal.kept _ _ _ List.mem_cons_self, (List.nodup_cons.mp honce).1⟩
  · rintro ⟨hgone, hkept, honce⟩
    refine ⟨?_, ?_, ?_, h.reported⟩
    · rintro other onLedger' cancelled' (_ | ⟨_, hmem⟩)
      · exact hgone
      · exact h.gone other onLedger' cancelled' hmem
    · rintro other onLedger' cancelled' (_ | ⟨_, hmem⟩)
      · exact hkept
      · exact h.kept other onLedger' cancelled' hmem
    · rw [hrefs]
      exact List.nodup_cons.mpr ⟨honce, h.once⟩

/-- One step: the events stay real exactly if it is in time. -/
theorem step_iff (hm : Real m.log) (h : step m e = some m') : Real m'.log ↔ InTime m e := by
  cases e with
  | answered p failed now throws errorThrows =>
      obtain ⟨⟨fetch, record⟩, hfetching, rfl⟩ := Option.map_eq_some_iff.mp h
      have hunique : InTime m (.answered p failed now throws errorThrows) ↔
          match listed m.book failed fetch.offerId with
          | none => (m.book.lookup fetch.offerId = none ∨ m.book.lookup fetch.offerId = some 0) ∧
              fetch.offerId ∉ m.cancelled ∧ fetch.ref ∉ m.log.filterMap filledRef
          | some amount => ∀ previous, lastSeen fetch.ref m.log = some previous → 0 < amount → previous ≤ amount := by
        constructor
        · exact fun htime => htime fetch record hfetching
        · intro hmatch fetch' record' hfetching'
          obtain ⟨rfl, rfl⟩ := Prod.mk.inj (Option.some.inj (hfetching.symm.trans hfetching'))
          exact hmatch
      rw [hunique]
      cases hlisted : listed m.book failed fetch.offerId with
      | none =>
          dsimp only
          rw [outcomes_of_absent hlisted, List.singleton_append, real_filled_iff hm, decide_eq_false_iff_not]
      | some amount =>
          dsimp only
          rw [outcomes_of_listed hlisted, List.singleton_append, real_seen_iff hm]
  | _ =>
      rw [log_of_step h nofun]
      exact iff_of_true hm trivial

theorem inTime_of_none (h : step m e = none) : InTime m e := by
  cases e with
  | answered p failed now throws errorThrows =>
      intro fetch record hfetching
      dsimp only [step] at h
      rw [hfetching] at h
      cases h
  | _ => trivial

theorem opened_real (staleThresholdMs : Int) (book : Book) : Real (opened staleThresholdMs book).log where
  gone := fun _ _ _ hmem => absurd hmem List.not_mem_nil
  kept := fun _ _ _ hmem => absurd hmem List.not_mem_nil
  once := List.nodup_nil
  reported := trivial

/-- All events of a run are real in every state of it exactly if every answer comes in time. -/
theorem fills_real_iff (staleThresholdMs : Int) (book : Book) (es : List Event) :
    Allowed step (fun m e => ∀ m', step m e = some m' → Real m'.log) (opened staleThresholdMs book) es ↔
      Allowed step InTime (opened staleThresholdMs book) es := by
  refine allowed_iff (I := fun m => Real m.log) (fun m e m' _ hok h => hok m' h) ?_ (opened_real staleThresholdMs book) es
  intro m e hm
  rcases Option.eq_none_or_eq_some (step m e) with h | ⟨m', h⟩
  · refine iff_of_true (fun m' hm' => ?_) (inTime_of_none h)
    rw [h] at hm'
    cases hm'
  · rw [forall_next_iff h, step_iff hm h]

def offer : OfferRecord := ⟨"7", "native", "USDC", "1", "12.3450000", .active, 0⟩

/-- A failed request makes an offer that is still open look filled. -/
theorem failed_request_fills : ∃ m m', run step (opened 300000 [("7", 123450000)]) [.track offer, .start] = some m ∧
    step m (.answered 0 true 1000 false false) = some m' ∧ Real m.log ∧
      m'.book.lookup "7" = some 123450000 ∧ m'.tracker.emitted = [.offerFilled { offer with status := .filled }] ∧
        ¬ Real m'.log := by
  refine ⟨_, _, rfl, rfl, opened_real 300000 [("7", 123450000)], rfl, rfl, fun hreal => ?_⟩
  exact absurd (hreal.gone 0 (some 123450000) false List.mem_cons_self) (by simp)

end Events

end SplitSdk.OfferFills
