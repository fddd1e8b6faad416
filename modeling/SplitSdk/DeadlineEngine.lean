import SplitSdk.CalendarTime

namespace SplitSdk.DeadlineEngine

open CivilCalendar UnitLengths

section Model

def msPerHour : Int := 3600 * 1000

def msPerDay : Int := 24 * msPerHour

/-- A time zone whose clocks are a fixed number of whole hours ahead of UTC. -/
structure Zone where
  offset : Int
  behind : -24 < offset
  ahead : offset < 24

structure BusinessHours where
  startHour : Int
  endHour : Int
  days : List Int

structure CountdownOptions where
  timezone : Option Zone := none
  businessHours : Option BusinessHours := none

structure CountdownResult where
  expired : Bool
  display : String
  secondsRemaining : Int
  localDisplay : String

def formatHMS (totalSeconds : Int) (expired : Bool) : String :=
  let s := max 0 totalSeconds
  let h := s / 3600
  let m := s % 3600 / 60
  let sec := s % 60
  if expired then "Expired"
  else if h > 0 then toString h ++ "h " ++ toString m ++ "m " ++ toString sec ++ "s"
  else if m > 0 then toString m ++ "m " ++ toString sec ++ "s"
  else toString sec ++ "s"

structure ZonedParts where
  year : Int
  month : Int
  day : Int
  hour : Int
  minute : Int
  second : Int
  dayOfWeek : Int

/-- What the clocks and calendars of the zone show, at a time within the range of `Date`. Midnight is the hour 0. -/
def getZonedParts (epochMs : Int) (timeZone : Zone) : ZonedParts :=
  let localMs := epochMs + timeZone.offset * msPerHour
  let date := dateOf (localMs / msPerDay)
  { year := date.year
    month := date.month
    day := date.day
    hour := localMs % msPerDay / msPerHour
    minute := localMs % msPerHour / 60000
    second := localMs % 60000 / 1000
    dayOfWeek := weekday (localMs / msPerDay) }

/-- `Date.UTC(year, month - 1, day, hour)`, for the years from 100 on. -/
def dateUTC (year month day hour : Int) : Int := dayOf ⟨year, month, day⟩ * msPerDay + hour * msPerHour

def isBusinessDay (dayOfWeek : Int) (businessDays : List Int) : Bool := businessDays.contains dayOfWeek

def buildEpochMs (tz : Zone) (year month day hour : Int) : Int :=
  let naiveUtc := dateUTC year month day hour
  let actual := getZonedParts naiveUtc tz
  let hourDelta := hour - actual.hour
  naiveUtc + hourDelta * 3600 * 1000

structure Window where
  startMs : Int
  endMs : Int

def businessWindowForDayParts (dayOfWeek : Int) (parts : ZonedParts) (tz : Zone) (bh : BusinessHours) : List Window :=
  if !isBusinessDay dayOfWeek bh.days then []
  else if bh.startHour < bh.endHour then
    [⟨buildEpochMs tz parts.year parts.month parts.day bh.startHour, buildEpochMs tz parts.year parts.month parts.day bh.endHour⟩]
  else
    -- setUTCDate(getUTCDate() + 1)
    let nextDay := dateOf (dayOf ⟨parts.year, parts.month, parts.day + 1⟩)
    [⟨buildEpochMs tz parts.year parts.month parts.day bh.startHour, buildEpochMs tz parts.year parts.month parts.day 24⟩,
      ⟨buildEpochMs tz nextDay.year nextDay.month nextDay.day 0, buildEpochMs tz nextDay.year nextDay.month nextDay.day bh.endHour⟩]

/-- What a window adds to the sum, in milliseconds. -/
def overlapMs (windowStart windowEnd : Int) (w : Window) : Int :=
  let overlapStart := max windowStart w.startMs
  let overlapEnd := min windowEnd w.endMs
  if overlapEnd > overlapStart then overlapEnd - overlapStart else 0

def dayStartMs (tz : Zone) (parts : ZonedParts) : Int := buildEpochMs tz parts.year parts.month parts.day 0

def dayEndMs (tz : Zone) (parts : ZonedParts) : Int := buildEpochMs tz parts.year parts.month parts.day 24

/-- What one turn of the loop adds to the sum. -/
def turnMs (endEpochMs : Int) (tz : Zone) (bh : BusinessHours) (cursorMs : Int) : Int :=
  let parts := getZonedParts cursorMs tz
  let windowStart := max cursorMs (dayStartMs tz parts)
  let windowEnd := min endEpochMs (dayEndMs tz parts)
  if windowEnd > windowStart ∧ isBusinessDay parts.dayOfWeek bh.days then
    ((businessWindowForDayParts parts.dayOfWeek parts tz bh).map (overlapMs windowStart windowEnd)).sum
  else 0

def maxDays : Nat := 370

/-- What the turns that are left add to the sum. -/
def walk (endEpochMs : Int) (tz : Zone) (bh : BusinessHours) : Nat → Int → Int
  | 0, _ => 0
  | turns + 1, cursorMs =>
    if cursorMs ≥ endEpochMs then 0
    else turnMs endEpochMs tz bh cursorMs + walk endEpochMs tz bh turns (dayEndMs tz (getZonedParts cursorMs tz) + 1)

/-- The source divides each part of the sum by 1000. The parts are whole seconds or lack a millisecond, and there are no more than two
a day, so that they lack less than a second together: rounding never takes their sum to another second, and one division does. -/
def sumBusinessSecondsBetween (startEpochMs endEpochMs : Int) (tz : Zone) (bh : BusinessHours) : Int :=
  if endEpochMs ≤ startEpochMs then 0 else max 0 (walk endEpochMs tz bh maxDays startEpochMs / 1000)

/-- `clock` is what `Date.now()` returns and `localTz` the time zone of the runtime. -/
def getCountdown (clock : Int) (localTz : Zone) (deadline : Int) (options : CountdownOptions) : CountdownResult :=
  let nowSeconds := clock / 1000
  let expired := decide (nowSeconds > deadline)
  let tz := options.timezone.getD localTz
  let secondsRemainingRaw := max 0 (deadline - nowSeconds)
  let secondsIn (zone : Zone) : Int := match options.businessHours with
    | some bh => sumBusinessSecondsBetween (nowSeconds * 1000) (deadline * 1000) zone bh
    | none => secondsRemainingRaw
  { expired := expired
    display := formatHMS (secondsIn tz) (expired || decide (secondsRemainingRaw ≤ 0))
    secondsRemaining := secondsIn tz
    localDisplay := formatHMS (secondsIn localTz) (expired || decide (secondsRemainingRaw ≤ 0)) }

end Model

section LocalDays

variable {tz : Zone} {bh : BusinessHours} {n c e : Int}

/-- The first second of a local day. -/
def localStart (tz : Zone) (n : Int) : Int := n * 86400 - tz.offset * 3600

/-- The local day of a second. -/
def localDay (tz : Zone) (s : Int) : Int := (s + tz.offset * 3600) / 86400

/-- The days by which an hour is moved: the hour that the zone shows at the naive time may be one of the day before or after. -/
def wrap (tz : Zone) (hour : Int) : Int := if hour + tz.offset < 0 then -1 else if hour + tz.offset < 24 then 0 else 1

/-- Where the code puts an hour of a local day. -/
def edgeMs (tz : Zone) (n hour : Int) : Int := localStart tz n * 1000 + (hour + 24 * wrap tz hour) * 3600000

def InDay (tz : Zone) (n c : Int) : Prop := localStart tz n * 1000 ≤ c ∧ c < localStart tz (n + 1) * 1000

structure BusinessHours.Legal (bh : BusinessHours) : Prop where
  start : 0 ≤ bh.startHour ∧ bh.startHour ≤ 24
  finish : 0 ≤ bh.endHour ∧ bh.endHour ≤ 24
  ne : bh.startHour ≠ bh.endHour

theorem edgeMs_same {hour : Int} (hlow : 0 ≤ hour + tz.offset) (hhigh : hour + tz.offset < 24) :
    edgeMs tz n hour = (localStart tz n + hour * 3600) * 1000 := by
  rw [edgeMs, wrap, if_neg (not_lt.mpr hlow), if_pos hhigh]
  omega

theorem edgeMs_before {hour : Int} (h : hour + tz.offset < 0) : edgeMs tz n hour = (localStart tz n + (hour - 24) * 3600) * 1000 := by
  rw [edgeMs, wrap, if_pos h]
  omega

theorem edgeMs_after {hour : Int} (h : 24 ≤ hour + tz.offset) : edgeMs tz n hour = (localStart tz n + (hour + 24) * 3600) * 1000 := by
  rw [edgeMs, wrap, if_neg (by omega), if_neg (not_lt.mpr h)]
  omega

theorem localStart_add (tz : Zone) (n k : Int) : localStart tz (n + k) = localStart tz n + k * 86400 := by
  unfold localStart
  omega

theorem localDay_eq_iff (tz : Zone) (s : Int) : localDay tz s = n ↔ localStart tz n ≤ s ∧ s < localStart tz (n + 1) := by
  unfold localDay localStart
  omega

theorem buildEpochMs_date {hour : Int} (hlow : 0 ≤ hour) (hhigh : hour ≤ 24) :
    buildEpochMs tz (dateOf n).year (dateOf n).month (dateOf n).day hour = edgeMs tz n hour := by
  have hday : dayOf ⟨(dateOf n).year, (dateOf n).month, (dateOf n).day⟩ = n := dayOf_dateOf n
  have hbehind := tz.behind
  have hahead := tz.ahead
  simp only [buildEpochMs, getZonedParts, dateUTC, hday, edgeMs, wrap, localStart, msPerDay, msPerHour]
  split_ifs <;> omega

theorem getZonedParts_inDay (hc : InDay tz n c) : (c + tz.offset * msPerHour) / msPerDay = n := by
  unfold InDay localStart at hc
  simp only [msPerDay, msPerHour]
  omega

theorem dayStartMs_inDay (hc : InDay tz n c) : dayStartMs tz (getZonedParts c tz) = edgeMs tz n 0 := by
  simp only [dayStartMs, getZonedParts, getZonedParts_inDay hc]
  exact buildEpochMs_date (by decide) (by decide)

theorem dayEndMs_inDay (hc : InDay tz n c) : dayEndMs tz (getZonedParts c tz) = edgeMs tz n 24 := by
  simp only [dayEndMs, getZonedParts, getZonedParts_inDay hc]
  exact buildEpochMs_date (by decide) (by decide)

theorem overlapMs_eq (a b : Int) (w : Window) : overlapMs a b w = shared a b w.startMs w.endMs := by
  simp only [overlapMs, shared]
  split_ifs <;> omega

/-- What the windows of a business day share with an interval. -/
def windowsMs (tz : Zone) (bh : BusinessHours) (n a b : Int) : Int :=
  if bh.startHour < bh.endHour then shared a b (edgeMs tz n bh.startHour) (edgeMs tz n bh.endHour)
  else shared a b (edgeMs tz n bh.startHour) (edgeMs tz n 24) + shared a b (edgeMs tz (n + 1) 0) (edgeMs tz (n + 1) bh.endHour)

theorem sum_windows (h : bh.Legal) (hbusiness : weekday n ∈ bh.days) (a b : Int) {parts : ZonedParts}
    (hyear : parts.year = (dateOf n).year) (hmonth : parts.month = (dateOf n).month) (hday : parts.day = (dateOf n).day) :
    ((businessWindowForDayParts (weekday n) parts tz bh).map (overlapMs a b)).sum = windowsMs tz bh n a b := by
  have hopen : isBusinessDay (weekday n) bh.days = true := List.contains_iff_mem.mpr hbusiness
  have hnext : dayOf ⟨(dateOf n).year, (dateOf n).month, (dateOf n).day + 1⟩ = n + 1 := by rw [dayOf_next (dateOf n), dayOf_dateOf]
  obtain ⟨hstart, hfinish, -⟩ := h
  rw [businessWindowForDayParts, hopen, hyear, hmonth, hday, hnext, windowsMs]
  simp only [Bool.not_true, Bool.false_eq_true, if_false, buildEpochMs_date hstart.1 hstart.2, buildEpochMs_date hfinish.1 hfinish.2,
    buildEpochMs_date (Int.zero_le_ofNat 24) (Int.le_refl 24), buildEpochMs_date (Int.le_refl 0) (Int.zero_le_ofNat 24)]
  split_ifs <;> simp [overlapMs_eq]

/-- A turn adds what the windows of the day share with the time from the cursor to the end of the turn. -/
theorem turnMs_inDay (h : bh.Legal) (hc : InDay tz n c) :
    turnMs e tz bh c = if weekday n ∈ bh.days then windowsMs tz bh n c (min e (edgeMs tz n 24)) else 0 := by
  have hstart : max c (edgeMs tz n 0) = c := by
    have hbehind := tz.behind
    have hahead := tz.ahead
    unfold InDay localStart at hc
    unfold edgeMs wrap localStart
    split_ifs <;> omega
  have hopen : isBusinessDay (weekday n) bh.days = true ↔ weekday n ∈ bh.days := List.contains_iff_mem
  have hparts := getZonedParts_inDay hc
  simp only [turnMs, dayStartMs_inDay hc, dayEndMs_inDay hc, hstart]
  simp only [getZonedParts, hparts, hopen]
  by_cases hbusiness : weekday n ∈ bh.days
  · rw [if_pos hbusiness]
    split_ifs with hguard
    · exact sum_windows h hbusiness _ _ rfl rfl rfl
    · have hempty : min e (edgeMs tz n 24) ≤ c := not_lt.mp (fun hlt => hguard ⟨hlt, hbusiness⟩)
      simp only [windowsMs, shared]
      split_ifs <;> omega
  · rw [if_neg hbusiness, if_neg (fun hguard => hbusiness hguard.2)]

theorem walk_of_ge (turns : Nat) (h : e ≤ c) : walk e tz bh turns c = 0 := by
  cases turns with
  | zero => rfl
  | succ turns => exact if_pos h

theorem walk_succ (turns : Nat) (hc : InDay tz n c) (hlt : c < e) :
    walk e tz bh (turns + 1) c = turnMs e tz bh c + walk e tz bh turns (edgeMs tz n 24 + 1) := by
  rw [walk, if_neg (not_le.mpr hlt), dayEndMs_inDay hc]

end LocalDays

/-- The window of a day ends no later than the day. -/
def BusinessHours.SameDay (bh : BusinessHours) : Prop := bh.startHour < bh.endHour ∨ bh.endHour = 0

/-- The hour at which such a window ends, counted from its own day. -/
def BusinessHours.lastHour (bh : BusinessHours) : Int := if bh.endHour = 0 then 24 else bh.endHour

section Windows

variable {tz : Zone} {bh : BusinessHours} {n : Int}

/-- The second window of a day is empty, or there is none. -/
theorem windowsMs_sameDay (h : bh.Legal) (hsame : bh.SameDay) (a b : Int) :
    windowsMs tz bh n a b = shared a b (edgeMs tz n bh.startHour) (edgeMs tz n bh.lastHour) := by
  have hstart := h.start.1
  unfold BusinessHours.lastHour windowsMs
  rcases hsame with hlt | hzero
  · rw [if_pos hlt, if_neg (by omega)]
  · rw [if_neg (by omega), if_pos hzero, hzero]
    unfold shared
    omega

theorem windowsMs_overnight (hover : bh.endHour < bh.startHour) (a b : Int) :
    windowsMs tz bh n a b = shared a b (edgeMs tz n bh.startHour) (edgeMs tz n 24) +
      shared a b (edgeMs tz (n + 1) 0) (edgeMs tz (n + 1) bh.endHour) := if_neg (not_lt.mpr hover.le)

theorem lastHour_bounds (h : bh.Legal) (hsame : bh.SameDay) : bh.startHour ≤ bh.lastHour ∧ bh.lastHour ≤ 24 := by
  obtain ⟨hstart, hfinish, -⟩ := h
  unfold BusinessHours.SameDay at hsame
  unfold BusinessHours.lastHour
  split_ifs <;> omega

/-- Where clocks are behind UTC, a turn ends with the day. -/
theorem dayEnd_behind (h : tz.offset < 0) : edgeMs tz n 24 = localStart tz (n + 1) * 1000 := by
  have hwest := tz.behind
  unfold edgeMs wrap localStart
  split_ifs <;> omega

/-- Elsewhere it ends a day later. -/
theorem dayEnd_ahead (h : 0 ≤ tz.offset) : edgeMs tz n 24 = localStart tz (n + 2) * 1000 := by
  have heast := tz.ahead
  unfold edgeMs wrap localStart
  split_ifs <;> omega

theorem dayEnd_le (tz : Zone) (n : Int) : localStart tz (n + 1) * 1000 ≤ edgeMs tz n 24 := by
  rcases lt_or_ge tz.offset 0 with hbehind | hahead
  · exact (dayEnd_behind hbehind).ge
  · rw [dayEnd_ahead hahead]
    unfold localStart
    omega

end Windows

section Turns

variable {tz : Zone} {bh : BusinessHours} {n m a b : Int}

theorem windowsMs_nonneg (tz : Zone) (bh : BusinessHours) (n a b : Int) : 0 ≤ windowsMs tz bh n a b := by
  unfold windowsMs shared
  split_ifs <;> omega

theorem turnMs_nonneg (h : bh.Legal) {c e : Int} (hc : InDay tz n c) : 0 ≤ turnMs e tz bh c := by
  rw [turnMs_inDay h hc]
  split_ifs
  · exact windowsMs_nonneg _ _ _ _ _
  · exact Int.le_refl 0

/-- A deadline before the end of the first turn. -/
theorem sum_oneTurn (h : bh.Legal) (ha : localStart tz n ≤ a ∧ a < localStart tz (n + 1)) (hab : a < b) (hb : b * 1000 ≤ edgeMs tz n 24) :
    sumBusinessSecondsBetween (a * 1000) (b * 1000) tz bh =
      (if weekday n ∈ bh.days then windowsMs tz bh n (a * 1000) (b * 1000) else 0) / 1000 := by
  have hin : InDay tz n (a * 1000) := ⟨by omega, by omega⟩
  have hnonneg := turnMs_nonneg (e := b * 1000) h hin
  rw [sumBusinessSecondsBetween, if_neg (by omega), maxDays, walk_succ 369 hin (by omega), walk_of_ge 369 (by omega), Int.add_zero]
  rw [turnMs_inDay h hin, min_eq_left hb] at hnonneg ⊢
  exact max_eq_right (Int.ediv_nonneg hnonneg (by decide))

/-- A deadline in the second turn, which starts a millisecond late. -/
theorem sum_twoTurns (h : bh.Legal) (ha : localStart tz n ≤ a ∧ a < localStart tz (n + 1)) (hm : edgeMs tz n 24 = localStart tz m * 1000)
    (hlow : localStart tz m < b) (hhigh : b * 1000 ≤ edgeMs tz m 24) (ham : a < localStart tz m) :
    sumBusinessSecondsBetween (a * 1000) (b * 1000) tz bh =
      ((if weekday n ∈ bh.days then windowsMs tz bh n (a * 1000) (localStart tz m * 1000) else 0) +
        if weekday m ∈ bh.days then windowsMs tz bh m (localStart tz m * 1000 + 1) (b * 1000) else 0) / 1000 := by
  have hfirst : InDay tz n (a * 1000) := ⟨by omega, by omega⟩
  have hsecond : InDay tz m (localStart tz m * 1000 + 1) := by unfold InDay localStart; omega
  have hnonneg := Int.add_nonneg (turnMs_nonneg (e := b * 1000) h hfirst) (turnMs_nonneg (e := b * 1000) h hsecond)
  rw [sumBusinessSecondsBetween, if_neg (by omega), maxDays, walk_succ 369 hfirst (by omega), hm, walk_succ 368 hsecond (by omega),
    walk_of_ge 368 (by omega), Int.add_zero]
  rw [turnMs_inDay h hfirst, turnMs_inDay h hsecond, hm, min_eq_right (by omega), min_eq_left hhigh] at hnonneg ⊢
  exact max_eq_right (Int.ediv_nonneg hnonneg (by decide))

end Turns

end SplitSdk.DeadlineEngine
