import SplitSdk.DeadlineEngine

namespace SplitSdk.DeadlineEngine

open CivilCalendar UnitLengths

section Opening

variable {tz : Zone} {bh : BusinessHours} {n s : Int}

def openingSecond (tz : Zone) (bh : BusinessHours) (n : Int) : Int := localStart tz n + bh.startHour * 3600

/-- A window that ends before it starts ends on the next day. -/
def closingSecond (tz : Zone) (bh : BusinessHours) (n : Int) : Int :=
  localStart tz n + (if bh.endHour < bh.startHour then bh.endHour + 24 else bh.endHour) * 3600

/-- The window of some business day covers the second from `s` on. -/
def Open (tz : Zone) (bh : BusinessHours) (s : Int) : Prop :=
  ∃ n, weekday n ∈ bh.days ∧ openingSecond tz bh n ≤ s ∧ s < closingSecond tz bh n

/-- The business hours, as a set of times. -/
def businessHours (tz : Zone) (bh : BusinessHours) : Set ℝ :=
  ⋃ n ∈ {n | weekday n ∈ bh.days}, Set.Ico (openingSecond tz bh n : ℝ) (closingSecond tz bh n)

/-- The length of the part of an interval that is covered by business hours, in seconds. -/
noncomputable def businessTime (tz : Zone) (bh : BusinessHours) (now deadline : Int) : ℝ :=
  (MeasureTheory.volume (Set.Icc (now : ℝ) deadline ∩ businessHours tz bh)).toReal

/-- Windows have whole seconds as their ends, so their length is the number of the seconds that they cover. -/
theorem businessTime_eq (tz : Zone) (bh : BusinessHours) (now deadline : Int) : businessTime tz bh now deadline = units (Open tz bh) now deadline := by
  have hfloor : businessHours tz bh = {x | Open tz bh ⌊x⌋} := by
    ext x
    simp only [businessHours, Open, Set.mem_iUnion, Set.mem_ofPred_eq, Set.mem_Ico, exists_prop, Int.le_floor, Int.floor_lt]
  rw [businessTime, hfloor, volume_covered]

/-- A second belongs to the window of its own day, or to what the window of the day before has after midnight. -/
theorem open_iff (h : bh.Legal) (hs : localStart tz n ≤ s ∧ s < localStart tz (n + 1)) :
    Open tz bh s ↔ weekday n ∈ bh.days ∧ openingSecond tz bh n ≤ s ∧ s < closingSecond tz bh n ∨
      weekday (n - 1) ∈ bh.days ∧ s < closingSecond tz bh (n - 1) := by
  obtain ⟨hstart, hfinish, -⟩ := h
  unfold localStart at hs
  constructor
  · rintro ⟨m, hday, hopening, hclosing⟩
    rcases eq_or_ne m n with rfl | hne
    · exact .inl ⟨hday, hopening, hclosing⟩
    · have hbefore : m = n - 1 := by
        unfold openingSecond localStart at hopening
        unfold closingSecond localStart at hclosing
        split_ifs at hclosing <;> omega
      exact .inr ⟨hbefore ▸ hday, hbefore ▸ hclosing⟩
  · rintro (⟨hday, hopening, hclosing⟩ | ⟨hday, hclosing⟩)
    · exact ⟨n, hday, hopening, hclosing⟩
    · refine ⟨n - 1, hday, ?_, hclosing⟩
      unfold openingSecond localStart
      omega

end Opening

section Exactness

variable {tz : Zone} {bh : BusinessHours} {n s deadline : Int}

theorem closingSecond_sameDay (h : bh.Legal) (hsame : bh.SameDay) : closingSecond tz bh n = localStart tz n + bh.lastHour * 3600 := by
  obtain ⟨hstart, hfinish, hne⟩ := h
  unfold BusinessHours.SameDay at hsame
  unfold closingSecond BusinessHours.lastHour
  split_ifs <;> omega

theorem open_sameDay (h : bh.Legal) (hsame : bh.SameDay) (hs : localStart tz n ≤ s ∧ s < localStart tz (n + 1)) :
    Open tz bh s ↔ weekday n ∈ bh.days ∧ openingSecond tz bh n ≤ s ∧ s < closingSecond tz bh n := by
  rw [open_iff h hs, or_iff_left]
  rintro ⟨-, hclosing⟩
  have hlast := lastHour_bounds h hsame
  rw [closingSecond_sameDay h hsame] at hclosing
  unfold localStart at hs hclosing
  omega

/-- The code puts the hours of the window where the zone has them. -/
def Placed (tz : Zone) (bh : BusinessHours) : Prop := tz.offset < 0 ∧ -tz.offset ≤ bh.startHour ∧ bh.SameDay

theorem windowsMs_placed (h : bh.Legal) (hplaced : Placed tz bh) (b c : Int) :
    windowsMs tz bh n c b = shared c b (openingSecond tz bh n * 1000) (closingSecond tz bh n * 1000) := by
  obtain ⟨hbehind, hafter, hsame⟩ := hplaced
  have hlast := lastHour_bounds h hsame
  have hwest := tz.behind
  rw [windowsMs_sameDay h hsame, closingSecond_sameDay h hsame, edgeMs_same (by omega) (by omega), edgeMs_same (by omega) (by omega)]
  rfl

theorem units_sameDay (h : bh.Legal) (hsame : bh.SameDay) {a b : Int} (ha : localStart tz n ≤ a) (hb : b ≤ localStart tz (n + 1)) :
    units (Open tz bh) a b = if weekday n ∈ bh.days then shared a b (openingSecond tz bh n) (closingSecond tz bh n) else 0 := by
  have hday (s : Int) (hlow : a ≤ s) (hhigh : s < b) := open_sameDay (n := n) h hsame ⟨Int.le_trans ha hlow, Int.lt_of_lt_of_le hhigh hb⟩
  split_ifs with hbusiness
  · exact units_eq (fun s hlow hhigh => (hday s hlow hhigh).trans (and_iff_right hbusiness))
  · exact units_none (fun s hlow hhigh hopen => hbusiness ((hday s hlow hhigh).mp hopen).1)

/-- A turn of the loop adds the business hours of the rest of the day. -/
theorem turnMs_placed (h : bh.Legal) (hplaced : Placed tz bh) (hs : localStart tz n ≤ s ∧ s < localStart tz (n + 1)) :
    turnMs (deadline * 1000) tz bh (s * 1000) = units (Open tz bh) s (min deadline (localStart tz (n + 1))) * 1000 := by
  have hin : InDay tz n (s * 1000) := ⟨by omega, by omega⟩
  rw [turnMs_inDay h hin, dayEnd_behind hplaced.1, units_sameDay h hplaced.2.2 hs.1 (min_le_right _ _)]
  split_ifs
  · rw [windowsMs_placed h hplaced]
    unfold shared
    omega
  · rfl

/-- The millisecond that the cursor skips is never a business hour, as no window starts at midnight. -/
theorem walk_skip (h : bh.Legal) (hplaced : Placed tz bh) (turns : Nat) :
    walk (deadline * 1000) tz bh turns (localStart tz n * 1000 + 1) = walk (deadline * 1000) tz bh turns (localStart tz n * 1000) := by
  have hnow : InDay tz n (localStart tz n * 1000) := by unfold InDay localStart; omega
  have hlater : InDay tz n (localStart tz n * 1000 + 1) := by unfold InDay localStart; omega
  rcases le_or_gt deadline (localStart tz n) with hge | hlt
  · rw [walk_of_ge turns (by omega), walk_of_ge turns (by omega)]
  cases turns with
  | zero => rfl
  | succ turns =>
    rw [walk_succ turns hnow (by omega), walk_succ turns hlater (by omega), turnMs_inDay h hnow, turnMs_inDay h hlater]
    congr 1
    rw [dayEnd_behind hplaced.1, windowsMs_placed h hplaced, windowsMs_placed h hplaced]
    obtain ⟨hbehind, hafter, -⟩ := hplaced
    split_ifs
    · unfold shared openingSecond
      omega
    · rfl

/-- The turns count the business hours up to the deadline, or to the last day that they reach. -/
theorem walk_placed (h : bh.Legal) (hplaced : Placed tz bh) (turns : Nat) (hs : localStart tz n ≤ s ∧ s < localStart tz (n + 1)) :
    walk (deadline * 1000) tz bh turns (s * 1000) = units (Open tz bh) s (min deadline (localStart tz (n + turns))) * 1000 := by
  induction turns generalizing n s with
  | zero =>
    rw [Nat.cast_zero, Int.add_zero, units_of_ge (Int.le_trans (min_le_right _ _) hs.1)]
    rfl
  | succ turns ih =>
    rcases le_or_gt deadline s with hge | hlt
    · rw [walk_of_ge _ (by omega), units_of_ge (Int.le_trans (min_le_left _ _) hge)]
      rfl
    have hnext : localStart tz (n + 1) ≤ localStart tz (n + 1) ∧ localStart tz (n + 1) < localStart tz (n + 1 + 1) := by
      unfold localStart
      omega
    have hreach : localStart tz (n + 1) ≤ localStart tz (n + (turns + 1 : Nat)) := by
      unfold localStart
      omega
    rw [walk_succ turns (n := n) ⟨by omega, by omega⟩ (by omega), turnMs_placed h hplaced hs, dayEnd_behind hplaced.1,
      walk_skip h hplaced, ih hnext, Int.add_assoc n 1, Int.add_comm 1, ← Nat.cast_succ]
    rcases le_or_gt deadline (localStart tz (n + 1)) with hwithin | hbeyond
    · rw [min_eq_left hwithin, min_eq_left (hwithin.trans hreach), units_of_ge hwithin, Int.zero_mul, Int.add_zero]
    · rw [min_eq_right hbeyond.le, units_add hs.2.le (le_min hbeyond.le hreach), Int.add_mul]

end Exactness

section Conditions

/-- There is no business day, or the window of every day is empty. -/
def NoBusinessTime (bh : BusinessHours) : Prop :=
  (∀ day, 0 ≤ day → day < 7 → day ∉ bh.days) ∨ bh.startHour = 24 ∧ bh.endHour = 0

def EveryDay (bh : BusinessHours) : Prop := ∀ day, 0 ≤ day → day < 7 → day ∈ bh.days

/-- On its own day the window is where the zone has it. -/
def PlacedToday (tz : Zone) (bh : BusinessHours) : Prop :=
  0 ≤ tz.offset ∧ bh.SameDay ∧ bh.startHour + tz.offset < 24 ∧ (bh.endHour + tz.offset < 24 ∨ bh.endHour = 24) ∨
    tz.offset < 0 ∧ bh.startHour = 0 ∧ -tz.offset ≤ bh.endHour

/-- The window of each day goes on in the morning of the next, and the code takes the morning of the same day for that. -/
def PlacedOvernight (tz : Zone) (bh : BusinessHours) : Prop :=
  tz.offset < 0 ∧ -tz.offset ≤ bh.startHour ∧ bh.endHour < bh.startHour ∧ bh.endHour < -tz.offset ∧ EveryDay bh

/-- When the sum is right for all deadlines that are no more than `distance` local days away. -/
def HoursPlaced (tz : Zone) (bh : BusinessHours) (distance : Nat) : Prop :=
  NoBusinessTime bh ∨
    distance < 370 ∧ Placed tz bh ∨
    distance ≤ 1 ∧ 0 ≤ tz.offset ∧ bh.startHour = 0 ∧ bh.endHour = 24 ∧ EveryDay bh ∨
    distance = 0 ∧ (PlacedToday tz bh ∨ PlacedOvernight tz bh)

variable {tz : Zone} {bh : BusinessHours} {n a b : Int}

theorem EveryDay.weekday (h : EveryDay bh) (n : Int) : CivilCalendar.weekday n ∈ bh.days := h _ (weekday_nonneg n) (weekday_lt n)

theorem sum_self (a : Int) : sumBusinessSecondsBetween (a * 1000) (a * 1000) tz bh = units (Open tz bh) a a := by
  rw [units_of_ge (Int.le_refl _)]
  exact if_pos (Int.le_refl _)

theorem sum_noBusinessTime (h : bh.Legal) (hnone : NoBusinessTime bh) (a b : Int) : sumBusinessSecondsBetween a b tz bh = 0 := by
  have hturn (c : Int) : turnMs b tz bh c = 0 := by
    have hin : InDay tz ((c + tz.offset * 3600000) / 86400000) c := by unfold InDay localStart; omega
    rw [turnMs_inDay h hin]
    rcases hnone with hdays | ⟨hstart, hend⟩
    · exact if_neg (hdays _ (weekday_nonneg _) (weekday_lt _))
    · have hempty (n b : Int) : windowsMs tz bh n c b = 0 := by
        rw [windowsMs, hstart, hend, if_neg (by decide), shared_empty, shared_empty]
        rfl
      rw [hempty, ite_self]
  have hwalk (turns : Nat) (c : Int) : walk b tz bh turns c = 0 := by
    induction turns generalizing c with
    | zero => rfl
    | succ turns ih =>
      rw [walk, hturn, ih]
      split_ifs <;> rfl
  rw [sumBusinessSecondsBetween, hwalk]
  split_ifs <;> rfl

theorem units_noBusinessTime (hnone : NoBusinessTime bh) (a b : Int) : units (Open tz bh) a b = 0 := by
  refine units_none (fun s _ _ hopen => ?_)
  obtain ⟨n, hday, hopening, hclosing⟩ := hopen
  rcases hnone with hdays | ⟨hstart, hend⟩
  · exact hdays _ (weekday_nonneg _) (weekday_lt _) hday
  · unfold openingSecond at hopening
    unfold closingSecond at hclosing
    rw [if_pos (by omega)] at hclosing
    omega

theorem sum_placed (h : bh.Legal) (hplaced : Placed tz bh) (ha : localStart tz n ≤ a ∧ a < localStart tz (n + 1)) (hab : a ≤ b) :
    sumBusinessSecondsBetween (a * 1000) (b * 1000) tz bh = units (Open tz bh) a (min b (localStart tz (n + 370))) := by
  rcases hab.eq_or_lt with rfl | hlt
  · rw [units_of_ge (min_le_left _ _)]
    exact if_pos (Int.le_refl _)
  · rw [sumBusinessSecondsBetween, if_neg (by omega), walk_placed h hplaced maxDays ha]
    have hnonneg := units_nonneg (Open tz bh) a (min b (localStart tz (n + 370)))
    unfold maxDays
    push_cast
    omega

theorem PlacedToday.sameDay (h : bh.Legal) (htoday : PlacedToday tz bh) : bh.SameDay := by
  have hne := h.ne
  rcases htoday with ⟨-, hsame, -⟩ | ⟨hbehind, hstart, hend⟩
  · exact hsame
  · unfold BusinessHours.SameDay
    omega

theorem windowsMs_today (h : bh.Legal) (htoday : PlacedToday tz bh) {b c : Int} (hc : localStart tz n * 1000 ≤ c)
    (hb : b ≤ localStart tz (n + 1) * 1000) :
    windowsMs tz bh n c b = shared c b (openingSecond tz bh n * 1000) (closingSecond tz bh n * 1000) := by
  have hsame := htoday.sameDay h
  have hlast := lastHour_bounds h hsame
  have hnext := localStart_add tz n 1
  have hstarts := h.start
  rw [windowsMs_sameDay h hsame, closingSecond_sameDay h hsame, openingSecond]
  rcases htoday with ⟨hahead, -, hearly, hends⟩ | ⟨hbehind, hstart, hends⟩
  · rw [edgeMs_same (by omega) hearly]
    rcases lt_or_ge (bh.lastHour + tz.offset) 24 with hsame | hlate
    · rw [edgeMs_same (by omega) hsame]
    · have hmidnight : bh.lastHour = 24 := by
        unfold BusinessHours.lastHour at *
        omega
      rw [edgeMs_after hlate, hmidnight]
      exact shared_finish (by omega) (by omega)
  · have hlasts : bh.lastHour = bh.endHour := if_neg (by omega)
    rw [hlasts, hstart, edgeMs_before (by omega), edgeMs_same (by omega) (by omega)]
    exact shared_start (by omega) (by omega)

theorem sum_placedToday (h : bh.Legal) (htoday : PlacedToday tz bh) (ha : localStart tz n ≤ a) (hab : a ≤ b) (hb : b < localStart tz (n + 1)) :
    sumBusinessSecondsBetween (a * 1000) (b * 1000) tz bh = units (Open tz bh) a b := by
  rcases hab.eq_or_lt with rfl | hlt
  · exact sum_self a
  have hend := dayEnd_le tz n
  rw [sum_oneTurn (n := n) h ⟨ha, by omega⟩ hlt (by omega), units_sameDay h (htoday.sameDay h) ha hb.le,
    windowsMs_today h htoday (by omega) (by omega)]
  split_ifs
  · unfold shared
    omega
  · rfl

theorem units_overnight (h : bh.Legal) (hover : bh.endHour < bh.startHour) (hevery : EveryDay bh)
    (ha : localStart tz n ≤ a) (hab : a ≤ b) (hb : b ≤ localStart tz (n + 1)) :
    units (Open tz bh) a b = shared a b (localStart tz n) (localStart tz n + bh.endHour * 3600) +
      shared a b (openingSecond tz bh n) (localStart tz (n + 1)) := by
  have hopen (s : Int) (hlow : a ≤ s) (hhigh : s < b) :
      Open tz bh s ↔ openingSecond tz bh n ≤ s ∨ s < localStart tz n + bh.endHour * 3600 := by
    rw [open_iff (n := n) h ⟨by omega, by omega⟩, and_iff_right (hevery.weekday n), and_iff_right (hevery.weekday (n - 1))]
    unfold closingSecond
    rw [if_pos hover]
    obtain ⟨hstart, hfinish, -⟩ := h
    unfold localStart at *
    omega
  have hmorning : units (Open tz bh) a (max a (min b (localStart tz n + bh.endHour * 3600))) =
      shared a (max a (min b (localStart tz n + bh.endHour * 3600))) (localStart tz n) (localStart tz n + bh.endHour * 3600) :=
    units_eq (fun s hlow hhigh => by rw [hopen s hlow (by omega)]; omega)
  have hevening : units (Open tz bh) (max a (min b (localStart tz n + bh.endHour * 3600))) b =
      shared (max a (min b (localStart tz n + bh.endHour * 3600))) b (openingSecond tz bh n) (localStart tz (n + 1)) :=
    units_eq (fun s hlow hhigh => by rw [hopen s (by omega) hhigh]; omega)
  rw [units_add (le_max_left _ _) (max_le hab (min_le_left _ _)), hmorning, hevening]
  obtain ⟨hstart, hfinish, -⟩ := h
  unfold shared openingSecond localStart at *
  omega

theorem windowsMs_placedOvernight (h : bh.Legal) (hplaced : PlacedOvernight tz bh) (a b : Int) :
    windowsMs tz bh n a b = shared a b (openingSecond tz bh n * 1000) (localStart tz (n + 1) * 1000) +
      shared a b (localStart tz n * 1000) ((localStart tz n + bh.endHour * 3600) * 1000) := by
  obtain ⟨hbehind, hstarts, hover, hends, -⟩ := hplaced
  have hstart := h.start
  have hnext := localStart_add tz n 1
  have hmidnight : (localStart tz (n + 1) + (0 - 24) * 3600) * 1000 = localStart tz n * 1000 := by omega
  have hmorning : localStart tz (n + 1) + (bh.endHour - 24) * 3600 = localStart tz n + bh.endHour * 3600 := by omega
  rw [windowsMs_overnight hover, dayEnd_behind hbehind, edgeMs_same (by omega) (by omega), edgeMs_before (by omega), edgeMs_before (by omega),
    hmidnight, hmorning]
  rfl

theorem sum_placedOvernight (h : bh.Legal) (hplaced : PlacedOvernight tz bh) (ha : localStart tz n ≤ a) (hab : a ≤ b)
    (hb : b < localStart tz (n + 1)) : sumBusinessSecondsBetween (a * 1000) (b * 1000) tz bh = units (Open tz bh) a b := by
  rcases hab.eq_or_lt with rfl | hlt
  · exact sum_self a
  have hnext := localStart_add tz n 1
  rw [sum_oneTurn h ⟨ha, by omega⟩ hlt (by rw [dayEnd_behind hplaced.1]; omega), units_overnight h hplaced.2.2.1 hplaced.2.2.2.2 ha hab hb.le,
    if_pos (hplaced.2.2.2.2.weekday n), windowsMs_placedOvernight h hplaced, shared_mul (by decide), shared_mul (by decide)]
  omega

/-- Every second of every day is a business hour. -/
theorem sum_always (h : bh.Legal) (hahead : 0 ≤ tz.offset) (hstart : bh.startHour = 0) (hend : bh.endHour = 24) (hevery : EveryDay bh)
    (ha : localStart tz n ≤ a ∧ a < localStart tz (n + 1)) (hab : a ≤ b) (hb : b < localStart tz (n + 2)) :
    sumBusinessSecondsBetween (a * 1000) (b * 1000) tz bh = units (Open tz bh) a b := by
  rcases hab.eq_or_lt with rfl | hlt
  · exact sum_self a
  have hopen (s : Int) (hlow : a ≤ s) (hhigh : s < b) : Open tz bh s ↔ a ≤ s ∧ s < b := by
    refine iff_of_true ⟨localDay tz s, hevery.weekday _, ?_⟩ ⟨hlow, hhigh⟩
    have hday := (localDay_eq_iff tz s).mp rfl
    unfold openingSecond closingSecond
    rw [if_neg (by omega), hstart, hend]
    unfold localStart at *
    omega
  have heast := tz.ahead
  rw [units_eq hopen, sum_oneTurn h ha hlt, if_pos (hevery.weekday n)]
  · rw [windowsMs, if_pos (by omega), hstart, hend, dayEnd_ahead hahead]
    unfold shared edgeMs wrap
    omega
  · rw [dayEnd_ahead hahead]
    omega

/-- The sum is right for all deadlines within the distance. -/
theorem sum_hoursPlaced (h : bh.Legal) {distance : Nat} (hplaced : HoursPlaced tz bh distance) (hab : a ≤ b)
    (hnear : localDay tz b ≤ localDay tz a + distance) :
    sumBusinessSecondsBetween (a * 1000) (b * 1000) tz bh = units (Open tz bh) a b := by
  have ha := (localDay_eq_iff tz a).mp rfl
  have hb := ((localDay_eq_iff tz b).mp rfl).2
  generalize localDay tz a = n at ha hnear
  have hreach : b < localStart tz (n + distance + 1) := by
    unfold localStart at *
    omega
  rcases hplaced with hnone | ⟨hdistance, hplaced⟩ | ⟨hdistance, hahead, hstart, hend, hevery⟩ | ⟨rfl, htoday | hovernight⟩
  · rw [sum_noBusinessTime h hnone, units_noBusinessTime hnone]
  · rw [sum_placed h hplaced ha hab, min_eq_left]
    unfold localStart at *
    omega
  · refine sum_always h hahead hstart hend hevery ha hab ?_
    unfold localStart at *
    omega
  · exact sum_placedToday h htoday ha.1 hab (by rwa [Nat.cast_zero, Int.add_zero] at hreach)
  · exact sum_placedOvernight h hovernight ha.1 hab (by rwa [Nat.cast_zero, Int.add_zero] at hreach)

end Conditions

section Probes

/-- The sum is right for all deadlines that are no more than `distance` local days away. -/
def SumExact (tz : Zone) (bh : BusinessHours) (distance : Nat) : Prop :=
  ∀ a b, 0 ≤ a → a ≤ b → localDay tz b ≤ localDay tz a + distance →
    sumBusinessSecondsBetween (a * 1000) (b * 1000) tz bh = units (Open tz bh) a b

variable {tz : Zone} {bh : BusinessHours} {distance : Nat} {n hour a b : Int}

theorem SumExact.between (hexact : SumExact tz bh distance) {m : Int} (hn : 1 ≤ n) (ha : localStart tz n ≤ a ∧ a < localStart tz (n + 1))
    (hab : a ≤ b) (hb : b < localStart tz (m + 1)) (hm : m ≤ n + distance) :
    sumBusinessSecondsBetween (a * 1000) (b * 1000) tz bh = units (Open tz bh) a b := by
  refine hexact a b ?_ hab ?_
  · have heast := tz.ahead
    unfold localStart at ha
    omega
  · have hday := (localDay_eq_iff tz b).mp rfl
    rw [(localDay_eq_iff tz a).mpr ha]
    unfold localStart at *
    omega

/-- The first second of an hour is counted as often as it is a business hour. -/
theorem SumExact.second (h : bh.Legal) (hexact : SumExact tz bh distance) (hn : 1 ≤ n) (hlow : 0 ≤ hour) (hhigh : hour < 24) :
    (if weekday n ∈ bh.days then windowsMs tz bh n ((localStart tz n + hour * 3600) * 1000) ((localStart tz n + hour * 3600 + 1) * 1000)
      else 0) / 1000 = units (Open tz bh) (localStart tz n + hour * 3600) (localStart tz n + hour * 3600 + 1) := by
  have hnext := localStart_add tz n 1
  have hstart : localStart tz n ≤ localStart tz n + hour * 3600 ∧ localStart tz n + hour * 3600 < localStart tz (n + 1) := by omega
  rw [← hexact.between (m := n) hn hstart (by omega) (by omega) (by omega)]
  have hend := dayEnd_le tz n
  exact (sum_oneTurn h hstart (by omega) (by omega)).symm

theorem SumExact.second_open (h : bh.Legal) (hexact : SumExact tz bh distance) (hn : 1 ≤ n) (hlow : 0 ≤ hour) (hhigh : hour < 24)
    (hopen : Open tz bh (localStart tz n + hour * 3600)) : weekday n ∈ bh.days ∧
      1000 ≤ windowsMs tz bh n ((localStart tz n + hour * 3600) * 1000) ((localStart tz n + hour * 3600 + 1) * 1000) := by
  have hsecond := hexact.second h hn hlow hhigh
  rw [units_one_of hopen] at hsecond
  split_ifs at hsecond with hbusiness
  · exact ⟨hbusiness, by omega⟩
  · exact absurd hsecond (by decide)

theorem SumExact.second_closed (h : bh.Legal) (hexact : SumExact tz bh distance) (hn : 1 ≤ n) (hlow : 0 ≤ hour) (hhigh : hour < 24)
    (hbusiness : weekday n ∈ bh.days) (hclosed : ¬Open tz bh (localStart tz n + hour * 3600)) :
    windowsMs tz bh n ((localStart tz n + hour * 3600) * 1000) ((localStart tz n + hour * 3600 + 1) * 1000) < 1000 := by
  have hsecond := hexact.second h hn hlow hhigh
  rw [units_one_of_not hclosed, if_pos hbusiness] at hsecond
  omega

/-- If the day after a business day is one too, every day is. -/
theorem everyDay_of_next (hnext : ∀ d, 2 ≤ d → weekday d ∈ bh.days → weekday (d + 1) ∈ bh.days) {d : Int} (hd : 2 ≤ d)
    (hbusiness : weekday d ∈ bh.days) : EveryDay bh := by
  have hlater (k : Nat) : weekday (d + k) ∈ bh.days := by
    induction k with
    | zero => rwa [Nat.cast_zero, Int.add_zero]
    | succ k ih =>
      rw [Nat.cast_succ, ← Int.add_assoc]
      exact hnext _ (by omega) ih
  intro day hlow hhigh
  have hday := hlater ((day - 4 - d) % 7).toNat
  rwa [show weekday (d + ((day - 4 - d) % 7).toNat) = day by unfold weekday; omega] at hday

theorem everyDay_of_previous (hprevious : ∀ d, 2 ≤ d → weekday d ∈ bh.days → weekday (d - 1) ∈ bh.days) {d : Int} (hd : 2 ≤ d)
    (hbusiness : weekday d ∈ bh.days) : EveryDay bh := by
  refine everyDay_of_next (fun d hd hday => ?_) hd hbusiness
  have hearlier (k : Nat) (hk : k ≤ 6) : weekday (d + 7 - k) ∈ bh.days := by
    induction k with
    | zero => rwa [Nat.cast_zero, Int.sub_zero, weekday_add_week]
    | succ k ih =>
      rw [Nat.cast_succ, ← Int.sub_sub]
      exact hprevious _ (by omega) (ih (by omega))
  have hsixth := hearlier 6 (Nat.le_refl 6)
  rwa [show d + 7 - (6 : Nat) = d + 1 by omega] at hsixth

theorem open_opening (h : bh.Legal) (htime : ¬NoBusinessTime bh) (hbusiness : weekday n ∈ bh.days) :
    Open tz bh (localStart tz n + bh.startHour * 3600) := by
  refine ⟨n, hbusiness, Int.le_refl _, ?_⟩
  have hnonempty : ¬(bh.startHour = 24 ∧ bh.endHour = 0) := fun hempty => htime (.inr hempty)
  obtain ⟨hstart, hfinish, hne⟩ := h
  unfold closingSecond
  split_ifs <;> omega

theorem start_lt_of_sameDay (h : bh.Legal) (htime : ¬NoBusinessTime bh) (hsame : bh.SameDay) : bh.startHour < 24 := by
  have hnonempty : ¬(bh.startHour = 24 ∧ bh.endHour = 0) := fun hempty => htime (.inr hempty)
  obtain ⟨hstart, hfinish, hne⟩ := h
  unfold BusinessHours.SameDay at hsame
  omega

theorem start_lt_lastHour (h : bh.Legal) (htime : ¬NoBusinessTime bh) (hsame : bh.SameDay) : bh.startHour < bh.lastHour := by
  have hlt := start_lt_of_sameDay h htime hsame
  have hstart := h.start
  unfold BusinessHours.SameDay at hsame
  unfold BusinessHours.lastHour
  split_ifs <;> omega

theorem closed_at_end (h : bh.Legal) (hsame : bh.SameDay) (hend : 0 < bh.endHour ∧ bh.endHour < 24) :
    ¬Open tz bh (localStart tz n + bh.endHour * 3600) := by
  have hday : localStart tz n ≤ localStart tz n + bh.endHour * 3600 ∧ localStart tz n + bh.endHour * 3600 < localStart tz (n + 1) := by
    unfold localStart
    omega
  rw [open_sameDay h hsame hday]
  rintro ⟨-, -, hclosing⟩
  unfold BusinessHours.SameDay at hsame
  unfold closingSecond at hclosing
  split_ifs at hclosing <;> omega

theorem closed_at_midnight (h : bh.Legal) (hsame : bh.SameDay) (hstarts : 0 < bh.startHour) : ¬Open tz bh (localStart tz n + 0 * 3600) := by
  rw [open_sameDay (n := n) h hsame (by unfold localStart; omega)]
  rintro ⟨-, hopening, -⟩
  unfold openingSecond at hopening
  omega

/-- The window goes on overnight. -/
theorem open_at_midnight (h : bh.Legal) (hover : ¬bh.SameDay) (hbusiness : weekday n ∈ bh.days) :
    Open tz bh (localStart tz (n + 1) + 0 * 3600) := by
  refine ⟨n, hbusiness, ?_⟩
  obtain ⟨hstart, hfinish, hne⟩ := h
  unfold BusinessHours.SameDay at hover
  unfold openingSecond closingSecond localStart
  rw [if_pos (by omega)]
  omega

theorem exists_businessDay (htime : ¬NoBusinessTime bh) : ∃ n, 700 ≤ n ∧ weekday n ∈ bh.days := by
  have hdays : ¬∀ day, 0 ≤ day → day < 7 → day ∉ bh.days := fun hnone => htime (.inl hnone)
  push Not at hdays
  obtain ⟨day, hlow, hhigh, hday⟩ := hdays
  exact ⟨day + 703, by omega, by rwa [show weekday (day + 703) = day by unfold weekday; omega]⟩

end Probes

section Ahead

variable {tz : Zone} {bh : BusinessHours} {distance : Nat} {n : Int}

/-- Where clocks are ahead of UTC, the morning after a window that goes on overnight is not counted. -/
theorem sameDay_of_ahead (h : bh.Legal) (hahead : 0 ≤ tz.offset) (hexact : SumExact tz bh distance) (hn : 1 ≤ n) (hbusiness : weekday n ∈ bh.days) :
    bh.SameDay := by
  by_contra hover
  have hcounted := (hexact.second_open h (by omega) (Int.le_refl 0) (by decide) (open_at_midnight h hover hbusiness)).2
  obtain ⟨hstart, hfinish, hne⟩ := h
  have heast := tz.ahead
  unfold BusinessHours.SameDay at hover
  rw [windowsMs_overnight (by omega)] at hcounted
  unfold shared edgeMs wrap localStart at hcounted
  omega

theorem placedToday_of_ahead (h : bh.Legal) (htime : ¬NoBusinessTime bh) (hahead : 0 ≤ tz.offset) (hexact : SumExact tz bh distance)
    (hn : 1 ≤ n) (hbusiness : weekday n ∈ bh.days) : PlacedToday tz bh := by
  have hsame := sameDay_of_ahead h hahead hexact hn hbusiness
  have hlt := start_lt_of_sameDay h htime hsame
  have hopened := (hexact.second_open h hn h.start.1 hlt (open_opening h htime hbusiness)).2
  have hclosed (hend : 0 < bh.endHour ∧ bh.endHour < 24) :=
    hexact.second_closed h hn h.finish.1 hend.2 hbusiness (closed_at_end h hsame hend)
  have hfinish := h.finish
  have heast := tz.ahead
  have hlast := lastHour_bounds h hsame
  rw [windowsMs_sameDay h hsame] at hopened
  have hearly : bh.startHour + tz.offset < 24 := by
    unfold shared edgeMs wrap at hopened
    omega
  refine .inl ⟨hahead, hsame, hearly, ?_⟩
  by_contra hlate
  obtain ⟨hwrapped, hmidnight⟩ := not_or.mp hlate
  have hcounted := hclosed (by omega)
  rw [windowsMs_sameDay h hsame, BusinessHours.lastHour, if_neg (by omega)] at hcounted
  unfold shared edgeMs wrap at hcounted
  omega

/-- The turn of a day reaches to the end of the next one, and nothing is counted in it unless the first is a business day. -/
theorem everyDay_of_ahead (h : bh.Legal) (htime : ¬NoBusinessTime bh) (hahead : 0 ≤ tz.offset) (hlt : bh.startHour < 24)
    (hexact : SumExact tz bh distance) (hdistance : 1 ≤ distance) (hn : 2 ≤ n) (hbusiness : weekday n ∈ bh.days) : EveryDay bh := by
  refine everyDay_of_previous (fun d hd hday => ?_) hn hbusiness
  by_contra hclosed
  have hstart := h.start
  have hprevious : localStart tz (d - 1) = localStart tz d + -1 * 86400 := localStart_add tz d (-1)
  have hnext := localStart_add tz d 1
  have hend : edgeMs tz (d - 1) 24 = localStart tz (d + 1) * 1000 := by rw [dayEnd_ahead hahead, show d - 1 + 2 = d + 1 by omega]
  have hfirst : localStart tz (d - 1) ≤ localStart tz (d - 1) ∧ localStart tz (d - 1) < localStart tz (d - 1 + 1) := by
    rw [Int.sub_add_cancel]
    omega
  have hbetween := hexact.between (n := d - 1) (m := d) (b := localStart tz d + bh.startHour * 3600 + 1)
    (by omega) hfirst (by omega) (by omega) (by omega)
  rw [sum_oneTurn h hfirst (by omega) (by omega), if_neg hclosed,
    units_add (b := localStart tz d + bh.startHour * 3600) (by omega) (by omega), units_one_of (open_opening h htime hday)] at hbetween
  have hnonneg := units_nonneg (Open tz bh) (localStart tz (d - 1)) (localStart tz d + bh.startHour * 3600)
  omega

/-- In the next day only what the window of the first covers is counted, and not its own window. -/
theorem always_of_ahead (h : bh.Legal) (htime : ¬NoBusinessTime bh) (hahead : 0 ≤ tz.offset) (hexact : SumExact tz bh distance)
    (hdistance : 1 ≤ distance) (hn : 2 ≤ n) (hbusiness : weekday n ∈ bh.days) :
    bh.startHour = 0 ∧ bh.endHour = 24 ∧ EveryDay bh := by
  have htoday := placedToday_of_ahead h htime hahead hexact (by omega) hbusiness
  obtain ⟨-, hsame, hearly, hends⟩ : 0 ≤ tz.offset ∧ _ := htoday.resolve_right (fun hbehind => absurd hbehind.1 (not_lt.mpr hahead))
  have hlt := start_lt_of_sameDay h htime hsame
  have heast := tz.ahead
  have hevery := everyDay_of_ahead h htime hahead hlt hexact hdistance hn hbusiness
  have hnext := localStart_add tz n 1
  have hbetween := hexact.between (n := n) (m := n + 1) (a := localStart tz (n + 1) - 1) (b := localStart tz (n + 1) + bh.startHour * 3600 + 1)
    (by omega) (by omega) (by have := h.start; omega) (by unfold localStart; omega) (by omega)
  rw [sum_oneTurn (n := n) h (by omega) (by have := h.start; omega) (by rw [dayEnd_ahead hahead]; unfold localStart; omega), if_pos hbusiness,
    units_add (b := localStart tz (n + 1)) (by omega) (by have := h.start; omega),
    units_sameDay (n := n) h hsame (by omega) (Int.le_refl _), if_pos hbusiness,
    units_sameDay (n := n + 1) h hsame (Int.le_refl _) (by unfold localStart; omega), if_pos (hevery.weekday _)] at hbetween
  have hstart := h.start
  have hlast := lastHour_bounds h hsame
  have hnonempty := start_lt_lastHour h htime hsame
  have hwindow : bh.startHour = 0 ∧ bh.lastHour = 24 := by
    rw [windowsMs_sameDay h hsame, closingSecond_sameDay h hsame, closingSecond_sameDay h hsame, hnext] at hbetween
    unfold shared edgeMs openingSecond wrap at hbetween
    omega
  have hne := h.ne
  refine ⟨hwindow.1, ?_, hevery⟩
  have hlasts := hwindow.2
  unfold BusinessHours.lastHour at hlasts
  omega

/-- The second turn starts a millisecond late. -/
theorem distance_le_one_of_ahead (h : bh.Legal) (htime : ¬NoBusinessTime bh) (hahead : 0 ≤ tz.offset) (hexact : SumExact tz bh distance)
    (hn : 2 ≤ n) (hbusiness : weekday n ∈ bh.days) : distance ≤ 1 := by
  by_contra hfar
  obtain ⟨hstart, hend, hevery⟩ := always_of_ahead h htime hahead hexact (by omega) hn hbusiness
  have heast := tz.ahead
  have hsame : bh.SameDay := .inl (by omega)
  have hnext := localStart_add tz n 1
  have hsecond := localStart_add tz n 2
  have hbetween := hexact.between (n := n) (m := n + 2) (a := localStart tz (n + 1) - 1) (b := localStart tz (n + 2) + 1)
    (by omega) (by omega) (by omega) (by unfold localStart; omega) (by omega)
  rw [sum_twoTurns (n := n) (m := n + 2) h (by omega) (dayEnd_ahead hahead) (by omega) (by rw [dayEnd_ahead hahead]; unfold localStart; omega) (by omega),
    if_pos (hevery.weekday _), if_pos (hevery.weekday _),
    units_add (a := localStart tz (n + 1) - 1) (b := localStart tz (n + 1)) (by omega) (by omega),
    units_add (a := localStart tz (n + 1)) (b := localStart tz (n + 2)) (by omega) (by omega),
    units_sameDay (n := n) (a := localStart tz (n + 1) - 1) h hsame (by omega) (Int.le_refl _),
    units_sameDay (n := n + 1) (a := localStart tz (n + 1)) h hsame (Int.le_refl _) (by unfold localStart; omega),
    units_sameDay (n := n + 2) (a := localStart tz (n + 2)) h hsame (Int.le_refl _) (by unfold localStart; omega),
    if_pos (hevery.weekday _), if_pos (hevery.weekday _), if_pos (hevery.weekday _)] at hbetween
  have hlast : bh.lastHour = 24 := by rw [BusinessHours.lastHour, hend]; rfl
  simp only [windowsMs_sameDay h hsame, closingSecond_sameDay h hsame, hlast, hstart, dayEnd_ahead hahead] at hbetween
  unfold shared edgeMs openingSecond wrap localStart at hbetween
  omega

end Ahead

section Behind

variable {tz : Zone} {bh : BusinessHours} {distance : Nat} {n : Int}

theorem placed_of_behind (h : bh.Legal) (htime : ¬NoBusinessTime bh) (hbehind : tz.offset < 0) (hsame : bh.SameDay)
    (hexact : SumExact tz bh distance) (hn : 1 ≤ n) (hbusiness : weekday n ∈ bh.days) :
    Placed tz bh ∨ bh.startHour = 0 ∧ -tz.offset ≤ bh.endHour := by
  rcases le_or_gt (-tz.offset) bh.startHour with hafter | hearly
  · exact .inl ⟨hbehind, hafter, hsame⟩
  have hlt := start_lt_of_sameDay h htime hsame
  have hopened := (hexact.second_open h hn h.start.1 hlt (open_opening h htime hbusiness)).2
  have hclosed (hstarts : 0 < bh.startHour) :=
    hexact.second_closed h hn (Int.le_refl 0) (by decide) hbusiness (closed_at_midnight h hsame hstarts)
  have hwest := tz.behind
  have hstart := h.start
  have hne := h.ne
  have hlast := lastHour_bounds h hsame
  rw [windowsMs_sameDay h hsame] at hopened
  have hends : -tz.offset ≤ bh.lastHour := by
    unfold shared edgeMs wrap at hopened
    omega
  have hzero : bh.startHour = 0 := by
    by_contra hstarts
    have hcounted := hclosed (by omega)
    rw [windowsMs_sameDay h hsame] at hcounted
    unfold shared edgeMs wrap at hcounted
    omega
  rw [BusinessHours.lastHour, if_neg (by omega)] at hends
  exact .inr ⟨hzero, hends⟩

/-- The first second of the second day is counted as a millisecond less, and left out. -/
theorem distance_zero_of_behind (h : bh.Legal) (hbehind : tz.offset < 0) (hzero : bh.startHour = 0) (hends : -tz.offset ≤ bh.endHour)
    (hexact : SumExact tz bh distance) (hn : 2 ≤ n) (hbusiness : weekday n ∈ bh.days) : distance = 0 := by
  by_contra hfar
  have hsame : bh.SameDay := .inl (by omega)
  have hprevious : localStart tz (n - 1) = localStart tz n + -1 * 86400 := localStart_add tz n (-1)
  have hnext := localStart_add tz n 1
  have hend : edgeMs tz (n - 1) 24 = localStart tz n * 1000 := by rw [dayEnd_behind hbehind, Int.sub_add_cancel]
  have hbetween := hexact.between (n := n - 1) (m := n) (a := localStart tz n - 1) (b := localStart tz n + 1)
    (by omega) (by rw [Int.sub_add_cancel]; omega) (by omega) (by omega) (by omega)
  rw [sum_twoTurns (n := n - 1) (m := n) h (by rw [Int.sub_add_cancel]; omega) hend (by omega) (by rw [dayEnd_behind hbehind]; omega)
      (by omega), if_pos hbusiness,
    units_add (b := localStart tz n) (by omega) (by omega),
    units_sameDay (n := n - 1) (a := localStart tz n - 1) h hsame (by omega) (by rw [Int.sub_add_cancel]),
    units_sameDay (n := n) (a := localStart tz n) h hsame (Int.le_refl _) (by omega), if_pos hbusiness] at hbetween
  have hlast := lastHour_bounds h hsame
  have hlater : -tz.offset ≤ bh.lastHour := by unfold BusinessHours.lastHour; split_ifs <;> omega
  simp only [windowsMs_sameDay h hsame, closingSecond_sameDay h hsame, hzero] at hbetween
  unfold shared edgeMs openingSecond wrap at hbetween
  split_ifs at hbetween <;> omega

theorem placedOvernight_of_behind (h : bh.Legal) (hbehind : tz.offset < 0) (hover : ¬bh.SameDay) (hexact : SumExact tz bh distance)
    (hn : 2 ≤ n) (hbusiness : weekday n ∈ bh.days) : PlacedOvernight tz bh := by
  have hwest := tz.behind
  have hstart := h.start
  have hfinish := h.finish
  have hne := h.ne
  have hmornings (d : Int) (hday : weekday d ∈ bh.days) : Open tz bh (localStart tz (d + 1) + 0 * 3600) := open_at_midnight h hover hday
  unfold BusinessHours.SameDay at hover
  have hends : bh.endHour < 24 := by omega
  have hclosed : ¬Open tz bh (localStart tz n + bh.endHour * 3600) := by
    rw [open_iff (n := n) h (by unfold localStart; omega)]
    unfold openingSecond closingSecond localStart
    rw [if_pos (by omega)]
    omega
  have hcounted := hexact.second_closed h (by omega) hfinish.1 hends hbusiness hclosed
  have hplaces : -tz.offset ≤ bh.startHour ∧ bh.endHour < -tz.offset := by
    rw [windowsMs_overnight (by omega)] at hcounted
    unfold shared edgeMs wrap localStart at hcounted
    omega
  refine ⟨hbehind, hplaces.1, by omega, hplaces.2, everyDay_of_next (fun d hd hday => ?_) hn hbusiness⟩
  exact (hexact.second_open h (by omega) (Int.le_refl 0) (by decide) (hmornings d hday)).1

theorem distance_zero_of_overnight (h : bh.Legal) (hplaced : PlacedOvernight tz bh) (hover : ¬bh.SameDay)
    (hexact : SumExact tz bh distance) : distance = 0 := by
  by_contra hfar
  obtain ⟨hbehind, hafter, hends, hearly, hevery⟩ := id hplaced
  have hprevious : localStart tz 2 = localStart tz 1 + 86400 := by unfold localStart; omega
  have hnext := localStart_add tz 2 1
  have hbetween := hexact.between (n := 1) (m := 2) (a := localStart tz 2 - 1) (b := localStart tz 2 + 1)
    (by omega) ⟨by omega, Int.sub_one_lt_of_le (Int.le_refl (localStart tz 2))⟩ (by omega) (by omega) (by omega)
  rw [sum_twoTurns (n := 1) (m := 2) h ⟨by omega, Int.sub_one_lt_of_le (Int.le_refl (localStart tz 2))⟩ (dayEnd_behind hbehind) (by omega)
      (by rw [dayEnd_behind hbehind]; omega) (by omega), if_pos (hevery.weekday _), if_pos (hevery.weekday _),
    units_add (b := localStart tz 2) (by omega) (by omega),
    units_overnight (n := 1) (a := localStart tz 2 - 1) h hends hevery (by omega) (by omega) (Int.le_refl (localStart tz 2)),
    units_overnight (n := 2) (a := localStart tz 2) h hends hevery (Int.le_refl _) (by omega) (by omega)] at hbetween
  obtain ⟨hstart, hfinish, hne⟩ := h
  unfold BusinessHours.SameDay at hover
  have hsecond : localStart tz (1 + 1) = localStart tz 2 := rfl
  -- The last second of the first day counts in full or not at all, and the first of the second day lacks its millisecond.
  rw [windowsMs_placedOvernight ⟨hstart, hfinish, hne⟩ hplaced, windowsMs_placedOvernight ⟨hstart, hfinish, hne⟩ hplaced, hsecond,
    shared_mul (by decide), shared_mul (by decide)] at hbetween
  unfold openingSecond at hbetween
  rw [shared_before (y := localStart tz 1 + bh.endHour * 3600) (by omega), shared_after (b := (localStart tz 2 + 1) * 1000) (by omega),
    shared_whole (a := localStart tz 2 * 1000 + 1) (by omega) (by omega) (by omega),
    shared_whole (a := localStart tz 2) (by omega) (by omega) (by omega), shared_after (b := localStart tz 2 + 1) (by omega)] at hbetween
  omega

/-- The loop ends after 370 days. -/
theorem distance_lt_of_placed (h : bh.Legal) (htime : ¬NoBusinessTime bh) (hplaced : Placed tz bh) (hexact : SumExact tz bh distance)
    (hn : 371 ≤ n) (hbusiness : weekday n ∈ bh.days) : distance < 370 := by
  by_contra hfar
  have hlt := start_lt_of_sameDay h htime hplaced.2.2
  have hstart := h.start
  have hfirst : localStart tz (n - 370) = localStart tz n + -370 * 86400 := localStart_add tz n (-370)
  have hfirstNext := localStart_add tz (n - 370) 1
  have hnext := localStart_add tz n 1
  have hbetween := hexact.between (n := n - 370) (m := n) (a := localStart tz (n - 370))
    (b := localStart tz n + bh.startHour * 3600 + 1) (by omega) (by omega) (by omega) (by omega) (by omega)
  rw [sum_placed (n := n - 370) h hplaced (by omega) (by omega), Int.sub_add_cancel, min_eq_right (by omega),
    units_add (b := localStart tz n) (c := localStart tz n + bh.startHour * 3600 + 1) (by omega) (by omega),
    units_add (b := localStart tz n + bh.startHour * 3600) (c := localStart tz n + bh.startHour * 3600 + 1) (by omega) (by omega),
    units_one_of (open_opening h htime hbusiness)] at hbetween
  have hnonneg := units_nonneg (Open tz bh) (localStart tz n) (localStart tz n + bh.startHour * 3600)
  omega

end Behind

section Exactly

variable {tz : Zone} {bh : BusinessHours} {distance : Nat}

theorem hoursPlaced_of_sumExact (h : bh.Legal) (hexact : SumExact tz bh distance) : HoursPlaced tz bh distance := by
  by_cases htime : NoBusinessTime bh
  · exact .inl htime
  obtain ⟨n, hn, hbusiness⟩ := exists_businessDay htime
  rcases lt_or_ge tz.offset 0 with hbehind | hahead
  · by_cases hsame : bh.SameDay
    · rcases placed_of_behind h htime hbehind hsame hexact (by omega) hbusiness with hplaced | ⟨hzero, hends⟩
      · exact .inr (.inl ⟨distance_lt_of_placed h htime hplaced hexact (by omega) hbusiness, hplaced⟩)
      · have hnear := distance_zero_of_behind h hbehind hzero hends hexact (by omega) hbusiness
        exact .inr (.inr (.inr ⟨hnear, .inl (.inr ⟨hbehind, hzero, hends⟩)⟩))
    · have hplaced := placedOvernight_of_behind h hbehind hsame hexact (by omega) hbusiness
      exact .inr (.inr (.inr ⟨distance_zero_of_overnight h hplaced hsame hexact, .inr hplaced⟩))
  · have hnear := distance_le_one_of_ahead h htime hahead hexact (by omega) hbusiness
    rcases Nat.eq_zero_or_pos distance with hzero | hpos
    · exact .inr (.inr (.inr ⟨hzero, .inl (placedToday_of_ahead h htime hahead hexact (by omega) hbusiness)⟩))
    · exact .inr (.inr (.inl ⟨hnear, hahead, always_of_ahead h htime hahead hexact hpos (by omega) hbusiness⟩))

theorem secondsRemaining_eq (localTz : Zone) (clock deadline : Int) :
    (getCountdown clock localTz deadline ⟨some tz, some bh⟩).secondsRemaining =
      sumBusinessSecondsBetween (clock / 1000 * 1000) (deadline * 1000) tz bh := rfl

/-- The countdown to every deadline that is no more than `distance` local days away is the business time that is left. -/
def CountdownExact (tz : Zone) (bh : BusinessHours) (distance : Nat) : Prop :=
  ∀ (localTz : Zone) (clock deadline : Int), 0 ≤ clock → clock / 1000 ≤ deadline →
    localDay tz deadline ≤ localDay tz (clock / 1000) + distance →
    ((getCountdown clock localTz deadline ⟨some tz, some bh⟩).secondsRemaining : ℝ) = businessTime tz bh (clock / 1000) deadline

/-- The countdown is exact in just the zones, for just the hours and up to just the distances for which the hours are placed. -/
theorem countdown_exact_iff (h : bh.Legal) (distance : Nat) : CountdownExact tz bh distance ↔ HoursPlaced tz bh distance := by
  constructor
  · intro hexact
    refine hoursPlaced_of_sumExact h (fun a b ha hab hnear => ?_)
    have hclock : a * 1000 / 1000 = a := by omega
    have hcountdown := hexact tz (a * 1000) b (by omega) (by rwa [hclock]) (by rwa [hclock])
    rwa [secondsRemaining_eq, hclock, businessTime_eq, Int.cast_inj] at hcountdown
  · intro hplaced localTz clock deadline _ hle hnear
    rw [secondsRemaining_eq, businessTime_eq, Int.cast_inj]
    exact sum_hoursPlaced h hplaced hle hnear

def officeHours : BusinessHours := ⟨9, 17, [1, 2, 3, 4, 5]⟩

theorem legal_officeHours : officeHours.Legal := ⟨by decide, by decide, by decide⟩

def newYorkWinter : Zone := ⟨-5, by decide, by decide⟩

theorem countdown_exact_newYork : CountdownExact newYorkWinter officeHours 369 :=
  (countdown_exact_iff legal_officeHours 369).mpr (.inr (.inl ⟨by decide, by decide, by decide, .inl (by decide)⟩))

/-- On Friday 2024-01-05 from 16:00 to 18:00. -/
example : (getCountdown 1704488400000 newYorkWinter 1704495600 ⟨some newYorkWinter, some officeHours⟩).secondsRemaining = 3600 := by
  decide +kernel

def utc : Zone := ⟨0, by decide, by decide⟩

/-- From Monday 2024-01-01 to Wednesday 2024-01-03, at midnight each: Tuesday is left out. -/
theorem countdown_skips_tuesday :
    (getCountdown 1704067200000 utc 1704240000 ⟨some utc, some officeHours⟩).secondsRemaining = 28800 ∧
      businessTime utc officeHours 1704067200 1704240000 = 57600 := by
  refine ⟨by decide +kernel, ?_⟩
  have hsame : officeHours.SameDay := .inl (by decide)
  have hday (n a b : Int) (hbusiness : weekday n ∈ officeHours.days) (ha : localStart utc n ≤ a) (hb : b ≤ localStart utc (n + 1)) :
      units (Open utc officeHours) a b = shared a b (openingSecond utc officeHours n) (closingSecond utc officeHours n) :=
    (units_sameDay legal_officeHours hsame ha hb).trans (if_pos hbusiness)
  have hmonday := hday 19723 1704067200 1704153600 (by decide) (by decide) (by decide)
  have htuesday := hday 19724 1704153600 1704240000 (by decide) (by decide) (by decide)
  rw [businessTime_eq, units_add (b := 1704153600) (by decide) (by decide), hmonday, htuesday]
  norm_num [shared, openingSecond, closingSecond, localStart, officeHours, utc]

end Exactly

end SplitSdk.DeadlineEngine
