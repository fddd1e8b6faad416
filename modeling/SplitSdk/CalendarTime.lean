import Mathlib.Order.Lattice
import Mathlib.Data.Int.Order.Basic
import Mathlib.Data.Int.Interval
import Mathlib.MeasureTheory.Measure.Lebesgue.Basic

namespace SplitSdk.CivilCalendar

/-- A date of the Gregorian calendar, which goes on into the past. Months are counted from 1. -/
structure CivilDate where
  year : Int
  month : Int
  day : Int
  deriving DecidableEq

/-- The days before a year. Years run from March to February, so that the leap day is their last. -/
def yearStart (year : Int) : Int := year / 400 * 146097 + (year % 400 * 365 + year % 400 / 4 - year % 400 / 100)

/-- The day of a date, from 1970-01-01 on. -/
def dayOf (date : CivilDate) : Int :=
  let year := if date.month ≤ 2 then date.year - 1 else date.year
  let month := if date.month ≤ 2 then date.month + 9 else date.month - 3
  yearStart year + (153 * month + 2) / 5 + date.day - 719469

/-- Where a day stands in the 400 years after which the calendar repeats. A century has 36524 days, but the last has one more,
as has the last of four years. -/
structure CycleDay where
  century : Int
  leaps : Int
  year : Int
  day : Int

def cycleDay (n : Int) : CycleDay :=
  let century := min (n / 36524) 3
  let leaps := (n - century * 36524) / 1461
  let year := min ((n - century * 36524 - leaps * 1461) / 365) 3
  ⟨century, leaps, year, n - century * 36524 - leaps * 1461 - year * 365⟩

def dateOf (n : Int) : CivilDate :=
  let c := cycleDay ((n + 719468) % 146097)
  let year := (n + 719468) / 146097 * 400 + c.century * 100 + c.leaps * 4 + c.year
  let month := (5 * c.day + 2) / 153
  { year := if month < 10 then year else year + 1
    month := if month < 10 then month + 3 else month - 9
    day := c.day - (153 * month + 2) / 5 + 1 }

def weekday (n : Int) : Int := (n + 4) % 7

/-- The parts of a day's place are in their ranges, and make up the day. -/
structure CycleDay.Proper (c : CycleDay) (n : Int) : Prop where
  century : 0 ≤ c.century ∧ c.century ≤ 3
  leaps : 0 ≤ c.leaps ∧ c.leaps ≤ 24
  year : 0 ≤ c.year ∧ c.year ≤ 3
  day : 0 ≤ c.day ∧ c.day ≤ 365
  sum : c.century * 36524 + c.leaps * 1461 + c.year * 365 + c.day = n

theorem cycleDay_proper {n : Int} (hlow : 0 ≤ n) (hhigh : n < 146097) : (cycleDay n).Proper n := by
  constructor <;> simp only [cycleDay] <;> omega

theorem yearStart_cycle {c : CycleDay} {n : Int} (h : c.Proper n) (cycles : Int) :
    yearStart (cycles * 400 + c.century * 100 + c.leaps * 4 + c.year) = cycles * 146097 + (n - c.day) := by
  obtain ⟨hcentury, hleaps, hyear, -, hsum⟩ := h
  have hcycle : (cycles * 400 + c.century * 100 + c.leaps * 4 + c.year) / 400 = cycles := by omega
  have hrest : (cycles * 400 + c.century * 100 + c.leaps * 4 + c.year) % 400 = c.century * 100 + c.leaps * 4 + c.year := by omega
  have hfourths : (c.century * 100 + c.leaps * 4 + c.year) / 4 = c.century * 25 + c.leaps := by omega
  have hcenturies : (c.century * 100 + c.leaps * 4 + c.year) / 100 = c.century := by omega
  rw [yearStart, hcycle, hrest, hfourths, hcenturies]
  omega

/-- A date stands for the day that it was made from. -/
@[simp] theorem dayOf_dateOf (n : Int) : dayOf (dateOf n) = n := by
  have hlow : 0 ≤ (n + 719468) % 146097 := Int.emod_nonneg _ (by decide)
  have hhigh : (n + 719468) % 146097 < 146097 := Int.emod_lt_of_pos _ (by decide)
  have hproper := cycleDay_proper hlow hhigh
  have hstart := yearStart_cycle hproper ((n + 719468) / 146097)
  have hday := hproper.day
  generalize hc : cycleDay ((n + 719468) % 146097) = c at hstart hday
  rcases lt_or_ge ((5 * c.day + 2) / 153) 10 with hlt | hge
  · have hafter : ¬ (5 * c.day + 2) / 153 + 3 ≤ 2 := by omega
    simp only [dayOf, dateOf, hc, if_pos hlt, if_neg hafter, hstart, Int.add_sub_cancel]
    omega
  · have hbefore : (5 * c.day + 2) / 153 - 9 ≤ 2 := by omega
    simp only [dayOf, dateOf, hc, if_neg (not_lt.mpr hge), if_pos hbefore, Int.add_sub_cancel, hstart, Int.sub_add_cancel]
    omega

example : dateOf 19782 = ⟨2024, 2, 29⟩ := by decide

example : weekday (dayOf ⟨2024, 1, 5⟩) = 5 := by decide

/-- The next day of a month may have a day above the month's last. -/
theorem dayOf_next (date : CivilDate) : dayOf { date with day := date.day + 1 } = dayOf date + 1 := by
  simp only [dayOf]
  omega

theorem weekday_add_week (n : Int) : weekday (n + 7) = weekday n := by
  unfold weekday
  omega

theorem weekday_nonneg (n : Int) : 0 ≤ weekday n := Int.emod_nonneg _ (by decide)

theorem weekday_lt (n : Int) : weekday n < 7 := Int.emod_lt_of_pos _ (by decide)

end SplitSdk.CivilCalendar

namespace SplitSdk.UnitLengths

open MeasureTheory

/-- The length of what two intervals share. -/
def shared (a b start finish : Int) : Int := max 0 (min b finish - max a start)

open Classical in
/-- How many units of an interval satisfy `P`. -/
noncomputable def units (P : Int → Prop) (a b : Int) : Int := ((Finset.Ico a b).filter P).card

variable {P : Int → Prop} {a b c lo hi : Int}

theorem shared_mul {k : Int} (hk : 0 ≤ k) (a b x y : Int) : shared (a * k) (b * k) (x * k) (y * k) = shared a b x y * k := by
  rw [shared, shared, max_mul_of_nonneg _ _ hk, sub_mul, min_mul_of_nonneg _ _ hk, max_mul_of_nonneg _ _ hk, zero_mul]

theorem shared_empty (a b x : Int) : shared a b x x = 0 := by
  unfold shared
  omega

theorem shared_before {a b x y : Int} (h : y ≤ a) : shared a b x y = 0 := by
  unfold shared
  omega

theorem shared_after {a b x y : Int} (h : b ≤ x) : shared a b x y = 0 := by
  unfold shared
  omega

theorem shared_whole {a b x y : Int} (hab : a ≤ b) (hx : x ≤ a) (hy : b ≤ y) : shared a b x y = b - a := by
  rw [shared, min_eq_left hy, max_eq_left hx, max_eq_right (Int.sub_nonneg_of_le hab)]

/-- Where the second interval starts before the first, it does not matter when. -/
theorem shared_start {a b x x' y : Int} (h : x ≤ a) (h' : x' ≤ a) : shared a b x y = shared a b x' y := by
  rw [shared, shared, max_eq_left h, max_eq_left h']

theorem shared_finish {a b x y y' : Int} (h : b ≤ y) (h' : b ≤ y') : shared a b x y = shared a b x y' := by
  rw [shared, shared, min_eq_left h, min_eq_left h']

theorem units_nonneg (P : Int → Prop) (a b : Int) : 0 ≤ units P a b := Int.natCast_nonneg _

theorem units_of_ge (h : b ≤ a) : units P a b = 0 := by
  rw [units, Finset.Ico_eq_empty (not_lt.mpr h)]
  rfl

theorem units_add (hab : a ≤ b) (hbc : b ≤ c) : units P a c = units P a b + units P b c := by
  classical
  unfold units
  rw [← Finset.Ico_union_Ico_eq_Ico hab hbc, Finset.filter_union, Finset.card_union_of_disjoint, Nat.cast_add]
  exact Finset.disjoint_filter_filter (Finset.Ico_disjoint_Ico_consecutive a b c)

/-- Units that make up an interval are counted by its length. -/
theorem units_eq (h : ∀ s, a ≤ s → s < b → (P s ↔ lo ≤ s ∧ s < hi)) : units P a b = shared a b lo hi := by
  classical
  have hset : (Finset.Ico a b).filter P = Finset.Ico (max a lo) (min b hi) := by
    ext s
    simp only [Finset.mem_filter, Finset.mem_Ico, max_le_iff, lt_min_iff]
    constructor
    · rintro ⟨⟨hlow, hhigh⟩, hp⟩
      have hinside := (h s hlow hhigh).mp hp
      exact ⟨⟨hlow, hinside.1⟩, hhigh, hinside.2⟩
    · rintro ⟨⟨hlow, hlo⟩, hhigh, hhi⟩
      exact ⟨⟨hlow, hhigh⟩, (h s hlow hhigh).mpr ⟨hlo, hhi⟩⟩
  unfold units shared
  rw [hset, Int.card_Ico]
  omega

theorem units_none (h : ∀ s, a ≤ s → s < b → ¬P s) : units P a b = 0 := by
  have hempty (s : Int) (hlow : a ≤ s) (hhigh : s < b) : P s ↔ 0 ≤ s ∧ s < 0 := iff_of_false (h s hlow hhigh) (by omega)
  rw [units_eq hempty, shared]
  omega

theorem units_one_of (h : P a) : units P a (a + 1) = 1 := by
  have honly (t : Int) (hlow : a ≤ t) (hhigh : t < a + 1) : P t ↔ a ≤ t ∧ t < a + 1 :=
    iff_of_true (by rwa [show t = a by omega]) ⟨hlow, hhigh⟩
  rw [units_eq honly, shared]
  omega

theorem units_one_of_not (h : ¬P a) : units P a (a + 1) = 0 :=
  units_none (fun t hlow hhigh hp => h (by rwa [show a = t by omega]))

theorem preimage_floor (s : Int) : Set.preimage (Int.floor : ℝ → Int) {s} = Set.Ico (s : ℝ) (s + 1) := by
  ext x
  rw [Set.mem_preimage, Set.mem_singleton_iff, Int.floor_eq_iff, Set.mem_Ico]

theorem covered_eq_iUnion [DecidablePred P] :
    Set.Ico (a : ℝ) b ∩ {x | P ⌊x⌋} = ⋃ s ∈ (Finset.Ico a b).filter P, Set.Ico (s : ℝ) (s + 1) := by
  ext x
  simp only [← preimage_floor, Set.mem_inter_iff, Set.mem_Ico, Set.mem_ofPred_eq, Set.mem_iUnion, Finset.mem_filter, Finset.mem_Ico,
    Set.mem_preimage, Set.mem_singleton_iff, exists_prop, exists_eq_right', Int.le_floor, Int.floor_lt]

/-- The number of the units is the length of what they cover. -/
theorem volume_covered : (volume (Set.Icc (a : ℝ) b ∩ {x | P ⌊x⌋})).toReal = units P a b := by
  classical
  have hclosed : volume (Set.Icc (a : ℝ) b ∩ {x | P ⌊x⌋}) = volume (Set.Ico (a : ℝ) b ∩ {x | P ⌊x⌋}) :=
    measure_congr (Ico_ae_eq_Icc.symm.inter (Filter.EventuallyEq.refl _ _))
  have hdisjoint : (((Finset.Ico a b).filter P : Finset Int) : Set Int).PairwiseDisjoint (fun s : Int => Set.Ico (s : ℝ) (s + 1)) := by
    intro s _ t _ hne
    simp only [Function.onFun, ← preimage_floor]
    exact Disjoint.preimage _ (Set.disjoint_singleton.mpr hne)
  have hcard : volume (Set.Ico (a : ℝ) b ∩ {x | P ⌊x⌋}) = ((Finset.Ico a b).filter P).card := by
    rw [covered_eq_iUnion, measure_biUnion_finset hdisjoint (fun s _ => measurableSet_Ico)]
    simp [Real.volume_Ico]
  rw [hclosed, hcard, ENNReal.toReal_natCast, units, Int.cast_natCast]

end SplitSdk.UnitLengths
