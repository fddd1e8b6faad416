import Mathlib.Data.List.Sort
import SplitSdk.RoundingMonotone

namespace SplitSdk.Stats

open Numbers NumberText RoundingMonotone

section Model

/-- `Math.floor(x)`. -/
def mathFloor : JsNumber → JsNumber
  | .finite q => .finite ⌊q⌋
  | x => x

/-- `Math.ceil(x)`. -/
def mathCeil : JsNumber → JsNumber
  | .finite q => .finite ⌈q⌉
  | x => x

/-- `x / 100`. -/
def hundredth : JsNumber → JsNumber
  | .finite q => fl (q / 100)
  | x => x

/-- What an array holds at a number, where `undefined` counts as `NaN`. -/
def entry (values : List JsNumber) : JsNumber → JsNumber
  | .finite q => if q.den = 1 ∧ 0 ≤ q.num then (values[q.num.toNat]?).getD .nan else .nan
  | _ => .nan

/-- The sort by difference, of values of which none is `NaN`. -/
def sorted (values : List JsNumber) : List JsNumber := values.insertionSort (fun x y => x.le y)

def percentile (values : List JsNumber) (percentileTarget : JsNumber) : Except String JsNumber :=
  if values = [] then .error "Cannot compute a percentile of an empty sample set"
  else if percentileTarget.lt (.finite 0) ∨ (JsNumber.finite 100).lt percentileTarget then
    .error ("Percentile must be between 0 and 100, got " ++ toString percentileTarget)
  else
    let sorted := sorted values
    if sorted.length = 1 then .ok (entry sorted (.finite 0))
    else
      let rank := (hundredth percentileTarget).mul (.finite (sorted.length - 1 : Nat))
      let lowerIndex := mathFloor rank
      let upperIndex := mathCeil rank
      if lowerIndex = upperIndex then .ok (entry sorted lowerIndex)
      else
        let lowerValue := entry sorted lowerIndex
        let upperValue := entry sorted upperIndex
        let fraction := rank.sub lowerIndex
        .ok (lowerValue.add ((upperValue.sub lowerValue).mul fraction))

end Model

section Interpolation

variable {l u : Nat} {f g : ℚ}

/-- The values between two ranks, for a rounded fraction of the way. -/
def between (l u : Nat) (f : ℚ) : JsNumber := (JsNumber.finite l).add (((JsNumber.finite u).sub (.finite l)).mul (fl f))

theorem isDouble_one : IsDouble (.finite 1) := by
  exact_mod_cast isDouble_natCast (n := 1) (by norm_num)

theorem sub_natCast (h : l ≤ u) (hu : u < 2 ^ 53) : (JsNumber.finite u).sub (.finite l) = .finite (u - l : Nat) := by
  rw [JsNumber.sub, ← Nat.cast_sub h]
  exact isDouble_natCast ((Nat.sub_le u l).trans_lt hu)

/-- The steps of the interpolation: the fraction, how far it goes, and where it ends. -/
theorem between_steps (h : l ≤ u) (hu : u < 2 ^ 53) (h0 : 0 ≤ f) (h1 : f ≤ 1) :
    ∃ φ d v : ℚ, fl f = .finite φ ∧ fl ((u - l : Nat) * φ) = .finite d ∧ fl (l + d) = .finite v ∧ between l u f = .finite v ∧
      l ≤ v ∧ v ≤ u := by
  obtain ⟨φ, hφ, hφ0, hφ1⟩ := fl_between fl_zero isDouble_one h0 h1
  have hwidth : (0 : ℚ) ≤ (u - l : Nat) := Nat.cast_nonneg _
  obtain ⟨d, hd, hd0, hd1⟩ := fl_between fl_zero (isDouble_natCast ((Nat.sub_le u l).trans_lt hu))
    (mul_nonneg hwidth hφ0) (mul_le_of_le_one_right hwidth hφ1)
  have hsum : (l : ℚ) + (u - l : Nat) = u := by
    rw [Nat.cast_sub h]
    ring
  obtain ⟨v, hv, hvl, hvu⟩ := fl_between (q := l + d) (isDouble_natCast (h.trans_lt hu)) (isDouble_natCast hu)
    (by linarith) (by linarith)
  refine ⟨φ, d, v, hφ, hd, hv, ?_, hvl, hvu⟩
  rw [between, sub_natCast h hu, hφ, JsNumber.mul, hd, JsNumber.add, hv]

theorem between_mono (h : l ≤ u) (hu : u < 2 ^ 53) (h0 : 0 ≤ f) (hfg : f ≤ g) (h1 : g ≤ 1) {v w : ℚ}
    (hv : between l u f = .finite v) (hw : between l u g = .finite w) : v ≤ w := by
  obtain ⟨φ, d, v', hφ, hd, hsum, hv', -⟩ := between_steps h hu h0 (hfg.trans h1)
  obtain ⟨ψ, e, w', hψ, he, hsum', hw', -⟩ := between_steps h hu (h0.trans hfg) h1
  obtain rfl := JsNumber.finite.inj (hv.symm.trans hv')
  obtain rfl := JsNumber.finite.inj (hw.symm.trans hw')
  have hle : d ≤ e := le_of_fl hd he (mul_le_mul_of_nonneg_left (le_of_fl hφ hψ hfg) (Nat.cast_nonneg _))
  exact le_of_fl hsum hsum' (by linarith)

end Interpolation

section Ranks

variable {ms : List Nat} {t t' : ℚ}

/-- The numbers as the code has them. -/
def numbers (ms : List Nat) : List JsNumber := ms.map (fun m : Nat => .finite m)

theorem sorted_numbers (ms : List Nat) : sorted (numbers ms) = numbers (ms.insertionSort (· ≤ ·)) := by
  refine (List.map_insertionSort (· ≤ ·) (fun x y : JsNumber => x.le y) _ ms (fun a _ b _ => ?_)).symm
  rw [JsNumber.finite_le_finite_iff, Nat.cast_le]

theorem entry_numbers (ss : List Nat) (i : Nat) : entry (numbers ss) (.finite i) = ((ss[i]?).map (fun m : Nat => JsNumber.finite m)).getD .nan := by
  have h : ((i : ℚ).den = 1 ∧ 0 ≤ (i : ℚ).num) := ⟨rfl, Int.natCast_nonneg i⟩
  rw [entry, if_pos h, numbers, List.getElem?_map]
  rfl

/-- The rank of a percentile among so many numbers, which is no further than the last one. -/
theorem rank_finite {n : Nat} (h0 : 0 ≤ t) (h1 : t ≤ 100) (hn : n < 2 ^ 53) :
    ∃ a r : ℚ, fl (t / 100) = .finite a ∧ fl (a * n) = .finite r ∧ (hundredth (.finite t)).mul (.finite n) = .finite r ∧
      0 ≤ r ∧ r ≤ n := by
  obtain ⟨a, ha, ha0, ha1⟩ := fl_between (q := t / 100) fl_zero isDouble_one (by positivity) (by linarith)
  have hn0 : (0 : ℚ) ≤ n := Nat.cast_nonneg n
  obtain ⟨r, hr, hr0, hr1⟩ := fl_between fl_zero (isDouble_natCast hn) (mul_nonneg ha0 hn0) (mul_le_of_le_one_left hn0 ha1)
  exact ⟨a, r, ha, hr, by rw [hundredth, ha, JsNumber.mul, hr], hr0, hr1⟩

/-- The value at a rank, between the numbers before and behind it. -/
def valueAt (ss : List Nat) (r : ℚ) : JsNumber :=
  if ⌊r⌋ = ⌈r⌉ then .finite (ss.getD ⌊r⌋.toNat 0 : Nat)
  else between (ss.getD ⌊r⌋.toNat 0) (ss.getD ⌈r⌉.toNat 0) (r - ⌊r⌋)

theorem entry_of_lt {ss : List Nat} {z : Int} (h0 : 0 ≤ z) (h : z.toNat < ss.length) :
    entry (numbers ss) (.finite z) = .finite (ss.getD z.toNat 0 : Nat) := by
  have hz : (z : ℚ) = (z.toNat : Nat) := by
    exact_mod_cast (Int.toNat_of_nonneg h0).symm
  rw [hz, entry_numbers, List.getD_eq_getElem?_getD, List.getElem?_eq_getElem h]
  rfl

theorem percentile_eq (hms : ms ≠ []) (hlength : ms.length ≤ 2 ^ 53) (h0 : 0 ≤ t) (h1 : t ≤ 100) :
    ∃ a r : ℚ, fl (t / 100) = .finite a ∧ fl (a * (ms.length - 1 : Nat)) = .finite r ∧ 0 ≤ r ∧ r ≤ (ms.length - 1 : Nat) ∧
      percentile (numbers ms) (.finite t) = .ok (valueAt (ms.insertionSort (· ≤ ·)) r) := by
  have hpos : 0 < ms.length := List.length_pos_iff.mpr hms
  obtain ⟨a, r, ha, hr, hrank, hr0, hr1⟩ := rank_finite (n := ms.length - 1) h0 h1 (by omega)
  refine ⟨a, r, ha, hr, hr0, hr1, ?_⟩
  have hne : numbers ms ≠ [] := by simpa [numbers] using hms
  have hrange : ¬((JsNumber.finite t).lt (.finite 0) ∨ (JsNumber.finite 100).lt (.finite t)) := by
    simp [JsNumber.lt, h0, h1]
  have hlen : (numbers (ms.insertionSort (· ≤ ·))).length = ms.length := by
    rw [numbers, List.length_map, List.length_insertionSort]
  have hfloor0 : 0 ≤ ⌊r⌋ := Int.floor_nonneg.mpr hr0
  have hceil : ⌈r⌉ ≤ (ms.length - 1 : Nat) := Int.ceil_le.mpr (by exact_mod_cast hr1)
  have hfloor : ⌊r⌋ ≤ ⌈r⌉ := Int.floor_le_ceil r
  have hlow := @entry_of_lt (ms.insertionSort (· ≤ ·)) _ hfloor0 (by rw [List.length_insertionSort]; omega)
  have hhigh := @entry_of_lt (ms.insertionSort (· ≤ ·)) _ (hfloor0.trans hfloor) (by rw [List.length_insertionSort]; omega)
  unfold percentile
  dsimp only
  rw [if_neg hne, if_neg hrange, sorted_numbers, hlen, hrank]
  simp only [mathFloor, mathCeil, hlow, hhigh, JsNumber.finite.injEq, Int.cast_inj]
  split_ifs with hone heq
  · have hr' : r = 0 := le_antisymm (by simpa [hone] using hr1) hr0
    rw [valueAt, hr', if_pos (by simp)]
    exact congrArg _ (entry_of_lt le_rfl (by simp [hpos]))
  · rw [valueAt, if_pos heq]
  · rw [valueAt, if_neg heq]
    rfl

end Ranks

section Order

variable {ss ms : List Nat} {r r' : ℚ}

/-- What the lemmas on values at ranks need of the sorted numbers. -/
structure Ranked (ss : List Nat) : Prop where
  sorted : ss.Pairwise (· ≤ ·)
  small : ∀ m ∈ ss, m < 2 ^ 53

theorem getD_mono (h : ss.Pairwise (· ≤ ·)) {i j : Nat} (hij : i ≤ j) (hj : j < ss.length) : ss.getD i 0 ≤ ss.getD j 0 := by
  rw [List.getD_eq_getElem?_getD, List.getD_eq_getElem?_getD, List.getElem?_eq_getElem hj,
    List.getElem?_eq_getElem (hij.trans_lt hj)]
  rcases hij.eq_or_lt with rfl | hlt
  · exact le_rfl
  · exact List.pairwise_iff_getElem.mp h i j (hlt.trans hj) hj hlt

theorem getD_mem {i : Nat} (hi : i < ss.length) : ss.getD i 0 ∈ ss := by
  rw [List.getD_eq_getElem?_getD, List.getElem?_eq_getElem hi]
  exact List.getElem_mem hi

theorem toNat_ceil_lt (hr : r ≤ (ss.length - 1 : Nat)) (hss : ss ≠ []) : ⌈r⌉.toNat < ss.length := by
  have hceil : ⌈r⌉ ≤ (ss.length - 1 : Nat) := Int.ceil_le.mpr (by exact_mod_cast hr)
  have := List.length_pos_iff.mpr hss
  omega

theorem toNat_floor_le : ⌊r⌋.toNat ≤ ⌈r⌉.toNat := Int.toNat_le_toNat (Int.floor_le_ceil r)

/-- The value at a rank lies between the numbers around it. -/
theorem valueAt_between (h : Ranked ss) (hss : ss ≠ []) (hr : r ≤ (ss.length - 1 : Nat)) :
    ∃ v : ℚ, valueAt ss r = .finite v ∧ (ss.getD ⌊r⌋.toNat 0 : Nat) ≤ v ∧ v ≤ (ss.getD ⌈r⌉.toNat 0 : Nat) := by
  have hlast := toNat_ceil_lt hr hss
  rw [valueAt]
  split_ifs with heq
  · exact ⟨_, rfl, le_rfl, by rw [heq]⟩
  · have hfrac : r - ⌊r⌋ ≤ 1 := by linarith [Int.lt_floor_add_one r]
    obtain ⟨_, _, v, -, -, -, hv, hlow, hhigh⟩ := between_steps (getD_mono h.sorted (toNat_floor_le (r := r)) hlast)
      (h.small _ (getD_mem hlast)) (sub_nonneg.mpr (Int.floor_le r)) hfrac
    exact ⟨v, hv, hlow, hhigh⟩

theorem valueAt_mono (h : Ranked ss) (hss : ss ≠ []) (hle : r ≤ r') (hr : r' ≤ (ss.length - 1 : Nat)) {v w : ℚ}
    (hv : valueAt ss r = .finite v) (hw : valueAt ss r' = .finite w) : v ≤ w := by
  have hlast := toNat_ceil_lt hr hss
  obtain ⟨v', hv', -, hhigh⟩ := valueAt_between h hss (hle.trans hr)
  obtain ⟨w', hw', hlow, -⟩ := valueAt_between h hss hr
  obtain rfl := JsNumber.finite.inj (hv.symm.trans hv')
  obtain rfl := JsNumber.finite.inj (hw.symm.trans hw')
  rcases le_or_gt ⌈r⌉ ⌊r'⌋ with hapart | hsame
  · have hmid : ss.getD ⌈r⌉.toNat 0 ≤ ss.getD ⌊r'⌋.toNat 0 :=
      getD_mono h.sorted (Int.toNat_le_toNat hapart) (toNat_floor_le.trans_lt hlast)
    calc v ≤ (ss.getD ⌈r⌉.toNat 0 : Nat) := hhigh
      _ ≤ (ss.getD ⌊r'⌋.toNat 0 : Nat) := by exact_mod_cast hmid
      _ ≤ w := hlow
  · -- both ranks are between the same two numbers
    have hfloor : ⌊r⌋ = ⌊r'⌋ := by
      have := Int.floor_le_floor hle
      have := Int.ceil_le_floor_add_one r
      omega
    have hne : ⌊r⌋ ≠ ⌈r⌉ := by omega
    have hceil' : ⌈r⌉ ≤ ⌈r'⌉ := Int.ceil_le_ceil hle
    have hceil : ⌈r⌉ = ⌈r'⌉ := by
      have := Int.ceil_le_floor_add_one r'
      omega
    rw [valueAt, if_neg hne] at hv
    rw [valueAt, ← hfloor, ← hceil, if_neg hne] at hw
    rw [← hceil] at hlast
    refine between_mono (getD_mono h.sorted toNat_floor_le hlast) (h.small _ (getD_mem hlast))
      (sub_nonneg.mpr (Int.floor_le r)) (sub_le_sub_right hle _) ?_ hv hw
    rw [hfloor]
    linarith [Int.lt_floor_add_one r']

theorem ranked_insertionSort (hms : ms ≠ []) (hsmall : ∀ m ∈ ms, m < 2 ^ 53) :
    Ranked (ms.insertionSort (· ≤ ·)) ∧ ms.insertionSort (· ≤ ·) ≠ [] := by
  have hperm := List.perm_insertionSort (· ≤ ·) ms
  refine ⟨⟨List.pairwise_insertionSort _ ms, fun m hm => hsmall m (hperm.mem_iff.mp hm)⟩, fun hnil => hms ?_⟩
  rw [hnil] at hperm
  exact hperm.nil_eq.symm

/-- A percentile lies between two of the numbers. -/
theorem percentile_between (hms : ms ≠ []) (hlength : ms.length ≤ 2 ^ 53) (hsmall : ∀ m ∈ ms, m < 2 ^ 53) {t : ℚ} (h0 : 0 ≤ t)
    (h1 : t ≤ 100) : ∃ v : ℚ, percentile (numbers ms) (.finite t) = .ok (.finite v) ∧ (∃ m ∈ ms, (m : ℚ) ≤ v) ∧
      ∃ m ∈ ms, v ≤ (m : ℚ) := by
  obtain ⟨a, r, -, -, -, hr, hvalue⟩ := percentile_eq hms hlength h0 h1
  have hperm := List.perm_insertionSort (· ≤ ·) ms
  obtain ⟨hranked, hss⟩ := ranked_insertionSort hms hsmall
  rw [← hperm.length_eq] at hr
  obtain ⟨v, hv, hlow, hhigh⟩ := valueAt_between hranked hss hr
  have hlast := toNat_ceil_lt hr hss
  exact ⟨v, by rw [hvalue, hv], ⟨_, hperm.mem_iff.mp (getD_mem (toNat_floor_le.trans_lt hlast)), hlow⟩,
    _, hperm.mem_iff.mp (getD_mem hlast), hhigh⟩

theorem percentile_mono (hms : ms ≠ []) (hlength : ms.length ≤ 2 ^ 53) (hsmall : ∀ m ∈ ms, m < 2 ^ 53) {t t' : ℚ} (h0 : 0 ≤ t)
    (hle : t ≤ t') (h1 : t' ≤ 100) {v w : ℚ} (hv : percentile (numbers ms) (.finite t) = .ok (.finite v))
    (hw : percentile (numbers ms) (.finite t') = .ok (.finite w)) : v ≤ w := by
  obtain ⟨a, r, ha, hra, -, -, hvalue⟩ := percentile_eq hms hlength h0 (hle.trans h1)
  obtain ⟨b, r', hb, hrb, -, hr, hvalue'⟩ := percentile_eq hms hlength (h0.trans hle) h1
  have hperm := List.perm_insertionSort (· ≤ ·) ms
  obtain ⟨hranked, hss⟩ := ranked_insertionSort hms hsmall
  have hab : a ≤ b := le_of_fl ha hb (by linarith)
  have hrank : r ≤ r' := le_of_fl hra hrb (mul_le_mul_of_nonneg_right hab (Nat.cast_nonneg _))
  rw [← hperm.length_eq] at hr
  exact valueAt_mono hranked hss hrank hr (Except.ok.inj (hvalue.symm.trans hv)) (Except.ok.inj (hvalue'.symm.trans hw))

end Order

end SplitSdk.Stats
