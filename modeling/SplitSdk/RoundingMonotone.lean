import SplitSdk.NumberText

namespace SplitSdk.RoundingMonotone

open Numbers NumberText

variable {p q : ℚ}

theorem lt_iff_not_le {x y : JsNumber} (hx : x ≠ .nan) (hy : y ≠ .nan) : x.lt y ↔ ¬y.le x := by
  cases x with
  | nan => exact absurd rfl hx
  | infinity negative => cases y <;> cases negative <;> simp_all [JsNumber.le, JsNumber.lt]
  | finite p =>
      cases y with
      | nan => exact absurd rfl hy
      | infinity negative => cases negative <;> simp [JsNumber.le, JsNumber.lt]
      | finite q => rw [JsNumber.finite_le_finite_iff, not_le, JsNumber.lt, decide_eq_true_eq]

theorem ne_nan_of_lt {x y : JsNumber} (h : x.lt y) : x ≠ .nan ∧ y ≠ .nan := by
  constructor
  · rintro rfl
    cases h
  · rintro rfl
    cases x <;> cases h

theorem ne_nan_of_le {x y : JsNumber} (h : x.le y) : x ≠ .nan ∧ y ≠ .nan := by
  rw [JsNumber.le, Bool.or_eq_true, Bool.and_eq_true, decide_eq_true_eq, decide_eq_true_eq] at h
  rcases h with h | ⟨rfl, h⟩
  · exact ne_nan_of_lt h
  · exact ⟨h, h⟩

theorem lt_le_trans {x y z : JsNumber} (hxy : x.lt y) (hyz : y.le z) : x.lt z := by
  obtain ⟨hx, hy⟩ := ne_nan_of_lt hxy
  have hz := (ne_nan_of_le hyz).2
  rw [lt_iff_not_le hx hy] at hxy
  rw [lt_iff_not_le hx hz]
  exact fun hzx => hxy (JsNumber.le_trans hyz hzx)

theorem le_lt_trans {x y z : JsNumber} (hxy : x.le y) (hyz : y.lt z) : x.lt z := by
  obtain ⟨hy, hz⟩ := ne_nan_of_lt hyz
  have hx := (ne_nan_of_le hxy).1
  rw [lt_iff_not_le hy hz] at hyz
  rw [lt_iff_not_le hx hz]
  exact fun hzx => hyz (JsNumber.le_trans hzx hxy)

theorem floor_le_roundHalfEven (q : ℚ) : ⌊q⌋ ≤ roundHalfEven q := by
  unfold roundHalfEven
  dsimp only
  split_ifs <;> omega

theorem roundHalfEven_le (q : ℚ) : roundHalfEven q ≤ ⌊q⌋ + 1 := by
  unfold roundHalfEven
  dsimp only
  split_ifs <;> omega

theorem roundHalfEven_mono (h : p ≤ q) : roundHalfEven p ≤ roundHalfEven q := by
  rcases (Int.floor_le_floor h).eq_or_lt with heq | hlt
  · unfold roundHalfEven
    dsimp only
    rw [heq]
    split_ifs <;> first | omega | linarith
  · have hp := roundHalfEven_le p
    have hq := floor_le_roundHalfEven q
    omega

/-- What `fl` makes of a number unless it is too large. -/
def rounded (q : ℚ) : ℚ := roundHalfEven (q / 2 ^ ulpExponent q) * 2 ^ ulpExponent q

theorem fl_eq (q : ℚ) : fl q = if 2 ^ 1024 ≤ |rounded q| then .infinity (decide (q < 0)) else .finite (rounded q) := rfl

theorem rounded_neg (q : ℚ) : rounded (-q) = -rounded q := by
  have hulp : ulpExponent (-q) = ulpExponent q := by rw [ulpExponent, abs_neg, ulpExponent]
  rw [rounded, hulp, neg_div, roundHalfEven_neg, Int.cast_neg, neg_mul, rounded]

theorem rounded_nonneg (h : 0 ≤ q) : 0 ≤ rounded q := by
  refine mul_nonneg ?_ (two_zpow_pos _).le
  have hfloor : 0 ≤ ⌊q / 2 ^ ulpExponent q⌋ := Int.floor_nonneg.mpr (div_nonneg h (two_zpow_pos _).le)
  exact_mod_cast hfloor.trans (floor_le_roundHalfEven _)

/-- A number with a larger exponent is at least the power of two at which that exponent begins. -/
theorem le_rounded (hq : 0 < q) (hlarge : -1074 < ulpExponent q) : 2 ^ (ulpExponent q + 52) ≤ rounded q := by
  have hlog : Int.log 2 |q| = ulpExponent q + 52 := by
    unfold ulpExponent at hlarge ⊢
    omega
  have hpow : (2 : ℚ) ^ (ulpExponent q + 52) ≤ q := by
    have hle := Int.zpow_log_le_self (b := 2) (by norm_num) (abs_pos.mpr hq.ne')
    rw [hlog, abs_of_pos hq] at hle
    exact_mod_cast hle
  have hmantissa : (2 ^ 52 : Int) ≤ roundHalfEven (q / 2 ^ ulpExponent q) := by
    refine le_trans ?_ (floor_le_roundHalfEven _)
    rw [Int.le_floor, le_div_iff₀ (two_zpow_pos _)]
    rw [zpow_add₀ (by norm_num), mul_comm] at hpow
    exact_mod_cast hpow
  rw [rounded, add_comm, zpow_add₀ (by norm_num)]
  exact mul_le_mul_of_nonneg_right (by exact_mod_cast hmantissa) (two_zpow_pos _).le

theorem rounded_le (hq : 0 < q) : rounded q ≤ 2 ^ (ulpExponent q + 53) := by
  have hlog : Int.log 2 |q| + 1 ≤ ulpExponent q + 53 := by
    unfold ulpExponent
    omega
  have hlt : q < 2 ^ (ulpExponent q + 53) := by
    have hlt := Int.lt_zpow_succ_log_self (b := 2) (by norm_num) |q|
    rw [abs_of_pos hq] at hlt hlog
    exact_mod_cast hlt.trans_le (zpow_le_zpow_right₀ (by norm_num) hlog)
  have hmantissa : |q / 2 ^ ulpExponent q| < (2 ^ 53 : Int) := by
    rw [abs_of_nonneg (div_nonneg hq.le (two_zpow_pos _).le), div_lt_iff₀ (two_zpow_pos _)]
    rw [zpow_add₀ (by norm_num), mul_comm] at hlt
    exact_mod_cast hlt
  rw [rounded, add_comm, zpow_add₀ (by norm_num)]
  have hle := (abs_le.mp (abs_roundHalfEven_le hmantissa)).2
  exact mul_le_mul_of_nonneg_right (by exact_mod_cast hle) (two_zpow_pos _).le

theorem rounded_mono_of_pos (hp : 0 < p) (h : p ≤ q) : rounded p ≤ rounded q := by
  have hq : 0 < q := hp.trans_le h
  have hulp : ulpExponent p ≤ ulpExponent q := by
    have hlog : Int.log 2 |p| ≤ Int.log 2 |q| := by
      rw [abs_of_pos hp, abs_of_pos hq]
      exact Int.log_mono_right hp h
    unfold ulpExponent
    omega
  rcases hulp.eq_or_lt with heq | hlt
  · rw [rounded, rounded, heq]
    refine mul_le_mul_of_nonneg_right ?_ (two_zpow_pos _).le
    exact_mod_cast roundHalfEven_mono (div_le_div_of_nonneg_right h (two_zpow_pos _).le)
  · -- the two are on different sides of a power of two, or rounded to it
    have hlarge : -1074 < ulpExponent q := by
      have : -1074 ≤ ulpExponent p := le_max_right _ _
      omega
    calc rounded p ≤ 2 ^ (ulpExponent p + 53) := rounded_le hp
      _ ≤ 2 ^ (ulpExponent q + 52) := zpow_le_zpow_right₀ (by norm_num) (by omega)
      _ ≤ rounded q := le_rounded hq hlarge

theorem rounded_mono (h : p ≤ q) : rounded p ≤ rounded q := by
  rcases lt_or_ge 0 p with hp | hp
  · exact rounded_mono_of_pos hp h
  have hp' : rounded p ≤ 0 := by
    have := rounded_nonneg (neg_nonneg.mpr hp)
    rw [rounded_neg] at this
    linarith
  rcases lt_or_ge q 0 with hq | hq
  · have := rounded_mono_of_pos (neg_pos.mpr hq) (neg_le_neg h)
    rw [rounded_neg, rounded_neg] at this
    linarith
  · exact hp'.trans (rounded_nonneg hq)

/-- Rounding keeps the order. -/
theorem fl_mono (h : p ≤ q) : (fl p).le (fl q) := by
  have hmono := rounded_mono h
  rw [fl_eq, fl_eq]
  split_ifs with hp hq hq
  · rcases lt_or_ge p 0 with hneg | hpos
    · by_cases hq' : q < 0 <;> simp [JsNumber.le, JsNumber.lt, hneg, hq']
    · simp [JsNumber.le, not_lt.mpr hpos, not_lt.mpr (hpos.trans h)]
  · rcases lt_or_ge p 0 with hneg | hpos
    · simp [JsNumber.le, JsNumber.lt, hneg]
    · rw [abs_of_nonneg (rounded_nonneg hpos)] at hp
      rw [abs_of_nonneg (rounded_nonneg (hpos.trans h))] at hq
      exact absurd (hp.trans hmono) hq
  · rcases lt_or_ge q 0 with hneg | hpos
    · have hq' := rounded_nonneg (neg_nonneg.mpr hneg.le)
      have hp' := rounded_nonneg (neg_nonneg.mpr (h.trans hneg.le))
      rw [rounded_neg] at hq' hp'
      rw [abs_of_nonpos (by linarith)] at hp hq
      exact absurd (hq.trans (neg_le_neg hmono)) hp
    · simp [JsNumber.le, JsNumber.lt, not_lt.mpr hpos]
  · rw [JsNumber.finite_le_finite_iff]
    exact hmono

/-- What lies between two doubles is rounded to something between them. -/
theorem fl_between {a b : ℚ} (ha : IsDouble (.finite a)) (hb : IsDouble (.finite b)) (hlow : a ≤ q) (hhigh : q ≤ b) :
    ∃ v, fl q = .finite v ∧ a ≤ v ∧ v ≤ b := by
  have hleft := fl_mono hlow
  have hright := fl_mono hhigh
  rw [show fl a = .finite a from ha] at hleft
  rw [show fl b = .finite b from hb] at hright
  cases hv : fl q with
  | finite v =>
      rw [hv, JsNumber.finite_le_finite_iff] at hleft hright
      exact ⟨v, rfl, hleft, hright⟩
  | nan =>
      rw [hv] at hleft
      simp [JsNumber.le_nan] at hleft
  | infinity negative =>
      rw [hv] at hleft hright
      cases negative <;> simp [JsNumber.le, JsNumber.lt] at hleft hright

theorem le_of_fl {v w : ℚ} (hv : fl p = .finite v) (hw : fl q = .finite w) (h : p ≤ q) : v ≤ w := by
  have hle := fl_mono h
  rwa [hv, hw, JsNumber.finite_le_finite_iff] at hle

/-- Every double is a multiple of the smallest one. -/
theorem exists_mul_of_isDouble (h : IsDouble (.finite p)) : ∃ k : Int, p = k * 2 ^ (-1074 : Int) := by
  have heq : rounded p = p := by
    rw [IsDouble, fl_eq] at h
    split_ifs at h
    exact JsNumber.finite.inj h
  obtain ⟨n, hn⟩ := Int.eq_ofNat_of_zero_le (show 0 ≤ ulpExponent p + 1074 by unfold ulpExponent; omega)
  refine ⟨roundHalfEven (p / 2 ^ ulpExponent p) * 2 ^ n, ?_⟩
  have hpow : (2 : ℚ) ^ ulpExponent p = 2 ^ n * 2 ^ (-1074 : Int) := by
    rw [show ulpExponent p = n + -1074 by omega, zpow_add₀ (by norm_num), zpow_natCast]
  rw [Int.cast_mul, Int.cast_pow, Int.cast_ofNat, mul_assoc, ← hpow]
  exact heq.symm

/-- Different doubles differ by at least the smallest one. -/
theorem tiny_le_sub (hp : IsDouble (.finite p)) (hq : IsDouble (.finite q)) (h : p < q) : (2 : ℚ) ^ (-1074 : Int) ≤ q - p := by
  obtain ⟨m, rfl⟩ := exists_mul_of_isDouble hp
  obtain ⟨n, rfl⟩ := exists_mul_of_isDouble hq
  have hlt : m < n := by exact_mod_cast lt_of_mul_lt_mul_right h (two_zpow_pos (-1074)).le
  rw [← sub_mul]
  exact le_mul_of_one_le_left (two_zpow_pos (-1074)).le (by exact_mod_cast Int.le_sub_left_of_add_le (by omega))

theorem isDouble_tiny : IsDouble (.finite ((2 : ℚ) ^ (-1074 : Int))) := by
  have h := @isDouble_of_lt 1 (-1074) (by norm_num) le_rfl (by
    rw [Int.cast_one, one_mul, abs_of_pos (two_zpow_pos _)]
    exact (zpow_lt_one_of_neg₀ (by norm_num) (by norm_num)).trans (one_lt_pow₀ (by norm_num) (by norm_num)))
  rwa [Int.cast_one, one_mul] at h

/-- Rounding keeps the sign of a difference of doubles. -/
theorem lt_fl_sub (hp : IsDouble (.finite p)) (hq : IsDouble (.finite q)) (h : p < q) : (JsNumber.finite 0).lt (fl (q - p)) := by
  have hle := fl_mono (tiny_le_sub hp hq h)
  rw [show fl ((2 : ℚ) ^ (-1074 : Int)) = _ from isDouble_tiny] at hle
  exact lt_le_trans (by simp [JsNumber.lt]) hle

theorem fl_sub_lt (hp : IsDouble (.finite p)) (hq : IsDouble (.finite q)) (h : p < q) : (fl (p - q)).lt (.finite 0) := by
  have hle := fl_mono (neg_le_neg (tiny_le_sub hp hq h))
  rw [fl_neg isDouble_tiny, neg_sub] at hle
  exact le_lt_trans hle (by simp [JsNumber.lt])

/-- What a difference of two doubles says about them: nothing where it is zero or `NaN`. -/
theorem sub_sign {x y : JsNumber} (hx : IsDouble x) (hy : IsDouble y) (hxn : x ≠ .nan) (hyn : y ≠ .nan) :
    (y.sub x = .finite 0 ∨ y.sub x = .nan ↔ x = y) ∧ (x ≠ y → ((y.sub x).le (.finite 0) ↔ y.lt x)) := by
  cases x with
  | nan => exact absurd rfl hxn
  | infinity negative =>
      cases y with
      | nan => exact absurd rfl hyn
      | infinity negative' => cases negative <;> cases negative' <;> simp [JsNumber.sub, JsNumber.le, JsNumber.lt]
      | finite q => cases negative <;> simp [JsNumber.sub, JsNumber.le, JsNumber.lt]
  | finite p =>
      cases y with
      | nan => exact absurd rfl hyn
      | infinity negative => cases negative <;> simp [JsNumber.sub, JsNumber.le, JsNumber.lt]
      | finite q =>
          rw [JsNumber.finite.injEq, JsNumber.sub, JsNumber.lt, decide_eq_true_eq]
          rcases lt_trichotomy p q with hlt | rfl | hgt
          · have hpos := lt_fl_sub hx hy hlt
            have hne := ne_nan_of_lt hpos
            refine ⟨iff_of_false ?_ hlt.ne, fun _ => iff_of_false ?_ hlt.not_gt⟩
            · rintro (h | h)
              · rw [h] at hpos
                simp [JsNumber.lt] at hpos
              · exact hne.2 h
            · exact (lt_iff_not_le hne.1 hne.2).mp hpos
          · rw [sub_self, fl_zero]
            exact ⟨iff_of_true (.inl rfl) rfl, fun h => absurd rfl h⟩
          · have hneg := fl_sub_lt hy hx hgt
            have hne := ne_nan_of_lt hneg
            refine ⟨iff_of_false ?_ hgt.ne', fun _ => iff_of_true ?_ hgt⟩
            · rintro (h | h)
              · rw [h] at hneg
                simp [JsNumber.lt] at hneg
              · exact hne.1 h
            · rw [JsNumber.le, hneg]
              rfl

/-- A binary64 number other than `NaN`, by which one can sort. -/
structure OrderedDouble where
  value : JsNumber
  isDouble : IsDouble value
  isNumber : value ≠ .nan

theorem zero_ne_nan : JsNumber.finite 0 ≠ .nan := by decide

def OrderedDouble.zero : OrderedDouble := ⟨.finite 0, fl_zero, zero_ne_nan⟩

theorem OrderedDouble.sub_sign (x y : OrderedDouble) :
    (y.value.sub x.value = .finite 0 ∨ y.value.sub x.value = .nan ↔ x.value = y.value) ∧
      (x.value ≠ y.value → ((y.value.sub x.value).le (.finite 0) ↔ y.value.lt x.value)) :=
  RoundingMonotone.sub_sign x.isDouble y.isDouble x.isNumber y.isNumber

end SplitSdk.RoundingMonotone
