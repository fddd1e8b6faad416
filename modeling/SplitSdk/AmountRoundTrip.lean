import SplitSdk.AmountParsing

namespace SplitSdk.AmountRoundTrip

open Numbers NumberText BigIntText CurrencyNormalizer AmountParsing

section Statement

def RoundTrips (precisions : Precisions) (raw : Int) (asset : Asset) : Prop :=
  ∃ text, normalizeAmount precisions (.bigint raw) asset = .ok text ∧ toOnChainAmount precisions text asset = .ok (toString raw)

/-- The remainder of the amount is not negative, or the sign before its digits stands in the first place after the point. -/
def Exact (precision : Nat) (raw : Int) : Prop :=
  0 ≤ raw ∨ raw.tmod (10 ^ precision) = 0 ∨ (Nat.toDigits 10 (raw.tmod (10 ^ precision)).natAbs).length + 1 = precision

instance (precision : Nat) (raw : Int) : Decidable (Exact precision raw) := inferInstanceAs (Decidable (_ ∨ _))

end Statement

section Fractions

variable {precision : Nat} {fracPart : Int}

theorem plain_toString (n : Int) : ∀ c ∈ (toString n).toList, IsPlain c := by
  rw [toList_toString]
  split_ifs
  · exact List.forall_mem_cons.mpr ⟨by decide, (allDigits_toDigits _).plain⟩
  · exact (allDigits_toDigits _).plain

theorem point_notMem_toString (n : Int) : '.' ∉ (toString n).toList := by
  rw [toList_toString]
  have hdigits : '.' ∉ Nat.toDigits 10 n.natAbs := fun h => absurd (allDigits_toDigits _ _ h) (by decide)
  split_ifs
  · exact List.not_mem_cons_of_ne_of_not_mem (by decide) hdigits
  · exact hdigits

theorem read_toString (n : Int) : readBigInt (trim (toString n).toList) = some n := ofString_toString n

theorem read_integerText_toString (n : Int) : readBigInt (trim (integerText (toString n).toList)) = some n := by
  have hread := read_toString n
  rw [toList_toString] at hread ⊢
  split_ifs at hread ⊢
  · rwa [integerText_signed (by decide)]
  · rw [read_integerText (allDigits_toDigits _), Nat.ofDigitChars_ten_toDigits]
    exact congrArg some (by omega)

/-- The digits after the point. -/
def fractionText (precision : Nat) (fracPart : Int) : List Char :=
  let fracStr := ((toString fracPart).toList.leftpad precision '0').rdropWhile (· = '0')
  if fracStr = [] then List.replicate precision '0' else padEnd precision fracStr

theorem displayText_eq (hprecision : precision ≠ 0) (raw : Int) : displayText precision raw =
    (toString (raw.tdiv (10 ^ precision))).toList ++ '.' :: fractionText precision (raw.tmod (10 ^ precision)) := by
  rw [displayText, if_neg hprecision, fractionText]
  dsimp only
  split_ifs <;> rfl

theorem plain_leftpad (precision : Nat) (n : Int) : ∀ c ∈ (toString n).toList.leftpad precision '0', IsPlain c :=
  plain_append (allDigits_replicate _).plain (plain_toString n)

/-- Zeros that are dropped from a text of full length come back. -/
theorem fractionText_of_length (h : ((toString fracPart).toList.leftpad precision '0').length = precision) :
    fractionText precision fracPart = (toString fracPart).toList.leftpad precision '0' := by
  have hplain := plain_leftpad precision fracPart
  rw [fractionText]
  generalize (toString fracPart).toList.leftpad precision '0' = padded at h hplain ⊢
  obtain ⟨z, hz⟩ := eq_rdropWhile_append_zeros padded
  generalize padded.rdropWhile (· = '0') = kept at hz ⊢
  subst hz
  have hkept : units kept = kept.length := units_plain (fun c hc => hplain c (List.mem_append_left _ hc))
  rw [List.length_append, List.length_replicate] at h
  split_ifs with hnil
  · subst hnil
    rw [List.nil_append, ← h, List.length_nil, Nat.zero_add]
  · rw [padEnd, hkept, ← h, Nat.add_sub_cancel_left]

theorem padEnd_of_units {cs : List Char} (h : units cs = precision) : padEnd precision cs = cs := by
  rw [padEnd, h, Nat.sub_self]
  exact List.append_nil cs

/-- The fraction fits, and is read as what it was written from. -/
def ReadsBack (precision : Nat) (fracPart : Int) : Prop :=
  units (fractionText precision fracPart) ≤ precision ∧
    readBigInt (trim (padEnd precision (fractionText precision fracPart))) = some fracPart

theorem readsBack_iff_of_length (h : ((toString fracPart).toList.leftpad precision '0').length = precision) :
    ReadsBack precision fracPart ↔ readBigInt (trim ((toString fracPart).toList.leftpad precision '0')) = some fracPart := by
  have hunits := (units_plain (plain_leftpad precision fracPart)).trans h
  rw [ReadsBack, fractionText_of_length h, padEnd_of_units hunits, hunits]
  exact and_iff_right (le_refl precision)

theorem readsBack_of_nonneg (hprecision : precision ≠ 0) (hzero : 0 ≤ fracPart) (hlt : fracPart.natAbs < 10 ^ precision) :
    ReadsBack precision fracPart := by
  have hlen := (Nat.length_toDigits_le_iff (by decide) (Nat.pos_of_ne_zero hprecision)).mpr hlt
  have htext : (toString fracPart).toList = Nat.toDigits 10 fracPart.natAbs := by
    rw [toList_toString, if_neg (not_lt.mpr hzero)]
  refine (readsBack_iff_of_length ?_).mpr ?_
  · rw [htext, List.length_leftpad]
    exact max_eq_left hlen
  · rw [htext, List.leftpad, read_digits ((allDigits_replicate _).append (allDigits_toDigits _)), Nat.ofDigitChars_append,
      ofDigitChars_replicate, Nat.ofDigitChars_ten_toDigits]
    exact congrArg some (Int.natAbs_of_nonneg hzero)

/-- A sign that does not come first is not read. -/
theorem read_inner_sign {zeros : Nat} (hzeros : zeros ≠ 0) {digits : List Char} (hdigits : AllDigits digits) :
    readBigInt (trim (List.replicate zeros '0' ++ '-' :: digits)) = none := by
  have hplain : ∀ c ∈ List.replicate zeros '0' ++ '-' :: digits, IsPlain c :=
    plain_append (allDigits_replicate _).plain (List.forall_mem_cons.mpr ⟨by decide, hdigits.plain⟩)
  have hnone : readDigits (List.replicate zeros '0' ++ '-' :: digits) = none := by
    rw [readDigits, if_neg]
    rintro ⟨-, hall⟩
    exact absurd (List.all_eq_true.mp hall '-' (by simp)) (by decide)
  rw [trim_of_plain hplain]
  obtain ⟨k, rfl⟩ := Nat.exists_eq_succ_of_ne_zero hzeros
  cases k with
  | zero => simpa [readBigInt] using hnone
  | succ k => simpa [readBigInt, List.replicate_succ] using hnone

/-- A remainder as long as the precision loses its last digit, or does not fit for its sign. -/
theorem not_readsBack_of_full (hneg : fracPart < 0) (hlen : (Nat.toDigits 10 fracPart.natAbs).length = precision) :
    ¬ ReadsBack precision fracPart := by
  have htext : (toString fracPart).toList = '-' :: Nat.toDigits 10 fracPart.natAbs := by
    rw [toList_toString, if_pos hneg]
  have hplain := plain_toString fracPart
  have hfull : (toString fracPart).toList.leftpad precision '0' = (toString fracPart).toList := by
    rw [List.leftpad, htext, List.length_cons, hlen, Nat.sub_eq_zero_of_le (Nat.le_succ precision)]
    rfl
  rintro ⟨hfits, hread⟩
  rw [fractionText, hfull] at hfits hread
  obtain ⟨z, hz⟩ := eq_rdropWhile_append_zeros (toString fracPart).toList
  generalize (toString fracPart).toList.rdropWhile (· = '0') = kept at hz hfits hread
  have hne : kept ≠ [] := by
    rintro rfl
    have hminus : '-' ∈ List.replicate z '0' := by
      rw [List.nil_append, htext] at hz
      exact hz ▸ List.mem_cons_self
    exact absurd (List.eq_of_mem_replicate hminus) (by decide)
  have hkept : units kept = kept.length :=
    units_plain (fun c hc => hplain c (hz ▸ List.mem_append_left _ hc))
  have htotal : kept.length + z = precision + 1 := by
    have hlength := congrArg List.length hz
    rw [htext, List.length_cons, hlen, List.length_append, List.length_replicate] at hlength
    exact hlength.symm
  rw [if_neg hne] at hfits hread
  cases z with
  | zero =>
      have hself : padEnd precision kept = kept := by
        rw [padEnd, hkept, Nat.sub_eq_zero_of_le (by omega)]
        exact List.append_nil kept
      rw [hself, hkept] at hfits
      omega
  | succ k =>
      have hpadded : padEnd precision kept = kept ++ List.replicate k '0' := by
        have hk : precision - kept.length = k := by omega
        rw [padEnd, hkept, hk]
      rw [List.replicate_succ', ← List.append_assoc, ← hpadded] at hz
      have hunits : units (padEnd precision kept) = precision := by
        rw [units_plain (fun c hc => hplain c (hz ▸ List.mem_append_left _ hc)), hpadded, List.length_append,
          List.length_replicate]
        omega
      rw [padEnd_of_units hunits] at hread
      obtain ⟨c, rest, rfl⟩ := List.exists_cons_of_ne_nil hne
      rw [hpadded, List.cons_append, List.cons_append, htext] at hz
      obtain ⟨rfl, hdigits⟩ := List.cons.inj hz
      rw [hpadded, List.cons_append] at hread
      have hrest : AllDigits (rest ++ List.replicate k '0') :=
        fun c hc => allDigits_toDigits fracPart.natAbs c (hdigits ▸ List.mem_append_left _ hc)
      have hvalue : fracPart.natAbs = Nat.ofDigitChars 10 (rest ++ List.replicate k '0') 0 * 10 := by
        have htens := congrArg (fun digits => Nat.ofDigitChars 10 digits 0) hdigits
        rw [Nat.ofDigitChars_ten_toDigits, Nat.ofDigitChars_append] at htens
        rw [htens, Nat.ofDigitChars_cons, Nat.ofDigitChars_nil]
        exact (Nat.add_zero _).trans (Nat.mul_comm _ _)
      by_cases hnil : rest ++ List.replicate k '0' = []
      · rw [hnil, Nat.ofDigitChars_nil] at hvalue
        omega
      · have hsigned : readBigInt (trim (['-'] ++ (rest ++ List.replicate k '0'))) = _ :=
          read_signed (.tail _ (.tail _ (.head _))) hrest hnil
        rw [List.singleton_append, hread] at hsigned
        have heq := Option.some.inj hsigned
        rw [signed, if_pos rfl] at heq
        omega

theorem readsBack_neg (hprecision : precision ≠ 0) (hneg : fracPart < 0) (hlt : fracPart.natAbs < 10 ^ precision) :
    ReadsBack precision fracPart ↔ (Nat.toDigits 10 fracPart.natAbs).length + 1 = precision := by
  have hle := (Nat.length_toDigits_le_iff (by decide) (Nat.pos_of_ne_zero hprecision)).mpr hlt
  have htext : (toString fracPart).toList = '-' :: Nat.toDigits 10 fracPart.natAbs := by
    rw [toList_toString, if_pos hneg]
  rcases Nat.lt_or_ge (Nat.toDigits 10 fracPart.natAbs).length precision with hlt | hge
  · have hlen : ((toString fracPart).toList.leftpad precision '0').length = precision := by
      rw [htext, List.length_leftpad, List.length_cons]
      exact max_eq_left hlt
    rw [readsBack_iff_of_length hlen, List.leftpad]
    by_cases hfirst : (Nat.toDigits 10 fracPart.natAbs).length + 1 = precision
    · have hpad : precision - (toString fracPart).toList.length = 0 := by
        rw [htext, List.length_cons, hfirst, Nat.sub_self]
      rw [hpad]
      exact iff_of_true (read_toString fracPart) hfirst
    · have hpad : precision - (toString fracPart).toList.length ≠ 0 := by
        rw [htext, List.length_cons]
        omega
      refine iff_of_false (fun hread => ?_) hfirst
      rw [htext] at hread hpad
      rw [read_inner_sign hpad (allDigits_toDigits _)] at hread
      cases hread
  · have hlen := Nat.le_antisymm hle hge
    exact iff_of_false (not_readsBack_of_full hneg hlen) (by omega)

end Fractions

section RoundTrip

variable {precisions : Precisions} {asset : Asset} {precision : Nat}

theorem roundTrips_iff_parse (hp : getAssetPrecision precisions asset = .ok precision) (raw : Int) :
    RoundTrips precisions raw asset ↔
      parseDisplay precision (assetName asset) (displayText precision raw) = .ok raw := by
  have hnormal : normalizeAmount precisions (.bigint raw) asset = .ok (String.ofList (displayText precision raw)) := by
    rw [normalizeAmount, hp]
    rfl
  rw [RoundTrips, hnormal]
  constructor
  · rintro ⟨text, htext, hback⟩
    obtain rfl := Except.ok.inj htext
    obtain ⟨n, hn, heq⟩ := (toOnChainAmount_eq_ok hp).mp hback
    rw [String.toList_ofList] at hn
    rwa [← toString_inj heq] at hn
  · intro hparse
    refine ⟨_, rfl, (toOnChainAmount_eq_ok hp).mpr ⟨raw, ?_, rfl⟩⟩
    rwa [String.toList_ofList]

theorem parse_displayText_zero (name : String) (raw : Int) : parseDisplay 0 name (displayText 0 raw) = .ok raw := by
  rw [displayText, if_pos rfl]
  exact (parseDisplay_whole (point_notMem_toString raw)).mpr ⟨raw, read_toString raw, (Int.mul_one raw).symm⟩

/-- The part before the point is read back, so that the digits after it decide. -/
theorem parse_displayText (hprecision : precision ≠ 0) (name : String) (raw : Int) :
    parseDisplay precision name (displayText precision raw) = .ok raw ↔ ReadsBack precision (raw.tmod (10 ^ precision)) := by
  have hsplit := Int.tmod_add_mul_tdiv raw (10 ^ precision)
  rw [displayText_eq hprecision, parseDisplay_point (point_notMem_toString _)]
  refine and_congr_right (fun _ => ?_)
  constructor
  · rintro ⟨a, b, ha, hb, hraw⟩
    obtain rfl := Option.some.inj ((read_integerText_toString _).symm.trans ha)
    rw [Int.mul_comm] at hsplit
    obtain rfl : b = raw.tmod (10 ^ precision) := by omega
    exact hb
  · intro hread
    refine ⟨_, _, read_integerText_toString _, hread, ?_⟩
    rw [Int.mul_comm, Int.add_comm]
    exact hsplit.symm

theorem natAbs_tmod_lt (raw : Int) (precision : Nat) : (raw.tmod (10 ^ precision)).natAbs < 10 ^ precision := by
  rw [Int.natAbs_tmod, Int.natAbs_pow]
  exact Nat.mod_lt _ (Nat.pow_pos (by decide))

theorem roundTrips_iff (hp : getAssetPrecision precisions asset = .ok precision) (raw : Int) :
    RoundTrips precisions raw asset ↔ Exact precision raw := by
  rw [roundTrips_iff_parse hp]
  by_cases hprecision : precision = 0
  · subst hprecision
    exact iff_of_true (parse_displayText_zero _ raw) (.inr (.inl (by simp)))
  · rw [parse_displayText hprecision]
    have hlt := natAbs_tmod_lt raw precision
    rcases lt_or_ge (raw.tmod (10 ^ precision)) 0 with hneg | hnonneg
    · have hraw : raw < 0 := by
        by_contra hge
        exact absurd (Int.tmod_nonneg _ (not_lt.mp hge)) (not_le.mpr hneg)
      rw [readsBack_neg hprecision hneg hlt, Exact]
      constructor
      · exact fun h => .inr (.inr h)
      · rintro (h | h | h)
        · exact absurd h (not_le.mpr hraw)
        · exact absurd h hneg.ne
        · exact h
    · refine iff_of_true (readsBack_of_nonneg hprecision hnonneg hlt) ?_
      rcases lt_or_ge raw 0 with hraw | hraw
      · have hopposite := Int.tmod_nonneg (10 ^ precision) (neg_nonneg.mpr hraw.le)
        rw [Int.neg_tmod] at hopposite
        exact .inr (.inl (le_antisymm (neg_nonneg.mp hopposite) hnonneg))
      · exact .inl hraw

/-- An amount comes back just when no digits stand before its sign after the point and the sign fits there, and a text is read as its
value just when it is a numeral that has no fraction below zero, or is refused. -/
theorem normalisation_iff (hp : getAssetPrecision precisions asset = .ok precision) (raw : Int) (display : String) :
    RoundTrips precisions raw asset ∧ Parses precisions precision display asset ↔
      Exact precision raw ∧ (Refused precision display.toList ∨ Readable display.toList) :=
  and_congr (roundTrips_iff hp raw) (parses_iff hp display)

end RoundTrip

section Instances

theorem precision_native : getAssetPrecision ASSET_PRECISIONS .native = .ok 7 := rfl

theorem normalisation_iff_native : RoundTrips ASSET_PRECISIONS 15000000 .native ∧ Parses ASSET_PRECISIONS 7 "1.12345678" .native :=
  (normalisation_iff precision_native 15000000 "1.12345678").mpr ⟨.inl (by decide), .inl (.inl (by decide))⟩

/-- One unit below zero is written with the sign among the digits of the fraction and is not read back, and a negative fraction is
read as a positive one. -/
theorem normalisation_iff_fail :
    normalizeAmount ASSET_PRECISIONS (.bigint (-1)) .native = .ok "0.00000-1" ∧
      toOnChainAmount ASSET_PRECISIONS "0.00000-1" .native = .error (.syntaxError "Cannot convert 00000-1 to a BigInt") ∧
      toOnChainAmount ASSET_PRECISIONS "-1.5" .native = .ok "-5000000" ∧
      toOnChainAmount ASSET_PRECISIONS "" .native = .ok "0" ∧
      ¬ (RoundTrips ASSET_PRECISIONS (-1) .native ∧ Parses ASSET_PRECISIONS 7 "" .native) := by
  refine ⟨by rfl, by rfl, by rfl, by rfl, fun h => ?_⟩
  have hexact := (roundTrips_iff precision_native (-1)).mp h.1
  exact absurd hexact (by decide)

end Instances

end SplitSdk.AmountRoundTrip
