import SplitSdk.AmmCalculator
import SplitSdk.Fallible
import SplitSdk.Interleaving

namespace SplitSdk.ConstantProduct

open AmmCalculator BigIntText Fallible Interleaving NumberText
open Numbers hiding ofString

section Prices

theorem readBigInt_digits {ds : List Char} (h : AllDigits ds) (hne : ds ≠ []) :
    readBigInt (trim (if ds = [] then ['0'] else ds)) = some (Nat.ofDigitChars 10 ds 0 : Int) := by
  rw [if_neg hne, trim_of_plain h.plain, readBigInt_of_allDigits h hne]

theorem ne_dot {ds : List Char} (h : AllDigits ds) : ∀ c ∈ ds, decide (c ≠ '.') = true := by
  intro c hc
  refine decide_eq_true ?_
  rintro rfl
  exact absurd (h _ hc) (by decide)

theorem parseMagnitude_decimal {ws fs : List Char} {decimals : Nat} (hw : AllDigits ws) (hwne : ws ≠ [])
    (hf : AllDigits fs) (hfne : fs ≠ []) (hlen : fs.length = decimals) :
    parseMagnitude (ws ++ '.' :: fs) decimals =
      some ((Nat.ofDigitChars 10 ws 0 : Int) * 10 ^ decimals + (Nat.ofDigitChars 10 fs 0 : Int)) := by
  have hspan : (ws ++ '.' :: fs).span (fun c => decide (c ≠ '.')) = (ws, '.' :: fs) := by
    rw [List.span_eq_takeWhile_dropWhile, List.takeWhile_append_of_pos (ne_dot hw),
      List.dropWhile_append_of_pos (ne_dot hw)]
    simp
  have htake : fs.takeWhile (fun c => decide (c ≠ '.')) = fs := List.takeWhile_eq_self_iff.mpr (ne_dot hf)
  have hpad : (fs.rightpad decimals '0').take decimals = fs := by
    rw [List.rightpad, hlen, Nat.sub_self, List.replicate_zero, List.append_nil, List.take_of_length_le hlen.le]
  unfold parseMagnitude
  simp only [hspan, List.drop_one, List.tail_cons, htake, hpad, readBigInt_digits hw hwne, readBigInt_digits hf hfne]

theorem parseMagnitude_formatMagnitude (abs : Nat) {decimals : Nat} (hd : 0 < decimals) :
    parseMagnitude (formatMagnitude abs decimals) decimals = some (abs : Int) := by
  have hmod := Nat.mod_lt abs (Nat.pow_pos (n := decimals) (by decide : 0 < 10))
  obtain ⟨fs, hfs⟩ : ∃ fs, fs = (Nat.toDigits 10 (abs % 10 ^ decimals)).leftpad decimals '0' := ⟨_, rfl⟩
  have hdigits : AllDigits fs := by
    rw [hfs, List.leftpad]
    exact (allDigits_replicate _).append (allDigits_toDigits _)
  have hvalue : Nat.ofDigitChars 10 fs 0 = abs % 10 ^ decimals := by
    rw [hfs, List.leftpad, Nat.ofDigitChars_append, ofDigitChars_replicate, Nat.ofDigitChars_ten_toDigits]
  have hlen : fs.length = decimals := by
    rw [hfs, List.length_leftpad]
    exact max_eq_left ((Nat.length_toDigits_le_iff (by decide) hd).mpr hmod)
  rw [formatMagnitude, if_pos hd, ← hfs, parseMagnitude_decimal (allDigits_toDigits _) Nat.toDigits_ne_nil hdigits
    (List.ne_nil_of_length_pos (hlen ▸ hd)) hlen, Nat.ofDigitChars_ten_toDigits, hvalue]
  exact_mod_cast congrArg some (congrArg Int.ofNat (Nat.div_add_mod' abs (10 ^ decimals)))

/-- Prices are read back as they were written. -/
theorem parseScaled_formatScaled (value : Int) {decimals : Nat} (hd : 0 < decimals) :
    parseScaled (formatScaled value decimals) decimals = some value := by
  unfold parseScaled formatScaled
  by_cases hneg : value < 0
  · rw [if_pos hneg, List.head?_cons, if_pos rfl, List.tail_cons, parseMagnitude_formatMagnitude _ hd, Option.map_some]
    congr 1
    omega
  · have hhead : (formatMagnitude value.natAbs decimals).head? ≠ some '-' := by
      rw [formatMagnitude, if_pos hd, List.head?_append_of_ne_nil _ Nat.toDigits_ne_nil]
      intro h
      exact absurd (allDigits_toDigits _ _ (List.mem_of_mem_head? h)) (by decide)
    rw [if_neg hneg, if_neg hhead, parseMagnitude_formatMagnitude _ hd]
    congr 1
    omega

theorem computePriceImpact_isSome (reserveIn reserveOut outputAmount amountIn : Int) :
    ∃ impact, computePriceImpact (computeSpotPrice reserveIn reserveOut)
      (computeEffectivePrice outputAmount amountIn) = some impact := by
  have hspot : ∃ spot, parseScaled (computeSpotPrice reserveIn reserveOut) 7 = some spot := by
    unfold computeSpotPrice
    split_ifs
    · exact ⟨0, by decide⟩
    · exact ⟨_, parseScaled_formatScaled _ (by decide)⟩
  have heffective : ∃ effective, parseScaled (computeEffectivePrice outputAmount amountIn) 7 = some effective := by
    unfold computeEffectivePrice
    split_ifs
    · exact ⟨0, by decide⟩
    · exact ⟨_, parseScaled_formatScaled _ (by decide)⟩
  obtain ⟨spot, hspot⟩ := hspot
  obtain ⟨effective, heffective⟩ := heffective
  unfold computePriceImpact
  rw [hspot, heffective]
  dsimp only
  split_ifs
  · exact ⟨_, rfl⟩
  · exact ⟨_, rfl⟩

end Prices

section Statement

structure SwapOrder where
  inputAsset : String
  inputAmount : String
  maxRatio : JsNumber := defaultMaxInputRatio

def reserveIn (reserves : List Reserve) (order : SwapOrder) : Option Int :=
  (reserves.find? (fun r => r.asset = order.inputAsset)).bind (fun r => ofString r.amount)

def reserveOut (reserves : List Reserve) (order : SwapOrder) : Option Int :=
  (reserves.find? (fun r => r.asset ≠ order.inputAsset)).bind (fun r => ofString r.amount)

/-- The reserves after a swap that is made as it was estimated; nothing where the estimate throws. -/
def applySwap (reserves : List Reserve) (order : SwapOrder) : Option (List Reserve) := do
  let estimate ← (estimateSwapOutput reserves order.inputAmount order.inputAsset order.maxRatio).toOption
  let amountIn ← ofString order.inputAmount
  let outputAmount ← ofString estimate.outputAmount
  reserves.mapM (fun r => (ofString r.amount).map (fun amount =>
    { r with amount := toString (if r.asset = order.inputAsset then amount + amountIn else amount - outputAmount) }))

def product (reserves : List Reserve) : Option Int :=
  (reserves.mapM (fun r => ofString r.amount)).map List.prod

/-- A pool of two assets, with its reserves. -/
def IsPool (reserves : List Reserve) (x y : Int) : Prop :=
  ∃ a b, reserves = [a, b] ∧ a.asset ≠ b.asset ∧ ofString a.amount = some x ∧ ofString b.amount = some y

/-- The product of the reserves after a swap: rounded down to a multiple of the new reserve of the input asset. -/
def productAfter (reserveIn reserveOut amountIn : Int) : Int :=
  if 0 ≤ amountIn then reserveIn * reserveOut - reserveIn * reserveOut % (reserveIn + amountIn)
  else reserveIn * reserveOut + amountIn * reserveOut

/-- The new reserve of the input asset divides the product. -/
def Exact (reserves : List Reserve) (order : SwapOrder) : Prop :=
  ∀ x ∈ reserveIn reserves order, ∀ y ∈ reserveOut reserves order, ∀ a ∈ ofString order.inputAmount,
    0 ≤ a ∧ x + a ∣ x * y

end Statement

section Swaps

variable {reserves after : List Reserve} {order : SwapOrder} {x y : Int}

/-- What comes out for an amount that goes in. -/
def output (x y a : Int) : Int := if a ≤ 0 then 0 else y - (x * y).tdiv (x + a)

theorem product_of_isPool (h : IsPool reserves x y) : product reserves = some (x * y) := by
  obtain ⟨a, b, rfl, -, ha, hb⟩ := h
  rw [product, List.mapM_cons, ha, List.mapM_cons, hb]
  simp

theorem swapEstimate_ok (inputAsset outputAsset : String) (x y a : Int) :
    ∃ estimate, swapEstimate inputAsset x y a outputAsset = .ok estimate ∧
      estimate.outputAmount = toString (y - (x * y).tdiv (x + a)) := by
  obtain ⟨impact, himpact⟩ := computePriceImpact_isSome x y (y - (x * y).tdiv (x + a)) a
  unfold swapEstimate
  simp only [himpact]
  exact ⟨_, rfl, rfl⟩

/-- An estimate that does not throw is made for two positive reserves. -/
theorem estimate_spec {inputAmount inputAsset : String} {maxRatio : JsNumber} {estimate : PoolSwapEstimate}
    (h : estimateSwapOutput reserves inputAmount inputAsset maxRatio = .ok estimate) :
    ∃ inputReserve outputReserve x y a, reserves.find? (fun r => r.asset = inputAsset) = some inputReserve ∧
      reserves.find? (fun r => r.asset ≠ inputAsset) = some outputReserve ∧
      ofString inputReserve.amount = some x ∧ ofString outputReserve.amount = some y ∧
      ofString inputAmount = some a ∧ 0 < x ∧ 0 < y ∧ ofString estimate.outputAmount = some (output x y a) := by
  unfold estimateSwapOutput at h
  split_ifs at h with hlen
  split at h
  next inputReserve outputReserve hin hout =>
    obtain ⟨x, hx, h⟩ := bind_eq_ok.mp h
    obtain ⟨y, hy, h⟩ := bind_eq_ok.mp h
    obtain ⟨a, ha, h⟩ := bind_eq_ok.mp h
    split_ifs at h with hzero hnone
    · rw [not_or, not_le, not_le] at hzero
      cases h
      refine ⟨inputReserve, outputReserve, x, y, a, hin, hout, bigInt_eq_ok.mp hx, bigInt_eq_ok.mp hy,
        bigInt_eq_ok.mp ha, hzero.1, hzero.2, ?_⟩
      rw [output, if_pos hnone]
      exact ofString_toString 0
    · rw [not_or, not_le, not_le] at hzero
      obtain ⟨exceeds, -, h⟩ := bind_eq_ok.mp h
      split_ifs at h with hexceeds
      obtain ⟨estimate', hestimate, hout'⟩ := swapEstimate_ok inputAsset outputReserve.asset x y a
      rw [hestimate] at h
      cases h
      refine ⟨inputReserve, outputReserve, x, y, a, hin, hout, bigInt_eq_ok.mp hx, bigInt_eq_ok.mp hy,
        bigInt_eq_ok.mp ha, hzero.1, hzero.2, ?_⟩
      rw [output, if_neg hnone, hout']
      exact ofString_toString _
  next => cases h

/-- The product after a swap, whichever of the two assets goes in. -/
theorem output_product {x y : Int} (hx : 0 < x) (hy : 0 < y) (a : Int) :
    (x + a) * (y - output x y a) = productAfter x y a := by
  unfold output productAfter
  rcases lt_trichotomy a 0 with hneg | rfl | hpos
  · rw [if_pos hneg.le, if_neg (not_le.mpr hneg)]
    ring
  · rw [if_pos le_rfl, if_pos le_rfl, add_zero, Int.mul_emod_right]
    ring
  · rw [if_neg (not_le.mpr hpos), if_pos hpos.le, Int.tdiv_eq_ediv_of_nonneg (mul_pos hx hy).le]
    have := Int.mul_ediv_add_emod (x * y) (x + a)
    rw [sub_sub_cancel]
    omega

theorem productAfter_le {x y : Int} (hx : 0 < x) (hy : 0 < y) (a : Int) :
    productAfter x y a ≤ x * y ∧ (productAfter x y a = x * y ↔ 0 ≤ a ∧ x + a ∣ x * y) := by
  unfold productAfter
  split_ifs with ha
  · have hmod := Int.emod_nonneg (x * y) (by omega : x + a ≠ 0)
    refine ⟨by omega, ?_⟩
    rw [Int.dvd_iff_emod_eq_zero]
    constructor
    · intro h
      exact ⟨ha, by omega⟩
    · rintro ⟨-, h⟩
      omega
  · have := mul_neg_of_neg_of_pos (not_le.mp ha) hy
    refine ⟨by omega, iff_of_false (by omega) (fun h => ha h.1)⟩

theorem find_pair {ra rb inputReserve outputReserve : Reserve} {asset : String} (hne : ra.asset ≠ rb.asset)
    (hin : [ra, rb].find? (fun r => r.asset = asset) = some inputReserve)
    (hout : [ra, rb].find? (fun r => r.asset ≠ asset) = some outputReserve) :
    (ra.asset = asset ∧ rb.asset ≠ asset ∧ inputReserve = ra ∧ outputReserve = rb) ∨
      (ra.asset ≠ asset ∧ rb.asset = asset ∧ inputReserve = rb ∧ outputReserve = ra) := by
  by_cases ha : ra.asset = asset
  · have hb : rb.asset ≠ asset := fun h => hne (ha.trans h.symm)
    simp [ha] at hin
    simp [ha, hb] at hout
    exact .inl ⟨ha, hb, hin.symm, hout.symm⟩
  · simp [ha] at hin hout
    exact .inr ⟨ha, hin.1, hin.2.symm, hout.symm⟩

/-- The reserves that a swap finds, and the pool that it leaves. -/
theorem applySwap_spec (hpool : IsPool reserves x y) (h : applySwap reserves order = some after) :
    ∃ xIn yOut a x' y', reserveIn reserves order = some xIn ∧ reserveOut reserves order = some yOut ∧
      ofString order.inputAmount = some a ∧ 0 < xIn ∧ 0 < yOut ∧ xIn * yOut = x * y ∧
        IsPool after x' y' ∧ x' * y' = productAfter xIn yOut a := by
  obtain ⟨ra, rb, rfl, hne, hra, hrb⟩ := hpool
  simp only [applySwap, Option.bind_eq_bind, Option.bind_eq_some_iff] at h
  obtain ⟨estimate, hestimate, a, ha, out, hout, h⟩ := h
  have hestimate := toOption_eq_some.mp hestimate
  obtain ⟨inputReserve, outputReserve, xIn, yOut, a', hin, hother, hx, hy, ha', hxpos, hypos, houtput⟩ :=
    estimate_spec hestimate
  obtain rfl : a = a' := Option.some.inj (ha.symm.trans ha')
  obtain rfl : out = output xIn yOut a := Option.some.inj (hout.symm.trans houtput)
  have hproduct := output_product hxpos hypos a
  have hfound : reserveIn [ra, rb] order = some xIn ∧ reserveOut [ra, rb] order = some yOut := by
    rw [reserveIn, reserveOut, hin, hother]
    exact ⟨hx, hy⟩
  rw [List.mapM_cons, hra, List.mapM_cons, hrb] at h
  obtain rfl := Option.some.inj h
  obtain ⟨haIn, hbOut, rfl, rfl⟩ | ⟨haOut, hbIn, rfl, rfl⟩ := find_pair hne hin hother
  · obtain rfl : x = xIn := Option.some.inj (hra.symm.trans hx)
    obtain rfl : y = yOut := Option.some.inj (hrb.symm.trans hy)
    refine ⟨x, y, a, x + a, y - output x y a, hfound.1, hfound.2, ha, hxpos, hypos, rfl, ⟨_, _, rfl, hne, ?_, ?_⟩,
      hproduct⟩
    · dsimp only
      rw [if_pos haIn]
      exact ofString_toString _
    · dsimp only
      rw [if_neg hbOut]
      exact ofString_toString _
  · obtain rfl : x = yOut := Option.some.inj (hra.symm.trans hy)
    obtain rfl : y = xIn := Option.some.inj (hrb.symm.trans hx)
    refine ⟨y, x, a, x - output y x a, y + a, hfound.1, hfound.2, ha, hxpos, hypos, mul_comm y x,
      ⟨_, _, rfl, hne, ?_, ?_⟩, (mul_comm _ _).trans hproduct⟩
    · dsimp only
      rw [if_neg haOut]
      exact ofString_toString _
    · dsimp only
      rw [if_pos hbIn]
      exact ofString_toString _

end Swaps

section Result

/-- The product after one swap, and what comes of it over a chain: it never rises, and it is kept exactly by the swaps whose new
reserve of the input asset divides it. -/
theorem swaps_never_raise_product {reserves : List Reserve} {x y : Int} (hpool : IsPool reserves x y) :
    (∀ order after, applySwap reserves order = some after → ∃ xIn yOut a,
      reserveIn reserves order = some xIn ∧ reserveOut reserves order = some yOut ∧
        ofString order.inputAmount = some a ∧ product after = some (productAfter xIn yOut a)) ∧
      ∀ orders after, run applySwap reserves orders = some after →
        ∃ k, product after = some k ∧ k ≤ x * y ∧ (k = x * y ↔ Allowed applySwap Exact reserves orders) := by
  constructor
  · intro order after h
    obtain ⟨xIn, yOut, a, x', y', hin, hout, ha, -, -, -, hafter, hproduct⟩ := applySwap_spec hpool h
    exact ⟨xIn, yOut, a, hin, hout, ha, hproduct ▸ product_of_isPool hafter⟩
  · intro orders after hrun
    induction orders generalizing reserves x y with
    | nil =>
        cases hrun
        exact ⟨x * y, product_of_isPool hpool, le_rfl, iff_of_true rfl trivial⟩
    | cons order orders ih =>
        obtain ⟨next, hnext, hrun⟩ := run_cons hrun
        obtain ⟨xIn, yOut, a, x', y', hin, hout, ha, hxpos, hypos, hk, hpool', hproduct⟩ := applySwap_spec hpool hnext
        obtain ⟨k, hk', hle, hiff⟩ := ih hpool' hrun
        obtain ⟨hle', hiff'⟩ := productAfter_le hxpos hypos a
        rw [← hproduct, hk] at hle' hiff'
        refine ⟨k, hk', hle.trans hle', ?_⟩
        have hexact : Exact reserves order ↔ 0 ≤ a ∧ xIn + a ∣ xIn * yOut := by
          simp [Exact, hin, hout, ha]
        rw [Allowed, hexact, hk, ← hiff']
        constructor
        · intro heq
          have hnextEq : x' * y' = x * y := le_antisymm hle' (heq ▸ hle)
          refine ⟨hnextEq, ?_⟩
          rintro t ht
          obtain rfl := Option.some.inj (hnext.symm.trans ht)
          exact hiff.mp (heq.trans hnextEq.symm)
        · rintro ⟨hnextEq, hrest⟩
          exact (hiff.mpr (hrest next hnext)).trans hnextEq

def pool : List Reserve := [⟨"XLM", "1000"⟩, ⟨"USDC", "1000"⟩]

def sale : SwapOrder := { inputAsset := "XLM", inputAmount := "100" }

theorem isPool_pool : IsPool pool 1000 1000 := ⟨_, _, rfl, by decide, by decide +kernel, by rfl⟩

theorem sale_applied :
    applySwap pool sale = some [⟨"XLM", "1100"⟩, ⟨"USDC", "909"⟩] := by
  decide +kernel

theorem swaps_never_raise_product_sale :
    ∃ k, product [⟨"XLM", "1100"⟩, ⟨"USDC", "909"⟩] = some k ∧ k ≤ 1000 * 1000 ∧
      (k = 1000 * 1000 ↔ Allowed applySwap Exact pool [sale]) :=
  (swaps_never_raise_product isPool_pool).2 [sale] _ (run_step sale_applied rfl)

/-- A sale of 100 into reserves of 1000 each takes 91 out and leaves a product of 999900. -/
theorem sale_lowers_product : ∃ after k, IsPool pool 1000 1000 ∧ applySwap pool sale = some after ∧
    product after = some k ∧ k < 1000 * 1000 :=
  ⟨_, 999900, isPool_pool, sale_applied, by rfl, by decide⟩

end Result

end SplitSdk.ConstantProduct
