import SplitSdk.CircularBuffer
import SplitSdk.Stats

namespace SplitSdk.FeeTrend

open Numbers Simulations CircularBuffer RoundingMonotone Stats

section Model

inductive FeePercentile
  | p50
  | p75
  | p95
  | p99
  deriving DecidableEq

def FeePercentile.target : FeePercentile → JsNumber
  | .p50 => .finite 50
  | .p75 => .finite 75
  | .p95 => .finite 95
  | .p99 => .finite 99

structure FeeSample where
  value : JsNumber
  capturedAt : Nat
  deriving DecidableEq

/-- The branded integers. -/
abbrev WindowCapacity := {n : Nat // 5 ≤ n ∧ n ≤ 100}

def toWindowCapacity (size : JsNumber) : Except String WindowCapacity :=
  match positiveInteger size with
  | some n =>
      if h : 5 ≤ n.1 ∧ n.1 ≤ 100 then .ok ⟨n.1, h⟩
      else .error ("windowSize must be an integer between 5 and 100, got " ++ toString size)
  | none => .error ("windowSize must be an integer between 5 and 100, got " ++ toString size)

structure Analyzer where
  buffer : Buffer FeeSample
  ttlMs : JsNumber
  now : Nat

/-- An analyzer for a window that was checked. -/
def start (windowSize : WindowCapacity) (ttlMs : JsNumber) (now : Nat) : Analyzer where
  buffer := empty FeeSample ⟨windowSize.1, (Nat.succ_pos 4).trans_le windowSize.2.1⟩
  ttlMs := ttlMs
  now := now

def create (windowSize ttlMs : Option JsNumber) (now : Nat) : Except String Analyzer :=
  (toWindowCapacity (windowSize.getD (.finite 20))).map (fun n => start n (ttlMs.getD (.finite (5 * 60 * 1000))) now)

/-- `sample.capturedAt < cutoff`. -/
def isExpired (ttlMs : JsNumber) (now : Nat) (sample : FeeSample) : Bool :=
  (JsNumber.finite sample.capturedAt).lt ((JsNumber.finite now).sub ttlMs)

def evictExpired (a : Analyzer) : Analyzer :=
  { a with buffer := (a.buffer.evictOldestWhile (fun sample => sample.any (isExpired a.ttlMs a.now))).2 }

/-- The fee that is recommended for the values of some samples. -/
def feeOf (percentileTarget : FeePercentile) (values : List JsNumber) : Except String JsNumber :=
  if values = [] then .error "No fee samples available; call sample() before recommendedFee()"
  else (percentile values percentileTarget.target).map mathCeil

def recommendedFee (percentileTarget : FeePercentile) (a : Analyzer) : Except String JsNumber :=
  feeOf percentileTarget (a.buffer.toArray.filterMap (fun sample => sample.map FeeSample.value))

inductive Event
  | elapse (ms : Nat)
  /-- Horizon answers a call of `sample`; the calls may overlap. -/
  | sampled (value : JsNumber)
  | recommendedFee (percentileTarget : FeePercentile)
  | sampleCount

inductive Answer
  | nothing
  | fee (result : Except String JsNumber)
  | count (n : Nat)

def step (a : Analyzer) : Event → Analyzer × Answer
  | .elapse ms => ({ a with now := a.now + ms }, .nothing)
  | .sampled value => ({ a with buffer := a.buffer.push ⟨value, a.now⟩ }, .nothing)
  | .recommendedFee percentileTarget => (evictExpired a, .fee (recommendedFee percentileTarget (evictExpired a)))
  | .sampleCount => (evictExpired a, .count (evictExpired a).buffer.count)

end Model

section History

/-- All samples that were ever captured, oldest first. -/
structure History where
  samples : List FeeSample
  now : Nat

variable (windowSize : Nat) (ttlMs : JsNumber)

/-- The samples among the last `windowSize` that have not expired. -/
def History.recent (h : History) : List FeeSample :=
  (h.samples.rtake windowSize).filter (fun sample => !isExpired ttlMs h.now sample)

/-- The answers as they follow from the history alone, which nothing is ever removed from. -/
def historyStep (h : History) : Event → History × Answer
  | .elapse ms => ({ h with now := h.now + ms }, .nothing)
  | .sampled value => ({ h with samples := h.samples ++ [⟨value, h.now⟩] }, .nothing)
  | .recommendedFee percentileTarget =>
      (h, .fee (feeOf percentileTarget ((h.recent windowSize ttlMs).map FeeSample.value)))
  | .sampleCount => (h, .count (h.recent windowSize ttlMs).length)

end History

section Expiry

variable {ttlMs : JsNumber} {now : Nat} {sample : FeeSample}

theorem isExpired_later (h : isExpired ttlMs now sample) (ms : Nat) : isExpired ttlMs (now + ms) sample := by
  cases ttlMs with
  | finite ttl =>
      have hle : (now : ℚ) - ttl ≤ (now + ms : Nat) - ttl := by
        push_cast
        linarith [Nat.cast_nonneg (α := ℚ) ms]
      exact lt_le_trans h (fl_mono hle)
  | _ => exact h

theorem isExpired_earlier {earlier : FeeSample} (hle : earlier.capturedAt ≤ sample.capturedAt) (h : isExpired ttlMs now sample) :
    isExpired ttlMs now earlier :=
  le_lt_trans (JsNumber.finite_le_finite_iff.mpr (Nat.cast_le.mpr hle)) h

end Expiry

section Refinement

variable {windowSize : Nat} {ttlMs : JsNumber}

/-- The buffer holds the last samples without some that were expired at their removal and still are. -/
structure Tracks (windowSize : Nat) (ttlMs : JsNumber) (a : Analyzer) (h : History) : Prop where
  windowSize_pos : 0 < windowSize
  now : a.now = h.now
  ttl : a.ttlMs = ttlMs
  captured : ∀ sample ∈ h.samples, sample.capturedAt ≤ h.now
  sorted : h.samples.Pairwise (fun x y => x.capturedAt ≤ y.capturedAt)
  window : ∃ removed xs, Holds windowSize a.buffer xs ∧ h.samples.rtake windowSize = removed ++ xs ∧
    ∀ sample ∈ removed, isExpired ttlMs h.now sample

variable {a : Analyzer} {h : History}

theorem Tracks.elapse (ht : Tracks windowSize ttlMs a h) (ms : Nat) :
    Tracks windowSize ttlMs { a with now := a.now + ms } { h with now := h.now + ms } := by
  obtain ⟨removed, xs, hholds, hsplit, hexpired⟩ := ht.window
  exact ⟨ht.windowSize_pos, congrArg (· + ms) ht.now, ht.ttl, fun sample hs => (ht.captured sample hs).trans (Nat.le_add_right _ _),
    ht.sorted, removed, xs, hholds, hsplit, fun sample hs => isExpired_later (hexpired sample hs) ms⟩

theorem Tracks.sampled (ht : Tracks windowSize ttlMs a h) (value : JsNumber) :
    Tracks windowSize ttlMs { a with buffer := a.buffer.push ⟨value, a.now⟩ }
      { h with samples := h.samples ++ [⟨value, h.now⟩] } := by
  obtain ⟨removed, xs, hholds, hsplit, hexpired⟩ := ht.window
  obtain ⟨rest, hrest, hpush⟩ := BoundedWindows.push_append (x := ⟨value, h.now⟩)
    (hsplit ▸ BoundedWindows.length_rtake_le h.samples windowSize)
  refine ⟨ht.windowSize_pos, ht.now, ht.ttl, ?_, ?_, rest, BoundedWindows.push windowSize xs ⟨value, h.now⟩, ?_, ?_, ?_⟩
  · intro sample hs
    rcases List.mem_append.mp hs with hs | hs
    · exact ht.captured sample hs
    · rw [List.mem_singleton.mp hs]
  · rw [List.pairwise_append]
    refine ⟨ht.sorted, List.pairwise_singleton _ _, fun x hx y hy => ?_⟩
    rw [List.mem_singleton.mp hy]
    exact ht.captured x hx
  · rw [ht.now]
    exact hholds.push ⟨value, h.now⟩
  · rw [BoundedWindows.rtake_concat ht.windowSize_pos, hsplit, hpush]
  · exact fun sample hs => hexpired sample (hrest.subset hs)

/-- Eviction leaves the samples that are left in the history. -/
theorem Tracks.evictExpired (ht : Tracks windowSize ttlMs a h) :
    Tracks windowSize ttlMs (evictExpired a) h ∧ Holds windowSize (evictExpired a).buffer (h.recent windowSize ttlMs) := by
  obtain ⟨removed, xs, hholds, hsplit, hexpired⟩ := ht.window
  have hsorted : (removed ++ xs).Pairwise (fun x y => x.capturedAt ≤ y.capturedAt) := by
    rw [← hsplit]
    exact ht.sorted.sublist (List.drop_sublist _ _)
  have hrecent : xs.dropWhile (isExpired ttlMs h.now) = h.recent windowSize ttlMs := by
    rw [History.recent, hsplit, List.filter_append, List.filter_eq_nil_iff.mpr (by simpa using hexpired), List.nil_append]
    exact BoundedWindows.dropWhile_eq_filter
      ((List.pairwise_append.mp hsorted).2.1.imp (fun hle hy => isExpired_earlier hle hy))
  have hevicted : Holds windowSize (FeeTrend.evictExpired a).buffer (h.recent windowSize ttlMs) := by
    rw [← hrecent, ← ht.now, ← ht.ttl]
    exact (hholds.evict (fun sample => sample.any (isExpired a.ttlMs a.now))).2
  refine ⟨⟨ht.windowSize_pos, ht.now, ht.ttl, ht.captured, ht.sorted, removed ++ xs.takeWhile (isExpired ttlMs h.now), _,
    hevicted, ?_, ?_⟩, hevicted⟩
  · rw [← hrecent, List.append_assoc, List.takeWhile_append_dropWhile, hsplit]
  · intro sample hs
    rcases List.mem_append.mp hs with hs | hs
    · exact hexpired sample hs
    · exact List.mem_takeWhile_imp hs

theorem tracks_start (windowSize : WindowCapacity) (ttlMs : JsNumber) (now : Nat) :
    Tracks windowSize.1 ttlMs (start windowSize ttlMs now) ⟨[], now⟩ :=
  ⟨(Nat.succ_pos 4).trans_le windowSize.2.1, rfl, rfl, fun _ hs => absurd hs List.not_mem_nil, List.Pairwise.nil,
    [], [], ⟨rfl, rfl⟩, by simp [List.rtake], fun _ hs => absurd hs List.not_mem_nil⟩

theorem values_of_holds {xs : List FeeSample} {s : Buffer FeeSample} (hs : Holds windowSize s xs) :
    s.toArray.filterMap (fun sample => sample.map FeeSample.value) = xs.map FeeSample.value := by
  rw [hs.toArray, List.filterMap_map]
  exact List.filterMap_eq_map ▸ rfl

theorem simulates : Simulates (Tracks windowSize ttlMs) step (historyStep windowSize ttlMs) := by
  intro a h event ht
  cases event with
  | elapse ms => exact ⟨rfl, ht.elapse ms⟩
  | sampled value => exact ⟨rfl, ht.sampled value⟩
  | recommendedFee percentileTarget =>
      obtain ⟨hevicted, hholds⟩ := ht.evictExpired
      refine ⟨?_, hevicted⟩
      simp only [step, historyStep, recommendedFee, values_of_holds hholds]
  | sampleCount =>
      obtain ⟨hevicted, hholds⟩ := ht.evictExpired
      exact ⟨congrArg Answer.count hholds.count, hevicted⟩

/-- In every run the analyzer answers from the samples among the last `windowSize` that have not expired by then. -/
theorem answers_as_history (windowSize : WindowCapacity) (ttlMs : JsNumber) (now : Nat) (events : List Event) :
    answers step (start windowSize ttlMs now) events =
      answers (historyStep windowSize.1 ttlMs) ⟨[], now⟩ events :=
  answers_eq simulates (tracks_start windowSize ttlMs now) events

end Refinement

section Fees

variable {windowSize : WindowCapacity} {ttlMs : JsNumber} {now : Nat}

/-- Horizon answers with whole numbers of stroops. -/
def WholeStroops : Event → Prop
  | .sampled value => ∃ m : Nat, value = .finite m ∧ m < 2 ^ 53
  | _ => True

theorem whole_samples {events : List Event} (hwhole : ∀ e ∈ events, WholeStroops e) {h : History}
    (hsamples : ∀ sample ∈ h.samples, ∃ m : Nat, sample.value = .finite m ∧ m < 2 ^ 53) :
    ∀ sample ∈ (after (historyStep windowSize.1 ttlMs) h events).samples, ∃ m : Nat, sample.value = .finite m ∧ m < 2 ^ 53 := by
  induction events generalizing h with
  | nil => exact hsamples
  | cons e events ih =>
      obtain ⟨he, hes⟩ := List.forall_mem_cons.mp hwhole
      refine ih hes ?_
      cases e with
      | sampled value =>
          intro sample hs
          rcases List.mem_append.mp hs with hs | hs
          · exact hsamples sample hs
          · rw [List.mem_singleton.mp hs]
            exact he
      | _ => exact hsamples

theorem exists_numbers {values : List JsNumber} (h : ∀ v ∈ values, ∃ m : Nat, v = .finite m ∧ m < 2 ^ 53) :
    ∃ ms : List Nat, values = numbers ms ∧ ∀ m ∈ ms, m < 2 ^ 53 := by
  induction values with
  | nil => exact ⟨[], rfl, fun _ hm => absurd hm List.not_mem_nil⟩
  | cons v values ih =>
      obtain ⟨⟨m, rfl, hm⟩, hvalues⟩ := List.forall_mem_cons.mp h
      obtain ⟨ms, rfl, hms⟩ := ih hvalues
      exact ⟨m :: ms, rfl, List.forall_mem_cons.mpr ⟨hm, hms⟩⟩

theorem target_range (p : FeePercentile) : ∃ t : ℚ, p.target = .finite t ∧ 0 ≤ t ∧ t ≤ 100 := by
  cases p <;> exact ⟨_, rfl, by norm_num, by norm_num⟩

theorem target_le {p q : ℚ} (h : p ≤ q) : (JsNumber.finite p).le (.finite q) := JsNumber.finite_le_finite_iff.mpr h

/-- The fees for whole values are whole, lie between two of the values, and grow with the percentile. -/
theorem feeOf_numbers {ms : List Nat} (hne : ms ≠ []) (hlength : ms.length ≤ 2 ^ 53) (hsmall : ∀ m ∈ ms, m < 2 ^ 53) :
    ∃ fee : FeePercentile → Nat, (∀ p, feeOf p (numbers ms) = .ok (.finite (fee p))) ∧
      (∀ p, (∃ m ∈ ms, m ≤ fee p) ∧ ∃ m ∈ ms, fee p ≤ m) ∧
      ∀ p p', p.target.le p'.target → fee p ≤ fee p' := by
  have hvalues : numbers ms ≠ [] := by simpa [numbers] using hne
  have hvalue : ∀ p : FeePercentile, ∃ v : ℚ, percentile (numbers ms) p.target = .ok (.finite v) ∧ (∃ m ∈ ms, (m : ℚ) ≤ v) ∧
      ∃ m ∈ ms, v ≤ (m : ℚ) := by
    intro p
    obtain ⟨t, ht, h0, h1⟩ := target_range p
    rw [ht]
    exact percentile_between hne hlength hsmall h0 h1
  choose v hv hlow hhigh using hvalue
  have hceil : ∀ p, ((⌈v p⌉.toNat : Nat) : Int) = ⌈v p⌉ := by
    intro p
    obtain ⟨m, -, hm⟩ := hlow p
    exact Int.toNat_of_nonneg (Int.ceil_nonneg ((Nat.cast_nonneg m).trans hm))
  refine ⟨fun p => ⌈v p⌉.toNat, fun p => ?_, fun p => ⟨?_, ?_⟩, fun p p' hle => ?_⟩
  · rw [feeOf, if_neg hvalues, hv p]
    change Except.ok (JsNumber.finite (⌈v p⌉ : ℚ)) = _
    rw [← hceil p]
    rfl
  · obtain ⟨m, hm, hle⟩ := hlow p
    refine ⟨m, hm, ?_⟩
    have : (m : Int) ≤ ⌈v p⌉ := by exact_mod_cast hle.trans (Int.le_ceil (v p))
    dsimp only
    omega
  · obtain ⟨m, hm, hle⟩ := hhigh p
    refine ⟨m, hm, ?_⟩
    have : ⌈v p⌉ ≤ (m : Int) := Int.ceil_le.mpr (by exact_mod_cast hle)
    dsimp only
    omega
  · obtain ⟨t, ht, h0, -⟩ := target_range p
    obtain ⟨t', ht', -, h1⟩ := target_range p'
    have hp := hv p
    have hp' := hv p'
    rw [ht] at hp
    rw [ht'] at hp'
    rw [ht, ht', JsNumber.finite_le_finite_iff] at hle
    exact Int.toNat_le_toNat (Int.ceil_le_ceil (percentile_mono hne hlength hsmall h0 hle h1 hp hp'))

/-- After every run the fees that are recommended at once for all percentiles are those of some samples among the last ones that
have not expired. -/
theorem fees_in_order {events : List Event} (hwhole : ∀ e ∈ events, WholeStroops e)
    (hrecent : (after (historyStep windowSize.1 ttlMs) ⟨[], now⟩ events).recent windowSize.1 ttlMs ≠ []) :
    ∃ fee : FeePercentile → Nat,
      (∀ p, recommendedFee p (evictExpired (after step (start windowSize ttlMs now) events)) = .ok (.finite (fee p))) ∧
      (∀ p, ∃ low ∈ (after (historyStep windowSize.1 ttlMs) ⟨[], now⟩ events).recent windowSize.1 ttlMs,
        ∃ high ∈ (after (historyStep windowSize.1 ttlMs) ⟨[], now⟩ events).recent windowSize.1 ttlMs,
          low.value.le (.finite (fee p)) ∧ (JsNumber.finite (fee p)).le high.value) ∧
      fee .p50 ≤ fee .p75 ∧ fee .p75 ≤ fee .p95 ∧ fee .p95 ≤ fee .p99 := by
  have ht := related_after simulates (tracks_start windowSize ttlMs now) events
  have hsamples := @whole_samples windowSize ttlMs events hwhole ⟨[], now⟩
    (fun _ hs => absurd hs List.not_mem_nil)
  generalize after (historyStep windowSize.1 ttlMs) ⟨[], now⟩ events = h at *
  have hsubset : ∀ sample ∈ h.recent windowSize.1 ttlMs, sample ∈ h.samples := fun sample hs =>
    List.mem_of_mem_drop (List.mem_filter.mp hs).1
  obtain ⟨ms, hms, hsmall⟩ := @exists_numbers ((h.recent windowSize.1 ttlMs).map FeeSample.value) (by
    intro v hv
    obtain ⟨sample, hs, rfl⟩ := List.mem_map.mp hv
    exact hsamples sample (hsubset sample hs))
  have hne : ms ≠ [] := by
    rintro rfl
    exact hrecent (List.map_eq_nil_iff.mp hms)
  have hlength : ms.length ≤ 2 ^ 53 := by
    have hcount := congrArg List.length hms
    rw [List.length_map, numbers, List.length_map] at hcount
    have hfilter := List.length_filter_le (fun sample => !isExpired ttlMs h.now sample) (h.samples.rtake windowSize.1)
    have hwindow := BoundedWindows.length_rtake_le h.samples windowSize.1
    have hsize := windowSize.2.2
    rw [History.recent] at hcount
    omega
  obtain ⟨fee, hfee, hbounds, hmono⟩ := feeOf_numbers hne hlength hsmall
  have hmem : ∀ m ∈ ms, ∃ sample ∈ h.recent windowSize.1 ttlMs, sample.value = .finite m := by
    intro m hm
    exact List.mem_map.mp (hms ▸ List.mem_map_of_mem hm)
  refine ⟨fee, fun p => ?_, fun p => ?_, hmono _ _ (target_le (by norm_num)), hmono _ _ (target_le (by norm_num)),
    hmono _ _ (target_le (by norm_num))⟩
  · rw [recommendedFee, values_of_holds ht.evictExpired.2, hms, hfee p]
  · obtain ⟨⟨m, hm, hle⟩, m', hm', hle'⟩ := hbounds p
    obtain ⟨low, hlow, hlowValue⟩ := hmem m hm
    obtain ⟨high, hhigh, hhighValue⟩ := hmem m' hm'
    refine ⟨low, hlow, high, hhigh, ?_, ?_⟩
    · rw [hlowValue, JsNumber.finite_le_finite_iff]
      exact_mod_cast hle
    · rw [hhighValue, JsNumber.finite_le_finite_iff]
      exact_mod_cast hle'

theorem five_capacity : 5 ≤ 5 ∧ 5 ≤ 100 := by omega

theorem fees_in_order_two : ∃ fee : FeePercentile → Nat,
    (∀ p, recommendedFee p (evictExpired (after step (start ⟨5, five_capacity⟩ (.infinity false) 0)
      [.sampled (.finite (100 : Nat)), .sampled (.finite (300 : Nat))])) = .ok (.finite (fee p))) ∧
      fee .p50 ≤ fee .p75 := by
  have hwhole : ∀ e ∈ [Event.sampled (.finite (100 : Nat)), .sampled (.finite (300 : Nat))], WholeStroops e := by
    rintro e (_ | ⟨_, _ | ⟨_, ⟨⟩⟩⟩)
    · exact ⟨100, rfl, by norm_num⟩
    · exact ⟨300, rfl, by norm_num⟩
  obtain ⟨fee, hfee, -, hle, -⟩ := @fees_in_order ⟨5, five_capacity⟩ (.infinity false) 0 _ hwhole (List.cons_ne_nil _ _)
  exact ⟨fee, hfee, hle⟩

end Fees

end SplitSdk.FeeTrend
