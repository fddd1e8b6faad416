import Mathlib.Algebra.BigOperators.Ring.List
import Mathlib.Data.List.Induction
import SplitSdk.Fallible
import SplitSdk.FloorShares
import SplitSdk.SplitPreview

namespace SplitSdk.PreviewTotals

open Fallible Numbers OrderedMap SplitPreview

variable {toUpperCase : String → String} {invoice : Payouts} {funded : Int} {entries : List SplitPreviewEntry}

section Statement

/-- What a rule asks for, whatever is left. -/
def demand (funded : Int) : SplitRule → Int
  | .fixed _ amount => max 0 amount
  | rule => ((applyRule rule funded 0).toOption).getD 0

/-- The rules that are not capped ask for no more than is left by what the rules before them ask for. -/
def WithinFunds (funded remaining : Int) (rules : List SplitRule) : Prop :=
  ∀ before rule after, rules = before ++ rule :: after → ¬ rule.isFixed → 0 < demand funded rule →
    (before.map (demand funded)).sum + demand funded rule ≤ remaining

def HasIntegerBps : SplitRule → Prop
  | .fixed _ _ => True
  | .percentage _ bps => ∃ n : Int, bps = .finite n
  | .tiered _ tiers => ∀ tier ∈ tiers, ∃ n : Int, tier.bps = .finite n

end Statement

section Rules

variable {rule : SplitRule} {remaining amount : Int}

theorem basisPoints_nonneg {bps : JsNumber} {n : Int} (h : basisPoints bps = .ok n) : 0 ≤ n := by
  unfold basisPoints at h
  split at h
  · cases h
    exact le_max_left _ _
  · cases h
    exact le_rfl
  · cases h
  · cases h

theorem tierTotal_nonneg {lower total : Int} {tiers : List Tier} (htotal : 0 ≤ total)
    (h : tierTotal funded lower total tiers = .ok amount) : 0 ≤ amount := by
  induction tiers generalizing lower total with
  | nil =>
      cases h
      exact htotal
  | cons tier tiers ih =>
      rw [tierTotal] at h
      dsimp only at h
      generalize (if funded < tier.upTo then funded else tier.upTo) = bandTop at h
      split_ifs at h with hdone hband
      · cases h
        exact htotal
      · obtain ⟨bps, hbps, h⟩ := bind_eq_ok.mp h
        have hpart := mul_nonneg (sub_pos.mpr hband).le (basisPoints_nonneg hbps)
        exact ih (add_nonneg htotal (Int.tdiv_nonneg hpart (by decide))) h
      · exact ih htotal h

/-- Fixed amounts are capped at what is left, and the others are what they are. -/
theorem applyRule_spec (h : applyRule rule funded remaining = .ok amount) :
    amount = if rule.isFixed then min (demand funded rule) remaining else demand funded rule := by
  have hdemand (hfixed : applyRule rule funded remaining = applyRule rule funded 0) :
      ((applyRule rule funded 0).toOption).getD 0 = amount := by
    rw [← hfixed, h]
    rfl
  cases rule with
  | fixed recipient fixed =>
      cases h
      simp only [SplitRule.isFixed, demand, if_true]
      split_ifs <;> omega
  | percentage recipient bps => exact (hdemand rfl).symm
  | tiered recipient tiers => exact (hdemand rfl).symm

theorem getD_nonneg {x : Except Failure Int} (h : ∀ a, x = .ok a → 0 ≤ a) : 0 ≤ x.toOption.getD 0 := by
  cases x with
  | error => exact le_rfl
  | ok a => exact h a rfl

theorem demand_nonneg (hfunded : 0 ≤ funded) (rule : SplitRule) : 0 ≤ demand funded rule := by
  cases rule with
  | fixed recipient amount => exact le_max_left _ _
  | percentage recipient bps =>
      refine getD_nonneg ?_
      intro amount h
      obtain ⟨n, hn, h⟩ := bind_eq_ok.mp h
      cases h
      exact Int.tdiv_nonneg (mul_nonneg hfunded (basisPoints_nonneg hn)) (by decide)
  | tiered recipient tiers => exact getD_nonneg (fun amount h => tierTotal_nonneg le_rfl h)

theorem sum_demand_nonneg (hfunded : 0 ≤ funded) (rules : List SplitRule) :
    0 ≤ (rules.map (demand funded)).sum := by
  apply List.sum_nonneg
  rw [List.forall_mem_map]
  exact fun rule _ => demand_nonneg hfunded rule

theorem withinFunds_nil (funded remaining : Int) : WithinFunds funded remaining [] := by
  intro before rule after heq
  exact absurd heq.symm (List.append_ne_nil_of_right_ne_nil _ (List.cons_ne_nil _ _))

theorem withinFunds_cons (hfunded : 0 ≤ funded) {rules : List SplitRule} :
    WithinFunds funded remaining (rule :: rules) ↔
      (¬ rule.isFixed → 0 < demand funded rule → demand funded rule ≤ remaining) ∧
        WithinFunds funded (max 0 (remaining - demand funded rule)) rules := by
  constructor
  · intro h
    refine ⟨fun hfixed hpos => ?_, fun before other after heq hfixed hpos => ?_⟩
    · have := h [] rule rules rfl hfixed hpos
      rwa [List.map_nil, List.sum_nil, zero_add] at this
    · have := h (rule :: before) other after (congrArg (rule :: ·) heq) hfixed hpos
      rw [List.map_cons, List.sum_cons] at this
      omega
  · rintro ⟨hhead, hrest⟩ before other after heq hfixed hpos
    cases before with
    | nil =>
        cases heq
        rw [List.map_nil, List.sum_nil, zero_add]
        exact hhead hfixed hpos
    | cons first before =>
        cases heq
        have := hrest before other after rfl hfixed hpos
        have := sum_demand_nonneg hfunded before
        rw [List.map_cons, List.sum_cons]
        omega

theorem amounts_nonneg (hfunded : 0 ≤ funded) {rules : List SplitRule} (hremaining : 0 ≤ remaining)
    (h : applyRules funded remaining rules = .ok entries) : ∀ entry ∈ entries, 0 ≤ entry.amount := by
  induction rules generalizing remaining entries with
  | nil =>
      cases h
      exact List.forall_mem_nil _
  | cons rule rules ih =>
      obtain ⟨amount, hamount, h⟩ := bind_eq_ok.mp h
      obtain ⟨rest, hrest, h⟩ := bind_eq_ok.mp h
      cases h
      refine List.forall_mem_cons.mpr ⟨?_, ih (by split_ifs <;> omega) hrest⟩
      have := demand_nonneg hfunded rule
      have hspec := applyRule_spec hamount
      dsimp only
      split_ifs at hspec <;> omega

/-- The loop pays out no more than it has exactly when no rule takes more than is left to it. -/
theorem applyRules_sum_le_iff (hfunded : 0 ≤ funded) {rules : List SplitRule} (hremaining : 0 ≤ remaining)
    (h : applyRules funded remaining rules = .ok entries) :
    (entries.map SplitPreviewEntry.amount).sum ≤ remaining ↔ WithinFunds funded remaining rules := by
  induction rules generalizing remaining entries with
  | nil =>
      cases h
      exact iff_of_true hremaining (withinFunds_nil funded remaining)
  | cons rule rules ih =>
      obtain ⟨amount, hamount, h⟩ := bind_eq_ok.mp h
      obtain ⟨rest, hrest, h⟩ := bind_eq_ok.mp h
      cases h
      have hspec := applyRule_spec hamount
      have hdemand := demand_nonneg hfunded rule
      have hleft : (if remaining - amount < 0 then 0 else remaining - amount) =
          max 0 (remaining - demand funded rule) := by
        split_ifs at hspec ⊢ <;> omega
      rw [hleft] at hrest
      have hsum : 0 ≤ (rest.map SplitPreviewEntry.amount).sum := by
        apply List.sum_nonneg
        rw [List.forall_mem_map]
        exact amounts_nonneg hfunded (le_max_left _ _) hrest
      rw [withinFunds_cons hfunded, ← ih (le_max_left _ _) hrest, List.map_cons, List.sum_cons]
      dsimp only
      split_ifs at hspec with hfixed
      · simp only [hfixed, not_true, false_implies, true_and]
        omega
      · rcases le_or_gt (demand funded rule) remaining with hle | hgt
        · rw [max_eq_right (sub_nonneg.mpr hle)]
          constructor
          · intro h
            exact ⟨fun _ _ => hle, by omega⟩
          · rintro ⟨-, h⟩
            omega
        · refine iff_of_false (by omega) ?_
          rintro ⟨h, -⟩
          exact absurd (h hfixed (by omega)) (not_le.mpr hgt)

end Rules

section Fallback

theorem mergeEntry_nonneg {mode : DedupMode} {firstEntry : OrdMap String Recipient} {r : Recipient}
    (hr : 0 ≤ r.amount) (h : ∀ norm e, firstEntry.get? norm = some e → 0 ≤ e.amount) :
    ∀ norm e, (mergeEntry toUpperCase mode firstEntry r).get? norm = some e → 0 ≤ e.amount := by
  intro norm e he
  unfold mergeEntry at he
  dsimp only at he
  split at he
  next =>
    rw [OrdMap.get?_set] at he
    split_ifs at he
    · cases he
      exact hr
    · exact h norm e he
  next existing hexisting =>
    rw [OrdMap.get?_set] at he
    split_ifs at he
    · cases he
      exact add_nonneg (h _ existing hexisting) hr
    · exact h norm e he
  next => exact h norm e he

theorem inOrder_subset {firstEntry : OrdMap String Recipient} {added : List String} {recipients : List Recipient}
    {e : Recipient} (h : e ∈ inOrder toUpperCase firstEntry added recipients) :
    ∃ norm, firstEntry.get? norm = some e := by
  induction recipients generalizing added with
  | nil => cases h
  | cons r recipients ih =>
      rw [inOrder] at h
      split_ifs at h
      · exact ih h
      · rcases List.mem_append.mp h with hfirst | hrest
        · exact ⟨_, Option.mem_toList.mp hfirst⟩
        · exact ih hrest

/-- Amounts that are merged stay what they were in sign. -/
theorem deduplicate_nonneg {recipients deduped : List Recipient} {mode : DedupMode}
    (hrecipients : ∀ r ∈ recipients, 0 ≤ r.amount)
    (h : deduplicateRecipients toUpperCase recipients mode = .ok deduped) : ∀ e ∈ deduped, 0 ≤ e.amount := by
  have hfold : ∀ norm e, (recipients.foldl (mergeEntry toUpperCase mode) .empty).get? norm = some e →
      0 ≤ e.amount := by
    clear h
    induction recipients using List.reverseRecOn with
    | nil => exact fun _ _ h => nomatch h
    | append_singleton recipients r ih =>
        rw [List.forall_mem_append] at hrecipients
        rw [List.foldl_append]
        exact mergeEntry_nonneg (hrecipients.2 r List.mem_cons_self) (ih hrecipients.1)
  unfold deduplicateRecipients at h
  dsimp only at h
  split_ifs at h
  cases h
  intro e he
  obtain ⟨norm, hnorm⟩ := inOrder_subset he
  exact hfold norm e hnorm

variable (toUpperCase) in
theorem deduplicate_merge (recipients : List Recipient) :
    ∃ deduped, deduplicateRecipients toUpperCase recipients .merge = .ok deduped := by
  rw [deduplicateRecipients, if_neg (fun h => nomatch h.1)]
  exact ⟨_, rfl⟩

/-- The shares of what is owed come to no more than what is shared out. -/
theorem fallback_spec (hfunded : 0 ≤ funded) (hrecipients : ∀ r ∈ invoice.recipients, 0 ≤ r.amount)
    (h : proportionalFallback toUpperCase invoice funded = .ok entries) :
    (∀ entry ∈ entries, 0 ≤ entry.amount) ∧ (entries.map SplitPreviewEntry.amount).sum ≤ funded := by
  obtain ⟨deduped, hdeduped, h⟩ := bind_eq_ok.mp h
  cases h
  have hnonneg := deduplicate_nonneg hrecipients hdeduped
  have htotal : 0 ≤ (deduped.map Recipient.amount).sum := by
    apply List.sum_nonneg
    rw [List.forall_mem_map]
    exact hnonneg
  obtain ⟨denominator, hdenominator⟩ : ∃ d, d =
      if (deduped.map Recipient.amount).sum = 0 then 1 else (deduped.map Recipient.amount).sum := ⟨_, rfl⟩
  rw [← hdenominator]
  have hpos : 0 < denominator := by
    split_ifs at hdenominator <;> omega
  have hnumerator : ∀ r ∈ deduped, 0 ≤ funded * r.amount := fun r hr => mul_nonneg hfunded (hnonneg r hr)
  constructor
  · intro entry hentry
    obtain ⟨r, hr, rfl⟩ := List.mem_map.mp hentry
    exact Int.tdiv_nonneg (hnumerator r hr) hpos.le
  · rw [List.map_map]
    have hsum : (deduped.map (fun r => funded * r.amount)).sum = funded * (deduped.map Recipient.amount).sum :=
      List.sum_map_mul_left _ _ _
    split_ifs at hdenominator with hzero
    · -- nothing is owed to anyone
      have hnone : (deduped.map (fun r => funded * r.amount)).sum = 0 * denominator := by
        rw [hsum, hzero, mul_zero, zero_mul]
      exact (FloorShares.quotients_le hpos hnumerator hnone).trans hfunded
    · exact FloorShares.quotients_le hpos hnumerator (hdenominator ▸ hsum)

end Fallback

section Success

theorem basisPoints_integer (n : Int) : ∃ bps, basisPoints (.finite n) = .ok bps := ⟨_, rfl⟩

theorem tierTotal_ok {tiers : List Tier} (h : ∀ tier ∈ tiers, ∃ n : Int, tier.bps = .finite n) (lower total : Int) :
    ∃ amount, tierTotal funded lower total tiers = .ok amount := by
  induction tiers generalizing lower total with
  | nil => exact ⟨_, rfl⟩
  | cons tier tiers ih =>
      have ih := ih (fun tier htier => h tier (List.mem_cons_of_mem _ htier))
      obtain ⟨n, hn⟩ := h tier List.mem_cons_self
      obtain ⟨bps, hbps⟩ := basisPoints_integer n
      rw [tierTotal, hn, hbps]
      dsimp only
      split_ifs
      · exact ⟨_, rfl⟩
      · exact ih _ _
      · exact ih _ _
      · exact ih _ _
      · exact ih _ _

variable (funded) in
theorem applyRule_ok {rule : SplitRule} (h : HasIntegerBps rule) (remaining : Int) :
    ∃ amount, applyRule rule funded remaining = .ok amount := by
  cases rule with
  | fixed recipient amount => exact ⟨_, rfl⟩
  | percentage recipient bps =>
      obtain ⟨n, rfl⟩ := h
      exact ⟨_, rfl⟩
  | tiered recipient tiers => exact tierTotal_ok h 0 0

variable (funded) in
theorem applyRules_ok {rules : List SplitRule} (h : ∀ rule ∈ rules, HasIntegerBps rule) (remaining : Int) :
    ∃ entries, applyRules funded remaining rules = .ok entries := by
  induction rules generalizing remaining with
  | nil => exact ⟨_, rfl⟩
  | cons rule rules ih =>
      obtain ⟨amount, hamount⟩ := applyRule_ok funded (h rule List.mem_cons_self) remaining
      obtain ⟨entries, hentries⟩ := ih (fun rule hrule => h rule (List.mem_cons_of_mem _ hrule))
        (if remaining - amount < 0 then 0 else remaining - amount)
      exact ⟨_, bind_eq_ok.mpr ⟨amount, hamount, bind_eq_ok.mpr ⟨entries, hentries, rfl⟩⟩⟩

end Success

section Result

/-- No amount of a preview is negative, and together they exceed what was funded exactly where a percentage or tiered rule asks for
more than the rules before it leave. -/
theorem preview_totals (toUpperCase : String → String) (invoice : Payouts) {funded : Int} (hfunded : 0 ≤ funded)
    (hbps : ∀ rule ∈ invoice.splitRules.getD [], HasIntegerBps rule)
    (hrecipients : invoice.splitRules.getD [] = [] → ∀ r ∈ invoice.recipients, 0 ≤ r.amount) :
    ∃ entries, previewSplitRules toUpperCase invoice funded = .ok entries ∧ (∀ entry ∈ entries, 0 ≤ entry.amount) ∧
      ((entries.map SplitPreviewEntry.amount).sum ≤ funded ↔
        WithinFunds funded funded (invoice.splitRules.getD [])) := by
  unfold previewSplitRules
  dsimp only
  split_ifs with hrules hnegative
  · rw [List.length_eq_zero_iff] at hrules
    obtain ⟨deduped, hdeduped⟩ := deduplicate_merge toUpperCase invoice.recipients
    have hok : ∃ entries, proportionalFallback toUpperCase invoice funded = .ok entries := by
      rw [proportionalFallback, hdeduped]
      exact ⟨_, rfl⟩
    obtain ⟨entries, hentries⟩ := hok
    obtain ⟨hnonneg, hle⟩ := fallback_spec hfunded (hrecipients hrules) hentries
    refine ⟨entries, hentries, hnonneg, iff_of_true hle ?_⟩
    rw [hrules]
    exact withinFunds_nil funded funded
  · omega
  · obtain ⟨entries, hentries⟩ := applyRules_ok funded hbps funded
    exact ⟨entries, hentries, amounts_nonneg hfunded hfunded hentries,
      applyRules_sum_le_iff hfunded hfunded hentries⟩

def tieredInvoice : Payouts where
  recipients := []
  splitRules := some [.fixed "GA" 30, .percentage "GB" (.finite 5000), .tiered "GC" [⟨40, .finite 1000⟩, ⟨100, .finite 2500⟩]]

theorem preview_totals_tiered : ∃ entries, previewSplitRules String.toUpper tieredInvoice 100 = .ok entries ∧
    (∀ entry ∈ entries, 0 ≤ entry.amount) ∧
      ((entries.map SplitPreviewEntry.amount).sum ≤ 100 ↔
        WithinFunds 100 100 (tieredInvoice.splitRules.getD [])) := by
  refine preview_totals String.toUpper tieredInvoice (by decide) ?_ (fun h => nomatch h)
  have htiers : HasIntegerBps (.tiered "GC" [⟨40, .finite 1000⟩, ⟨100, .finite 2500⟩]) :=
    List.forall_mem_cons.mpr ⟨⟨1000, rfl⟩, List.forall_mem_cons.mpr ⟨⟨2500, rfl⟩, List.forall_mem_nil _⟩⟩
  exact List.forall_mem_cons.mpr ⟨trivial, List.forall_mem_cons.mpr ⟨⟨5000, rfl⟩,
    List.forall_mem_cons.mpr ⟨htiers, List.forall_mem_nil _⟩⟩⟩

/-- Two recipients of everything. -/
def twiceInvoice : Payouts where
  recipients := []
  splitRules := some [.percentage "GA" (.finite 10000), .percentage "GB" (.finite 10000)]

theorem twice_overpaid : ∃ entries ∈ (previewSplitRules String.toUpper twiceInvoice 100).toOption,
    (entries.map SplitPreviewEntry.amount).sum = 200 := by
  decide

end Result

end SplitSdk.PreviewTotals
