import SplitSdk.PaymentAggregation

namespace SplitSdk.PaymentTotals

open GroupedFold OrderedMap PaymentAggregation
open DaoGovernance (inherited)

section Statement

variable (localeCompare : String → String → Int)

def identity (payment : PaymentLedger) : String × Int := (payment.payer, payment.ledger)

/-- What the totals tell of a payment. -/
def receipt (payment : PaymentLedger) : (String × Int) × Int := (identity payment, payment.amount)

/-- The first payment of each payer in each ledger. -/
def counted (payments : List PaymentLedger) : List PaymentLedger := firsts identity payments

/-- The aggregator adds up these payments. -/
structure Accounts (payments : List PaymentLedger) (a : PaymentAggregator) : Prop where
  totalFunded : a.totalFunded = a.baseFunded + (payments.map PaymentLedger.amount).sum
  payerBreakdown : ∀ payer, a.payerBreakdown.get? payer =
    if payer ∈ payments.map PaymentLedger.payer then
      some ((payments.filter (fun payment => payment.payer = payer)).map PaymentLedger.amount).sum
    else none
  paymentCount : a.paymentCount = payments.length
  lastLedger : a.lastLedger = payments.foldl (fun lastLedger payment => max lastLedger payment.ledger) 0

structure Agree (a b : PaymentAggregator) : Prop where
  totalFunded : a.totalFunded = b.totalFunded
  percentFunded : a.percentFunded = b.percentFunded
  payerBreakdown : ∀ payer, a.payerBreakdown.get? payer = b.payerBreakdown.get? payer
  paymentCount : a.paymentCount = b.paymentCount
  lastLedger : a.lastLedger = b.lastLedger

def applyAll (a : PaymentAggregator) (payments : List PaymentLedger) : Option PaymentAggregator :=
  payments.foldlM (applyPayment localeCompare) a

def aggregate (invoice : Invoice) (payments : List PaymentLedger) : Option PaymentAggregator :=
  (constructor localeCompare invoice).bind (fun a => applyAll localeCompare a payments)

/-- The name of the payer is not one that every object inherits. -/
def Plain (payments : List PaymentLedger) : Prop := ∀ payment ∈ payments, payment.payer ∉ inherited

instance (payments : List PaymentLedger) : Decidable (Plain payments) :=
  inferInstanceAs (Decidable (∀ payment ∈ payments, payment.payer ∉ inherited))

end Statement

section Keys

theorem colon_not_mem (n : Int) : ':' ∉ (toString n).toList := by
  intro hmem
  rw [BigIntText.toList_toString] at hmem
  have hdigit : ':' ∉ Nat.toDigits 10 n.natAbs := fun hmem => absurd (NumberText.allDigits_toDigits _ _ hmem) (by decide)
  split_ifs at hmem
  · exact hdigit ((List.mem_cons.mp hmem).resolve_left (by decide))
  · exact hdigit hmem

theorem toList_paymentKey (p : PaymentLedger) :
    (paymentKey p).toList = p.payer.toList ++ ':' :: (toString p.ledger).toList := by
  rw [paymentKey, String.toList_append, String.toList_append, List.append_assoc]
  rfl

/-- The text of the ledger has no colon, so that the key tells the payer and the ledger. -/
theorem paymentKey_iff (p q : PaymentLedger) : paymentKey p = paymentKey q ↔ identity p = identity q := by
  constructor
  · intro h
    have hreverse := congrArg (fun key => key.toList.reverse) h
    rw [toList_paymentKey, toList_paymentKey, List.reverse_append, List.reverse_append, List.reverse_cons, List.reverse_cons,
      List.append_assoc, List.append_assoc, List.singleton_append, List.singleton_append] at hreverse
    obtain ⟨hledger, hpayer⟩ := NumberText.split_first hreverse (mt List.mem_reverse.mp (colon_not_mem _))
      (mt List.mem_reverse.mp (colon_not_mem _))
    exact Prod.ext (String.toList_inj.mp (List.reverse_injective hpayer))
      (BigIntText.toString_inj (String.toList_inj.mp (List.reverse_injective hledger)))
  · intro h
    obtain ⟨hpayer, hledger⟩ := Prod.mk.inj h
    rw [paymentKey, paymentKey, hpayer, hledger]

theorem nodup_counted (payments : List PaymentLedger) : ((counted payments).map identity).Nodup := by
  have hkeys := (collect identity (fun _ _ => ()) payments).nodup
  rwa [← OrdMap.keys, keys_collect] at hkeys

theorem firsts_of_nodup {payments : List PaymentLedger} (h : (payments.map identity).Nodup) : counted payments = payments := by
  unfold counted
  induction payments with
  | nil => rfl
  | cons payment payments ih =>
      obtain ⟨hnew, hnodup⟩ := List.nodup_cons.mp h
      rw [firsts, ih hnodup, List.filter_eq_self.mpr (fun other hother => ?_)]
      exact decide_eq_true (fun heq => hnew (heq ▸ List.mem_map_of_mem hother))

end Keys

section Sums

variable {payments payments' : List PaymentLedger}

theorem foldl_amount (payments : List PaymentLedger) (start : Int) :
    payments.foldl (fun total payment => total + payment.amount) start =
      start + (payments.map PaymentLedger.amount).sum := by
  induction payments generalizing start with
  | nil => exact (Int.add_zero start).symm
  | cons payment payments ih =>
      rw [List.foldl_cons, ih, List.map_cons, List.sum_cons, Int.add_assoc]

theorem sumAmounts_eq (payments : List PaymentLedger) : sumAmounts payments = (payments.map PaymentLedger.amount).sum :=
  (foldl_amount payments 0).trans (Int.zero_add _)

theorem foldl_group (group : Option (List PaymentLedger)) (payments : List PaymentLedger) :
    payments.foldl (fun group payment => some (group.getD [] ++ [payment])) group =
      if payments = [] then group else some (group.getD [] ++ payments) := by
  induction payments generalizing group with
  | nil => rfl
  | cons payment payments ih =>
      rw [List.foldl_cons, ih, if_neg (List.cons_ne_nil payment payments), Option.getD_some, List.append_assoc]
      split_ifs with hnil
      · rw [hnil]
      · rfl

theorem get?_groups (payments : List PaymentLedger) (payer : String) :
    (collect PaymentLedger.payer (fun group payment => group.getD [] ++ [payment]) payments).get? payer =
      if payer ∈ payments.map PaymentLedger.payer then some (payments.filter (fun payment => payment.payer = payer)) else none := by
  rw [get?_collect, foldl_group]
  by_cases hpayer : payer ∈ payments.map PaymentLedger.payer
  · obtain ⟨payment, hpayment, heq⟩ := List.mem_map.mp hpayer
    have hmem : payment ∈ payments.filter (fun payment => payment.payer = payer) :=
      List.mem_filter.mpr ⟨hpayment, decide_eq_true heq⟩
    rw [if_pos hpayer, if_neg (List.ne_nil_of_mem hmem)]
    rfl
  · have hnil : payments.filter (fun payment => payment.payer = payer) = [] :=
      List.filter_eq_nil_iff.mpr (fun payment hpayment heq =>
        hpayer (List.mem_map.mpr ⟨payment, hpayment, of_decide_eq_true heq⟩))
    rw [if_neg hpayer, if_pos hnil]

theorem get?_breakdownOf (groups : OrdMap String (List PaymentLedger)) (payer : String) :
    (breakdownOf groups).get? payer = (groups.get? payer).map sumAmounts := by
  change (collect Prod.fst (fun _ group => sumAmounts group.2) groups.entries).get? payer = _
  rw [get?_collect]
  obtain ⟨entries, hnodup⟩ := groups
  rw [OrdMap.get?]
  dsimp only
  induction entries with
  | nil => rfl
  | cons entry entries ih =>
      obtain ⟨name, group⟩ := entry
      obtain ⟨hnew, hnodup⟩ := List.nodup_cons.mp hnodup
      by_cases hname : name = payer
      · subst hname
        have hrest : entries.filter (fun group => group.1 = name) = [] :=
          List.filter_eq_nil_iff.mpr (fun group hgroup heq =>
            hnew (List.mem_map.mpr ⟨group, hgroup, of_decide_eq_true heq⟩))
        rw [List.filter_cons_of_pos (by simp), hrest, OrdMap.lookup_self]
        rfl
      · rw [List.filter_cons_of_neg (by simpa using hname), OrdMap.lookup_of_ne name group entries (Ne.symm hname)]
        exact ih hnodup

end Sums

section Receipts

variable {payments payments' : List PaymentLedger}

theorem map_filter_receipt (test : String × Int → Bool) (payments : List PaymentLedger) :
    (payments.filter (fun payment => test (identity payment))).map receipt =
      (payments.map receipt).filter (fun paid => test paid.1) := by
  rw [List.filter_map]
  rfl

/-- The totals are read from the receipts, in any order. -/
theorem Accounts.perm {a : PaymentAggregator} (h : Accounts payments a)
    (hperm : (payments.map receipt).Perm (payments'.map receipt)) : Accounts payments' a := by
  have hamounts : ∀ payments : List PaymentLedger, payments.map PaymentLedger.amount = (payments.map receipt).map Prod.snd :=
    fun payments => by rw [List.map_map]; rfl
  have hpayers : (payments.map PaymentLedger.payer).Perm (payments'.map PaymentLedger.payer) := by
    have hmapped := hperm.map (fun paid => paid.1.1)
    rwa [List.map_map, List.map_map] at hmapped
  refine ⟨?_, fun payer => ?_, ?_, ?_⟩
  · rw [h.totalFunded, hamounts, hamounts, (hperm.map Prod.snd).sum_eq]
  · have hfiltered := (hperm.filter (fun paid => paid.1.1 = payer)).map Prod.snd
    rw [← map_filter_receipt (fun name => name.1 = payer), ← map_filter_receipt (fun name => name.1 = payer), ← hamounts,
      ← hamounts] at hfiltered
    rw [h.payerBreakdown]
    exact if_congr hpayers.mem_iff (congrArg some hfiltered.sum_eq) rfl
  · have hlength := hperm.length_eq
    rw [List.length_map, List.length_map] at hlength
    rw [h.paymentCount, hlength]
  · have hfold := hperm.foldl_eq' (f := fun lastLedger paid => max lastLedger paid.1.2)
      (fun p _ q _ lastLedger => max_right_comm lastLedger p.1.2 q.1.2) 0
    rw [List.foldl_map, List.foldl_map] at hfold
    exact h.lastLedger.trans hfold

theorem Accounts.agree {a b : PaymentAggregator} (ha : Accounts payments a) (hb : Accounts payments b)
    (hbase : a.baseFunded = b.baseFunded) (hpercent : a.totalFunded = b.totalFunded → a.percentFunded = b.percentFunded) :
    Agree a b := by
  have htotal : a.totalFunded = b.totalFunded := by rw [ha.totalFunded, hb.totalFunded, hbase]
  refine ⟨htotal, hpercent htotal, fun payer => ?_, ?_, ?_⟩
  · rw [ha.payerBreakdown, hb.payerBreakdown]
  · rw [ha.paymentCount, hb.paymentCount]
  · rw [ha.lastLedger, hb.lastLedger]

theorem mem_counted_iff (payments : List PaymentLedger) (name : String × Int) :
    name ∈ (counted payments).map identity ↔ name ∈ payments.map identity :=
  mem_map_firsts identity payments name

/-- Payments of one payer in one ledger have one amount. -/
def Consistent (payments : List PaymentLedger) : Prop :=
  ∀ p ∈ payments, ∀ q ∈ payments, identity p = identity q → p.amount = q.amount

instance (payments : List PaymentLedger) : Decidable (Consistent payments) :=
  inferInstanceAs (Decidable (∀ p ∈ payments, ∀ q ∈ payments, identity p = identity q → p.amount = q.amount))

theorem counted_cons (payment : PaymentLedger) (payments : List PaymentLedger) :
    (counted (payment :: payments)).map receipt =
      receipt payment :: ((counted payments).map receipt).filter (fun paid => paid.1 ≠ identity payment) :=
  congrArg (receipt payment :: ·) (map_filter_receipt (fun name => decide (name ≠ identity payment)) (counted payments))

theorem counted_append_perm (before : List PaymentLedger)
    (h : ((counted payments).map receipt).Perm ((counted payments').map receipt)) :
    ((counted (before ++ payments)).map receipt).Perm ((counted (before ++ payments')).map receipt) := by
  induction before with
  | nil => exact h
  | cons payment before ih =>
      rw [List.cons_append, List.cons_append, counted_cons, counted_cons]
      exact (ih.filter _).cons _

theorem counted_perm (hperm : payments.Perm payments') (hconsistent : Consistent payments) :
    ((counted payments).map receipt).Perm ((counted payments').map receipt) := by
  induction hperm with
  | nil => exact .refl _
  | cons payment hperm ih =>
      rw [counted_cons, counted_cons]
      exact ((ih (fun p hp q hq => hconsistent p (.tail _ hp) q (.tail _ hq))).filter _).cons _
  | swap p q payments =>
      rw [counted_cons, counted_cons, counted_cons, counted_cons, List.filter_cons, List.filter_cons]
      by_cases hsame : identity p = identity q
      · have hreceipt : receipt p = receipt q :=
          Prod.ext hsame (hconsistent p (by simp) q (by simp) hsame)
        simp [hsame, hreceipt]
      · have hq : decide ((receipt q).1 ≠ identity p) = true := decide_eq_true (Ne.symm hsame)
        have hp : decide ((receipt p).1 ≠ identity q) = true := decide_eq_true hsame
        rw [if_pos hq, if_pos hp, List.filter_comm]
        exact .swap _ _ _
  | trans hperm _ ih ih' =>
      exact (ih hconsistent).trans (ih' (fun p hp q hq =>
        hconsistent p (hperm.mem_iff.mpr hp) q (hperm.mem_iff.mpr hq)))

/-- The payments after those already counted. -/
theorem counted_perm_append (more : List PaymentLedger)
    (h : ((counted payments).map receipt).Perm ((counted payments').map receipt)) :
    ((counted (payments ++ more)).map receipt).Perm ((counted (payments' ++ more)).map receipt) := by
  induction more using List.reverseRecOn with
  | nil => rwa [List.append_nil, List.append_nil]
  | append_singleton more payment ih =>
      have hmem : identity payment ∈ (payments ++ more).map identity ↔ identity payment ∈ (payments' ++ more).map identity := by
        have hnames := (ih.map Prod.fst).mem_iff (a := identity payment)
        rw [List.map_map, List.map_map] at hnames
        rw [← mem_counted_iff, ← mem_counted_iff (payments' ++ more)]
        exact hnames
      rw [← List.append_assoc, ← List.append_assoc, counted, counted, firsts_concat, firsts_concat]
      by_cases hold : identity payment ∈ (payments ++ more).map identity
      · rw [if_pos hold, if_pos (hmem.mp hold)]
        exact ih
      · rw [if_neg hold, if_neg (mt hmem.mpr hold), List.map_append, List.map_append]
        exact ih.append_right _

end Receipts

end SplitSdk.PaymentTotals

namespace SplitSdk.PaymentConservation

open GroupedFold OrderedMap PaymentAggregation PaymentTotals
open DaoGovernance (inherited)

section History

variable (localeCompare : String → String → Int) {history payments : List PaymentLedger} {a : PaymentAggregator}

/-- The aggregator has been given these payments. -/
structure Holds (history : List PaymentLedger) (a : PaymentAggregator) : Prop where
  payments : a.payments.Perm (counted history)
  seenPayments : ∀ payment, paymentKey payment ∈ a.seenPayments ↔ identity payment ∈ history.map identity

theorem holds_add (h : Holds history a) (payment : PaymentLedger) :
    Holds (history ++ [payment]) (addPaymentToHistory localeCompare a payment) := by
  have hconcat := firsts_concat identity history payment
  rw [addPaymentToHistory]
  by_cases hseen : paymentKey payment ∈ a.seenPayments
  · have hold := (h.seenPayments payment).mp hseen
    rw [if_pos hold] at hconcat
    rw [if_pos hseen]
    refine ⟨h.payments.trans (.of_eq hconcat.symm), fun other => ?_⟩
    rw [h.seenPayments, List.map_append, List.mem_append, List.map_singleton, List.mem_singleton]
    exact ⟨.inl, fun hother => hother.elim id (fun heq => heq ▸ hold)⟩
  · rw [if_neg (mt (h.seenPayments payment).mpr hseen)] at hconcat
    rw [if_neg hseen]
    refine ⟨(List.mergeSort_perm _ _).trans ((h.payments.append_right _).trans (.of_eq hconcat.symm)), fun other => ?_⟩
    change paymentKey other ∈ a.seenPayments ++ [paymentKey payment] ↔ _
    rw [List.mem_append, List.mem_singleton, h.seenPayments, paymentKey_iff, List.map_append, List.mem_append,
      List.map_singleton, List.mem_singleton]

theorem addPaymentToHistory_frame (localeCompare : String → String → Int) (a : PaymentAggregator) (payment : PaymentLedger) :
    (addPaymentToHistory localeCompare a payment).invoiceTotal = a.invoiceTotal ∧
      (addPaymentToHistory localeCompare a payment).baseFunded = a.baseFunded := by
  rw [addPaymentToHistory]
  split_ifs <;> exact ⟨rfl, rfl⟩

theorem holds_addAll (h : Holds history a) (payments : List PaymentLedger) :
    let b := payments.foldl (addPaymentToHistory localeCompare) a
    Holds (history ++ payments) b ∧ b.invoiceTotal = a.invoiceTotal ∧ b.baseFunded = a.baseFunded := by
  induction payments generalizing history a with
  | nil => exact ⟨(List.append_nil history).symm ▸ h, rfl, rfl⟩
  | cons payment payments ih =>
      obtain ⟨htotal, hbase⟩ := addPaymentToHistory_frame localeCompare a payment
      obtain ⟨hholds, htotal', hbase'⟩ := ih (holds_add localeCompare h payment)
      rw [List.append_assoc] at hholds
      exact ⟨hholds, htotal'.trans htotal, hbase'.trans hbase⟩

/-- The aggregator has been given these payments over this base, and its totals are up to date. -/
structure Sound (invoiceTotal baseFunded : Int) (history : List PaymentLedger) (a : PaymentAggregator) : Prop where
  holds : Holds history a
  invoiceTotal : a.invoiceTotal = invoiceTotal
  baseFunded : a.baseFunded = baseFunded
  accounts : Accounts (counted history) a
  percentFunded : a.percentFunded = calculatePercent a a.totalFunded

theorem calculatePercent_congr {a b : PaymentAggregator} (h : a.invoiceTotal = b.invoiceTotal) (totalFunded : Int) :
    calculatePercent a totalFunded = calculatePercent b totalFunded := by
  rw [calculatePercent, calculatePercent, h]

theorem plain_of_holds (h : Holds history a) (hplain : Plain history) : Plain a.payments :=
  fun payment hpayment => hplain payment (mem_of_mem_firsts identity (h.payments.mem_iff.mp hpayment))

theorem groupBy_of_plain (hplain : Plain payments) :
    groupBy payments = some (collect PaymentLedger.payer (fun group payment => group.getD [] ++ [payment]) payments) := by
  have hany : payments.any (fun payment => inherited.contains payment.payer) = false :=
    List.any_eq_false.mpr (fun payment hpayment hcontains =>
      hplain payment hpayment (List.contains_iff_mem.mp hcontains))
  rw [groupBy, hany]
  rfl

theorem sound_recompute (h : Holds history a) (hplain : Plain history) :
    ∃ b, recompute a = some b ∧ Sound a.invoiceTotal a.baseFunded history b := by
  have hgroups := groupBy_of_plain (plain_of_holds h hplain)
  have hsome : (recompute a).isSome := by
    rw [recompute, hgroups]
    rfl
  obtain ⟨b, hb⟩ := Option.isSome_iff_exists.mp hsome
  have hb' := hb
  rw [recompute, hgroups] at hb'
  obtain rfl := Option.some.inj hb'
  refine ⟨_, hb, ⟨h.payments, h.seenPayments⟩, rfl, rfl, Accounts.perm ?_ (h.payments.map receipt), rfl⟩
  refine ⟨foldl_amount a.payments a.baseFunded, fun payer => ?_, rfl, rfl⟩
  rw [get?_breakdownOf, get?_groups]
  split_ifs
  · exact congrArg some (sumAmounts_eq _)
  · rfl

variable {invoiceTotal baseFunded : Int} {b : PaymentAggregator}

theorem sound_apply (h : Sound invoiceTotal baseFunded history a) {payment : PaymentLedger} (hplain : Plain (history ++ [payment])) :
    ∃ b, applyPayment localeCompare a payment = some b ∧ Sound invoiceTotal baseFunded (history ++ [payment]) b := by
  obtain ⟨htotal, hbase⟩ := addPaymentToHistory_frame localeCompare a payment
  have hb := sound_recompute (holds_add localeCompare h.holds payment) hplain
  rwa [htotal, hbase, h.invoiceTotal, h.baseFunded] at hb

theorem sound_applyAll (h : Sound invoiceTotal baseFunded history a) (hplain : Plain (history ++ payments)) :
    ∃ b, applyAll localeCompare a payments = some b ∧ Sound invoiceTotal baseFunded (history ++ payments) b := by
  induction payments generalizing history a with
  | nil => exact ⟨a, rfl, (List.append_nil history).symm ▸ h⟩
  | cons payment payments ih =>
      rw [← List.singleton_append, ← List.append_assoc] at hplain ⊢
      obtain ⟨b, hb, hsound⟩ := sound_apply localeCompare h
        (fun p hp => hplain p (List.mem_append_left _ hp))
      obtain ⟨c, hc, hsound'⟩ := ih hsound hplain
      refine ⟨c, ?_, hsound'⟩
      rw [List.singleton_append, applyAll, List.foldlM_cons, hb]
      exact hc

/-- Aggregators that count the same payments over the same base agree. -/
theorem agree_of_sound (ha : Sound invoiceTotal baseFunded history a) (hb : Sound invoiceTotal baseFunded payments b)
    (hperm : ((counted history).map receipt).Perm ((counted payments).map receipt)) : Agree a b := by
  refine (ha.accounts.perm hperm).agree hb.accounts (ha.baseFunded.trans hb.baseFunded.symm) (fun htotal => ?_)
  rw [ha.percentFunded, hb.percentFunded, htotal]
  exact calculatePercent_congr (ha.invoiceTotal.trans hb.invoiceTotal.symm) _

end History

section Restore

variable (localeCompare : String → String → Int) {history : List PaymentLedger} {a : PaymentAggregator}
variable {invoiceTotal baseFunded : Int}

theorem restored_payment (payment : PaymentLedger) :
    restored ⟨payment.payer, toString payment.amount, payment.ledger, payment.timestamp⟩ = some payment := by
  rw [restored, BigIntText.ofString_toString]
  rfl

theorem mapM_restored (payments : List PaymentLedger) :
    (payments.map (fun (payment : PaymentLedger) =>
      (⟨payment.payer, toString payment.amount, payment.ledger, payment.timestamp⟩ : PaymentSnapshotPayment))).mapM restored =
      some payments := by
  induction payments with
  | nil => rfl
  | cons payment payments ih =>
      rw [List.map_cons, List.mapM_cons, restored_payment, ih]
      rfl

/-- The payments come back from the snapshot, and each of them once. -/
theorem sound_restore (h : Sound invoiceTotal baseFunded history a) (hplain : Plain history) (fresh : PaymentAggregator)
    (sha256Hex : String → String) (capturedAt : Int) :
    ∃ r, restore localeCompare fresh (snapshot localeCompare a sha256Hex capturedAt) = some r ∧
      Sound invoiceTotal baseFunded a.payments r := by
  have hempty : Holds [] { fresh with invoiceTotal, baseFunded, payments := [], seenPayments := [] } :=
    ⟨.refl _, fun _ => ⟨nofun, nofun⟩⟩
  obtain ⟨hholds, htotal, hbase⟩ := holds_addAll localeCompare hempty a.payments
  obtain ⟨r, hr, hsound⟩ := sound_recompute hholds (plain_of_holds h.holds hplain)
  refine ⟨r, ?_, ?_⟩
  · rw [restore, snapshot]
    dsimp only
    rw [BigIntText.ofString_toString, BigIntText.ofString_toString, mapM_restored, h.invoiceTotal, h.baseFunded]
    exact hr
  · rwa [htotal, hbase] at hsound

theorem counted_payments (h : Holds history a) :
    ((counted a.payments).map receipt).Perm ((counted history).map receipt) := by
  have hnodup := (h.payments.map identity).nodup_iff.mpr (nodup_counted history)
  rw [firsts_of_nodup hnodup]
  exact h.payments.map receipt

end Restore

section Conservation

variable (localeCompare : String → String → Int) (invoice : Invoice)

theorem sound_constructor (hplain : Plain (ledgered invoice)) : ∃ a, constructor localeCompare invoice = some a ∧
    Sound (invoice.recipients.foldl (fun total recipient => total + recipient.amount) 0)
      (max 0 (invoice.funded - sumAmounts (ledgered invoice))) (ledgered invoice) a := by
  have hbase : (if sumAmounts (ledgered invoice) < invoice.funded then invoice.funded - sumAmounts (ledgered invoice) else 0) =
      max 0 (invoice.funded - sumAmounts (ledgered invoice)) := by
    split_ifs <;> omega
  have hempty : Holds []
      { invoiceId := invoice.id
        invoiceTotal := invoice.recipients.foldl (fun total recipient => total + recipient.amount) 0
        baseFunded := max 0 (invoice.funded - sumAmounts (ledgered invoice)) } :=
    ⟨.refl _, fun _ => ⟨nofun, nofun⟩⟩
  obtain ⟨hholds, htotal, hbase'⟩ := holds_addAll localeCompare hempty (ledgered invoice)
  obtain ⟨a, ha, hsound⟩ := sound_recompute hholds hplain
  rw [htotal, hbase'] at hsound
  rw [← hbase] at ha
  exact ⟨a, ha, hsound⟩

theorem aggregate_of_sound (applied : List PaymentLedger) (hplain : Plain (ledgered invoice ++ applied)) :
    ∃ a, aggregate localeCompare invoice applied = some a ∧
      Sound (invoice.recipients.foldl (fun total recipient => total + recipient.amount) 0)
        (max 0 (invoice.funded - sumAmounts (ledgered invoice))) (ledgered invoice ++ applied) a := by
  obtain ⟨a, ha, hsound⟩ := sound_constructor localeCompare invoice (fun p hp => hplain p (List.mem_append_left _ hp))
  rw [aggregate, ha]
  exact sound_applyAll localeCompare hsound hplain

/-- Each payer's first payment in each ledger is counted, in whatever order they come, and a restored aggregator counts on as the
one it was taken from. -/
theorem aggregation_conserves (sha256Hex : String → String) (capturedAt : Int) (applied more : List PaymentLedger)
    (hplain : Plain (ledgered invoice ++ applied ++ more)) :
    ∃ a, aggregate localeCompare invoice applied = some a ∧
      a.baseFunded = max 0 (invoice.funded - sumAmounts (ledgered invoice)) ∧
      Accounts (counted (ledgered invoice ++ applied)) a ∧
      (∀ applied' : List PaymentLedger, applied.Perm applied' → Consistent applied →
        ∃ b, aggregate localeCompare invoice applied' = some b ∧ Agree a b) ∧
      ∀ fresh, ∃ r a' r', restore localeCompare fresh (snapshot localeCompare a sha256Hex capturedAt) = some r ∧
        applyAll localeCompare a more = some a' ∧ applyAll localeCompare r more = some r' ∧ Agree a r ∧ Agree a' r' := by
  have hplain' : Plain (ledgered invoice ++ applied) := fun p hp => hplain p (List.mem_append_left _ hp)
  obtain ⟨a, ha, hsound⟩ := aggregate_of_sound localeCompare invoice applied hplain'
  refine ⟨a, ha, hsound.baseFunded, hsound.accounts, fun applied' hperm hconsistent => ?_, fun fresh => ?_⟩
  · obtain ⟨b, hb, hsound'⟩ := aggregate_of_sound localeCompare invoice applied'
      (fun p hp => hplain' p ((hperm.append_left _).mem_iff.mpr hp))
    exact ⟨b, hb, agree_of_sound hsound hsound' (counted_append_perm _ (counted_perm hperm hconsistent))⟩
  · obtain ⟨r, hr, hrestored⟩ := sound_restore localeCompare hsound hplain' fresh sha256Hex capturedAt
    have hpayments := counted_payments hsound.holds
    obtain ⟨a', ha', hsound'⟩ := sound_applyAll localeCompare hsound hplain
    have hplain'' : Plain (a.payments ++ more) := fun p hp =>
      (List.mem_append.mp hp).elim (plain_of_holds hsound.holds hplain' p) (fun hp => hplain p (List.mem_append_right _ hp))
    obtain ⟨r', hr', hrestored'⟩ := sound_applyAll localeCompare hrestored hplain''
    exact ⟨r, a', r', hr, ha', hr', agree_of_sound hsound hrestored hpayments.symm,
      agree_of_sound hsound' hrestored' (counted_perm_append more hpayments.symm)⟩

end Conservation

section Instances

def alphabetic (left right : String) : Int := if left = right then 0 else if left < right then -1 else 1

def unpaid : Invoice where
  id := "1"
  recipients := [⟨"R", 100⟩]
  funded := 5

theorem aggregation_conserves_twice :
    ∃ a, aggregate alphabetic unpaid [⟨"b", 20, 2, none⟩, ⟨"a", 10, 1, none⟩] = some a ∧ a.baseFunded = 5 ∧
      Accounts [⟨"b", 20, 2, none⟩, ⟨"a", 10, 1, none⟩] a ∧
      (∃ b, aggregate alphabetic unpaid [⟨"a", 10, 1, none⟩, ⟨"b", 20, 2, none⟩] = some b ∧ Agree a b) ∧
      ∃ r, restore alphabetic a (snapshot alphabetic a id 0) = some r ∧ Agree a r := by
  obtain ⟨a, ha, hbase, haccounts, hperm, hrestore⟩ := aggregation_conserves alphabetic unpaid id 0
    [⟨"b", 20, 2, none⟩, ⟨"a", 10, 1, none⟩] [] (by decide)
  obtain ⟨r, a', r', hr, -, -, hagree, -⟩ := hrestore a
  have hcounted : counted (ledgered unpaid ++ [⟨"b", 20, 2, none⟩, ⟨"a", 10, 1, none⟩]) =
      [⟨"b", 20, 2, none⟩, ⟨"a", 10, 1, none⟩] := by decide
  rw [hcounted] at haccounts
  exact ⟨a, ha, hbase, haccounts, hperm _ (.swap _ _ []) (by decide), r, hr, hagree⟩

/-- Of two payments that one payer makes in one ledger the second is not counted. -/
theorem aggregation_conserves_fail :
    ∃ a, aggregate alphabetic unpaid [⟨"a", 10, 1, none⟩, ⟨"a", 20, 1, none⟩] = some a ∧ a.baseFunded = 5 ∧
      a.totalFunded = 15 ∧ a.paymentCount = 1 ∧ ¬ Accounts [⟨"a", 10, 1, none⟩, ⟨"a", 20, 1, none⟩] a := by
  obtain ⟨a, ha, hsound⟩ := aggregate_of_sound alphabetic unpaid [⟨"a", 10, 1, none⟩, ⟨"a", 20, 1, none⟩] (by decide)
  have hcounted : counted (ledgered unpaid ++ [⟨"a", 10, 1, none⟩, ⟨"a", 20, 1, none⟩]) = [⟨"a", 10, 1, none⟩] := by decide
  have haccounts := hsound.accounts
  rw [hcounted] at haccounts
  have hbase : a.baseFunded = 5 := hsound.baseFunded
  have htotal : a.totalFunded = 15 := by rw [haccounts.totalFunded, hbase]; rfl
  refine ⟨a, ha, hbase, htotal, haccounts.paymentCount, fun hboth => ?_⟩
  have hcount := haccounts.paymentCount.symm.trans hboth.paymentCount
  exact absurd hcount (by decide)

end Instances

end SplitSdk.PaymentConservation
