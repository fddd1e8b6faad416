import SplitSdk.ContentIdentifiers
import SplitSdk.Interleaving
import SplitSdk.OrderedMap

namespace SplitSdk.PaymentFingerprint

open Interleaving Numbers OrderedMap TextEncoding
open ContentIdentifiers (Digest)

section Payments

inductive Amount
  | text (text : Units)
  | number (x : Double)
  | bigint (n : Int)

/-- `String(amount)`. -/
def Amount.string : Amount → Units
  | .text units => units
  | .number x => utf16 (Numbers.toString x.1)
  | .bigint n => utf16 (ToString.toString n)

structure DeduplicationPayment where
  invoiceId : Units
  payerId : Units
  amount : Amount
  recipientIds : List Units
  timestamp : Option Int := none

/-- What an amount stands for: a number, if it is written as a decimal numeral, and otherwise only its text. -/
inductive AmountValue
  | number (q : ℚ)
  | text (text : Units)
  deriving DecidableEq

def readNumeral (cs : List Char) : Option ℚ :=
  match trim cs with
  | '-' :: cs => (readDecimal cs).map (fun q => -q)
  | '+' :: cs => readDecimal cs
  | cs => readDecimal cs

def Amount.value : Amount → AmountValue
  | .text units =>
      match readNumeral (toWellFormed units).toList with
      | some q => .number q
      | none => .text units
  | .number ⟨.finite q, _⟩ => .number q
  | .number x => .text (utf16 (Numbers.toString x.1))
  | .bigint n => .number n

/-- Two payments have the same content; the recipients are counted, but their order does not matter. -/
structure Same (payment payment' : DeduplicationPayment) : Prop where
  invoiceId : payment.invoiceId = payment'.invoiceId
  payerId : payment.payerId = payment'.payerId
  amount : payment.amount.value = payment'.amount.value
  recipientIds : payment.recipientIds.Perm payment'.recipientIds

theorem Same.symm {payment payment' : DeduplicationPayment} (h : Same payment payment') : Same payment' payment :=
  ⟨h.invoiceId.symm, h.payerId.symm, h.amount.symm, h.recipientIds.symm⟩

theorem Same.trans {payment payment' payment'' : DeduplicationPayment} (h : Same payment payment')
    (h' : Same payment' payment'') : Same payment payment'' :=
  ⟨h.invoiceId.trans h'.invoiceId, h.payerId.trans h'.payerId, h.amount.trans h'.amount, h.recipientIds.trans h'.recipientIds⟩

instance (payment payment' : DeduplicationPayment) : Decidable (Same payment payment') :=
  decidable_of_iff (payment.invoiceId = payment'.invoiceId ∧ payment.payerId = payment'.payerId ∧
      payment.amount.value = payment'.amount.value ∧ payment.recipientIds.Perm payment'.recipientIds)
    ⟨fun ⟨hinvoice, hpayer, hamount, hrecipients⟩ => ⟨hinvoice, hpayer, hamount, hrecipients⟩,
      fun h => ⟨h.invoiceId, h.payerId, h.amount, h.recipientIds⟩⟩

end Payments

section Fingerprints

abbrev Window := {windowMs : JsNumber // (JsNumber.finite 0).lt windowMs}

variable (sha256 : List UInt8 → Digest) (windowMs : Window) (payment : DeduplicationPayment) (now : Int)

def windowBucket : Int :=
  match windowMs.1 with
  | .finite q => ⌊now / q⌋
  | _ => 0

/-- `texts.join(separator)`. -/
def join (separator : String) (texts : List Units) : Units := (utf16 separator).intercalate texts

/-- The texts are sorted by their code units. -/
def sortedRecipients : Units := join "," (payment.recipientIds.mergeSort (fun a b => a ≤ b))

/-- The bytes that are hashed. A time in milliseconds and its bucket are written with all their digits. -/
def data : List UInt8 :=
  utf8 (toWellFormed (join "|" [payment.invoiceId, payment.payerId, payment.amount.string, sortedRecipients payment,
    utf16 (ToString.toString (windowBucket windowMs now))]))

def fingerprint : String := hex (sha256 (data windowMs payment now)).1

end Fingerprints

section Store

structure FingerprintEntry where
  txHash : String
  submittedAt : Int
  deriving DecidableEq

abbrev Store := OrdMap String FingerprintEntry

structure CheckResult where
  isDuplicate : Bool
  existingTxHash : Option String := none
  fingerprint : String
  deriving DecidableEq

structure DuplicatePaymentError where
  fingerprint : String
  txHash : String
  submittedAt : Int

variable (sha256 : List UInt8 → Digest) (windowMs : Window) (store : Store) (payment : DeduplicationPayment) (dateNow : Int)

def timeOf : Int := payment.timestamp.getD dateNow

/-- An entry is older than the window. -/
def isExpired (now submittedAt : Int) : Bool := windowMs.1.le (.finite (now - submittedAt : Int))

def evict (now : Int) : Store := store.filter (fun entry => !isExpired windowMs now entry.2.submittedAt)

def check : CheckResult × Store :=
  let now := timeOf payment dateNow
  let store := evict windowMs store now
  let fingerprint := fingerprint sha256 windowMs payment now
  match store.get? fingerprint with
  | some entry => ({ isDuplicate := true, existingTxHash := some entry.txHash, fingerprint }, store)
  | none => ({ isDuplicate := false, fingerprint }, store)

def record (txHash : String) : Store :=
  let now := timeOf payment dateNow
  store.set (fingerprint sha256 windowMs payment now) { txHash, submittedAt := now }

def assertNotDuplicate : Except DuplicatePaymentError String × Store :=
  let (result, store) := check sha256 windowMs store payment dateNow
  match result.existingTxHash, store.get? result.fingerprint with
  | some txHash, some entry => (.error { fingerprint := result.fingerprint, txHash, submittedAt := entry.submittedAt }, store)
  | _, _ => (.ok result.fingerprint, store)

end Store

section Runs

variable (sha256 : List UInt8 → Digest) (windowMs : Window)

structure Recorded where
  payment : DeduplicationPayment
  time : Int
  txHash : String

/-- The recorded payments, the last one first, and the time of the last call are kept beside the store. -/
structure History where
  store : Store := .empty
  log : List Recorded := []
  clock : Option Int := none

inductive Event
  | record (payment : DeduplicationPayment) (txHash : String) (dateNow : Int)
  | check (payment : DeduplicationPayment) (dateNow : Int)

/-- The time has not gone back. -/
def Timely (h : History) (now : Int) : Prop := ∀ clock ∈ h.clock, clock ≤ now

instance (h : History) (now : Int) : Decidable (Timely h now) := inferInstanceAs (Decidable (∀ clock ∈ h.clock, clock ≤ now))

/-- The calls come at times that do not decrease, and no payment is recorded twice within a window. -/
def step (h : History) : Event → Option History
  | .record payment txHash dateNow =>
      let now := timeOf payment dateNow
      if Timely h now ∧ ∀ r ∈ h.log, Same r.payment payment → isExpired windowMs now r.time then
        some { store := record sha256 windowMs h.store payment dateNow txHash, log := ⟨payment, now, txHash⟩ :: h.log,
               clock := some now }
      else none
  | .check payment dateNow =>
      let now := timeOf payment dateNow
      if Timely h now then
        some { h with store := (check sha256 windowMs h.store payment dateNow).2, clock := some now }
      else none

end Runs

end SplitSdk.PaymentFingerprint

namespace SplitSdk.PaymentDeduplication

open Interleaving Numbers OrderedMap PaymentFingerprint
open ContentIdentifiers (Digest)

section Statement

variable (sha256 : List UInt8 → Digest) (windowMs : Window)

/-- A duplicate is reported just when the same payment was recorded within the window, and then with its transaction. -/
structure Right (log : List Recorded) (payment : DeduplicationPayment) (now : Int) (result : CheckResult) : Prop where
  isDuplicate : result.isDuplicate ↔ ∃ r ∈ log, Same r.payment payment ∧ ¬ isExpired windowMs now r.time
  existingTxHash : ∀ r ∈ log, Same r.payment payment → ¬ isExpired windowMs now r.time →
    result.existingTxHash = some r.txHash

def Lawful (h : History) : Event → Prop
  | .check payment dateNow => Timely h (timeOf payment dateNow) →
      Right windowMs h.log payment (timeOf payment dateNow) (check sha256 windowMs h.store payment dateNow).1
  | .record .. => True

/-- The last recorded payment with these bytes. -/
def latest (log : List Recorded) (bytes : List UInt8) : Option Recorded :=
  log.find? (fun r => data windowMs r.payment r.time = bytes)

/-- Within the window the same payment is written with the same bytes, and the last payment with these bytes is the same. -/
structure Plain (log : List Recorded) (payment : DeduplicationPayment) (now : Int) : Prop where
  written : ∀ r ∈ log, Same r.payment payment → ¬ isExpired windowMs now r.time →
    data windowMs r.payment r.time = data windowMs payment now
  read : ∀ r, latest windowMs log (data windowMs payment now) = some r → ¬ isExpired windowMs now r.time →
    Same r.payment payment

instance (log : List Recorded) (payment : DeduplicationPayment) (now : Int) (result : CheckResult) :
    Decidable (Right windowMs log payment now result) :=
  decidable_of_iff ((result.isDuplicate ↔ ∃ r ∈ log, Same r.payment payment ∧ ¬ isExpired windowMs now r.time) ∧
      ∀ r ∈ log, Same r.payment payment → ¬ isExpired windowMs now r.time → result.existingTxHash = some r.txHash)
    ⟨fun ⟨hduplicate, htxHash⟩ => ⟨hduplicate, htxHash⟩, fun h => ⟨h.isDuplicate, h.existingTxHash⟩⟩

instance (h : History) : DecidablePred (Lawful sha256 windowMs h)
  | .record .. => .isTrue trivial
  | .check .. => inferInstanceAs (Decidable (_ → _))

instance (log : List Recorded) (payment : DeduplicationPayment) (now : Int) : Decidable (Plain windowMs log payment now) :=
  decidable_of_iff ((∀ r ∈ log, Same r.payment payment → ¬ isExpired windowMs now r.time →
        data windowMs r.payment r.time = data windowMs payment now) ∧
      ∀ r ∈ latest windowMs log (data windowMs payment now), ¬ isExpired windowMs now r.time → Same r.payment payment)
    ⟨fun ⟨hwritten, hread⟩ => ⟨hwritten, hread⟩, fun h => ⟨h.written, h.read⟩⟩

def Told (h : History) : Event → Prop
  | .check payment dateNow => Timely h (timeOf payment dateNow) → Plain windowMs h.log payment (timeOf payment dateNow)
  | .record .. => True

instance (h : History) : DecidablePred (Told windowMs h)
  | .record .. => .isTrue trivial
  | .check .. => inferInstanceAs (Decidable (_ → _))

/-- The transaction is another one than those of the payments recorded before. -/
def Fresh (h : History) : Event → Prop
  | .record _ txHash _ => ∀ r ∈ h.log, txHash ≠ r.txHash
  | .check .. => True

def bytesOf : Event → List UInt8
  | .record payment _ dateNow | .check payment dateNow => data windowMs payment (timeOf payment dateNow)

end Statement

section Windows

variable {windowMs : Window} {now later time time' : Int}

theorem isExpired_mono (h : isExpired windowMs now time) (hnow : now ≤ later) (htime : time' ≤ time) :
    isExpired windowMs later time' := by
  refine JsNumber.le_finite_mono ?_ h
  exact_mod_cast Int.sub_le_sub hnow htime

end Windows

section Stores

variable {sha256 : List UInt8 → Digest} {windowMs : Window} {bytes : Set (List UInt8)} {h t : History}
  {payment : DeduplicationPayment} {dateNow now : Int}

def fingerprintOf (sha256 : List UInt8 → Digest) (windowMs : Window) (r : Recorded) : String :=
  fingerprint sha256 windowMs r.payment r.time

def entryOf (r : Recorded) : FingerprintEntry := { txHash := r.txHash, submittedAt := r.time }

/-- The store has the last payment of every fingerprint until it expires. -/
structure Sound (sha256 : List UInt8 → Digest) (windowMs : Window) (bytes : Set (List UInt8)) (h : History) : Prop where
  known : ∀ r ∈ h.log, data windowMs r.payment r.time ∈ bytes
  clock : ∀ r ∈ h.log, ∃ clock, h.clock = some clock ∧ r.time ≤ clock
  ordered : h.log.Pairwise (fun later r => r.time ≤ later.time ∧
    (Same r.payment later.payment → isExpired windowMs later.time r.time))
  stored : ∀ key entry, h.store.get? key = some entry →
    ∃ r, h.log.find? (fun r => fingerprintOf sha256 windowMs r = key) = some r ∧ entry = entryOf r
  kept : ∀ key r, h.log.find? (fun r => fingerprintOf sha256 windowMs r = key) = some r →
    h.store.get? key = some (entryOf r) ∨ ∃ clock, h.clock = some clock ∧ isExpired windowMs clock r.time

theorem find?_cons (first : Recorded) (log : List Recorded) (key : String) :
    (first :: log).find? (fun r => fingerprintOf sha256 windowMs r = key) =
      if key = fingerprintOf sha256 windowMs first then some first
      else log.find? (fun r => fingerprintOf sha256 windowMs r = key) := by
  split_ifs with hkey
  · exact List.find?_cons_of_pos (decide_eq_true hkey.symm)
  · exact List.find?_cons_of_neg (by simpa using Ne.symm hkey)

theorem sound_init : Sound sha256 windowMs bytes {} :=
  ⟨fun _ hr => absurd hr List.not_mem_nil, fun _ hr => absurd hr List.not_mem_nil, List.Pairwise.nil,
    fun _ _ hentry => (by cases hentry), fun _ _ hr => (by cases hr)⟩

/-- What is left after the expired entries are gone. -/
theorem get?_evict (hsound : Sound sha256 windowMs bytes h) (htimely : Timely h now) (key : String) (entry : FingerprintEntry) :
    (evict windowMs h.store now).get? key = some entry ↔
      ∃ r, h.log.find? (fun r => fingerprintOf sha256 windowMs r = key) = some r ∧ entry = entryOf r ∧
        ¬ isExpired windowMs now r.time := by
  rw [evict, OrdMap.get?_filter_eq_some_iff]
  constructor
  · rintro ⟨hget, hkeep⟩
    obtain ⟨r, hr, rfl⟩ := hsound.stored key entry hget
    exact ⟨r, hr, rfl, Bool.eq_false_iff.mp ((Bool.not_eq_true' _).mp hkeep)⟩
  · rintro ⟨r, hr, rfl, hlive⟩
    rcases hsound.kept key r hr with hget | ⟨clock, hclock, hexpired⟩
    · exact ⟨hget, (Bool.not_eq_true' _).mpr (Bool.eq_false_iff.mpr hlive)⟩
    · exact absurd (isExpired_mono hexpired (htimely clock hclock) (le_refl _)) hlive

theorem evict_sound (hsound : Sound sha256 windowMs bytes h) (htimely : Timely h now) :
    Sound sha256 windowMs bytes { h with store := evict windowMs h.store now, clock := some now } := by
  refine ⟨hsound.known, fun r hr => ?_, hsound.ordered, fun key entry hentry => ?_, fun key r hr => ?_⟩
  · obtain ⟨clock, hclock, hle⟩ := hsound.clock r hr
    exact ⟨now, rfl, hle.trans (htimely clock hclock)⟩
  · obtain ⟨r, hr, hentry, -⟩ := (get?_evict hsound htimely key entry).mp hentry
    exact ⟨r, hr, hentry⟩
  · by_cases hexpired : isExpired windowMs now r.time = true
    · exact .inr ⟨now, rfl, hexpired⟩
    · exact .inl ((get?_evict hsound htimely key _).mpr ⟨r, hr, rfl, hexpired⟩)

theorem record_sound (hsound : Sound sha256 windowMs bytes h) (htimely : Timely h (timeOf payment dateNow))
    (hnew : ∀ r ∈ h.log, Same r.payment payment → isExpired windowMs (timeOf payment dateNow) r.time)
    (hbytes : data windowMs payment (timeOf payment dateNow) ∈ bytes) (txHash : String) :
    Sound sha256 windowMs bytes
      { store := record sha256 windowMs h.store payment dateNow txHash
        log := ⟨payment, timeOf payment dateNow, txHash⟩ :: h.log
        clock := some (timeOf payment dateNow) } := by
  have hold (r : Recorded) (hr : r ∈ h.log) : r.time ≤ timeOf payment dateNow := by
    obtain ⟨clock, hclock, hle⟩ := hsound.clock r hr
    exact hle.trans (htimely clock hclock)
  refine ⟨?_, ?_, ?_, fun key entry hentry => ?_, fun key r hr => ?_⟩
  · exact List.forall_mem_cons.mpr ⟨hbytes, hsound.known⟩
  · exact List.forall_mem_cons.mpr ⟨⟨_, rfl, le_refl _⟩, fun r hr => ⟨_, rfl, hold r hr⟩⟩
  · exact List.pairwise_cons.mpr ⟨fun r hr => ⟨hold r hr, hnew r hr⟩, hsound.ordered⟩
  · change (h.store.set _ _).get? key = some entry at hentry
    rw [OrdMap.get?_set] at hentry
    dsimp only
    rw [find?_cons, fingerprintOf]
    split_ifs at hentry ⊢ with hkey
    · cases hentry
      exact ⟨_, rfl, rfl⟩
    · exact hsound.stored key entry hentry
  · change (h.store.set _ _).get? key = _ ∨ _
    dsimp only at hr
    rw [find?_cons, fingerprintOf] at hr
    rw [OrdMap.get?_set]
    split_ifs at hr ⊢ with hkey
    · cases hr
      exact .inl rfl
    · rcases hsound.kept key r hr with hget | ⟨clock, hclock, hexpired⟩
      · exact .inl hget
      · exact .inr ⟨_, rfl, isExpired_mono hexpired (htimely clock hclock) (le_refl _)⟩

end Stores

section Checks

variable {sha256 : List UInt8 → Digest} {windowMs : Window} {bytes : Set (List UInt8)} {h t : History}
  {payment : DeduplicationPayment} {dateNow now : Int}

theorem find?_congr {α : Type} {p q : α → Bool} {xs : List α} (h : ∀ x ∈ xs, p x = q x) : xs.find? p = xs.find? q := by
  induction xs with
  | nil => rfl
  | cons x xs ih =>
      obtain ⟨hx, hxs⟩ := List.forall_mem_cons.mp h
      rw [List.find?_cons, List.find?_cons, hx, ih hxs]

/-- Without collisions the fingerprints tell what the bytes tell. -/
theorem find?_fingerprint (hinj : Set.InjOn sha256 bytes) (hsound : Sound sha256 windowMs bytes h)
    (hbytes : data windowMs payment now ∈ bytes) :
    h.log.find? (fun r => fingerprintOf sha256 windowMs r = fingerprint sha256 windowMs payment now) =
      latest windowMs h.log (data windowMs payment now) := by
  refine find?_congr (fun r hr => decide_eq_decide.mpr ⟨fun heq => ?_, fun heq => ?_⟩)
  · have hdigest := congrArg TextEncoding.decodeHex heq
    rw [fingerprintOf, fingerprint, fingerprint, TextEncoding.decodeHex_hex, TextEncoding.decodeHex_hex] at hdigest
    exact hinj (hsound.known r hr) hbytes (Subtype.ext hdigest)
  · rw [fingerprintOf, fingerprint, fingerprint, heq]

/-- A check finds the last payment with these bytes while it is in the window. -/
theorem check_spec (hinj : Set.InjOn sha256 bytes) (hsound : Sound sha256 windowMs bytes h)
    (htimely : Timely h (timeOf payment dateNow)) (hbytes : data windowMs payment (timeOf payment dateNow) ∈ bytes) :
    (∃ r, latest windowMs h.log (data windowMs payment (timeOf payment dateNow)) = some r ∧
        ¬ isExpired windowMs (timeOf payment dateNow) r.time ∧
        (check sha256 windowMs h.store payment dateNow).1.isDuplicate = true ∧
        (check sha256 windowMs h.store payment dateNow).1.existingTxHash = some r.txHash) ∨
      (∀ r, latest windowMs h.log (data windowMs payment (timeOf payment dateNow)) = some r →
          isExpired windowMs (timeOf payment dateNow) r.time) ∧
        (check sha256 windowMs h.store payment dateNow).1.isDuplicate = false := by
  have hget := get?_evict hsound htimely (fingerprint sha256 windowMs payment (timeOf payment dateNow))
  rw [find?_fingerprint hinj hsound hbytes] at hget
  unfold check
  dsimp only
  cases hentry : (evict windowMs h.store (timeOf payment dateNow)).get?
      (fingerprint sha256 windowMs payment (timeOf payment dateNow)) with
  | some entry =>
      obtain ⟨r, hr, rfl, hlive⟩ := (hget entry).mp hentry
      exact .inl ⟨r, hr, hlive, rfl, rfl⟩
  | none =>
      refine .inr ⟨fun r hr => ?_, rfl⟩
      by_contra hlive
      cases hentry.symm.trans ((hget _).mpr ⟨r, hr, rfl, hlive⟩)

/-- At most one recorded payment in the window is the one that is checked. -/
theorem eq_of_same {log : List Recorded} (hordered : log.Pairwise (fun later r => r.time ≤ later.time ∧
      (Same r.payment later.payment → isExpired windowMs later.time r.time)))
    (hold : ∀ r ∈ log, r.time ≤ now) {r r' : Recorded} (hr : r ∈ log) (hr' : r' ∈ log) (hsame : Same r.payment payment)
    (hsame' : Same r'.payment payment) (hlive : ¬ isExpired windowMs now r.time) (hlive' : ¬ isExpired windowMs now r'.time) :
    r = r' := by
  induction log with
  | nil => cases hr
  | cons first log ih =>
      obtain ⟨hfirst, hordered⟩ := List.pairwise_cons.mp hordered
      obtain ⟨hnow, hold⟩ := List.forall_mem_cons.mp hold
      rcases List.mem_cons.mp hr with rfl | hmem
      · rcases List.mem_cons.mp hr' with rfl | hmem'
        · rfl
        · have hexpired := (hfirst r' hmem').2 (hsame'.trans hsame.symm)
          exact absurd (isExpired_mono hexpired hnow (le_refl _)) hlive'
      · rcases List.mem_cons.mp hr' with rfl | hmem'
        · have hexpired := (hfirst r hmem).2 (hsame.trans hsame'.symm)
          exact absurd (isExpired_mono hexpired hnow (le_refl _)) hlive
        · exact ih hordered hold hmem hmem'

/-- The last payment with some bytes is in the window when one with these bytes is. -/
theorem latest_live {log : List Recorded} (hordered : log.Pairwise (fun later r => r.time ≤ later.time ∧
      (Same r.payment later.payment → isExpired windowMs later.time r.time)))
    {key : List UInt8} {r : Recorded} (hr : r ∈ log) (hdata : data windowMs r.payment r.time = key)
    (hlive : ¬ isExpired windowMs now r.time) :
    ∃ last ∈ log, latest windowMs log key = some last ∧ ¬ isExpired windowMs now last.time := by
  induction log with
  | nil => cases hr
  | cons first log ih =>
      obtain ⟨hfirst, hordered⟩ := List.pairwise_cons.mp hordered
      by_cases hkey : data windowMs first.payment first.time = key
      · refine ⟨first, List.mem_cons_self, List.find?_cons_of_pos (decide_eq_true hkey), fun hexpired => hlive ?_⟩
        rcases List.mem_cons.mp hr with rfl | hr
        · exact hexpired
        · exact isExpired_mono hexpired (le_refl _) (hfirst r hr).1
      · rcases List.mem_cons.mp hr with rfl | hr
        · exact absurd hdata hkey
        · obtain ⟨last, hmem, hlast, hlive⟩ := ih hordered hr
          exact ⟨last, List.mem_cons_of_mem _ hmem,
            (List.find?_cons_of_neg (by simpa using hkey)).trans hlast, hlive⟩

theorem latest_data {log : List Recorded} {key : List UInt8} {r : Recorded} (h : latest windowMs log key = some r) :
    data windowMs r.payment r.time = key := by
  have hfound := List.find?_some h
  exact of_decide_eq_true hfound

theorem Sound.old (hsound : Sound sha256 windowMs bytes h) (htimely : Timely h now) : ∀ r ∈ h.log, r.time ≤ now := by
  intro r hr
  obtain ⟨clock, hclock, hle⟩ := hsound.clock r hr
  exact hle.trans (htimely clock hclock)

theorem right_of_plain (hinj : Set.InjOn sha256 bytes) (hsound : Sound sha256 windowMs bytes h)
    (htimely : Timely h (timeOf payment dateNow)) (hbytes : data windowMs payment (timeOf payment dateNow) ∈ bytes)
    (hplain : Plain windowMs h.log payment (timeOf payment dateNow)) :
    Right windowMs h.log payment (timeOf payment dateNow) (check sha256 windowMs h.store payment dateNow).1 := by
  have hfound (r : Recorded) (hr : r ∈ h.log) (hsame : Same r.payment payment)
      (hlive : ¬ isExpired windowMs (timeOf payment dateNow) r.time) :
      latest windowMs h.log (data windowMs payment (timeOf payment dateNow)) = some r := by
    obtain ⟨last, hmem, hlast, hlive'⟩ := latest_live hsound.ordered hr (hplain.written r hr hsame hlive) hlive
    have hsame' := hplain.read last hlast hlive'
    exact eq_of_same hsound.ordered (hsound.old htimely) hmem hr hsame' hsame hlive' hlive ▸ hlast
  rcases check_spec hinj hsound htimely hbytes with ⟨last, hlast, hlive, hduplicate, htxHash⟩ | ⟨hexpired, hnot⟩
  · refine ⟨iff_of_true hduplicate ⟨last, List.mem_of_find?_eq_some hlast, hplain.read last hlast hlive, hlive⟩, ?_⟩
    intro r hr hsame hlive'
    obtain rfl := Option.some.inj (hlast.symm.trans (hfound r hr hsame hlive'))
    exact htxHash
  · refine ⟨iff_of_false (Bool.eq_false_iff.mp hnot) ?_, fun r hr hsame hlive => ?_⟩
    · rintro ⟨r, hr, hsame, hlive⟩
      exact hlive (hexpired r (hfound r hr hsame hlive))
    · exact absurd (hexpired r (hfound r hr hsame hlive)) hlive

theorem plain_of_right (hinj : Set.InjOn sha256 bytes) (hsound : Sound sha256 windowMs bytes h)
    (htimely : Timely h (timeOf payment dateNow)) (hbytes : data windowMs payment (timeOf payment dateNow) ∈ bytes)
    (hdistinct : (h.log.map Recorded.txHash).Nodup)
    (hright : Right windowMs h.log payment (timeOf payment dateNow) (check sha256 windowMs h.store payment dateNow).1) :
    Plain windowMs h.log payment (timeOf payment dateNow) := by
  have hsameHash {r r' : Recorded} (hr : r ∈ h.log) (hr' : r' ∈ h.log) (heq : r.txHash = r'.txHash) : r = r' :=
    List.inj_on_of_nodup_map hdistinct hr hr' heq
  rcases check_spec hinj hsound htimely hbytes with ⟨last, hlast, hlive, hduplicate, htxHash⟩ | ⟨hexpired, hnot⟩
  · have hmem := List.mem_of_find?_eq_some hlast
    refine ⟨fun r hr hsame hlive' => ?_, fun r hr hlive' => ?_⟩
    · have heq := Option.some.inj (htxHash.symm.trans (hright.existingTxHash r hr hsame hlive'))
      rw [← hsameHash hmem hr heq]
      exact latest_data hlast
    · obtain rfl := Option.some.inj (hlast.symm.trans hr)
      obtain ⟨r, hr, hsame, hlive'⟩ := hright.isDuplicate.mp hduplicate
      have heq := Option.some.inj (htxHash.symm.trans (hright.existingTxHash r hr hsame hlive'))
      exact hsameHash hmem hr heq ▸ hsame
  · refine ⟨fun r hr hsame hlive => ?_, fun r hr hlive => absurd (hexpired r hr) hlive⟩
    exact absurd (hright.isDuplicate.mpr ⟨r, hr, hsame, hlive⟩) (Bool.eq_false_iff.mp hnot)

end Checks

section Runs

variable {sha256 : List UInt8 → Digest} {windowMs : Window} {bytes : Set (List UInt8)} {h t : History} {e : Event}

theorem step_sound (hsound : Sound sha256 windowMs bytes h) (hbytes : bytesOf windowMs e ∈ bytes)
    (hstep : step sha256 windowMs h e = some t) : Sound sha256 windowMs bytes t := by
  cases e with
  | record payment txHash dateNow =>
      unfold step at hstep
      dsimp only at hstep
      split_ifs at hstep with henabled
      cases hstep
      exact record_sound hsound henabled.1 henabled.2 hbytes txHash
  | check payment dateNow =>
      unfold step at hstep
      dsimp only at hstep
      split_ifs at hstep with htimely
      cases hstep
      have hstore : (check sha256 windowMs h.store payment dateNow).2 = evict windowMs h.store (timeOf payment dateNow) := by
        unfold check
        dsimp only
        split <;> rfl
      rw [hstore]
      exact evict_sound hsound htimely

theorem lawful_of_told (hinj : Set.InjOn sha256 bytes) (hsound : Sound sha256 windowMs bytes h)
    (hbytes : bytesOf windowMs e ∈ bytes) (htold : Told windowMs h e) : Lawful sha256 windowMs h e := by
  cases e with
  | record => trivial
  | check payment dateNow => exact fun htimely => right_of_plain hinj hsound htimely hbytes (htold htimely)

theorem told_of_lawful (hinj : Set.InjOn sha256 bytes) (hsound : Sound sha256 windowMs bytes h)
    (hdistinct : (h.log.map Recorded.txHash).Nodup) (hbytes : bytesOf windowMs e ∈ bytes)
    (hlawful : Lawful sha256 windowMs h e) : Told windowMs h e := by
  cases e with
  | record => trivial
  | check payment dateNow => exact fun htimely => plain_of_right hinj hsound htimely hbytes hdistinct (hlawful htimely)

theorem step_distinct (hdistinct : (h.log.map Recorded.txHash).Nodup) (hfresh : Fresh h e)
    (hstep : step sha256 windowMs h e = some t) : (t.log.map Recorded.txHash).Nodup := by
  cases e with
  | record payment txHash dateNow =>
      unfold step at hstep
      dsimp only at hstep
      split_ifs at hstep
      cases hstep
      refine List.nodup_cons.mpr ⟨fun hmem => ?_, hdistinct⟩
      obtain ⟨r, hr, heq⟩ := List.mem_map.mp hmem
      exact hfresh r hr heq.symm
  | check payment dateNow =>
      unfold step at hstep
      dsimp only at hstep
      split_ifs at hstep
      cases hstep
      exact hdistinct

end Runs

section Sample

open TextEncoding (utf8 utf16)

def tenMs : Window := ⟨.finite 10, by decide⟩

def payment (invoiceId payerId : String) : DeduplicationPayment where
  invoiceId := utf16 invoiceId
  payerId := utf16 payerId
  amount := .text (utf16 "1")
  recipientIds := [utf16 "r"]

/-- The digests of the payment of `a|b` in the first two buckets. -/
def sampleSha256 (bytes : List UInt8) : Digest :=
  if bytes = utf8 "a|b|payer|1|r|0" then
    ⟨[81, 236, 140, 169, 212, 209, 74, 120, 234, 13, 212, 166, 107, 199, 148, 247, 49, 114, 46, 61, 222, 229, 25,
      31, 122, 180, 252, 130, 103, 228, 53, 84], rfl⟩
  else
    ⟨[116, 208, 157, 215, 45, 29, 148, 214, 76, 206, 103, 160, 213, 7, 233, 22, 26, 165, 113, 51, 8, 157, 217,
      26, 198, 22, 239, 125, 101, 211, 174, 245], rfl⟩

/-- A payment that is checked in the bucket in which it was recorded. -/
def sameBucket : List Event := [.record (payment "a|b" "payer") "hash" 3, .check (payment "a|b" "payer") 5]

end Sample

end SplitSdk.PaymentDeduplication
