import SplitSdk.NumberText
import SplitSdk.TextEncoding

namespace SplitSdk.WebhookVerification

open Numbers TextEncoding

structure WebhookClient where
  secret : String
  toleranceSeconds : JsNumber := .finite 300

/-- A `string | Buffer`. -/
inductive Body
  | text (s : Units)
  | buffer (bytes : List UInt8)

def Body.str : Body → Units
  | .text s => s
  | .buffer bytes => utf16 (decodeUtf8 bytes)

structure Verification where
  valid : Bool
  timestamp : JsNumber
  reason : Option String
  deriving DecidableEq

/-- The bytes of a string that is given to `hmac.update`. -/
def hashed (s : Units) : List UInt8 := utf8 (toWellFormed s)

def signatureContent (timestamp : JsNumber) (bodyStr : Units) : Units :=
  utf16 (Numbers.toString timestamp ++ ".") ++ bodyStr

section Headers

def includes (s searched : String) : Bool := s.toList.tails.any searched.toList.isPrefixOf

/-- What follows `name` in the first of `parts` that starts with it. -/
def partAfter (name : String) (parts : List (List Char)) : Option (List Char) :=
  (parts.map trim).findSome? (fun part =>
    if name.toList.isPrefixOf part then some (part.drop name.length) else none)

/-- How a signature comes: alone, or with a timestamp from either header. -/
inductive Presented
  | malformed
  | direct
  | stamped (timestamp : JsNumber) (expectedSig : String)
  deriving DecidableEq

def readHeaders (signatureHeader : String) (timestampHeader : Option String) : Presented :=
  if includes signatureHeader "t=" ∧ includes signatureHeader "v1=" then
    let parts := signatureHeader.toList.splitOn ','
    let tPart := (partAfter "t=" parts).getD []
    let v1Part := (partAfter "v1=" parts).getD []
    if tPart = [] ∨ v1Part = [] then .malformed
    else .stamped (ofString (String.ofList tPart)) (String.ofList v1Part)
  else match timestampHeader with
    | none | some "" => .direct
    | some timestampHeader => .stamped (ofString timestampHeader) signatureHeader

/-- The test against `/^[0-9a-f]+$/i`, and for an even length. -/
def isHex (s : String) : Bool :=
  s.toList ≠ [] ∧ s.toList.all (fun c => (hexValue c).isSome) ∧ s.toList.length % 2 = 0

end Headers

section Verify

variable (createHmac : List UInt8 → List UInt8 → List UInt8) (client : WebhookClient)

def digest (s : Units) : List UInt8 := createHmac (utf8 client.secret) (hashed s)

def computeSignature (payload : Body) (timestamp : Option JsNumber) (nowMs : Nat) : String × JsNumber :=
  let ts := timestamp.getD (.finite (nowMs / 1000 : Nat))
  (hex (digest createHmac client (signatureContent ts payload.str)), ts)

def reject (timestamp : JsNumber) (reason : String) : Verification := ⟨false, timestamp, some reason⟩

def drift (timestamp : JsNumber) (nowMs : Nat) : JsNumber := (JsNumber.sub (.finite (nowMs / 1000 : Nat)) timestamp).abs

/-- The timestamp is not further from the clock than the tolerance. -/
def IsFresh (timestamp : JsNumber) (nowMs : Nat) : Prop :=
  client.toleranceSeconds.lt (drift timestamp nowMs) = false

instance (timestamp : JsNumber) (nowMs : Nat) : Decidable (IsFresh client timestamp nowMs) :=
  inferInstanceAs (Decidable (_ = _))

def IsPositive (timestamp : JsNumber) : Prop := JsNumber.lt (.finite 0) timestamp

instance (timestamp : JsNumber) : Decidable (IsPositive timestamp) := inferInstanceAs (Decidable (_ = _))

def verifyDirect (bodyStr : Units) (signatureHeader : String) (nowMs : Nat) : Verification :=
  if isHex signatureHeader ∧ decodeHex signatureHeader = digest createHmac client bodyStr then
    ⟨true, .finite (nowMs / 1000 : Nat), none⟩
  else reject (.finite 0) "Missing timestamp"

def verifyStamped (bodyStr : Units) (timestamp : JsNumber) (expectedSig : String) (nowMs : Nat) : Verification :=
  -- `NaN` and the numbers `<= 0`
  if ¬IsPositive timestamp then reject (.finite 0) "Invalid timestamp"
  else if ¬IsFresh client timestamp nowMs then
    let stamp := Numbers.toString timestamp
    let tolerance := Numbers.toString client.toleranceSeconds
    let drift := Numbers.toString (drift timestamp nowMs)
    reject timestamp s!"Timestamp {stamp} outside tolerance of {tolerance}s (drift: {drift}s)"
  else if ¬isHex expectedSig then reject timestamp "Invalid hex signature format"
  else
    let computedDigest := digest createHmac client (signatureContent timestamp bodyStr)
    let providedDigest := decodeHex expectedSig
    if computedDigest.length ≠ providedDigest.length then reject timestamp "Signature length mismatch"
    else if computedDigest ≠ providedDigest then reject timestamp "Signature mismatch"
    else ⟨true, timestamp, none⟩

def verify (rawBody : Body) (signatureHeader : String) (timestampHeader : Option String) (nowMs : Nat) :
    Verification :=
  match readHeaders signatureHeader timestampHeader with
  | .malformed => reject (.finite 0) "Malformed signature header format"
  | .direct => verifyDirect createHmac client rawBody.str signatureHeader nowMs
  | .stamped timestamp expectedSig =>
      verifyStamped createHmac client rawBody.str timestamp expectedSig nowMs

end Verify

end SplitSdk.WebhookVerification

namespace SplitSdk.WebhookAuthenticity

open Numbers NumberText TextEncoding WebhookVerification

section Statement

/-- A body and a timestamp that `computeSignature` was called with. -/
structure SignedPair where
  payload : Body
  timestamp : Double

structure Delivery where
  rawBody : Body
  signatureHeader : String
  timestampHeader : Option String
  nowMs : Nat

/-- The same text, and where bytes were sent the same bytes. -/
def SameBody : Body → Body → Prop
  | .text s, .text s' => s = s'
  | .buffer bytes, .buffer bytes' => bytes = bytes'
  | .text s, .buffer bytes | .buffer bytes, .text s => s = utf16 (decodeUtf8 bytes) ∧ bytes = hashed s

def presented (d : Delivery) : Presented := readHeaders d.signatureHeader d.timestampHeader

def signatureValue (d : Delivery) : Option String :=
  match presented d with
  | .malformed => none
  | .direct => some d.signatureHeader
  | .stamped _ expectedSig => some expectedSig

def content (pair : SignedPair) : Units := signatureContent pair.timestamp.val pair.payload.str

variable (createHmac : List UInt8 → List UInt8 → List UInt8) (client : WebhookClient)

/-- The signature of the delivery stands for the bytes of the signature of the pair. -/
def Carries (d : Delivery) (pair : SignedPair) : Prop :=
  ∃ value, signatureValue d = some value ∧ isHex value ∧
    decodeHex value = decodeHex (computeSignature createHmac client pair.payload (some pair.timestamp.val) d.nowMs).1

def Accepted (d : Delivery) : Prop :=
  (verify createHmac client d.rawBody d.signatureHeader d.timestampHeader d.nowMs).valid

def Authentic (signed : Set SignedPair) (d : Delivery) : Prop :=
  ∀ pair ∈ signed, Carries createHmac client d pair → Accepted createHmac client d →
    SameBody d.rawBody pair.payload ∧ IsFresh client pair.timestamp.val d.nowMs

/-- The string whose HMAC the delivery is compared with. -/
def compared (d : Delivery) : Option Units :=
  match presented d with
  | .malformed => none
  | .direct => some d.rawBody.str
  | .stamped timestamp _ => some (signatureContent timestamp d.rawBody.str)

/-- No two strings that are signed or compared have one HMAC. -/
def Injective (signed : Set SignedPair) (d : Delivery) : Prop :=
  ∀ pair ∈ signed, ∀ s, compared d = some s →
    digest createHmac client s = digest createHmac client (content pair) → hashed s = hashed (content pair)

/-- The signed content, timestamp included, comes as the body of a delivery without a timestamp. -/
def Unstamped (d : Delivery) (pair : SignedPair) : Prop :=
  presented d = .direct ∧ toWellFormed d.rawBody.str = toWellFormed (content pair)

/-- Another timestamp in front of another body gives the signed content. -/
def Reframed (d : Delivery) (pair : SignedPair) : Prop :=
  ∃ timestamp expectedSig, presented d = .stamped timestamp expectedSig ∧ IsPositive timestamp ∧
    IsFresh client timestamp d.nowMs ∧ timestamp ≠ pair.timestamp.val ∧
    toWellFormed (signatureContent timestamp d.rawBody.str) = toWellFormed (content pair)

/-- Another body reads as the signed one, once what is ill-formed is replaced. -/
def Garbled (d : Delivery) (pair : SignedPair) : Prop :=
  ∃ expectedSig, presented d = .stamped pair.timestamp.val expectedSig ∧ IsPositive pair.timestamp.val ∧
    IsFresh client pair.timestamp.val d.nowMs ∧ toWellFormed d.rawBody.str = toWellFormed pair.payload.str ∧
    ¬SameBody d.rawBody pair.payload

end Statement

section Signatures

variable {createHmac : List UInt8 → List UInt8 → List UInt8} {client : WebhookClient}
  {d : Delivery} {pair : SignedPair}

theorem str_eq_of_sameBody {b b' : Body} (h : SameBody b b') : b.str = b'.str := by
  cases b <;> cases b'
  · exact h
  · exact h.1
  · exact h.1.symm
  · exact congrArg (fun bytes => utf16 (decodeUtf8 bytes)) h

theorem toWellFormed_signatureContent (timestamp : JsNumber) (s : Units) :
    toWellFormed (signatureContent timestamp s) = Numbers.toString timestamp ++ "." ++ toWellFormed s :=
  toWellFormed_utf16_append _ s

/-- A string is shorter than the content that is signed for it. -/
theorem toWellFormed_ne_signatureContent (timestamp : JsNumber) (s : Units) :
    toWellFormed s ≠ toWellFormed (signatureContent timestamp s) := by
  intro h
  have hlength := congrArg String.length h
  rw [toWellFormed_signatureContent, String.length_append, String.length_append] at hlength
  have hdot : ".".length = 1 := rfl
  omega

theorem signatureContent_inj {timestamp : JsNumber} {s s' : Units}
    (h : toWellFormed (signatureContent timestamp s) = toWellFormed (signatureContent timestamp s')) :
    toWellFormed s = toWellFormed s' := by
  rw [toWellFormed_signatureContent, toWellFormed_signatureContent] at h
  exact (String.append_right_inj _).mp h

theorem signatureContent_congr {timestamp : JsNumber} {s s' : Units} (h : toWellFormed s = toWellFormed s') :
    toWellFormed (signatureContent timestamp s) = toWellFormed (signatureContent timestamp s') := by
  rw [toWellFormed_signatureContent, toWellFormed_signatureContent, h]

theorem timestamp_inj {x y : JsNumber} {s : Units} (hx : IsDouble x) (hy : IsDouble y)
    (h : toWellFormed (signatureContent x s) = toWellFormed (signatureContent y s)) : x = y := by
  rw [toWellFormed_signatureContent, toWellFormed_signatureContent] at h
  exact toString_injective hx hy ((String.append_left_inj _).mp ((String.append_left_inj _).mp h))

theorem isDouble_of_stamped {timestamp : JsNumber} {expectedSig : String}
    (h : presented d = .stamped timestamp expectedSig) : IsDouble timestamp := by
  obtain ⟨text, htext⟩ : ∃ text, ofString text = timestamp := by
    unfold presented readHeaders at h
    dsimp only at h
    split_ifs at h
    · exact ⟨_, (Presented.stamped.inj h).1⟩
    · split at h
      · nomatch h
      · nomatch h
      · exact ⟨_, (Presented.stamped.inj h).1⟩
  rw [← htext]
  exact isDouble_ofString text

theorem decodeHex_computeSignature (payload : Body) (timestamp : JsNumber) (nowMs : Nat) :
    decodeHex (computeSignature createHmac client payload (some timestamp) nowMs).1 =
      digest createHmac client (signatureContent timestamp payload.str) := decodeHex_hex _

theorem hashed_eq_iff {s s' : Units} : hashed s = hashed s' ↔ toWellFormed s = toWellFormed s' :=
  ⟨utf8_injective, congrArg utf8⟩

theorem verifyDirect_valid (bodyStr : Units) (signatureHeader : String) (nowMs : Nat) :
    (verifyDirect createHmac client bodyStr signatureHeader nowMs).valid ↔
      isHex signatureHeader ∧ decodeHex signatureHeader = digest createHmac client bodyStr := by
  unfold verifyDirect
  split_ifs with h
  · exact iff_of_true rfl h
  · exact iff_of_false Bool.false_ne_true h

theorem verifyStamped_valid (bodyStr : Units) (timestamp : JsNumber) (expectedSig : String) (nowMs : Nat) :
    (verifyStamped createHmac client bodyStr timestamp expectedSig nowMs).valid ↔
      IsPositive timestamp ∧ IsFresh client timestamp nowMs ∧ isHex expectedSig ∧
        decodeHex expectedSig = digest createHmac client (signatureContent timestamp bodyStr) := by
  unfold verifyStamped
  dsimp only
  split_ifs with hpositive hfresh hhex hlength hdigest
  · exact iff_of_false Bool.false_ne_true (fun h => hlength (by rw [h.2.2.2]))
  · exact iff_of_false Bool.false_ne_true (fun h => hdigest h.2.2.2.symm)
  · exact iff_of_true rfl ⟨hpositive, hfresh, hhex, (not_not.mp hdigest).symm⟩
  · exact iff_of_false Bool.false_ne_true (fun h => hhex h.2.2.1)
  · exact iff_of_false Bool.false_ne_true (fun h => hfresh h.2.1)
  · exact iff_of_false Bool.false_ne_true (fun h => hpositive h.1)

/-- A genuine signature is accepted exactly with a string that reads as the signed content. -/
theorem digest_eq_iff {signed : Set SignedPair} (hinj : Injective createHmac client signed d) (hpair : pair ∈ signed)
    {value : String} (hvalue : decodeHex value = decodeHex
      (computeSignature createHmac client pair.payload (some pair.timestamp.val) d.nowMs).1)
    {s : Units} (hs : compared d = some s) :
    decodeHex value = digest createHmac client s ↔ toWellFormed s = toWellFormed (content pair) := by
  rw [hvalue, decodeHex_computeSignature, ← hashed_eq_iff]
  constructor
  · exact fun h => hinj pair hpair s hs h.symm
  · exact fun h => congrArg (createHmac (utf8 client.secret)) h.symm

end Signatures

section Result

/-- The deliveries with a genuine signature that are accepted are authentic, except for those that
present the signed content in one of three other ways. -/
theorem verify_authentic_iff (createHmac : List UInt8 → List UInt8 → List UInt8) (client : WebhookClient)
    (signed : Set SignedPair) (d : Delivery) (hinj : Injective createHmac client signed d) :
    Authentic createHmac client signed d ↔ ∀ pair ∈ signed, Carries createHmac client d pair →
      ¬Unstamped d pair ∧ ¬Reframed client d pair ∧ ¬Garbled client d pair := by
  refine forall_congr' fun pair => forall_congr' fun hpair => forall_congr' fun hcarries => ?_
  obtain ⟨value, hsignature, hhex, hvalue⟩ := hcarries
  have hdigest := fun {s} => digest_eq_iff hinj hpair hvalue (s := s)
  rw [Accepted, verify]
  cases hpresented : presented d with
  | malformed =>
      rw [signatureValue, hpresented] at hsignature
      cases hsignature
  | direct =>
      obtain rfl : d.signatureHeader = value := by
        rw [signatureValue, hpresented] at hsignature
        exact Option.some.inj hsignature
      have hcompared : compared d = some d.rawBody.str := by rw [compared, hpresented]
      have hheaders : readHeaders d.signatureHeader d.timestampHeader = .direct := hpresented
      rw [hheaders, verifyDirect_valid, hdigest hcompared]
      constructor
      · rintro hauthentic
        refine ⟨?_, ?_, ?_⟩
        · rintro ⟨_, hread⟩
          have hsame := str_eq_of_sameBody (hauthentic ⟨hhex, hread⟩).1
          rw [hsame] at hread
          exact toWellFormed_ne_signatureContent _ _ hread
        · rintro ⟨_, _, hstamped, _⟩
          cases hpresented.symm.trans hstamped
        · rintro ⟨_, hstamped, _⟩
          cases hpresented.symm.trans hstamped
      · rintro ⟨hunstamped, _⟩ ⟨_, hread⟩
        exact absurd ⟨hpresented, hread⟩ hunstamped
  | stamped timestamp expectedSig =>
      obtain rfl : expectedSig = value := by
        rw [signatureValue, hpresented] at hsignature
        exact Option.some.inj hsignature
      have hcompared : compared d = some (signatureContent timestamp d.rawBody.str) := by
        rw [compared, hpresented]
      have hheaders : readHeaders d.signatureHeader d.timestampHeader = .stamped timestamp expectedSig :=
        hpresented
      rw [hheaders, verifyStamped_valid, hdigest hcompared]
      constructor
      · intro hauthentic
        refine ⟨?_, ?_, ?_⟩
        · rintro ⟨hdirect, _⟩
          cases hpresented.symm.trans hdirect
        · rintro ⟨_, _, hstamped, hpositive, hfresh, hne, hread⟩
          cases hpresented.symm.trans hstamped
          have hsame := str_eq_of_sameBody (hauthentic ⟨hpositive, hfresh, hhex, hread⟩).1
          rw [hsame] at hread
          exact hne (timestamp_inj (isDouble_of_stamped hpresented) pair.timestamp.property hread)
        · rintro ⟨_, hstamped, hpositive, hfresh, hread, hdiffers⟩
          cases hpresented.symm.trans hstamped
          exact hdiffers (hauthentic ⟨hpositive, hfresh, hhex, signatureContent_congr hread⟩).1
      · rintro ⟨_, hreframed, hgarbled⟩ ⟨hpositive, hfresh, _, hread⟩
        by_cases hstamp : timestamp = pair.timestamp.val
        · subst hstamp
          refine ⟨?_, hfresh⟩
          by_contra hdiffers
          exact hgarbled ⟨_, hpresented, hpositive, hfresh, signatureContent_inj hread, hdiffers⟩
        · exact absurd ⟨_, _, hpresented, hpositive, hfresh, hstamp, hread⟩ hreframed

end Result

section Deliveries

/-- The HMAC-SHA256 of the content below under `whsec`. -/
def tag : List UInt8 :=
  [49, 101, 156, 224, 51, 180, 28, 143, 175, 179, 252, 121, 237, 212, 141, 160, 67, 132, 227, 128, 137, 212,
    166, 234, 52, 23, 205, 106, 177, 135, 31, 245]

def signedText : String := "1700000000.\x7b\"event\":\"payment\"\x7d"

def hmac (key message : List UInt8) : List UInt8 :=
  if key = utf8 "whsec" ∧ message = utf8 signedText then tag else List.replicate 32 0

def client : WebhookClient := { secret := "whsec" }

def paidPair : SignedPair where
  payload := .text (utf16 "\x7b\"event\":\"payment\"\x7d")
  timestamp := ⟨.finite (1700000000 : Nat), isDouble_natCast (by norm_num)⟩

/-- The signed pair as it is sent. -/
def sent : Delivery := ⟨paidPair.payload, hex tag, some "1700000000", 1700000000000⟩

/-- The same signature a day later, without its timestamp header. -/
def stripped : Delivery := ⟨.text (utf16 signedText), hex tag, none, 1700086400000⟩

theorem headers_read : Numbers.toString (.finite (1700000000 : Nat)) = "1700000000" ∧ isHex (hex tag) ∧
    presented sent = .stamped (.finite (1700000000 : Nat)) (hex tag) ∧ presented stripped = .direct ∧
    IsPositive (.finite (1700000000 : Nat)) ∧ IsFresh client (.finite (1700000000 : Nat)) sent.nowMs := by
  decide +kernel

theorem toWellFormed_content_paidPair : toWellFormed (content paidPair) = signedText := by
  rw [content, toWellFormed_signatureContent, paidPair, Body.str, toWellFormed_utf16, headers_read.1]
  rfl

theorem decodeHex_paidPair (nowMs : Nat) : decodeHex
    (computeSignature hmac client paidPair.payload (some paidPair.timestamp.val) nowMs).1 = tag := by
  rw [decodeHex_computeSignature, digest, hmac, ← content, hashed, toWellFormed_content_paidPair]
  exact if_pos ⟨rfl, rfl⟩

theorem isHex_tag : isHex (hex tag) := headers_read.2.1

theorem presented_sent : presented sent = .stamped (.finite (1700000000 : Nat)) (hex tag) := headers_read.2.2.1

theorem presented_stripped : presented stripped = .direct := headers_read.2.2.2.1

theorem injective_of_read {d : Delivery}
    (h : ∀ s, compared d = some s → toWellFormed s = toWellFormed (content paidPair)) :
    Injective hmac client {paidPair} d := by
  rintro pair rfl s hs _
  exact hashed_eq_iff.mpr (h s hs)

theorem accepted_sent : Accepted hmac client sent := by
  have hheaders : readHeaders sent.signatureHeader sent.timestampHeader =
      .stamped (.finite (1700000000 : Nat)) (hex tag) := presented_sent
  have hdigest := decodeHex_paidPair 0
  rw [decodeHex_computeSignature] at hdigest
  rw [Accepted, verify, hheaders, verifyStamped_valid, decodeHex_hex]
  exact ⟨headers_read.2.2.2.2.1, headers_read.2.2.2.2.2, isHex_tag, hdigest.symm⟩

theorem accepted_stripped : Accepted hmac client stripped := by
  have hheaders : readHeaders stripped.signatureHeader stripped.timestampHeader = .direct := presented_stripped
  rw [Accepted, verify, hheaders, verifyDirect_valid, stripped, decodeHex_hex, Body.str, digest, hashed,
    toWellFormed_utf16, hmac, if_pos ⟨rfl, rfl⟩]
  exact ⟨isHex_tag, rfl⟩

theorem sent_authentic : Accepted hmac client sent ∧ Authentic hmac client {paidPair} sent := by
  have hinj : Injective hmac client {paidPair} sent := by
    apply injective_of_read
    intro s hs
    rw [compared, presented_sent] at hs
    rw [← Option.some.inj hs]
    rfl
  refine ⟨accepted_sent, (verify_authentic_iff hmac client {paidPair} sent hinj).mpr ?_⟩
  rintro pair rfl _
  refine ⟨?_, ?_, ?_⟩
  · rintro ⟨hdirect, _⟩
    cases presented_sent.symm.trans hdirect
  · rintro ⟨timestamp, _, hstamped, _, _, hne, _⟩
    exact hne (Presented.stamped.inj (presented_sent.symm.trans hstamped)).1.symm
  · rintro ⟨_, _, _, _, _, hdiffers⟩
    exact hdiffers rfl

/-- The signed content is accepted as a body, however old it is. -/
theorem stripped_accepted : Injective hmac client {paidPair} stripped ∧ Carries hmac client stripped paidPair ∧
    Accepted hmac client stripped ∧ ¬Authentic hmac client {paidPair} stripped := by
  have hinj : Injective hmac client {paidPair} stripped := by
    apply injective_of_read
    intro s hs
    rw [compared, presented_stripped] at hs
    rw [← Option.some.inj hs, toWellFormed_content_paidPair]
    exact toWellFormed_utf16 signedText
  have hcarries : Carries hmac client stripped paidPair := by
    refine ⟨hex tag, ?_, isHex_tag, by rw [decodeHex_paidPair, decodeHex_hex]⟩
    rw [signatureValue, presented_stripped]
    rfl
  refine ⟨hinj, hcarries, accepted_stripped, ?_⟩
  intro h
  have hsame : utf16 signedText = paidPair.payload.str := (h paidPair rfl hcarries accepted_stripped).1
  have hread := toWellFormed_content_paidPair
  rw [← toWellFormed_utf16 signedText, hsame] at hread
  exact toWellFormed_ne_signatureContent _ _ hread.symm

end Deliveries

end SplitSdk.WebhookAuthenticity
