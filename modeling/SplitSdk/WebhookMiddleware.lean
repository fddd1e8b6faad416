import SplitSdk.Numbers
import SplitSdk.OrderedMap
import Mathlib.Data.List.ReduceOption
import SplitSdk.JsonText
import SplitSdk.NumberText
import SplitSdk.TextEncoding

namespace SplitSdk.LRUCache

open Numbers OrderedMap

/-- A cache that forgets the key used longest ago; `order` has the keys in the order of their use. -/
structure Cache (α β : Type) where
  capacity : JsNumber
  cache : OrdMap α β
  order : List α

variable {α β : Type} [DecidableEq α]

/-- The constructor, which throws on a capacity `<= 0`. -/
def create (capacity : JsNumber) : Option (Cache α β) :=
  if capacity.lt (.finite 0) ∨ capacity = .finite 0 then none else some ⟨capacity, .empty, []⟩

def toEnd (order : List α) (key : α) : List α := if key ∈ order then order.erase key ++ [key] else order

def Cache.has (c : Cache α β) (key : α) : Bool := c.cache.has key

/-- `order.length >= capacity`. -/
def Cache.isFull (c : Cache α β) : Bool :=
  c.capacity.lt (.finite c.order.length) || c.capacity = .finite c.order.length

def Cache.evict (c : Cache α β) : Cache α β :=
  match c.order with
  | [] => c
  | oldest :: order => { c with cache := c.cache.delete oldest, order := order }

def Cache.set (c : Cache α β) (key : α) (value : β) : Cache α β :=
  if c.has key then { c with cache := c.cache.set key value, order := toEnd c.order key }
  else
    let c := if c.isFull then c.evict else c
    { c with cache := c.cache.set key value, order := c.order ++ [key] }

omit [DecidableEq α] in
theorem eq_of_create {capacity : JsNumber} {c : Cache α β} (h : create capacity = some c) :
    c = ⟨capacity, .empty, []⟩ := by
  unfold create at h
  split_ifs at h
  exact (Option.some.inj h).symm

theorem has_set_of_room (c : Cache α β) (key k : α) (value : β) (hroom : c.isFull = false) :
    (c.set key value).has k ↔ k = key ∨ c.has k := by
  have hset : ∀ m : OrdMap α β, (m.set key value).has k ↔ k = key ∨ m.has k := by
    intro m
    rw [OrdMap.has, OrdMap.get?_set]
    by_cases hk : k = key <;> simp [hk, OrdMap.has]
  unfold Cache.set
  split_ifs with hkey hfull
  · exact hset c.cache
  · rw [hroom] at hfull
    cases hfull
  · exact hset c.cache

theorem order_set_of_room {c : Cache α β} {key : α} (value : β) (hroom : c.isFull = false)
    (hnew : c.has key = false) : (c.set key value).order = c.order ++ [key] := by
  unfold Cache.set
  rw [hnew, hroom]
  rfl

theorem capacity_set (c : Cache α β) (key : α) (value : β) : (c.set key value).capacity = c.capacity := by
  have hevict : c.evict.capacity = c.capacity := by
    unfold Cache.evict
    split <;> rfl
  unfold Cache.set
  split_ifs
  · rfl
  · exact hevict
  · rfl

end SplitSdk.LRUCache

namespace SplitSdk.WebhookMiddleware

open Numbers NumberText JsonText TextEncoding LRUCache

section Errors

/-- The subclasses of `WebhookValidationError`. -/
inductive WebhookValidationError
  | invalidSignature
  | timestampOutOfBounds (timestamp tolerance : JsNumber)
  | replayAttack (nonce : String)
  | missingHeader (headerName : String)
  | invalidPayload (message : String)
  deriving DecidableEq

def WebhookValidationError.name : WebhookValidationError → String
  | .invalidSignature => "InvalidSignatureError"
  | .timestampOutOfBounds .. => "TimestampOutOfBoundsError"
  | .replayAttack _ => "ReplayAttackError"
  | .missingHeader _ => "MissingHeaderError"
  | .invalidPayload _ => "InvalidPayloadError"

def WebhookValidationError.message : WebhookValidationError → String
  | .invalidSignature => "Invalid webhook signature"
  | .timestampOutOfBounds .. => "Webhook timestamp outside tolerance window"
  | .replayAttack _ => "Webhook nonce has already been used (replay attack detected)"
  | .missingHeader headerName => s!"Missing required webhook header: {headerName}"
  | .invalidPayload message => s!"Invalid webhook payload: {message}"

inductive Failure
  | validation (e : WebhookValidationError)
  | unexpected
  deriving DecidableEq

structure Response where
  status : Nat
  error : String
  message : String
  code : Option String
  deriving DecidableEq

/-- The `catch` block of the handler. -/
def respond : Failure → Response
  | .validation e => ⟨400, e.name, e.message, some "VALIDATION_ERROR"⟩
  | .unexpected =>
      ⟨500, "InternalServerError", "An unexpected error occurred while processing the webhook", none⟩

def invalidPayload (message : String) : Failure := .validation (.invalidPayload message)

end Errors

section Signature

variable (hmacSha256 : List UInt8 → List UInt8 → List UInt8)

/-- What storing `x` in a `Uint8Array` leaves of it. -/
def toUint8 : JsNumber → UInt8
  | .finite q => UInt8.ofInt ⌊q⌋
  | _ => 0

/-- Header values are Latin-1, where lower case changes no hexadecimal digit but `A` to `F`. -/
def lowerTrimmed (s : String) : List Char := trim (s.toList.map Char.toLower)

def bytesOfPairs : List Char → Option (List UInt8)
  | c :: d :: cs =>
      match parseInt 16 [c, d] with
      | .nan => none
      | x => (bytesOfPairs cs).map (toUint8 x :: ·)
  | _ => some []

def hexToBytes (hex : String) : Option (List UInt8) :=
  let normalized := lowerTrimmed hex
  if normalized.length % 2 = 0 then bytesOfPairs normalized else none

def constantTimeCompare (a b : List UInt8) : Bool :=
  if a.length = b.length then (List.zipWith (· ^^^ ·) a b).foldl (· ||| ·) 0 = 0 else false

def verifySignature (payload signature secret : String) : Bool :=
  let expectedBytes := hmacSha256 (utf8 secret) (utf8 payload)
  match hexToBytes signature with
  | some providedBytes => constantTimeCompare expectedBytes providedBytes
  | none => false

/-- `generateWebhookSignature` on the text that is sent. -/
def generateWebhookSignature (payload secret : String) : String := hex (hmacSha256 (utf8 secret) (utf8 payload))

theorem digitChar_hex : ∀ n < 16, (Nat.digitChar n).toLower = Nat.digitChar n ∧ isSpace (Nat.digitChar n) = false ∧
    digitIn 16 (Nat.digitChar n) = some n ∧ Nat.digitChar n ∉ ['-', '+', 'x', 'X'] := by
  decide

theorem parseInt_digitChars (m n : Nat) (hm : m < 16) (hn : n < 16) :
    parseInt 16 [Nat.digitChar m, Nat.digitChar n] = .finite (16 * m + n : Nat) := by
  obtain ⟨_, hspace, hdigit, hsign⟩ := digitChar_hex m hm
  obtain ⟨_, _, hdigit', hsign'⟩ := digitChar_hex n hn
  simp only [List.mem_cons, List.not_mem_nil, or_false, not_or] at hsign hsign'
  simp only [parseInt, List.dropWhile, hspace, List.head?_cons, Option.some.injEq, hsign.1, hsign.2.1, List.take,
    hsign'.2.2.1, hsign'.2.2.2, List.map, hdigit, hdigit', List.takeWhile, Option.isSome_some, List.reduceOption,
    or_self, if_false, List.cons.injEq, and_false, false_and, List.filterMap_cons, id, List.filterMap_nil,
    List.foldl, Nat.mul_zero, Nat.zero_add]
  exact isDouble_natCast (by omega)

theorem lowerTrimmed_hex (bs : List UInt8) : lowerTrimmed (hex bs) = hexChars (bs.map UInt8.toNat) := by
  have hlower : (hexChars (bs.map UInt8.toNat)).map Char.toLower = (hexChars (bs.map UInt8.toNat)).map id := by
    apply List.map_congr_left
    intro c hc
    obtain ⟨n, hn, rfl⟩ := digit_of_mem_hexChars hc
    exact (digitChar_hex n hn).1
  rw [lowerTrimmed, hex, String.toList_ofList, hlower, List.map_id]
  apply trim_of_not_isSpace
  intro c hc
  obtain ⟨n, hn, rfl⟩ := digit_of_mem_hexChars hc
  exact (digitChar_hex n hn).2.1

theorem ofInt_toNat (b : UInt8) : UInt8.ofInt b.toNat = b := by
  have hb : (b.toNat : Int) % 2 ^ 8 = b.toNat :=
    Int.emod_eq_of_lt (Int.natCast_nonneg _) (by exact_mod_cast b.toNat_lt)
  rw [UInt8.ofInt, hb, Int.toNat_natCast, UInt8.ofNat_toNat]

theorem bytesOfPairs_cons {c d : Char} {q : ℚ} (h : parseInt 16 [c, d] = .finite q) (cs : List Char) :
    bytesOfPairs (c :: d :: cs) = (bytesOfPairs cs).map (toUint8 (.finite q) :: ·) := by
  change (match parseInt 16 [c, d] with
    | .nan => none
    | x => (bytesOfPairs cs).map (toUint8 x :: ·)) = _
  rw [h]

theorem bytesOfPairs_hexChars (bs : List UInt8) : bytesOfPairs (hexChars (bs.map UInt8.toNat)) = some bs := by
  induction bs with
  | nil => rfl
  | cons b bs ih =>
      have hcons : hexChars ((b :: bs).map UInt8.toNat) = Nat.digitChar (b.toNat / 16) ::
          Nat.digitChar (b.toNat % 16) :: hexChars (bs.map UInt8.toNat) := rfl
      have hb : b.toNat < 256 := b.toNat_lt
      rw [hcons, bytesOfPairs_cons (parseInt_digitChars _ _ (by omega) (by omega)), Nat.div_add_mod, ih]
      simp [toUint8, ofInt_toNat]

/-- Hexadecimal digits are read back as the bytes they were written for. -/
theorem hexToBytes_hex (bs : List UInt8) : hexToBytes (hex bs) = some bs := by
  have heven : (lowerTrimmed (hex bs)).length % 2 = 0 := by
    rw [lowerTrimmed_hex, length_hexChars]
    exact Nat.mul_mod_right 2 _
  rw [hexToBytes, if_pos heven, lowerTrimmed_hex]
  exact bytesOfPairs_hexChars bs

theorem constantTimeCompare_iff (a b : List UInt8) : constantTimeCompare a b ↔ a = b := by
  have h : ∀ (xs ys : List UInt8) (diff : UInt8), xs.length = ys.length →
      ((List.zipWith (· ^^^ ·) xs ys).foldl (· ||| ·) diff = 0 ↔ diff = 0 ∧ xs = ys) := by
    intro xs
    induction xs with
    | nil =>
        intro ys diff hlength
        rw [List.eq_nil_of_length_eq_zero hlength.symm]
        simp
    | cons x xs ih =>
        intro ys diff hlength
        cases ys with
        | nil => cases hlength
        | cons y ys =>
            rw [List.zipWith_cons_cons, List.foldl_cons, ih ys _ (Nat.succ.inj hlength), UInt8.or_eq_zero_iff,
              UInt8.xor_eq_zero_iff, List.cons.injEq, and_assoc]
  unfold constantTimeCompare
  split_ifs with hlength
  · rw [decide_eq_true_iff, h a b 0 hlength]
    exact and_iff_right rfl
  · constructor
    · nofun
    · rintro rfl
      exact absurd rfl hlength

theorem verifySignature_generate (payload secret : String) :
    verifySignature hmacSha256 payload (generateWebhookSignature hmacSha256 payload secret) secret := by
  rw [verifySignature, generateWebhookSignature, hexToBytes_hex]
  exact (constantTimeCompare_iff _ _).mpr rfl

end Signature

section Handler

structure WebhookOptions where
  toleranceSeconds : JsNumber := .finite 300
  nonceWindowSize : JsNumber := .finite 1000
  signatureHeader : String := "x-stellarsplit-signature"
  timestampHeader : String := "x-stellarsplit-timestamp"
  nonceHeader : String := "x-stellarsplit-nonce"

inductive HeaderValue
  | one (value : String)
  | many (values : List String)

inductive Body
  | buffer (bytes : List UInt8)
  | text (s : String)
  | object (parsed : Json)
  | other

structure Request where
  headers : List (String × HeaderValue)
  body : Body

structure WebhookPayload where
  event : String
  timestamp : JsNumber
  nonce : String
  data : Json

/-- What a request carries into the verification of its signature. -/
structure Pending where
  signature : String
  timestamp : JsNumber
  nonce : String
  rawBody : String
  deriving DecidableEq

variable (config : WebhookOptions)

def header (req : Request) (headerName : String) : Except Failure String :=
  match req.headers.lookup headerName.toLower with
  | some (.one value) => if value = "" then .error (.validation (.missingHeader headerName)) else .ok value
  | _ => .error (.validation (.missingHeader headerName))

def validateTimestamp (timestampHeader : String) (nowMs : Nat) : Except Failure JsNumber :=
  let timestamp := parseInt 10 timestampHeader.toList
  let now := JsNumber.finite (nowMs / 1000 : Nat)
  if timestamp = .nan then .error (invalidPayload "Timestamp must be a valid integer")
  else if config.toleranceSeconds.lt (now.sub timestamp).abs then
    .error (.validation (.timestampOutOfBounds timestamp config.toleranceSeconds))
  else .ok timestamp

def extractRawBody : Body → Except Failure String
  | .buffer bytes => .ok (decodeUtf8 bytes)
  | .text s => .ok s
  | .object parsed => .ok (stringify parsed)
  | .other => .error (invalidPayload "Request body is missing or invalid")

/-- Steps 1 to 4 of the handler, which run before the `await`. -/
def precheck (nonceCache : Cache String JsNumber) (req : Request) (nowMs : Nat) : Except Failure Pending := do
  let signature ← header req config.signatureHeader
  let timestampHeader ← header req config.timestampHeader
  let nonce ← header req config.nonceHeader
  let timestamp ← validateTimestamp config timestampHeader nowMs
  if nonceCache.has nonce then throw (.validation (.replayAttack nonce))
  let rawBody ← extractRawBody req.body
  return ⟨signature, timestamp, nonce, rawBody⟩

/-- Whether a property of a parsed payload counts as missing. -/
def isFalsy : Option Json → Bool
  | none | some .null | some (.bool false) => true
  | some (.number x) => x = .finite 0 ∨ x = .nan
  | some (.string s) => s = ""
  | _ => false

def nonEmptyString (payload : Json) (key message : String) : Except Failure String :=
  match payload.get? key with
  | some (.string s) => if s = "" then .error (invalidPayload message) else .ok s
  | _ => .error (invalidPayload message)

/-- Step 6 of the handler. -/
def validatePayload (pending : Pending) : Except Failure WebhookPayload :=
  match parse pending.rawBody with
  | none => .error (invalidPayload "Payload is not valid JSON")
  -- reading a property of `null` throws a `TypeError`
  | some .null => .error .unexpected
  | some payload => do
      let event ← nonEmptyString payload "event" "Missing or invalid 'event' field"
      let timestamp ←
        match payload.get? "timestamp" with
        | some (.number x) => pure x
        | _ => throw (invalidPayload "Missing or invalid 'timestamp' field")
      let nonce ← nonEmptyString payload "nonce" "Missing or invalid 'nonce' field"
      let data := payload.get? "data"
      if isFalsy data then throw (invalidPayload "Missing 'data' field")
      if nonce ≠ pending.nonce then throw (invalidPayload "Nonce in payload does not match header")
      if timestamp ≠ pending.timestamp then
        throw (invalidPayload "Timestamp in payload does not match header")
      return ⟨event, timestamp, nonce, data.getD .null⟩

variable (hmacSha256 : List UInt8 → List UInt8 → List UInt8) (secret : String)

/-- Steps 5 and 6 of the handler. -/
def verify (pending : Pending) : Except Failure WebhookPayload :=
  if verifySignature hmacSha256 pending.rawBody pending.signature secret then validatePayload pending
  else .error (.validation .invalidSignature)

variable {config} in
theorem precheck_eq_ok {nonceCache : Cache String JsNumber} {req : Request} {nowMs : Nat} {pending : Pending}
    {timestampHeader : String} (hsignature : header req config.signatureHeader = .ok pending.signature)
    (htimestamp : header req config.timestampHeader = .ok timestampHeader)
    (hnonce : header req config.nonceHeader = .ok pending.nonce)
    (hvalid : validateTimestamp config timestampHeader nowMs = .ok pending.timestamp)
    (hnew : nonceCache.has pending.nonce = false) (hbody : extractRawBody req.body = .ok pending.rawBody) :
    precheck config nonceCache req nowMs = .ok pending := by
  rw [precheck, hsignature, htimestamp, hnonce, hbody]
  simp only [bind, Except.bind, hvalid, hnew]
  rfl

end Handler

section Middleware

structure Middleware where
  config : WebhookOptions
  secret : String
  nonceCache : Cache String JsNumber

/-- The factory throws on an empty secret and on a window that is not positive. -/
def createWebhookMiddleware (secret : String) (options : WebhookOptions) : Except String Middleware :=
  if secret = "" then .error "Webhook secret must be a non-empty string"
  else match create options.nonceWindowSize with
    | some nonceCache => .ok ⟨options, secret, nonceCache⟩
    | none => .error "LRU cache capacity must be positive"

/-- An invocation of the handler. -/
inductive Invocation
  | verifying (pending : Pending)
  | passed (payload : WebhookPayload)
  | answered (response : Response)

/-- The invocations so far, and for the statements the nonces that were accepted, the newest first. -/
structure State where
  nonceCache : Cache String JsNumber
  invocations : List Invocation := []
  accepted : List String := []

inductive Event
  | receive (req : Request) (nowMs : Nat)
  /-- The signature is checked; `throws` says whether a listener or `next` throws. -/
  | resume (i : Nat) (throws : Bool)

variable (config : WebhookOptions) (hmacSha256 : List UInt8 → List UInt8 → List UInt8) (secret : String)

def receive (s : State) (req : Request) (nowMs : Nat) : State :=
  { s with
    invocations := s.invocations ++
      [match precheck config s.nonceCache req nowMs with
        | .ok pending => .verifying pending
        | .error failure => .answered (respond failure)] }

def accept (s : State) (i : Nat) (pending : Pending) (payload : WebhookPayload) (throws : Bool) : State where
  nonceCache := s.nonceCache.set pending.nonce pending.timestamp
  invocations := s.invocations.set i (if throws then .answered (respond .unexpected) else .passed payload)
  accepted := pending.nonce :: s.accepted

def resume (s : State) (i : Nat) (throws : Bool) (pending : Pending) : State :=
  match verify hmacSha256 secret pending with
  | .ok payload => accept s i pending payload throws
  | .error failure => { s with invocations := s.invocations.set i (.answered (respond failure)) }

def step (s : State) : Event → Option State
  | .receive req nowMs => some (receive config s req nowMs)
  | .resume i throws =>
      match s.invocations[i]? with
      | some (.verifying pending) => some (resume hmacSha256 secret s i throws pending)
      | _ => none

variable {config hmacSha256 secret} {s : State} {pending : Pending}

theorem step_receive {req : Request} {nowMs : Nat} (h : precheck config s.nonceCache req nowMs = .ok pending) :
    step config hmacSha256 secret s (.receive req nowMs) =
      some { s with invocations := s.invocations ++ [.verifying pending] } := by
  rw [step, receive, h]

theorem step_resume {i : Nat} {throws : Bool} {payload : WebhookPayload}
    (h : s.invocations[i]? = some (.verifying pending)) (hverify : verify hmacSha256 secret pending = .ok payload) :
    step config hmacSha256 secret s (.resume i throws) = some (accept s i pending payload throws) := by
  simp only [step, h, resume, hverify]

end Middleware

end SplitSdk.WebhookMiddleware
