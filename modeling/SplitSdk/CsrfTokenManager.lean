import SplitSdk.OrderedMap
import SplitSdk.TextEncoding
import SplitSdk.Interleaving

namespace SplitSdk.CsrfTokenManager

open JsonText Numbers OrderedMap TextEncoding

section Settings

structure CsrfError where
  message : String
  context : List (String × Json)

structure CsrfTokenManagerOptions where
  ttlMs : JsNumber := .finite 1800000
  tokenBytes : JsNumber := .finite 32
  maxSessions : JsNumber := .finite 10000

/-- The options that the constructor accepts. -/
structure Settings where
  ttlMs : ℚ
  ttlMs_pos : 0 < ttlMs
  tokenBytes : Nat
  tokenBytes_ge : 16 ≤ tokenBytes
  maxSessions : Nat
  maxSessions_pos : 1 ≤ maxSessions

def positive : JsNumber → Option {q : ℚ // 0 < q}
  | .finite q => if h : 0 < q then some ⟨q, h⟩ else none
  | _ => none

def integerAtLeast (low : Nat) : JsNumber → Option {n : Nat // low ≤ n}
  | .finite q => if h : q.den = 1 ∧ low ≤ q.num.toNat then some ⟨q.num.toNat, h.2⟩ else none
  | _ => none

def orError {α : Type} (x : Option α) (message name : String) (value : JsNumber) : Except CsrfError α :=
  x.elim (.error ⟨message, [(name, .number value)]⟩) .ok

def create (options : CsrfTokenManagerOptions) : Except CsrfError Settings := do
  let ttlMs ← orError (positive options.ttlMs) "ttlMs must be a positive number" "ttlMs" options.ttlMs
  let tokenBytes ← orError (integerAtLeast 16 options.tokenBytes) "tokenBytes must be an integer of at least 16"
    "tokenBytes" options.tokenBytes
  let maxSessions ← orError (integerAtLeast 1 options.maxSessions) "maxSessions must be an integer of at least 1"
    "maxSessions" options.maxSessions
  return ⟨ttlMs.1, ttlMs.2, tokenBytes.1, tokenBytes.2, maxSessions.1, maxSessions.2⟩

end Settings

section Tokens

/-- What SHA-256 returns. -/
structure Digest where
  bytes : List UInt8
  length_eq : bytes.length = 32

/-- `buffer.toString("base64url")`. -/
def base64url (bytes : List UInt8) : String :=
  String.ofList (((base64 bytes).toList.filter (· ≠ '=')).map
    (fun c => if c = '+' then '-' else if c = '/' then '_' else c))

/-- The token that is made of the random bytes. -/
def generateCsrfToken (random : List UInt8) : String := base64url random

def normalizeSessionId (sessionId : String) : Except CsrfError String :=
  let sid := String.ofList (trim sessionId.toList)
  if sid = "" then .error ⟨"sessionId must be a non-empty string", [("received", .string "string")]⟩
  else if 256 < (utf16 sid).length then
    .error ⟨"sessionId exceeds maximum length of 256 characters", [("length", .number (.finite (utf16 sid).length))]⟩
  else .ok sid

variable (sha256 : List UInt8 → Digest)

def hashCsrfToken (token : String) : String := hex (sha256 (utf8 token)).bytes

def hashMatches (storedHash token : String) : Bool :=
  storedHash.length = 64 && decodeHex storedHash = decodeHex (hashCsrfToken sha256 token)

theorem hashMatches_iff (issued token : String) :
    hashMatches sha256 (hashCsrfToken sha256 issued) token ↔
      (sha256 (utf8 issued)).bytes = (sha256 (utf8 token)).bytes := by
  have hlength : (hashCsrfToken sha256 issued).length = 64 := by
    rw [hashCsrfToken, hex, String.length_ofList, length_hexChars, List.length_map, (sha256 _).length_eq]
  rw [hashMatches, hlength, hashCsrfToken, hashCsrfToken, decodeHex_hex, decodeHex_hex]
  simp

end Tokens

section Manager

structure StoredCsrfToken where
  hash : String
  expiresAt : JsNumber
  deriving DecidableEq

abbrev Tokens := OrdMap String StoredCsrfToken

def isExpired (expiresAt : JsNumber) (now : ℚ) : Bool := expiresAt.le (.finite now)

/-- The first entries are deleted while there are too many. -/
def evictFrom (maxSessions : Nat) : List (String × StoredCsrfToken) → List (String × StoredCsrfToken)
  | [] => []
  | oldest :: entries => if maxSessions ≤ entries.length + 1 then evictFrom maxSessions entries else oldest :: entries

theorem evictFrom_sublist (maxSessions : Nat) (entries : List (String × StoredCsrfToken)) :
    (evictFrom maxSessions entries).Sublist entries := by
  induction entries with
  | nil => exact .refl _
  | cons oldest entries ih =>
      rw [evictFrom]
      split_ifs
      · exact ih.cons oldest
      · exact .refl _

def evictIfNeeded (maxSessions : Nat) (tokens : Tokens) : Tokens :=
  ⟨evictFrom maxSessions tokens.entries, tokens.nodup.sublist ((evictFrom_sublist maxSessions tokens.entries).map _)⟩

variable (sha256 : List UInt8 → Digest) (settings : Settings)

def stored (now : ℚ) (token : String) : StoredCsrfToken :=
  ⟨hashCsrfToken sha256 token, (JsNumber.finite now).add (.finite settings.ttlMs)⟩

def issueToken (tokens : Tokens) (now : ℚ) (sessionId : String) (random : List UInt8) :
    Except CsrfError (String × Tokens) := do
  let sid ← normalizeSessionId sessionId
  let token := generateCsrfToken random
  let tokens := evictIfNeeded settings.maxSessions tokens
  return (token, (tokens.delete sid).set sid (stored sha256 settings now token))

def validateToken (tokens : Tokens) (now : ℚ) (sessionId token : String) (consume : Bool) :
    Except CsrfError (Bool × Tokens) := do
  let sid ← normalizeSessionId sessionId
  if token = "" then return (false, tokens)
  match tokens.get? sid with
  | none => return (false, tokens)
  | some stored =>
      if isExpired stored.expiresAt now then return (false, tokens.delete sid)
      if !hashMatches sha256 stored.hash token then return (false, tokens)
      -- the entry moves to the end
      return (true, if consume then tokens.delete sid else (tokens.delete sid).set sid stored)

def rotateToken (tokens : Tokens) (now : ℚ) (sessionId : String) (random : List UInt8) :
    Except CsrfError (String × Tokens) :=
  issueToken sha256 settings tokens now sessionId random

def revokeToken (tokens : Tokens) (sessionId : String) : Bool × Tokens :=
  let sid := String.ofList (trim sessionId.toList)
  (tokens.has sid, tokens.delete sid)

def cleanup (tokens : Tokens) (now : ℚ) : Nat × Tokens :=
  let kept := tokens.filter (fun entry => !isExpired entry.2.expiresAt now)
  (tokens.size - kept.size, kept)

end Manager

section Runs

structure State where
  tokens : Tokens := .empty
  now : ℚ := 0

inductive Event
  | elapse (ms : ℚ)
  | issueToken (sessionId : String) (random : List UInt8)
  | rotateToken (sessionId : String) (random : List UInt8)
  | validateToken (sessionId token : String) (consume : Bool)
  | revokeToken (sessionId : String)
  | revokeAll
  | cleanup

/-- A call that throws leaves the tokens as they are. -/
def State.after {α : Type} (s : State) (result : Except CsrfError (α × Tokens)) : State :=
  { s with tokens := result.toOption.elim s.tokens Prod.snd }

variable (sha256 : List UInt8 → Digest) (settings : Settings)

def step (s : State) : Event → Option State
  | .elapse ms => if 0 ≤ ms then some { s with now := s.now + ms } else none
  | .issueToken sessionId random =>
      if random.length = settings.tokenBytes then
        some (s.after (issueToken sha256 settings s.tokens s.now sessionId random))
      else none
  | .rotateToken sessionId random =>
      if random.length = settings.tokenBytes then
        some (s.after (rotateToken sha256 settings s.tokens s.now sessionId random))
      else none
  | .validateToken sessionId token consume =>
      some (s.after (validateToken sha256 s.tokens s.now sessionId token consume))
  | .revokeToken sessionId => some { s with tokens := (revokeToken s.tokens sessionId).2 }
  | .revokeAll => some { s with tokens := .empty }
  | .cleanup => some { s with tokens := (cleanup s.tokens s.now).2 }

end Runs

end SplitSdk.CsrfTokenManager

namespace SplitSdk.CsrfValidity

open CsrfTokenManager Interleaving Numbers OrderedMap TextEncoding

section Statement

/-- A token with the time of its expiry. -/
structure Issued where
  token : String
  expiresAt : JsNumber

/-- A manager with the last token that was issued for each session, unless it was consumed or revoked since, and with
the sessions for which there has been one. -/
structure History where
  state : State := {}
  live : String → Option Issued := fun _ => none
  sessions : List String := []

/-- The token is the last one of the session, and it is not expired, consumed or revoked. -/
def Accepts (h : History) (sid token : String) : Prop :=
  ∃ issued ∈ h.live sid, issued.token = token ∧ isExpired issued.expiresAt h.state.now = false

instance (h : History) (sid token : String) : Decidable (Accepts h sid token) :=
  inferInstanceAs (Decidable (∃ issued ∈ h.live sid, _))

variable (sha256 : List UInt8 → Digest) (settings : Settings) (T : Set String)

def issue (h : History) (sessionId : String) (random : List UInt8) : History :=
  match normalizeSessionId sessionId with
  | .error _ => h
  | .ok sid =>
      { h with
        live := Function.update h.live sid
          (some ⟨generateCsrfToken random, (JsNumber.finite h.state.now).add (.finite settings.ttlMs)⟩)
        sessions := h.sessions.insert sid }

def consume (h : History) (sessionId token : String) : History :=
  match normalizeSessionId sessionId with
  | .error _ => h
  | .ok sid => if Accepts h sid token then { h with live := Function.update h.live sid none } else h

def observe (h : History) : Event → History
  | .issueToken sessionId random | .rotateToken sessionId random => issue settings h sessionId random
  | .validateToken sessionId token true => consume h sessionId token
  | .revokeToken sessionId => { h with live := Function.update h.live (String.ofList (trim sessionId.toList)) none }
  | .revokeAll => { h with live := fun _ => none }
  | .validateToken _ _ false | .elapse _ | .cleanup => h

def observedStep (h : History) (e : Event) : Option History :=
  (step sha256 settings h.state e).map (fun state => { observe settings h e with state })

/-- `validateToken` returns true. -/
def validates (h : History) (sessionId token : String) (consume : Bool) : Bool :=
  (validateToken sha256 h.state.tokens h.state.now sessionId token consume).toOption.any Prod.fst

/-- Only valid tokens are accepted, and all of them are if there are not too many sessions. -/
structure Meets (h : History) : Prop where
  sound : ∀ sessionId sid, normalizeSessionId sessionId = .ok sid → ∀ token ∈ T, ∀ consume,
    validates sha256 h sessionId token consume → Accepts h sid token
  complete : h.sessions.length ≤ settings.maxSessions → ∀ sessionId sid, normalizeSessionId sessionId = .ok sid →
    ∀ token ∈ T, ∀ consume, Accepts h sid token → validates sha256 h sessionId token consume

/-- A token that is issued when there is no room evicts only the entry of its own session or one that is expired. -/
def SparesOthers (h : History) : Event → Prop
  | .issueToken sessionId random | .rotateToken sessionId random =>
      random.length = settings.tokenBytes → ∀ sid ∈ (normalizeSessionId sessionId).toOption,
        (h.sessions.insert sid).length ≤ settings.maxSessions → settings.maxSessions ≤ h.state.tokens.size →
          ∀ oldest ∈ h.state.tokens.entries.head?, oldest.1 = sid ∨ isExpired oldest.2.expiresAt h.state.now
  | _ => True

instance (h : History) : DecidablePred (SparesOthers settings h) := fun e => by
  unfold SparesOthers
  split <;> infer_instance

end Statement

section Evict

variable {maxSessions : Nat} {tokens : Tokens}

theorem evict_of_room (h : tokens.size < maxSessions) : evictIfNeeded maxSessions tokens = tokens := by
  obtain ⟨entries, hnodup⟩ := tokens
  have heq : evictFrom maxSessions entries = entries := by
    cases entries with
    | nil => rfl
    | cons oldest entries => exact if_neg (Nat.not_le.mpr h)
  unfold evictIfNeeded
  congr 1

theorem entries_evict_of_full (hpos : 1 ≤ maxSessions) (h : tokens.size = maxSessions) :
    (evictIfNeeded maxSessions tokens).entries = tokens.entries.tail := by
  obtain ⟨entries, hnodup⟩ := tokens
  cases entries with
  | nil => rfl
  | cons oldest entries =>
      refine (if_pos (show maxSessions ≤ entries.length + 1 from h.ge)).trans ?_
      cases entries with
      | nil => rfl
      | cons next entries =>
          refine if_neg (Nat.not_le.mpr ?_)
          subst h
          exact Nat.lt_succ_self _

theorem size_evict_lt (hpos : 1 ≤ maxSessions) (h : tokens.size ≤ maxSessions) :
    (evictIfNeeded maxSessions tokens).size < maxSessions := by
  rcases h.lt_or_eq with hroom | hfull
  · rwa [evict_of_room hroom]
  · rw [OrdMap.size, entries_evict_of_full hpos hfull, List.length_tail, ← OrdMap.size]
    omega

theorem get?_of_evict {sid : String} {stored : StoredCsrfToken}
    (h : (evictIfNeeded maxSessions tokens).get? sid = some stored) : tokens.get? sid = some stored :=
  OrdMap.get?_eq_some_iff.mpr ((evictFrom_sublist maxSessions tokens.entries).subset (OrdMap.get?_eq_some_iff.mp h))

/-- The oldest entry is gone if there was no room, and no other. -/
theorem get?_evict_oldest (hpos : 1 ≤ maxSessions) (h : tokens.size = maxSessions) {oldest : String × StoredCsrfToken}
    (holdest : oldest ∈ tokens.entries.head?) : (evictIfNeeded maxSessions tokens).get? oldest.1 = none := by
  have hentries := entries_evict_of_full hpos h
  obtain ⟨entries, hnodup⟩ := tokens
  cases entries with
  | nil => cases holdest
  | cons first entries =>
      obtain rfl : first = oldest := Option.some.inj holdest
      rw [List.map_cons, List.nodup_cons] at hnodup
      rw [Option.eq_none_iff_forall_ne_some]
      intro stored hget
      have hmem := OrdMap.get?_eq_some_iff.mp hget
      rw [hentries] at hmem
      exact hnodup.1 (List.mem_map.mpr ⟨_, hmem, rfl⟩)

theorem get?_evict_other (hpos : 1 ≤ maxSessions) (h : tokens.size ≤ maxSessions) {sid : String} {stored : StoredCsrfToken}
    (hget : tokens.get? sid = some stored) (hother : maxSessions ≤ tokens.size → (sid, stored) ∉ tokens.entries.head?) :
    (evictIfNeeded maxSessions tokens).get? sid = some stored := by
  rcases h.lt_or_eq with hroom | hfull
  · rwa [evict_of_room hroom]
  · rw [OrdMap.get?_eq_some_iff, entries_evict_of_full hpos hfull]
    have hmem := OrdMap.get?_eq_some_iff.mp hget
    have hne := hother hfull.ge
    cases hentries : tokens.entries with
    | nil =>
        rw [hentries] at hmem
        cases hmem
    | cons oldest entries =>
        rw [hentries] at hmem hne
        refine (List.mem_cons.mp hmem).resolve_left (fun heq => hne ?_)
        exact congrArg some heq.symm

end Evict

section Calls

variable {sha256 : List UInt8 → Digest} {settings : Settings} {tokens : Tokens} {now : ℚ} {sessionId sid token : String}

theorem generateCsrfToken_ne {random : List UInt8} (h : 16 ≤ random.length) : generateCsrfToken random ≠ "" := by
  have hdigit : ∀ n < 64, base64Digit n ≠ '=' := by decide
  obtain ⟨a, random, rfl⟩ := List.exists_cons_of_length_pos (Nat.lt_of_lt_of_le (by omega) h)
  have hpad : base64Digit (a.toNat / 4) ≠ '=' := hdigit _ (by have := a.toNat_lt; omega)
  have hhead : ∃ cs, (base64 (a :: random)).toList = base64Digit (a.toNat / 4) :: cs := by
    rw [base64, String.toList_ofList, List.map_cons]
    rcases random.map UInt8.toNat with _ | ⟨b, _ | ⟨c, bytes⟩⟩
    · exact ⟨_, rfl⟩
    · exact ⟨_, rfl⟩
    · exact ⟨_, rfl⟩
  obtain ⟨cs, hcs⟩ := hhead
  rw [generateCsrfToken, base64url, hcs, List.filter_cons_of_pos (by simpa using hpad), List.map_cons]
  simp

/-- What `validateToken` does to the entry of its session. -/
inductive Validated (sha256 : List UInt8 → Digest) (tokens : Tokens) (now : ℚ) (sid token : String) (consume : Bool) :
    Bool → Tokens → Prop
  | unknown (h : ∀ stored, tokens.get? sid = some stored → isExpired stored.expiresAt now = false →
      token = "" ∨ hashMatches sha256 stored.hash token = false) : Validated sha256 tokens now sid token consume false tokens
  | expired {stored : StoredCsrfToken} (hget : tokens.get? sid = some stored)
      (h : isExpired stored.expiresAt now = true) : Validated sha256 tokens now sid token consume false (tokens.delete sid)
  | valid {stored : StoredCsrfToken} (hget : tokens.get? sid = some stored)
      (hexpired : isExpired stored.expiresAt now = false) (hempty : token ≠ "")
      (h : hashMatches sha256 stored.hash token = true) : Validated sha256 tokens now sid token consume true
        (if consume then tokens.delete sid else (tokens.delete sid).set sid stored)

variable (sha256 tokens now token) in
theorem validateToken_spec (hsid : normalizeSessionId sessionId = .ok sid) (consume : Bool) :
    ∃ valid after, validateToken sha256 tokens now sessionId token consume = .ok (valid, after) ∧
      Validated sha256 tokens now sid token consume valid after := by
  rw [validateToken, hsid]
  change ∃ valid after, (if token = "" then _ else _) = _ ∧ _
  by_cases hempty : token = ""
  · rw [if_pos hempty]
    exact ⟨false, tokens, rfl, .unknown (fun _ _ _ => .inl hempty)⟩
  · rw [if_neg hempty]
    cases hget : tokens.get? sid with
    | none => exact ⟨false, tokens, rfl, .unknown (fun stored h => by rw [hget] at h; cases h)⟩
    | some stored =>
        dsimp only
        cases hexpired : isExpired stored.expiresAt now with
        | true => exact ⟨false, _, rfl, .expired hget hexpired⟩
        | false =>
            cases hhash : hashMatches sha256 stored.hash token with
            | true => exact ⟨true, _, rfl, .valid hget hexpired hempty hhash⟩
            | false =>
                refine ⟨false, tokens, rfl, .unknown (fun other h _ => .inr ?_)⟩
                obtain rfl : stored = other := Option.some.inj (hget.symm.trans h)
                exact hhash

theorem validates_iff {h : History} (hsid : normalizeSessionId sessionId = .ok sid) (consume : Bool) :
    validates sha256 h sessionId token consume ↔ token ≠ "" ∧ ∃ stored, h.state.tokens.get? sid = some stored ∧
      isExpired stored.expiresAt h.state.now = false ∧ hashMatches sha256 stored.hash token := by
  obtain ⟨valid, after, hcall, hvalidated⟩ := validateToken_spec sha256 h.state.tokens h.state.now token hsid consume
  rw [validates, hcall]
  cases hvalidated with
  | unknown hunknown =>
      refine iff_of_false (by simp [Except.toOption]) ?_
      rintro ⟨hempty, stored, hget, hexpired, hhash⟩
      rcases hunknown stored hget hexpired with hnil | hdiffers
      · exact hempty hnil
      · rw [hhash] at hdiffers
        cases hdiffers
  | expired hget hexpired =>
      refine iff_of_false (by simp [Except.toOption]) ?_
      rintro ⟨-, stored, hget', hlive, -⟩
      obtain rfl := Option.some.inj (hget.symm.trans hget')
      rw [hexpired] at hlive
      cases hlive
  | valid hget hexpired hempty hhash => exact iff_of_true (by simp [Except.toOption]) ⟨hempty, _, hget, hexpired, hhash⟩

end Calls

end SplitSdk.CsrfValidity
