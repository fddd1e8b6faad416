import SplitSdk.Fallible
import SplitSdk.Interleaving
import SplitSdk.JsonRoundTrip
import SplitSdk.WebhookMiddleware

namespace SplitSdk.WebhookReplay

open Fallible Interleaving Numbers NumberText JsonText JsonRoundTrip LRUCache WebhookMiddleware
open TextEncoding (utf8 hex hex_ne_empty)

section Statement

variable (config : WebhookOptions) (hmacSha256 : List UInt8 → List UInt8 → List UInt8) (secret : String)

/-- The request will be accepted once its verification is over. -/
def Acceptable (pending : Pending) : Prop := ∃ payload, verify hmacSha256 secret pending = .ok payload

/-- No acceptable request passes the nonce check while another one with its nonce is verified. -/
def Alone (s : State) : Event → Prop
  | .receive req nowMs => ∀ pending, precheck config s.nonceCache req nowMs = .ok pending →
      Acceptable hmacSha256 secret pending → ∀ other, .verifying other ∈ s.invocations →
        Acceptable hmacSha256 secret other → other.nonce ≠ pending.nonce
  | .resume .. => True

/-- There are at most as many nonces as the window holds. -/
def Fits (nonces : List String) (nonceWindowSize : JsNumber) : Prop :=
  nonceWindowSize.lt (.finite nonces.dedup.length) = false

def start (m : Middleware) : State := { nonceCache := m.nonceCache }

end Statement

section Invariant

variable {config : WebhookOptions} {hmacSha256 : List UInt8 → List UInt8 → List UInt8} {secret : String}
  {s t : State}

/-- As long as nothing is evicted, the cache has the accepted nonces. -/
structure Remembers (hmacSha256 : List UInt8 → List UInt8 → List UInt8) (secret : String) (s : State) :
    Prop where
  nodup : s.accepted.Nodup
  has : ∀ nonce, s.nonceCache.has nonce ↔ nonce ∈ s.accepted
  order : s.nonceCache.order.length = s.accepted.length
  fresh : ∀ p, Invocation.verifying p ∈ s.invocations → Acceptable hmacSha256 secret p → p.nonce ∉ s.accepted
  alone : ∀ (i j : Nat) p q, s.invocations[i]? = some (.verifying p) → s.invocations[j]? = some (.verifying q) →
    Acceptable hmacSha256 secret p → Acceptable hmacSha256 secret q → p.nonce = q.nonce → i = j

structure Inv (config : WebhookOptions) (hmacSha256 : List UInt8 → List UInt8 → List UInt8) (secret : String)
    (s : State) : Prop where
  capacity : s.nonceCache.capacity = config.nonceWindowSize
  remembers : Fits s.accepted config.nonceWindowSize → Remembers hmacSha256 secret s

theorem isFull_of_lt {α β : Type} {c : Cache α β} (h : c.capacity.lt (.finite (c.order.length + 1)) = false) :
    c.isFull = false := by
  rw [Cache.isFull]
  cases hc : c.capacity with
  | nan => rfl
  | infinity negative =>
      rw [hc] at h
      simpa [JsNumber.lt] using h
  | finite q =>
      rw [hc] at h
      simp only [JsNumber.lt, decide_eq_false_iff_not, not_lt] at h
      simp only [JsNumber.lt, Bool.or_eq_false_iff, decide_eq_false_iff_not, not_lt, JsNumber.finite.injEq]
      constructor
      · linarith
      · intro he
        rw [he] at h
        linarith

theorem has_of_precheck {cache : Cache String JsNumber} {req : Request} {nowMs : Nat} {pending : Pending}
    (h : precheck config cache req nowMs = .ok pending) : cache.has pending.nonce = false := by
  obtain ⟨signature, _, h⟩ := bind_eq_ok.mp h
  obtain ⟨timestampHeader, _, h⟩ := bind_eq_ok.mp h
  obtain ⟨nonce, _, h⟩ := bind_eq_ok.mp h
  obtain ⟨timestamp, _, h⟩ := bind_eq_ok.mp h
  cases hhas : cache.has nonce with
  | true =>
      rw [hhas] at h
      cases h
  | false =>
      rw [hhas] at h
      obtain ⟨rawBody, _, h⟩ := bind_eq_ok.mp h
      cases h
      exact hhas

theorem receive_inv (hi : Inv config hmacSha256 secret s) (req : Request) (nowMs : Nat)
    (hok : Alone config hmacSha256 secret s (.receive req nowMs)) :
    Inv config hmacSha256 secret (receive config s req nowMs) := by
  refine ⟨hi.capacity, fun hfits => ?_⟩
  have hr : Remembers hmacSha256 secret s := hi.remembers hfits
  cases hprecheck : precheck config s.nonceCache req nowMs with
  | error failure =>
      have hold : ∀ {j : Nat} {q}, (receive config s req nowMs).invocations[j]? = some (.verifying q) →
          s.invocations[j]? = some (.verifying q) := by
        intro j q hq
        simp only [receive, hprecheck, List.getElem?_append] at hq
        split_ifs at hq
        · exact hq
        · cases List.mem_singleton.mp (List.mem_of_getElem? hq)
      refine ⟨hr.nodup, hr.has, hr.order, ?_, fun i j p q hp hq => hr.alone i j p q (hold hp) (hold hq)⟩
      intro p hp
      obtain ⟨j, hj⟩ := List.mem_iff_getElem?.mp hp
      exact hr.fresh p (List.mem_of_getElem? (hold hj))
  | ok pending =>
      have hold : ∀ {j : Nat} {q}, (receive config s req nowMs).invocations[j]? = some (.verifying q) →
          s.invocations[j]? = some (.verifying q) ∨ j = s.invocations.length ∧ q = pending := by
        intro j q hq
        simp only [receive, hprecheck, List.getElem?_append] at hq
        split_ifs at hq with hj
        · exact .inl hq
        · obtain ⟨hlt, hq⟩ := List.getElem?_eq_some_iff.mp hq
          rw [List.length_singleton] at hlt
          refine .inr ⟨by omega, ?_⟩
          cases List.mem_singleton.mp (hq ▸ List.getElem_mem hlt)
          rfl
      have hnew := hok pending hprecheck
      refine ⟨hr.nodup, hr.has, hr.order, ?_, ?_⟩
      · intro p hp hacceptable
        obtain ⟨j, hj⟩ := List.mem_iff_getElem?.mp hp
        rcases hold hj with hj | ⟨_, rfl⟩
        · exact hr.fresh p (List.mem_of_getElem? hj) hacceptable
        · intro hmem
          have hhas := (hr.has p.nonce).mpr hmem
          rw [has_of_precheck hprecheck] at hhas
          cases hhas
      · intro i j p q hp hq hap haq he
        rcases hold hp with hp | ⟨rfl, rfl⟩ <;> rcases hold hq with hq | ⟨rfl, rfl⟩
        · exact hr.alone i j p q hp hq hap haq he
        · exact absurd he (hnew haq p (List.mem_of_getElem? hp) hap)
        · exact absurd he.symm (hnew hap q (List.mem_of_getElem? hq) haq)
        · rfl

theorem fits_tail {nonce : String} {nonces : List String} {size : JsNumber} (h : Fits (nonce :: nonces) size) :
    Fits nonces size := by
  refine JsNumber.lt_natCast_mono ?_ h
  by_cases hmem : nonce ∈ nonces
  · rw [List.dedup_cons_of_mem hmem]
  · rw [List.dedup_cons_of_notMem hmem]
    exact Nat.le_succ _

/-- An invocation that is over leaves the others as they are. -/
theorem verifying_of_set {i j : Nat} {x : Invocation} {q : Pending} {before : List Invocation}
    (hx : ∀ q, x ≠ .verifying q) (h : (before.set i x)[j]? = some (.verifying q)) :
    j ≠ i ∧ before[j]? = some (.verifying q) := by
  rw [List.getElem?_set] at h
  split_ifs at h with hij hlt
  · exact absurd (Option.some.inj h) (hx q)
  · exact ⟨Ne.symm hij, h⟩

theorem accept_inv (hi : Inv config hmacSha256 secret s) {i : Nat} {p : Pending} {payload : WebhookPayload}
    (throws : Bool) (h : s.invocations[i]? = some (.verifying p)) (hp : Acceptable hmacSha256 secret p) :
    Inv config hmacSha256 secret (accept s i p payload throws) := by
  refine ⟨(capacity_set _ _ _).trans hi.capacity, fun hfits => ?_⟩
  have hr : Remembers hmacSha256 secret s := hi.remembers (fits_tail hfits)
  have hnew : p.nonce ∉ s.accepted := hr.fresh p (List.mem_of_getElem? h) hp
  have hlength : (p.nonce :: s.accepted).dedup.length = s.accepted.length + 1 := by
    rw [List.dedup_cons_of_notMem hnew, hr.nodup.dedup, List.length_cons]
  have hroom : s.nonceCache.isFull = false := by
    apply isFull_of_lt
    rw [Fits, accept, hlength] at hfits
    rw [hi.capacity, hr.order]
    exact_mod_cast hfits
  have hhas : s.nonceCache.has p.nonce = false := by
    rw [← Bool.not_eq_true, hr.has]
    exact hnew
  have hover : ∀ q, (if throws then Invocation.answered (respond .unexpected) else .passed payload) ≠
      .verifying q := by
    intro q
    split_ifs <;> nofun
  constructor
  · exact List.nodup_cons.mpr ⟨hnew, hr.nodup⟩
  · intro nonce
    rw [accept, has_set_of_room _ _ _ _ hroom, hr.has, List.mem_cons]
  · rw [accept, order_set_of_room _ hroom hhas, List.length_append, hr.order]
    rfl
  · intro q hq hacceptable hmem
    obtain ⟨j, hj⟩ := List.mem_iff_getElem?.mp hq
    obtain ⟨hji, hj⟩ := verifying_of_set hover hj
    rcases List.mem_cons.mp hmem with he | hmem
    · exact hji (hr.alone j i q p hj h hacceptable hp he)
    · exact hr.fresh q (List.mem_of_getElem? hj) hacceptable hmem
  · intro j k q r hq hr' hacceptable hacceptable' he
    exact hr.alone j k q r (verifying_of_set hover hq).2 (verifying_of_set hover hr').2 hacceptable hacceptable' he

theorem reject_inv (hi : Inv config hmacSha256 secret s) (i : Nat) (response : Response) :
    Inv config hmacSha256 secret { s with invocations := s.invocations.set i (.answered response) } := by
  refine ⟨hi.capacity, fun hfits => ?_⟩
  have hr : Remembers hmacSha256 secret s := hi.remembers hfits
  have hover : ∀ q, Invocation.answered response ≠ .verifying q := by
    intro q
    nofun
  refine ⟨hr.nodup, hr.has, hr.order, ?_, ?_⟩
  · intro p hp
    obtain ⟨j, hj⟩ := List.mem_iff_getElem?.mp hp
    exact hr.fresh p (List.mem_of_getElem? (verifying_of_set hover hj).2)
  · intro j k p q hp hq
    exact hr.alone j k p q (verifying_of_set hover hp).2 (verifying_of_set hover hq).2

theorem step_inv (s : State) (event : Event) (t : State) (hi : Inv config hmacSha256 secret s)
    (hok : Alone config hmacSha256 secret s event) (hstep : step config hmacSha256 secret s event = some t) :
    Inv config hmacSha256 secret t := by
  cases event with
  | receive req nowMs =>
      cases hstep
      exact receive_inv hi req nowMs hok
  | resume i throws =>
      rw [step] at hstep
      split at hstep
      · next pending h =>
          cases hstep
          rw [resume]
          cases hverify : verify hmacSha256 secret pending with
          | ok payload => exact accept_inv hi throws h ⟨payload, hverify⟩
          | error failure => exact reject_inv hi i (respond failure)
      · cases hstep

end Invariant

section Result

/-- A nonce is accepted at most once, in every run that accepts no more nonces than the window
holds and in which no two acceptable requests with one nonce are verified at the same time. -/
theorem accepted_once (options : WebhookOptions) (hmacSha256 : List UInt8 → List UInt8 → List UInt8)
    (secret : String) (m : Middleware) (hm : createWebhookMiddleware secret options = .ok m) (events : List Event)
    (t : State) (halone : Allowed (step m.config hmacSha256 m.secret) (Alone m.config hmacSha256 m.secret)
      (start m) events)
    (hrun : run (step m.config hmacSha256 m.secret) (start m) events = some t)
    (hfits : Fits t.accepted options.nonceWindowSize) : t.accepted.Nodup := by
  obtain ⟨hconfig, hcache⟩ : m.config = options ∧ m.nonceCache = ⟨options.nonceWindowSize, .empty, []⟩ := by
    unfold createWebhookMiddleware at hm
    split_ifs at hm
    split at hm
    · next cache hcreate =>
        cases hm
        exact ⟨rfl, eq_of_create hcreate⟩
    · cases hm
  have hstart : Inv m.config hmacSha256 m.secret (start m) := by
    rw [start, hcache, hconfig]
    refine ⟨rfl, fun _ => ⟨List.nodup_nil, ?_, rfl, nofun, nofun⟩⟩
    intro nonce
    simp [Cache.has, OrderedMap.OrdMap.has, OrderedMap.OrdMap.get?_empty]
  have hinv := run_invariant step_inv (start m) t events hstart halone hrun
  rw [← hconfig] at hfits
  exact (hinv.remembers hfits).nodup

end Result

section Runs

/-- The HMAC-SHA256 of the body below under `whsec`. -/
def digest : List UInt8 :=
  [194, 77, 169, 177, 112, 46, 124, 94, 4, 231, 40, 128, 167, 154, 61, 25, 232, 254, 237, 128, 61, 231, 206,
    196, 144, 25, 248, 75, 233, 168, 145, 17]

def paid : Json :=
  .object [("event", .string "invoice.paid"), ("timestamp", .number (.finite (1700000000 : Nat))),
    ("nonce", .string "n-1"), ("data", .object [("invoiceId", .string "7")])]

def hmac (key message : List UInt8) : List UInt8 :=
  if key = utf8 "whsec" ∧ message = utf8 (stringify paid) then digest else List.replicate 32 0

def delivery : Request where
  headers := [("x-stellarsplit-signature", .one (hex digest)), ("x-stellarsplit-timestamp", .one "1700000000"),
    ("x-stellarsplit-nonce", .one "n-1")]
  body := .text (stringify paid)

def delivered : Pending := ⟨hex digest, .finite (1700000000 : Nat), "n-1", stringify paid⟩

def paidPayload : WebhookPayload :=
  ⟨"invoice.paid", .finite (1700000000 : Nat), "n-1", .object [("invoiceId", .string "7")]⟩

theorem validateTimestamp_delivery :
    validateTimestamp {} "1700000000" 1700000000000 = .ok (.finite (1700000000 : Nat)) := by
  decide +kernel

theorem header_delivery : header delivery "x-stellarsplit-signature" = .ok (hex digest) ∧
    header delivery "x-stellarsplit-timestamp" = .ok "1700000000" ∧
    header delivery "x-stellarsplit-nonce" = .ok "n-1" := by
  have hlower : "x-stellarsplit-signature".toLower = "x-stellarsplit-signature" ∧
      "x-stellarsplit-timestamp".toLower = "x-stellarsplit-timestamp" ∧
      "x-stellarsplit-nonce".toLower = "x-stellarsplit-nonce" := by
    decide +kernel
  simp only [header, hlower, delivery]
  refine ⟨if_neg (hex_ne_empty (by simp [digest])), rfl, rfl⟩

theorem precheck_delivery {cache : Cache String JsNumber} (h : cache.has "n-1" = false) :
    precheck {} cache delivery 1700000000000 = .ok delivered := by
  obtain ⟨hsignature, htimestamp, hnonce⟩ := header_delivery
  exact precheck_eq_ok hsignature htimestamp hnonce validateTimestamp_delivery h rfl

theorem verify_delivered : verify hmac "whsec" delivered = .ok paidPayload := by
  have hsign : generateWebhookSignature hmac (stringify paid) "whsec" = hex digest := by
    rw [generateWebhookSignature, hmac, if_pos ⟨rfl, rfl⟩]
  have hexact : Exact paid := ⟨trivial, ⟨isDouble_natCast (by norm_num), _, rfl⟩, trivial, ⟨trivial, trivial⟩, trivial⟩
  have hparse : parse delivered.rawBody = some paid := parse_stringify paid hexact
  have hverify : verifySignature hmac delivered.rawBody delivered.signature "whsec" := by
    have h := verifySignature_generate hmac (stringify paid) "whsec"
    rwa [hsign] at h
  rw [verify, if_pos hverify, validatePayload, hparse]
  rfl

def receiveDelivery : Event := .receive delivery 1700000000000

theorem step_receiveDelivery {s : State} (h : s.nonceCache.has "n-1" = false) :
    step {} hmac "whsec" s receiveDelivery =
      some { s with invocations := s.invocations ++ [.verifying delivered] } :=
  step_receive (precheck_delivery h)

theorem step_resumeDelivered {s : State} {i : Nat} (h : s.invocations[i]? = some (.verifying delivered)) :
    step {} hmac "whsec" s (.resume i false) = some (accept s i delivered paidPayload false) :=
  step_resume h verify_delivered

def ready : Middleware := ⟨{}, "whsec", ⟨.finite 1000, .empty, []⟩⟩

theorem create_ready : createWebhookMiddleware "whsec" {} = .ok ready := by
  have hcapacity : ¬(JsNumber.lt (.finite 1000) (.finite 0) ∨ JsNumber.finite 1000 = .finite 0) := by
    decide
  simp only [createWebhookMiddleware, create, if_neg hcapacity]
  rfl

theorem fits_few {nonces : List String} (h : nonces.dedup.length ≤ 1000) : Fits nonces (.finite 1000) := by
  simpa [Fits, JsNumber.lt] using h

/-- A delivery is accepted, and then turned away when it comes again. -/
theorem accepted_once_replayed : ∃ t, run (step {} hmac "whsec") (start ready)
    [receiveDelivery, .resume 0 false, receiveDelivery] = some t ∧ t.accepted.Nodup := by
  have hreceive := step_receiveDelivery (s := start ready) rfl
  have hresume := step_resumeDelivered (s := { start ready with invocations := [.verifying delivered] }) (i := 0) rfl
  have hreplay : ∀ s, step {} hmac "whsec" s receiveDelivery = some (receive {} s delivery 1700000000000) :=
    fun _ => rfl
  have halone : ∀ {s : State}, (∀ p, .verifying p ∉ s.invocations) → Alone {} hmac "whsec" s receiveDelivery :=
    fun hnone _ _ _ other hother => absurd hother (hnone other)
  have hquiet : ∀ (s : State) i, Alone {} hmac "whsec" s (.resume i false) := fun _ _ => trivial
  have hreaches := Reaches.next (halone (fun _ => List.not_mem_nil)) hreceive
    (.next (hquiet _ _) hresume (.next (halone ?_) (hreplay _) .refl))
  · exact ⟨_, hreaches.run,
      accepted_once {} hmac "whsec" ready create_ready _ _ hreaches.allowed hreaches.run (fits_few (by decide))⟩
  · intro p hp
    cases List.mem_singleton.mp hp

/-- Two deliveries with one nonce are verified at the same time, and both are accepted. -/
theorem overlapping_accepted_twice : createWebhookMiddleware "whsec" {} = .ok ready ∧
    ∃ t, run (step {} hmac "whsec") (start ready)
      [receiveDelivery, receiveDelivery, .resume 0 false, .resume 1 false] = some t ∧
      Fits t.accepted (.finite 1000) ∧ t.accepted = ["n-1", "n-1"] ∧ ¬t.accepted.Nodup := by
  have hfirst := step_receiveDelivery (s := start ready) rfl
  have hsecond := step_receiveDelivery (s := { start ready with invocations := [.verifying delivered] }) rfl
  have hrun := run_step hfirst (run_step hsecond (run_step (step_resumeDelivered (i := 0) rfl)
    (run_step (step_resumeDelivered (i := 1) rfl) (run_nil _))))
  exact ⟨create_ready, _, hrun, fits_few (by decide), rfl, by decide⟩

end Runs

end SplitSdk.WebhookReplay
