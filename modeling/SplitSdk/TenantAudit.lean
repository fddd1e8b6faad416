import SplitSdk.AuditAppends

namespace SplitSdk.TenantAudit

open AuditAppends AuditTrailHasher GrowingLog Merkle

variable {Payload : Type} (sha256 : String → Digest) (stringify : AuditEvent Payload → Except String String)

section Statement

inductive TenantCall (Payload : Type)
  | auditInvoice (tenantId invoiceId : String) (event : AuditEvent Payload) (now : Nat)
  | recordCrossTenantAccess (accessingTenantId invoiceTenantId invoiceId : String) (event : AuditEvent Payload)
      (now : Nat)

/-- The tenant that a call is recorded for. -/
def TenantCall.tenantId : TenantCall Payload → String
  | .auditInvoice tenantId _ _ _ => tenantId
  | .recordCrossTenantAccess accessingTenantId _ _ _ _ => accessingTenantId

def TenantCall.event : TenantCall Payload → AuditEvent Payload
  | .auditInvoice _ _ event _ | .recordCrossTenantAccess _ _ _ event _ => event

def perform (hasher : Hasher Payload) : TenantCall Payload →
    Except String (CrossTenantAuditRecord Payload) × Hasher Payload
  | .auditInvoice tenantId invoiceId event now =>
      auditInvoice sha256 stringify hasher tenantId invoiceId event now
  | .recordCrossTenantAccess accessingTenantId invoiceTenantId invoiceId event now =>
      recordCrossTenantAccess sha256 stringify hasher accessingTenantId invoiceTenantId invoiceId event now

/-- The calls one after another: the entries that each of them has added with what it has returned, and the hasher in the end. -/
def performAll (hasher : Hasher Payload) : List (TenantCall Payload) →
    List (List (AuditChainEntry Payload) × Except String (CrossTenantAuditRecord Payload)) × Hasher Payload
  | [] => ([], hasher)
  | call :: calls =>
      let (result, next) := perform sha256 stringify hasher call
      let (results, last) := performAll next calls
      ((next.entries.drop hasher.entries.length, result) :: results, last)

/-- The entries that the calls of a tenant have added. -/
def entriesOf (tenantId : String) (calls : List (TenantCall Payload))
    (results : List (List (AuditChainEntry Payload) × Except String (CrossTenantAuditRecord Payload))) :
    List (AuditChainEntry Payload) :=
  ((calls.zip results).filter (fun done => done.1.tenantId = tenantId)).flatMap (fun done => done.2.1)

/-- Each call returns its record, and then the entries of each tenant are verified. -/
def Served (hasher : Hasher Payload) (calls : List (TenantCall Payload)) : Prop :=
  let (results, last) := performAll sha256 stringify hasher calls
  (∀ result ∈ results, ∃ record, result.2 = .ok record) ∧
    ∀ tenantId, ∃ verdict,
      verifyTenantAudit sha256 stringify last tenantId (root sha256 (entriesOf tenantId calls results)) =
        .ok verdict ∧ verdict.valid

end Statement

section Calls

variable {sha256 stringify} {hasher : Hasher Payload}

theorem appendFor_of_undefined (h : hasher.crossTenantRecords = none)
    (notice : AuditChainEntry Payload → Notice Payload) (tenantId invoiceId : String) (event : AuditEvent Payload)
    (now : Nat) :
    ∃ message, (appendFor sha256 stringify hasher notice tenantId invoiceId event now).1 = .error message ∧
      (appendFor sha256 stringify hasher notice tenantId invoiceId event now).2 =
        { hasher with entries := hasher.entries ++ (append sha256 stringify hasher.entries event).toOption.toList } := by
  unfold appendFor
  cases append sha256 stringify hasher.entries event with
  | error message => exact ⟨message, rfl, by simp [Except.toOption]⟩
  | ok entry =>
      simp only [h]
      exact ⟨_, rfl, rfl⟩

variable (sha256 stringify) in
/-- A call throws, although its entry is in the trail. -/
theorem perform_of_undefined (h : hasher.crossTenantRecords = none) (call : TenantCall Payload) :
    ∃ message, (perform sha256 stringify hasher call).1 = .error message ∧
      (perform sha256 stringify hasher call).2 = { hasher with
        entries := hasher.entries ++ (append sha256 stringify hasher.entries call.event).toOption.toList } := by
  cases call with
  | auditInvoice tenantId invoiceId event now => exact appendFor_of_undefined h _ _ _ _ _
  | recordCrossTenantAccess accessingTenantId invoiceTenantId invoiceId event now =>
      exact appendFor_of_undefined h _ _ _ _ _

variable (sha256 stringify) in
theorem performAll_of_undefined (h : hasher.crossTenantRecords = none) (calls : List (TenantCall Payload)) :
    (∀ result ∈ (performAll sha256 stringify hasher calls).1, ∃ message, result.2 = .error message) ∧
      (performAll sha256 stringify hasher calls).2.crossTenantRecords = none := by
  induction calls generalizing hasher with
  | nil => exact ⟨List.forall_mem_nil _, h⟩
  | cons call calls ih =>
      obtain ⟨message, herror, hnext⟩ := perform_of_undefined sha256 stringify h call
      have hundefined : (perform sha256 stringify hasher call).2.crossTenantRecords = none := by rw [hnext]; exact h
      obtain ⟨herrors, hlast⟩ := ih hundefined
      exact ⟨List.forall_mem_cons.mpr ⟨⟨message, herror⟩, herrors⟩, hlast⟩

theorem verifyTenantAudit_of_undefined (h : hasher.crossTenantRecords = none) (tenantId expectedRoot : String) :
    verifyTenantAudit sha256 stringify hasher tenantId expectedRoot =
      .error "Cannot read properties of undefined (reading 'filter')" := by
  rw [verifyTenantAudit, h]

/-- If the records were there, a tenant would be verified only where its entries are a trail of their own. -/
theorem verifyTenantAudit_valid_iff {records : List (CrossTenantAuditRecord Payload)}
    (h : hasher.crossTenantRecords = some records) (tenantId expectedRoot : String) :
    (∃ verdict, verifyTenantAudit sha256 stringify hasher tenantId expectedRoot = .ok verdict ∧ verdict.valid) ↔
      Built (Fits sha256 stringify) ((records.filter (fun record => record.tenantId = tenantId)).map
        CrossTenantAuditRecord.entry) ∧
      root sha256 ((records.filter (fun record => record.tenantId = tenantId)).map CrossTenantAuditRecord.entry) =
        expectedRoot := by
  rw [verifyTenantAudit, h]
  constructor
  · rintro ⟨verdict, hverify⟩
    obtain ⟨hbuilt, hroot, -, -⟩ := (verify_iff _ _ _).mp hverify
    exact ⟨hbuilt, hroot⟩
  · rintro ⟨hbuilt, hroot⟩
    exact ⟨_, (verify_iff _ _ _).mpr ⟨hbuilt, hroot, ⟨rfl, rfl⟩, rfl⟩⟩

end Calls

section Result

/-- No tenant is ever served: the records of the tenants are undefined. -/
theorem never_served (sha256 : String → Digest) (stringify : AuditEvent Payload → Except String String)
    (entries : List (AuditChainEntry Payload)) (listeners : List (Listener Payload)) (calls : List (TenantCall Payload)) :
    ¬Served sha256 stringify { entries, listeners } calls := by
  rintro ⟨-, hverified⟩
  have hnone : (performAll sha256 stringify { entries, listeners } calls).2.crossTenantRecords = none :=
    (performAll_of_undefined sha256 stringify rfl calls).2
  obtain ⟨verdict, hverdict, -⟩ := hverified ""
  rw [verifyTenantAudit_of_undefined hnone] at hverdict
  cases hverdict

def firstAudit : TenantCall (List (String × String)) :=
  .auditInvoice "tenant-1" "inv-1" (sampleEvent "CREATE") 0

theorem firstAudit_rejected : ¬Served sampleSha256 sampleStringify { entries := [] } [firstAudit] := by
  rintro ⟨hreturned, -⟩
  obtain ⟨record, hrecord⟩ := hreturned _ List.mem_cons_self
  cases hrecord

end Result

end SplitSdk.TenantAudit
