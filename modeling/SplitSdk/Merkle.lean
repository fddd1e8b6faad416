import SplitSdk.HashTree
import SplitSdk.JsonText

namespace SplitSdk.Merkle

open HashTree JsonText
open Numbers (JsNumber)

def isHexDigit (c : Char) : Bool := c.isDigit || ('a' ≤ c && c ≤ 'f')

def IsDigest (s : String) : Prop := s.length = 64 ∧ ∀ c ∈ s.toList, isHexDigit c

instance : DecidablePred IsDigest := fun s =>
  decidable_of_iff (s.length = 64 ∧ s.toList.all isHexDigit = true) (by rw [List.all_eq_true, IsDigest])

theorem isDigest_ofList {cs : List Char} (h : cs.length = 64 ∧ cs.all isHexDigit = true) :
    IsDigest (String.ofList cs) := by
  rw [IsDigest, String.toList_ofList, String.length_ofList, ← List.all_eq_true]
  exact h

/-- 64 hexadecimal digits. -/
abbrev Digest := {s : String // IsDigest s}

structure Payment where
  payer : String
  amount : Int
  ledger : Option JsNumber := none
  timestamp : Option JsNumber := none
  donateOnFailure : Option Bool := none

/-- What `JSON.stringify` sees of a payment once the replacer has turned the amount into
text; a property that is not there is left out. -/
def Payment.toJson (p : Payment) : Json :=
  .object (("payer", .string p.payer) :: ("amount", .string (toString p.amount)) ::
    ((p.ledger.map (fun x => ("ledger", Json.number x))).toList ++
      (p.timestamp.map (fun x => ("timestamp", Json.number x))).toList ++
      (p.donateOnFailure.map (fun b => ("donateOnFailure", Json.bool b))).toList))

structure MerkleProof where
  leaf : String
  path : List String
  root : String
  index : Option JsNumber := some (.finite 0)
  deriving DecidableEq

def rawLeaf (invoiceId : String) (i : Nat) (p : Payment) : String :=
  invoiceId ++ ":" ++ toString i ++ ":" ++ stringify p.toJson

def rawLeaves (invoiceId : String) (payments : List Payment) : List String :=
  payments.mapIdx (rawLeaf invoiceId)

/-- `index % 2 === 1`, for an index that is not negative. -/
def isOdd : JsNumber → Bool
  | .finite q => decide (q - 2 * ⌊q / 2⌋ = 1)
  | _ => false

/-- `Math.floor(index / 2)`. -/
def half : JsNumber → JsNumber
  | .finite q => .finite ⌊q / 2⌋
  | x => x

def isNegative : JsNumber → Bool
  | .finite q => decide (q < 0)
  | .infinity negative => negative
  | .nan => false

section Hash

variable (sha256 : String → Digest)

def sha256Hex (data : String) : String := (sha256 data).1

def hashPair (left right : String) : String := sha256Hex sha256 (left ++ right)

def buildLayers (leaves : List String) : List (List String) :=
  if leaves.length = 0 then [[sha256Hex sha256 ""]] else layers (hashPair sha256) leaves

def generateMerkleProof (invoiceId : String) (paymentIndex : Int) (payments : List Payment) :
    Except String MerkleProof :=
  if payments.length = 0 then
    let rawLeaf := "payment-" ++ invoiceId ++ "-" ++ toString paymentIndex
    .ok ⟨rawLeaf, [], sha256Hex sha256 rawLeaf, some (.finite 0)⟩
  else if paymentIndex < 0 ∨ paymentIndex ≥ payments.length then
    .error ("paymentIndex " ++ toString paymentIndex ++ " is out of range for invoice " ++ invoiceId ++
      " (0.." ++ toString (payments.length - 1) ++ ")")
  else
    let rawLeaves := rawLeaves invoiceId payments
    let layers := buildLayers sha256 (rawLeaves.map (sha256Hex sha256))
    .ok ⟨rawLeaves.getD paymentIndex.toNat "", path layers paymentIndex.toNat,
      (layers.getLastD []).headD "", some (.finite paymentIndex)⟩

/-- The loop over the siblings; `none` where it returns early. -/
def verifyLoop : String → JsNumber → List String → Option String
  | computed, _, [] => some computed
  | computed, index, sibling :: path =>
      if sibling.length = 0 then none
      else verifyLoop (if isOdd index then hashPair sha256 sibling computed
        else hashPair sha256 computed sibling) (half index) path

def verifyMerkleProof (proof : MerkleProof) : Bool :=
  if proof.leaf.length = 0 ∨ proof.root.length = 0 then false
  else if proof.path.length = 0 then sha256Hex sha256 proof.leaf = proof.root
  else if isNegative (proof.index.getD (.finite 0)) then false
  else verifyLoop sha256 (sha256Hex sha256 proof.leaf) (proof.index.getD (.finite 0)) proof.path =
    some proof.root

end Hash

end SplitSdk.Merkle

namespace SplitSdk.MerkleCompleteness

open HashTree Merkle
open Numbers (JsNumber)

/-- The sides that the verifier reads off the index. -/
def stepsOf : JsNumber → List String → List (Bool × String)
  | _, [] => []
  | index, sibling :: path => (isOdd index, sibling) :: stepsOf (half index) path

theorem half_natCast (i : Nat) : half (.finite i) = .finite (i / 2 : Nat) := by
  have h : ⌊(i : ℚ) / 2⌋ = ((i / 2 : Nat) : Int) := by exact_mod_cast Rat.floor_natCast_div_natCast i 2
  rw [half, h]
  rfl

theorem isOdd_natCast (i : Nat) : isOdd (.finite i) = decide (i % 2 = 1) := by
  have h : ⌊(i : ℚ) / 2⌋ = ((i / 2 : Nat) : Int) := by exact_mod_cast Rat.floor_natCast_div_natCast i 2
  rw [isOdd, h, decide_eq_decide]
  constructor
  · intro hq
    have : (i : Int) - 2 * (i / 2 : Nat) = 1 := by exact_mod_cast hq
    omega
  · intro hi
    have : (i : Int) - 2 * (i / 2 : Nat) = 1 := by omega
    exact_mod_cast this

theorem stepsOf_natCast (i : Nat) (path : List String) : stepsOf (.finite i) path = sides i path := by
  induction path generalizing i with
  | nil => rfl
  | cons sibling path ih => rw [stepsOf, sides, isOdd_natCast, half_natCast, ih]

variable (sha256 : String → Digest)

theorem verifyLoop_iff (computed : String) (index : JsNumber) (path : List String) (r : String) :
    verifyLoop sha256 computed index path = some r ↔
      (∀ s ∈ path, s.length ≠ 0) ∧ climb (hashPair sha256) computed (stepsOf index path) = r := by
  induction path generalizing computed index with
  | nil => simp [verifyLoop, stepsOf, climb]
  | cons s path ih =>
      rw [verifyLoop, List.forall_mem_cons, stepsOf, climb]
      by_cases h : s.length = 0
      · rw [if_pos h]
        exact ⟨by simp, fun he => absurd h he.1.1⟩
      · rw [if_neg h, ih, and_assoc]
        cases isOdd index <;> exact ⟨fun he => ⟨h, he⟩, fun he => he.2⟩

theorem digest_length (s : String) : (sha256Hex sha256 s).length = 64 := (sha256 s).2.1

theorem rawLeaves_length (invoiceId : String) (payments : List Payment) :
    (rawLeaves invoiceId payments).length = payments.length := List.length_mapIdx

theorem rawLeaf_length (invoiceId : String) (i : Nat) (p : Payment) :
    (rawLeaf invoiceId i p).length ≠ 0 := by
  simp only [rawLeaf, String.length_append]
  have : ":".length = 1 := rfl
  omega

/-- Accepted are the proofs that climb from their leaf to their root. -/
theorem verifyMerkleProof_iff (proof : MerkleProof) :
    verifyMerkleProof sha256 proof = true ↔
      proof.leaf.length ≠ 0 ∧ proof.root.length ≠ 0 ∧
        (proof.path = [] ∨ isNegative (proof.index.getD (.finite 0)) = false) ∧
        (∀ s ∈ proof.path, s.length ≠ 0) ∧
        climb (hashPair sha256) (sha256Hex sha256 proof.leaf)
          (stepsOf (proof.index.getD (.finite 0)) proof.path) = proof.root := by
  rw [verifyMerkleProof]
  split
  · next h => exact ⟨nofun, fun ⟨hl, hr, _⟩ => absurd h (not_or.mpr ⟨hl, hr⟩)⟩
  · next h =>
    obtain ⟨hleaf, hroot⟩ := not_or.mp h
    split
    · next hnil =>
      have hpath := List.length_eq_zero_iff.mp hnil
      rw [hpath, decide_eq_true_eq]
      exact ⟨fun he => ⟨hleaf, hroot, .inl rfl, nofun, he⟩, fun he => he.2.2.2.2⟩
    · next hpath =>
      have hne : proof.path ≠ [] := fun he => hpath (List.length_eq_zero_iff.mpr he)
      split
      · next hneg => exact ⟨nofun, fun he => absurd (he.2.2.1.resolve_left hne) (by rw [hneg]; decide)⟩
      · next hneg =>
        rw [decide_eq_true_eq, verifyLoop_iff]
        exact ⟨fun he => ⟨hleaf, hroot, .inr (Bool.eq_false_iff.mpr hneg), he⟩, fun he => he.2.2.2⟩

/-- The root of the tree over the payments. -/
def merkleRoot (invoiceId : String) (payments : List Payment) : String :=
  ((buildLayers sha256 ((rawLeaves invoiceId payments).map (sha256Hex sha256))).getLastD []).headD ""

theorem buildLayers_eq {leaves : List String} (h : leaves ≠ []) :
    buildLayers sha256 leaves = layers (hashPair sha256) leaves := by
  rw [buildLayers, if_neg (fun he => h (List.length_eq_zero_iff.mp he))]

/-- The leaves of an invoice that has payments. -/
def leafHashes (invoiceId : String) (payments : List Payment) : List String :=
  (rawLeaves invoiceId payments).map (sha256Hex sha256)

theorem leafHashes_ne_nil {invoiceId : String} {payments : List Payment} (h : payments ≠ []) :
    leafHashes sha256 invoiceId payments ≠ [] := by
  intro he
  have hlen := congrArg List.length he
  rw [leafHashes, List.length_map, rawLeaves_length] at hlen
  exact h (List.length_eq_zero_iff.mp hlen)

theorem some_merkleRoot {invoiceId : String} {payments : List Payment} (h : payments ≠ []) :
    root (hashPair sha256) (leafHashes sha256 invoiceId payments) =
      some (merkleRoot sha256 invoiceId payments) := by
  have hne : leafHashes sha256 invoiceId payments ≠ [] := leafHashes_ne_nil sha256 h
  obtain ⟨x, xs, hx⟩ := List.exists_cons_of_ne_nil hne
  have hsome := climb_path (hashPair sha256) (leafHashes sha256 invoiceId payments) 0 x (by rw [hx]; rfl)
  obtain ⟨layer, hlast, hhead⟩ := Option.bind_eq_some_iff.mp hsome.symm
  rw [← hsome, merkleRoot, ← leafHashes, buildLayers_eq sha256 hne, List.getLastD_eq_getLast?, hlast,
    Option.getD_some, List.headD_eq_head?_getD, hhead, Option.getD_some]

theorem generateMerkleProof_eq (invoiceId : String) (payments : List Payment) (i : Nat)
    (hi : i < payments.length) :
    generateMerkleProof sha256 invoiceId i payments =
      .ok ⟨rawLeaf invoiceId i payments[i],
        path (layers (hashPair sha256) (leafHashes sha256 invoiceId payments)) i,
        merkleRoot sha256 invoiceId payments, some (.finite i)⟩ := by
  have hne : payments ≠ [] := List.ne_nil_of_length_pos (Nat.zero_lt_of_lt hi)
  have hraw : (rawLeaves invoiceId payments).getD i "" = rawLeaf invoiceId i payments[i] := by
    rw [rawLeaves, List.getD_eq_getElem?_getD, List.getElem?_mapIdx, List.getElem?_eq_getElem hi]
    rfl
  rw [generateMerkleProof, if_neg (fun h => hne (List.length_eq_zero_iff.mp h)),
    if_neg (by rintro (h | h) <;> omega)]
  dsimp only
  rw [Int.toNat_natCast, hraw, ← leafHashes, buildLayers_eq sha256 (leafHashes_ne_nil sha256 hne),
    merkleRoot, ← leafHashes, buildLayers_eq sha256 (leafHashes_ne_nil sha256 hne)]
  rfl

/-- The proof generated for any payment of an invoice is accepted, and all of them
have the same root. -/
theorem generated_proofs_verify (invoiceId : String) (payments : List Payment) :
    ∃ root, ∀ i < payments.length, ∃ proof,
      generateMerkleProof sha256 invoiceId i payments = .ok proof ∧
        verifyMerkleProof sha256 proof = true ∧ proof.root = root := by
  refine ⟨merkleRoot sha256 invoiceId payments, ?_⟩
  intro i hi
  refine ⟨_, generateMerkleProof_eq sha256 invoiceId payments i hi, ?_, rfl⟩
  have hne : payments ≠ [] := List.ne_nil_of_length_pos (Nat.zero_lt_of_lt hi)
  have hleaf : (leafHashes sha256 invoiceId payments)[i]? =
      some (sha256Hex sha256 (rawLeaf invoiceId i payments[i])) := by
    rw [leafHashes, rawLeaves, List.getElem?_map, List.getElem?_mapIdx,
      List.getElem?_eq_getElem hi]
    rfl
  have hlt := (List.getElem?_eq_some_iff.mp hleaf).1
  have hclimb := climb_path (hashPair sha256) _ i _ hleaf
  rw [some_merkleRoot sha256 hne] at hclimb
  have hroot := Option.some.inj hclimb
  have hdigests : ∀ s ∈ path (layers (hashPair sha256) (leafHashes sha256 invoiceId payments)) i,
      s.length = 64 := by
    refine forall_path (hashPair sha256) (fun s => s.length = 64)
      (fun x y => digest_length sha256 (x ++ y)) _ i hlt ?_
    intro x hx
    obtain ⟨raw, _, rfl⟩ := List.mem_map.mp hx
    exact digest_length sha256 raw
  rw [verifyMerkleProof_iff]
  refine ⟨rawLeaf_length invoiceId i payments[i], ?_, .inr ?_, ?_, ?_⟩
  · have hlen : (merkleRoot sha256 invoiceId payments).length = 64 := by
      rw [← hroot]
      exact climb_of_node (hashPair sha256) (fun s => s.length = 64)
        (fun x y => digest_length sha256 (x ++ y)) (digest_length sha256 _) _
    rw [hlen]
    decide
  · exact decide_eq_false (not_lt.mpr (Nat.cast_nonneg i))
  · intro s hs
    rw [hdigests s hs]
    decide
  · exact (congrArg _ (stepsOf_natCast i _)).trans hroot

def samplePayments : List Payment := [{ payer := "GA", amount := 10 }, { payer := "GB", amount := 20 }]

/-- SHA-256 on the three strings hashed for `samplePayments` of invoice 7. -/
def sampleSha256 (data : String) : Digest :=
  if data = rawLeaf "7" 0 { payer := "GA", amount := 10 } then
    ⟨"24bcb71542aaf54bc21ff87df8796854575e983c062853e144faf954a3e6581d", isDigest_ofList (by decide)⟩
  else if data = rawLeaf "7" 1 { payer := "GB", amount := 20 } then
    ⟨"699167a3950e55380bb75a313f18ca8b01598aa053b66e12d456415d858751b3", isDigest_ofList (by decide +kernel)⟩
  else ⟨"fd3db1916f6856c4f8abf0f725e999b5e03b5673b7d9ee81be9eb63e4a2833a1", isDigest_ofList (by decide)⟩

theorem generated_proofs_verify_sample :
    ∃ proof, generateMerkleProof sampleSha256 "7" 1 samplePayments = .ok proof ∧
      verifyMerkleProof sampleSha256 proof = true := by
  obtain ⟨root, h⟩ := generated_proofs_verify sampleSha256 "7" samplePayments
  obtain ⟨proof, hproof, haccepted, _⟩ := h 1 (by decide)
  exact ⟨proof, hproof, haccepted⟩

end SplitSdk.MerkleCompleteness
