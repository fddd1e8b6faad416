import SplitSdk.Merkle

namespace SplitSdk.MerkleSoundness

open HashTree JsonText Merkle MerkleCompleteness
open Numbers (JsNumber)

section Text

theorem isHexDigit_append {a b : String} (ha : ∀ c ∈ a.toList, isHexDigit c)
    (hb : ∀ c ∈ b.toList, isHexDigit c) : ∀ c ∈ (a ++ b).toList, isHexDigit c := by
  intro c hc
  rw [String.toList_append, List.mem_append] at hc
  exact hc.elim (ha c) (hb c)

theorem append_left_inj_of_length {a b c d : String} (h : a ++ b = c ++ d) (hlen : a.length = c.length) :
    a = c ∧ b = d := by
  have hl := congrArg String.toList h
  rw [String.toList_append, String.toList_append] at hl
  obtain ⟨h1, h2⟩ := List.append_inj hl (by rw [String.length_toList, String.length_toList, hlen])
  exact ⟨String.toList_inj.mp h1, String.toList_inj.mp h2⟩

theorem append_right_inj_of_length {a b c d : String} (h : a ++ b = c ++ d) (hlen : b.length = d.length) :
    a = c ∧ b = d := by
  have hl := congrArg String.toList h
  rw [String.toList_append, String.toList_append] at hl
  obtain ⟨h1, h2⟩ := List.append_inj' hl (by rw [String.length_toList, String.length_toList, hlen])
  exact ⟨String.toList_inj.mp h1, String.toList_inj.mp h2⟩

theorem colon_mem_rawLeaf (invoiceId : String) (i : Nat) (p : Payment) :
    ':' ∈ (rawLeaf invoiceId i p).toList := by
  have : ':' ∈ (":" : String).toList := by decide
  simp only [rawLeaf, String.toList_append, List.mem_append, this, true_or, or_true]

theorem textFields_last (fields : List (String × Json)) :
    ∃ cs, textFields fields = cs ++ ['\x7d'] := by
  induction fields with
  | nil => exact ⟨[], by rw [textFields]; rfl⟩
  | cons field fields ih =>
      obtain ⟨cs, hcs⟩ := ih
      exact ⟨',' :: textField field ++ cs, by rw [textFields, hcs, List.append_assoc]⟩

theorem rawLeaf_last (invoiceId : String) (i : Nat) (p : Payment) :
    ∃ cs, (rawLeaf invoiceId i p).toList = cs ++ ['\x7d'] := by
  obtain ⟨cs, hcs⟩ := textFields_last (("amount", .string (toString p.amount)) ::
    ((p.ledger.map (fun x => ("ledger", Json.number x))).toList ++
      (p.timestamp.map (fun x => ("timestamp", Json.number x))).toList ++
      (p.donateOnFailure.map (fun b => ("donateOnFailure", Json.bool b))).toList))
  refine ⟨(invoiceId ++ ":" ++ toString i ++ ":").toList ++
    ('\x7b' :: textField ("payer", .string p.payer) ++ cs), ?_⟩
  rw [rawLeaf, String.toList_append, stringify, String.toList_ofList, Payment.toJson, Json.text, hcs]
  simp only [List.append_assoc, List.cons_append]

/-- The invoice id begins with 64 hexadecimal digits. -/
def StartsWithDigest (invoiceId : String) : Prop := ∃ d : Digest, d.1.toList <+: invoiceId.toList

variable {invoiceId : String} {i : Nat} {p : Payment}

theorem hex_ne_rawLeaf {s : String} (h : ∀ c ∈ s.toList, isHexDigit c) : s ≠ rawLeaf invoiceId i p := by
  rintro rfl
  have := h ':' (colon_mem_rawLeaf invoiceId i p)
  exact absurd this (by decide)

theorem append_digest_ne_rawLeaf (s : String) (d : Digest) : s ++ d.1 ≠ rawLeaf invoiceId i p := by
  intro h
  obtain ⟨cs, hcs⟩ := rawLeaf_last invoiceId i p
  rw [← h, String.toList_append] at hcs
  have hne : d.1.toList ≠ [] := by
    intro he
    have := d.2.1
    rw [← String.length_toList, he] at this
    cases this
  have hlast := congrArg List.getLast? hcs
  rw [List.getLast?_append_of_ne_nil _ hne, List.getLast?_concat] at hlast
  have := d.2.2 _ (List.mem_of_getLast? hlast)
  exact absurd this (by decide)

theorem startsWithDigest_of_append {s : String} {d : Digest} (h : d.1 ++ s = rawLeaf invoiceId i p) :
    StartsWithDigest invoiceId := by
  refine ⟨d, ?_⟩
  have hl := congrArg String.toList h
  simp only [rawLeaf, String.toList_append, List.append_assoc] at hl
  obtain ⟨t, hid, _⟩ | ⟨t, hd, ht⟩ := List.append_eq_append_iff.mp hl
  · exact ⟨t, hid.symm⟩
  · cases t with
    | nil => exact ⟨[], by rw [hd, List.append_nil, List.append_nil]⟩
    | cons c t =>
        have hc : c = ':' := (List.cons.inj ht).1.symm
        have := d.2.2 ':' (by rw [hd, hc]; exact List.mem_append_right _ List.mem_cons_self)
        exact absurd this (by decide)

end Text

section Soundness

variable (sha256 : String → Digest) (invoiceId : String) (payments : List Payment)

/-- The strings hashed to build the tree. -/
def treeInputs : List String :=
  rawLeaves invoiceId payments ++
    (treePairs (buildLayers sha256 (leafHashes sha256 invoiceId payments))).map (fun p => p.1 ++ p.2)

/-- The strings hashed to verify a proof. -/
def proofInputs (proof : MerkleProof) : List String :=
  proof.leaf :: (climbPairs (hashPair sha256) (sha256Hex sha256 proof.leaf)
    (stepsOf (proof.index.getD (.finite 0)) proof.path)).map (fun p => p.1 ++ p.2)

def CollisionFree (inputs : List String) : Prop :=
  ∀ a ∈ inputs, ∀ b ∈ inputs, sha256 a = sha256 b → a = b

/-- The leaf is the payment at the proof's index. -/
def ProvesPayment (proof : MerkleProof) : Prop :=
  ∃ i, ∃ h : i < payments.length,
    proof.leaf = rawLeaf invoiceId i payments[i] ∧ proof.index.getD (.finite 0) = .finite i

/-- The path is as high as the tree and the index is the place of a payment. -/
def FitsTree (proof : MerkleProof) : Prop :=
  proof.path.length + 1 = (buildLayers sha256 (leafHashes sha256 invoiceId payments)).length ∧
    ∃ i < payments.length, proof.index.getD (.finite 0) = .finite i

theorem digest_eq {a b : String} (h : sha256Hex sha256 a = sha256Hex sha256 b) : sha256 a = sha256 b :=
  Subtype.ext h

variable {sha256 invoiceId payments}

/-- A pair combined in a climb that hashes to a node of the tree is the pair below that node. -/
theorem pair_eq_of_collisionFree {leaf : String} {steps : List (Bool × String)} {leaves : List String}
    (hleaves : ∀ x ∈ leaves, x.length = 64) {inputs : List String}
    (hfree : CollisionFree sha256 inputs) {p q : String × String}
    (hp : p ∈ climbPairs (hashPair sha256) (sha256Hex sha256 leaf) steps)
    (hq : q ∈ treePairs (layers (hashPair sha256) leaves)) (hp' : p.1 ++ p.2 ∈ inputs)
    (hq' : q.1 ++ q.2 ∈ inputs)
    (h : hashPair sha256 p.1 p.2 = hashPair sha256 q.1 q.2) : p = q := by
  have hcat := hfree _ hp' _ hq' (digest_eq sha256 h)
  have hnode (x y : String) : (hashPair sha256 x y).length = 64 := digest_length sha256 (x ++ y)
  obtain ⟨h1, h2⟩ := forall_treePairs _ (fun s => s.length = 64) hnode leaves hleaves q hq
  rcases forall_climbPairs _ (fun s => s.length = 64) hnode (digest_length sha256 leaf) steps p hp
    with hx | hx
  · obtain ⟨e1, e2⟩ := append_left_inj_of_length hcat (hx.trans h1.symm)
    exact Prod.ext e1 e2
  · obtain ⟨e1, e2⟩ := append_right_inj_of_length hcat (hx.trans h2.symm)
    exact Prod.ext e1 e2

variable {proof : MerkleProof} (hne : payments ≠ [])
  (hfree : CollisionFree sha256 (treeInputs sha256 invoiceId payments ++ proofInputs sha256 proof))
  (hroot : proof.root = merkleRoot sha256 invoiceId payments)
  (haccepted : verifyMerkleProof sha256 proof = true)

theorem exists_split (steps : List (Bool × String)) (d : Nat) (h : d < steps.length) :
    ∃ before right s above, steps = before ++ (right, s) :: above ∧ above.length = d := by
  have hlt : steps.length - (d + 1) < steps.length := by omega
  refine ⟨steps.take (steps.length - (d + 1)), steps[steps.length - (d + 1)].1,
    steps[steps.length - (d + 1)].2, steps.drop (steps.length - (d + 1) + 1), ?_, ?_⟩
  · exact (List.take_append_drop _ steps).symm.trans (congrArg _ (List.drop_eq_getElem_cons hlt))
  · rw [List.length_drop]
    omega

theorem leafHashes_length (s : String) (h : s ∈ leafHashes sha256 invoiceId payments) :
    s.length = 64 := by
  obtain ⟨raw, _, rfl⟩ := List.mem_map.mp h
  exact digest_length sha256 raw

theorem stepsOf_length (index : JsNumber) (path : List String) :
    (stepsOf index path).length = path.length := by
  induction path generalizing index with
  | nil => rfl
  | cons s path ih => rw [stepsOf, List.length_cons, List.length_cons, ih]

include hne in
theorem treeInputs_eq : treeInputs sha256 invoiceId payments = rawLeaves invoiceId payments ++
    (treePairs (layers (hashPair sha256) (leafHashes sha256 invoiceId payments))).map
      (fun p => p.1 ++ p.2) := by
  rw [treeInputs, buildLayers_eq sha256 (leafHashes_ne_nil sha256 hne)]

include hne hroot haccepted in
theorem climb_eq_root :
    some (climb (hashPair sha256) (sha256Hex sha256 proof.leaf)
      (stepsOf (proof.index.getD (.finite 0)) proof.path)) =
    root (hashPair sha256) (leafHashes sha256 invoiceId payments) := by
  have h := ((verifyMerkleProof_iff sha256 proof).mp haccepted).2.2.2.2
  rw [h, hroot, some_merkleRoot sha256 hne]

include hne hfree in
/-- What a part of the climb combines is a pair of the tree when it hashes to a node of it. -/
theorem climb_pairs_inj {x : String} (steps steps' : List (Bool × String))
    (hsteps : stepsOf (proof.index.getD (.finite 0)) proof.path = steps ++ steps')
    (hx : x = climb (hashPair sha256) (sha256Hex sha256 proof.leaf) steps) :
    ∀ p ∈ climbPairs (hashPair sha256) x steps',
      ∀ q ∈ treePairs (layers (hashPair sha256) (leafHashes sha256 invoiceId payments)),
        hashPair sha256 p.1 p.2 = hashPair sha256 q.1 q.2 → p = q := by
  intro p hp q hq
  have hmem : p ∈ climbPairs (hashPair sha256) (sha256Hex sha256 proof.leaf)
      (stepsOf (proof.index.getD (.finite 0)) proof.path) := by
    rw [hsteps, climbPairs_append, ← hx]
    exact List.mem_append_right _ hp
  rw [treeInputs_eq hne] at hfree
  refine pair_eq_of_collisionFree leafHashes_length hfree hmem hq ?_ ?_
  · exact List.mem_append_right _ (List.mem_cons_of_mem _ (List.mem_map_of_mem hmem))
  · exact List.mem_append_left _ (List.mem_append_right _ (List.mem_map_of_mem hq))

theorem mem_treeInputs_rawLeaf {i : Nat} (hi : i < payments.length) :
    rawLeaf invoiceId i payments[i] ∈ treeInputs sha256 invoiceId payments := by
  apply List.mem_append_left
  apply List.mem_of_getElem?
  rw [rawLeaves, List.getElem?_mapIdx, List.getElem?_eq_getElem hi]
  rfl

theorem leafHashes_getElem? {i : Nat} {x : String}
    (h : (leafHashes sha256 invoiceId payments)[i]? = some x) :
    ∃ hi : i < payments.length, x = sha256Hex sha256 (rawLeaf invoiceId i payments[i]) := by
  have hi := (List.getElem?_eq_some_iff.mp h).1
  rw [leafHashes, List.length_map, rawLeaves_length] at hi
  rw [leafHashes, rawLeaves, List.getElem?_map, List.getElem?_mapIdx, List.getElem?_eq_getElem hi] at h
  cases h
  exact ⟨hi, rfl⟩

include hne hfree hroot haccepted

/-- A path as high as the tree proves a payment; a shorter one proves the two nodes below
an inner node. -/
theorem leaf_of_short
    (hk : proof.path.length ≤ depth (hashPair sha256) (leafHashes sha256 invoiceId payments)) :
    (proof.path.length = depth (hashPair sha256) (leafHashes sha256 invoiceId payments) ∧
      ∃ i, ∃ hi : i < payments.length, proof.leaf = rawLeaf invoiceId i payments[i] ∧
        ∀ j < payments.length, proof.index.getD (.finite 0) = .finite j → i = j) ∨
    (proof.path.length < depth (hashPair sha256) (leafHashes sha256 invoiceId payments) ∧
      ∀ c ∈ proof.leaf.toList, isHexDigit c) := by
  obtain ⟨ys, hdepth, hys, hsub, hlayer⟩ := exists_layer (hashPair sha256)
    (leafHashes sha256 invoiceId payments) proof.path.length hk
  have hleaf : proof.leaf ∈ treeInputs sha256 invoiceId payments ++ proofInputs sha256 proof :=
    List.mem_append_right _ List.mem_cons_self
  have hclimb := climb_eq_root hne hroot haccepted
  have hinj := climb_pairs_inj hne hfree [] _ rfl rfl
  obtain ⟨i, hi, hside⟩ := getElem?_of_climb (hashPair sha256) ys (sha256Hex sha256 proof.leaf)
    (stepsOf (proof.index.getD (.finite 0)) proof.path) ((stepsOf_length _ _).trans hdepth.symm)
    (fun p hp q hq => hinj p hp q (hsub hq)) (hclimb.trans hys.symm)
  rcases hlayer with ⟨hd, rfl⟩ | ⟨hd, hinner⟩
  · obtain ⟨hlt, he⟩ := leafHashes_getElem? hi
    refine .inl ⟨hd, i, hlt, hfree _ hleaf _ (List.mem_append_left _ (mem_treeInputs_rawLeaf hlt))
      (digest_eq sha256 he), ?_⟩
    intro j hj hindex
    refine hside j ?_ proof.path (by rw [hindex, stepsOf_natCast])
    rwa [leafHashes, List.length_map, rawLeaves_length]
  · obtain ⟨p, hp, he⟩ := hinner _ (List.mem_of_getElem? hi)
    have hpre : p.1 ++ p.2 ∈ treeInputs sha256 invoiceId payments := by
      rw [treeInputs_eq hne]
      exact List.mem_append_right _ (List.mem_map_of_mem hp)
    have heq := hfree _ hleaf _ (List.mem_append_left _ hpre) (digest_eq sha256 he)
    obtain ⟨h1, h2⟩ := forall_treePairs (hashPair sha256) (fun s => ∀ c ∈ s.toList, isHexDigit c)
      (fun x y => (sha256 (x ++ y)).2.2) _ (fun x hx => by
        obtain ⟨raw, _, rfl⟩ := List.mem_map.mp hx
        exact (sha256 raw).2.2) p hp
    exact .inr ⟨hd, heq ▸ isHexDigit_append h1 h2⟩

/-- A longer path goes on below the leaves, where a payment begins with a digest. -/
theorem startsWithDigest_of_long
    (hk : depth (hashPair sha256) (leafHashes sha256 invoiceId payments) < proof.path.length) :
    StartsWithDigest invoiceId := by
  have hlen := stepsOf_length (proof.index.getD (.finite 0)) proof.path
  have hclimb := climb_eq_root hne hroot haccepted
  -- the last step below the leaves, and the steps above them
  obtain ⟨before, right, s, above, hsteps, habove⟩ := exists_split
    (stepsOf (proof.index.getD (.finite 0)) proof.path) _ (hlen ▸ hk)
  rw [hsteps, climb_append, climb] at hclimb
  have hmem : ordered right (climb (hashPair sha256) (sha256Hex sha256 proof.leaf) before) s ∈
      climbPairs (hashPair sha256) (sha256Hex sha256 proof.leaf)
        (stepsOf (proof.index.getD (.finite 0)) proof.path) := by
    rw [hsteps, climbPairs_append, climbPairs]
    exact List.mem_append_right _ List.mem_cons_self
  have hinj := climb_pairs_inj hne hfree (before ++ [(right, s)]) above
    (by rw [hsteps, List.append_assoc]; rfl) (by rw [climb_append, climb, climb])
  obtain ⟨i, hi, _⟩ := getElem?_of_climb (hashPair sha256) _ _ above habove hinj hclimb
  obtain ⟨hlt, he⟩ := leafHashes_getElem? hi
  have heq := hfree _ (List.mem_append_right _ (List.mem_cons_of_mem _ (List.mem_map_of_mem hmem))) _
    (List.mem_append_left _ (mem_treeInputs_rawLeaf hlt)) (digest_eq sha256 he)
  obtain ⟨d, hd⟩ : ∃ d : Digest,
      climb (hashPair sha256) (sha256Hex sha256 proof.leaf) before = d.1 :=
    climb_of_node (hashPair sha256) (fun x => ∃ d : Digest, x = d.1)
      (fun x y => ⟨sha256 (x ++ y), rfl⟩) ⟨sha256 proof.leaf, rfl⟩ before
  rw [hd] at heq
  cases right with
  | true => exact absurd heq (append_digest_ne_rawLeaf s d)
  | false => exact startsWithDigest_of_append heq

end Soundness

/-- For the accepted proofs with the root of an invoice's payments. -/
theorem accepted_proves_payment_iff (sha256 : String → Digest) (invoiceId : String)
    (payments : List Payment) (proof : MerkleProof) (hne : payments ≠ [])
    (hfree : CollisionFree sha256 (treeInputs sha256 invoiceId payments ++ proofInputs sha256 proof))
    (hroot : proof.root = merkleRoot sha256 invoiceId payments)
    (haccepted : verifyMerkleProof sha256 proof = true) :
    (FitsTree sha256 invoiceId payments proof → ProvesPayment invoiceId payments proof) ∧
      (¬StartsWithDigest invoiceId ∨
          proof.path.length < (buildLayers sha256 (leafHashes sha256 invoiceId payments)).length →
        ProvesPayment invoiceId payments proof → FitsTree sha256 invoiceId payments proof) := by
  have hlayers : (buildLayers sha256 (leafHashes sha256 invoiceId payments)).length =
      depth (hashPair sha256) (leafHashes sha256 invoiceId payments) + 1 := by
    obtain ⟨ys, yss, h⟩ := layers_ne_nil (hashPair sha256) (leafHashes sha256 invoiceId payments)
    rw [buildLayers_eq sha256 (leafHashes_ne_nil sha256 hne), depth, h]
    rfl
  rw [FitsTree, hlayers, Nat.add_right_cancel_iff]
  refine ⟨?_, ?_⟩
  · rintro ⟨hk, j, hj, hindex⟩
    obtain ⟨_, i, hi, hleaf, hside⟩ | ⟨hlt, _⟩ := leaf_of_short hne hfree hroot haccepted hk.le
    · obtain rfl := hside j hj hindex
      exact ⟨i, hi, hleaf, hindex⟩
    · exact absurd hk hlt.ne
  · rintro hid ⟨i, hi, hleaf, hindex⟩
    refine ⟨?_, i, hi, hindex⟩
    rcases Nat.lt_or_ge (depth (hashPair sha256) (leafHashes sha256 invoiceId payments))
      proof.path.length with hk | hk
    · have hstart := startsWithDigest_of_long hne hfree hroot haccepted hk
      rcases hid with hid | hid
      · exact absurd hstart hid
      · omega
    · obtain ⟨hk, _⟩ | ⟨_, hhex⟩ := leaf_of_short hne hfree hroot haccepted hk
      · exact hk
      · exact absurd hleaf (hex_ne_rawLeaf hhex)

section Sample

def sampleRoot : String := "fd3db1916f6856c4f8abf0f725e999b5e03b5673b7d9ee81be9eb63e4a2833a1"

theorem isDigest_left : IsDigest "24bcb71542aaf54bc21ff87df8796854575e983c062853e144faf954a3e6581d" :=
  isDigest_ofList (by decide +kernel)

theorem isDigest_right : IsDigest "699167a3950e55380bb75a313f18ca8b01598aa053b66e12d456415d858751b3" :=
  isDigest_ofList (by decide +kernel)

theorem isDigest_sampleRoot : IsDigest sampleRoot := isDigest_ofList (by decide)

def leftHash : Digest := ⟨_, isDigest_left⟩

def rightHash : Digest := ⟨_, isDigest_right⟩

def nodeHash : Digest := ⟨sampleRoot, isDigest_sampleRoot⟩

def firstLeaf : String := rawLeaf "7" 0 { payer := "GA", amount := 10 }

def secondLeaf : String := rawLeaf "7" 1 { payer := "GB", amount := 20 }

theorem secondLeaf_ne : secondLeaf ≠ firstLeaf := by
  intro h
  have hstart : "7" ++ ":" ++ toString 1 ++ ":" = "7" ++ ":" ++ toString 0 ++ ":" :=
    (append_left_inj_of_length h (by decide)).1
  revert hstart
  decide

theorem sampleSha256_first : sampleSha256 firstLeaf = leftHash := if_pos rfl

theorem sampleSha256_second : sampleSha256 secondLeaf = rightHash := (if_neg secondLeaf_ne).trans (if_pos rfl)

theorem sampleSha256_node : sampleSha256 (leftHash.1 ++ rightHash.1) = nodeHash := by
  have hhex := isHexDigit_append leftHash.2.2 rightHash.2.2
  exact (if_neg (hex_ne_rawLeaf hhex)).trans (if_neg (hex_ne_rawLeaf hhex))

theorem leafHashes_samplePayments (sha256 : String → Digest) :
    leafHashes sha256 "7" samplePayments = [(sha256 firstLeaf).1, (sha256 secondLeaf).1] := rfl

theorem sample_leafHashes : leafHashes sampleSha256 "7" samplePayments = [leftHash.1, rightHash.1] := by
  rw [leafHashes_samplePayments, sampleSha256_first, sampleSha256_second]

theorem parents_pair (sha256 : String → Digest) (x y : String) :
    parents (hashPair sha256) [x, y] = [(sha256 (x ++ y)).1] := rfl

theorem sample_layers : buildLayers sampleSha256 (leafHashes sampleSha256 "7" samplePayments) =
    [leafHashes sampleSha256 "7" samplePayments, [sampleRoot]] := by
  rw [sample_leafHashes, buildLayers_eq sampleSha256 (List.cons_ne_nil _ _), layers_of_one_lt _ (by decide),
    parents_pair, sampleSha256_node, layers_of_le_one _ (by decide)]
  rfl

theorem sample_treeInputs : treeInputs sampleSha256 "7" samplePayments =
    [firstLeaf, secondLeaf, leftHash.1 ++ rightHash.1] := by
  have hpairs (x y z : String) : treePairs [[x, y], [z]] = [(x, y)] := rfl
  rw [treeInputs, sample_layers, sample_leafHashes, hpairs]
  rfl

theorem sample_collisionFree (proof : MerkleProof)
    (h : proofInputs sampleSha256 proof ⊆ treeInputs sampleSha256 "7" samplePayments) :
    CollisionFree sampleSha256
      (treeInputs sampleSha256 "7" samplePayments ++ proofInputs sampleSha256 proof) := by
  have htree : CollisionFree sampleSha256 (treeInputs sampleSha256 "7" samplePayments) := by
    intro text htext text' htext'
    refine List.inj_on_of_nodup_map ?_ htext htext'
    rw [sample_treeInputs, List.map_cons, List.map_cons, List.map_singleton, sampleSha256_first, sampleSha256_second,
      sampleSha256_node]
    apply List.Nodup.of_map Subtype.val
    simp [leftHash, rightHash, nodeHash, sampleRoot]
  have hmem : ∀ a ∈ treeInputs sampleSha256 "7" samplePayments ++ proofInputs sampleSha256 proof,
      a ∈ treeInputs sampleSha256 "7" samplePayments :=
    fun a ha => (List.mem_append.mp ha).elim id (fun ha => h ha)
  exact fun a ha b hb => htree a (hmem a ha) b (hmem b hb)

theorem sample_merkleRoot : merkleRoot sampleSha256 "7" samplePayments = sampleRoot := by
  rw [merkleRoot, ← leafHashes, sample_layers]
  rfl

/-- The second payment, with the first one's hash as its sibling. -/
def sampleProof : MerkleProof where
  leaf := rawLeaf "7" 1 { payer := "GB", amount := 20 }
  path := ["24bcb71542aaf54bc21ff87df8796854575e983c062853e144faf954a3e6581d"]
  root := sampleRoot
  index := some (.finite 1)

theorem stepsOf_sampleProof : stepsOf (sampleProof.index.getD (.finite 0)) sampleProof.path = [(true, leftHash.1)] := by
  have hone : sampleProof.index.getD (.finite 0) = .finite (1 : Nat) := rfl
  rw [hone, stepsOf_natCast]
  rfl

theorem climb_second (sha256 : String → Digest) : climb (hashPair sha256) (sha256Hex sha256 sampleProof.leaf)
    [(true, leftHash.1)] = (sha256 (leftHash.1 ++ (sha256 secondLeaf).1)).1 := rfl

theorem climbPairs_second (sha256 : String → Digest) : climbPairs (hashPair sha256) (sha256Hex sha256 sampleProof.leaf)
    [(true, leftHash.1)] = [(leftHash.1, (sha256 secondLeaf).1)] := rfl

theorem accepted_proves_payment_sample : ProvesPayment "7" samplePayments sampleProof := by
  refine (accepted_proves_payment_iff sampleSha256 "7" samplePayments sampleProof
    (List.cons_ne_nil _ _) (sample_collisionFree _ ?_) sample_merkleRoot.symm ?_).1 ⟨?_, 1, by decide, rfl⟩
  · rw [sample_treeInputs, proofInputs, stepsOf_sampleProof, climbPairs_second, sampleSha256_second]
    exact List.subset_cons_self _ _
  · rw [verifyMerkleProof_iff, stepsOf_sampleProof, climb_second, sampleSha256_second, sampleSha256_node]
    refine ⟨rawLeaf_length "7" 1 _, ?_, .inr (by rfl), ?_, rfl⟩
    · exact nodeHash.2.1.trans_ne (by decide)
    · intro sibling hsibling
      rw [List.mem_singleton.mp hsibling]
      exact leftHash.2.1.trans_ne (by decide)
  · rw [sample_layers]
    rfl

/-- The two strings below the root, without a path. -/
def innerNodeProof : MerkleProof where
  leaf := "24bcb71542aaf54bc21ff87df8796854575e983c062853e144faf954a3e6581d" ++
    "699167a3950e55380bb75a313f18ca8b01598aa053b66e12d456415d858751b3"
  path := []
  root := sampleRoot

theorem innerNodeProof_leaf : innerNodeProof.leaf = leftHash.1 ++ rightHash.1 := rfl

/-- The inner node's preimage is accepted as a leaf, but it is no payment. -/
theorem innerNodeProof_accepted :
    CollisionFree sampleSha256 (treeInputs sampleSha256 "7" samplePayments ++
        proofInputs sampleSha256 innerNodeProof) ∧
      innerNodeProof.root = merkleRoot sampleSha256 "7" samplePayments ∧
      verifyMerkleProof sampleSha256 innerNodeProof = true ∧
      ¬ProvesPayment "7" samplePayments innerNodeProof := by
  have hinputs (sha256 : String → Digest) : proofInputs sha256 innerNodeProof = [innerNodeProof.leaf] := rfl
  refine ⟨sample_collisionFree _ ?_, sample_merkleRoot.symm, ?_, ?_⟩
  · rw [sample_treeInputs, hinputs, innerNodeProof_leaf]
    exact List.subset_cons_of_subset _ (List.subset_cons_self _ _)
  · have hclimb (sha256 : String → Digest) : climb (hashPair sha256) (sha256Hex sha256 innerNodeProof.leaf)
        (stepsOf (innerNodeProof.index.getD (.finite 0)) innerNodeProof.path) = (sha256 innerNodeProof.leaf).1 := rfl
    rw [verifyMerkleProof_iff, hclimb, innerNodeProof_leaf, sampleSha256_node]
    refine ⟨?_, nodeHash.2.1.trans_ne (by decide), .inl rfl, List.forall_mem_nil _, rfl⟩
    rw [String.length_append, leftHash.2.1]
    omega
  · rintro ⟨i, hi, hleaf, _⟩
    rw [innerNodeProof_leaf] at hleaf
    exact hex_ne_rawLeaf (isHexDigit_append leftHash.2.2 rightHash.2.2) hleaf

end Sample

end SplitSdk.MerkleSoundness
