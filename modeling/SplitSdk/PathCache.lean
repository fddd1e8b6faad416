import SplitSdk.BreadthFirst
import SplitSdk.Interleaving
import SplitSdk.Numbers
import SplitSdk.OrderedMap

namespace SplitSdk.PathCache

open BreadthFirst Interleaving Numbers OrderedMap

section Data

structure Recipient where
  address : String
  amount : Int
  deriving DecidableEq

structure PaymentPath where
  source : String
  target : String
  assetCode : String
  assetIssuer : String
  deriving DecidableEq

/-- A `Map` from a node to the `Set` of the nodes that its edges lead to. -/
abbrev Graph := OrdMap String (List String)

structure CacheEntry where
  graph : Graph
  timestamp : Int

abbrev Cache := OrdMap String CacheEntry

structure Hop where
  assetIssuer : Option String

structure PathRecord where
  path : List Hop

/-- What a request ends in. -/
inductive Answer
  | thrown
  | notOk
  | records (records : List PathRecord)

structure PaymentGraphCheckerOptions where
  cacheTTL : Option JsNumber := none
  horizonUrl : String

end Data

section Graphs

variable (graph : Graph)

def neighbors (node : String) : List String := (graph.get? node).getD []

/-- `graph.get(source)!.add(target)`, after `graph.set(source, new Set())` where there is none. -/
def addEdge (source target : String) : Graph :=
  let graph := if graph.has source then graph else graph.set source []
  let targets := neighbors graph source
  graph.set source (if target ∈ targets then targets else targets ++ [target])

def addHops (destinationAccount : String) : Graph → String → List Hop → Graph
  | graph, _, [] => graph
  | graph, prevNode, hop :: hops =>
      let hopAccount := match hop.assetIssuer with
        | none => destinationAccount
        | some issuer => if issuer = "" then destinationAccount else issuer
      addHops destinationAccount (addEdge graph prevNode hopAccount) hopAccount hops

def buildGraphFromPaths (records : List PathRecord) (sourceAccount destinationAccount : String) : Graph :=
  records.foldl
    (fun graph record => addHops destinationAccount (addEdge graph sourceAccount destinationAccount) sourceAccount record.path)
    OrdMap.empty

/-- The nodes of the graph, and the one to start from. -/
def nodes (source : String) : List String := source :: graph.entries.flatMap (fun entry => entry.1 :: entry.2)

def hasPath (source target : String) : Bool :=
  BreadthFirst.hasPath (neighbors graph) (nodes graph source).length source target

def parseAsset (asset : String) : String × String :=
  if "native".toList.isPrefixOf asset.toList then ("native", "")
  else
    let parts := asset.splitOn ":"
    let orElse (part : Option String) (default : String) : String := if part.getD "" = "" then default else part.getD ""
    (orElse parts[0]? "XLM", orElse parts[1]? "")

def reconstructPath (source target assetCode : String) : List PaymentPath :=
  let (code, issuer) := parseAsset assetCode
  if target ∈ neighbors graph source then [{ source, target, assetCode := code, assetIssuer := issuer }] else []

end Graphs

section Checker

/-- `x.toFixed(digits)`. -/
def toFixed (digits : Nat) : JsNumber → String
  | .finite q =>
      if 10 ^ 21 ≤ |q| then Numbers.toString (.finite q)
      else
        let n := (mathRound (|q| * 10 ^ digits)).toNat
        let fraction := (Nat.toDigits 10 (n % 10 ^ digits)).leftpad digits '0'
        let text := String.ofList (Nat.toDigits 10 (n / 10 ^ digits) ++ '.' :: fraction)
        if q < 0 then "-" ++ text else text
  | x => Numbers.toString x

def stroopsToUnits (stroops : Int) : String :=
  toFixed 7 (match fl stroops with
    | .finite q => fl (q / 10000000)
    | x => x)

def extractAssetFromInvoice : String := "native:"

def getCacheKey (sourceAsset sourceAccount targetAsset : String) : String :=
  s!"{sourceAsset}:{sourceAccount}:{targetAsset}"

variable (options : PaymentGraphCheckerOptions) (network : String → Answer)

/-- `options.cacheTTL || 60000`. -/
def cacheTTL : JsNumber :=
  match options.cacheTTL with
  | none => .finite 60000
  | some ttl => if ttl = .nan ∨ ttl = .finite 0 then .finite 60000 else ttl

def getFromCache (cache : Cache) (key : String) (now : Int) : Cache × Option CacheEntry :=
  match cache.get? key with
  | none => (cache, none)
  | some entry =>
      if (cacheTTL options).lt (.finite (now - entry.timestamp : Int)) then (cache.delete key, none) else (cache, some entry)

def saveToCache (cache : Cache) (key : String) (graph : Graph) (now : Int) : Cache :=
  cache.set key { graph, timestamp := now }

def requestUrl (sourceAsset : String) (amount : Int) (destinationAccount : String) : String :=
  let horizonUrl := options.horizonUrl
  let (assetCode, assetIssuer) := parseAsset sourceAsset
  let amountInUnits := stroopsToUnits amount
  if assetCode = "native" then
    s!"{horizonUrl}/paths/strict-send?source_asset_type=native&source_amount={amountInUnits}&destination_account={destinationAccount}"
  else
    s!"{horizonUrl}/paths/strict-send?source_asset_type=credit_alphanum4&source_asset_code={assetCode}&source_asset_issuer={assetIssuer}&source_amount={amountInUnits}&destination_account={destinationAccount}"

/-- The part of `findPath` after the cache. -/
def queryPath (cache : Cache) (key sourceAccount sourceAsset : String) (recipient : Recipient) (savedAt : Int) :
    Cache × List PaymentPath :=
  match network (requestUrl options sourceAsset recipient.amount recipient.address) with
  | .thrown | .notOk | .records [] => (cache, [])
  | .records records =>
      let graph := buildGraphFromPaths records sourceAccount recipient.address
      (saveToCache cache key graph savedAt, reconstructPath graph sourceAccount recipient.address sourceAsset)

/-- The clock is read when the cache is looked up and when a graph is saved. -/
structure Visit where
  recipient : Recipient
  readAt : Int
  savedAt : Int

def findPath (cache : Cache) (sourceAccount sourceAsset targetAsset : String) (v : Visit) : Cache × List PaymentPath :=
  let key := getCacheKey sourceAsset sourceAccount targetAsset
  let (cache, cached) := getFromCache options cache key v.readAt
  match cached with
  | some entry =>
      if hasPath entry.graph sourceAccount v.recipient.address then
        (cache, reconstructPath entry.graph sourceAccount v.recipient.address sourceAsset)
      else queryPath options network cache key sourceAccount sourceAsset v.recipient v.savedAt
  | none => queryPath options network cache key sourceAccount sourceAsset v.recipient v.savedAt

structure Invoice where
  creator : String
  payer : String
  recipients : List Visit

def sourceOf (invoice : Invoice) : String := if invoice.creator = "" then invoice.payer else invoice.creator

structure GraphCheckResult where
  reachable : List Recipient
  unreachable : List Recipient
  paths : OrdMap String (List PaymentPath)

structure UnreachableRecipientError where
  unreachableRecipients : List String
  checkedEdges : Nat

def findPaths (sourceAccount : String) : Cache → List Visit → Cache × List (Recipient × List PaymentPath)
  | cache, [] => (cache, [])
  | cache, v :: visits =>
      let (cache, path) := findPath options network cache sourceAccount extractAssetFromInvoice extractAssetFromInvoice v
      let (cache, found) := findPaths sourceAccount cache visits
      (cache, (v.recipient, path) :: found)

def check (cache : Cache) (invoice : Invoice) (allowUnreachable : Bool) :
    Cache × Except UnreachableRecipientError GraphCheckResult :=
  let (cache, found) := findPaths options network (sourceOf invoice) cache invoice.recipients
  let reachable := found.filter (fun entry => entry.2 ≠ [])
  let unreachable := (found.filter (fun entry => entry.2 = [])).map Prod.fst
  if unreachable ≠ [] ∧ allowUnreachable = false then
    (cache, .error { unreachableRecipients := unreachable.map Recipient.address,
                     checkedEdges := (reachable.map (fun entry => entry.2.length)).sum })
  else
    (cache, .ok { reachable := reachable.map Prod.fst, unreachable,
                  paths := reachable.foldl (fun paths entry => paths.set entry.1.address entry.2) OrdMap.empty })

end Checker

section Statement

variable (options : PaymentGraphCheckerOptions) (network : String → Answer)

structure Event where
  invoice : Invoice
  allowUnreachable : Bool

def step (cache : Cache) (e : Event) : Option Cache :=
  some (check options network cache e.invoice e.allowUnreachable).1

/-- Which of the recipients of an invoice are reachable. -/
def classification (cache : Cache) (invoice : Invoice) : List (Recipient × Bool) :=
  (findPaths options network (sourceOf invoice) cache invoice.recipients).2.map (fun entry => (entry.1, entry.2 ≠ []))

def Lawful (cache : Cache) (e : Event) : Prop :=
  classification options network cache e.invoice = classification options network OrdMap.empty e.invoice

/-- The graph that a lookup finds. -/
def current (cache : Cache) (sourceAccount : String) (v : Visit) : Option Graph :=
  (getFromCache options cache (getCacheKey extractAssetFromInvoice sourceAccount extractAssetFromInvoice) v.readAt).2.map
    CacheEntry.graph

/-- The network knows a way to the recipient. -/
def Answers (v : Visit) : Prop :=
  ∃ record records, network (requestUrl options extractAssetFromInvoice v.recipient.amount v.recipient.address) =
    .records (record :: records)

/-- What the cached graph says of the recipient, when it has a path to it, and else the network. -/
def Says (cache : Cache) (sourceAccount : String) (v : Visit) : Prop :=
  (∃ graph, current options cache sourceAccount v = some graph ∧
      Reaches (neighbors graph) sourceAccount v.recipient.address ∧ v.recipient.address ∈ neighbors graph sourceAccount) ∨
    (∀ graph, current options cache sourceAccount v = some graph →
      ¬Reaches (neighbors graph) sourceAccount v.recipient.address) ∧ Answers options network v

/-- Two caches say the same of every recipient when its turn comes. -/
def Agree (sourceAccount : String) : Cache → Cache → List Visit → Prop
  | _, _, [] => True
  | cache, cache', v :: visits =>
      (Says options network cache sourceAccount v ↔ Says options network cache' sourceAccount v) ∧
        Agree sourceAccount (findPath options network cache sourceAccount extractAssetFromInvoice extractAssetFromInvoice v).1
          (findPath options network cache' sourceAccount extractAssetFromInvoice extractAssetFromInvoice v).1 visits

def Spares (cache : Cache) (e : Event) : Prop :=
  Agree options network (sourceOf e.invoice) cache OrdMap.empty e.invoice.recipients

end Statement

section Edges

variable {graph : Graph} {source target x y : String}

theorem neighbors_set (graph : Graph) (source : String) (targets : List String) (x : String) :
    neighbors (graph.set source targets) x = if x = source then targets else neighbors graph x := by
  unfold neighbors
  rw [OrdMap.get?_set]
  split_ifs <;> rfl

/-- Giving a node no neighbours is no change where it has none. -/
theorem neighbors_set_nil (hnone : ¬graph.has source = true) (x : String) :
    neighbors (graph.set source []) x = neighbors graph x := by
  rw [neighbors_set]
  split_ifs with hx
  · subst hx
    have hget : graph.get? x = none := Option.not_isSome_iff_eq_none.mp hnone
    unfold neighbors
    rw [hget]
    rfl
  · rfl

theorem neighbors_addEdge (graph : Graph) (source target x : String) :
    neighbors (addEdge graph source target) x =
      if x = source then
        if target ∈ neighbors graph source then neighbors graph source else neighbors graph source ++ [target]
      else neighbors graph x := by
  unfold addEdge
  dsimp only
  by_cases hhas : graph.has source = true
  · rw [if_pos hhas, neighbors_set]
  · rw [if_neg hhas, neighbors_set, neighbors_set_nil hhas, neighbors_set_nil hhas]

theorem mem_addEdge_self (graph : Graph) (source target : String) : target ∈ neighbors (addEdge graph source target) source := by
  rw [neighbors_addEdge, if_pos rfl]
  split_ifs with hmem
  · exact hmem
  · exact List.mem_append_right _ (List.mem_singleton_self target)

theorem mem_addEdge (hy : y ∈ neighbors graph x) (source target : String) : y ∈ neighbors (addEdge graph source target) x := by
  rw [neighbors_addEdge]
  split_ifs with hx hmem
  · exact hx ▸ hy
  · exact List.mem_append_left _ (hx ▸ hy)
  · exact hy

theorem mem_addHops (hy : y ∈ neighbors graph x) (destinationAccount prevNode : String) (hops : List Hop) :
    y ∈ neighbors (addHops destinationAccount graph prevNode hops) x := by
  induction hops generalizing graph prevNode with
  | nil => exact hy
  | cons hop hops ih => exact ih (mem_addEdge hy _ _) _

/-- A graph that is built from an answer has the edge to the destination. -/
theorem mem_buildGraphFromPaths (record : PathRecord) (records : List PathRecord) (sourceAccount destinationAccount : String) :
    destinationAccount ∈ neighbors (buildGraphFromPaths (record :: records) sourceAccount destinationAccount) sourceAccount := by
  have hkeeps : ∀ (records : List PathRecord) (graph : Graph), destinationAccount ∈ neighbors graph sourceAccount →
      destinationAccount ∈ neighbors
        (records.foldl (fun graph record =>
          addHops destinationAccount (addEdge graph sourceAccount destinationAccount) sourceAccount record.path) graph)
        sourceAccount := by
    intro records
    induction records with
    | nil => exact fun graph hmem => hmem
    | cons record records ih => exact fun graph hmem => ih _ (mem_addHops (mem_addEdge hmem _ _) _ _ _)
  exact hkeeps records _ (mem_addHops (mem_addEdge_self OrdMap.empty sourceAccount destinationAccount) _ _ _)

theorem mem_nodes (source : String) (hy : y ∈ neighbors graph x) : y ∈ nodes graph source := by
  unfold neighbors at hy
  cases hget : graph.get? x with
  | none =>
      rw [hget] at hy
      cases hy
  | some targets =>
      rw [hget] at hy
      refine List.mem_cons_of_mem source (List.mem_flatMap.mpr ⟨(x, targets), OrdMap.mem_of_get? hget, ?_⟩)
      exact List.mem_cons_of_mem x hy

theorem hasPath_iff (graph : Graph) (source target : String) :
    hasPath graph source target = true ↔ Reaches (neighbors graph) source target :=
  BreadthFirst.hasPath_iff (fun _ _ _ hy => mem_nodes source hy) List.mem_cons_self target

theorem reconstructPath_ne_nil_iff (assetCode : String) :
    reconstructPath graph source target assetCode ≠ [] ↔ target ∈ neighbors graph source := by
  unfold reconstructPath
  dsimp only
  split_ifs with hmem
  · exact iff_of_true (List.cons_ne_nil _ _) hmem
  · exact iff_of_false (fun hne => hne rfl) hmem

end Edges

section Lookups

variable {options : PaymentGraphCheckerOptions} {network : String → Answer} {cache : Cache} {sourceAccount : String}
  {v : Visit}

theorem queryPath_ne_nil_iff (key : String) (savedAt : Int) :
    (queryPath options network cache key sourceAccount extractAssetFromInvoice v.recipient savedAt).2 ≠ [] ↔
      Answers options network v := by
  unfold queryPath Answers
  cases network (requestUrl options extractAssetFromInvoice v.recipient.amount v.recipient.address) with
  | thrown => exact iff_of_false (fun hne => hne rfl) (fun ⟨_, _, heq⟩ => by cases heq)
  | notOk => exact iff_of_false (fun hne => hne rfl) (fun ⟨_, _, heq⟩ => by cases heq)
  | records records =>
      cases records with
      | nil => exact iff_of_false (fun hne => hne rfl) (fun ⟨_, _, heq⟩ => by cases heq)
      | cons record records =>
          refine iff_of_true ?_ ⟨record, records, rfl⟩
          change reconstructPath (buildGraphFromPaths (record :: records) sourceAccount v.recipient.address) sourceAccount
            v.recipient.address extractAssetFromInvoice ≠ []
          exact (reconstructPath_ne_nil_iff _).mpr (mem_buildGraphFromPaths record records _ _)

/-- A recipient is found reachable just when the cache or the network says so. -/
theorem findPath_ne_nil_iff :
    (findPath options network cache sourceAccount extractAssetFromInvoice extractAssetFromInvoice v).2 ≠ [] ↔
      Says options network cache sourceAccount v := by
  unfold findPath Says current
  dsimp only
  generalize getFromCache options cache (getCacheKey extractAssetFromInvoice sourceAccount extractAssetFromInvoice) v.readAt =
    looked
  obtain ⟨cache', cached⟩ := looked
  cases cached with
  | none =>
      refine (queryPath_ne_nil_iff _ v.savedAt).trans ?_
      constructor
      · intro hanswers
        refine .inr ⟨fun graph hgraph => ?_, hanswers⟩
        cases hgraph
      · rintro (⟨graph, hgraph, -⟩ | ⟨-, hanswers⟩)
        · cases hgraph
        · exact hanswers
  | some entry =>
      dsimp only
      by_cases hpath : hasPath entry.graph sourceAccount v.recipient.address = true
      · rw [if_pos hpath, reconstructPath_ne_nil_iff]
        have hreaches := (hasPath_iff _ _ _).mp hpath
        constructor
        · exact fun hdirect => .inl ⟨entry.graph, rfl, hreaches, hdirect⟩
        · rintro (⟨graph, hgraph, -, hdirect⟩ | ⟨hnone, -⟩)
          · cases hgraph
            exact hdirect
          · exact absurd hreaches (hnone entry.graph rfl)
      · rw [if_neg hpath]
        have hreaches := mt (hasPath_iff _ _ _).mpr hpath
        refine (queryPath_ne_nil_iff _ v.savedAt).trans ?_
        constructor
        · intro hanswers
          refine .inr ⟨fun graph hgraph => ?_, hanswers⟩
          cases hgraph
          exact hreaches
        · rintro (⟨graph, hgraph, hpath', -⟩ | ⟨-, hanswers⟩)
          · cases hgraph
            exact absurd hpath' hreaches
          · exact hanswers

theorem findPaths_cons (sourceAccount : String) (cache : Cache) (v : Visit) (visits : List Visit) :
    (findPaths options network sourceAccount cache (v :: visits)).2 =
      (v.recipient, (findPath options network cache sourceAccount extractAssetFromInvoice extractAssetFromInvoice v).2) ::
        (findPaths options network sourceAccount
          (findPath options network cache sourceAccount extractAssetFromInvoice extractAssetFromInvoice v).1 visits).2 := rfl

theorem classification_eq_iff (sourceAccount : String) (cache cache' : Cache) (visits : List Visit) :
    (findPaths options network sourceAccount cache visits).2.map (fun entry => (entry.1, decide (entry.2 ≠ []))) =
        (findPaths options network sourceAccount cache' visits).2.map (fun entry => (entry.1, decide (entry.2 ≠ []))) ↔
      Agree options network sourceAccount cache cache' visits := by
  induction visits generalizing cache cache' with
  | nil => exact iff_of_true rfl trivial
  | cons v visits ih =>
      rw [findPaths_cons, findPaths_cons, List.map_cons, List.map_cons, List.cons.injEq, Prod.mk.injEq, decide_eq_decide, findPath_ne_nil_iff, findPath_ne_nil_iff]
      exact and_congr (and_iff_right rfl) (ih _ _)

/-- A checker that has checked other invoices classifies as a fresh one does just when, for every recipient, what the two
have cached says the same. -/
theorem path_cache_transparent_iff (options : PaymentGraphCheckerOptions) (network : String → Answer) (events : List Event) :
    Allowed (step options network) (Lawful options network) OrdMap.empty events ↔
      Allowed (step options network) (Spares options network) OrdMap.empty events :=
  allowed_iff (I := fun _ => True) (fun _ _ _ _ _ _ => trivial)
    (fun cache e _ => classification_eq_iff (sourceOf e.invoice) cache OrdMap.empty e.invoice.recipients) trivial events

/-- The way to one recipient leads past another one, whom the cached graph then knows no direct way to. -/
theorem path_cache_transparent_fail :
    ¬∀ (options : PaymentGraphCheckerOptions) (network : String → Answer) (events : List Event),
      Allowed (step options network) (Lawful options network) OrdMap.empty events := by
  intro hall
  let network : String → Answer := fun _ => .records [{ path := [{ assetIssuer := some "X" }, { assetIssuer := some "B" }] }]
  let invoice (address : String) : Invoice := ⟨"S", "", [⟨⟨address, 100⟩, 0, 0⟩]⟩
  obtain ⟨-, hnext⟩ := hall { horizonUrl := "" } network [⟨invoice "A", true⟩, ⟨invoice "B", true⟩]
  obtain ⟨hlawful, -⟩ := hnext _ rfl
  unfold Lawful at hlawful
  exact absurd hlawful (by decide)

end Lookups

end SplitSdk.PathCache
