import Mathlib.Data.List.Chain
import Mathlib.Data.List.Nodup
import Mathlib.Logic.Relation
import Mathlib.Order.Basic

namespace SplitSdk.DepthFirst

section Definitions

variable {α : Type} [DecidableEq α] (neighbors : α → List α)

def Edge (a b : α) : Prop := b ∈ neighbors a

/-- No node is reached from itself by one edge or more. -/
def Acyclic : Prop := ∀ node, ¬Relation.TransGen (Edge neighbors) node node

/-- A path with an edge from its end to its beginning. -/
def IsClosedPath (cycle : List α) : Prop :=
  ∃ first ∈ cycle.head?, ∃ last ∈ cycle.getLast?, cycle.IsChain (Edge neighbors) ∧ Edge neighbors last first

/-- The nodes that were met, those of them that are being searched, the deepest first, and the cycles that were found. -/
structure Search (α : Type) where
  visited : List α := []
  onStack : List α := []
  cycles : List (List α) := []

def Search.enter (s : Search α) (node : α) : Search α :=
  { s with visited := node :: s.visited, onStack := node :: s.onStack }

def Search.leave (s : Search α) (node : α) : Search α := { s with onStack := s.onStack.erase node }

/-- The search below a node, and nothing when there is too little fuel. -/
def dfs : Nat → α → List α → Search α → Option (Search α)
  | 0, _, _, _ => none
  | fuel + 1, node, path, s =>
      let path := path ++ [node]
      let visit (s : Search α) (neighbor : α) : Option (Search α) :=
        if neighbor ∉ s.visited then dfs fuel neighbor path s
        else if neighbor ∈ s.onStack then some { s with cycles := s.cycles ++ [path.drop (path.idxOf neighbor)] }
        else some s
      ((neighbors node).foldlM visit (s.enter node)).map (fun s => s.leave node)

/-- The search from each node that was not met yet. -/
def dfsAll (fuel : Nat) (nodes : List α) (s : Search α) : Option (Search α) :=
  nodes.foldlM (fun s node => if node ∉ s.visited then dfs neighbors fuel node [] s else some s) s

end Definitions

section Paths

variable {α : Type} {neighbors : α → List α}

theorem reaches_of_isChain {first last : α} {path : List α} (hfirst : first ∈ path.head?) (hlast : last ∈ path.getLast?)
    (h : path.IsChain (Edge neighbors)) : Relation.ReflTransGen (Edge neighbors) first last := by
  induction path generalizing first with
  | nil => cases hfirst
  | cons x path ih =>
      obtain rfl := Option.some.inj hfirst
      cases path with
      | nil =>
          obtain rfl := Option.some.inj hlast
          exact .refl
      | cons y path =>
          rw [List.isChain_cons_cons] at h
          exact .head h.1 (ih rfl (by simpa using hlast) h.2)

theorem not_acyclic_of_isClosedPath {cycle : List α} (h : IsClosedPath neighbors cycle) : ¬Acyclic neighbors := by
  obtain ⟨first, hfirst, last, hlast, hchain, hedge⟩ := h
  exact fun hacyclic => hacyclic first (.tail' (reaches_of_isChain hfirst hlast hchain) hedge)

theorem Acyclic.of_edges {neighbors' : α → List α} (h : Acyclic neighbors) (hedge : ∀ a b, Edge neighbors' a b → Edge neighbors a b) :
    Acyclic neighbors' :=
  fun node hcycle => h node (Relation.TransGen.mono hedge node node hcycle)

theorem IsClosedPath.of_edges {neighbors' : α → List α} {cycle : List α} (h : IsClosedPath neighbors cycle)
    (hedge : ∀ a b, Edge neighbors a b → Edge neighbors' a b) : IsClosedPath neighbors' cycle := by
  obtain ⟨first, hfirst, last, hlast, hchain, hclose⟩ := h
  exact ⟨first, hfirst, last, hlast, hchain.imp hedge, hedge last first hclose⟩

/-- Every node comes before its neighbours. -/
inductive Sorted (neighbors : α → List α) : List α → Prop
  | nil : Sorted neighbors []
  | cons {node : α} {order : List α} (hnew : node ∉ order) (hneighbors : ∀ x ∈ neighbors node, x ∈ order)
      (h : Sorted neighbors order) : Sorted neighbors (node :: order)

theorem Sorted.closed {order : List α} (h : Sorted neighbors order) {x y : α} (hx : x ∈ order)
    (hy : Relation.TransGen (Edge neighbors) x y) : y ∈ order := by
  have hedge : ∀ x ∈ order, ∀ y ∈ neighbors x, y ∈ order := by
    clear hy hx
    induction h with
    | nil => simp
    | cons _ hneighbors _ ih =>
        intro x hx y hy
        rcases List.mem_cons.mp hx with rfl | hx
        · exact List.mem_cons_of_mem _ (hneighbors y hy)
        · exact List.mem_cons_of_mem _ (ih x hx y hy)
  induction hy with
  | single hxy => exact hedge x hx _ hxy
  | tail _ hyz ih => exact hedge _ ih _ hyz

theorem Sorted.acyclic {order : List α} (h : Sorted neighbors order) :
    ∀ x ∈ order, ¬Relation.TransGen (Edge neighbors) x x := by
  induction h with
  | nil => simp
  | @cons node order hnew hneighbors h ih =>
      intro x hx hcycle
      rcases List.mem_cons.mp hx with rfl | hx
      · -- the cycle goes on inside the rest of the order, and does not come back
        obtain ⟨y, hxy, hyx⟩ := Relation.TransGen.head'_iff.mp hcycle
        have hy := hneighbors y hxy
        rcases Relation.reflTransGen_iff_eq_or_transGen.mp hyx with heq | hyx
        · exact hnew (heq ▸ hy)
        · exact hnew (h.closed hy hyx)
      · exact ih x hx hcycle

end Paths

section Invariants

variable {α : Type} {neighbors : α → List α} {node : α} {path : List α} {s t : Search α}

theorem isChain_snoc {x : α} (hchain : (path ++ [node]).IsChain (Edge neighbors)) (hx : x ∈ neighbors node) :
    (path ++ [node] ++ [x]).IsChain (Edge neighbors) :=
  List.isChain_append.mpr ⟨hchain, List.isChain_singleton _, by simpa [Edge] using hx⟩

/-- What a search does to the state: it meets more nodes, comes back to the same stack and adds closed paths. -/
structure Extends (neighbors : α → List α) (s t : Search α) : Prop where
  visited : s.visited ⊆ t.visited
  onStack : t.onStack = s.onStack
  cycles : ∃ found, t.cycles = s.cycles ++ found ∧ ∀ cycle ∈ found, IsClosedPath neighbors cycle

theorem Extends.refl (s : Search α) : Extends neighbors s s :=
  ⟨List.Subset.refl _, rfl, [], (List.append_nil _).symm, List.forall_mem_nil _⟩

theorem Extends.trans {u : Search α} (h : Extends neighbors s t) (h' : Extends neighbors t u) : Extends neighbors s u := by
  obtain ⟨found, hfound, hclosed⟩ := h.cycles
  obtain ⟨found', hfound', hclosed'⟩ := h'.cycles
  refine ⟨List.Subset.trans h.visited h'.visited, h'.onStack.trans h.onStack, found ++ found', ?_, ?_⟩
  · rw [hfound', hfound, List.append_assoc]
  · exact List.forall_mem_append.mpr ⟨hclosed, hclosed'⟩

theorem Extends.cycles_nil (h : Extends neighbors s t) (ht : t.cycles = []) : s.cycles = [] := by
  obtain ⟨found, hfound, -⟩ := h.cycles
  exact (List.append_eq_nil_iff.mp (hfound.symm.trans ht)).1

/-- The nodes that were met are those being searched and the finished ones, which come before their neighbours. -/
structure Finished (neighbors : α → List α) (s : Search α) (order : List α) : Prop where
  visited : ∀ x, x ∈ s.visited ↔ x ∈ s.onStack ∨ x ∈ order
  disjoint : ∀ x ∈ order, x ∉ s.onStack
  sorted : Sorted neighbors order

theorem Finished.enter {order : List α} (hs : Finished neighbors s order) (hnew : node ∉ s.visited) :
    Finished neighbors (s.enter node) order where
  visited x := by
    rw [Search.enter, List.mem_cons, List.mem_cons, hs.visited, or_assoc]
  disjoint x hx := by
    rintro hmem
    rcases List.mem_cons.mp hmem with rfl | hmem
    · exact hnew ((hs.visited x).mpr (.inr hx))
    · exact hs.disjoint x hx hmem
  sorted := hs.sorted

end Invariants

section Loops

/-- What each turn of a loop keeps, of the elements that were seen and the state. -/
theorem foldlM_induction {σ α : Type} {f : σ → α → Option σ} {xs : List α} {P : List α → σ → Prop} {s t : σ}
    (seen : List α) (h : xs.foldlM f s = some t) (hs : P seen s)
    (hstep : ∀ seen, ∀ x ∈ xs, ∀ u v, P seen u → f u x = some v → P (x :: seen) v) : P (xs.reverse ++ seen) t := by
  induction xs generalizing s seen with
  | nil => cases h; exact hs
  | cons x xs ih =>
      rw [List.foldlM_cons] at h
      obtain ⟨u, hu, hrest⟩ := Option.bind_eq_some_iff.mp h
      rw [List.reverse_cons, List.append_assoc, List.singleton_append]
      exact ih _ hrest (hstep seen x List.mem_cons_self s u hs hu) (fun seen y hy => hstep seen y (List.mem_cons_of_mem _ hy))

/-- A loop ends when each of its turns does, wherever an invariant leads. -/
theorem foldlM_total {σ α : Type} {f : σ → α → Option σ} {xs : List α} {P : σ → Prop} {s : σ} (hs : P s)
    (hstep : ∀ x ∈ xs, ∀ u, P u → ∃ v, f u x = some v ∧ P v) : ∃ t, xs.foldlM f s = some t ∧ P t := by
  induction xs generalizing s with
  | nil => exact ⟨s, rfl, hs⟩
  | cons x xs ih =>
      obtain ⟨u, hu, hPu⟩ := hstep x List.mem_cons_self s hs
      obtain ⟨t, ht, hPt⟩ := ih hPu (fun y hy => hstep y (List.mem_cons_of_mem _ hy))
      refine ⟨t, ?_, hPt⟩
      rw [List.foldlM_cons, hu]
      exact ht

end Loops

section Search

variable {α : Type} [DecidableEq α] {neighbors : α → List α} {fuel : Nat} {node : α} {path : List α} {s t : Search α}

/-- One turn of the loop over the neighbours of the last node of a path. -/
def visit (neighbors : α → List α) (fuel : Nat) (path : List α) (s : Search α) (neighbor : α) : Option (Search α) :=
  if neighbor ∉ s.visited then dfs neighbors fuel neighbor path s
  else if neighbor ∈ s.onStack then some { s with cycles := s.cycles ++ [path.drop (path.idxOf neighbor)] }
  else some s

theorem dfs_succ (fuel : Nat) (node : α) (path : List α) (s : Search α) : dfs neighbors (fuel + 1) node path s =
    ((neighbors node).foldlM (visit neighbors fuel (path ++ [node])) (s.enter node)).map (fun s => s.leave node) := rfl

theorem exists_of_dfs (h : dfs neighbors (fuel + 1) node path s = some t) :
    ∃ u, (neighbors node).foldlM (visit neighbors fuel (path ++ [node])) (s.enter node) = some u ∧ u.leave node = t :=
  Option.map_eq_some_iff.mp (dfs_succ fuel node path s ▸ h)

/-- The part of a path from a node that the end of the path leads back to. -/
theorem isClosedPath_drop {neighbor : α} (hchain : (path ++ [node]).IsChain (Edge neighbors)) (hedge : neighbor ∈ neighbors node)
    (hmem : neighbor ∈ path ++ [node]) : IsClosedPath neighbors ((path ++ [node]).drop ((path ++ [node]).idxOf neighbor)) := by
  have hlt := List.idxOf_lt_length_of_mem hmem
  refine ⟨neighbor, ?_, node, ?_, hchain.drop _, hedge⟩
  · rw [List.head?_drop, List.getElem?_eq_getElem hlt, List.getElem_idxOf]
    rfl
  · rw [List.getLast?_drop, if_neg (not_le.mpr hlt)]
    simp

/-- A turn extends the state when the search of a new node does. -/
theorem extends_visit_of {x : α} (hsearch : ∀ t, dfs neighbors fuel x (path ++ [node]) s = some t → Extends neighbors s t)
    (h : visit neighbors fuel (path ++ [node]) s x = some t) (hstack : s.onStack = (path ++ [node]).reverse)
    (hchain : (path ++ [node]).IsChain (Edge neighbors)) (hx : x ∈ neighbors node) : Extends neighbors s t := by
  unfold visit at h
  split_ifs at h with hmet hon
  · cases h
    have hmem : x ∈ path ++ [node] := List.mem_reverse.mp (hstack ▸ hon)
    exact ⟨List.Subset.refl _, rfl, _, rfl, List.forall_mem_singleton.mpr (isClosedPath_drop hchain hx hmem)⟩
  · cases h
    exact .refl _
  · exact hsearch t h

theorem extends_dfs (h : dfs neighbors fuel node path s = some t) (hstack : s.onStack = path.reverse)
    (hchain : (path ++ [node]).IsChain (Edge neighbors)) : Extends neighbors s t := by
  induction fuel generalizing node path s t with
  | zero => cases h
  | succ fuel ih =>
      obtain ⟨u, hloop, rfl⟩ := exists_of_dfs h
      have hentered : (s.enter node).onStack = (path ++ [node]).reverse := by
        rw [List.reverse_append, ← hstack]
        rfl
      have hu : Extends neighbors (s.enter node) u :=
        foldlM_induction (P := fun _ => Extends neighbors (s.enter node)) [] hloop (.refl _)
          (fun _ x hx v w hv hw => by
            have hpath : v.onStack = (path ++ [node]).reverse := hv.onStack.trans hentered
            exact hv.trans (extends_visit_of (fun t ht => ih ht hpath (isChain_snoc hchain hx)) hw hpath hchain hx))
      refine ⟨fun x hx => hu.visited (List.mem_cons_of_mem _ hx), ?_, hu.cycles⟩
      rw [Search.leave, hu.onStack]
      exact List.erase_cons_head _ _

theorem extends_visit {x : α} (h : visit neighbors fuel (path ++ [node]) s x = some t)
    (hstack : s.onStack = (path ++ [node]).reverse) (hchain : (path ++ [node]).IsChain (Edge neighbors))
    (hx : x ∈ neighbors node) : Extends neighbors s t :=
  extends_visit_of (fun _ ht => extends_dfs ht hstack (isChain_snoc hchain hx)) h hstack hchain hx

theorem Finished.leave {order : List α} {stack : List α} (hs : Finished neighbors s order) (hstack : s.onStack = node :: stack)
    (hout : node ∉ stack) (hneighbors : ∀ x ∈ neighbors node, x ∈ order) : Finished neighbors (s.leave node) (node :: order) := by
  have hleft : (s.leave node).onStack = stack := by
    rw [Search.leave, hstack]
    exact List.erase_cons_head _ _
  have hnode : node ∉ order := fun hmem => hs.disjoint node hmem (hstack ▸ List.mem_cons_self)
  refine ⟨fun x => ?_, fun x hx => ?_, .cons hnode hneighbors hs.sorted⟩
  · rw [hleft, List.mem_cons]
    refine (hs.visited x).trans ?_
    rw [hstack, List.mem_cons]
    tauto
  · rw [hleft]
    rcases List.mem_cons.mp hx with rfl | hx
    · exact hout
    · exact fun hmem => hs.disjoint x hx (hstack ▸ List.mem_cons_of_mem _ hmem)

/-- While no cycle is found, a search finishes its node and keeps the finished ones. -/
theorem finished_dfs {order : List α} (h : dfs neighbors fuel node path s = some t) (hstack : s.onStack = path.reverse)
    (hchain : (path ++ [node]).IsChain (Edge neighbors)) (hnew : node ∉ s.visited) (hs : Finished neighbors s order)
    (hnone : t.cycles = []) : ∃ order', order ⊆ order' ∧ node ∈ order' ∧ Finished neighbors t order' := by
  induction fuel generalizing node path s t order with
  | zero => cases h
  | succ fuel ih =>
      obtain ⟨u, hloop, rfl⟩ := exists_of_dfs h
      have hentered : (s.enter node).onStack = (path ++ [node]).reverse := by
        rw [List.reverse_append, ← hstack]
        rfl
      obtain ⟨hu, hfinished⟩ := foldlM_induction
        (P := fun seen v => Extends neighbors (s.enter node) v ∧ (v.cycles = [] →
          ∃ order', order ⊆ order' ∧ (∀ x ∈ seen, x ∈ order') ∧ Finished neighbors v order'))
        [] hloop ⟨.refl _, fun _ => ⟨order, List.Subset.refl _, List.forall_mem_nil _, hs.enter hnew⟩⟩
        (fun seen x hx v w hv hw => by
          have hpath : v.onStack = (path ++ [node]).reverse := hv.1.onStack.trans hentered
          have hnext := extends_visit hw hpath hchain hx
          refine ⟨hv.1.trans hnext, fun hempty => ?_⟩
          obtain ⟨order', hsubset, hseen, hfin⟩ := hv.2 (hnext.cycles_nil hempty)
          unfold visit at hw
          split_ifs at hw with hmet hon
          · cases hw
            exact absurd hempty (List.append_ne_nil_of_right_ne_nil _ (List.cons_ne_nil _ _))
          · cases hw
            have hmem : x ∈ order' := ((hfin.visited x).mp hmet).resolve_left hon
            exact ⟨order', hsubset, List.forall_mem_cons.mpr ⟨hmem, hseen⟩, hfin⟩
          · have hchain' : (path ++ [node] ++ [x]).IsChain (Edge neighbors) := isChain_snoc hchain hx
            obtain ⟨order'', hsubset', hmem, hfin'⟩ := ih hw hpath hchain' hmet hfin hempty
            exact ⟨order'', List.Subset.trans hsubset hsubset',
              List.forall_mem_cons.mpr ⟨hmem, fun y hy => hsubset' (hseen y hy)⟩, hfin'⟩)
      obtain ⟨order', hsubset, hseen, hfin⟩ := hfinished hnone
      have hout : node ∉ s.onStack := fun hmem => hnew ((hs.visited node).mpr (.inl hmem))
      exact ⟨node :: order', List.Subset.trans hsubset (List.subset_cons_self _ _), List.mem_cons_self,
        hfin.leave hu.onStack hout (fun x hx => hseen x (by simpa using hx))⟩

end Search

section Totality

variable {α : Type} [DecidableEq α] {neighbors : α → List α} {nodes : List α} {s : Search α}

/-- The nodes that are still to be met. -/
def unmet (nodes : List α) (s : Search α) : List α := nodes.filter (· ∉ s.visited)

theorem unmet_length_le {t : Search α} (h : s.visited ⊆ t.visited) : (unmet nodes t).length ≤ (unmet nodes s).length := by
  refine (List.monotone_filter_right nodes (fun x hx => ?_)).length_le
  rw [decide_eq_true_iff] at hx ⊢
  exact fun hmem => hx (h hmem)

theorem unmet_enter_length_lt {node : α} (hnode : node ∈ nodes) (hnew : node ∉ s.visited) :
    (unmet nodes (s.enter node)).length < (unmet nodes s).length := by
  have hfilter : unmet nodes (s.enter node) = (unmet nodes s).filter (· ≠ node) := by
    rw [unmet, unmet, List.filter_filter]
    refine List.filter_congr (fun x _ => ?_)
    simp [Search.enter]
  rw [hfilter]
  refine List.length_filter_lt_length_iff_exists.mpr ⟨node, List.mem_filter.mpr ⟨hnode, decide_eq_true hnew⟩, by simp⟩

/-- A search ends when there is fuel for every node that is still to be met. -/
theorem total_dfs (hclosed : ∀ x ∈ nodes, ∀ y ∈ neighbors x, y ∈ nodes) {fuel : Nat} {node : α} {path : List α}
    (hnode : node ∈ nodes) (hnew : node ∉ s.visited) (hfuel : (unmet nodes s).length ≤ fuel) :
    ∃ t, dfs neighbors fuel node path s = some t ∧ s.visited ⊆ t.visited := by
  induction fuel generalizing node path s with
  | zero => exact absurd ((unmet_enter_length_lt hnode hnew).trans_le hfuel) (Nat.not_lt_zero _)
  | succ fuel ih =>
      have hless : (unmet nodes (s.enter node)).length ≤ fuel :=
        Nat.lt_succ_iff.mp ((unmet_enter_length_lt hnode hnew).trans_le hfuel)
      obtain ⟨u, hu, hvisited⟩ := foldlM_total (f := visit neighbors fuel (path ++ [node]))
        (P := fun v => (s.enter node).visited ⊆ v.visited) (List.Subset.refl _) (fun x hx v hv => by
          unfold visit
          split_ifs with hmet hon
          · exact ⟨_, rfl, hv⟩
          · exact ⟨v, rfl, hv⟩
          · obtain ⟨w, hw, hsubset⟩ := ih (hclosed node hnode x hx) hmet ((unmet_length_le hv).trans hless)
            exact ⟨w, hw, List.Subset.trans hv hsubset⟩)
      refine ⟨u.leave node, ?_, fun x hx => hvisited (List.mem_cons_of_mem _ hx)⟩
      rw [dfs_succ, hu]
      rfl

end Totality

section Result

variable {α : Type} [DecidableEq α] {neighbors : α → List α} {nodes : List α}

theorem total_dfsAll (hclosed : ∀ x ∈ nodes, ∀ y ∈ neighbors x, y ∈ nodes) {fuel : Nat} (hfuel : nodes.length ≤ fuel) :
    ∃ t, dfsAll neighbors fuel nodes {} = some t := by
  have hturns (s : Search α) : ∃ t, nodes.foldlM (fun s node =>
      if node ∉ s.visited then dfs neighbors fuel node [] s else some s) s = some t ∧ True :=
    foldlM_total (P := fun _ => True) trivial (fun x hx v _ => by
      split_ifs with hmet
      · exact ⟨v, rfl, trivial⟩
      · obtain ⟨w, hw, -⟩ := total_dfs hclosed hx hmet ((List.length_filter_le _ _).trans hfuel)
        exact ⟨w, hw, trivial⟩)
  exact (hturns {}).imp (fun _ h => h.1)

theorem extends_dfsAll {fuel : Nat} {t : Search α} (h : dfsAll neighbors fuel nodes {} = some t) :
    Extends neighbors {} t ∧ (t.cycles = [] → ∃ order, (∀ x ∈ nodes, x ∈ order) ∧ Finished neighbors t order) := by
  have hempty : Finished neighbors {} [] := ⟨by simp, by simp, .nil⟩
  obtain ⟨ht, hfinished⟩ := foldlM_induction
    (P := fun seen v => Extends neighbors {} v ∧ (v.cycles = [] → ∃ order, (∀ x ∈ seen, x ∈ order) ∧ Finished neighbors v order))
    [] h ⟨.refl _, fun _ => ⟨[], List.forall_mem_nil _, hempty⟩⟩
    (fun seen x hx v w hv hw => by
      split_ifs at hw with hmet
      · cases hw
        refine ⟨hv.1, fun hnone => ?_⟩
        obtain ⟨order, hseen, hfin⟩ := hv.2 hnone
        have hstack : v.onStack = [] := hv.1.onStack
        have hmem : x ∈ order := ((hfin.visited x).mp hmet).resolve_left (hstack ▸ List.not_mem_nil)
        exact ⟨order, List.forall_mem_cons.mpr ⟨hmem, hseen⟩, hfin⟩
      · have hnext := extends_dfs hw hv.1.onStack (List.isChain_singleton x)
        refine ⟨hv.1.trans hnext, fun hnone => ?_⟩
        obtain ⟨order, hseen, hfin⟩ := hv.2 (hnext.cycles_nil hnone)
        obtain ⟨order', hsubset, hmem, hfin'⟩ := finished_dfs hw hv.1.onStack (List.isChain_singleton x) hmet hfin hnone
        exact ⟨order', List.forall_mem_cons.mpr ⟨hmem, fun y hy => hsubset (hseen y hy)⟩, hfin'⟩)
  refine ⟨ht, fun hnone => ?_⟩
  obtain ⟨order, hseen, hfin⟩ := hfinished hnone
  exact ⟨order, fun x hx => hseen x (by simpa using hx), hfin⟩

/-- The search from every node ends, reports closed paths only, and reports none exactly in an acyclic graph. -/
theorem dfsAll_spec (hclosed : ∀ x ∈ nodes, ∀ y ∈ neighbors x, y ∈ nodes) (hnodes : ∀ x ∉ nodes, neighbors x = []) {fuel : Nat}
    (hfuel : nodes.length ≤ fuel) : ∃ t, dfsAll neighbors fuel nodes {} = some t ∧ (∀ cycle ∈ t.cycles, IsClosedPath neighbors cycle) ∧
      (t.cycles = [] ↔ Acyclic neighbors) := by
  obtain ⟨t, ht⟩ := total_dfsAll hclosed hfuel
  obtain ⟨hextends, hfinished⟩ := extends_dfsAll ht
  obtain ⟨found, hfound, hcycles⟩ := hextends.cycles
  rw [List.nil_append] at hfound
  refine ⟨t, ht, hfound ▸ hcycles, fun hnone node hcycle => ?_, fun hacyclic => ?_⟩
  · obtain ⟨order, hall, hfin⟩ := hfinished hnone
    obtain ⟨next, hedge, -⟩ := Relation.TransGen.head'_iff.mp hcycle
    have hnode : node ∈ nodes := by
      by_contra hout
      rw [Edge, hnodes node hout] at hedge
      cases hedge
    exact hfin.sorted.acyclic node (hall node hnode) hcycle
  · rw [List.eq_nil_iff_forall_not_mem]
    exact fun cycle hmem => not_acyclic_of_isClosedPath (hcycles cycle (hfound ▸ hmem)) hacyclic

end Result

end SplitSdk.DepthFirst
