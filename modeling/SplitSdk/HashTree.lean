import Mathlib.Data.List.Nodup

namespace SplitSdk.HashTree

section Layers

variable {α : Type}

/-- The neighbours in a layer; a last node without a neighbour is paired with itself. -/
def pairs : List α → List (α × α)
  | [] => []
  | [x] => [(x, x)]
  | x :: y :: xs => (x, y) :: pairs xs

theorem pairs_length (xs : List α) : (pairs xs).length = (xs.length + 1) / 2 := by
  induction xs using pairs.induct with
  | case1 => simp [pairs]
  | case2 x => simp [pairs]
  | case3 x y xs ih =>
      simp only [pairs, List.length_cons, ih]
      omega

theorem pairs_getElem? (xs : List α) (j : Nat) (a b : α) (h : (pairs xs)[j]? = some (a, b)) :
    xs[2 * j]? = some a ∧ (xs[2 * j + 1]?).getD a = b := by
  induction xs using pairs.induct generalizing j with
  | case1 => simp [pairs] at h
  | case2 x =>
      obtain rfl : j = 0 := by
        have := (List.getElem?_eq_some_iff.mp h).1
        simpa [pairs] using this
      cases h
      exact ⟨rfl, rfl⟩
  | case3 x y xs ih =>
      cases j with
      | zero =>
          cases h
          exact ⟨rfl, rfl⟩
      | succ j => exact ih j (by simpa [pairs] using h)

variable (node : α → α → α)

def parents (xs : List α) : List α := (pairs xs).map (fun p => node p.1 p.2)

theorem parents_length (xs : List α) : (parents node xs).length = (xs.length + 1) / 2 := by
  rw [parents, List.length_map, pairs_length]

theorem parents_length_lt {xs : List α} (h : 1 < xs.length) :
    (parents node xs).length < xs.length := by
  rw [parents_length]
  omega

/-- All layers, from the leaves to the root. -/
def layers (xs : List α) : List (List α) :=
  if h : 1 < xs.length then
    have := parents_length_lt node h
    xs :: layers (parents node xs)
  else [xs]
termination_by xs.length

theorem layers_of_one_lt {xs : List α} (h : 1 < xs.length) :
    layers node xs = xs :: layers node (parents node xs) := by
  rw [layers, dif_pos h]

theorem layers_of_le_one {xs : List α} (h : xs.length ≤ 1) : layers node xs = [xs] := by
  rw [layers, dif_neg (Nat.not_lt.mpr h)]

theorem layers_ne_nil (xs : List α) : ∃ ys yss, layers node xs = ys :: yss := by
  by_cases h : 1 < xs.length
  · exact ⟨_, _, layers_of_one_lt node h⟩
  · exact ⟨_, _, layers_of_le_one node (Nat.not_lt.mp h)⟩

/-- What holds of a single node, and of a layer when it holds of the layer above it,
holds of every layer. -/
theorem layer_induction {P : List α → Prop} (single : ∀ xs, xs.length ≤ 1 → P xs)
    (layer : ∀ xs, 1 < xs.length → P (parents node xs) → P xs) (xs : List α) : P xs := by
  induction xs using layers.induct node with
  | case1 xs h _ ih => exact layer xs h ih
  | case2 xs h => exact single xs (Nat.not_lt.mp h)

def depth (xs : List α) : Nat := (layers node xs).length - 1

theorem depth_of_le_one {xs : List α} (h : xs.length ≤ 1) : depth node xs = 0 := by
  rw [depth, layers_of_le_one node h]
  rfl

theorem depth_of_one_lt {xs : List α} (h : 1 < xs.length) :
    depth node xs = depth node (parents node xs) + 1 := by
  obtain ⟨ys, yss, hl⟩ := layers_ne_nil node (parents node xs)
  rw [depth, depth, layers_of_one_lt node h, hl]
  rfl

def root (xs : List α) : Option α := ((layers node xs).getLast?).bind List.head?

theorem root_of_le_one {xs : List α} (h : xs.length ≤ 1) : root node xs = xs.head? := by
  rw [root, layers_of_le_one node h]
  rfl

theorem root_of_one_lt {xs : List α} (h : 1 < xs.length) :
    root node xs = root node (parents node xs) := by
  obtain ⟨ys, yss, hl⟩ := layers_ne_nil node (parents node xs)
  rw [root, root, layers_of_one_lt node h, hl, List.getLast?_cons_cons]

/-- The pairs that are combined above the first of some layers. -/
def treePairs : List (List α) → List (α × α)
  | layer :: above :: layers => pairs layer ++ treePairs (above :: layers)
  | _ => []

theorem treePairs_of_one_lt {xs : List α} (h : 1 < xs.length) :
    treePairs (layers node xs) = pairs xs ++ treePairs (layers node (parents node xs)) := by
  obtain ⟨ys, yss, hl⟩ := layers_ne_nil node (parents node xs)
  rw [layers_of_one_lt node h, hl, treePairs]

end Layers

section Climb

variable {α : Type} (node : α → α → α)

/-- A node and its sibling in tree order; `right` says that the node is the right one. -/
def ordered (right : Bool) (x sibling : α) : α × α := if right then (sibling, x) else (x, sibling)

/-- Combine a node with one sibling after another. -/
def climb : α → List (Bool × α) → α
  | x, [] => x
  | x, (right, sibling) :: steps =>
      climb (node (ordered right x sibling).1 (ordered right x sibling).2) steps

def climbPairs : α → List (Bool × α) → List (α × α)
  | _, [] => []
  | x, (right, sibling) :: steps =>
      ordered right x sibling ::
        climbPairs (node (ordered right x sibling).1 (ordered right x sibling).2) steps

theorem climb_append (x : α) (steps steps' : List (Bool × α)) :
    climb node x (steps ++ steps') = climb node (climb node x steps) steps' := by
  induction steps generalizing x with
  | nil => rfl
  | cons step steps ih => exact ih _

theorem climbPairs_append (x : α) (steps steps' : List (Bool × α)) :
    climbPairs node x (steps ++ steps') =
      climbPairs node x steps ++ climbPairs node (climb node x steps) steps' := by
  induction steps generalizing x with
  | nil => rfl
  | cons step steps ih => rw [List.cons_append, climbPairs, climbPairs, ih, List.cons_append, climb]

/-- What holds of a node and of all nodes above others holds of the end of a climb. -/
theorem climb_of_node (P : α → Prop) (hnode : ∀ x y, P (node x y)) {x : α} (hx : P x)
    (steps : List (Bool × α)) : P (climb node x steps) := by
  induction steps generalizing x with
  | nil => exact hx
  | cons step steps ih => exact ih (hnode _ _)

/-- The sides a leaf at position `i` and the nodes above it are on. -/
def sides : Nat → List α → List (Bool × α)
  | _, [] => []
  | i, sibling :: path => (decide (i % 2 = 1), sibling) :: sides (i / 2) path

end Climb

section Opening

variable {α : Type} [Inhabited α] (node : α → α → α)

/-- The node that position `i` of a layer is combined with. -/
def sibling (layer : List α) (i : Nat) : α :=
  (layer[if i % 2 = 1 then i - 1 else i + 1]?).getD ((layer[i]?).getD default)

/-- The siblings from a leaf up to the root. -/
def path : List (List α) → Nat → List α
  | layer :: above :: layers, i => sibling layer i :: path (above :: layers) (i / 2)
  | _, _ => []

theorem path_of_one_lt {xs : List α} (h : 1 < xs.length) (i : Nat) :
    path (layers node xs) i = sibling xs i :: path (layers node (parents node xs)) (i / 2) := by
  obtain ⟨ys, yss, hl⟩ := layers_ne_nil node (parents node xs)
  rw [layers_of_one_lt node h, hl, path]

/-- The node above position `i` combines it with its sibling. -/
theorem parents_getElem? (xs : List α) (i : Nat) (x : α) (h : xs[i]? = some x) :
    (parents node xs)[i / 2]? = some
      (node (ordered (decide (i % 2 = 1)) x (sibling xs i)).1
        (ordered (decide (i % 2 = 1)) x (sibling xs i)).2) := by
  have hi := (List.getElem?_eq_some_iff.mp h).1
  have hlt : i / 2 < (pairs xs).length := by
    rw [pairs_length]
    omega
  obtain ⟨⟨a, b⟩, hp⟩ : ∃ p, (pairs xs)[i / 2]? = some p := ⟨_, List.getElem?_eq_getElem hlt⟩
  obtain ⟨ha, hb⟩ := pairs_getElem? xs (i / 2) a b hp
  have hpair : ordered (decide (i % 2 = 1)) x (sibling xs i) = (a, b) := by
    rw [sibling, ordered]
    by_cases hodd : i % 2 = 1
    · have hidx : 2 * (i / 2) = i - 1 := by omega
      have hnext : 2 * (i / 2) + 1 = i := by omega
      rw [hidx] at ha
      rw [hnext, h, Option.getD_some] at hb
      rw [if_pos hodd, decide_eq_true hodd, if_pos rfl, ha, Option.getD_some, hb]
    · have hidx : 2 * (i / 2) = i := by omega
      rw [hidx, h] at ha
      rw [hidx] at hb
      cases ha
      rw [if_neg hodd, decide_eq_false hodd, if_neg Bool.false_ne_true, h, Option.getD_some, hb]
  rw [parents, List.getElem?_map, hp, Option.map_some, hpair]

/-- Every leaf climbs along its siblings to the root. -/
theorem climb_path (xs : List α) (i : Nat) (x : α) (h : xs[i]? = some x) :
    some (climb node x (sides i (path (layers node xs) i))) = root node xs := by
  induction xs using layer_induction node generalizing i x with
  | single xs hlen =>
      obtain rfl : i = 0 := by
        have := (List.getElem?_eq_some_iff.mp h).1
        omega
      rw [layers_of_le_one node hlen, root_of_le_one node hlen, List.head?_eq_getElem?, h]
      rfl
  | layer xs hlen ih =>
      rw [path_of_one_lt node hlen, root_of_one_lt node hlen, sides, climb]
      exact ih (i / 2) _ (parents_getElem? node xs i x h)

/-- What holds of all nodes holds of the siblings. -/
theorem forall_path (P : α → Prop) (hnode : ∀ x y, P (node x y)) (xs : List α) (i : Nat)
    (hi : i < xs.length) (hxs : ∀ x ∈ xs, P x) : ∀ s ∈ path (layers node xs) i, P s := by
  induction xs using layer_induction node generalizing i with
  | single xs hle =>
      rw [layers_of_le_one node hle]
      intro s hs
      cases hs
  | layer xs hlt ih =>
      rw [path_of_one_lt node hlt]
      intro s hs
      rcases List.mem_cons.mp hs with rfl | hs
      · rw [sibling, List.getElem?_eq_getElem hi, Option.getD_some]
        cases h : xs[if i % 2 = 1 then i - 1 else i + 1]? with
        | none => exact hxs _ (List.getElem_mem hi)
        | some y => exact hxs y (List.mem_of_getElem? h)
      · refine ih (i / 2) ?_ ?_ s hs
        · rw [parents_length]
          omega
        · intro x hx
          obtain ⟨q, _, rfl⟩ := List.mem_map.mp hx
          exact hnode q.1 q.2

end Opening

section Soundness

variable {α : Type} (node : α → α → α)

/-- A climb as high as the tree that reaches its root began at a leaf, and where its
sides are those of a position in the layer, it began at that position. -/
theorem getElem?_of_climb (xs : List α) (x : α) (steps : List (Bool × α))
    (hlen : steps.length = depth node xs)
    (hinj : ∀ p ∈ climbPairs node x steps, ∀ q ∈ treePairs (layers node xs),
      node p.1 p.2 = node q.1 q.2 → p = q)
    (hroot : some (climb node x steps) = root node xs) :
    ∃ i, xs[i]? = some x ∧ ∀ j < xs.length, ∀ path, steps = sides j path → i = j := by
  induction xs using layer_induction node generalizing x steps with
  | single xs hle =>
      rw [depth_of_le_one node hle, List.length_eq_zero_iff] at hlen
      subst hlen
      rw [root_of_le_one node hle, List.head?_eq_getElem?] at hroot
      refine ⟨0, hroot.symm, ?_⟩
      intro j hj _ _
      omega
  | layer xs hlt ih =>
      rw [depth_of_one_lt node hlt] at hlen
      rw [root_of_one_lt node hlt] at hroot
      rw [treePairs_of_one_lt node hlt] at hinj
      obtain ⟨⟨right, s⟩, steps, rfl⟩ := List.exists_cons_of_length_eq_add_one hlen
      rw [climbPairs] at hinj
      obtain ⟨i, hi, hsides⟩ := ih _ steps (Nat.succ.inj hlen)
        (fun p hp q hq => hinj p (List.mem_cons_of_mem _ hp) q (List.mem_append_right _ hq)) hroot
      rw [parents, List.getElem?_map] at hi
      obtain ⟨q, hq, he⟩ := Option.map_eq_some_iff.mp hi
      have hpq := hinj _ List.mem_cons_self q (List.mem_append_left _ (List.mem_of_getElem? hq)) he.symm
      obtain ⟨ha, hb⟩ := pairs_getElem? xs i q.1 q.2 hq
      have hstep : ∀ j < xs.length, ∀ path, (right, s) :: steps = sides j path →
          right = decide (j % 2 = 1) ∧ i = j / 2 := by
        intro j hj path hpath
        cases path with
        | nil => cases hpath
        | cons t path =>
            obtain ⟨hhead, htail⟩ := List.cons.inj hpath
            refine ⟨congrArg Prod.fst hhead, hsides (j / 2) ?_ path htail⟩
            rw [parents_length]
            omega
      cases right with
      | false =>
          obtain rfl : x = q.1 := congrArg Prod.fst hpq
          refine ⟨2 * i, ha, ?_⟩
          intro j hj path hpath
          obtain ⟨hside, rfl⟩ := hstep j hj path hpath
          have := of_decide_eq_false hside.symm
          omega
      | true =>
          obtain rfl : x = q.2 := congrArg Prod.snd hpq
          cases hlast : xs[2 * i + 1]? with
          | some b =>
              rw [hlast, Option.getD_some] at hb
              refine ⟨2 * i + 1, by rw [hlast, hb], ?_⟩
              intro j hj path hpath
              obtain ⟨hside, rfl⟩ := hstep j hj path hpath
              have := of_decide_eq_true hside.symm
              omega
          | none =>
              rw [hlast, Option.getD_none] at hb
              refine ⟨2 * i, by rw [ha, hb], ?_⟩
              intro j hj path hpath
              obtain ⟨hside, rfl⟩ := hstep j hj path hpath
              have := of_decide_eq_true hside.symm
              have := List.getElem?_eq_none_iff.mp hlast
              omega

/-- A layer that a climb of `k` steps to the root begins in: the leaves, or nodes above others. -/
theorem exists_layer (xs : List α) (k : Nat) (hk : k ≤ depth node xs) :
    ∃ ys, depth node ys = k ∧ root node ys = root node xs ∧
      treePairs (layers node ys) ⊆ treePairs (layers node xs) ∧
      ((k = depth node xs ∧ ys = xs) ∨ (k < depth node xs ∧
        ∀ y ∈ ys, ∃ p ∈ treePairs (layers node xs), y = node p.1 p.2)) := by
  induction xs using layer_induction node with
  | single xs hle =>
      rw [depth_of_le_one node hle] at hk ⊢
      obtain rfl := Nat.le_zero.mp hk
      exact ⟨xs, depth_of_le_one node hle, rfl, fun _ h => h, .inl ⟨rfl, rfl⟩⟩
  | layer xs hlt ih =>
      rcases Nat.eq_or_lt_of_le hk with rfl | hk
      · exact ⟨xs, rfl, rfl, fun _ h => h, .inl ⟨rfl, rfl⟩⟩
      · rw [depth_of_one_lt node hlt] at hk
        obtain ⟨ys, hdepth, hroot, hsub, hys⟩ := ih (Nat.le_of_lt_succ hk)
        rw [root_of_one_lt node hlt, treePairs_of_one_lt node hlt]
        rw [depth_of_one_lt node hlt]
        refine ⟨ys, hdepth, hroot, fun _ h => List.mem_append_right _ (hsub h), .inr ⟨hk, ?_⟩⟩
        intro y hy
        rcases hys with ⟨_, rfl⟩ | ⟨_, hys⟩
        · obtain ⟨p, hp, rfl⟩ := List.mem_map.mp hy
          exact ⟨p, List.mem_append_left _ hp, rfl⟩
        · obtain ⟨p, hp, rfl⟩ := hys y hy
          exact ⟨p, List.mem_append_right _ hp, rfl⟩

/-- What holds of the leaves and of all nodes above others holds of both nodes of every pair. -/
theorem forall_treePairs (P : α → Prop) (hnode : ∀ x y, P (node x y)) (xs : List α)
    (hxs : ∀ x ∈ xs, P x) : ∀ p ∈ treePairs (layers node xs), P p.1 ∧ P p.2 := by
  induction xs using layer_induction node with
  | single xs hle =>
      rw [layers_of_le_one node hle]
      intro p hp
      cases hp
  | layer xs hlt ih =>
      rw [treePairs_of_one_lt node hlt]
      intro p hp
      rcases List.mem_append.mp hp with hp | hp
      · obtain ⟨j, hj⟩ := List.mem_iff_getElem?.mp hp
        obtain ⟨ha, hb⟩ := pairs_getElem? xs j p.1 p.2 hj
        refine ⟨hxs _ (List.mem_of_getElem? ha), ?_⟩
        cases h : xs[2 * j + 1]? with
        | none =>
            rw [h, Option.getD_none] at hb
            exact hb ▸ hxs _ (List.mem_of_getElem? ha)
        | some b =>
            rw [h, Option.getD_some] at hb
            exact hb ▸ hxs _ (List.mem_of_getElem? h)
      · refine ih ?_ p hp
        intro x hx
        obtain ⟨q, _, rfl⟩ := List.mem_map.mp hx
        exact hnode q.1 q.2

/-- One node of every pair combined in a climb is the one climbed from. -/
theorem forall_climbPairs (P : α → Prop) (hnode : ∀ x y, P (node x y)) {x : α} (hx : P x)
    (steps : List (Bool × α)) : ∀ p ∈ climbPairs node x steps, P p.1 ∨ P p.2 := by
  induction steps generalizing x with
  | nil =>
      intro p hp
      cases hp
  | cons step steps ih =>
      obtain ⟨right, sibling⟩ := step
      intro p hp
      rcases List.mem_cons.mp hp with rfl | hp
      · cases right
        · exact .inl hx
        · exact .inr hx
      · exact ih (hnode _ _) p hp

end Soundness

section Injectivity

variable {α : Type} {node : α → α → α}

theorem pairs_members (xs : List α) : ∀ p ∈ pairs xs, p.1 ∈ xs ∧ p.2 ∈ xs := by
  induction xs using pairs.induct with
  | case1 => nofun
  | case2 x => simp [pairs]
  | case3 x y xs ih =>
      intro p hp
      rcases List.mem_cons.mp hp with rfl | hp
      · simp
      · have := ih p hp
        simp [this.1, this.2]

theorem pairs_nodup {xs : List α} (h : xs.Nodup) : (pairs xs).Nodup := by
  induction xs using pairs.induct with
  | case1 => exact List.nodup_nil
  | case2 x => exact List.nodup_singleton _
  | case3 x y xs ih =>
      have hx := (List.nodup_cons.mp h).1
      refine List.nodup_cons.mpr ⟨?_, ih (List.nodup_cons.mp (List.nodup_cons.mp h).2).2⟩
      exact fun hp => hx (List.mem_cons_of_mem y (pairs_members xs _ hp).1)

/-- A layer without repetitions has a last node that is paired with itself only where it has no neighbour. -/
theorem pairs_inj {xs ys : List α} (hx : xs.Nodup) (hy : ys.Nodup) (h : pairs xs = pairs ys) : xs = ys := by
  have hdouble {x y : α} {xs : List α} (h : (x :: y :: xs).Nodup) : x ≠ y :=
    fun he => (List.nodup_cons.mp h).1 (he ▸ List.mem_cons_self)
  induction xs using pairs.induct generalizing ys with
  | case1 =>
      cases ys using pairs.fun_cases with
      | case1 => rfl
      | case2 | case3 => cases h
  | case2 x =>
      cases ys using pairs.fun_cases with
      | case1 => cases h
      | case2 y =>
          cases h
          rfl
      | case3 a b ys =>
          simp only [pairs, List.cons.injEq, Prod.mk.injEq] at h
          exact absurd (h.1.1.symm.trans h.1.2) (hdouble hy)
  | case3 x y xs ih =>
      cases ys using pairs.fun_cases with
      | case1 => cases h
      | case2 z =>
          simp only [pairs, List.cons.injEq, Prod.mk.injEq] at h
          exact absurd (h.1.1.trans h.1.2.symm) (hdouble hx)
      | case3 a b ys =>
          rw [pairs, pairs, List.cons.injEq, Prod.mk.injEq] at h
          obtain ⟨⟨rfl, rfl⟩, h⟩ := h
          rw [ih hx.of_cons.of_cons hy.of_cons.of_cons h]

/-- Both nodes of every pair are leaves or nodes above others. -/
theorem treePairs_members (xs : List α) : ∀ p ∈ treePairs (layers node xs), p.1 ∈ xs ∨
    ∃ q ∈ treePairs (layers node xs), p.1 = node q.1 q.2 := by
  induction xs using layer_induction node with
  | single xs hle =>
      rw [layers_of_le_one node hle]
      nofun
  | layer xs hlt ih =>
      rw [treePairs_of_one_lt node hlt]
      intro p hp
      rcases List.mem_append.mp hp with hp | hp
      · exact .inl (pairs_members xs p hp).1
      · right
        rcases ih p hp with hleaf | ⟨q, hq, heq⟩
        · obtain ⟨q, hq, heq⟩ := List.mem_map.mp hleaf
          exact ⟨q, List.mem_append_left _ hq, heq.symm⟩
        · exact ⟨q, List.mem_append_right _ hq, heq⟩

variable (node) in
theorem root_eq_node {xs : List α} (h : 1 < xs.length) :
    ∃ q ∈ treePairs (layers node xs), root node xs = some (node q.1 q.2) := by
  induction xs using layer_induction node with
  | single xs hle => omega
  | layer xs hlt ih =>
      rw [treePairs_of_one_lt node hlt, root_of_one_lt node hlt]
      by_cases hparents : 1 < (parents node xs).length
      · obtain ⟨q, hq, hroot⟩ := ih hparents
        exact ⟨q, List.mem_append_right _ hq, hroot⟩
      · rw [root_of_le_one node (Nat.not_lt.mp hparents), parents]
        cases hpairs : pairs xs with
        | nil =>
            have := pairs_length xs
            rw [hpairs, List.length_nil] at this
            omega
        | cons q qs => exact ⟨q, List.mem_append_left _ List.mem_cons_self, rfl⟩

/-- The pairs that are combined in two trees. -/
def bothPairs (node : α → α → α) (xs ys : List α) : List (α × α) :=
  treePairs (layers node xs) ++ treePairs (layers node ys)

theorem map_inj_of_injOn {β γ : Type} {f : β → γ} {ps qs : List β}
    (hinj : ∀ p ∈ ps, ∀ q ∈ qs, f p = f q → p = q) (h : ps.map f = qs.map f) : ps = qs := by
  induction ps generalizing qs with
  | nil => exact (List.map_eq_nil_iff.mp h.symm).symm
  | cons p ps ih =>
      cases qs with
      | nil => cases h
      | cons q qs =>
          rw [List.map_cons, List.map_cons, List.cons.injEq] at h
          rw [hinj p List.mem_cons_self q List.mem_cons_self h.1,
            ih (fun p hp q hq => hinj p (List.mem_cons_of_mem _ hp) q (List.mem_cons_of_mem _ hq)) h.2]

variable (node) in
/-- Two trees with one root have the same leaves, also when they are not of one height: no leaf occurs twice in a tree, no leaf is a
node above others, and different pairs have different nodes above them. -/
theorem root_inj (xs ys : List α) (hx : xs.Nodup) (hy : ys.Nodup)
    (hinj : ∀ p ∈ bothPairs node xs ys, ∀ q ∈ bothPairs node xs ys, node p.1 p.2 = node q.1 q.2 → p = q)
    (hleaf : ∀ x ∈ xs ++ ys, ∀ q ∈ bothPairs node xs ys, x ≠ node q.1 q.2)
    (h : root node xs = root node ys) : xs = ys := by
  induction xs using layer_induction node generalizing ys with
  | single xs hle =>
      rw [root_of_le_one node hle] at h
      by_cases hys : 1 < ys.length
      · obtain ⟨q, hq, hroot⟩ := root_eq_node node hys
        have hmem := List.mem_of_mem_head? (h.trans hroot)
        exact absurd rfl (hleaf _ (List.mem_append_left _ hmem) q (List.mem_append_right _ hq))
      · rw [root_of_le_one node (Nat.not_lt.mp hys)] at h
        cases xs with
        | nil => exact (List.head?_eq_none_iff.mp h.symm).symm
        | cons x xs =>
            cases ys with
            | nil => cases h
            | cons y ys =>
                obtain rfl : xs = [] := List.length_eq_zero_iff.mp (by simpa using hle)
                obtain rfl : ys = [] := List.length_eq_zero_iff.mp (by simpa using hys)
                cases h
                rfl
  | layer xs hlt ih =>
      by_cases hys : 1 < ys.length
      · have hsub : pairs xs ++ pairs ys ++ bothPairs node (parents node xs) (parents node ys) ⊆
            bothPairs node xs ys := by
          unfold bothPairs
          rw [treePairs_of_one_lt node hlt, treePairs_of_one_lt node hys]
          intro p hp
          simp only [List.mem_append] at hp ⊢
          tauto
        have hpairs {p : α × α} (hp : p ∈ pairs xs ++ pairs ys) : p ∈ bothPairs node xs ys :=
          hsub (List.mem_append_left _ hp)
        have habove {p : α × α} (hp : p ∈ bothPairs node (parents node xs) (parents node ys)) :
            p ∈ bothPairs node xs ys := hsub (List.mem_append_right _ hp)
        have hpx {p : α × α} (hp : p ∈ pairs xs) := hpairs (List.mem_append_left (pairs ys) hp)
        have hpy {p : α × α} (hp : p ∈ pairs ys) := hpairs (List.mem_append_right (pairs xs) hp)
        rw [root_of_one_lt node hlt, root_of_one_lt node hys] at h
        have hparents : parents node xs = parents node ys := by
          refine ih (parents node ys) ?_ ?_ ?_ ?_ h
          · exact (pairs_nodup hx).map_on (fun p hp q hq => hinj p (hpx hp) q (hpx hq))
          · exact (pairs_nodup hy).map_on (fun p hp q hq => hinj p (hpy hp) q (hpy hq))
          · exact fun p hp q hq => hinj p (habove hp) q (habove hq)
          · -- a pair of leaves is not a pair of nodes above others
            intro x hmem q hq heq
            obtain ⟨p, hp, rfl⟩ : ∃ p ∈ pairs xs ++ pairs ys, node p.1 p.2 = x := by
              rw [parents, parents, ← List.map_append] at hmem
              exact List.mem_map.mp hmem
            obtain rfl := hinj p (hpairs hp) q (habove hq) heq
            have hfirst : p.1 ∈ xs ++ ys := by
              rcases List.mem_append.mp hp with hp | hp
              · exact List.mem_append_left _ (pairs_members xs p hp).1
              · exact List.mem_append_right _ (pairs_members ys p hp).1
            have hnode : ∃ r ∈ bothPairs node xs ys, p.1 = node r.1 r.2 := by
              rcases List.mem_append.mp hq with hq | hq
              · rcases treePairs_members (parents node xs) p hq with hlayer | ⟨r, hr, heq⟩
                · obtain ⟨r, hr, heq⟩ := List.mem_map.mp hlayer
                  exact ⟨r, hpx hr, heq.symm⟩
                · exact ⟨r, habove (List.mem_append_left _ hr), heq⟩
              · rcases treePairs_members (parents node ys) p hq with hlayer | ⟨r, hr, heq⟩
                · obtain ⟨r, hr, heq⟩ := List.mem_map.mp hlayer
                  exact ⟨r, hpy hr, heq.symm⟩
                · exact ⟨r, habove (List.mem_append_right _ hr), heq⟩
            obtain ⟨r, hr, hrnode⟩ := hnode
            exact hleaf p.1 hfirst r hr hrnode
        refine pairs_inj hx hy (map_inj_of_injOn ?_ hparents)
        exact fun p hp q hq => hinj p (hpx hp) q (hpy hq)
      · rw [root_of_le_one node (Nat.not_lt.mp hys)] at h
        obtain ⟨q, hq, hroot⟩ := root_eq_node node hlt
        have hmem := List.mem_of_mem_head? (h.symm.trans hroot)
        exact absurd rfl (hleaf _ (List.mem_append_right _ hmem) q (List.mem_append_left _ hq))

end Injectivity

end SplitSdk.HashTree
