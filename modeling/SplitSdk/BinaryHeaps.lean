import Mathlib.Data.List.Perm.Basic
import Mathlib.Order.WithBot

namespace SplitSdk.BinaryHeaps

section Operations

variable {α : Type} (before : α → α → Bool)

def parent (i : Nat) : Nat := (i - 1) / 2

def swap (xs : List α) (i j : Nat) : List α :=
  if h : i < xs.length ∧ j < xs.length then (xs.set i (xs.get ⟨j, h.2⟩)).set j (xs.get ⟨i, h.1⟩) else xs

/-- Both places are taken, and the first comes before the second. -/
def less (xs : List α) (i j : Nat) : Bool := xs[i]?.any (fun a => xs[j]?.any (fun b => before a b))

def siftUp (xs : List α) (i : Nat) : List α :=
  if _ : i = 0 then xs
  else if less before xs i (parent i) then siftUp (swap xs i (parent i)) (parent i)
  else xs
  termination_by i
  decreasing_by unfold parent; omega

def push (xs : List α) (x : α) : List α := siftUp before (xs ++ [x]) xs.length

/-- The child, if it is there and comes before the place. -/
def pick (xs : List α) (child place : Nat) : Nat :=
  if child < xs.length && less before xs child place then child else place

def smallest (xs : List α) (i : Nat) : Nat := pick before xs (2 * i + 2) (pick before xs (2 * i + 1) i)

theorem pick_cases (xs : List α) (child place : Nat) :
    pick before xs child place = place ∨ pick before xs child place = child ∧ child < xs.length ∧ less before xs child place := by
  unfold pick
  split_ifs with h
  · rw [Bool.and_eq_true, decide_eq_true_iff] at h
    exact .inr ⟨rfl, h⟩
  · exact .inl rfl

theorem smallest_cases (xs : List α) (i : Nat) :
    smallest before xs i = i ∨ i < smallest before xs i ∧ smallest before xs i < xs.length := by
  unfold smallest
  rcases pick_cases before xs (2 * i + 2) (pick before xs (2 * i + 1) i) with h | ⟨h, hlt, -⟩
  · rw [h]
    rcases pick_cases before xs (2 * i + 1) i with h' | ⟨h', hlt, -⟩
    · exact .inl h'
    · exact .inr ⟨by omega, by omega⟩
  · exact .inr ⟨by omega, by omega⟩

theorem length_swap (xs : List α) (i j : Nat) : (swap xs i j).length = xs.length := by
  unfold swap
  split_ifs
  · rw [List.length_set, List.length_set]
  · rfl

def siftDown (xs : List α) (i : Nat) : List α :=
  if _ : smallest before xs i = i then xs
  else siftDown (swap xs i (smallest before xs i)) (smallest before xs i)
  termination_by xs.length - i
  decreasing_by
    rw [length_swap]
    have := smallest_cases before xs i
    omega

def pop : List α → Option (α × List α)
  | [] => none
  | first :: rest =>
      let last := rest.getLastD first
      let heap := (first :: rest).dropLast
      some (first, if 0 < heap.length then siftDown before (heap.set 0 last) 0 else heap)

end Operations

section Orders

variable {κ : Type} [LinearOrder κ] {f g : Nat → κ} {i : Nat}

/-- No place comes before its parent. -/
def Heap (f : Nat → κ) : Prop := ∀ j, 0 < j → f (parent j) ≤ f j

/-- Only the place may come before its parent; the grandparent is before its children. -/
structure Rising (f : Nat → κ) (i : Nat) : Prop where
  rest : ∀ j, 0 < j → j ≠ i → f (parent j) ≤ f j
  above : ∀ j, 0 < j → parent j = i → 0 < i → f (parent i) ≤ f j

/-- Only the children of the place may come before it. -/
structure Sinking (f : Nat → κ) (i : Nat) : Prop where
  rest : ∀ j, 0 < j → parent j ≠ i → f (parent j) ≤ f j
  above : ∀ j, 0 < j → parent j = i → 0 < i → f (parent i) ≤ f j

/-- The two entries have changed places. -/
structure Swapped (f g : Nat → κ) (i j : Nat) : Prop where
  left : g i = f j
  right : g j = f i
  others : ∀ k, k ≠ i → k ≠ j → g k = f k

theorem parent_lt (h : 0 < i) : parent i < i := by
  unfold parent
  omega

theorem parent_eq_iff {j : Nat} (h : 0 < j) : parent j = i ↔ j = 2 * i + 1 ∨ j = 2 * i + 2 := by
  unfold parent
  omega

theorem Heap.root_le (h : Heap f) (i : Nat) : f 0 ≤ f i := by
  induction i using Nat.strong_induction_on with
  | _ i ih =>
      rcases Nat.eq_zero_or_pos i with rfl | hi
      · exact le_rfl
      · exact (ih (parent i) (parent_lt hi)).trans (h i hi)

theorem Rising.heap (h : Rising f i) (hi : 0 < i → f (parent i) ≤ f i) : Heap f := by
  intro j hj
  rcases eq_or_ne j i with rfl | hne
  · exact hi hj
  · exact h.rest j hj hne

theorem Rising.swap (h : Rising f i) (hi : 0 < i) (hless : f i < f (parent i)) (hswap : Swapped f g i (parent i)) :
    Rising g (parent i) := by
  have hp := parent_lt hi
  have hparent : 0 < parent i → f (parent (parent i)) ≤ f (parent i) := fun hpos => h.rest _ hpos hp.ne
  constructor
  · intro j hj hne
    rcases eq_or_ne j i with rfl | hji
    · rw [hswap.left, hswap.right]
      exact hless.le
    · rw [hswap.others j hji hne]
      rcases eq_or_ne (parent j) i with hji' | hji'
      · rw [hji', hswap.left]
        exact h.above j hj hji' hi
      · rcases eq_or_ne (parent j) (parent i) with hsibling | hsibling
        · rw [hsibling, hswap.right]
          exact hless.le.trans (hsibling ▸ h.rest j hj hji)
        · rw [hswap.others _ hji' hsibling]
          exact h.rest j hj hji
  · intro j hj hjp hpos
    have hgrand : g (parent (parent i)) = f (parent (parent i)) :=
      hswap.others _ ((parent_lt hpos).trans hp).ne (parent_lt hpos).ne
    rw [hgrand]
    rcases eq_or_ne j i with rfl | hji
    · rw [hswap.left]
      exact hparent hpos
    · have hjne : j ≠ parent i := by
        rintro rfl
        exact (parent_lt hpos).ne hjp
      rw [hswap.others j hji hjne]
      exact (hparent hpos).trans (hjp ▸ h.rest j hj hji)

theorem Sinking.heap (h : Sinking f i) (hi : ∀ j, 0 < j → parent j = i → f i ≤ f j) : Heap f := by
  intro j hj
  rcases eq_or_ne (parent j) i with hji | hji
  · rw [hji]
    exact hi j hj hji
  · exact h.rest j hj hji

theorem Sinking.swap (h : Sinking f i) {s : Nat} (hs : 0 < s) (hsi : parent s = i) (hless : f s < f i)
    (hleast : ∀ j, 0 < j → parent j = i → f s ≤ f j) (hswap : Swapped f g i s) : Sinking g s := by
  have hlt : i < s := hsi ▸ parent_lt hs
  constructor
  · intro j hj hjs
    rcases eq_or_ne j s with rfl | hne
    · rw [hsi, hswap.left, hswap.right]
      exact hless.le
    · rcases eq_or_ne j i with rfl | hji
      · have hp := parent_lt hj
        rw [hswap.left, hswap.others _ hp.ne (hp.trans hlt).ne]
        exact h.above s hs hsi hj
      · rw [hswap.others j hji hne]
        rcases eq_or_ne (parent j) i with hji' | hji'
        · rw [hji', hswap.left]
          exact hleast j hj hji'
        · rw [hswap.others _ hji' hjs]
          exact h.rest j hj hji'
  · intro j hj hjs _
    have hsj : s < j := hjs ▸ parent_lt hj
    rw [hsi, hswap.left, hswap.others j (hlt.trans hsj).ne' hsj.ne', ← hjs]
    refine h.rest j hj ?_
    rw [hjs]
    exact hlt.ne'

end Orders

section Keys

variable {α κ : Type} [LinearOrder κ] {before : α → α → Bool} (key : α → κ) {xs : List α}

/-- The key at a place, and more than all keys behind the last place. -/
def keyAt (xs : List α) (i : Nat) : WithTop κ := xs[i]?.map key

def Ordered (xs : List α) : Prop := Heap (keyAt key xs)

omit [LinearOrder κ] in
theorem keyAt_of_lt {i : Nat} (h : i < xs.length) : keyAt key xs i = (key xs[i] : WithTop κ) := by
  rw [keyAt, List.getElem?_eq_getElem h]
  rfl

omit [LinearOrder κ] in
theorem keyAt_of_ge {i : Nat} (h : xs.length ≤ i) : keyAt key xs i = ⊤ := by
  rw [keyAt, List.getElem?_eq_none h]
  rfl

theorem less_iff (hbefore : ∀ a b, before a b ↔ key a < key b) {i j : Nat} (hi : i < xs.length) (hj : j < xs.length) :
    less before xs i j ↔ keyAt key xs i < keyAt key xs j := by
  rw [less, keyAt_of_lt key hi, keyAt_of_lt key hj, List.getElem?_eq_getElem hi, List.getElem?_eq_getElem hj,
    WithTop.coe_lt_coe, ← hbefore]
  rfl

theorem swap_perm (xs : List α) (i j : Nat) : (swap xs i j).Perm xs := by
  unfold swap
  split_ifs with h
  · exact List.set_set_perm h.1 h.2
  · exact List.Perm.refl xs

omit [LinearOrder κ] in
theorem swapped {i j : Nat} (hi : i < xs.length) (hj : j < xs.length) :
    Swapped (keyAt key xs) (keyAt key (swap xs i j)) i j := by
  have hswap : swap xs i j = (xs.set i xs[j]).set j xs[i] := dif_pos ⟨hi, hj⟩
  have hj' : j < (xs.set i xs[j]).length := by rwa [List.length_set]
  rw [hswap]
  constructor
  · rcases eq_or_ne i j with rfl | hne
    · rw [keyAt, List.getElem?_set_self hj', keyAt_of_lt key hi]
      rfl
    · rw [keyAt, List.getElem?_set_ne hne.symm, List.getElem?_set_self hi, keyAt_of_lt key hj]
      rfl
  · rw [keyAt, List.getElem?_set_self hj', keyAt_of_lt key hi]
    rfl
  · intro k hki hkj
    rw [keyAt, keyAt, List.getElem?_set_ne hkj.symm, List.getElem?_set_ne hki.symm]

end Keys

section Sifting

variable {α κ : Type} [LinearOrder κ] {before : α → α → Bool} {key : α → κ}

theorem siftUp_perm (before : α → α → Bool) (xs : List α) (i : Nat) : (siftUp before xs i).Perm xs := by
  induction xs, i using siftUp.induct before with
  | case1 xs => rw [siftUp, dif_pos rfl]
  | case2 xs i hi hless ih =>
      rw [siftUp, dif_neg hi, if_pos hless]
      exact ih.trans (swap_perm xs i _)
  | case3 xs i hi hless => rw [siftUp, dif_neg hi, if_neg hless]

theorem siftUp_ordered (hbefore : ∀ a b, before a b ↔ key a < key b) {xs : List α} {i : Nat} (hlt : i < xs.length)
    (h : Rising (keyAt key xs) i) : Ordered key (siftUp before xs i) := by
  induction xs, i using siftUp.induct before with
  | case1 xs =>
      rw [siftUp, dif_pos rfl]
      exact h.heap (fun hpos => absurd hpos (lt_irrefl 0))
  | case2 xs i hi hless ih =>
      have hpos := Nat.pos_of_ne_zero hi
      have hp := (parent_lt hpos).trans hlt
      rw [siftUp, dif_neg hi, if_pos hless]
      refine ih (by rwa [length_swap]) (h.swap hpos ?_ (swapped key hlt hp))
      exact (less_iff key hbefore hlt hp).mp hless
  | case3 xs i hi hless =>
      have hp := (parent_lt (Nat.pos_of_ne_zero hi)).trans hlt
      rw [siftUp, dif_neg hi, if_neg hless]
      exact h.heap (fun _ => not_lt.mp (mt (less_iff key hbefore hlt hp).mpr hless))

theorem siftDown_perm (before : α → α → Bool) (xs : List α) (i : Nat) : (siftDown before xs i).Perm xs := by
  induction xs, i using siftDown.induct before with
  | case1 xs i h => rw [siftDown, dif_pos h]
  | case2 xs i h ih =>
      rw [siftDown, dif_neg h]
      exact ih.trans (swap_perm xs i _)

theorem pick_le (hbefore : ∀ a b, before a b ↔ key a < key b) {xs : List α} (child : Nat) {place : Nat} (hlt : place < xs.length) :
    keyAt key xs (pick before xs child place) ≤ keyAt key xs place ∧
      keyAt key xs (pick before xs child place) ≤ keyAt key xs child := by
  rcases lt_or_ge child xs.length with hchild | hchild
  · unfold pick
    rw [decide_eq_true hchild, Bool.true_and]
    split_ifs with hless
    · exact ⟨((less_iff key hbefore hchild hlt).mp hless).le, le_rfl⟩
    · exact ⟨le_rfl, not_lt.mp (mt (less_iff key hbefore hchild hlt).mpr hless)⟩
  · have hpick : pick before xs child place = place := by
      rw [pick, decide_eq_false (Nat.not_lt.mpr hchild)]
      rfl
    rw [hpick, keyAt_of_ge key hchild]
    exact ⟨le_rfl, le_top⟩

/-- The smallest of a place and its children. -/
theorem smallest_le (hbefore : ∀ a b, before a b ↔ key a < key b) {xs : List α} {i : Nat} (hlt : i < xs.length) :
    keyAt key xs (smallest before xs i) ≤ keyAt key xs i ∧
      ∀ j, 0 < j → parent j = i → keyAt key xs (smallest before xs i) ≤ keyAt key xs j := by
  have hleft : pick before xs (2 * i + 1) i < xs.length := by
    rcases pick_cases before xs (2 * i + 1) i with h | ⟨h, hchild, -⟩
    · rwa [h]
    · rwa [h]
  obtain ⟨hplace, hchild⟩ := pick_le hbefore (2 * i + 1) hlt
  obtain ⟨hplace', hchild'⟩ := pick_le hbefore (2 * i + 2) hleft
  refine ⟨hplace'.trans hplace, fun j hj hji => ?_⟩
  rcases (parent_eq_iff hj).mp hji with rfl | rfl
  · exact hplace'.trans hchild
  · exact hchild'

theorem smallest_lt (hbefore : ∀ a b, before a b ↔ key a < key b) {xs : List α} {i : Nat} (hlt : i < xs.length)
    (hne : smallest before xs i ≠ i) :
    parent (smallest before xs i) = i ∧ keyAt key xs (smallest before xs i) < keyAt key xs i := by
  obtain ⟨hplace, -⟩ := pick_le hbefore (2 * i + 1) hlt
  unfold smallest at hne ⊢
  rcases pick_cases before xs (2 * i + 1) i with h | ⟨h, hchild, hless⟩
  · rw [h] at hne ⊢
    rcases pick_cases before xs (2 * i + 2) i with h' | ⟨h', hchild', hless'⟩
    · exact absurd h' hne
    · rw [h']
      exact ⟨by unfold parent; omega, (less_iff key hbefore hchild' hlt).mp hless'⟩
  · rw [h] at hne ⊢
    have hleft := (less_iff key hbefore hchild hlt).mp hless
    rcases pick_cases before xs (2 * i + 2) (2 * i + 1) with h' | ⟨h', hchild', hless'⟩
    · rw [h']
      exact ⟨by unfold parent; omega, hleft⟩
    · rw [h']
      exact ⟨by unfold parent; omega, ((less_iff key hbefore hchild' hchild).mp hless').trans hleft⟩

theorem siftDown_ordered (hbefore : ∀ a b, before a b ↔ key a < key b) {xs : List α} {i : Nat} (hlt : i < xs.length)
    (h : Sinking (keyAt key xs) i) : Ordered key (siftDown before xs i) := by
  induction xs, i using siftDown.induct before with
  | case1 xs i hsmallest =>
      obtain ⟨-, hchildren⟩ := smallest_le hbefore hlt
      rw [hsmallest] at hchildren
      rw [siftDown, dif_pos hsmallest]
      exact h.heap hchildren
  | case2 xs i hsmallest ih =>
      obtain ⟨hparent, hless⟩ := smallest_lt hbefore hlt hsmallest
      have hbounds : i < smallest before xs i ∧ smallest before xs i < xs.length :=
        (smallest_cases before xs i).resolve_left hsmallest
      rw [siftDown, dif_neg hsmallest]
      refine ih (by rw [length_swap]; exact hbounds.2) ?_
      exact h.swap (Nat.zero_lt_of_lt hbounds.1) hparent hless (smallest_le hbefore hlt).2
        (swapped key hlt hbounds.2)

end Sifting

section Queue

variable {α κ : Type} [LinearOrder κ] {before : α → α → Bool} {key : α → κ} {xs ys : List α} {x : α}

theorem ordered_nil : Ordered key ([] : List α) := fun _ _ => le_top

theorem push_perm (before : α → α → Bool) (xs : List α) (x : α) : (push before xs x).Perm (x :: xs) :=
  (siftUp_perm before _ _).trans (List.perm_append_singleton x xs)

theorem push_ordered (hbefore : ∀ a b, before a b ↔ key a < key b) (h : Ordered key xs) (x : α) :
    Ordered key (push before xs x) := by
  refine siftUp_ordered hbefore (by simp) ?_
  have hold : ∀ j, j < xs.length → keyAt key (xs ++ [x]) j = keyAt key xs j := by
    intro j hj
    rw [keyAt, keyAt, List.getElem?_append_left hj]
  constructor
  · intro j hj hne
    rcases lt_or_ge j xs.length with hlt | hge
    · rw [hold j hlt, hold _ ((parent_lt hj).trans hlt)]
      exact h j hj
    · have hbehind : (xs ++ [x]).length ≤ j := by
        rw [List.length_append, List.length_singleton]
        omega
      rw [keyAt_of_ge key hbehind]
      exact le_top
  · intro j hj hparent _
    have hbehind : (xs ++ [x]).length ≤ j := by
      have hlt := parent_lt hj
      rw [List.length_append, List.length_singleton]
      omega
    rw [keyAt_of_ge key hbehind]
    exact le_top

theorem pop_concat (before : α → α → Bool) (first last : α) (middle : List α) :
    pop before (first :: (middle ++ [last])) = some (first, siftDown before (last :: middle) 0) := by
  have hlast : (middle ++ [last]).getLastD first = last := by
    rw [List.getLastD_eq_getLast?, List.getLast?_append, List.getLast?_singleton]
    rfl
  have hdrop : (first :: (middle ++ [last])).dropLast = first :: middle := by
    rw [← List.cons_append, List.dropLast_concat]
  rw [pop, hlast, hdrop]
  rfl

/-- There is nothing but the first element, or a last one takes its place. -/
theorem pop_cases (h : pop before xs = some (x, ys)) :
    xs = [x] ∧ ys = [] ∨ ∃ middle last, xs = x :: (middle ++ [last]) ∧ ys = siftDown before (last :: middle) 0 := by
  cases xs with
  | nil => cases h
  | cons first rest =>
      cases hlast : rest.getLast? with
      | none =>
          rw [List.getLast?_eq_none_iff] at hlast
          subst hlast
          cases h
          exact .inl ⟨rfl, rfl⟩
      | some last =>
          obtain ⟨middle, rfl⟩ := List.getLast?_eq_some_iff.mp hlast
          rw [pop_concat] at h
          cases h
          exact .inr ⟨middle, last, rfl, rfl⟩

theorem pop_perm (h : pop before xs = some (x, ys)) : (x :: ys).Perm xs := by
  rcases pop_cases h with ⟨rfl, rfl⟩ | ⟨middle, last, rfl, rfl⟩
  · exact List.Perm.refl _
  · refine List.Perm.cons x ((siftDown_perm before _ 0).trans ?_)
    exact (List.perm_append_singleton last middle).symm

theorem pop_ordered (hbefore : ∀ a b, before a b ↔ key a < key b) (h : Ordered key xs)
    (hpop : pop before xs = some (x, ys)) : Ordered key ys := by
  rcases pop_cases hpop with ⟨rfl, rfl⟩ | ⟨middle, last, rfl, rfl⟩
  · exact ordered_nil
  · refine siftDown_ordered hbefore (Nat.succ_pos _) ?_
    have hold : ∀ j, 0 < j → j < (last :: middle).length →
        keyAt key (last :: middle) j = keyAt key (x :: (middle ++ [last])) j := by
      intro j hj hlt
      obtain ⟨k, rfl⟩ := Nat.exists_eq_succ_of_ne_zero hj.ne'
      have hk : k < middle.length := Nat.succ_lt_succ_iff.mp hlt
      rw [keyAt, keyAt, List.getElem?_cons_succ, List.getElem?_cons_succ, List.getElem?_append_left hk]
    constructor
    · intro j hj hne
      rcases lt_or_ge j (last :: middle).length with hlt | hge
      · rw [hold j hj hlt, hold _ (Nat.pos_of_ne_zero hne) ((parent_lt hj).trans hlt)]
        exact h j hj
      · rw [keyAt_of_ge key hge]
        exact le_top
    · exact fun _ _ _ hpos => absurd hpos (lt_irrefl 0)

/-- What is popped has the least key. -/
theorem pop_least (h : Ordered key xs) (hpop : pop before xs = some (x, ys)) : ∀ y ∈ ys, key x ≤ key y := by
  intro y hy
  have hmem : y ∈ xs := (pop_perm hpop).subset (List.mem_cons_of_mem _ hy)
  obtain ⟨i, hi, rfl⟩ := List.getElem_of_mem hmem
  have hroot := h.root_le i
  rw [keyAt_of_lt key hi] at hroot
  rcases pop_cases hpop with ⟨rfl, -⟩ | ⟨middle, last, rfl, -⟩
  · exact WithTop.coe_le_coe.mp hroot
  · exact WithTop.coe_le_coe.mp hroot

theorem pop_eq_none_iff : pop before xs = none ↔ xs = [] := by
  cases xs with
  | nil => exact iff_of_true rfl rfl
  | cons first rest => exact iff_of_false (by simp [pop]) (List.cons_ne_nil _ _)

end Queue

end SplitSdk.BinaryHeaps
