import Mathlib.Data.Nat.ModEq
import SplitSdk.BoundedWindows
import SplitSdk.NumberText
import SplitSdk.Simulations

namespace SplitSdk.CircularBuffer

open Numbers NumberText Simulations

section Model

/-- An array of fixed length, of which `count` places from `start` on are in use, around the end. -/
structure Buffer (α : Type) where
  capacity : Nat
  items : List (Option α)
  start : Nat
  count : Nat
  capacity_pos : 0 < capacity
  length_items : items.length = capacity
  start_lt : start < capacity
  count_le : count ≤ capacity

variable {α : Type}

def empty (α : Type) (capacity : {n : Nat // 0 < n}) : Buffer α where
  capacity := capacity
  items := List.replicate capacity none
  start := 0
  count := 0
  capacity_pos := capacity.2
  length_items := List.length_replicate
  start_lt := capacity.2
  count_le := Nat.zero_le _

theorem toNat_num_pos {q : ℚ} (h : q.den = 1 ∧ 0 < q.num) : 0 < q.num.toNat := by omega

/-- A number for which `Number.isInteger(capacity) && capacity >= 1`. -/
def positiveInteger : JsNumber → Option {n : Nat // 0 < n}
  | .finite q => if h : q.den = 1 ∧ 0 < q.num then some ⟨q.num.toNat, toNat_num_pos h⟩ else none
  | _ => none

/-- The constructor, with the message of its `RangeError`. -/
def create (α : Type) (capacity : JsNumber) : Except String (Buffer α) :=
  match positiveInteger capacity with
  | some n => .ok (empty α n)
  | none => .error ("CircularBuffer capacity must be a positive integer, got " ++ toString capacity)

variable (s : Buffer α)

def Buffer.place (i : Nat) : Nat := (s.start + i) % s.capacity

def Buffer.slot (i : Nat) : Option α := s.items.getD (s.place i) none

def Buffer.push (item : α) : Buffer α where
  capacity := s.capacity
  items := s.items.set (s.place s.count) (some item)
  start := if s.count < s.capacity then s.start else (s.start + 1) % s.capacity
  count := if s.count < s.capacity then s.count + 1 else s.count
  capacity_pos := s.capacity_pos
  length_items := by rw [List.length_set, s.length_items]
  start_lt := by
    split_ifs
    · exact s.start_lt
    · exact Nat.mod_lt _ s.capacity_pos
  count_le := by
    have := s.count_le
    split_ifs <;> omega

def Buffer.dropOldest : Buffer α where
  capacity := s.capacity
  items := s.items.set s.start none
  start := (s.start + 1) % s.capacity
  count := s.count - 1
  capacity_pos := s.capacity_pos
  length_items := by rw [List.length_set, s.length_items]
  start_lt := Nat.mod_lt _ s.capacity_pos
  count_le := (Nat.sub_le _ _).trans s.count_le

/-- The loop of `evictOldestWhile`, with as many turns left as there are items. -/
def evictTurns (predicate : Option α → Bool) : Nat → Buffer α → List (Option α) × Buffer α
  | 0, s => ([], s)
  | turns + 1, s =>
      if predicate (s.items.getD s.start none) then
        let later := evictTurns predicate turns s.dropOldest
        (s.items.getD s.start none :: later.1, later.2)
      else ([], s)

def Buffer.evictOldestWhile (predicate : Option α → Bool) : List (Option α) × Buffer α := evictTurns predicate s.count s

def Buffer.toArray : List (Option α) := (List.range s.count).map s.slot

def Buffer.isFull : Bool := s.count = s.capacity

def Buffer.clear : Buffer α := empty α ⟨s.capacity, s.capacity_pos⟩

end Model

section Contents

variable {α : Type} (s : Buffer α)

theorem place_lt (i : Nat) : s.place i < s.capacity := Nat.mod_lt _ s.capacity_pos

theorem place_zero : s.place 0 = s.start := Nat.mod_eq_of_lt s.start_lt

theorem place_ne {i j : Nat} (hi : i < s.capacity) (hj : j < s.capacity) (hne : i ≠ j) : s.place i ≠ s.place j := by
  intro h
  have hmod : i % s.capacity = j % s.capacity := Nat.ModEq.add_left_cancel' s.start h
  rw [Nat.mod_eq_of_lt hi, Nat.mod_eq_of_lt hj] at hmod
  exact hne hmod

theorem place_capacity : s.place s.capacity = s.start := by
  rw [Buffer.place, Nat.add_mod_right, Nat.mod_eq_of_lt s.start_lt]

theorem place_succ (i : Nat) : ((s.start + 1) % s.capacity + i) % s.capacity = s.place (i + 1) := by
  rw [Nat.mod_add_mod, Buffer.place, Nat.add_right_comm, Nat.add_assoc]

/-- Writing at one place leaves what is read at another one. -/
theorem getD_set_of_ne {i j : Nat} (hne : i ≠ j) (item : Option α) : (s.items.set i item).getD j none = s.items.getD j none := by
  rw [List.getD_eq_getElem?_getD, List.getD_eq_getElem?_getD, List.getElem?_set_ne hne]

theorem getD_set_self (i : Nat) (item : Option α) : (s.items.set (s.place i) item).getD (s.place i) none = item := by
  have hlt : s.place i < s.items.length := by
    rw [s.length_items]
    exact place_lt s i
  rw [List.getD_eq_getElem?_getD, List.getElem?_set_self hlt, Option.getD_some]

theorem toArray_empty (capacity : {n : Nat // 0 < n}) : (empty α capacity).toArray = [] := rfl

theorem length_toArray : s.toArray.length = s.count := by
  rw [Buffer.toArray, List.length_map, List.length_range]

theorem slot_zero : s.slot 0 = s.items.getD s.start none := by
  rw [Buffer.slot, place_zero]

theorem slot_push_of_lt (item : α) (h : s.count < s.capacity) {i : Nat} (hi : i < s.count) : (s.push item).slot i = s.slot i := by
  have hplace : (s.push item).place i = s.place i := by
    rw [Buffer.place, Buffer.push]
    simp only [if_pos h]
    rfl
  rw [Buffer.slot, hplace]
  exact getD_set_of_ne s (place_ne s h (hi.trans h) (by omega)) (some item)

theorem toArray_push_of_lt (item : α) (h : s.count < s.capacity) : (s.push item).toArray = s.toArray ++ [some item] := by
  have hcount : (s.push item).count = s.count + 1 := if_pos h
  have hlast : (s.push item).slot s.count = some item := by
    have hplace : (s.push item).place s.count = s.place s.count := by
      rw [Buffer.place, Buffer.push]
      simp only [if_pos h]
      rfl
    rw [Buffer.slot, hplace]
    exact getD_set_self s s.count (some item)
  rw [Buffer.toArray, hcount, List.range_succ, List.map_append, List.map_singleton, hlast]
  congr 1
  exact List.map_congr_left (fun i hi => slot_push_of_lt s item h (List.mem_range.mp hi))

theorem toArray_tail (h : 0 < s.count) : s.toArray = s.slot 0 :: (List.range (s.count - 1)).map (fun i => s.slot (i + 1)) := by
  obtain ⟨k, hk⟩ := Nat.exists_eq_add_of_lt h
  rw [Buffer.toArray, show s.count = k + 1 by omega, List.range_succ_eq_map, List.map_cons, List.map_map]
  rfl

/-- In a full buffer an item takes the place of the oldest one. -/
theorem toArray_push_of_full (item : α) (h : s.count = s.capacity) :
    (s.push item).toArray = s.toArray.tail ++ [some item] := by
  have hfull : ¬s.count < s.capacity := by omega
  have hpos := s.capacity_pos
  have hcount : (s.push item).count = (s.count - 1) + 1 := by
    have : (s.push item).count = s.count := if_neg hfull
    omega
  have hplace : ∀ i, (s.push item).place i = s.place (i + 1) := by
    intro i
    rw [← place_succ, Buffer.place, Buffer.push]
    simp only [if_neg hfull]
  have hwritten : s.place s.count = s.place 0 := by
    rw [h, place_capacity, place_zero]
  have hlast : (s.push item).slot (s.count - 1) = some item := by
    rw [Buffer.slot, hplace, show s.count - 1 + 1 = s.count by omega]
    exact getD_set_self s s.count (some item)
  rw [Buffer.toArray, hcount, List.range_succ, List.map_append, List.map_singleton, hlast, toArray_tail s (by omega),
    List.tail_cons]
  congr 1
  refine List.map_congr_left (fun i hi => ?_)
  have hi' := List.mem_range.mp hi
  rw [Buffer.slot, hplace]
  refine getD_set_of_ne s ?_ (some item)
  rw [hwritten]
  exact place_ne s hpos (by omega) (by omega)

theorem toArray_push (item : α) : (s.push item).toArray = BoundedWindows.push s.capacity s.toArray (some item) := by
  rw [BoundedWindows.push, length_toArray]
  split_ifs with h
  · exact toArray_push_of_lt s item h
  · exact toArray_push_of_full s item (le_antisymm s.count_le (Nat.le_of_not_lt h))

theorem toArray_dropOldest (h : 0 < s.count) : s.toArray = s.items.getD s.start none :: s.dropOldest.toArray := by
  rw [toArray_tail s h, slot_zero]
  congr 1
  refine List.map_congr_left (fun i hi => ?_)
  have hi' := List.mem_range.mp hi
  have hle := s.count_le
  have hplace : s.dropOldest.place i = s.place (i + 1) := place_succ s i
  rw [Buffer.slot, Buffer.slot, hplace]
  refine (getD_set_of_ne s ?_ none).symm
  rw [← place_zero]
  exact place_ne s s.capacity_pos (by omega) (by omega)

theorem evictTurns_eq (predicate : Option α → Bool) {turns : Nat} {s : Buffer α} (h : s.count = turns) :
    (evictTurns predicate turns s).1 = s.toArray.takeWhile predicate ∧
      (evictTurns predicate turns s).2.toArray = s.toArray.dropWhile predicate ∧
      (evictTurns predicate turns s).2.capacity = s.capacity := by
  induction turns generalizing s with
  | zero =>
      have hnil : s.toArray = [] := by
        rw [Buffer.toArray, h, List.range_zero, List.map_nil]
      rw [hnil]
      exact ⟨rfl, hnil, rfl⟩
  | succ turns ih =>
      obtain ⟨htaken, hleft, hcapacity⟩ := ih (s := s.dropOldest) (by simp only [Buffer.dropOldest]; omega)
      have hfirst := toArray_dropOldest s (by omega)
      rw [evictTurns]
      split_ifs with hp
      · rw [hfirst, List.takeWhile_cons_of_pos hp, List.dropWhile_cons_of_pos hp, ← htaken]
        exact ⟨rfl, hleft, hcapacity⟩
      · rw [hfirst, List.takeWhile_cons_of_neg hp, List.dropWhile_cons_of_neg hp]
        exact ⟨rfl, rfl, rfl⟩

end Contents

section Refinement

variable {α : Type}

inductive Call (α : Type)
  | push (item : α)
  | evictOldestWhile (predicate : Option α → Bool)
  | toArray
  | size
  | maxSize
  | isFull
  | clear

inductive Answer (α : Type)
  | nothing
  | list (items : List (Option α))
  | number (n : Nat)
  | flag (b : Bool)

def step (s : Buffer α) : Call α → Buffer α × Answer α
  | .push item => (s.push item, .nothing)
  | .evictOldestWhile predicate => ((s.evictOldestWhile predicate).2, .list (s.evictOldestWhile predicate).1)
  | .toArray => (s, .list s.toArray)
  | .size => (s, .number s.count)
  | .maxSize => (s, .number s.capacity)
  | .isFull => (s, .flag s.isFull)
  | .clear => (s.clear, .nothing)

/-- What the buffer is for: a list, oldest first, of which the last `n` entries are kept. -/
def listStep (n : Nat) (xs : List α) : Call α → List α × Answer α
  | .push item => (BoundedWindows.push n xs item, .nothing)
  | .evictOldestWhile predicate =>
      (xs.dropWhile (fun x => predicate (some x)), .list ((xs.takeWhile (fun x => predicate (some x))).map some))
  | .toArray => (xs, .list (xs.map some))
  | .size => (xs, .number xs.length)
  | .maxSize => (xs, .number n)
  | .isFull => (xs, .flag (xs.length = n))
  | .clear => ([], .nothing)

/-- The places in use hold the entries of the list. -/
structure Holds (n : Nat) (s : Buffer α) (xs : List α) : Prop where
  capacity : s.capacity = n
  toArray : s.toArray = xs.map some

variable {n : Nat} {s : Buffer α} {xs : List α}

theorem Holds.count (h : Holds n s xs) : s.count = xs.length := by
  rw [← length_toArray, h.toArray, List.length_map]

theorem holds_empty (n : {n : Nat // 0 < n}) : Holds n (empty α n) [] := ⟨rfl, rfl⟩

theorem Holds.push (h : Holds n s xs) (item : α) : Holds n (s.push item) (BoundedWindows.push n xs item) := by
  refine ⟨h.capacity, ?_⟩
  rw [toArray_push, h.capacity, h.toArray, BoundedWindows.map_push]

theorem Holds.evict (h : Holds n s xs) (predicate : Option α → Bool) :
    (s.evictOldestWhile predicate).1 = (xs.takeWhile (fun x => predicate (some x))).map some ∧
      Holds n (s.evictOldestWhile predicate).2 (xs.dropWhile (fun x => predicate (some x))) := by
  obtain ⟨htaken, hleft, hcapacity⟩ := evictTurns_eq predicate (s := s) rfl
  rw [h.toArray, List.takeWhile_map] at htaken
  rw [h.toArray, List.dropWhile_map] at hleft
  exact ⟨htaken, hcapacity.trans h.capacity, hleft⟩

theorem simulates (n : Nat) : Simulates (Holds n) step (listStep (α := α) n) := by
  intro s xs call h
  cases call with
  | push item => exact ⟨rfl, h.push item⟩
  | evictOldestWhile predicate =>
      obtain ⟨htaken, hleft⟩ := h.evict predicate
      exact ⟨congrArg Answer.list htaken, hleft⟩
  | toArray => exact ⟨congrArg Answer.list h.toArray, h⟩
  | size => exact ⟨congrArg Answer.number h.count, h⟩
  | maxSize => exact ⟨congrArg Answer.number h.capacity, h⟩
  | isFull => exact ⟨congrArg Answer.flag (by rw [Buffer.isFull, h.count, h.capacity]), h⟩
  | clear => exact ⟨rfl, h.capacity, rfl⟩

/-- Whatever is called, in whatever order, a buffer answers as the list of its last items does. -/
theorem answers_as_list (n : {n : Nat // 0 < n}) (calls : List (Call α)) :
    answers step (empty α n) calls = answers (listStep n) [] calls :=
  answers_eq (simulates n) (holds_empty n) calls

end Refinement

end SplitSdk.CircularBuffer
