import Mathlib.Algebra.CharP.Two
import Mathlib.Algebra.Field.ZMod
import Mathlib.Data.List.GetD
import Mathlib.RingTheory.AdjoinRoot
import SplitSdk.ParityPolynomials
import Mathlib.Algebra.Polynomial.RingDivision
import Mathlib.Tactic.ComputeDegree

namespace SplitSdk.QrEcc

open ParityPolynomials Polynomial

section Model

/-- The primitive polynomial `x^8 + x^4 + x^3 + x^2 + 1`. -/
def PRIM : Nat := 0x11d

/-- The two typed arrays of bytes. -/
structure Tables where
  EXP : List Nat := List.replicate 512 0
  LOG : List Nat := List.replicate 256 0

/-- `x <<= 1`, reduced by the primitive polynomial. -/
def double (x : Nat) : Nat := if (x <<< 1) &&& 0x100 ≠ 0 then (x <<< 1) ^^^ PRIM else x <<< 1

def fillStep (s : Nat × Tables) (i : Nat) : Nat × Tables :=
  (double s.1, ⟨s.2.EXP.set i (s.1 % 256), s.2.LOG.set s.1 (i % 256)⟩)

def repeatStep (exp : List Nat) (i : Nat) : List Nat := exp.set i (exp.getD (i - 255) 0)

def initTables : Tables :=
  let filled := ((List.range 255).foldl fillStep (1, {})).2
  { filled with EXP := (List.range' 255 257).foldl repeatStep filled.EXP }

/-- What a typed array holds at an index, and `undefined` outside of it. -/
def read (table : List Nat) (index : Int) : Option Nat := if 0 ≤ index then table[index.toNat]? else none

/-- The product of two values, which may be `undefined`. -/
def gfMul (a b : Option Int) : Option Int :=
  if a = some 0 ∨ b = some 0 then some 0
  else do
    let la ← a.bind (read initTables.LOG)
    let lb ← b.bind (read initTables.LOG)
    let product ← read initTables.EXP (la + lb : Nat)
    return product

/-- `a ^ b`, where `undefined` counts as zero. -/
def bitXor (a : Int) (b : Option Int) : Int := (BitVec.ofInt 32 a ^^^ BitVec.ofInt 32 (b.getD 0)).toInt

/-- `a << i`. -/
def shiftLeft (a : Int) (i : Nat) : Int := (BitVec.ofInt 32 a <<< (i % 32)).toInt

def polyMul (a b : List Int) : List Int :=
  (List.range a.length).foldl (fun res i =>
    (List.range b.length).foldl (fun res j => res.modify (i + j) (fun r => bitXor r (gfMul a[i]? b[j]?))) res)
    (List.replicate (a.length + b.length - 1) 0)

def gfMakeGenerator (numEcc : Int) : List Int :=
  if numEcc ≤ 0 then [1]
  else (List.range numEcc.toNat).foldl (fun gen i => polyMul gen [shiftLeft 0x111 i, 0x111]) [1]

/-- One turn of the long division, before the first coefficient is dropped. -/
def subtract (gen r : List Int) : List Int :=
  if r.head? ≠ some 0 then
    let ratio := gfMul r.head? gen.head?
    (List.range gen.length).foldl (fun r i => r.modify i (fun c => bitXor c (gfMul gen[i]? ratio))) r
  else r

theorem length_foldl_modify (xs : List Nat) (place : Nat → Nat) (f : Nat → Int → Int) (r : List Int) :
    (xs.foldl (fun r i => r.modify (place i) (f i)) r).length = r.length := by
  induction xs generalizing r with
  | nil => rfl
  | cons x xs ih => rw [List.foldl_cons, ih, List.length_modify]

theorem length_subtract (gen r : List Int) : (subtract gen r).length = r.length := by
  unfold subtract
  split_ifs
  · exact length_foldl_modify _ _ _ r
  · rfl

/-- The long division by a generator, which has a coefficient at least. -/
def divide (gen r : List Int) : List Int :=
  if gen.length ≤ r.length ∧ 0 < r.length then divide gen (subtract gen r).tail else r
termination_by r.length
decreasing_by
  rw [List.length_tail, length_subtract]
  omega

def rsEncode (data : List Int) (numEcc : Int) : List Int :=
  if numEcc ≤ 0 then []
  else (divide (gfMakeGenerator numEcc) (data ++ List.replicate numEcc.toNat 0)).take numEcc.toNat

end Model

section Zeros

theorem foldl_fixed {α β : Type} {g : β → α → β} {xs : List α} {r : β} (h : ∀ x ∈ xs, g r x = r) : xs.foldl g r = r := by
  induction xs with
  | nil => rfl
  | cons x xs ih =>
      obtain ⟨hx, hxs⟩ := List.forall_mem_cons.mp h
      rw [List.foldl_cons, hx]
      exact ih hxs

theorem modify_fixed {f : Int → Int} {r : List Int} (h : ∀ c ∈ r, f c = c) (i : Nat) : r.modify i f = r := by
  apply List.ext_getElem?
  intro j
  rw [List.getElem?_modify]
  cases hj : r[j]? with
  | none => rfl
  | some c =>
      by_cases hi : i = j
      · simp [hi, h c (List.mem_of_getElem? hj)]
      · simp [hi]

theorem gfMul_zero (a : Option Int) : gfMul a (some 0) = some 0 := if_pos (.inr rfl)

theorem gfMul_zero_left (b : Option Int) : gfMul (some 0) b = some 0 := if_pos (.inl rfl)

theorem length_fill (xs : List Nat) (s : Nat × Tables) : (xs.foldl fillStep s).2.LOG.length = s.2.LOG.length := by
  induction xs generalizing s with
  | nil => rfl
  | cons x xs ih => rw [List.foldl_cons, ih, fillStep, List.length_set]

theorem length_LOG : initTables.LOG.length = 256 := by
  unfold initTables
  dsimp only
  rw [length_fill, List.length_replicate]

/-- There is no logarithm of a number that is no byte, and what is `undefined` changes no coefficient. -/
theorem bitXor_gfMul_large (a : Option Int) {b : Int} (hb : 256 ≤ b) : bitXor 0 (gfMul a (some b)) = 0 := by
  have hnone : read initTables.LOG b = none := by
    rw [read, if_pos (by omega), List.getElem?_eq_none_iff, length_LOG]
    omega
  unfold gfMul
  split_ifs
  · decide
  · rw [Option.bind_some, hnone]
    have hundefined : bitXor 0 none = 0 := by decide
    cases a.bind (read initTables.LOG) with
    | none => exact hundefined
    | some la => exact hundefined

theorem polyMul_zeros {a b : List Int} (h : ∀ i < a.length, ∀ j < b.length, bitXor 0 (gfMul a[i]? b[j]?) = 0) :
    polyMul a b = List.replicate (a.length + b.length - 1) 0 := by
  refine foldl_fixed (fun i hi => foldl_fixed (fun j hj => modify_fixed (fun c hc => ?_) (i + j)))
  rw [List.eq_of_mem_replicate hc]
  exact h i (List.mem_range.mp hi) j (List.mem_range.mp hj)

/-- The factors `[0x111 << i, 0x111]` are outside of the tables, so that nothing but zeros is left of the generator. -/
theorem generator_zeros (n : Nat) : gfMakeGenerator (n + 1 : Nat) = List.replicate (n + 2) 0 := by
  rw [gfMakeGenerator, if_neg (by omega), Int.toNat_natCast]
  induction n with
  | zero =>
      rw [List.range_one, List.foldl_cons, List.foldl_nil]
      refine polyMul_zeros (fun i _ j hj => ?_)
      have hlarge : [shiftLeft 0x111 0, 0x111][j]? = some 0x111 := by
        match j with
        | 0 => rfl
        | 1 => rfl
      rw [hlarge]
      exact bitXor_gfMul_large _ (by decide)
  | succ n ih =>
      rw [List.range_succ, List.foldl_append, ih, List.foldl_cons, List.foldl_nil]
      have hzeros : polyMul (List.replicate (n + 2) 0) [shiftLeft 0x111 (n + 1), 0x111] =
          List.replicate ((List.replicate (n + 2) (0 : Int)).length + 2 - 1) 0 := by
        refine polyMul_zeros (fun i hi j _ => ?_)
        rw [List.getElem?_eq_getElem hi, List.getElem_replicate, gfMul_zero_left]
        decide
      rw [List.length_replicate] at hzeros
      exact hzeros

theorem bitXor_byte {c : Int} (h : 0 ≤ c ∧ c < 256) : bitXor c (some 0) = c := by
  unfold bitXor
  rw [Option.getD_some, show BitVec.ofInt 32 0 = 0#32 from rfl, BitVec.xor_zero, BitVec.toInt_ofInt]
  exact Int.bmod_eq_of_le (by omega) (by omega)

theorem subtract_zeros (n : Nat) {r : List Int} (hr : ∀ c ∈ r, 0 ≤ c ∧ c < 256) : subtract (List.replicate (n + 1) 0) r = r := by
  unfold subtract
  split_ifs
  · refine foldl_fixed (fun i hi => modify_fixed (fun c hc => ?_) i)
    rw [List.length_replicate, List.mem_range] at hi
    rw [List.replicate_succ, List.head?_cons, gfMul_zero, gfMul_zero]
    exact bitXor_byte (hr c hc)
  · rfl

/-- The division by zeros drops coefficients, as many as there are before the last ones. -/
theorem divide_zeros (n : Nat) {r : List Int} (hr : ∀ c ∈ r, 0 ≤ c ∧ c < 256) :
    divide (List.replicate (n + 1) 0) r = r.drop (r.length - n) := by
  obtain ⟨k, hk⟩ : ∃ k, r.length = k := ⟨_, rfl⟩
  induction k generalizing r with
  | zero =>
      obtain rfl := List.length_eq_zero_iff.mp hk
      rw [divide, if_neg (by simp)]
      simp
  | succ k ih =>
      rw [divide, List.length_replicate]
      split_ifs with hlong
      · have htail : ∀ c ∈ r.tail, 0 ≤ c ∧ c < 256 := fun c hc => hr c (List.mem_of_mem_tail hc)
        have hlength : r.tail.length = k := by
          rw [List.length_tail]
          omega
        rw [subtract_zeros n hr, ih htail hlength, ← List.drop_one, List.drop_drop, List.length_drop]
        congr 1
        omega
      · rw [Nat.sub_eq_zero_of_le (by omega), List.drop_zero]

theorem rsEncode_zeros (n : Nat) {data : List Int} (hdata : ∀ c ∈ data, 0 ≤ c ∧ c < 256) :
    rsEncode data (n + 1 : Nat) = List.replicate (n + 1) 0 := by
  have hdividend : ∀ c ∈ data ++ List.replicate (n + 1) 0, 0 ≤ c ∧ c < 256 := by
    refine List.forall_mem_append.mpr ⟨hdata, fun c hc => ?_⟩
    rw [List.eq_of_mem_replicate hc]
    decide
  rw [rsEncode, if_neg (by omega), generator_zeros, Int.toNat_natCast, divide_zeros (n + 1) hdividend, List.length_append,
    List.length_replicate, Nat.add_sub_cancel, List.drop_left]
  exact List.take_of_length_le (List.length_replicate.le)

end Zeros

section Field

/-- The polynomials over two elements modulo the primitive polynomial. -/
abbrev GF : Type := AdjoinRoot (X ^ 8 + X ^ 4 + X ^ 3 + X ^ 2 + 1 : (ZMod 2)[X])

noncomputable def alpha : GF := AdjoinRoot.root _

/-- The bits of a number as the coefficients of a polynomial, up to those that the primitive polynomial has. -/
noncomputable def element (n : Nat) : GF := ∑ i ∈ Finset.range 9, if n.testBit i then alpha ^ i else 0

theorem primitive : alpha ^ 8 + alpha ^ 4 + alpha ^ 3 + alpha ^ 2 + 1 = 0 := by
  have hroot := AdjoinRoot.eval₂_root (X ^ 8 + X ^ 4 + X ^ 3 + X ^ 2 + 1 : (ZMod 2)[X])
  rw [eval₂_add, eval₂_add, eval₂_add, eval₂_add, eval₂_pow, eval₂_pow, eval₂_pow, eval₂_pow, eval₂_X, eval₂_one] at hroot
  exact hroot

theorem element_zero : element 0 = 0 := by
  simp [element]

theorem element_one : element 1 = 1 := by
  simp [element, Finset.sum_range_succ, Nat.testBit]

theorem element_two : element 2 = alpha := by
  simp [element, Finset.sum_range_succ, Nat.testBit]

theorem isUnit_alpha : IsUnit alpha := by
  refine IsUnit.of_mul_eq_one (-(alpha ^ 7 + alpha ^ 3 + alpha ^ 2 + alpha)) ?_
  calc alpha * -(alpha ^ 7 + alpha ^ 3 + alpha ^ 2 + alpha)
      = 1 - (alpha ^ 8 + alpha ^ 4 + alpha ^ 3 + alpha ^ 2 + 1) := by ring
    _ = 1 := by rw [primitive, sub_zero]

theorem nontrivial_GF : Nontrivial GF := by
  refine AdjoinRoot.nontrivial _ ?_
  have hdegree : (X ^ 8 + X ^ 4 + X ^ 3 + X ^ 2 + 1 : (ZMod 2)[X]).degree = 8 := by compute_degree!
  rw [hdegree]
  decide

end Field

section Parity

def bytes (data : List UInt8) : List Int := data.map (fun b => (b.toNat : Int))

noncomputable def elements (data : List UInt8) : List GF := data.map (fun b => element b.toNat)

theorem bytes_range (data : List UInt8) : ∀ c ∈ bytes data, 0 ≤ c ∧ c < 256 := by
  intro c hc
  obtain ⟨b, -, rfl⟩ := List.mem_map.mp hc
  have hb := b.toNat_lt
  omega

theorem bytes_inj {data data' : List UInt8} (h : bytes data = bytes data') : data = data' :=
  List.map_injective_iff.mpr (fun _ _ hb => UInt8.toNat_inj.mp (by exact_mod_cast hb)) h

/-- So many parity bytes that the data and the parity are a multiple of the product. -/
def IsParity (data : List UInt8) (numEcc : Nat) (parity : List UInt8) : Prop :=
  parity.length = numEcc ∧ powersProduct (element 2) numEcc ∣ ofCoefficients (elements (data ++ parity))

/-- The parity is zeros for all data, which is right only where the data alone are a multiple of the product. -/
theorem rsEncode_parity_iff (data : List UInt8) {numEcc : Nat} (h : 1 ≤ numEcc) :
    (∃ parity, rsEncode (bytes data) numEcc = bytes parity ∧ IsParity data numEcc parity) ↔
      powersProduct (element 2) numEcc ∣ ofCoefficients (elements data) := by
  obtain ⟨n, rfl⟩ : ∃ n, numEcc = n + 1 := ⟨numEcc - 1, by omega⟩
  have hencode : rsEncode (bytes data) (n + 1 : Nat) = bytes (List.replicate (n + 1) 0) := by
    rw [rsEncode_zeros n (bytes_range data), bytes, List.map_replicate]
    rfl
  have hdvd : powersProduct (element 2) (n + 1) ∣ ofCoefficients (elements (data ++ List.replicate (n + 1) 0)) ↔
      powersProduct (element 2) (n + 1) ∣ ofCoefficients (elements data) := by
    have hzeros : elements (data ++ List.replicate (n + 1) 0) = elements data ++ List.replicate (n + 1) 0 := by
      rw [elements, elements, List.map_append, List.map_replicate]
      exact congrArg (fun c => _ ++ List.replicate (n + 1) c) element_zero
    rw [hzeros, element_two]
    exact dvd_append_zeros_iff isUnit_alpha (n + 1) (n + 1) (elements data)
  rw [hencode, ← hdvd]
  constructor
  · rintro ⟨parity, hparity, -, h⟩
    rwa [bytes_inj hparity]
  · exact fun h => ⟨_, rfl, List.length_replicate, h⟩

theorem one_not_multiple : ¬powersProduct (element 2) 1 ∣ ofCoefficients (elements [1]) := by
  have := nontrivial_GF
  have hproduct : powersProduct (element 2) 1 = X - C 1 := by
    rw [powersProduct, Finset.prod_range_one, pow_zero]
  have hdata : ofCoefficients (elements [1]) = 1 := by
    simp [ofCoefficients, elements, element_one]
  rw [hproduct, hdata, dvd_iff_isRoot, IsRoot, eval_one]
  exact one_ne_zero

/-- The one parity byte of the one byte 1 should be 1, and it is 0. -/
theorem parity_missing : ¬∃ parity, rsEncode (bytes [1]) (1 : Nat) = bytes parity ∧ IsParity [1] 1 parity := by
  rintro ⟨parity, hparity, -, h⟩
  have hencode : rsEncode (bytes [1]) (1 : Nat) = bytes [0] := rsEncode_zeros 0 (bytes_range [1])
  rw [hencode] at hparity
  rw [← bytes_inj hparity] at h
  have hzeros : elements ([1] ++ [0]) = elements [1] ++ List.replicate 1 0 := by
    simp [elements, element_zero]
  rw [hzeros, element_two] at h
  have hdvd := (dvd_append_zeros_iff isUnit_alpha 1 1 (elements [1])).mp h
  rw [← element_two] at hdvd
  exact one_not_multiple hdvd

theorem rsEncode_parity_iff_one : (∃ parity, rsEncode (bytes [1]) (1 : Nat) = bytes parity ∧ IsParity [1] 1 parity) ↔
    powersProduct (element 2) 1 ∣ ofCoefficients (elements [1]) :=
  rsEncode_parity_iff [1] (Nat.le_refl 1)

end Parity

end SplitSdk.QrEcc
