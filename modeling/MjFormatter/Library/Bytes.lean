import Mathlib.Algebra.Order.Floor.Div
import Mathlib.Data.List.Basic
import Mathlib.Tactic.Ring

/-! # Fixed-width fields and equal blocks of a byte string -/

namespace MjFormatter.Library.Bytes

/-! ## Little-endian numbers -/

/-- The lowest `width` bytes of `value`, little end first. -/
def toLe : Nat → Nat → List UInt8
  | 0, _ => []
  | width + 1, value => UInt8.ofNat value :: toLe width (value / 256)

def ofLe : List UInt8 → Nat
  | [] => 0
  | byte :: rest => byte.toNat + 256 * ofLe rest

@[simp] theorem length_toLe (width value : Nat) : (toLe width value).length = width := by
  induction width generalizing value with
  | zero => rfl
  | succ width ih => simp [toLe, ih]

theorem ofLe_toLe {width value : Nat} (fits : value < 256 ^ width) : ofLe (toLe width value) = value := by
  induction width generalizing value with
  | zero =>
    simp only [pow_zero, Nat.lt_one_iff] at fits
    simp [toLe, ofLe, fits]
  | succ width ih =>
    have high : value / 256 < 256 ^ width := by
      apply Nat.div_lt_of_lt_mul
      rwa [← pow_succ']
    have low : (UInt8.ofNat value).toNat = value % 256 := by simp
    simp only [toLe, ofLe, ih high, low]
    omega

theorem ofLe_lt (bytes : List UInt8) : ofLe bytes < 256 ^ bytes.length := by
  induction bytes with
  | nil => simp [ofLe]
  | cons byte rest ih =>
    have small := byte.toNat_lt
    simp only [ofLe, List.length_cons, pow_succ]
    omega

theorem toLe_ofLe (bytes : List UInt8) : toLe bytes.length (ofLe bytes) = bytes := by
  induction bytes with
  | nil => rfl
  | cons byte rest ih =>
    have small := byte.toNat_lt
    have first : UInt8.ofNat (byte.toNat + 256 * ofLe rest) = byte := by
      apply UInt8.toNat.inj
      simp only [UInt8.toNat_ofNat']
      omega
    have others : (byte.toNat + 256 * ofLe rest) / 256 = ofLe rest := by omega
    simp [toLe, ofLe, first, others, ih]

theorem ofLe_eq_max_iff (bytes : List UInt8) : ofLe bytes = 256 ^ bytes.length - 1 ↔ ∀ byte ∈ bytes, byte = 0xFF := by
  induction bytes with
  | nil => simp [ofLe]
  | cons byte rest ih =>
    have small := byte.toNat_lt
    have below := ofLe_lt rest
    have full : byte = 0xFF ↔ byte.toNat = 255 := UInt8.toNat_inj.symm
    rw [List.forall_mem_cons, ← ih, full, ofLe, List.length_cons, pow_succ]
    omega

/-- The bytes of a number that are not zero, found by shifts. -/
theorem filter_range_ofLe (bytes : List UInt8) :
    ((List.range bytes.length).filter fun index => ofLe bytes >>> (index * 8) &&& 0xFF ≠ 0) = bytes.findIdxs (· ≠ 0) := by
  induction bytes with
  | nil => rfl
  | cons byte rest ih =>
    have small := byte.toNat_lt
    have next (index : Nat) : ofLe (byte :: rest) >>> ((index + 1) * 8) = ofLe rest >>> (index * 8) := by
      rw [Nat.add_mul, Nat.add_comm, Nat.shiftRight_add]
      refine congrArg (· >>> (index * 8)) ?_
      rw [Nat.shiftRight_eq_div_pow, ofLe]
      omega
    have first : ofLe (byte :: rest) >>> (0 * 8) &&& 0xFF = byte.toNat := by
      rw [Nat.zero_mul, Nat.shiftRight_zero, Nat.and_two_pow_sub_one_eq_mod _ 8, ofLe]
      omega
    have others : (List.range rest.length).filter
        ((fun index => decide (ofLe (byte :: rest) >>> (index * 8) &&& 0xFF ≠ 0)) ∘ Nat.succ) = rest.findIdxs (· ≠ 0) := by
      rw [← ih]
      refine List.filter_congr fun index _ => ?_
      simp only [Function.comp_apply, Nat.succ_eq_add_one, next]
    have zero : byte.toNat ≠ 0 ↔ byte ≠ 0 := not_congr (UInt8.toNat_inj (b := 0))
    rw [List.length_cons, List.range_succ_eq_map, List.filter_cons, first, List.filter_map, others, List.findIdxs_cons,
      List.findIdxs_start (s := 0 + 1)]
    simp only [zero]

/-! ## Ranges -/

variable {α : Type*}

/-- `bytes[start..start + length]`. -/
def slice (bytes : List α) (start length : Nat) : List α := (bytes.drop start).take length

theorem length_slice {bytes : List α} {start length : Nat} (inside : start + length ≤ bytes.length) :
    (slice bytes start length).length = length := by
  simp only [slice, List.length_take, List.length_drop]
  omega

theorem getElem?_slice (bytes : List α) (start length i : Nat) :
    (slice bytes start length)[i]? = if i < length then bytes[start + i]? else none := by
  simp [slice, List.getElem?_take]

theorem slice_drop (bytes : List α) (skipped start length : Nat) :
    slice (bytes.drop skipped) start length = slice bytes (skipped + start) length := by
  rw [slice, slice, List.drop_drop]

/-- `bytes.get(start..stop)`. -/
def getRange (bytes : List α) (start stop : Nat) : Option (List α) :=
  if stop ≤ bytes.length then some (slice bytes start (stop - start)) else none

theorem getRange_of_le {bytes : List α} {start length : Nat} (inside : start + length ≤ bytes.length) :
    getRange bytes start (start + length) = some (slice bytes start length) := by
  simp [getRange, inside]

/-! ## Blocks of one size -/

/-- The first `count` blocks of `size` elements. -/
def blocks (size count : Nat) (bytes : List α) : List (List α) :=
  (List.range count).map fun k => slice bytes (k * size) size

/-- `bytes.chunks(size)`: the last chunk may be short. -/
def chunks (size : Nat) (bytes : List α) : List (List α) := blocks size (bytes.length ⌈/⌉ size) bytes

@[simp] theorem length_blocks (size count : Nat) (bytes : List α) : (blocks size count bytes).length = count := by
  simp [blocks]

theorem getElem?_blocks (size count : Nat) (bytes : List α) (k : Nat) :
    (blocks size count bytes)[k]? = if k < count then some (slice bytes (k * size) size) else none := by
  by_cases inside : k < count
  · simp [blocks, inside]
  · simp [blocks, inside]

theorem blocks_succ (size count : Nat) (bytes : List α) :
    blocks size (count + 1) bytes = bytes.take size :: blocks size count (bytes.drop size) := by
  simp only [blocks, List.range_succ_eq_map, List.map_cons, List.map_map, zero_mul]
  congr 1
  apply List.map_congr_left
  intro k _
  simp only [Function.comp_apply, slice, List.drop_drop]
  congr 2
  rw [Nat.succ_mul, Nat.add_comm]

theorem length_of_mem_blocks {size count : Nat} {bytes block : List α} (long : count * size ≤ bytes.length)
    (member : block ∈ blocks size count bytes) : block.length = size := by
  simp only [blocks, List.mem_map, List.mem_range] at member
  obtain ⟨k, inside, rfl⟩ := member
  apply length_slice
  calc k * size + size = (k + 1) * size := by ring
    _ ≤ count * size := Nat.mul_le_mul_right size inside
    _ ≤ bytes.length := long

theorem flatten_blocks (size count : Nat) (bytes : List α) :
    (blocks size count bytes).flatten = bytes.take (count * size) := by
  induction count generalizing bytes with
  | zero => simp [blocks]
  | succ count ih =>
    rw [blocks_succ, List.flatten_cons, ih, Nat.succ_mul, Nat.add_comm (count * size) size, List.take_add]

theorem blocks_flatten {size : Nat} {parts : List (List α)} (same : ∀ part ∈ parts, part.length = size)
    (after : List α) : blocks size parts.length (parts.flatten ++ after) = parts := by
  induction parts with
  | nil => simp [blocks]
  | cons part parts ih =>
    have first : part.length = size := same part (by simp)
    have others : ∀ other ∈ parts, other.length = size := fun other member => same other (by simp [member])
    rw [List.length_cons, blocks_succ, List.flatten_cons, List.append_assoc, List.take_left' first,
      List.drop_left' first, ih others]

theorem length_flatten {size : Nat} {parts : List (List α)} (same : ∀ part ∈ parts, part.length = size) :
    parts.flatten.length = parts.length * size := by
  induction parts with
  | nil => simp
  | cons part parts ih =>
    have first : part.length = size := same part (by simp)
    have others : ∀ other ∈ parts, other.length = size := fun other member => same other (by simp [member])
    rw [List.flatten_cons, List.length_append, ih others, first, List.length_cons]
    ring

theorem chunks_eq_blocks {size count : Nat} {bytes : List α} (positive : 0 < size)
    (exact_length : bytes.length = count * size) : chunks size bytes = blocks size count bytes := by
  have rounded : (count * size) ⌈/⌉ size = count := by
    rw [Nat.mul_comm]
    exact smul_ceilDiv positive count
  rw [chunks, exact_length, rounded]

end MjFormatter.Library.Bytes
