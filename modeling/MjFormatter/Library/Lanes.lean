import MjFormatter.Library.BitMasks
import MjFormatter.Library.Bytes

/-! # Registers of sixteen bytes

The instructions work lane by lane.  A comparison answers with a mask, which has 0xFF in the lanes where it holds and zero in the
others. -/

namespace MjFormatter.Library

abbrev Lanes := Vector UInt8 16

namespace Lanes

/-! ## Instructions -/

/-- A load from behind the end of the bytes has no result.  (`_mm_loadu_si128`, `vld1q_u8`) -/
def load (bytes : List UInt8) (offset : Nat) : Option Lanes :=
  if inside : offset + 16 ≤ bytes.length then
    some ⟨(Bytes.slice bytes offset 16).toArray, (List.size_toArray ..).trans (Bytes.length_slice inside)⟩
  else none

/-- `_mm_set1_epi8`, `vdupq_n_u8`. -/
def splat (byte : UInt8) : Lanes := Vector.replicate 16 byte

def maskByte (holds : Bool) : UInt8 := if holds then 0xFF else 0

/-- `_mm_cmpeq_epi8`, `vceqq_u8`. -/
def equal (left right : Lanes) : Lanes := Vector.zipWith (fun first second => maskByte (first == second)) left right

/-- `_mm_and_si128`, `vandq_u8`. -/
def both (left right : Lanes) : Lanes := Vector.zipWith (· &&& ·) left right

/-- `_mm_or_si128`, `vorrq_u8`. -/
def either (left right : Lanes) : Lanes := Vector.zipWith (· ||| ·) left right

/-- `_mm_sub_epi8`, `vsubq_u8`, which wrap. -/
def minus (left right : Lanes) : Lanes := Vector.zipWith (· - ·) left right

/-- `_mm_min_epu8`. -/
def smaller (left right : Lanes) : Lanes := Vector.zipWith min left right

/-- `vcleq_u8`. -/
def atMost (left right : Lanes) : Lanes := Vector.zipWith (fun first second => maskByte (decide (first ≤ second))) left right

/-- The highest bits of the lanes.  (`_mm_movemask_epi8`) -/
def highBits (lanes : Lanes) : Nat := BitMasks.ofBits (lanes.toList.map fun lane => 0x80 ≤ lane)

/-- `vminvq_u8`. -/
def least (lanes : Lanes) : UInt8 := lanes.toList.foldl min 0xFF

/-- The lower or the upper eight lanes as a number, which starts with the lowest lane.  (`vgetq_lane_u64`) -/
def half (lanes : Lanes) (index : Nat) : Nat := Bytes.ofLe (Bytes.slice lanes.toList (8 * index) 8)

/-! ## Masks -/

/-- The mask of the lanes that have a property. -/
def mask (holds : Vector Bool 16) : Lanes := holds.map maskByte

theorem toList_load {bytes : List UInt8} {offset : Nat} (inside : offset + 16 ≤ bytes.length) :
    (load bytes offset).map Vector.toList = some (Bytes.slice bytes offset 16) := by
  rw [load, dif_pos inside]
  rfl

theorem equal_eq_mask (left right : Lanes) : equal left right = mask (Vector.zipWith (· == ·) left right) := by
  ext lane bound
  simp only [equal, mask, Vector.getElem_zipWith, Vector.getElem_map]

theorem equal_splat (lanes : Lanes) (byte : UInt8) : equal lanes (splat byte) = mask (lanes.map (· == byte)) := by
  ext lane bound
  simp only [equal, splat, mask, Vector.getElem_zipWith, Vector.getElem_replicate, Vector.getElem_map]

theorem both_mask (left right : Vector Bool 16) : both (mask left) (mask right) = mask (Vector.zipWith (· && ·) left right) := by
  ext lane bound
  simp only [both, mask, Vector.getElem_zipWith, Vector.getElem_map]
  cases left[lane] <;> cases right[lane] <;> rfl

theorem either_mask (left right : Vector Bool 16) : either (mask left) (mask right) = mask (Vector.zipWith (· || ·) left right) := by
  ext lane bound
  simp only [either, mask, Vector.getElem_zipWith, Vector.getElem_map]
  cases left[lane] <;> cases right[lane] <;> rfl

theorem atMost_eq_mask (left right : Lanes) :
    atMost left right = mask (Vector.zipWith (fun first second => decide (first ≤ second)) left right) := by
  ext lane bound
  simp only [atMost, mask, Vector.getElem_zipWith, Vector.getElem_map]

theorem min_eq_first_iff (first second : UInt8) : min first second = first ↔ first ≤ second := by
  rw [show min first second = if first ≤ second then first else second from rfl]
  constructor
  · intro same
    by_contra above
    rw [if_neg above] at same
    exact above (same ▸ UInt8.le_refl _)
  · intro below
    exact if_pos below

/-- A lane is at most another one when it is the smaller of the two. -/
theorem equal_smaller (left right : Lanes) : equal (smaller left right) left = atMost left right := by
  refine Vector.ext fun lane bound => ?_
  simp only [equal, smaller, atMost, Vector.getElem_zipWith]
  refine congrArg maskByte ?_
  rw [Bool.eq_iff_iff, beq_iff_eq, decide_eq_true_eq]
  exact min_eq_first_iff _ _

/-! ## Questions about masks -/

theorem highBits_mask (holds : Vector Bool 16) : highBits (mask holds) = BitMasks.ofBits holds.toList := by
  rw [highBits, mask, Vector.toList_map, List.map_map]
  congr 1
  exact (List.map_congr_left fun answer _ => by cases answer <;> rfl).trans (List.map_id _)

theorem highBits_full_iff (holds : Vector Bool 16) : highBits (mask holds) = 0xFFFF ↔ holds.toList.all id = true := by
  rw [highBits_mask, ← BitMasks.ofBits_eq_ones_iff, Vector.length_toList]
  rfl

theorem foldl_min_zero (bytes : List UInt8) : bytes.foldl min 0 = 0 := by
  induction bytes with
  | nil => rfl
  | cons byte rest ih =>
    have low : min 0 byte = 0 := (min_eq_first_iff 0 byte).mpr UInt8.zero_le
    rw [List.foldl_cons, low, ih]

theorem foldl_min_mask (answers : List Bool) : (answers.map maskByte).foldl min 0xFF = maskByte (answers.all id) := by
  induction answers with
  | nil => rfl
  | cons answer rest ih =>
    rw [List.map_cons, List.foldl_cons]
    cases answer with
    | true => exact ih
    | false => exact foldl_min_zero _

theorem least_full_iff (holds : Vector Bool 16) : least (mask holds) = 0xFF ↔ holds.toList.all id = true := by
  rw [least, mask, Vector.toList_map, foldl_min_mask]
  cases holds.toList.all id <;> decide

theorem findIdx_mask (holds : Vector Bool 16) : (mask holds).toList.findIdx (· == 0) = holds.toList.findIdx (!·) := by
  rw [mask, Vector.toList_map, List.findIdx_map]
  refine congrArg (List.findIdx · holds.toList) (funext fun answer => ?_)
  cases answer <;> rfl

theorem half_mask (holds : Vector Bool 16) (index : Nat) :
    half (mask holds) index = Bytes.ofLe ((Bytes.slice holds.toList (8 * index) 8).map maskByte) := by
  rw [half, mask, Vector.toList_map, Bytes.slice, Bytes.slice, List.map_take, List.map_drop]

theorem halves_append (holds : Vector Bool 16) :
    Bytes.slice holds.toList 0 8 ++ Bytes.slice holds.toList 8 8 = holds.toList := by
  have length : (holds.toList.drop 8).length = 8 := by rw [List.length_drop, Vector.length_toList]
  rw [Bytes.slice, Bytes.slice, List.drop_zero, List.take_of_length_le (Nat.le_of_eq length), List.take_append_drop]

theorem length_half {holds : Vector Bool 16} {start : Nat} (inside : start + 8 ≤ 16) :
    (Bytes.slice holds.toList start 8).length = 8 :=
  Bytes.length_slice (by rwa [Vector.length_toList])

theorem half_full_iff {holds : Vector Bool 16} {index : Nat} (inside : 8 * index + 8 ≤ 16) :
    half (mask holds) index = 2 ^ 64 - 1 ↔ (Bytes.slice holds.toList (8 * index) 8).all id = true := by
  have full := Bytes.ofLe_eq_max_iff ((Bytes.slice holds.toList (8 * index) 8).map maskByte)
  rw [List.length_map, length_half inside] at full
  rw [half_mask, show 2 ^ 64 - 1 = 256 ^ 8 - 1 by norm_num, full, List.forall_mem_map, List.all_eq_true]
  refine forall_congr' fun answer => imp_congr_right fun _ => ?_
  cases answer <;> decide

theorem halves_full_iff (holds : Vector Bool 16) :
    half (mask holds) 0 = 2 ^ 64 - 1 ∧ half (mask holds) 1 = 2 ^ 64 - 1 ↔ holds.toList.all id = true := by
  rw [half_full_iff (by decide), half_full_iff (by decide), ← Bool.and_eq_true, ← List.all_append]
  exact iff_of_eq (congrArg (fun answers : List Bool => answers.all id = true) (halves_append holds))

end Lanes

end MjFormatter.Library
