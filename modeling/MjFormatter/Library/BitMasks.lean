import Mathlib.Data.List.Basic
import Mathlib.Data.Nat.Bitwise

/-! # Masks of bits

A mask is a number whose bits are answers, the lowest bit first. -/

namespace MjFormatter.Library.BitMasks

def ofBits : List Bool → Nat
  | [] => 0
  | bit :: rest => bit.toNat + 2 * ofBits rest

theorem ofBits_lt (bits : List Bool) : ofBits bits < 2 ^ bits.length := by
  induction bits with
  | nil => exact Nat.one_pos
  | cons bit rest ih =>
    have small := Bool.toNat_lt bit
    rw [ofBits, List.length_cons, pow_succ]
    omega

theorem ofBits_eq_ones_iff (bits : List Bool) : ofBits bits = 2 ^ bits.length - 1 ↔ bits.all id = true := by
  induction bits with
  | nil => simp [ofBits]
  | cons bit rest ih =>
    have below := ofBits_lt rest
    rw [List.all_cons, Bool.and_eq_true, ← ih, ofBits, List.length_cons, pow_succ]
    cases bit with
    | true =>
      simp only [Bool.toNat_true, id_eq, true_and]
      omega
    | false =>
      simp only [Bool.toNat_false, id_eq, Bool.false_eq_true, false_and, iff_false]
      omega

/-! ## The lowest bit -/

/-- The number of zeros below the lowest bit of a word of 32 bits. -/
def trailingZeros (word : Nat) : Nat :=
  if word = 0 then 32 else if word % 2 = 1 then 0 else trailingZeros (word / 2) + 1

theorem trailingZeros_odd (half : Nat) : trailingZeros (2 * half + 1) = 0 := by
  rw [trailingZeros, if_neg (by omega), if_pos (by omega)]

theorem trailingZeros_double {half : Nat} (nonzero : half ≠ 0) : trailingZeros (2 * half) = trailingZeros half + 1 := by
  rw [trailingZeros, if_neg (by omega), if_neg (by omega), Nat.mul_div_cancel_left half (by decide)]

/-- The trailing zeros of the complement are the trailing ones. -/
theorem trailingZeros_not (bits : List Bool) {width : Nat} (wide : bits.length < width) :
    trailingZeros (2 ^ width - 1 - ofBits bits) = bits.findIdx (!·) := by
  induction bits generalizing width with
  | nil =>
    obtain ⟨width, rfl⟩ := Nat.exists_eq_add_of_lt wide
    have odd : 2 ^ (0 + width + 1) - 1 - ofBits [] = 2 * (2 ^ width - 1) + 1 := by
      have positive := Nat.two_pow_pos width
      rw [Nat.zero_add, pow_succ, ofBits]
      omega
    exact (congrArg trailingZeros odd).trans (trailingZeros_odd _)
  | cons bit rest ih =>
    obtain ⟨width, rfl⟩ := Nat.exists_eq_add_of_le' (Nat.one_le_of_lt wide)
    have narrower : rest.length < width := Nat.lt_of_succ_lt_succ wide
    have below := ofBits_lt rest
    have room : 2 ^ (rest.length + 1) ≤ 2 ^ width := Nat.pow_le_pow_right (by decide) narrower
    rw [pow_succ] at room
    cases bit with
    | true =>
      have even : 2 ^ (width + 1) - 1 - ofBits (true :: rest) = 2 * (2 ^ width - 1 - ofBits rest) := by
        rw [ofBits, pow_succ, Bool.toNat_true]
        omega
      rw [even, trailingZeros_double (by omega), ih narrower, List.findIdx_cons]
      rfl
    | false =>
      have odd : 2 ^ (width + 1) - 1 - ofBits (false :: rest) = 2 * (2 ^ width - 1 - ofBits rest) + 1 := by
        rw [ofBits, pow_succ, Bool.toNat_false]
        omega
      rw [odd, trailingZeros_odd, List.findIdx_cons]
      rfl

/-! ## Taking bits out -/

theorem and_pred_lt {mask : Nat} (nonzero : mask ≠ 0) : mask &&& (mask - 1) < mask :=
  Nat.lt_of_le_of_lt Nat.and_le_right (Nat.sub_one_lt nonzero)

/-- The places that a loop finds which takes the lowest bit out until none is left. -/
def takeBits (mask : Nat) : List Nat :=
  if nonzero : mask = 0 then [] else trailingZeros mask :: takeBits (mask &&& (mask - 1))
termination_by mask
decreasing_by exact and_pred_lt nonzero

theorem double_and_pred {half : Nat} (nonzero : half ≠ 0) :
    2 * half &&& (2 * half - 1) = 2 * (half &&& (half - 1)) := by
  have pred : 2 * half - 1 = Nat.bit true (half - 1) := by
    rw [Nat.bit_val, Bool.toNat_true]
    omega
  have double : 2 * half = Nat.bit false half := (Nat.bit_val false half).symm
  rw [pred, double, Nat.land_bit, Bool.false_and, Nat.bit_val]
  rfl

theorem odd_and_pred (half : Nat) : (2 * half + 1) &&& (2 * half + 1 - 1) = 2 * half := by
  have double : 2 * half = Nat.bit false half := (Nat.bit_val false half).symm
  have odd : 2 * half + 1 = Nat.bit true half := (Nat.bit_val true half).symm
  rw [Nat.add_sub_cancel, odd, double, Nat.land_bit, Bool.and_false, Nat.and_self]

theorem takeBits_double (half : Nat) : takeBits (2 * half) = (takeBits half).map (· + 1) := by
  induction half using takeBits.induct with
  | case1 => rw [takeBits]; rfl
  | case2 half nonzero ih =>
    rw [takeBits, dif_neg (by omega), takeBits.eq_def half, dif_neg nonzero, double_and_pred nonzero, ih,
      trailingZeros_double nonzero]
    rfl

theorem takeBits_odd (half : Nat) : takeBits (2 * half + 1) = 0 :: (takeBits half).map (· + 1) := by
  rw [takeBits, dif_neg (by omega), odd_and_pred, takeBits_double, trailingZeros_odd]

theorem takeBits_ofBits (bits : List Bool) : takeBits (ofBits bits) = bits.findIdxs id := by
  induction bits with
  | nil => rw [ofBits, takeBits]; rfl
  | cons bit rest ih =>
    cases bit with
    | true =>
      rw [ofBits, Bool.toNat_true, Nat.add_comm, takeBits_odd, ih]
      exact congrArg (0 :: ·) List.findIdxs_start.symm
    | false =>
      rw [ofBits, Bool.toNat_false, Nat.zero_add, takeBits_double, ih]
      exact List.findIdxs_start.symm

end MjFormatter.Library.BitMasks
