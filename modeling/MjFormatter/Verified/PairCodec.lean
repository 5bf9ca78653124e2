import MjFormatter.Verified.ShardDamage

/-! # The crates on the smallest layout

The checksum in full, and the codec of the payloads of up to 8192 bytes, which have two data shards and two parity
shards.  It keeps to the law on which the framing relies. -/

namespace MjFormatter.Verified

open Files Library.Erasures

/-! ## CRC-32 -/

def crc32Shift : Nat → UInt32 → UInt32
  | 0, crc => crc
  | bits + 1, crc => crc32Shift bits ((crc >>> 1) ^^^ (if crc &&& 1 = 0 then 0 else 0xedb88320))

def crc32 (bytes : List UInt8) : UInt32 :=
  (bytes.foldl (fun crc byte => crc32Shift 8 (crc ^^^ byte.toUInt32)) 0xffffffff) ^^^ 0xffffffff

example : crc32 "123456789".toUTF8.toList = 0xcbf43926 := by decide +kernel

/-! ## The field of 256 elements -/

/-- Twice a field element; the polynomial of the field is `0x11d`. -/
def double (a : UInt8) : UInt8 := (a <<< 1) ^^^ (if a &&& 0x80 = 0 then 0 else 0x1d)

def scaleBits : Nat → UInt8 → UInt8 → UInt8
  | 0, _, _ => 0
  | bits + 1, factor, a => (if factor &&& 1 = 0 then 0 else a) ^^^ scaleBits bits (factor >>> 1) (double a)

/-- The product of two field elements. -/
def scale (factor a : UInt8) : UInt8 := scaleBits 8 factor a

theorem forall_byte {p : UInt8 → Prop} (all : ∀ n : Fin 256, p (UInt8.ofNat n)) (a : UInt8) : p a := by
  have found := all ⟨a.toNat, a.toNat_lt⟩
  simpa using found

theorem double_xor (a b : UInt8) : double (a ^^^ b) = double a ^^^ double b := by
  have top : ∀ a : UInt8, a &&& 0x80 = 0 ∨ a &&& 0x80 = 0x80 := by
    apply forall_byte
    decide +kernel
  have masked : (a ^^^ b) &&& 0x80 = (a &&& 0x80) ^^^ (b &&& 0x80) := by
    apply UInt8.toBitVec_inj.mp
    ext i
    simp [Bool.and_xor_distrib_right]
  simp only [double, UInt8.shiftLeft_xor, masked]
  -- The two highest bits decide whether the polynomial is added.
  cases top a with
  | inl lowA =>
    cases top b with
    | inl lowB => simp [lowA, lowB]
    | inr highB => simp [lowA, highB, UInt8.xor_assoc]
  | inr highA =>
    cases top b with
    | inl lowB =>
      simp [highA, lowB]
      ac_rfl
    | inr highB =>
      have cancels (x y z : UInt8) : x ^^^ z ^^^ (y ^^^ z) = x ^^^ y ^^^ (z ^^^ z) := by ac_rfl
      simp [highA, highB, cancels]

theorem scaleBits_xor (bits : Nat) (factor a b : UInt8) :
    scaleBits bits factor (a ^^^ b) = scaleBits bits factor a ^^^ scaleBits bits factor b := by
  induction bits generalizing factor a b with
  | zero => simp [scaleBits]
  | succ bits ih =>
    simp only [scaleBits, double_xor, ih]
    by_cases even : factor &&& 1 = 0
    · simp [even]
    · simp only [even, if_false]
      ac_rfl

theorem scale_xor (factor a b : UInt8) : scale factor (a ^^^ b) = scale factor a ^^^ scale factor b :=
  scaleBits_xor 8 factor a b

theorem double_zero : double 0 = 0 := by decide

theorem scaleBits_double (bits : Nat) (factor a : UInt8) :
    scaleBits bits factor (double a) = double (scaleBits bits factor a) := by
  induction bits generalizing factor a with
  | zero => simp [scaleBits, double_zero]
  | succ bits ih =>
    simp only [scaleBits, ih, double_xor]
    by_cases even : factor &&& 1 = 0
    · simp [even, double_zero]
    · simp [even]

theorem scale_left_comm (c d a : UInt8) : scale c (scale d a) = scale d (scale c a) := by
  have comm (bits : Nat) (d a : UInt8) : scale c (scaleBits bits d a) = scaleBits bits d (scale c a) := by
    have scaleZero : scale c 0 = 0 := by
      have twice := scale_xor c 0 0
      simpa using twice
    induction bits generalizing d a with
    | zero => exact scaleZero
    | succ bits ih =>
      simp only [scaleBits, scale_xor, ih]
      have doubled : scale c (double a) = double (scale c a) := scaleBits_double 8 c a
      by_cases even : d &&& 1 = 0
      · simp [even, scaleZero, doubled]
      · simp [even, doubled]
  exact comm 8 d a

theorem scale_one (a : UInt8) : scale a 1 = a := by
  revert a
  apply forall_byte
  decide +kernel

theorem scale_comm (a b : UInt8) : scale a b = scale b a := by
  have swapped := scale_left_comm a b 1
  rwa [scale_one, scale_one] at swapped

theorem scale_scale (c d a : UInt8) : scale c (scale d a) = scale (scale c d) a := by
  rw [scale_comm d a, scale_left_comm c a d, scale_comm]

theorem xor_scale (c d a : UInt8) : scale (c ^^^ d) a = scale c a ^^^ scale d a := by
  rw [scale_comm, scale_xor, scale_comm a c, scale_comm a d]

/-! ## Combinations of two shards -/

def combine (row : UInt8 × UInt8) (xs ys : Shard) : Shard :=
  List.zipWith (fun x y => scale row.1 x ^^^ scale row.2 y) xs ys

/-- The row turns the shards of two rows into that of the target. -/
def Solves (row first second target : UInt8 × UInt8) : Prop :=
  scale row.1 first.1 ^^^ scale row.2 second.1 = target.1 ∧ scale row.1 first.2 ^^^ scale row.2 second.2 = target.2

instance (row first second target : UInt8 × UInt8) : Decidable (Solves row first second target) :=
  inferInstanceAs (Decidable (_ ∧ _))

theorem combine_combine {row first second target : UInt8 × UInt8} (solves : Solves row first second target)
    (xs ys : Shard) : combine row (combine first xs ys) (combine second xs ys) = combine target xs ys := by
  induction xs generalizing ys with
  | nil => simp [combine]
  | cons a xs ih =>
    cases ys with
    | nil => simp [combine]
    | cons b ys =>
      have others := ih ys
      simp only [combine] at others
      simp only [combine, List.zipWith_cons_cons, others, scale_xor, scale_scale]
      congr 1
      calc _ = (scale (scale row.1 first.1) a ^^^ scale (scale row.2 second.1) a) ^^^
            (scale (scale row.1 first.2) b ^^^ scale (scale row.2 second.2) b) := by ac_rfl
        _ = _ := by rw [← xor_scale, ← xor_scale, solves.1, solves.2]

/-! ## The codec -/

/-- The rows of the two data shards and of the two parity shards. -/
def dataRow₀ : UInt8 × UInt8 := (1, 0)
def dataRow₁ : UInt8 × UInt8 := (0, 1)
def parityRow₀ : UInt8 × UInt8 := (3, 2)
def parityRow₁ : UInt8 × UInt8 := (2, 3)

def pairShards (xs ys : Shard) : List Shard := [xs, ys, combine parityRow₀ xs ys, combine parityRow₁ xs ys]

/-- Solves for the data shards by two rows from two shards that are there. -/
def restore (row₀ row₁ : UInt8 × UInt8) (xs ys : Shard) : Option (List (Option Shard)) :=
  some ((pairShards (combine row₀ xs ys) (combine row₁ xs ys)).map some)

def pairCodec : ReedSolomon where
  encode
    | [xs, ys, _, _] => some (pairShards xs ys)
    | _ => none
  reconstruct
    | [some xs, some ys, _, _] => restore dataRow₀ dataRow₁ xs ys
    | [some xs, none, some ps, _] => restore dataRow₀ (0x8f, 0x8e) xs ps
    | [some xs, none, none, some qs] => restore dataRow₀ (0xf5, 0xf4) xs qs
    | [none, some ys, some ps, _] => restore (0xf5, 0xf4) dataRow₀ ys ps
    | [none, some ys, none, some qs] => restore (0x8f, 0x8e) dataRow₀ ys qs
    | [none, none, some ps, some qs] => restore parityRow₀ parityRow₁ ps qs
    | _ => none

theorem combine_dataRow₀ {xs ys : Shard} (same : xs.length = ys.length) : combine dataRow₀ xs ys = xs := by
  have unit (a : UInt8) : scale 1 a = a := by rw [scale_comm, scale_one]
  have zero (a : UInt8) : scale 0 a = 0 := by simpa using xor_scale 0 0 a
  induction xs generalizing ys with
  | nil => rfl
  | cons a xs ih =>
    cases ys with
    | nil => simp at same
    | cons b ys =>
      have others := ih (by simpa using same)
      simp only [combine] at others
      simp [combine, dataRow₀, unit, zero] at others ⊢
      exact others

theorem combine_dataRow₁ {xs ys : Shard} (same : xs.length = ys.length) : combine dataRow₁ xs ys = ys := by
  have swapped : combine dataRow₁ xs ys = combine dataRow₀ ys xs := by
    simp only [combine, dataRow₀, dataRow₁]
    rw [List.zipWith_comm]
    simp only [UInt8.xor_comm]
  rw [swapped, combine_dataRow₀ same.symm]

/-- Two shards give back all four when their rows can be solved for both data shards. -/
theorem restore_eq {xs ys : Shard} {row₀ row₁ first second : UInt8 × UInt8} (same : xs.length = ys.length)
    (solves₀ : Solves row₀ first second dataRow₀) (solves₁ : Solves row₁ first second dataRow₁) :
    restore row₀ row₁ (combine first xs ys) (combine second xs ys) = some ((pairShards xs ys).map some) := by
  rw [restore, combine_combine solves₀, combine_combine solves₁, combine_dataRow₀ same, combine_dataRow₁ same]

theorem pairCodec_recovers {xs ys : Shard} (same : xs.length = ys.length) :
    Recovers pairCodec.reconstruct 2 (pairShards xs ys) := by
  intro slots erased few
  have first := combine_dataRow₀ same
  have second := combine_dataRow₁ same
  -- Any two of the four shards are enough.
  have data : restore dataRow₀ dataRow₁ (combine dataRow₀ xs ys) (combine dataRow₁ xs ys) = some ((pairShards xs ys).map some) :=
    restore_eq same (by decide) (by decide)
  have firstAndFirst : restore dataRow₀ (0x8f, 0x8e) (combine dataRow₀ xs ys) (combine parityRow₀ xs ys) =
      some ((pairShards xs ys).map some) :=
    restore_eq same (by decide) (by decide)
  have firstAndSecond : restore dataRow₀ (0xf5, 0xf4) (combine dataRow₀ xs ys) (combine parityRow₁ xs ys) =
      some ((pairShards xs ys).map some) :=
    restore_eq same (by decide) (by decide)
  have secondAndFirst : restore (0xf5, 0xf4) dataRow₀ (combine dataRow₁ xs ys) (combine parityRow₀ xs ys) =
      some ((pairShards xs ys).map some) :=
    restore_eq same (by decide) (by decide)
  have secondAndSecond : restore (0x8f, 0x8e) dataRow₀ (combine dataRow₁ xs ys) (combine parityRow₁ xs ys) =
      some ((pairShards xs ys).map some) :=
    restore_eq same (by decide) (by decide)
  have parity : restore parityRow₀ parityRow₁ (combine parityRow₀ xs ys) (combine parityRow₁ xs ys) =
      some ((pairShards xs ys).map some) :=
    restore_eq same (by decide) (by decide)
  rw [first] at firstAndFirst firstAndSecond
  rw [second] at secondAndFirst secondAndSecond
  rw [first, second] at data
  simp only [Library.Erasures.Erased, pairShards, List.forall₂_cons_left_iff, List.forall₂_nil_left_iff] at erased
  obtain ⟨s₀, _, kept₀, ⟨s₁, _, kept₁, ⟨s₂, _, kept₂, ⟨s₃, _, kept₃, rfl, rfl⟩, rfl⟩, rfl⟩, rfl⟩ := erased
  rcases kept₀ with rfl | rfl <;> rcases kept₁ with rfl | rfl <;> rcases kept₂ with rfl | rfl <;>
    rcases kept₃ with rfl | rfl <;>
    first
    | exact data
    | exact firstAndFirst
    | exact firstAndSecond
    | exact secondAndFirst
    | exact secondAndSecond
    | exact parity
    | simp [missing] at few

theorem pairCodec_law {layout : EccLayout} (data : layout.dataShards = 2) (parity : layout.parityShards = 2) :
    CodecLaw layout pairCodec := by
  intro blank counted uniform
  rw [EccLayout.totalShards, data, parity] at counted
  obtain ⟨xs, ys, zs, ws, rfl⟩ := List.length_eq_four.mp counted
  have left : xs.length = layout.shardSize := uniform xs (by simp)
  have right : ys.length = layout.shardSize := uniform ys (by simp)
  use pairShards xs ys
  constructor
  · rfl
  constructor
  · simp [pairShards, EccLayout.totalShards, data, parity]
  constructor
  · intro shard member
    simp only [pairShards, List.mem_cons, List.not_mem_nil, or_false] at member
    rcases member with rfl | rfl | rfl | rfl <;> simp [combine, left, right]
  constructor
  · simp [data, pairShards]
  · rw [parity]
    exact pairCodec_recovers (left.trans right.symm)

/-- The crates as far as payloads with two data shards need them. -/
def pairCrates : Crates where
  crc32 := crc32
  reedSolomon dataShards parityShards := if dataShards = 2 ∧ parityShards = 2 then some pairCodec else none

theorem pairCrates_corrects {layout : EccLayout} (data : layout.dataShards = 2) (parity : layout.parityShards = 2) :
    Corrects pairCrates layout := by
  use pairCodec
  exact ⟨by simp [pairCrates, data, parity], pairCodec_law data parity⟩

end MjFormatter.Verified
