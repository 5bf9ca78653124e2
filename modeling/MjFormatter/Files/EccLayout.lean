import MjFormatter.Library.Bytes

/-! # Shards and their parity

The part of the framing that the state files and the frames of the journal have in common. -/

namespace MjFormatter.Files

open Library.Bytes

abbrev Shard := List UInt8

/-- `reed_solomon_erasure::galois_8::ReedSolomon`. -/
structure ReedSolomon where
  encode : List Shard → Option (List Shard)
  reconstruct : List (Option Shard) → Option (List (Option Shard))

/-- The crates under the framing: `crc32fast::hash` and `ReedSolomon::new`. -/
structure Crates where
  crc32 : List UInt8 → UInt32
  reedSolomon : Nat → Nat → Option ReedSolomon

/-! ## Errors -/

def context {α : Type} (message : String) : Option α → Except String α
  | some value => .ok value
  | none => .error message

/-- Bails out with the message unless the condition holds. -/
def ensure (condition : Prop) [Decidable condition] (message : String) : Except String Unit :=
  if condition then .ok () else .error message

/-- The digits of the format `08x`. -/
def hex08 (value : UInt32) : String :=
  let digits := Nat.toDigits 16 value.toNat
  String.ofList (List.replicate (8 - digits.length) '0' ++ digits)

/-! ## Sizes -/

def usizeMax : Nat := 2 ^ 64 - 1
def u32Max : Nat := 2 ^ 32 - 1
def u16Max : Nat := 2 ^ 16 - 1

def checkedAdd (a b : Nat) : Option Nat := if a + b ≤ usizeMax then some (a + b) else none

def checkedMul (a b : Nat) : Option Nat := if a * b ≤ usizeMax then some (a * b) else none

/-- `try_from` into an integer type with the given maximum. -/
def tryFrom (maximum value : Nat) : Option Nat := if value ≤ maximum then some value else none

def eccTargetShardSize : Nat := 4096
def eccMinDataShards : Nat := 2
def eccMaxDataShards : Nat := 32
def eccParityShards : Nat := 2

structure EccLayout where
  dataShards : Nat
  parityShards : Nat
  shardSize : Nat
  deriving DecidableEq, Repr

namespace EccLayout

/-- The layout of a payload whose length has been checked. -/
def sized (payloadLen : Nat) : EccLayout :=
  let effectivePayload := max payloadLen 1
  let dataShards := max eccMinDataShards (min (effectivePayload ⌈/⌉ eccTargetShardSize) eccMaxDataShards)
  { dataShards
    parityShards := eccParityShards
    shardSize := max (effectivePayload ⌈/⌉ dataShards) 1 }

def totalShards (layout : EccLayout) : Nat := layout.dataShards + layout.parityShards

end EccLayout

/-! ## Parity -/

def padded (layout : EccLayout) (payload : List UInt8) : List UInt8 :=
  payload ++ List.replicate (layout.dataShards * layout.shardSize - payload.length) 0

/-- The data shards, and the parity shards before they are computed. -/
def blankShards (layout : EccLayout) (payload : List UInt8) : List Shard :=
  chunks layout.shardSize (padded layout payload) ++
    List.replicate layout.parityShards (List.replicate layout.shardSize 0)

def encodeShards (crates : Crates) (layout : EccLayout) (payload : List UInt8) (failure : String) :
    Except String (List Shard) := do
  let codec ← context "failed building reed-solomon codec" (crates.reedSolomon layout.dataShards layout.parityShards)
  context failure (codec.encode (blankShards layout payload))

def reconstructShards (crates : Crates) (dataShards parityShards : Nat) (shards : List (Option Shard)) (failure : String) :
    Except String (List (Option Shard)) := do
  let codec ← context "failed building reed-solomon codec" (crates.reedSolomon dataShards parityShards)
  context failure (codec.reconstruct shards)

end MjFormatter.Files
