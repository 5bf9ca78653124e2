import MjFormatter.Files.EccLayout
import MjFormatter.Library.Erasures

/-! # Frames of the journal and of the worker pipes -/

namespace MjFormatter.Files

open Library.Bytes Library.Erasures

namespace EccFrame

def frameMagic : List UInt8 := "MJRP".toUTF8.toList
def maxFramePayload : Nat := 64 * 1024 * 1024

variable (crates : Crates)

/-! ## Writing -/

def forPayload (payloadLen : Nat) : Except String EccLayout := do
  ensure (payloadLen ≤ maxFramePayload) s!"ecc frame payload too large: {payloadLen} bytes (max {maxFramePayload})"
  return EccLayout.sized payloadLen

/-- Appends the frame of the payload to what has been written. -/
def writeFrame (written payload : List UInt8) : Except String (List UInt8) := do
  let layout ← forPayload payload.length
  let payloadLen ← context "payload size exceeds u32" (tryFrom u32Max payload.length)
  let shards ← encodeShards crates layout payload "failed encoding parity shards"
  let header := frameMagic ++ (toLe 4 payloadLen ++ (toLe 4 (crates.crc32 payload).toNat ++
    (toLe 2 layout.dataShards ++ (toLe 2 layout.parityShards ++ toLe 4 layout.shardSize))))
  return written ++ (header ++ ((shards.map fun shard => toLe 4 (crates.crc32 shard).toNat).flatten ++ shards.flatten))

/-! ## Reading -/

def readExact (count : Nat) (stream : List UInt8) : Except String (List UInt8 × List UInt8) :=
  if count ≤ stream.length then .ok (stream.take count, stream.drop count)
  else .error "failed to fill whole buffer"

def readLe (width : Nat) (stream : List UInt8) : Except String (Nat × List UInt8) := do
  let (buffer, stream) ← readExact width stream
  return (ofLe buffer, stream)

structure Header where
  payloadLen : Nat
  payloadCrc : UInt32
  dataShards : Nat
  parityShards : Nat
  shardSize : Nat

/-- The fields after the magic. -/
def readHeader (stream : List UInt8) : Except String (Header × List UInt8) := do
  let (payloadLen, stream) ← readLe 4 stream
  ensure (payloadLen ≤ maxFramePayload) s!"ecc frame payload too large: {payloadLen}"
  let (payloadCrc, stream) ← readLe 4 stream
  let (dataShards, stream) ← readLe 2 stream
  let (parityShards, stream) ← readLe 2 stream
  let (shardSize, stream) ← readLe 4 stream
  ensure (eccMinDataShards ≤ dataShards ∧ dataShards ≤ eccMaxDataShards) s!"invalid data_shards: {dataShards}"
  ensure (parityShards = eccParityShards) s!"invalid parity_shards: {parityShards}"
  ensure (shardSize ≠ 0) "invalid shard_size: 0"
  return ({ payloadLen, payloadCrc := UInt32.ofNat payloadCrc, dataShards, parityShards, shardSize }, stream)

def readCrcs : Nat → List UInt8 → Except String (List UInt32 × List UInt8)
  | 0, stream => return ([], stream)
  | count + 1, stream => do
    let (crc, stream) ← readLe 4 stream
    let (others, stream) ← readCrcs count stream
    return (UInt32.ofNat crc :: others, stream)

/-- Reads a shard for each checksum; one that does not match is left out and counted. -/
def readShards (shardSize : Nat) :
    List UInt32 → List UInt8 → Except String (List (Option Shard) × Nat × List UInt8)
  | [], stream => return ([], 0, stream)
  | expectedCrc :: expected, stream => do
    let (shard, stream) ← readExact shardSize stream
    let (others, corrupted, stream) ← readShards shardSize expected stream
    if crates.crc32 shard = expectedCrc then
      return (some shard :: others, corrupted, stream)
    else
      return (none :: others, corrupted + 1, stream)

def joinShards : List (Option Shard) → Except String (List UInt8)
  | [] => return []
  | slot :: slots => do
    let shard ← context "missing shard after reconstruction" slot
    let others ← joinShards slots
    return shard ++ others

/-- The codec is asked only when a shard is missing. -/
def fillShards (header : Header) (shards : List (Option Shard)) (corrupted : Nat) : Except String (List (Option Shard)) :=
  if 0 < corrupted then
    reconstructShards crates header.dataShards header.parityShards shards "failed reconstructing corrupted shards"
  else .ok shards

/-- What is done once the frame has been read to its end. -/
def recoverPayload (header : Header) (shards : List (Option Shard)) (corrupted : Nat) : Except String (List UInt8) := do
  ensure (corrupted ≤ header.parityShards) ("uncorrectable frame corruption: " ++ toString corrupted ++
    " damaged shards (parity=" ++ toString header.parityShards ++ ")")
  let shards ← fillShards crates header shards corrupted
  let joined ← joinShards (shards.take header.dataShards)
  let payload := joined.take header.payloadLen
  let actualCrc := crates.crc32 payload
  ensure (actualCrc = header.payloadCrc) ("payload checksum mismatch: expected " ++ hex08 header.payloadCrc ++
    ", got " ++ hex08 actualCrc)
  return payload

/-- The payload of the next frame, if there is one, and the bytes after it. -/
def readFrame (stream : List UInt8) : Except String (Option (List UInt8) × List UInt8) :=
  match readExact 4 stream with
  | .error _ => .ok (none, [])
  | .ok (magic, stream) => do
    ensure (magic = frameMagic) s!"invalid ecc frame magic: {magic}"
    let (header, stream) ← readHeader stream
    let (expected, stream) ← readCrcs (header.dataShards + header.parityShards) stream
    let (shards, corrupted, stream) ← readShards crates header.shardSize expected stream
    let payload ← recoverPayload crates header shards corrupted
    return (some payload, stream)

end EccFrame

end MjFormatter.Files
