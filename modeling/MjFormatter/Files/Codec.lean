import MjFormatter.Files.EccLayout
import MjFormatter.Library.Erasures

/-! # The codec of the state files -/

namespace MjFormatter.Files

open Library.Bytes Library.Erasures

namespace StateCodec

def binaryMagic : List UInt8 := "MJFEC001".toUTF8.toList
def maxPayloadBytes : Nat := 256 * 1024 * 1024

def payloadLenBytes : Nat := 4
def dataShardsBytes : Nat := 2
def parityShardsBytes : Nat := 2
def shardSizeBytes : Nat := 4
def payloadChecksumBytes : Nat := 4
def shardChecksumBytes : Nat := 4

def payloadLenOffset : Nat := binaryMagic.length
def dataShardsOffset : Nat := payloadLenOffset + payloadLenBytes
def parityShardsOffset : Nat := dataShardsOffset + dataShardsBytes
def shardSizeOffset : Nat := parityShardsOffset + parityShardsBytes
def payloadChecksumOffset : Nat := shardSizeOffset + shardSizeBytes
def headerLen : Nat := payloadChecksumOffset + payloadChecksumBytes

/-! ## Layout -/

def forPayloadLen (payloadLen : Nat) : Except String EccLayout := do
  ensure (payloadLen ≤ maxPayloadBytes)
    s!"encoded state payload too large: {payloadLen} bytes (max {maxPayloadBytes})"
  return EccLayout.sized payloadLen

def fromHeader (dataShards parityShards shardSize : Nat) : Except String EccLayout := do
  ensure (eccMinDataShards ≤ dataShards ∧ dataShards ≤ eccMaxDataShards)
    s!"invalid data_shards in state frame: {dataShards} (allowed {eccMinDataShards}..={eccMaxDataShards})"
  ensure (parityShards = eccParityShards)
    s!"invalid parity_shards in state frame: {parityShards} (expected {eccParityShards})"
  ensure (shardSize ≠ 0) "invalid shard_size in state frame: 0"
  return { dataShards, parityShards, shardSize }

def checksumTableLen (layout : EccLayout) : Except String Nat :=
  context "state frame checksum table overflow" (checkedMul layout.totalShards shardChecksumBytes)

def shardsLen (layout : EccLayout) : Except String Nat :=
  context "state frame shard byte length overflow" (checkedMul layout.totalShards layout.shardSize)

def encodedLen (layout : EccLayout) : Except String Nat := do
  let tableLen ← checksumTableLen layout
  let shardBytes ← shardsLen layout
  context "state frame total length overflow"
    ((checkedAdd headerLen tableLen).bind fun value => checkedAdd value shardBytes)

def maxStateBytes : Nat :=
  match (do encodedLen (← forPayloadLen maxPayloadBytes) : Except String Nat) with
  | .ok value => value
  | .error _ => usizeMax

/-! ## Encoding -/

/-- `postcard::to_allocvec` and `postcard::from_bytes` at one type. -/
structure Postcard (T : Type) where
  toAllocvec : T → Option (List UInt8)
  fromBytes : List UInt8 → Option T

variable {T : Type} (crates : Crates) (postcard : Postcard T)

def header (layout : EccLayout) (payloadLen : Nat) (payloadChecksum : UInt32) : Except String (List UInt8) := do
  let dataShards ← context "data shard count exceeds u16" (tryFrom u16Max layout.dataShards)
  let parityShards ← context "parity shard count exceeds u16" (tryFrom u16Max layout.parityShards)
  let shardSize ← context "shard size exceeds u32" (tryFrom u32Max layout.shardSize)
  return binaryMagic ++ (toLe payloadLenBytes payloadLen ++ (toLe dataShardsBytes dataShards ++
    (toLe parityShardsBytes parityShards ++ (toLe shardSizeBytes shardSize ++
      toLe payloadChecksumBytes payloadChecksum.toNat))))

def encodePayload (payload : List UInt8) : Except String (List UInt8) := do
  let layout ← forPayloadLen payload.length
  let payloadLen ← context "payload size exceeds u32" (tryFrom u32Max payload.length)
  let shards ← encodeShards crates layout payload "failed encoding reed-solomon parity shards"
  let _ ← encodedLen layout
  let front ← header layout payloadLen (crates.crc32 payload)
  return front ++ ((shards.map fun shard => toLe shardChecksumBytes (crates.crc32 shard).toNat).flatten ++ shards.flatten)

def encodeBinary (value : T) : Except String (List UInt8) := do
  let payload ← context "failed postcard state encoding" (postcard.toAllocvec value)
  encodePayload crates payload

/-! ## Decoding -/

def readUint (width : Nat) (bytes : List UInt8) (offset : Nat) (field : String) : Except String Nat := do
  let raw ← context s!"missing {field} field bytes" (getRange bytes offset (offset + width))
  return ofLe raw

def readU16 (bytes : List UInt8) (offset : Nat) (field : String) : Except String Nat := readUint 2 bytes offset field

def readU32 (bytes : List UInt8) (offset : Nat) (field : String) : Except String Nat := readUint 4 bytes offset field

structure Header where
  payloadLen : Nat
  layout : EccLayout
  payloadChecksum : UInt32

def readHeader (bytes : List UInt8) : Except String Header := do
  ensure (binaryMagic.isPrefixOf bytes) "unsupported state format; expected current ECC binary framing"
  ensure (headerLen ≤ bytes.length) s!"invalid state frame: {bytes.length} bytes (header {headerLen})"
  let payloadLen ← readU32 bytes payloadLenOffset "payload length"
  ensure (payloadLen ≤ maxPayloadBytes)
    s!"binary state payload exceeds max size: {payloadLen} bytes (max {maxPayloadBytes})"
  let dataShards ← readU16 bytes dataShardsOffset "data_shards"
  let parityShards ← readU16 bytes parityShardsOffset "parity_shards"
  let shardSize ← readU32 bytes shardSizeOffset "shard_size"
  let payloadChecksum ← readU32 bytes payloadChecksumOffset "payload_checksum"
  let layout ← fromHeader dataShards parityShards shardSize
  return { payloadLen, layout, payloadChecksum := UInt32.ofNat payloadChecksum }

def readShardChecksums (bytes : List UInt8) : Nat → Nat → Except String (List UInt32)
  | _, 0 => return []
  | offset, count + 1 => do
    let checksum ← readU32 bytes offset "shard_checksum"
    let others ← readShardChecksums bytes (offset + shardChecksumBytes) count
    return UInt32.ofNat checksum :: others

/-- The last pass over the shards, which joins those of the payload. -/
def joinShards (dataShards : Nat) (shards : List (Option Shard)) :
    Nat → List UInt32 → List UInt8 → Except String (List UInt8)
  | _, [], payload => return payload
  | idx, expectedChecksum :: expected, payload => do
    let shard ← context "missing shard after reconstruction" (shards[idx]?.join)
    let checksum := crates.crc32 shard
    ensure (checksum = expectedChecksum) ("reconstructed shard checksum mismatch at index " ++ toString idx ++
      ": expected " ++ hex08 expectedChecksum ++ ", got " ++ hex08 checksum)
    joinShards dataShards shards (idx + 1) expected (if idx < dataShards then payload ++ shard else payload)

def decodePayload (bytes : List UInt8) : Except String (List UInt8) := do
  let { payloadLen, layout, payloadChecksum } ← readHeader bytes
  let tableLen ← checksumTableLen layout
  let shardBytes ← shardsLen layout
  let expectedTotalLen ← context "state frame total length overflow"
    ((checkedAdd headerLen tableLen).bind fun value => checkedAdd value shardBytes)
  ensure (bytes.length = expectedTotalLen)
    s!"state frame length mismatch: expected {expectedTotalLen}, actual {bytes.length}"
  let expected ← readShardChecksums bytes headerLen layout.totalShards
  let received := blocks layout.shardSize layout.totalShards (bytes.drop (headerLen + tableLen))
  let shards := sift crates.crc32 expected received
  ensure (missing shards ≤ layout.parityShards) ("uncorrectable state corruption: " ++ toString (missing shards) ++
    " damaged shards with parity " ++ toString layout.parityShards)
  let shards ← reconstructShards crates layout.dataShards layout.parityShards shards
    "failed reconstructing corrupted state shards"
  let joined ← joinShards crates layout.dataShards shards 0 expected []
  let payload := joined.take payloadLen
  let decodedChecksum := crates.crc32 payload
  ensure (decodedChecksum = payloadChecksum) ("payload checksum mismatch after reconstruction: expected " ++
    hex08 payloadChecksum ++ ", got " ++ hex08 decodedChecksum)
  return payload

def decodeBinary (bytes : List UInt8) : Except String T := do
  let payload ← decodePayload crates bytes
  context "failed postcard state decoding" (postcard.fromBytes payload)

/-- The file at `path` holds the bytes. -/
def readDecodeBinary (path : String) (bytes : List UInt8) : Except String T := do
  ensure (bytes.length ≤ maxStateBytes)
    s!"state file too large: {bytes.length} bytes (max {maxStateBytes}) at {path}"
  decodeBinary crates postcard bytes

end StateCodec

end MjFormatter.Files
