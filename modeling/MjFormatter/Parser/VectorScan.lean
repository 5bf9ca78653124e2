import MjFormatter.Library.ChunkLoops
import MjFormatter.Library.Lanes

/-! # Scanners on vectors

The scanners of `text_scan` and the classifiers of `simd_classify` on the two architectures that have vectors, and byte by byte.  A
scanner that reads outside of its bytes has no result. -/

namespace MjFormatter

open Library Lanes

inductive SimdArch where
  | sse2
  | neon
  deriving DecidableEq

/-! ## Byte by byte -/

def isAsciiUppercase (byte : UInt8) : Bool := 'A'.val.toUInt8 ≤ byte && byte ≤ 'Z'.val.toUInt8

def isAsciiLowercase (byte : UInt8) : Bool := 'a'.val.toUInt8 ≤ byte && byte ≤ 'z'.val.toUInt8

def isAsciiDigit (byte : UInt8) : Bool := '0'.val.toUInt8 ≤ byte && byte ≤ '9'.val.toUInt8

def isBlankByte (byte : UInt8) : Bool := byte == ' '.val.toUInt8 || byte == '\t'.val.toUInt8

def allBytesEqualScalar (bytes : List UInt8) (target : UInt8) : Bool := bytes.all (· == target)

def leadingWhitespaceByteCountScalar (bytes : List UInt8) : Nat := (bytes.takeWhile isBlankByte).length

/-- `bytes.iter().enumerate().skip(skipped)`, the positions of the uppercase letters. -/
def uppercasePositionsFrom (bytes : List UInt8) (skipped : Nat) : List Nat :=
  ((bytes.zipIdx.drop skipped).filter fun entry => isAsciiUppercase entry.1).map Prod.snd

def findUppercasePositionsScalar (bytes : List UInt8) : List Nat := uppercasePositionsFrom bytes 0

def isSnakeCaseScalar (bytes : List UInt8) : Bool :=
  bytes.all fun byte => isAsciiLowercase byte || isAsciiDigit byte || byte == '_'.val.toUInt8

def isUpperSnakeCaseScalar (bytes : List UInt8) : Bool :=
  bytes.all fun byte => isAsciiUppercase byte || isAsciiDigit byte || byte == '_'.val.toUInt8

/-! ## `text_scan` -/

/-- `len & !(2^bits - 1)`. -/
def alignDown (length bits : Nat) : Nat := length >>> bits <<< bits

/-- Whether a comparison holds in every lane. -/
def allSet : SimdArch → Lanes → Bool
  | .sse2, cmp => highBits cmp = 0xFFFF
  | .neon, cmp => least cmp = 0xFF

/-- The first lane in which a comparison fails. -/
def firstClear : SimdArch → Lanes → Option Nat
  | .sse2, cmp => if highBits cmp = 0xFFFF then none else some (BitMasks.trailingZeros (2 ^ 32 - 1 - highBits cmp))
  | .neon, cmp => if least cmp = 0xFF then none else some (cmp.toList.findIdx (· == 0))

/-- The loops of `all_bytes_equal` and `slices_equal`: four comparisons a turn, then one, then the tail. -/
def comparesEverywhere (arch : SimdArch) (length : Nat) (compare : Nat → Option Lanes) (tail : Nat → Bool) : Option Bool := do
  let exit64 ← chunkLoop 64 (alignDown length 6) (fun offset => do
    let c0 ← compare offset
    let c1 ← compare (offset + 16)
    let c2 ← compare (offset + 32)
    let c3 ← compare (offset + 48)
    let merged := both (both c0 c1) (both c2 c3)
    return if allSet arch merged then none else some false) 0
  match exit64 with
  | .error result => return result
  | .ok offset =>
    let exit16 ← chunkLoop 16 (alignDown length 4) (fun offset => do
      let cmp ← compare offset
      return if allSet arch cmp then none else some false) offset
    match exit16 with
    | .error result => return result
    | .ok offset => return tail offset

def allBytesEqualVector (arch : SimdArch) (bytes : List UInt8) (target : UInt8) : Option Bool :=
  if bytes.length < 32 then some (allBytesEqualScalar bytes target)
  else
    comparesEverywhere arch bytes.length (fun offset => do
      let chunk ← load bytes offset
      return equal chunk (splat target)) fun offset => allBytesEqualScalar (bytes.drop offset) target

def slicesEqualVector (arch : SimdArch) (a b : List UInt8) : Option Bool :=
  if a.length < 32 then some (a == b)
  else
    comparesEverywhere arch a.length (fun offset => do
      let av ← load a offset
      let bv ← load b offset
      return equal av bv) fun offset => a.drop offset == b.drop offset

def leadingWhitespaceByteCountVector (arch : SimdArch) (bytes : List UInt8) : Option Nat :=
  if bytes.length < 32 then some (leadingWhitespaceByteCountScalar bytes)
  else do
    -- `while offset + 16 <= len`
    let exit ← chunkLoop 16 (bytes.length - 15) (fun offset => do
      let chunk ← load bytes offset
      let cmp := either (equal chunk (splat ' '.val.toUInt8)) (equal chunk (splat '\t'.val.toUInt8))
      return (firstClear arch cmp).map (offset + ·)) 0
    match exit with
    | .error count => return count
    | .ok offset => return offset + leadingWhitespaceByteCountScalar (bytes.drop offset)

/-- Other architectures go byte by byte. -/
def allBytesEqual (arch : Option SimdArch) (bytes : List UInt8) (target : UInt8) : Option Bool :=
  if bytes = [] then some true
  else
    match arch with
    | some arch => allBytesEqualVector arch bytes target
    | none => some (allBytesEqualScalar bytes target)

def leadingWhitespaceByteCount (arch : Option SimdArch) (bytes : List UInt8) : Option Nat :=
  match arch with
  | some arch => leadingWhitespaceByteCountVector arch bytes
  | none => some (leadingWhitespaceByteCountScalar bytes)

def slicesEqual (arch : Option SimdArch) (a b : List UInt8) : Option Bool :=
  if a.length ≠ b.length then some false
  else
    match arch with
    | some arch => slicesEqualVector arch a b
    | none => some (a == b)

/-! ## `simd_classify` -/

/-- The lanes from `first` on, `span` more at most. -/
def within (arch : SimdArch) (lanes : Lanes) (first span : UInt8) : Lanes :=
  let shifted := minus lanes (splat first)
  match arch with
  | .sse2 => equal (smaller shifted (splat span)) shifted
  | .neon => atMost shifted (splat span)

/-- `(mask >> (bit * 8)) & 0xFF != 0` for the eight lanes of a half. -/
def halfPositions (mask base : Nat) : List Nat :=
  if mask ≠ 0 then ((List.range 8).filter fun bit => mask >>> (bit * 8) &&& 0xFF ≠ 0).map (base + ·) else []

def setPositions (arch : SimdArch) (answers : Lanes) (offset : Nat) : List Nat :=
  match arch with
  | .sse2 => (BitMasks.takeBits (highBits answers)).map (offset + ·)
  | .neon => halfPositions (half answers 0) offset ++ halfPositions (half answers 1) (offset + 8)

def findUppercasePositionsVector (arch : SimdArch) (bytes : List UInt8) : Option (List Nat) := do
  let chunks := bytes.length / 16
  let positions ← (List.range chunks).foldlM (fun positions chunk => do
    let offset := chunk * 16
    let v ← load bytes offset
    return positions ++ setPositions arch (within arch v 'A'.val.toUInt8 25) offset) []
  return positions ++ uppercasePositionsFrom bytes (chunks * 16)

def allLanesSet : SimdArch → Lanes → Bool
  | .sse2, valid => highBits valid = 0xFFFF
  | .neon, valid => half valid 0 = 2 ^ 64 - 1 && half valid 1 = 2 ^ 64 - 1

/-- The two case checks, which differ in their letters. -/
def isCaseVector (arch : SimdArch) (firstLetter : UInt8) (tail : List UInt8 → Bool) (bytes : List UInt8) : Option Bool := do
  let chunks := bytes.length / 16
  -- `for chunk in 0..chunks`, at `offset = chunk * 16`
  let exit ← chunkLoop 16 (chunks * 16) (fun offset => do
    let v ← load bytes offset
    let isLetter := within arch v firstLetter 25
    let isDigit := within arch v '0'.val.toUInt8 9
    let isUnder := equal v (splat '_'.val.toUInt8)
    let valid := either (either isLetter isDigit) isUnder
    return if allLanesSet arch valid then none else some false) 0
  match exit with
  | .error result => return result
  | .ok _ => return tail (bytes.drop (chunks * 16))

/-- The positions replace what was in `out`. -/
def findUppercasePositionsInto (arch : Option SimdArch) (bytes : List UInt8) (_out : List Nat) : Option (List Nat) :=
  match arch with
  | some arch => findUppercasePositionsVector arch bytes
  | none => some (findUppercasePositionsScalar bytes)

def isSnakeCaseBytes (arch : Option SimdArch) (bytes : List UInt8) : Option Bool :=
  match arch with
  | some arch => isCaseVector arch 'a'.val.toUInt8 isSnakeCaseScalar bytes
  | none => some (isSnakeCaseScalar bytes)

def isUpperSnakeCaseBytes (arch : Option SimdArch) (bytes : List UInt8) : Option Bool :=
  match arch with
  | some arch => isCaseVector arch 'A'.val.toUInt8 isUpperSnakeCaseScalar bytes
  | none => some (isUpperSnakeCaseScalar bytes)

end MjFormatter
