import MjFormatter.Library.Splice
import MjFormatter.Model.Text

/-! # Byte offsets in a text

The scanner finds lines, identifiers and names by byte offsets. -/

namespace MjFormatter

open Library

/-- The number of bytes of a text. -/
def byteLength (text : Text) : Nat := measure Char.utf8Size text

theorem byteLength_append (front back : Text) : byteLength (front ++ back) = byteLength front + byteLength back :=
  measure_append _ _ _

theorem byteLength_replicate (count : Nat) {symbol : Char} (narrow : symbol.utf8Size = 1) :
    byteLength (List.replicate count symbol) = count := by
  induction count with
  | zero => rfl
  | succ count inductionHypothesis =>
    rw [List.replicate_succ, byteLength, measure_cons, ← byteLength, inductionHypothesis, narrow]
    exact Nat.add_comm 1 count

/-- `text_scan::line_starts`, without the start behind a last line feed. -/
def lineStarts (text : Text) : List Nat :=
  0 :: ((List.range text.asBytes.length).filter fun index =>
    text.asBytes[index]? = some '\n'.val.toUInt8 ∧ index + 1 < text.asBytes.length).map (· + 1)

/-- The binary search for the last line start that is not behind the offset. -/
def lineForOffset (starts : List Nat) (offset : Nat) : Nat := starts.countP fun start => start ≤ offset

/-- `text_scan::is_identifier_byte`. -/
def isIdentifierByte (byte : UInt8) : Bool :=
  ('a'.val.toUInt8 ≤ byte && byte ≤ 'z'.val.toUInt8) || ('A'.val.toUInt8 ≤ byte && byte ≤ 'Z'.val.toUInt8) ||
    ('0'.val.toUInt8 ≤ byte && byte ≤ '9'.val.toUInt8) || byte == '_'.val.toUInt8

/-- The bytes around a range do not go on with the identifier. -/
def hasIdentifierBoundaries (bytes : List UInt8) (start stop : Nat) : Bool :=
  !(decide (0 < start) && bytes[start - 1]?.any isIdentifierByte) && !bytes[stop]?.any isIdentifierByte

/-- `text_scan::subslice_match_indices`: every offset at which the needle stands, also overlapping ones. -/
def subsliceMatchIndices (haystack needle : List UInt8) : List Nat :=
  if needle = [] then []
  else (List.range haystack.length).filter fun index => needle.isPrefixOf (haystack.drop index)

end MjFormatter
