import Mathlib.Data.List.Basic
import MjFormatter.Library.Lines

/-! # Texts and the scanner's line operations

A source text is the sequence of its characters.  The scanner compares and cuts UTF-8 bytes; a line
feed is one byte and never part of another character, so cutting after line feeds is the same on
characters.  Byte offsets are taken on `asBytes`. -/

namespace MjFormatter

open Library.Lines

/-- The contents of a file, or of some of its lines. -/
abbrev Text := List Char

-- Goes through the symbols of the text only, not through all characters
instance (priority := high) decidableForallSymbol (holds : Char → Prop) [DecidablePred holds] (text : Text) :
    Decidable (∀ symbol ∈ text, holds symbol) :=
  text.decidableBAll holds

instance (priority := high) decidableForallFound (holds : Char → Prop) [DecidablePred holds] (found : Option Char) :
    Decidable (∀ symbol ∈ found, holds symbol) :=
  Option.decidableForallMem found

def Text.asBytes (text : Text) : List UInt8 := text.flatMap String.utf8EncodeChar

/-! ## Line scanning -/

def stripSuffixChar (suffix : Char) (line : Text) : Option Text :=
  if line.getLast? = some suffix then some line.dropLast else none

/-- `TextScanEngine::split_lines_as_slices`. -/
def splitLinesAsSlices (text : Text) (keepEnds : Bool) : List Text :=
  if keepEnds then splitKeepEnds '\n' text
  else (splitKeepEnds '\n' text).map fun line => (stripSuffixChar '\n' line).getD line

/-- `TextScanEngine::has_line_count_changed`: the numbers of line feeds differ. -/
def hasLineCountChanged (before after : Text) : Bool :=
  before.count '\n' ≠ after.count '\n'

/-- The standard library's `str::lines`: a carriage return before the line feed is part of the line
ending, any other carriage return stays. -/
def strLines (text : Text) : List Text :=
  (splitKeepEnds '\n' text).map fun line =>
    match stripSuffixChar '\n' line with
    | none => line
    | some line => (stripSuffixChar '\r' line).getD line

theorem isLines_splitLinesAsSlices (text : Text) : IsLines '\n' (splitLinesAsSlices text true) :=
  isLines_splitKeepEnds '\n' text

theorem flatten_splitLinesAsSlices (text : Text) : (splitLinesAsSlices text true).flatten = text :=
  flatten_splitKeepEnds '\n' text

theorem splitLinesAsSlices_flatten {lines : List Text} (wellFormed : IsLines '\n' lines) :
    splitLinesAsSlices lines.flatten true = lines :=
  splitKeepEnds_flatten wellFormed

theorem splitLinesAsSlices_ne_nil {text line : Text} (member : line ∈ splitLinesAsSlices text true) :
    line ≠ [] :=
  (isLines_splitLinesAsSlices text).ne_nil member

/-- `text_utils::detect_line_ending`. -/
def detectLineEnding : Text → String
  | '\r' :: '\n' :: _ => "\r\n"
  | _ :: rest => detectLineEnding rest
  | [] => "\n"

/-! ## Character classes and trimming -/

/-- The Unicode property `White_Space`, by which `str::trim` trims. -/
def isWhitespace (symbol : Char) : Bool :=
  let code := symbol.toNat
  (0x09 ≤ code && code ≤ 0x0D) || code == 0x20 || code == 0x85 || code == 0xA0 || code == 0x1680 ||
    (0x2000 ≤ code && code ≤ 0x200A) || code == 0x2028 || code == 0x2029 || code == 0x202F ||
    code == 0x205F || code == 0x3000

def isAsciiAlphabetic (symbol : Char) : Bool :=
  ('a' ≤ symbol && symbol ≤ 'z') || ('A' ≤ symbol && symbol ≤ 'Z')

def toAsciiLowercase (text : Text) : Text := text.map Char.toLower

/-- `str::to_lowercase`, up to characters that stay outside ASCII: besides the ASCII letters only the
Kelvin sign becomes an ASCII letter.  The texts it is applied to are compared with ASCII policy names. -/
def toLowercase (text : Text) : Text :=
  text.map fun symbol => if symbol = '\u212A' then 'k' else symbol.toLower

def trimStart (text : Text) : Text := text.dropWhile isWhitespace

def trim (text : Text) : Text := (trimStart (trimStart text).reverse).reverse

end MjFormatter
