import Mathlib.Data.List.DropRight
import MjFormatter.Model.Text

/-! # The policy for suffixes of number literals

The type of a declaration decides on the suffix of the literals in its initializers: `rewriteLiteral` takes the old suffix off,
drops the zeros at the end of a fraction and puts the new suffix on. -/

namespace MjFormatter.NumericLiteralSuffixPolicy

/-! ## The suffix of a type -/

/-- The kinds of types of the compiler that the policy knows. -/
inductive CXTypeKind
  | float | double | longDouble | float16 | half | float128
  | sChar | short | int | long | longLong
  | uChar | uShort | uInt | uLong | uLongLong
  | int128 | uInt128
  | unknown (kind : Int)
  deriving DecidableEq, Repr

/-- The suffix, and whether it is one of floating literals. -/
def suffixFromTypeKind : CXTypeKind → Option (Text × Bool)
  | .float => some (['f'], true)
  | .double => some ([], true)
  | .longDouble => some (['L'], true)
  | .float16 | .half => some ([], true)
  | .float128 => some (['Q'], true)
  | .sChar | .short | .int => some ([], false)
  | .long => some (['L'], false)
  | .longLong => some (['L', 'L'], false)
  | .uChar | .uShort | .uInt => some (['U'], false)
  | .uLong => some (['U', 'L'], false)
  | .uLongLong => some (['U', 'L', 'L'], false)
  | .int128 => some (['L', 'L'], false)
  | .uInt128 => some (['U', 'L', 'L'], false)
  | .unknown _ => none

inductive TypeNodeKind
  | primitiveType
  | sizedTypeSpecifier
  | unknown
  deriving DecidableEq, Repr

/-- A type in the syntax tree; a text that is no UTF-8 is `none`. -/
structure TsTypeNode where
  kindId : TypeNodeKind
  text : Option Text
  children : List (Option Text)

/-- What the words of a sized type say. -/
structure SizedType where
  unsigned : Bool
  longCount : Nat
  hasDouble : Bool
  hasShort : Bool

def SizedType.word (sized : SizedType) (childText : Option Text) : SizedType :=
  match childText.map String.ofList with
  | some "unsigned" => { sized with unsigned := true }
  | some "long" => { sized with longCount := sized.longCount + 1 }
  | some "short" => { sized with hasShort := true }
  | some "double" => { sized with hasDouble := true }
  | _ => sized

def SizedType.suffix (sized : SizedType) : Option (Text × Bool) :=
  if sized.hasDouble then some (if 1 ≤ sized.longCount then ['L'] else [], true)
  else if sized.longCount = 0 ∧ sized.hasShort then some (if sized.unsigned then ['U'] else [], false)
  else
    match sized.unsigned, sized.longCount with
    | false, 0 => some ([], false)
    | false, 1 => some (['L'], false)
    | false, 2 => some (['L', 'L'], false)
    | true, 0 => some (['U'], false)
    | true, 1 => some (['U', 'L'], false)
    | true, 2 => some (['U', 'L', 'L'], false)
    | _, _ => none

def suffixFromTsTypeNode (typeNode : TsTypeNode) : Option (Text × Bool) :=
  match typeNode.text with
  | none => none
  | some text =>
    match typeNode.kindId with
    | .primitiveType =>
      match String.ofList text with
      | "float" => some (['f'], true)
      | "double" => some ([], true)
      | "int" | "short" | "char" => some ([], false)
      | _ => none
    | .sizedTypeSpecifier => (typeNode.children.foldl SizedType.word ⟨false, 0, false, false⟩).suffix
    | .unknown => none

/-- The type that the compiler knows for the variable, if there is one, comes before the one that stands in the text. -/
def resolveSuffix (canonicalTypeKind : Option CXTypeKind) (typeNode : Option TsTypeNode) : Option (Text × Bool) :=
  (canonicalTypeKind.bind suffixFromTypeKind).or (typeNode.bind suffixFromTsTypeNode)

/-! ## Literals -/

def isPlausibleSymbol (symbol : Char) : Bool :=
  symbol.isDigit || ('a' ≤ symbol && symbol ≤ 'f') || ('A' ≤ symbol && symbol ≤ 'F') ||
    ['x', 'X', 'u', 'U', 'l', 'L', 'p', 'P', '.', '\'', '+', '-'].contains symbol

def isPlausibleNumberLiteral (text : Text) : Bool :=
  match text with
  | [] => false
  | first :: _ => first.isDigit && text.all isPlausibleSymbol

/-- The literal begins with `0x` or `0b`, in either case. -/
def isHexOrBin (literal : Text) : Bool :=
  let lowered := toAsciiLowercase (literal.take 2)
  lowered = ['0', 'x'] || lowered = ['0', 'b']

def isFloatLiteral (literal : Text) : Bool :=
  !isHexOrBin literal && literal.any fun symbol => symbol = '.' || symbol = 'e' || symbol = 'E'

def isIntegerSuffixSymbol (symbol : Char) : Bool := symbol = 'u' || symbol = 'U' || symbol = 'l' || symbol = 'L'

def isFloatSuffixSymbol (symbol : Char) : Bool := symbol = 'f' || symbol = 'F' || symbol = 'l' || symbol = 'L'

def stripSuffix (literal : Text) : Text :=
  if isFloatLiteral literal then
    if literal.getLast?.any isFloatSuffixSymbol then literal.dropLast else literal
  else literal.take (literal.length - (literal.reverse.takeWhile isIntegerSuffixSymbol).length)

/-- What stands between the first point and the exponent. -/
def decimalDigits (behindPoint : Text) : Text := behindPoint.takeWhile fun symbol => !(symbol = 'e' || symbol = 'E')

def normalizeFloatDecimal (number : Text) : Text :=
  match number.dropWhile (· ≠ '.') with
  | [] => number
  | dot :: behindPoint =>
    number.takeWhile (· ≠ '.') ++ dot :: ((decimalDigits behindPoint).rdropWhile (· = '0') ++
      behindPoint.dropWhile fun symbol => !(symbol = 'e' || symbol = 'E'))

def rewriteLiteral (literal suffix : Text) (isFloat : Bool) : Option Text :=
  if isFloatLiteral literal ≠ isFloat then none
  else
    let numberPart := stripSuffix literal
    let normalized := if isFloat && suffix ≠ [] then normalizeFloatDecimal numberPart else numberPart
    let newLiteral := normalized ++ suffix
    if newLiteral = literal then none else some newLiteral

end MjFormatter.NumericLiteralSuffixPolicy
