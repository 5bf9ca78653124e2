import Mathlib.Data.List.Basic

/-! # Paths of the standard library -/

namespace MjFormatter.Files

/-- What is asked of `std::path::Path`.  The stem and the extension are those that are valid UTF-8. -/
class StdPath (P : Type) where
  toStringLossy : P → String
  parent : P → Option P
  fileStem : P → Option String
  extension : P → Option String
  /-- The order of `Ord`. -/
  le : P → P → Bool

def toAsciiLowercase (text : String) : String := String.ofList (text.toList.map Char.toLower)

/-! ## Paths in UTF-8 on Unix -/

namespace Utf8Path

inductive Component where
  | rootDir
  | curDir
  | parentDir
  | normal (name : List Char)
  deriving DecidableEq

/-- The pieces between the slashes. -/
def pieces (path : String) : List (List Char) := path.toList.splitOn '/'

/-- The component of a piece.  Empty pieces count for nothing, and neither does `.` except at the start. -/
def componentAt (index : Nat) (piece : List Char) : Option Component :=
  if piece = [] then none
  else if piece = ['.'] then if index = 0 then some .curDir else none
  else if piece = ['.', '.'] then some .parentDir
  else some (.normal piece)

def isAbsolute (path : String) : Bool := path.toList.head? = some '/'

/-- The components after the root, with the indices of their pieces. -/
def bodyComponents (path : String) : List (Nat × Component) :=
  (pieces path).zipIdx.filterMap fun (piece, index) => (componentAt index piece).map fun component => (index, component)

def components (path : String) : List Component :=
  (if isAbsolute path then [Component.rootDir] else []) ++ (bodyComponents path).map Prod.snd

def parent (path : String) : Option String :=
  match (bodyComponents path).reverse with
  | [] => none
  | [_] => some (if isAbsolute path then "/" else "")
  | _ :: (index, _) :: _ => some (String.ofList (['/'].intercalate ((pieces path).take (index + 1))))

def fileName (path : String) : Option (List Char) :=
  match (components path).getLast? with
  | some (.normal name) => some name
  | _ => none

/-- A file name around its last dot, which does not count at the start of the name. -/
def splitAtDot (name : List Char) : List Char × Option (List Char) :=
  let after := (name.reverse.takeWhile (· ≠ '.')).reverse
  let before := name.take (name.length - (after.length + 1))
  if '.' ∈ name ∧ before ≠ [] then (before, some after) else (name, none)

def fileStem (path : String) : Option String := (fileName path).map fun name => String.ofList (splitAtDot name).1

def extension (path : String) : Option String := do
  let name ← fileName path
  let after ← (splitAtDot name).2
  return String.ofList after

def componentKey : Component → Nat × List Char
  | .rootDir => (0, [])
  | .curDir => (1, [])
  | .parentDir => (2, [])
  | .normal name => (3, name)

def componentsLe : List Component → List Component → Bool
  | [], _ => true
  | _ :: _, [] => false
  | left :: lefts, right :: rights =>
    let leftKey := componentKey left
    let rightKey := componentKey right
    if leftKey = rightKey then componentsLe lefts rights
    else decide (leftKey.1 < rightKey.1 ∨ (leftKey.1 = rightKey.1 ∧ leftKey.2 < rightKey.2))

end Utf8Path

instance : StdPath String where
  toStringLossy := id
  parent := Utf8Path.parent
  fileStem := Utf8Path.fileStem
  extension := Utf8Path.extension
  le left right := Utf8Path.componentsLe (Utf8Path.components left) (Utf8Path.components right)

end MjFormatter.Files
