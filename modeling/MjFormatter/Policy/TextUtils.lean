import MjFormatter.Model.Text

/-! # Lines as the policies edit them

Policies that rewrite lines take them without their ends and join them with the line ending of the text. -/

namespace MjFormatter

/-- `str::split` at line feeds. -/
def splitFeeds : Text → List Text
  | [] => [[]]
  | symbol :: rest =>
    if symbol = '\n' then [] :: splitFeeds rest
    else match splitFeeds rest with
      | [] => [[symbol]]
      | line :: lines => (symbol :: line) :: lines

def stripCarriageReturn (line : Text) : Text := (stripSuffixChar '\r' line).getD line

/-- The lines of `split_lines_cow`. -/
def splitLinesCow (text : Text) : List Text :=
  if text = [] then [] else (splitFeeds text).map stripCarriageReturn

/-- `join_lines_generic`. -/
def joinLines (lines : List Text) (eol : Text) (trailingNewline : Bool) : Text :=
  if lines = [] then []
  else
    let text := eol.intercalate lines
    if trailingNewline && !eol.isSuffixOf text then text ++ eol else text

def trimEnd (text : Text) : Text := (trimStart text.reverse).reverse

/-- `text.ends_with('\n')`. -/
def endsWithFeed (text : Text) : Bool := text.getLast? = some '\n'

end MjFormatter
