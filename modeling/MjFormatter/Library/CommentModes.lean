import Mathlib.Data.List.Basic

/-! # Comments and literals of C++, line by line

What a line of C++ begins in: code, a comment or a literal.  Lines are read without their ends; a backslash at the end of a line
puts the next one behind it. -/

namespace MjFormatter.Library.CommentModes

inductive Mode
  | code
  | continued
  | lineComment
  | blockComment
  | quoted (quote : Char)
  | raw (closing : List Char)
  deriving DecidableEq, Repr

/-- The mode behind a text, and whether anything but comments and white space has been read. -/
structure Reading where
  mode : Mode
  code : Bool
  deriving DecidableEq, Repr

def Reading.seen (reading : Reading) : Reading := { reading with code := true }

def isWordSymbol (symbol : Char) : Bool := symbol.isAlphanum || symbol = '_'

def isRawPrefix (word : List Char) : Bool := ["R", "u8R", "uR", "UR", "LR"].any fun start => start.toList = word

def isSpace (symbol : Char) : Bool := symbol = ' ' || symbol = '\t' || symbol = '\r' || symbol = '\x0b' || symbol = '\x0c'

/-- The mode at the end of a line that nothing more happens on. -/
def Mode.lineEnd : Mode → Mode
  | .blockComment => .blockComment
  | .raw closing => .raw closing
  | _ => .code

/-- Reads the rest of a line; the word is the one that the code in front ends in, or the raw literal read so far. -/
def read : Mode → List Char → List Char → Reading
  | mode, _, [] => ⟨mode.lineEnd, false⟩
  | .blockComment, _, '*' :: '/' :: rest => read .code [] rest
  | .blockComment, _, _ :: rest => read .blockComment [] rest
  | .lineComment, _, ['\\'] => ⟨.lineComment, false⟩
  | .lineComment, _, _ :: rest => read .lineComment [] rest
  | .quoted quote, _, ['\\'] => (⟨.quoted quote, true⟩ : Reading)
  | .quoted quote, _, '\\' :: _ :: rest => (read (.quoted quote) [] rest).seen
  | .quoted quote, _, symbol :: rest => (read (if symbol = quote then .code else .quoted quote) [] rest).seen
  | .raw closing, word, symbol :: rest =>
    if closing.isSuffixOf (word ++ [symbol]) then (read .code [] rest).seen
    else (read (.raw closing) (word ++ [symbol]) rest).seen
  | _, _, ['\\'] => ⟨.continued, true⟩
  | _, _, '/' :: '/' :: rest => read .lineComment [] rest
  | _, _, '/' :: '*' :: rest => read .blockComment [] rest
  | _, word, '"' :: rest =>
    (read (if isRawPrefix word then .raw (')' :: rest.takeWhile (· ≠ '(') ++ ['"']) else .quoted '"') [] rest).seen
  | _, word, '\'' :: rest =>
    -- A quote in a number stands between digits.
    (read (if word.head?.any Char.isDigit then .code else .quoted '\'') word rest).seen
  | _, word, symbol :: rest =>
    if isSpace symbol then read .code [] rest
    else (read .code (if isWordSymbol symbol then word ++ [symbol] else []) rest).seen

def readLine (mode : Mode) (line : List Char) : Reading := read mode [] line

/-- The mode that the line behind these lines begins in. -/
def modeFrom (mode : Mode) (lines : List (List Char)) : Mode := lines.foldl (fun mode line => (readLine mode line).mode) mode

/-- A line behind these is a line of code of its own. -/
def AtLineStart (lines : List (List Char)) : Prop := modeFrom .code lines = .code

instance (lines : List (List Char)) : Decidable (AtLineStart lines) := inferInstanceAs (Decidable (_ = _))

/-- Comments and white space alone. -/
def isPreamble : Mode → List (List Char) → Bool
  | _, [] => true
  | mode, line :: lines => !(readLine mode line).code && isPreamble (readLine mode line).mode lines

example : modeFrom .code ["/* a".toList, "b */ int x = 1'000; // c \\".toList, "auto s = R\"x(".toList] = .code := by decide

theorem modeFrom_append (mode : Mode) (front back : List (List Char)) :
    modeFrom mode (front ++ back) = modeFrom (modeFrom mode front) back := List.foldl_append

theorem modeFrom_cons (mode : Mode) (line : List Char) (lines : List (List Char)) :
    modeFrom mode (line :: lines) = modeFrom (readLine mode line).mode lines := rfl

/-! ## Lines without comments and literals -/

/-- A symbol that neither a comment nor a literal begins with. -/
def IsPlain (symbol : Char) : Prop := symbol ∉ ['/', '"', '\'', '\\']

theorem read_plain {symbol : Char} (plain : IsPlain symbol) (word rest : List Char) :
    (read .code word (symbol :: rest)).mode =
      if isSpace symbol then (read .code [] rest).mode
      else (read .code (if isWordSymbol symbol then word ++ [symbol] else []) rest).mode := by
  simp only [IsPlain, List.mem_cons, List.not_mem_nil, or_false, not_or] at plain
  obtain ⟨noSlash, noString, noQuote, noBackslash⟩ := plain
  rw [read]
  · split <;> rfl
  all_goals simp_all

theorem readLine_plain {line : List Char} (plain : ∀ symbol ∈ line, IsPlain symbol) : (readLine .code line).mode = .code := by
  have anyWord : ∀ word, (read .code word line).mode = .code := by
    induction line with
    | nil => exact fun _ => rfl
    | cons symbol rest inductionHypothesis =>
      intro word
      have later := inductionHypothesis fun other member => plain other (List.mem_cons_of_mem _ member)
      rw [read_plain (plain symbol List.mem_cons_self)]
      split
      · exact later _
      · exact later _
  exact anyWord []

end MjFormatter.Library.CommentModes
