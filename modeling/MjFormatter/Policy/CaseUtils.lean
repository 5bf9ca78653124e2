import Mathlib
import MjFormatter.Model.Text

/-! # Cases of identifiers

The recognisers of snake case and of constants, and the conversion to snake case.  They look at ASCII bytes only, and no
byte of another character is one, so they work on characters here. -/

namespace MjFormatter.NamingConventions

/-- What `is_snake_case_bytes` accepts. -/
def isSnakeSymbol (symbol : Char) : Bool := symbol.isLower || symbol.isDigit || symbol == '_'

/-- What `is_upper_snake_case_bytes` accepts. -/
def isUpperSnakeSymbol (symbol : Char) : Bool := symbol.isUpper || symbol.isDigit || symbol == '_'

def isSnakeCase : Text → Bool
  | [] => true
  | first :: rest => (first.isLower || first == '_') && rest.all isSnakeSymbol

def isUpperSnakeCase (name : Text) : Bool := name.all isUpperSnakeSymbol && name.any Char.isAlpha

def cppKeywords : List String :=
  ["alignas", "alignof", "and", "and_eq", "asm", "auto",
    "bitand", "bitor", "bool", "break",
    "case", "catch", "char", "char8_t", "char16_t", "char32_t",
    "class", "co_await", "co_return", "co_yield", "compl",
    "concept", "const", "const_cast", "consteval", "constexpr",
    "constinit", "continue",
    "decltype", "default", "delete", "do", "double",
    "dynamic_cast",
    "else", "enum", "explicit", "export", "extern",
    "false", "final", "float", "for", "friend",
    "goto",
    "if", "inline", "int",
    "long",
    "mutable",
    "namespace", "new", "noexcept", "not", "not_eq", "nullptr",
    "operator", "or", "or_eq", "override",
    "private", "protected", "public",
    "register", "reinterpret_cast", "requires", "return",
    "short", "signed", "sizeof", "static", "static_assert",
    "static_cast", "struct", "switch",
    "template", "this", "thread_local", "throw", "true", "try",
    "typedef", "typeid", "typename",
    "union", "unsigned", "using",
    "virtual", "void", "volatile",
    "wchar_t", "while",
    "xor", "xor_eq"]

def isCppKeyword (name : Text) : Bool := cppKeywords.contains (String.ofList name)

def isConstantLikeIdentifier (name : Text) : Bool :=
  if isUpperSnakeCase name then true
  else match name with
    | 'C' :: '_' :: rest => !rest.isEmpty && isUpperSnakeCase rest
    | 'S' :: '_' :: rest => !rest.isEmpty && isUpperSnakeCase rest
    | 'c' :: '_' :: rest => !rest.isEmpty && isSnakeCase rest
    | 's' :: '_' :: rest => !rest.isEmpty && isSnakeCase rest
    | _ => false

/-- Whether a word begins at an upper-case letter, by the symbols around it. -/
def startsWord (previous next : Option Char) : Bool :=
  previous.any (fun symbol => symbol.isLower || symbol.isDigit) ||
    (previous.any Char.isUpper && next.any Char.isLower)

/-- The loop of `to_snake_case_into`, behind a symbol of the name and a symbol of the result. -/
def toSnakeCaseFrom (previous last : Option Char) : Text → Text
  | [] => []
  | symbol :: rest =>
    if symbol.isUpper then
      (if startsWord previous rest.head? && last ≠ some '_' then ['_'] else []) ++
        symbol.toLower :: toSnakeCaseFrom (some symbol) (some symbol.toLower) rest
    else symbol :: toSnakeCaseFrom (some symbol) (some symbol) rest

/-- `to_snake_case_into`. -/
def toSnakeCase (name : Text) : Text :=
  if name.any Char.isUpper then toSnakeCaseFrom none none name else name

end MjFormatter.NamingConventions
