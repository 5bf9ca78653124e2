import MjFormatter.Policy.CaseUtils

/-! # Prefixes of variables

A prefix says where a variable lives and what it is; the parts of it are stacked. -/

namespace MjFormatter.NamingConventions

structure PrefixConfig where
  localPrefix : Text := "_".toList
  member : Text := "m_".toList
  globalPrefix : Text := "g_".toList
  staticLower : Text := "s_".toList
  staticUpper : Text := "S_".toList
  constLower : Text := "c_".toList
  constexprUpper : Text := "C_".toList
  volatile : Text := "v_".toList
  pointer : Text := "p_".toList
  sharedPtr : Text := "sp_".toList
  uniquePtr : Text := "up_".toList
  weakPtr : Text := "wp_".toList
  function : Text := "f_".toList
  reference : Text := "r_".toList
  atomic : Text := "a_".toList
  enumVar : Text := "e_".toList
  structVar : Text := "t_".toList
  thread : Text := "th_".toList
  singleton : Text := "sg_".toList

namespace PrefixConfig

def candidates (prefixes : PrefixConfig) : List Text :=
  [prefixes.localPrefix, prefixes.member, prefixes.globalPrefix, prefixes.staticLower, prefixes.staticUpper,
    prefixes.constLower, prefixes.constexprUpper, prefixes.volatile, prefixes.pointer, prefixes.sharedPtr,
    prefixes.uniquePtr, prefixes.weakPtr, prefixes.function, prefixes.reference, prefixes.atomic, prefixes.enumVar,
    prefixes.structVar, prefixes.thread, prefixes.singleton]

def hasKnownPrefix (prefixes : PrefixConfig) (name : Text) : Bool :=
  prefixes.candidates.any fun candidate => !candidate.isEmpty && candidate.isPrefixOf name

end PrefixConfig

structure IdentifierContext where
  isField : Bool := false
  isGlobal : Bool := false
  isMethodLocal : Bool := false
  tsStatic : Bool := false
  tsConst : Bool := false
  tsVolatile : Bool := false
  tsPointer : Bool := false
  tsReference : Bool := false
  canonicalTypeKind : Int := 0
  numTemplateArgs : Int := 0
  templateBaseName : Option String := none
  typeSpelling : Option Text := none

/-- `CXType_Pointer`, `CXType_LValueReference` and `CXType_RValueReference`. -/
def typePointer : Int := 101

def typeLValueReference : Int := 103

def typeRValueReference : Int := 104

/-- `str::trim_start_matches`, for at most as many matches as the first argument says. -/
def trimStartMatches (pattern : Text) : Nat → Text → Text
  | 0, text => text
  | count + 1, text =>
    if pattern.isPrefixOf text then trimStartMatches pattern count (text.drop pattern.length) else text

/-- What follows the last `::`. -/
def lastScopeSegment (spelling : Text) : Text :=
  match (spelling.tails.filter fun tail => "::".toList.isPrefixOf tail).getLast? with
  | some tail => tail.drop 2
  | none => spelling

def baseTypeName (spelling : Text) : Text :=
  let stripped := ["const ", "volatile ", "class ", "struct "].foldl
    (fun text qualifier => trimStartMatches qualifier.toList text.length text) spelling
  trim (lastScopeSegment stripped)

/-- The part of the prefix that is for the type as clang and the tree have it. -/
def typePrefix (prefixes : PrefixConfig) (context : IdentifierContext) : Text :=
  if context.tsPointer || context.canonicalTypeKind == typePointer then
    match context.templateBaseName with
    | some "shared_ptr" => prefixes.sharedPtr
    | some "unique_ptr" => prefixes.uniquePtr
    | some "weak_ptr" => prefixes.weakPtr
    | _ => prefixes.pointer
  else if context.tsReference || context.canonicalTypeKind == typeLValueReference ||
      context.canonicalTypeKind == typeRValueReference then
    prefixes.reference
  else if 0 < context.numTemplateArgs then
    match context.templateBaseName with
    | some "shared_ptr" => prefixes.sharedPtr
    | some "unique_ptr" => prefixes.uniquePtr
    | some "weak_ptr" => prefixes.weakPtr
    | some "function" | some "Function" => prefixes.function
    | some "atomic" | some "Atomic" => prefixes.atomic
    | _ => []
  else []

/-- The part of the prefix that says where a variable lives. -/
def placePrefix (prefixes : PrefixConfig) (context : IdentifierContext) : Text :=
  if context.isField then prefixes.member
  else if context.isGlobal then prefixes.globalPrefix
  else prefixes.localPrefix

def storagePrefix (prefixes : PrefixConfig) (context : IdentifierContext) : Text :=
  if context.tsStatic then if context.isMethodLocal then prefixes.singleton else prefixes.staticLower else []

/-- The prefix for the type, or else the one for how the type is spelled. -/
def typeOrSpellingPrefix (prefixes : PrefixConfig) (context : IdentifierContext) : Text :=
  if (typePrefix prefixes context).isEmpty then
    match context.typeSpelling with
    | some spelling =>
      let baseName := String.ofList (baseTypeName spelling)
      if baseName = "thread" ∨ baseName = "jthread" then prefixes.thread else []
    | none => []
  else typePrefix prefixes context

/-- What `build_stacked_prefix_into` pushes. -/
def prefixParts (prefixes : PrefixConfig) (context : IdentifierContext) : List Text :=
  [placePrefix prefixes context, storagePrefix prefixes context, if context.tsConst then prefixes.constLower else [],
    if context.tsVolatile then prefixes.volatile else [], typeOrSpellingPrefix prefixes context]

def buildStackedPrefix (prefixes : PrefixConfig) (context : IdentifierContext) : Text :=
  (prefixParts prefixes context).flatten

end MjFormatter.NamingConventions
