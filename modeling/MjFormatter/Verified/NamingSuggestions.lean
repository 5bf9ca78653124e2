import MjFormatter.Policy.NamingWalk

/-! # The names that the policy suggests

The conversion to snake case puts underscores in front of words and makes letters small.  A name that was suggested once
is not reported again. -/

namespace MjFormatter.Verified

open NamingConventions

/-! ## Identifiers -/

/-- An identifier; the predicates say which symbols outside ASCII it may begin and go on with. -/
structure IsIdentifier (wideStart wideContinue : Char → Bool) (name : Text) : Prop where
  begins : ∃ first ∈ name.head?, first.isAlpha = true ∨ first = '_' ∨ wideStart first = true
  goesOn : ∀ symbol ∈ name, symbol.isAlphanum = true ∨ symbol = '_' ∨ wideContinue symbol = true

def IsAsciiIdentifier (name : Text) : Prop := IsIdentifier (fun _ => false) (fun _ => false) name

/-- The letters and digits of a name, in small letters. -/
def lettersAndDigits (name : Text) : Text := (name.filter (· ≠ '_')).map Char.toLower

/-! ## Snake case -/

theorem toLower_of_not_isUpper {symbol : Char} (small : symbol.isUpper = false) : symbol.toLower = symbol :=
  Char.toLower_eq_of_not_isUpper (by simp [small])

/-- A symbol of the result is an underscore or a symbol of the name in small. -/
theorem mem_toSnakeCaseFrom {name : Text} {previous last : Option Char} {symbol : Char}
    (member : symbol ∈ toSnakeCaseFrom previous last name) :
    symbol = '_' ∨ ∃ original ∈ name, symbol = original.toLower := by
  induction name generalizing previous last with
  | nil => cases member
  | cons first rest inductionHypothesis =>
    rw [toSnakeCaseFrom] at member
    split at member
    · cases List.mem_append.mp member with
      | inl boundary =>
        split at boundary
        · exact .inl (List.mem_singleton.mp boundary)
        · cases boundary
      | inr word =>
        cases List.mem_cons.mp word with
        | inl here => exact .inr ⟨first, List.mem_cons_self, here⟩
        | inr further =>
          cases inductionHypothesis further with
          | inl underscore => exact .inl underscore
          | inr found =>
            obtain ⟨original, listed, same⟩ := found
            exact .inr ⟨original, List.mem_cons_of_mem _ listed, same⟩
    · next small =>
      cases List.mem_cons.mp member with
      | inl here =>
        rw [Bool.not_eq_true] at small
        exact .inr ⟨first, List.mem_cons_self, by rw [toLower_of_not_isUpper small, here]⟩
      | inr further =>
        cases inductionHypothesis further with
        | inl underscore => exact .inl underscore
        | inr found =>
          obtain ⟨original, listed, same⟩ := found
          exact .inr ⟨original, List.mem_cons_of_mem _ listed, same⟩

theorem lettersAndDigits_append (front back : Text) :
    lettersAndDigits (front ++ back) = lettersAndDigits front ++ lettersAndDigits back := by
  rw [lettersAndDigits, List.filter_append, List.map_append]
  rfl

theorem lettersAndDigits_toSnakeCaseFrom (name : Text) (previous last : Option Char) :
    lettersAndDigits (toSnakeCaseFrom previous last name) = lettersAndDigits name := by
  induction name generalizing previous last with
  | nil => rfl
  | cons first rest inductionHypothesis =>
    have cut : ∀ symbol : Char, ∀ text : Text, lettersAndDigits (symbol :: text) =
        lettersAndDigits [symbol] ++ lettersAndDigits text := fun symbol text => lettersAndDigits_append [symbol] text
    rw [toSnakeCaseFrom]
    split
    · next large =>
      have boundary : lettersAndDigits
          (if startsWord previous rest.head? && last ≠ some '_' then ['_'] else []) = [] := by
        split <;> rfl
      have letter : lettersAndDigits [first.toLower] = lettersAndDigits [first] := by
        have notUnderscore : first ≠ '_' := by
          rintro rfl
          exact absurd large (by decide)
        have lowered : first.toLower ≠ '_' := by
          intro underscore
          have alpha : first.toLower.isAlpha = true := by
            rw [Char.isAlpha_toLower_eq_isAlpha, Char.isAlpha, large, Bool.true_or]
          rw [underscore] at alpha
          exact absurd alpha (by decide)
        simp [lettersAndDigits, notUnderscore, lowered]
      rw [lettersAndDigits_append, boundary, List.nil_append, cut, inductionHypothesis, letter, ← cut]
    · rw [cut, inductionHypothesis, ← cut]

section
variable (name : Text)

theorem mem_toSnakeCase {symbol : Char} (member : symbol ∈ toSnakeCase name) :
    symbol = '_' ∨ ∃ original ∈ name, symbol = original.toLower := by
  rw [toSnakeCase] at member
  split at member
  · exact mem_toSnakeCaseFrom member
  · next small =>
    have lower : symbol.isUpper = false := by
      rw [Bool.not_eq_true, List.any_eq_false] at small
      simpa using small symbol member
    exact .inr ⟨symbol, member, (toLower_of_not_isUpper lower).symm⟩

theorem toSnakeCase_small : (toSnakeCase name).any Char.isUpper = false := by
  rw [List.any_eq_false]
  intro symbol member
  cases mem_toSnakeCase name member with
  | inl underscore =>
    rw [underscore]
    decide
  | inr found =>
    obtain ⟨original, _, rfl⟩ := found
    simp

theorem toSnakeCase_idempotent : toSnakeCase (toSnakeCase name) = toSnakeCase name := by
  rw [toSnakeCase, toSnakeCase_small, if_neg Bool.false_ne_true]

theorem lettersAndDigits_toSnakeCase : lettersAndDigits (toSnakeCase name) = lettersAndDigits name := by
  rw [toSnakeCase]
  split
  · exact lettersAndDigits_toSnakeCaseFrom name none none
  · rfl

/-- No word begins in front of the name, so it keeps its first symbol. -/
theorem head?_toSnakeCase : (toSnakeCase name).head? = name.head?.map Char.toLower := by
  rw [toSnakeCase]
  cases name with
  | nil => rfl
  | cons first rest =>
    split
    · rw [toSnakeCaseFrom]
      split
      · rfl
      · next small =>
        rw [Bool.not_eq_true] at small
        simp [toLower_of_not_isUpper small]
    · next small =>
      have lower : first.isUpper = false := by
        rw [Bool.not_eq_true, List.any_eq_false] at small
        simpa using small first List.mem_cons_self
      simp [toLower_of_not_isUpper lower]

end

section
variable {wideStart wideContinue : Char → Bool} {name : Text}

/-- A letter, a digit, an underscore or what else an identifier goes on with. -/
theorem IsIdentifier.toSnakeCase_goesOn (identifier : IsIdentifier wideStart wideContinue name) :
    ∀ symbol ∈ toSnakeCase name, symbol.isAlphanum = true ∨ symbol = '_' ∨ wideContinue symbol = true := by
  intro symbol member
  cases mem_toSnakeCase name member with
  | inl underscore => exact .inr (.inl underscore)
  | inr found =>
    obtain ⟨original, listed, rfl⟩ := found
    by_cases large : original.isUpper = true
    · left
      rw [Char.isAlphanum, Char.isAlpha_toLower_eq_isAlpha, Char.isAlpha, large, Bool.true_or, Bool.true_or]
    · rw [toLower_of_not_isUpper (by simpa using large)]
      exact identifier.goesOn original listed

theorem IsIdentifier.toSnakeCase (identifier : IsIdentifier wideStart wideContinue name) :
    IsIdentifier wideStart wideContinue (toSnakeCase name) where
  begins := by
    obtain ⟨first, found, starts⟩ := identifier.begins
    refine ⟨first.toLower, by rw [head?_toSnakeCase, Option.mem_def.mp found]; rfl, ?_⟩
    rw [Char.isAlpha_toLower_eq_isAlpha]
    by_cases large : first.isUpper = true
    · left
      rw [Char.isAlpha, large, Bool.true_or]
    · rwa [toLower_of_not_isUpper (by simpa using large)]
  goesOn := identifier.toSnakeCase_goesOn

theorem isSnakeSymbol_iff {symbol : Char} (small : symbol.isUpper = false) :
    isSnakeSymbol symbol = true ↔ symbol.isAlphanum = true ∨ symbol = '_' := by
  simp only [isSnakeSymbol, Char.isAlphanum, Char.isAlpha, small, Bool.false_or, Bool.or_eq_true, beq_iff_eq]

/-- The recogniser of snake case accepts what the conversion gives. -/
theorem isSnakeCase_toSnakeCase (identifier : IsAsciiIdentifier name) : isSnakeCase (toSnakeCase name) = true := by
  have converted : IsAsciiIdentifier (toSnakeCase name) := identifier.toSnakeCase
  have small := toSnakeCase_small name
  rw [List.any_eq_false] at small
  obtain ⟨first, found, starts⟩ := converted.begins
  have symbols := converted.goesOn
  cases shape : toSnakeCase name with
  | nil => rfl
  | cons head rest =>
    rw [shape] at found small symbols
    have here : head = first := Option.some.inj found
    have headSmall : head.isUpper = false := by simpa using small head List.mem_cons_self
    rw [isSnakeCase, Bool.and_eq_true]
    constructor
    · rw [← here, Char.isAlpha, headSmall, Bool.false_or] at starts
      simpa using starts
    · rw [List.all_eq_true]
      intro symbol member
      have symbolSmall : symbol.isUpper = false := by simpa using small symbol (List.mem_cons_of_mem _ member)
      rw [isSnakeSymbol_iff symbolSmall]
      simpa using symbols symbol (List.mem_cons_of_mem _ member)

end

/-! ## Prefixes -/

section
variable (prefixes : PrefixConfig) (context : IdentifierContext)

theorem placePrefix_mem : placePrefix prefixes context ∈ prefixes.candidates := by
  rw [placePrefix, PrefixConfig.candidates]
  split
  · simp
  · split <;> simp

theorem typePrefix_mem : typePrefix prefixes context ∈ prefixes.candidates ∨ typePrefix prefixes context = [] := by
  rw [typePrefix, PrefixConfig.candidates]
  repeat' split
  all_goals simp

theorem typeOrSpellingPrefix_mem :
    typeOrSpellingPrefix prefixes context ∈ prefixes.candidates ∨ typeOrSpellingPrefix prefixes context = [] := by
  rw [typeOrSpellingPrefix]
  split
  · split
    · simp only [PrefixConfig.candidates]
      split <;> simp
    · exact .inr rfl
  · exact typePrefix_mem prefixes context

/-- Each part of a prefix is in the table, or it is empty. -/
theorem prefixParts_mem : ∀ part ∈ prefixParts prefixes context, part ∈ prefixes.candidates ∨ part = [] := by
  have storage : storagePrefix prefixes context ∈ prefixes.candidates ∨ storagePrefix prefixes context = [] := by
    rw [storagePrefix, PrefixConfig.candidates]
    repeat' split
    all_goals simp
  have constant : (if context.tsConst then prefixes.constLower else []) ∈ prefixes.candidates ∨
      (if context.tsConst then prefixes.constLower else []) = [] := by
    rw [PrefixConfig.candidates]
    split <;> simp
  have volatile : (if context.tsVolatile then prefixes.volatile else []) ∈ prefixes.candidates ∨
      (if context.tsVolatile then prefixes.volatile else []) = [] := by
    rw [PrefixConfig.candidates]
    split <;> simp
  simp only [prefixParts, List.forall_mem_cons]
  exact ⟨.inl (placePrefix_mem prefixes context), storage, constant, volatile,
    typeOrSpellingPrefix_mem prefixes context, by simp⟩

/-- A symbol of a prefix is one of the table. -/
theorem mem_buildStackedPrefix {symbol : Char} (member : symbol ∈ buildStackedPrefix prefixes context) :
    ∃ candidate ∈ prefixes.candidates, symbol ∈ candidate := by
  obtain ⟨part, listed, inside⟩ := List.mem_flatten.mp member
  cases prefixParts_mem prefixes context part listed with
  | inl candidate => exact ⟨part, candidate, inside⟩
  | inr empty =>
    rw [empty] at inside
    cases inside

theorem buildStackedPrefix_eq : ∃ behind, buildStackedPrefix prefixes context = placePrefix prefixes context ++ behind :=
  ⟨_, List.flatten_cons⟩

/-- A name with the prefix for a place has a known prefix. -/
theorem hasKnownPrefix_stacked (given : placePrefix prefixes context ≠ []) (name : Text) :
    prefixes.hasKnownPrefix (buildStackedPrefix prefixes context ++ name) = true := by
  obtain ⟨behind, stacked⟩ := buildStackedPrefix_eq prefixes context
  rw [PrefixConfig.hasKnownPrefix, List.any_eq_true]
  refine ⟨placePrefix prefixes context, placePrefix_mem prefixes context, ?_⟩
  rw [stacked, List.append_assoc, Bool.and_eq_true, List.isPrefixOf_iff_prefix]
  exact ⟨by simpa using given, List.prefix_append _ _⟩

end

/-! ## The default table -/

/-- The table of `PrefixConfig::default`. -/
def defaultPrefixes : PrefixConfig := {}

/-- An ASCII letter, a digit or an underscore. -/
def isPlainSymbol (symbol : Char) : Bool := symbol.isAlphanum || symbol == '_'

theorem defaultPrefixes_symbols : ∀ candidate ∈ defaultPrefixes.candidates, ∀ symbol ∈ candidate,
    symbol.isAlphanum = true ∨ symbol = '_' := by
  have plain : (defaultPrefixes.candidates.all fun candidate => candidate.all isPlainSymbol) = true := by decide +kernel
  intro candidate listed symbol member
  have here := List.all_eq_true.mp (List.all_eq_true.mp plain candidate listed) symbol member
  simpa only [isPlainSymbol, Bool.or_eq_true, beq_iff_eq] using here

theorem placePrefix_default (context : IdentifierContext) : placePrefix defaultPrefixes context ≠ [] := by
  rw [placePrefix]
  split
  · decide
  · split <;> decide

theorem isUpperSnakeSymbol_toUpper {symbol : Char} (known : symbol.isAlphanum = true ∨ symbol = '_') :
    isUpperSnakeSymbol symbol.toUpper = true := by
  cases known with
  | inl alphanumeric =>
    rw [Char.isAlphanum, Bool.or_eq_true] at alphanumeric
    cases alphanumeric with
    | inl letter => rw [isUpperSnakeSymbol, Char.isUpper_toUpper_eq_isAlpha, letter, Bool.true_or, Bool.true_or]
    | inr digit =>
      have notLower : ¬symbol.isLower = true := by
        simp only [Char.isDigit, Char.isLower, Bool.and_eq_true, decide_eq_true_eq, UInt32.le_iff_toNat_le] at digit ⊢
        intro lower
        have nine : '9'.val.toNat = 57 := rfl
        have a : 'a'.val.toNat = 97 := rfl
        omega
      rw [Char.toUpper_eq_of_not_isLower notLower, isUpperSnakeSymbol, digit, Bool.or_true, Bool.true_or]
  | inr underscore =>
    rw [underscore]
    decide

/-- The suggestion for a global is a constant. -/
theorem suggestedIdentifier_constant {context : IdentifierContext} {name : Text} (globally : context.isGlobal = true)
    (identifier : IsAsciiIdentifier name) :
    isConstantLikeIdentifier (suggestedIdentifier defaultPrefixes context name) = true := by
  have upper : isUpperSnakeCase (suggestedIdentifier defaultPrefixes context name) = true := by
    rw [suggestedIdentifier, if_pos globally, isUpperSnakeCase, Bool.and_eq_true]
    constructor
    · rw [List.all_map, List.all_eq_true]
      intro symbol member
      refine isUpperSnakeSymbol_toUpper ?_
      cases List.mem_append.mp member with
      | inl stacked =>
        obtain ⟨candidate, listed, inside⟩ := mem_buildStackedPrefix defaultPrefixes context stacked
        exact defaultPrefixes_symbols candidate listed symbol inside
      | inr converted => simpa using identifier.toSnakeCase_goesOn symbol converted
    · -- The prefix for the place has a letter
      obtain ⟨behind, stacked⟩ := buildStackedPrefix_eq defaultPrefixes context
      rw [stacked, List.append_assoc, List.map_append, List.any_append]
      have letter : ((placePrefix defaultPrefixes context).map Char.toUpper).any Char.isAlpha = true := by
        rw [placePrefix, if_pos globally]
        split <;> decide
      rw [letter, Bool.true_or]
  simp only [isConstantLikeIdentifier, upper, if_true]

/-- A suggested name has a known prefix or is a constant, whatever the context says of the variable. -/
theorem suggestedIdentifier_accepted (context : IdentifierContext) {name : Text} (identifier : IsAsciiIdentifier name) :
    (defaultPrefixes.hasKnownPrefix (suggestedIdentifier defaultPrefixes context name) ||
      isConstantLikeIdentifier (suggestedIdentifier defaultPrefixes context name)) = true := by
  rw [Bool.or_eq_true]
  by_cases globally : context.isGlobal = true
  · exact .inr (suggestedIdentifier_constant globally identifier)
  · left
    rw [suggestedIdentifier, if_neg globally]
    exact hasKnownPrefix_stacked defaultPrefixes context (placePrefix_default context) _

/-! ## The next run -/

/-- A name in snake case and a variable with a known prefix are not reported, wherever they stand and whatever clang
says about them. -/
theorem suggestions_accepted (name : Text) (identifier : IsAsciiIdentifier name) (context : IdentifierContext) :
    (∀ (semanticMode : Bool) (semantic : Option SemanticFileContext) (node : FunctionName),
      node.name = toSnakeCase name → processFunction semanticMode semantic node = noFindings) ∧
    (∀ (semanticMode : Bool) (semantic : Option SemanticFileContext) (node : DeclaratorName),
      node.name = suggestedIdentifier defaultPrefixes context name →
        processDeclaration semanticMode defaultPrefixes semantic node = noFindings) ∧
    toSnakeCase (toSnakeCase name) = toSnakeCase name ∧
    lettersAndDigits (toSnakeCase name) = lettersAndDigits name := by
  refine ⟨?_, ?_, toSnakeCase_idempotent name, lettersAndDigits_toSnakeCase name⟩
  · intro semanticMode semantic node named
    have skipped : skipsFunction semantic node = true := by
      simp only [skipsFunction, named, isSnakeCase_toSnakeCase identifier, Bool.or_true, Bool.true_or]
    simp only [processFunction, skipped, if_true]
  · intro semanticMode semantic node named
    have accepted := suggestedIdentifier_accepted context identifier
    have skipped : skipsDeclaration defaultPrefixes semantic node = true := by
      simp only [skipsDeclaration, named, Bool.or_assoc, accepted, Bool.or_true]
    simp only [processDeclaration, skipped, if_true]

/-- The suggestions for a name with a run of large letters and digits. -/
theorem httpServer2Name_accepted :
    (∀ (semanticMode : Bool) (semantic : Option SemanticFileContext) (node : FunctionName),
      node.name = toSnakeCase "HTTPServer2Name".toList → processFunction semanticMode semantic node = noFindings) ∧
    (∀ (semanticMode : Bool) (semantic : Option SemanticFileContext) (node : DeclaratorName),
      node.name = suggestedIdentifier defaultPrefixes { isGlobal := true, tsStatic := true } "HTTPServer2Name".toList →
        processDeclaration semanticMode defaultPrefixes semantic node = noFindings) ∧
    toSnakeCase (toSnakeCase "HTTPServer2Name".toList) = toSnakeCase "HTTPServer2Name".toList ∧
    lettersAndDigits (toSnakeCase "HTTPServer2Name".toList) = lettersAndDigits "HTTPServer2Name".toList :=
  suggestions_accepted "HTTPServer2Name".toList
    ⟨⟨'H', rfl, .inl (by decide)⟩, by simp⟩ { isGlobal := true, tsStatic := true }

example : toSnakeCase "HTTPServer2Name".toList = "http_server2_name".toList := by decide

end MjFormatter.Verified
