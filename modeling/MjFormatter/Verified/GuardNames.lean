import MjFormatter.Library.Lines
import MjFormatter.Verified.GuardPlacement

/-! # Which headers share a guard

The name of a guard keeps the runs of letters and digits of the path, in upper case, and nothing else.  It is an identifier, and two
paths have it in common exactly when these runs are the same. -/

namespace MjFormatter.Verified

open Library IncludeGuardsPolicy

/-! ## The words of a path -/

/-- A run at the front and the later ones; the first one may be empty. -/
def wordsOf : Text × List Text → List Text
  | (word, words) => if word = [] then words else word :: words

theorem wordsOf_nil (words : List Text) : wordsOf ([], words) = words := by
  rw [wordsOf, if_pos rfl]

def runsFrom : Text → Text × List Text
  | [] => ([], [])
  | ch :: path =>
    if ch.isAlphanum then (ch.toUpper :: (runsFrom path).1, (runsFrom path).2) else ([], wordsOf (runsFrom path))

/-- The runs of letters and digits of a path, in upper case. -/
def pathWords (path : Text) : List Text := wordsOf (runsFrom path)

/-- A path without words has a stand-in. -/
def namedWords (path : Text) : List Text := if pathWords path = [] then ["HEADER".toList] else pathWords path

/-- The words of the name, which does not begin with a digit. -/
def guardWords (path : Text) : List Text :=
  if (namedWords path).head?.any fun word => word.head?.any Char.isDigit then "H".toList :: namedWords path else namedWords path

def IsGuardWord (word : Text) : Prop := word ≠ [] ∧ ∀ symbol ∈ word, symbol.isAlphanum = true

theorem isGuardWord_of_mem_wordsOf {runs : Text × List Text} (first : ∀ symbol ∈ runs.1, symbol.isAlphanum = true)
    (others : ∀ word ∈ runs.2, IsGuardWord word) : ∀ word ∈ wordsOf runs, IsGuardWord word := by
  intro word member
  rw [wordsOf] at member
  split at member
  · exact others word member
  · rename_i nonempty
    cases member with
    | head => exact ⟨nonempty, first⟩
    | tail _ later => exact others word later

theorem isGuardWord_runsFrom (path : Text) :
    (∀ symbol ∈ (runsFrom path).1, symbol.isAlphanum = true) ∧ ∀ word ∈ (runsFrom path).2, IsGuardWord word := by
  induction path with
  | nil => exact ⟨nofun, nofun⟩
  | cons ch path ih =>
    rw [runsFrom]
    split
    · rename_i isWord
      refine ⟨fun symbol member => ?_, ih.2⟩
      cases member with
      | head => exact isAlphanum_toUpper isWord
      | tail _ later => exact ih.1 symbol later
    · exact ⟨nofun, isGuardWord_of_mem_wordsOf ih.1 ih.2⟩

theorem isGuardWord_pathWords (path : Text) : ∀ word ∈ pathWords path, IsGuardWord word :=
  isGuardWord_of_mem_wordsOf (isGuardWord_runsFrom path).1 (isGuardWord_runsFrom path).2

theorem isGuardWord_namedWords (path : Text) : ∀ word ∈ namedWords path, IsGuardWord word := by
  have header : IsGuardWord "HEADER".toList := ⟨by decide, by decide⟩
  intro word member
  rw [namedWords] at member
  split at member
  · obtain rfl := List.mem_singleton.mp member
    exact header
  · exact isGuardWord_pathWords path word member

theorem isGuardWord_guardWords (path : Text) : ∀ word ∈ guardWords path, IsGuardWord word := by
  have letter : IsGuardWord "H".toList := ⟨by decide, by decide⟩
  intro word member
  rw [guardWords] at member
  split at member
  · cases member with
    | head => exact letter
    | tail _ later => exact isGuardWord_namedWords path word later
  · exact isGuardWord_namedWords path word member

/-! ## The loop writes the words -/

/-- What the loop writes for a separator at the end. -/
def tailAfter (lastSep : Bool) : Text → Text
  | [] => if lastSep then ['_'] else []
  | ch :: path => tailAfter (!ch.isAlphanum) path

theorem macroSymbols_eq (path : Text) :
    macroSymbols false path = (runsFrom path).1 ++ (runsFrom path).2.flatMap ('_' :: ·) ++ tailAfter false path ∧
      '_' :: macroSymbols true path = (wordsOf (runsFrom path)).flatMap ('_' :: ·) ++ tailAfter true path := by
  induction path with
  | nil => exact ⟨rfl, rfl⟩
  | cons ch path ih =>
    by_cases isWord : ch.isAlphanum = true
    · have after (lastSep : Bool) : tailAfter lastSep (ch :: path) = tailAfter false path := by rw [tailAfter, isWord]; rfl
      constructor
      · rw [macroSymbols, runsFrom, if_pos isWord, if_pos isWord, after, ih.1]
        rfl
      · rw [macroSymbols, runsFrom, if_pos isWord, if_pos isWord, after, ih.1, wordsOf, if_neg (List.cons_ne_nil _ _)]
        simp
    · have after (lastSep : Bool) : tailAfter lastSep (ch :: path) = tailAfter true path := by
        rw [tailAfter, Bool.eq_false_iff.mpr isWord]
        rfl
      rw [macroSymbols, macroSymbols, runsFrom, if_neg isWord, if_neg isWord, if_neg isWord, after, after,
        if_neg Bool.false_ne_true, if_pos rfl, wordsOf_nil]
      exact ⟨ih.2, ih.2⟩

theorem tailAfter_eq (lastSep : Bool) (path : Text) : tailAfter lastSep path = [] ∨ tailAfter lastSep path = ['_'] := by
  induction path generalizing lastSep with
  | nil => cases lastSep <;> simp [tailAfter]
  | cons ch path ih => exact ih _

/-- The words with a separator between each two. -/
def joined : List Text → Text
  | [] => []
  | word :: words => word ++ words.flatMap ('_' :: ·)

theorem joined_eq_nil_iff {words : List Text} (good : ∀ word ∈ words, IsGuardWord word) : joined words = [] ↔ words = [] := by
  cases words with
  | nil => simp [joined]
  | cons word words =>
    have nonempty := (good word List.mem_cons_self).1
    simp [joined, nonempty]

theorem head?_joined {words : List Text} (good : ∀ word ∈ words, IsGuardWord word) :
    (joined words).head? = words.head?.bind List.head? := by
  cases words with
  | nil => rfl
  | cons word words =>
    obtain ⟨first, rest, rfl⟩ := List.exists_cons_of_ne_nil (good word List.mem_cons_self).1
    rfl

theorem underscore_not_mem {word : Text} (good : IsGuardWord word) : '_' ∉ word := by
  intro member
  exact absurd (good.2 '_' member) (by decide)

theorem joined_cons_cons (word next : Text) (words : List Text) :
    joined (word :: next :: words) = word ++ ['_'] ++ joined (next :: words) := by
  simp [joined]

theorem getLast?_joined {words : List Text} (good : ∀ word ∈ words, IsGuardWord word) : (joined words).getLast? ≠ some '_' := by
  induction words with
  | nil => exact nofun
  | cons word words ih =>
    have others : ∀ other ∈ words, IsGuardWord other := fun other member => good other (List.mem_cons_of_mem _ member)
    cases words with
    | nil =>
      rw [joined, List.flatMap_nil, List.append_nil]
      intro last
      exact underscore_not_mem (good word List.mem_cons_self) (List.mem_of_getLast? last)
    | cons next words =>
      have nonempty : joined (next :: words) ≠ [] := fun empty => List.cons_ne_nil _ _ ((joined_eq_nil_iff others).mp empty)
      rw [joined_cons_cons, List.getLast?_append_of_ne_nil _ nonempty]
      exact ih others

theorem flatten_eq_joined {words : List Text} (nonempty : words ≠ []) :
    (words.map (· ++ ['_'])).flatten = joined words ++ ['_'] := by
  induction words with
  | nil => exact absurd rfl nonempty
  | cons word words ih =>
    cases words with
    | nil => simp [joined]
    | cons next words =>
      rw [joined_cons_cons, List.map_cons, List.flatten_cons, ih (List.cons_ne_nil _ _)]
      simp only [List.append_assoc]

theorem dropWhile_underscore {value : Text} (starts : value.head? ≠ some '_') : value.dropWhile (· = '_') = value := by
  cases value with
  | nil => rfl
  | cons symbol value =>
    refine List.dropWhile_cons_of_neg fun isSep => starts ?_
    rw [of_decide_eq_true isSep]
    rfl

theorem trim_joined {words : List Text} (good : ∀ word ∈ words, IsGuardWord word) {tail : Text} (short : tail = [] ∨ tail = ['_']) :
    trimSeparators (joined words ++ tail) = joined words := by
  have back : ((joined words ++ tail).reverse.dropWhile (· = '_')).reverse = joined words := by
    have last : (joined words).reverse.head? ≠ some '_' := by
      rw [List.head?_reverse]
      exact getLast?_joined good
    obtain rfl | rfl := short
    · rw [List.append_nil, dropWhile_underscore last, List.reverse_reverse]
    · rw [List.reverse_append, List.reverse_singleton, List.singleton_append, List.dropWhile_cons_of_pos (by decide),
        dropWhile_underscore last, List.reverse_reverse]
  cases words with
  | nil => obtain rfl | rfl := short <;> rfl
  | cons word words =>
    have front : (joined (word :: words) ++ tail).head? ≠ some '_' := by
      obtain ⟨first, rest, rfl⟩ := List.exists_cons_of_ne_nil (good word List.mem_cons_self).1
      intro starts
      obtain rfl : first = '_' := Option.some.inj starts
      exact underscore_not_mem (good _ List.mem_cons_self) List.mem_cons_self
    rw [trimSeparators, dropWhile_underscore front, back]

theorem trimSeparators_cons (value : Text) : trimSeparators ('_' :: value) = trimSeparators value := by
  rw [trimSeparators, List.dropWhile_cons_of_pos (by decide), ← trimSeparators]

theorem trimSeparators_macroSymbols (path : Text) : trimSeparators (macroSymbols false path) = joined (pathWords path) := by
  have good := isGuardWord_pathWords path
  rw [pathWords, wordsOf] at good ⊢
  rw [(macroSymbols_eq path).1]
  split at good
  · rename_i empty
    rw [if_pos empty, empty, List.nil_append]
    cases words : (runsFrom path).2 with
    | nil =>
      rw [words] at good
      exact trim_joined good (tailAfter_eq false path)
    | cons word rest =>
      rw [words] at good
      exact (trimSeparators_cons _).trans (trim_joined good (tailAfter_eq false path))
  · rename_i nonempty
    rw [if_neg nonempty]
    exact trim_joined good (tailAfter_eq false path)

theorem deriveMacro_eq (path : Text) : deriveMacro path = ((guardWords path).map (· ++ ['_'])).flatten := by
  have named : (if joined (pathWords path) = [] then "HEADER".toList else joined (pathWords path)) =
      joined (namedWords path) := by
    rw [namedWords]
    by_cases none : pathWords path = []
    · rw [none]
      rfl
    · rw [if_neg none, if_neg fun empty => none ((joined_eq_nil_iff (isGuardWord_pathWords path)).mp empty)]
  have digit : ((joined (namedWords path)).head?.any Char.isDigit) =
      (namedWords path).head?.any fun word => word.head?.any Char.isDigit := by
    rw [head?_joined (isGuardWord_namedWords path)]
    cases (namedWords path).head? <;> rfl
  have nonempty : namedWords path ≠ [] := by
    rw [namedWords]
    split
    · exact List.cons_ne_nil _ _
    · rename_i some
      exact some
  have spelled : (if (joined (namedWords path)).head?.any Char.isDigit then "H_".toList ++ joined (namedWords path)
      else joined (namedWords path)) = joined (guardWords path) := by
    rw [digit, guardWords]
    split
    · obtain ⟨word, words, known⟩ := List.exists_cons_of_ne_nil nonempty
      rw [known, joined_cons_cons]
      rfl
    · rfl
  have someWord : guardWords path ≠ [] := by
    rw [guardWords]
    split
    · exact List.cons_ne_nil _ _
    · exact nonempty
  rw [deriveMacro, trimSeparators_macroSymbols, named, spelled, if_neg (getLast?_joined (isGuardWord_guardWords path)), flatten_eq_joined someWord]

/-! ## Identifiers -/

/-- Letters, digits and underscores, without a digit at the front. -/
def IsMacroName (name : Text) : Prop := ∃ first rest, name = first :: rest ∧ first.isDigit = false ∧ WordText name

theorem exists_guardWords (path : Text) : ∃ first rest words, guardWords path = (first :: rest) :: words ∧ first.isDigit = false := by
  rw [guardWords]
  split
  · exact ⟨'H', [], _, rfl, by decide⟩
  · rename_i plain
    have good := isGuardWord_namedWords path
    cases known : namedWords path with
    | nil =>
      rw [namedWords] at known
      split at known
      · cases known
      · rename_i some
        exact absurd known some
    | cons word words =>
      rw [known] at good plain
      obtain ⟨first, rest, rfl⟩ := List.exists_cons_of_ne_nil (good word List.mem_cons_self).1
      exact ⟨first, rest, words, rfl, Bool.eq_false_iff.mpr plain⟩

theorem isIdentifier_deriveMacro (path : Text) : IsMacroName (deriveMacro path) := by
  obtain ⟨first, rest, words, known, notDigit⟩ := exists_guardWords path
  have word := wordText_deriveMacro path
  have spelled : deriveMacro path = first :: (rest ++ ['_'] ++ (words.map (· ++ ['_'])).flatten) := by
    rw [deriveMacro_eq, known]
    rfl
  exact ⟨first, _, spelled, notDigit, word⟩

theorem isLines_words {words : List Text} (good : ∀ word ∈ words, IsGuardWord word) :
    Lines.IsLines '_' (words.map (· ++ ['_'])) := by
  induction words with
  | nil => exact .nil
  | cons word words ih =>
    refine .cons ⟨word, underscore_not_mem (good word List.mem_cons_self), rfl⟩ (ih ?_)
    exact fun other member => good other (List.mem_cons_of_mem _ member)

theorem deriveMacro_eq_iff (path other : Text) : deriveMacro path = deriveMacro other ↔ guardWords path = guardWords other := by
  constructor
  · intro same
    rw [deriveMacro_eq, deriveMacro_eq] at same
    have lines := Lines.IsLines.flatten_injective (isLines_words (isGuardWord_guardWords path))
      (isLines_words (isGuardWord_guardWords other)) same
    exact List.map_injective_iff.mpr (List.append_left_injective ['_']) lines
  · intro same
    rw [deriveMacro_eq, deriveMacro_eq, same]

/-- The name of a guard is an identifier, and two paths have it in common when their words are the same. -/
theorem deriveMacro_identifies (path other : Text) :
    IsMacroName (deriveMacro path) ∧ (deriveMacro path = deriveMacro other ↔ guardWords path = guardWords other) :=
  ⟨isIdentifier_deriveMacro path, deriveMacro_eq_iff path other⟩

theorem deriveMacro_shared : deriveMacro "net/io-buffer.h".toList = deriveMacro "net/io_buffer.h".toList ∧
    "net/io-buffer.h".toList ≠ "net/io_buffer.h".toList := by
  decide +kernel

end MjFormatter.Verified
