import Mathlib.Data.List.Induction
import MjFormatter.Library.Literals
import MjFormatter.Policy.NumericSuffix

/-! # Literals that get another suffix

A rewritten literal has the value of the old one only if the old suffix and the new one are suffixes of the same kind of
number, and only if no separator is left at the end of a fraction. -/

namespace MjFormatter.Verified

open Library.Literals NumericLiteralSuffixPolicy

/-! ## What the rewriting is to keep -/

/-- The policy finds this suffix for some type. -/
def Resolvable (suffix : Text) (isFloat : Bool) : Prop :=
  ∃ canonicalTypeKind typeNode, resolveSuffix canonicalTypeKind typeNode = some (suffix, isFloat)

structure Rewritten (literal suffix : Text) (isFloat : Bool) (newLiteral : Text) : Prop where
  value : ∃ value, literalValue literal = some value ∧ literalValue newLiteral = some value
  ends : suffix <:+ newLiteral
  stable : rewriteLiteral newLiteral suffix isFloat = none

def KeepsNumber (literal suffix : Text) (isFloat : Bool) : Prop :=
  ∀ newLiteral, rewriteLiteral literal suffix isFloat = some newLiteral → Rewritten literal suffix isFloat newLiteral

/-! ## When it does -/

def behindPoint (number : Text) : Text := (number.dropWhile (· ≠ '.')).drop 1

/-- A decimal literal has the suffix already, and no zeros at the end of its fraction. -/
def SuffixInPlace (literal suffix : Text) (isFloat : Bool) : Prop :=
  if isFloat then
    if suffix = [] then literal.getLast?.any isFloatSuffixSymbol = false
    else ∃ number, literal = number ++ suffix ∧ (decimalDigits (behindPoint number)).getLast? ≠ some '0'
  else literal.rtakeWhile isIntegerSuffixSymbol = suffix

/-- Integers may get any suffix; hexadecimal floating literals only `L`, and only in place of another `L` or `l`. -/
def IntegerSuffixFits (literal suffix : Text) : Prop :=
  'p' ∈ literal ∨ 'P' ∈ literal →
    suffix = [] ∨ (suffix = ['L'] ∧ literal.getLast? ≠ some 'f' ∧ literal.getLast? ≠ some 'F')

/-- The suffix is one of the language, and no separator stands in front of the zeros that are dropped. -/
def FloatSuffixFits (literal suffix : Text) : Prop :=
  suffix ≠ ['Q'] ∧
    (suffix ≠ [] → (((behindPoint literal).takeWhile (isDigitMark 10)).rdropWhile (· = '0')).getLast? ≠ some '\'')

def NumberKept (literal suffix : Text) (isFloat : Bool) : Prop :=
  isFloatLiteral literal ≠ isFloat ∨ SuffixInPlace literal suffix isFloat ∨
    ((literalValue literal).isSome ∧
      if isFloat then FloatSuffixFits literal suffix else IntegerSuffixFits literal suffix)

/-! ## Suffixes of types -/

def floatTypeSuffixes : List Text := [[], ['f'], ['L'], ['Q']]

def integerTypeSuffixes : List Text := [[], ['L'], ['L', 'L'], ['U'], ['U', 'L'], ['U', 'L', 'L']]

def typeSuffixes (isFloat : Bool) : List Text := if isFloat then floatTypeSuffixes else integerTypeSuffixes

theorem mem_of_suffixFromTypeKind {kind : CXTypeKind} {suffix : Text} {isFloat : Bool}
    (found : suffixFromTypeKind kind = some (suffix, isFloat)) : suffix ∈ typeSuffixes isFloat := by
  cases kind <;> first
    | cases found; decide
    | cases found

theorem mem_of_sizedType {sized : SizedType} {suffix : Text} {isFloat : Bool}
    (found : sized.suffix = some (suffix, isFloat)) : suffix ∈ typeSuffixes isFloat := by
  rw [SizedType.suffix] at found
  split at found
  · obtain ⟨rfl, rfl⟩ := Prod.mk.inj (Option.some.inj found)
    split <;> decide
  · split at found
    · obtain ⟨rfl, rfl⟩ := Prod.mk.inj (Option.some.inj found)
      split <;> decide
    · split at found
      all_goals first
        | obtain ⟨rfl, rfl⟩ := Prod.mk.inj (Option.some.inj found); decide
        | cases found

theorem mem_of_suffixFromTsTypeNode {typeNode : TsTypeNode} {suffix : Text} {isFloat : Bool}
    (found : suffixFromTsTypeNode typeNode = some (suffix, isFloat)) : suffix ∈ typeSuffixes isFloat := by
  rw [suffixFromTsTypeNode] at found
  split at found
  · cases found
  · split at found
    · split at found
      all_goals first
        | obtain ⟨rfl, rfl⟩ := Prod.mk.inj (Option.some.inj found); decide
        | cases found
    · exact mem_of_sizedType found
    · cases found

theorem mem_typeSuffixes {suffix : Text} {isFloat : Bool} (resolvable : Resolvable suffix isFloat) :
    suffix ∈ typeSuffixes isFloat := by
  obtain ⟨canonicalTypeKind, typeNode, found⟩ := resolvable
  rw [resolveSuffix, Option.or_eq_some_iff] at found
  cases found with
  | inl compiler =>
    obtain ⟨kind, _, same⟩ := Option.bind_eq_some_iff.mp compiler
    exact mem_of_suffixFromTypeKind same
  | inr tree =>
    obtain ⟨node, _, same⟩ := Option.bind_eq_some_iff.mp tree.2
    exact mem_of_suffixFromTsTypeNode same

/-! ## Prefixes -/

theorem eq_of_toLower {symbol lower : Char} (same : symbol.toLower = lower) :
    symbol = lower ∨ (65 ≤ symbol.toNat ∧ symbol.toNat + 32 = lower.toNat) := by
  delta Char.toLower at same
  split at same
  · next upper =>
    have large : 65 ≤ symbol.toNat := UInt32.le_iff_toNat_le.mp upper.1
    have small : symbol.toNat ≤ 90 := UInt32.le_iff_toNat_le.mp upper.2
    have code : lower.toNat = (symbol.val + ('a'.val - 'A'.val)).toNat := by
      rw [← same]
      rfl
    rw [UInt32.toNat_add] at code
    change lower.toNat = (symbol.toNat + 32) % 4294967296 at code
    exact .inr ⟨large, by omega⟩
  · exact .inl same

theorem toLower_zero_iff {symbol : Char} : symbol.toLower = '0' ↔ symbol = '0' := by
  constructor
  · intro same
    cases eq_of_toLower same with
    | inl zero => exact zero
    | inr upper =>
      have code : symbol.toNat + 32 = 48 := upper.2
      omega
  · rintro rfl
    decide

theorem toLower_letter_iff {symbol lower upper : Char} (code : upper.toNat + 32 = lower.toNat)
    (lowered : lower.toLower = lower ∧ upper.toLower = lower) : symbol.toLower = lower ↔ symbol = lower ∨ symbol = upper := by
  constructor
  · intro same
    cases eq_of_toLower same with
    | inl isLower => exact .inl isLower
    | inr isUpper => exact .inr (Char.toNat_inj.mp (by omega))
  · rintro (rfl | rfl)
    · exact lowered.1
    · exact lowered.2

theorem isHexOrBin_iff {literal : Text} :
    isHexOrBin literal = true ↔ ∃ letter rest, literal = '0' :: letter :: rest ∧ letter ∈ ['x', 'X', 'b', 'B'] := by
  match literal with
  | [] => simp [isHexOrBin, toAsciiLowercase]
  | [first] => simp [isHexOrBin, toAsciiLowercase]
  | first :: letter :: rest =>
    have hexLetter : letter.toLower = 'x' ↔ letter = 'x' ∨ letter = 'X' := toLower_letter_iff rfl (by decide)
    have binLetter : letter.toLower = 'b' ↔ letter = 'b' ∨ letter = 'B' := toLower_letter_iff rfl (by decide)
    simp only [isHexOrBin, toAsciiLowercase, List.take_succ_cons, List.take_zero, List.map_cons, List.map_nil, Bool.or_eq_true,
      decide_eq_true_eq, List.cons.injEq, toLower_zero_iff, hexLetter, binLetter, and_true]
    constructor
    · intro either
      refine ⟨letter, rest, ?_⟩
      cases either with
      | inl hexadecimal => exact ⟨⟨hexadecimal.1, rfl, rfl⟩, by simp only [List.mem_cons, List.not_mem_nil]; tauto⟩
      | inr binary => exact ⟨⟨binary.1, rfl, rfl⟩, by simp only [List.mem_cons, List.not_mem_nil]; tauto⟩
    · rintro ⟨_, _, ⟨rfl, rfl, rfl⟩, which⟩
      simp only [List.mem_cons, List.not_mem_nil, or_false] at which
      tauto

/-! ## Runs at the end of a text -/

section
variable {p : Char → Bool} {front back : Text}

theorem rdropWhile_append_of_all (all : ∀ symbol ∈ back, p symbol = true) : (front ++ back).rdropWhile p = front.rdropWhile p := by
  rw [List.rdropWhile, List.reverse_append, List.dropWhile_append_of_pos, List.rdropWhile]
  intro symbol member
  exact all symbol (List.mem_reverse.mp member)

/-- Nothing is taken off in front of a symbol that stays. -/
theorem rdropWhile_append_of_last (last : ∃ symbol ∈ front.getLast?, p symbol = false) :
    (front ++ back).rdropWhile p = front ++ back.rdropWhile p := by
  obtain ⟨symbol, member, stays⟩ := last
  obtain ⟨before, rfl⟩ := List.getLast?_eq_some_iff.mp (Option.mem_def.mp member)
  induction back using List.reverseRecOn with
  | nil => rw [List.rdropWhile_nil, List.append_nil, List.rdropWhile_concat_neg _ _ _ (by simp [stays])]
  | append_singleton back last inductionHypothesis =>
    rw [← List.append_assoc, List.rdropWhile_concat, List.rdropWhile_concat]
    split
    · exact inductionHypothesis
    · exact List.append_assoc ..

theorem take_eq_rdropWhile (text : Text) : text.take (text.length - (text.reverse.takeWhile p).length) = text.rdropWhile p := by
  have count : (text.reverse.takeWhile p).length = (text.rtakeWhile p).length := by
    rw [List.rtakeWhile, List.length_reverse]
  have whole : text.rdropWhile p ++ text.rtakeWhile p = text := List.rdropWhile_append_rtakeWhile ..
  have lengths := congrArg List.length whole
  rw [List.length_append] at lengths
  rw [count, show text.length - (text.rtakeWhile p).length = (text.rdropWhile p).length by omega]
  nth_rewrite 2 [← whole]
  exact List.take_left

end

/-! ## Integers -/

theorem rewriteLiteral_integer {literal : Text} (notFloat : isFloatLiteral literal = false) (suffix : Text) :
    rewriteLiteral literal suffix false =
      if literal.rdropWhile isIntegerSuffixSymbol ++ suffix = literal then none
      else some (literal.rdropWhile isIntegerSuffixSymbol ++ suffix) := by
  have stripped : stripSuffix literal = literal.rdropWhile isIntegerSuffixSymbol := by
    rw [stripSuffix, notFloat, if_neg Bool.false_ne_true, take_eq_rdropWhile]
  rw [rewriteLiteral, notFloat, if_neg (not_not_intro rfl), stripped, Bool.false_and]
  rfl

theorem all_of_integerTypeSuffix {suffix : Text} (known : suffix ∈ integerTypeSuffixes) :
    ∀ symbol ∈ suffix, isIntegerSuffixSymbol symbol = true := by
  have all : ∀ suffix ∈ integerTypeSuffixes, ∀ symbol ∈ suffix, isIntegerSuffixSymbol symbol = true := by decide
  exact all suffix known

theorem rewriteLiteral_integer_stable (literal : Text) {suffix : Text} (known : suffix ∈ integerTypeSuffixes) :
    rewriteLiteral (literal.rdropWhile isIntegerSuffixSymbol ++ suffix) suffix false = none := by
  cases kind : isFloatLiteral (literal.rdropWhile isIntegerSuffixSymbol ++ suffix) with
  | true => rw [rewriteLiteral, kind, if_pos (Ne.symm Bool.false_ne_true)]
  | false =>
    rw [rewriteLiteral_integer kind, rdropWhile_append_of_all (all_of_integerTypeSuffix known), List.rdropWhile_idempotent,
      if_pos rfl]

theorem stripped_append_eq_iff (literal suffix : Text) :
    literal.rdropWhile isIntegerSuffixSymbol ++ suffix = literal ↔ SuffixInPlace literal suffix false := by
  have whole : literal.rdropWhile isIntegerSuffixSymbol ++ literal.rtakeWhile isIntegerSuffixSymbol = literal :=
    List.rdropWhile_append_rtakeWhile ..
  rw [SuffixInPlace, if_neg Bool.false_ne_true]
  constructor
  · intro same
    exact (List.append_cancel_left (same.trans whole.symm)).symm
  · intro same
    rw [← same, whole]

/-! ## The values of integers -/

theorem suffixSymbol_of_integerSuffix {suffix : Text} (known : suffix ∈ integerSuffixes) :
    ∀ symbol ∈ suffix, isIntegerSuffixSymbol symbol = true := by
  have all : ∀ suffix ∈ integerSuffixes, ∀ symbol ∈ suffix, isIntegerSuffixSymbol symbol = true := by decide
  exact all suffix known

theorem mem_integerSuffixes {suffix : Text} (known : suffix ∈ integerTypeSuffixes) : suffix ∈ integerSuffixes := by
  have all : ∀ suffix ∈ integerTypeSuffixes, suffix ∈ integerSuffixes := by decide
  exact all suffix known

/-- No numeral goes on with a letter of an integer suffix. -/
theorem integerSuffixSymbol_foreign {symbol : Char} (letter : isIntegerSuffixSymbol symbol = true) :
    isDigitMark 16 symbol = false ∧ decimal.mark symbol = false ∧ hexadecimal.mark symbol = false ∧
      symbol ∉ ['.', 'p', 'P', 'e', 'E', 'x', 'X', 'b', 'B', '\''] := by
  have which : symbol = 'u' ∨ symbol = 'U' ∨ symbol = 'l' ∨ symbol = 'L' := by
    simpa [isIntegerSuffixSymbol, or_assoc] using letter
  rcases which with rfl | rfl | rfl | rfl <;> decide

theorem isDigitMark_integerSuffixSymbol {symbol : Char} (letter : isIntegerSuffixSymbol symbol = true) {base : ℕ}
    (small : base ≤ 16) : isDigitMark base symbol = false :=
  Bool.eq_false_iff.mpr fun isMark => absurd (isDigitMark_mono small isMark) (by simp [(integerSuffixSymbol_foreign letter).1])

theorem outside_integerSuffix {system : NumberSystem} (kind : NumberKind) (known : system = decimal ∨ system = hexadecimal)
    {suffix : Text} (all : ∀ symbol ∈ suffix, isIntegerSuffixSymbol symbol = true) : Outside system kind suffix := by
  cases suffix with
  | nil => exact ⟨stops_nil _, fun _ => stops_nil _, fun _ => stops_nil _, fun _ => by simp⟩
  | cons symbol rest =>
    obtain ⟨noHex, noE, noP, noMember⟩ := integerSuffixSymbol_foreign (all symbol List.mem_cons_self)
    have small : ∀ {base : ℕ}, base ≤ 16 → isDigitMark base symbol = false :=
      isDigitMark_integerSuffixSymbol (all symbol List.mem_cons_self)
    refine ⟨stops_cons (small (by decide)), fun _ => stops_cons ?_, fun _ => stops_cons ?_, fun _ same => ?_⟩
    · cases known with
      | inl isDecimal => rw [isDecimal]; exact small (by decide)
      | inr isHexadecimal => rw [isHexadecimal]; exact noHex
    · cases known with
      | inl isDecimal => rw [isDecimal]; exact noE
      | inr isHexadecimal => rw [isHexadecimal]; exact noP
    · rw [List.head?_cons, Option.some.injEq] at same
      exact noMember (by simp [same])

theorem last_not_integerSuffix {system : NumberSystem} (regular : system.Regular) (small : system.base ≤ 16) {kind : NumberKind}
    {number : Text} {value : ℚ} (numeral : Numeral system kind number value) :
    ∃ symbol ∈ number.getLast?, isIntegerSuffixSymbol symbol = false := by
  obtain ⟨symbol, member, which⟩ := numeral.getLast regular
  refine ⟨symbol, member, Bool.eq_false_iff.mpr fun letter => ?_⟩
  cases which with
  | inl isDigit =>
    have isMark : isDigitMark system.base symbol = true := by rw [isDigitMark, isDigit, Bool.or_true]
    exact absurd isMark (by simp [isDigitMark_integerSuffixSymbol letter small])
  | inr isPoint => exact (integerSuffixSymbol_foreign letter).2.2.2 (by simp [isPoint])

theorem hexadecimal_value {rest suffix : Text} {letter : Char} {value : ℚ} (isLetter : letter = 'x' ∨ letter = 'X')
    (read : readNumber hexadecimal rest = some value) (known : suffix ∈ integerTypeSuffixes) :
    readNumber hexadecimal (rest.rdropWhile isIntegerSuffixSymbol ++ suffix) = some value ↔
      IntegerSuffixFits ('0' :: letter :: rest) suffix := by
  obtain ⟨kind, number, old, rfl, isSuffix, numeral⟩ := numeral_of_read read
  rw [rdropWhile_append_of_last (last_not_integerSuffix hexadecimal_regular le_rfl numeral), List.append_assoc]
  cases kind with
  | integer =>
    have gone : old.rdropWhile isIntegerSuffixSymbol = [] :=
      List.rdropWhile_eq_nil_iff.mpr (suffixSymbol_of_integerSuffix isSuffix)
    have accepted : NumberKind.integer.suffixes.contains suffix = true := List.contains_iff_mem.mpr (mem_integerSuffixes known)
    rw [gone, List.nil_append, readNumber_numeral hexadecimal_regular numeral
      (outside_integerSuffix .integer (.inr rfl) (all_of_integerTypeSuffix known)), accepted, if_pos rfl]
    refine iff_of_true rfl fun exponent => ?_
    have noExponent : ∀ symbol ∈ '0' :: letter :: (number ++ old), hexadecimal.mark symbol = false := by
      intro symbol member
      rw [List.mem_cons, List.mem_cons, List.mem_append] at member
      obtain isZero | isPrefix | inNumber | inOld := member
      · rw [isZero]
        decide
      · cases isLetter with
        | inl lower => rw [isPrefix, lower]; decide
        | inr upper => rw [isPrefix, upper]; decide
      · refine Bool.eq_false_iff.mpr fun isMark => ?_
        exact absurd (numeral.digits hexadecimal_regular symbol inNumber) (by simp [(hexadecimal_regular.mark symbol isMark).1])
      · exact (integerSuffixSymbol_foreign (suffixSymbol_of_integerSuffix isSuffix symbol inOld)).2.2.1
    cases exponent with
    | inl lower => exact absurd (noExponent 'p' lower) (by decide)
    | inr upper => exact absurd (noExponent 'P' upper) (by decide)
  | floating =>
    obtain ⟨⟨mark, inNumber, isMark⟩, digit, member, isDigit⟩ := numeral.getLast_exponent rfl
    have accepted : ∀ old ∈ floatSuffixes, ∀ suffix ∈ integerTypeSuffixes,
        (floatSuffixes.contains (old.rdropWhile isIntegerSuffixSymbol ++ suffix) = true ↔
          (suffix = [] ∨ (suffix = ['L'] ∧ old.getLast? ≠ some 'f' ∧ old.getLast? ≠ some 'F'))) := by decide
    have stops : ∀ old ∈ floatSuffixes, ∀ suffix ∈ integerTypeSuffixes,
        ∀ symbol ∈ (old.rdropWhile isIntegerSuffixSymbol ++ suffix).head?, isDigitMark 10 symbol = false := by decide
    have outside : Outside hexadecimal .floating (old.rdropWhile isIntegerSuffixSymbol ++ suffix) :=
      ⟨stops old isSuffix suffix known, fun either => by cases either <;> contradiction,
        fun either => by cases either <;> contradiction, fun same => by cases same⟩
    rw [readNumber_numeral hexadecimal_regular numeral outside, NumberKind.suffixes, ite_eq_left_iff,
      IntegerSuffixFits]
    have present : 'p' ∈ '0' :: letter :: (number ++ old) ∨ 'P' ∈ '0' :: letter :: (number ++ old) := by
      have which : mark = 'p' ∨ mark = 'P' := by simpa [hexadecimal] using isMark
      have inside : mark ∈ '0' :: letter :: (number ++ old) :=
        List.mem_cons_of_mem _ (List.mem_cons_of_mem _ (List.mem_append_left _ inNumber))
      cases which with
      | inl lower => exact .inl (lower ▸ inside)
      | inr upper => exact .inr (upper ▸ inside)
    have sameLast : ∀ symbol ∈ ['f', 'F'],
        (('0' :: letter :: (number ++ old)).getLast? = some symbol ↔ old.getLast? = some symbol) := by
      intro symbol which
      have front : '0' :: letter :: (number ++ old) = ('0' :: letter :: number) ++ old := rfl
      cases old with
      | nil =>
        have ends : (['0', letter] ++ number).getLast? = some digit := getLast?_append_of_mem member
        have noDigit : ∀ symbol ∈ ['f', 'F'], isDigitOf 10 symbol = false := by decide
        rw [front, List.append_nil, show '0' :: letter :: number = ['0', letter] ++ number from rfl, ends]
        refine iff_of_false (fun same => ?_) (by simp)
        rw [Option.some.injEq] at same
        exact absurd (same ▸ isDigit) (by simp [noDigit symbol which])
      | cons first others =>
        rw [front, List.getLast?_append_of_ne_nil _ (List.cons_ne_nil _ _)]
    have table := accepted old isSuffix suffix known
    rw [Ne, Ne, sameLast 'f' (by decide), sameLast 'F' (by decide)]
    constructor
    · intro read _
      exact table.mp (by by_contra rejected; exact absurd (read rejected) (by simp))
    · intro fits rejected
      exact absurd (table.mpr (fits present)) rejected

theorem binary_value {rest suffix : Text} {letter : Char} {value : ℚ} (isLetter : letter = 'b' ∨ letter = 'B')
    (read : readBinary rest = some value) (known : suffix ∈ integerTypeSuffixes) :
    readBinary (rest.rdropWhile isIntegerSuffixSymbol ++ suffix) = some value ∧
      IntegerSuffixFits ('0' :: letter :: rest) suffix := by
  rw [readBinary] at read
  obtain ⟨sequence, isSuffix, rfl⟩ := readInteger_eq_some read
  have whole : rest = rest.takeWhile (isDigitMark 2) ++ rest.dropWhile (isDigitMark 2) := List.takeWhile_append_dropWhile.symm
  generalize rest.takeWhile (isDigitMark 2) = digits at whole sequence
  generalize rest.dropWhile (isDigitMark 2) = old at whole isSuffix
  have digitMarks := isDigitMark_of_sequence sequence
  have foreign : ∀ symbol, isIntegerSuffixSymbol symbol = true → isDigitMark 2 symbol = false := fun _ letter =>
    isDigitMark_integerSuffixSymbol letter (by decide)
  have stripped : rest.rdropWhile isIntegerSuffixSymbol = digits := by
    obtain ⟨symbol, member, isDigit⟩ := isDigitOf_getLast sequence
    have stays : isIntegerSuffixSymbol symbol = false := Bool.eq_false_iff.mpr fun letter =>
      absurd (foreign symbol letter) (by simp [digitMarks symbol (List.mem_of_getLast? member)])
    rw [whole, rdropWhile_append_of_last ⟨symbol, member, stays⟩,
      List.rdropWhile_eq_nil_iff.mpr (suffixSymbol_of_integerSuffix isSuffix), List.append_nil]
  constructor
  · have stops : Stops (isDigitMark 2) suffix := by
      cases suffix with
      | nil => exact stops_nil _
      | cons symbol others => exact stops_cons (foreign symbol (all_of_integerTypeSuffix known symbol List.mem_cons_self))
    rw [stripped, readBinary, takeWhile_run digitMarks stops, dropWhile_run digitMarks stops, readInteger, sequence,
      List.contains_iff_mem.mpr (mem_integerSuffixes known)]
    rfl
  · have noExponent : ∀ symbol ∈ '0' :: letter :: rest, symbol ≠ 'p' ∧ symbol ≠ 'P' := by
      intro symbol member
      rw [whole, List.mem_cons, List.mem_cons, List.mem_append] at member
      obtain isZero | isPrefix | inDigits | inOld := member
      · rw [isZero]
        decide
      · cases isLetter with
        | inl lower => rw [isPrefix, lower]; decide
        | inr upper => rw [isPrefix, upper]; decide
      · have isMark := digitMarks symbol inDigits
        constructor
        · rintro rfl
          exact absurd isMark (by decide)
        · rintro rfl
          exact absurd isMark (by decide)
      · have noMember := (integerSuffixSymbol_foreign (suffixSymbol_of_integerSuffix isSuffix symbol inOld)).2.2.2
        simp only [List.mem_cons, not_or] at noMember
        exact ⟨noMember.2.1, noMember.2.2.1⟩
    intro exponent
    cases exponent with
    | inl lower => exact absurd rfl (noExponent 'p' lower).1
    | inr upper => exact absurd rfl (noExponent 'P' upper).2

/-- The symbols of a decimal numeral are none of those that a prefix is told by. -/
theorem decimalSymbol_foreign {symbol : Char} (isSymbol : IsNumberSymbol decimal symbol) :
    symbol ∉ ['x', 'X', 'b', 'B', 'p', 'P', 'u', 'U', 'l', 'L', 'f', 'F', 'Q'] := by
  intro member
  have none : ∀ symbol ∈ ['x', 'X', 'b', 'B', 'p', 'P', 'u', 'U', 'l', 'L', 'f', 'F', 'Q'],
      isDigitMark 10 symbol = false ∧ decimal.mark symbol = false ∧ symbol ∉ ['.', '+', '-'] := by decide
  obtain ⟨noDigit, noMark, noOther⟩ := none symbol member
  obtain isDigit | isMark | isOther := isSymbol
  · exact absurd (show isDigitMark 10 symbol = true from isDigit) (by simp [noDigit])
  · exact absurd isMark (by simp [noMark])
  · exact noOther isOther

theorem literalValue_of_decimal {literal : Text} (symbols : ∀ symbol ∈ literal, symbol ∉ ['x', 'X', 'b', 'B']) :
    literalValue literal = readNumber decimal literal := by
  refine literalValue_decimal fun letter rest same => symbols letter ?_
  rw [same]
  exact List.mem_cons_of_mem _ List.mem_cons_self

theorem literalValue_of_plain {literal : Text} (plain : isHexOrBin literal = false) :
    literalValue literal = readNumber decimal literal :=
  literalValue_decimal fun letter rest same which =>
    absurd (isHexOrBin_iff.mpr ⟨letter, rest, same, which⟩) (by simp [plain])

theorem decimal_value {literal suffix : Text} {value : ℚ} (plain : isHexOrBin literal = false)
    (notFloat : isFloatLiteral literal = false) (same : literalValue literal = some value)
    (known : suffix ∈ integerTypeSuffixes) :
    literalValue (literal.rdropWhile isIntegerSuffixSymbol ++ suffix) = some value ∧ IntegerSuffixFits literal suffix := by
  rw [literalValue_of_plain plain] at same
  obtain ⟨kind, number, old, rfl, isSuffix, numeral⟩ := numeral_of_read same
  cases kind with
  | floating =>
    obtain ⟨symbol, member, which⟩ := numeral.mark_or_point
    rw [isFloatLiteral, plain, Bool.not_false, Bool.true_and, List.any_eq_false] at notFloat
    refine absurd ?_ (notFloat symbol (List.mem_append_left _ member))
    cases which with
    | inl isMark =>
      have letter : symbol = 'e' ∨ symbol = 'E' := by simpa [decimal] using isMark
      cases letter with
      | inl lower => simp [lower]
      | inr upper => simp [upper]
    | inr isPoint => simp [isPoint]
  | integer =>
    have stripped : (number ++ old).rdropWhile isIntegerSuffixSymbol = number := by
      rw [rdropWhile_append_of_last (last_not_integerSuffix decimal_regular (by decide) numeral),
        List.rdropWhile_eq_nil_iff.mpr (suffixSymbol_of_integerSuffix isSuffix), List.append_nil]
    have plainSymbols : ∀ symbol ∈ number ++ suffix, symbol ∉ ['x', 'X', 'b', 'B'] := by
      intro symbol member which
      cases List.mem_append.mp member with
      | inl inNumber => exact decimalSymbol_foreign (numeral.symbols decimal_regular symbol inNumber) (List.mem_append_left _ which)
      | inr inSuffix =>
        have noMember := (integerSuffixSymbol_foreign (all_of_integerTypeSuffix known symbol inSuffix)).2.2.2
        simp only [List.mem_cons, List.not_mem_nil, or_false] at noMember which
        tauto
    constructor
    · rw [stripped, literalValue_of_decimal plainSymbols, readNumber_numeral decimal_regular numeral
        (outside_integerSuffix .integer (.inl rfl) (all_of_integerTypeSuffix known)),
        List.contains_iff_mem.mpr (show suffix ∈ NumberKind.integer.suffixes from mem_integerSuffixes known), if_pos rfl]
    · have noExponent : ∀ symbol ∈ ['p', 'P'], symbol ∉ number ++ old := by
        intro symbol which member
        cases List.mem_append.mp member with
        | inl inNumber =>
          refine decimalSymbol_foreign (numeral.symbols decimal_regular symbol inNumber) ?_
          simp only [List.mem_cons, List.not_mem_nil, or_false] at which ⊢
          tauto
        | inr inOld =>
          have noMember := (integerSuffixSymbol_foreign (suffixSymbol_of_integerSuffix isSuffix symbol inOld)).2.2.2
          simp only [List.mem_cons, List.not_mem_nil, or_false] at noMember which
          tauto
      intro exponent
      cases exponent with
      | inl lower => exact absurd lower (noExponent 'p' (by decide))
      | inr upper => exact absurd upper (noExponent 'P' (by decide))

/-- An integer (or a hexadecimal number) keeps its value exactly if the suffix fits. -/
theorem integer_value_iff {literal suffix : Text} {value : ℚ} (notFloat : isFloatLiteral literal = false)
    (same : literalValue literal = some value) (known : suffix ∈ integerTypeSuffixes) :
    literalValue (literal.rdropWhile isIntegerSuffixSymbol ++ suffix) = some value ↔ IntegerSuffixFits literal suffix := by
  cases plain : isHexOrBin literal with
  | false =>
    obtain ⟨kept, fits⟩ := decimal_value plain notFloat same known
    exact iff_of_true kept fits
  | true =>
    obtain ⟨letter, rest, rfl, which⟩ := isHexOrBin_iff.mp plain
    have letters : ∀ symbol ∈ ['x', 'X', 'b', 'B'], isIntegerSuffixSymbol symbol = false := by decide
    have stays : ∃ symbol ∈ ['0', letter].getLast?, isIntegerSuffixSymbol symbol = false := ⟨letter, rfl, letters letter which⟩
    have stripped : ('0' :: letter :: rest).rdropWhile isIntegerSuffixSymbol =
        '0' :: letter :: rest.rdropWhile isIntegerSuffixSymbol := rdropWhile_append_of_last stays
    rw [stripped, List.cons_append, List.cons_append]
    simp only [List.mem_cons, List.not_mem_nil, or_false, ← or_assoc] at which
    rw [or_assoc] at which
    cases which with
    | inl isHexadecimal =>
      rw [literalValue_hexadecimal isHexadecimal] at same ⊢
      exact hexadecimal_value isHexadecimal same known
    | inr isBinary =>
      rw [literalValue_binary isBinary] at same ⊢
      obtain ⟨kept, fits⟩ := binary_value isBinary same known
      exact iff_of_true kept fits

/-! ## Zeros at the end of a fraction -/

def noExponentSymbol (symbol : Char) : Bool := !(symbol = 'e' || symbol = 'E')

def trimZeros (digits : Text) : Text := digits.rdropWhile (· = '0')

theorem getLast?_rdropWhile_eq_self_iff {p : Char → Bool} {text : Text} :
    text.rdropWhile p = text ↔ ∀ symbol ∈ text.getLast?, p symbol = false := by
  rw [List.rdropWhile_eq_self_iff]
  constructor
  · intro stays symbol member
    obtain ⟨front, rfl⟩ := List.getLast?_eq_some_iff.mp (Option.mem_def.mp member)
    simpa using stays (by simp)
  · intro stays shown
    simp [stays _ (List.getLast?_eq_some_getLast shown)]

theorem normalizeFloatDecimal_of_point {whole : Text} (clear : '.' ∉ whole) (behind : Text) :
    normalizeFloatDecimal (whole ++ '.' :: behind) =
      whole ++ '.' :: (trimZeros (decimalDigits behind) ++ behind.dropWhile noExponentSymbol) := by
  have all : ∀ symbol ∈ whole, (fun symbol : Char => decide (symbol ≠ '.')) symbol = true := fun symbol member =>
    decide_eq_true fun same => clear (same ▸ member)
  have stops : Stops (fun symbol : Char => decide (symbol ≠ '.')) ('.' :: behind) := stops_cons (by decide)
  unfold normalizeFloatDecimal
  rw [dropWhile_run all stops, takeWhile_run all stops]
  rfl

theorem normalizeFloatDecimal_of_clear {number : Text} (clear : '.' ∉ number) : normalizeFloatDecimal number = number := by
  have all : number.dropWhile (fun symbol => decide (symbol ≠ '.')) = [] :=
    List.dropWhile_eq_nil_iff.mpr fun symbol member => decide_eq_true fun same => clear (same ▸ member)
  rw [normalizeFloatDecimal, all]

theorem exists_point (number : Text) : '.' ∉ number ∨ ∃ whole behind, number = whole ++ '.' :: behind ∧ '.' ∉ whole := by
  by_cases present : '.' ∈ number
  · exact .inr (List.eq_append_cons_of_mem present)
  · exact .inl present

theorem behindPoint_of_point {whole : Text} (clear : '.' ∉ whole) (behind : Text) : behindPoint (whole ++ '.' :: behind) = behind := by
  have all : ∀ symbol ∈ whole, (fun symbol : Char => decide (symbol ≠ '.')) symbol = true := fun symbol member =>
    decide_eq_true fun same => clear (same ▸ member)
  have stops : Stops (fun symbol : Char => decide (symbol ≠ '.')) ('.' :: behind) := stops_cons (by decide)
  rw [behindPoint, dropWhile_run all stops]
  rfl

theorem behindPoint_of_clear {number : Text} (clear : '.' ∉ number) : behindPoint number = [] := by
  have all : number.dropWhile (fun symbol => decide (symbol ≠ '.')) = [] :=
    List.dropWhile_eq_nil_iff.mpr fun symbol member => decide_eq_true fun same => clear (same ▸ member)
  rw [behindPoint, all]
  rfl

/-- A number is left alone if there are no zeros to drop. -/
theorem normalizeFloatDecimal_eq_self_iff {number : Text} :
    normalizeFloatDecimal number = number ↔ (decimalDigits (behindPoint number)).getLast? ≠ some '0' := by
  cases exists_point number with
  | inl clear =>
    rw [normalizeFloatDecimal_of_clear clear, behindPoint_of_clear clear]
    exact iff_of_true rfl (by simp [decimalDigits])
  | inr pointed =>
    obtain ⟨whole, behind, rfl, clear⟩ := pointed
    rw [normalizeFloatDecimal_of_point clear, behindPoint_of_point clear]
    have split : behind = decimalDigits behind ++ behind.dropWhile noExponentSymbol := List.takeWhile_append_dropWhile.symm
    have trimmed : trimZeros (decimalDigits behind) = decimalDigits behind ↔
        (decimalDigits behind).getLast? ≠ some '0' := by
      rw [trimZeros, getLast?_rdropWhile_eq_self_iff]
      constructor
      · intro stays same
        exact absurd (stays '0' same) (by decide)
      · intro other symbol member
        exact decide_eq_false fun same => other (same ▸ member)
    rw [← trimmed, List.append_cancel_left_eq, List.cons.injEq]
    nth_rewrite 3 [split]
    rw [List.append_cancel_right_eq, eq_self, true_and]

theorem mem_of_mem_normalizeFloatDecimal {number : Text} {symbol : Char} (member : symbol ∈ normalizeFloatDecimal number) :
    symbol ∈ number := by
  cases exists_point number with
  | inl clear => rwa [normalizeFloatDecimal_of_clear clear] at member
  | inr pointed =>
    obtain ⟨whole, behind, rfl, clear⟩ := pointed
    rw [normalizeFloatDecimal_of_point clear, List.mem_append, List.mem_cons, List.mem_append] at member
    rw [List.mem_append, List.mem_cons]
    obtain inWhole | isPoint | inDigits | inExponent := member
    · exact .inl inWhole
    · exact .inr (.inl isPoint)
    · exact .inr (.inr ((List.takeWhile_prefix _).mem ((List.rdropWhile_prefix _ _).mem inDigits)))
    · exact .inr (.inr ((List.dropWhile_sublist _).mem inExponent))

theorem normalizeFloatDecimal_idempotent (number : Text) :
    normalizeFloatDecimal (normalizeFloatDecimal number) = normalizeFloatDecimal number := by
  cases exists_point number with
  | inl clear => rw [normalizeFloatDecimal_of_clear clear, normalizeFloatDecimal_of_clear clear]
  | inr pointed =>
    obtain ⟨whole, behind, rfl, clear⟩ := pointed
    have inside : ∀ symbol ∈ trimZeros (decimalDigits behind), noExponentSymbol symbol = true := fun symbol member =>
      List.mem_takeWhile_imp ((List.rdropWhile_prefix _ _).mem member)
    have stops := stops_dropWhile noExponentSymbol behind
    have digits : decimalDigits (trimZeros (decimalDigits behind) ++ behind.dropWhile noExponentSymbol) =
        trimZeros (decimalDigits behind) := takeWhile_run inside stops
    rw [normalizeFloatDecimal_of_point clear, normalizeFloatDecimal_of_point clear, digits, dropWhile_run inside stops]
    rw [trimZeros, trimZeros, List.rdropWhile_idempotent]

/-! ## Floating literals -/

theorem floating_numeral {literal : Text} {value : ℚ} (isFloat : isFloatLiteral literal = true)
    (same : literalValue literal = some value) :
    ∃ number old, literal = number ++ old ∧ old ∈ floatSuffixes ∧ Numeral decimal .floating number value := by
  rw [isFloatLiteral, Bool.and_eq_true, Bool.not_eq_true'] at isFloat
  rw [literalValue_of_plain isFloat.1] at same
  obtain ⟨kind, number, old, rfl, isSuffix, numeral⟩ := numeral_of_read same
  cases kind with
  | floating => exact ⟨number, old, rfl, isSuffix, numeral⟩
  | integer =>
    obtain ⟨symbol, member, which⟩ := List.any_eq_true.mp isFloat.2
    have letter : symbol ∈ ['.', 'e', 'E'] := by simpa [or_assoc] using which
    cases List.mem_append.mp member with
    | inl inNumber =>
      have isMark : isDigitMark 10 symbol = true := numeral.digits decimal_regular symbol inNumber
      have noMark : ∀ symbol ∈ ['.', 'e', 'E'], isDigitMark 10 symbol = false := by decide
      exact absurd isMark (by simp [noMark symbol letter])
    | inr inSuffix =>
      have noMember := (integerSuffixSymbol_foreign (suffixSymbol_of_integerSuffix isSuffix symbol inSuffix)).2.2.2
      simp only [List.mem_cons, List.not_mem_nil, or_false] at noMember letter
      tauto

theorem floatSuffix_cases {old : Text} (known : old ∈ floatSuffixes) :
    old = [] ∨ ∃ symbol, old = [symbol] ∧ isFloatSuffixSymbol symbol = true := by
  have all : ∀ old ∈ floatSuffixes, old = [] ∨ old.length = 1 ∧ old.all isFloatSuffixSymbol = true := by decide
  cases all old known with
  | inl none => exact .inl none
  | inr one =>
    obtain ⟨symbol, rfl⟩ := List.length_eq_one_iff.mp one.1
    exact .inr ⟨symbol, rfl, by simpa using one.2⟩

theorem stripSuffix_of_end {number : Text} {symbol : Char} (isFloat : isFloatLiteral (number ++ [symbol]) = true)
    (ends : isFloatSuffixSymbol symbol = true) : stripSuffix (number ++ [symbol]) = number := by
  rw [stripSuffix, if_pos isFloat, List.getLast?_concat, if_pos (by simp [ends]), List.dropLast_concat]

theorem stripSuffix_of_numeral {number old : Text} {value : ℚ} (isFloat : isFloatLiteral (number ++ old) = true)
    (isSuffix : old ∈ floatSuffixes) (numeral : Numeral decimal .floating number value) : stripSuffix (number ++ old) = number := by
  cases floatSuffix_cases isSuffix with
  | inl none =>
    rw [none, List.append_nil] at isFloat ⊢
    obtain ⟨symbol, member, which⟩ := numeral.getLast decimal_regular
    have stays : isFloatSuffixSymbol symbol = false := by
      have foreign := decimalSymbol_foreign (numeral.symbols decimal_regular symbol (List.mem_of_getLast? member))
      simp only [List.mem_cons, not_or] at foreign
      simp [isFloatSuffixSymbol, foreign]
    rw [stripSuffix, if_pos isFloat, Option.mem_def.mp member, if_neg (by simp [stays])]
  | inr one =>
    obtain ⟨symbol, rfl, ends⟩ := one
    exact stripSuffix_of_end isFloat ends

/-! ## The values of floating literals -/

def fractionDigits (literal : Text) : Text := (behindPoint literal).takeWhile (isDigitMark 10)

theorem outside_floatTypeSuffix {suffix : Text} (known : suffix ∈ floatTypeSuffixes) : Outside decimal .floating suffix := by
  have stops : ∀ suffix ∈ floatTypeSuffixes, ∀ symbol ∈ suffix.head?,
      isDigitMark 10 symbol = false ∧ decimal.mark symbol = false := by decide
  exact ⟨fun symbol member => (stops suffix known symbol member).1, fun _ symbol member => (stops suffix known symbol member).1,
    fun _ symbol member => (stops suffix known symbol member).2, fun same => by cases same⟩

theorem noExponentSymbol_iff {symbol : Char} : noExponentSymbol symbol = !decimal.mark symbol := by
  change (!(decide (symbol = 'e') || decide (symbol = 'E'))) = !(symbol == 'e' || symbol == 'E')
  rw [Bool.beq_eq_decide_eq, Bool.beq_eq_decide_eq]

theorem digitMark_symbols {symbol : Char} (isMark : isDigitMark 10 symbol = true) :
    symbol ≠ '.' ∧ noExponentSymbol symbol = true := by
  constructor
  · rintro rfl
    exact absurd isMark (by decide)
  · rw [noExponentSymbol_iff, Bool.not_eq_true', Bool.eq_false_iff]
    intro isExponent
    exact absurd isMark (by simp [show isDigitMark 10 symbol = false from (decimal_regular.mark symbol isExponent).1])

theorem trimmed_mantissa {whole fraction : Text} (shown : whole ≠ []) (mantissa : isMantissa 10 whole fraction = true) :
    (isMantissa 10 whole (trimZeros fraction) = true ↔ (trimZeros fraction).getLast? ≠ some '\'') ∧
      mantissaValue 10 whole (trimZeros fraction) = mantissaValue 10 whole fraction := by
  have whole' : trimZeros fraction ++ fraction.rtakeWhile (· = '0') = fraction := List.rdropWhile_append_rtakeWhile ..
  have zeros : ∀ symbol ∈ fraction.rtakeWhile (· = '0'), symbol = '0' := by
    intro symbol member
    have isZero := List.mem_rtakeWhile_imp member
    exact of_decide_eq_true isZero
  rw [← whole'] at mantissa
  refine ⟨isMantissa_front shown mantissa, ?_⟩
  nth_rewrite 2 [← whole']
  exact (mantissaValue_zeros (by decide) whole _ zeros).symm

theorem clear_of_digitMarks {digits : Text} (all : ∀ symbol ∈ digits, isDigitMark 10 symbol = true) : '.' ∉ digits :=
  fun member => (digitMark_symbols (all '.' member)).1 rfl

theorem all_trimZeros {digits : Text} {p : Char → Bool} (all : ∀ symbol ∈ digits, p symbol = true) :
    ∀ symbol ∈ trimZeros digits, p symbol = true := fun symbol member => all symbol ((List.rdropWhile_prefix _ _).mem member)

theorem ite_and_eq {condition : Prop} [Decidable condition] {mantissa : Bool} (iff : mantissa = true ↔ condition)
    {suffixes : List Text} {suffix : Text} {value : ℚ} :
    (if mantissa && suffixes.contains suffix then some value else none) =
      if condition ∧ suffix ∈ suffixes then some value else none := by
  simp only [Bool.and_eq_true, iff, List.contains_iff_mem]

/-- A numeral without the zeros at the end of its fraction, with any suffix behind it. -/
theorem readNumber_normalized {number old suffix : Text} {value : ℚ} (numeral : Numeral decimal .floating number value)
    (starts : number.head? ≠ some '.') (isSuffix : old ∈ floatSuffixes) (known : suffix ∈ floatTypeSuffixes) :
    readNumber decimal (normalizeFloatDecimal number ++ suffix) =
      if (trimZeros (fractionDigits (number ++ old))).getLast? ≠ some '\'' ∧ suffix ∈ floatSuffixes then some value else none := by
  have oldStops : ∀ old ∈ floatSuffixes, ∀ symbol ∈ old, isDigitMark 10 symbol = false ∧ symbol ≠ '.' := by decide
  have outside := outside_floatTypeSuffix known
  have notEmpty : ∀ {whole behind : Text}, (whole ++ '.' :: behind).head? ≠ some '.' → whole ≠ [] := by
    rintro whole behind other rfl
    exact other rfl
  have digitStops : ∀ {exponent : Text} {value : ℤ}, Exponent decimal.mark exponent value → ∀ tail,
      Stops (isDigitMark 10) (exponent ++ tail) ∧ Stops noExponentSymbol (exponent ++ tail) := by
    intro exponent value spelled tail
    obtain ⟨mark, rest, rfl, isMark⟩ := spelled.head_mark
    exact ⟨stops_cons (decimal_regular.mark mark isMark).1, stops_cons (by rw [noExponentSymbol_iff, isMark]; rfl)⟩
  cases numeral with
  | @scientific digits exponent _ sequence spelled =>
    have clear : '.' ∉ digits ++ exponent := by
      rw [List.mem_append, not_or]
      refine ⟨clear_of_digitMarks (isDigitMark_of_sequence sequence), fun member => ?_⟩
      obtain isMark | isDigit | plus | minus := spelled.symbols '.' member
      · exact absurd isMark (by decide)
      · exact absurd isDigit (by decide)
      · exact absurd plus (by decide)
      · exact absurd minus (by decide)
    have clearOld : '.' ∉ (digits ++ exponent) ++ old := by
      rw [List.mem_append, not_or]
      exact ⟨clear, fun member => (oldStops old isSuffix '.' member).2 rfl⟩
    rw [normalizeFloatDecimal_of_clear clear, readNumber_numeral decimal_regular (.scientific sequence spelled) outside,
      fractionDigits, behindPoint_of_clear clearOld]
    simp [trimZeros, NumberKind.suffixes]
  | @pointed whole fraction exponent _ mantissa spelled =>
    obtain ⟨allWhole, allFraction⟩ := isDigitMark_of_mantissa mantissa
    have clear := clear_of_digitMarks allWhole
    have inside : ∀ symbol ∈ fraction, noExponentSymbol symbol = true := fun symbol member =>
      (digitMark_symbols (allFraction symbol member)).2
    have stops := digitStops spelled []
    rw [List.append_nil] at stops
    have digits : decimalDigits (fraction ++ exponent) = fraction := takeWhile_run inside stops.2
    have fractionRead : fractionDigits (whole ++ '.' :: (fraction ++ exponent) ++ old) = fraction := by
      rw [fractionDigits, List.append_assoc, List.cons_append, behindPoint_of_point clear, List.append_assoc]
      exact takeWhile_run allFraction (digitStops spelled old).1
    obtain ⟨kept, sameValue⟩ := trimmed_mantissa (notEmpty starts) mantissa
    rw [normalizeFloatDecimal_of_point clear, digits, dropWhile_run inside stops.2, fractionRead, List.append_assoc,
      List.cons_append, List.append_assoc,
      readNumber_pointed decimal_regular allWhole (all_trimZeros allFraction) spelled outside.decimal]
    exact (ite_and_eq kept).trans (by rw [show decimal.base = 10 from rfl, sameValue])
  | @fixed whole fraction _ mantissa =>
    obtain ⟨allWhole, allFraction⟩ := isDigitMark_of_mantissa mantissa
    have clear := clear_of_digitMarks allWhole
    have inside : ∀ symbol ∈ fraction, noExponentSymbol symbol = true := fun symbol member =>
      (digitMark_symbols (allFraction symbol member)).2
    have digits : decimalDigits fraction = fraction := List.takeWhile_eq_self_iff.mpr inside
    have rest : fraction.dropWhile noExponentSymbol = [] := List.dropWhile_eq_nil_iff.mpr inside
    have stops : Stops (isDigitMark 10) old := by
      intro symbol member
      exact (oldStops old isSuffix symbol (List.mem_of_head? member)).1
    have fractionRead : fractionDigits (whole ++ '.' :: fraction ++ old) = fraction := by
      rw [fractionDigits, List.append_assoc, List.cons_append, behindPoint_of_point clear]
      exact takeWhile_run allFraction stops
    obtain ⟨kept, sameValue⟩ := trimmed_mantissa (notEmpty starts) mantissa
    rw [normalizeFloatDecimal_of_point clear, digits, rest, List.append_nil, fractionRead, List.append_assoc, List.cons_append,
      readNumber_fixed decimal_regular allWhole (all_trimZeros allFraction) (outside.digits (.inr rfl)) (outside.mark (.inr rfl))]
    exact (ite_and_eq kept).trans (by rw [show decimal.base = 10 from rfl, sameValue])

/-! ## Rewriting floating literals -/

/-- The number without its suffix, as it is written in front of the new suffix. -/
def floatNumber (literal suffix : Text) : Text :=
  if suffix ≠ [] then normalizeFloatDecimal (stripSuffix literal) else stripSuffix literal

theorem rewriteLiteral_float {literal : Text} (isFloat : isFloatLiteral literal = true) (suffix : Text) :
    rewriteLiteral literal suffix true =
      if floatNumber literal suffix ++ suffix = literal then none else some (floatNumber literal suffix ++ suffix) := by
  rw [rewriteLiteral, isFloat, if_neg (not_not_intro rfl), floatNumber]
  simp only [Bool.true_and, decide_eq_true_eq]

theorem floatTypeSuffix_cases {suffix : Text} (known : suffix ∈ floatTypeSuffixes) :
    suffix = [] ∨ suffix = ['Q'] ∨ ∃ symbol, suffix = [symbol] ∧ isFloatSuffixSymbol symbol = true := by
  have all : ∀ suffix ∈ floatTypeSuffixes, suffix = [] ∨ suffix = ['Q'] ∨ suffix.length = 1 ∧ suffix.all isFloatSuffixSymbol = true := by
    decide
  obtain none | quad | one := all suffix known
  · exact .inl none
  · exact .inr (.inl quad)
  · obtain ⟨symbol, rfl⟩ := List.length_eq_one_iff.mp one.1
    exact .inr (.inr ⟨symbol, rfl, by simpa using one.2⟩)

theorem plausible_parts {literal : Text} (isPlausible : isPlausibleNumberLiteral literal = true) :
    literal ≠ [] ∧ literal.head? ≠ some '.' ∧ ∀ symbol ∈ literal, isPlausibleSymbol symbol = true := by
  cases literal with
  | nil => cases isPlausible
  | cons first rest =>
    rw [isPlausibleNumberLiteral, Bool.and_eq_true, List.all_eq_true] at isPlausible
    refine ⟨List.cons_ne_nil _ _, fun same => ?_, isPlausible.2⟩
    rw [List.head?_cons, Option.some.injEq] at same
    exact absurd (same ▸ isPlausible.1) (by decide)

/-- A floating literal is left alone exactly if the suffix is in place. -/
theorem float_inPlace_iff {literal suffix : Text} (isPlausible : isPlausibleNumberLiteral literal = true)
    (isFloat : isFloatLiteral literal = true) (known : suffix ∈ floatTypeSuffixes) :
    floatNumber literal suffix ++ suffix = literal ↔ SuffixInPlace literal suffix true := by
  obtain none | quad | one := floatTypeSuffix_cases known
  · subst none
    rw [floatNumber, if_neg (not_not_intro rfl), List.append_nil, SuffixInPlace, if_pos rfl, if_pos rfl, stripSuffix, if_pos isFloat]
    cases ends : literal.getLast?.any isFloatSuffixSymbol with
    | true =>
      rw [if_pos rfl]
      refine iff_of_false (fun same => ?_) (by simp)
      have shown : literal ≠ [] := by
        rintro rfl
        cases ends
      have shorter := congrArg List.length same
      rw [List.length_dropLast] at shorter
      have positive := List.length_pos_iff.mpr shown
      omega
    | false =>
      rw [if_neg Bool.false_ne_true]
      exact iff_of_true rfl rfl
  · subst quad
    have noQuad : ∀ number, literal ≠ number ++ ['Q'] := by
      rintro number rfl
      obtain ⟨_, _, all⟩ := plausible_parts isPlausible
      exact absurd (all 'Q' (List.mem_append_right _ List.mem_cons_self)) (by decide)
    rw [SuffixInPlace, if_pos rfl, if_neg (by simp)]
    refine iff_of_false (fun same => noQuad _ same.symm) ?_
    rintro ⟨number, same, _⟩
    exact noQuad number same
  · obtain ⟨symbol, rfl, ends⟩ := one
    rw [SuffixInPlace, if_pos rfl, if_neg (List.cons_ne_nil _ _), floatNumber, if_pos (List.cons_ne_nil _ _)]
    constructor
    · intro same
      exact ⟨_, same.symm, normalizeFloatDecimal_eq_self_iff.mp (normalizeFloatDecimal_idempotent _)⟩
    · rintro ⟨number, rfl, noZeros⟩
      rw [stripSuffix_of_end isFloat ends, normalizeFloatDecimal_eq_self_iff.mpr noZeros]

theorem rewriteLiteral_float_stable {literal suffix : Text} {value : ℚ} (isFloat : isFloatLiteral literal = true)
    (same : literalValue literal = some value) (known : suffix ∈ floatTypeSuffixes) (standard : suffix ≠ ['Q']) :
    rewriteLiteral (floatNumber literal suffix ++ suffix) suffix true = none := by
  cases kind : isFloatLiteral (floatNumber literal suffix ++ suffix) with
  | false => rw [rewriteLiteral, kind, if_pos Bool.false_ne_true]
  | true =>
    rw [rewriteLiteral_float kind, if_pos]
    obtain none | quad | one := floatTypeSuffix_cases known
    · subst none
      obtain ⟨number, old, rfl, isSuffix, numeral⟩ := floating_numeral isFloat same
      have number' : floatNumber (number ++ old) [] = number := stripSuffix_of_numeral isFloat isSuffix numeral
      rw [number'] at kind ⊢
      exact congrArg (· ++ []) (stripSuffix_of_numeral kind (by decide) numeral)
    · exact absurd quad standard
    · obtain ⟨symbol, rfl, ends⟩ := one
      have again : floatNumber (floatNumber literal [symbol] ++ [symbol]) [symbol] = floatNumber literal [symbol] := by
        rw [floatNumber, if_pos (List.cons_ne_nil _ _), stripSuffix_of_end kind ends, floatNumber, if_pos (List.cons_ne_nil _ _)]
        exact normalizeFloatDecimal_idempotent _
      rw [again]

/-- A decimal floating literal keeps its value exactly if the suffix fits. -/
theorem float_value_iff {literal suffix : Text} {value : ℚ} (isPlausible : isPlausibleNumberLiteral literal = true)
    (isFloat : isFloatLiteral literal = true) (same : literalValue literal = some value) (known : suffix ∈ floatTypeSuffixes) :
    literalValue (floatNumber literal suffix ++ suffix) = some value ↔ FloatSuffixFits literal suffix := by
  obtain ⟨number, old, rfl, isSuffix, numeral⟩ := floating_numeral isFloat same
  have stripped := stripSuffix_of_numeral isFloat isSuffix numeral
  have foreign : ∀ symbol ∈ number, symbol ∉ ['x', 'X', 'b', 'B'] := fun symbol member which =>
    decimalSymbol_foreign (numeral.symbols decimal_regular symbol member) (List.mem_append_left _ which)
  have shown : number ≠ [] := by
    rintro rfl
    obtain ⟨symbol, member, _⟩ := numeral.mark_or_point
    cases member
  by_cases none : suffix = []
  · subst none
    have number' : floatNumber (number ++ old) [] = number := stripped
    rw [number', List.append_nil, literalValue_of_decimal foreign]
    have read := readNumber_numeral decimal_regular numeral (outside_floatTypeSuffix known)
    rw [List.append_nil] at read
    rw [read]
    exact iff_of_true rfl ⟨by decide, fun other => absurd rfl other⟩
  · have number' : floatNumber (number ++ old) suffix = normalizeFloatDecimal number := by
      rw [floatNumber, if_pos none, stripped]
    have starts : number.head? ≠ some '.' := by
      have whole := (plausible_parts isPlausible).2.1
      rwa [List.head?_append_of_ne_nil _ shown] at whole
    have plain : ∀ symbol ∈ normalizeFloatDecimal number ++ suffix, symbol ∉ ['x', 'X', 'b', 'B'] := by
      intro symbol member
      cases List.mem_append.mp member with
      | inl inNumber => exact foreign symbol (mem_of_mem_normalizeFloatDecimal inNumber)
      | inr inSuffix =>
        have all : ∀ suffix ∈ floatTypeSuffixes, ∀ symbol ∈ suffix, symbol ∉ ['x', 'X', 'b', 'B'] := by decide
        exact all suffix known symbol inSuffix
    have standard : suffix ∈ floatSuffixes ↔ suffix ≠ ['Q'] := by
      have all : ∀ suffix ∈ floatTypeSuffixes, suffix ∈ floatSuffixes ↔ suffix ≠ ['Q'] := by decide
      exact all suffix known
    rw [number', literalValue_of_decimal plain, readNumber_normalized numeral starts isSuffix known, FloatSuffixFits]
    simp only [standard, ite_eq_left_iff, reduceCtorEq, imp_false, not_not]
    constructor
    · intro kept
      exact ⟨kept.2, fun _ => kept.1⟩
    · intro fits
      exact ⟨fits.2 none, fits.1⟩

/-! ## The rewriting as a whole -/

theorem keepsNumber_of_unchanged {literal suffix : Text} {isFloat : Bool} (same : rewriteLiteral literal suffix isFloat = none) :
    KeepsNumber literal suffix isFloat := by
  intro newLiteral rewritten
  rw [same] at rewritten
  cases rewritten

/-- Where a literal is rewritten, its value is all that can get lost. -/
theorem keepsNumber_iff_of_rewritten {literal suffix number : Text} {isFloat : Bool}
    (rewritten : rewriteLiteral literal suffix isFloat = some (number ++ suffix)) {Fits : Prop}
    (fits : ∀ value, literalValue literal = some value → (literalValue (number ++ suffix) = some value ↔ Fits))
    (stable : (literalValue literal).isSome → Fits → rewriteLiteral (number ++ suffix) suffix isFloat = none) :
    KeepsNumber literal suffix isFloat ↔ (literalValue literal).isSome ∧ Fits := by
  constructor
  · intro keeps
    obtain ⟨value, before, after⟩ := (keeps _ rewritten).value
    exact ⟨Option.isSome_iff_exists.mpr ⟨value, before⟩, (fits value before).mp after⟩
  · rintro ⟨hasValue, isFit⟩ newLiteral same
    obtain rfl := Option.some.inj (rewritten.symm.trans same)
    obtain ⟨value, before⟩ := Option.isSome_iff_exists.mp hasValue
    exact ⟨⟨value, before, (fits value before).mpr isFit⟩, List.suffix_append _ _, stable hasValue isFit⟩

theorem keepsNumber_iff {literal suffix : Text} {isFloat : Bool} (isPlausible : isPlausibleNumberLiteral literal = true)
    (resolvable : Resolvable suffix isFloat) : KeepsNumber literal suffix isFloat ↔ NumberKept literal suffix isFloat := by
  have known := mem_typeSuffixes resolvable
  by_cases kind : isFloatLiteral literal = isFloat
  · cases isFloat with
    | false =>
      have rewriting := rewriteLiteral_integer kind suffix
      by_cases inPlace : SuffixInPlace literal suffix false
      · rw [if_pos ((stripped_append_eq_iff literal suffix).mpr inPlace)] at rewriting
        exact iff_of_true (keepsNumber_of_unchanged rewriting) (.inr (.inl inPlace))
      · rw [if_neg fun same => inPlace ((stripped_append_eq_iff literal suffix).mp same)] at rewriting
        rw [keepsNumber_iff_of_rewritten rewriting (fun _ same => integer_value_iff kind same known)
          fun _ _ => rewriteLiteral_integer_stable literal known]
        simp [NumberKept, kind, inPlace]
    | true =>
      have rewriting := rewriteLiteral_float kind suffix
      by_cases inPlace : SuffixInPlace literal suffix true
      · rw [if_pos ((float_inPlace_iff isPlausible kind known).mpr inPlace)] at rewriting
        exact iff_of_true (keepsNumber_of_unchanged rewriting) (.inr (.inl inPlace))
      · rw [if_neg fun same => inPlace ((float_inPlace_iff isPlausible kind known).mp same)] at rewriting
        have stable : (literalValue literal).isSome → FloatSuffixFits literal suffix →
            rewriteLiteral (floatNumber literal suffix ++ suffix) suffix true = none := by
          intro hasValue fits
          obtain ⟨value, same⟩ := Option.isSome_iff_exists.mp hasValue
          exact rewriteLiteral_float_stable kind same known fits.1
        rw [keepsNumber_iff_of_rewritten rewriting (fun _ same => float_value_iff isPlausible kind same known) stable]
        simp [NumberKept, kind, inPlace]
  · refine iff_of_true (keepsNumber_of_unchanged ?_) (.inl kind)
    rw [rewriteLiteral, if_pos kind]

theorem keepsNumber_long : KeepsNumber "0x1.8p3l".toList ['L'] false :=
  (keepsNumber_iff (by decide) ⟨some .long, none, rfl⟩).mpr
    (.inr (.inr ⟨by decide +kernel, show IntegerSuffixFits _ _ from fun _ => .inr ⟨rfl, by decide, by decide⟩⟩))

theorem not_keepsNumber {literal suffix : Text} {isFloat : Bool} (newLiteral : Text)
    (rewritten : rewriteLiteral literal suffix isFloat = some newLiteral) (spoiled : literalValue newLiteral = none) :
    ¬KeepsNumber literal suffix isFloat := by
  intro keeps
  obtain ⟨value, _, after⟩ := (keeps newLiteral rewritten).value
  rw [spoiled] at after
  cases after

/-- A hexadecimal floating literal gets a suffix of integers, a separator is left in front of the suffix, and one suffix is not of
the language; with that suffix the second rewriting also goes on. -/
theorem rewrittenLiterals_spoiled :
    (isPlausibleNumberLiteral "0x1.8p3".toList ∧ Resolvable ['U'] false ∧ ¬KeepsNumber "0x1.8p3".toList ['U'] false) ∧
      (isPlausibleNumberLiteral "1.5'0".toList ∧ Resolvable ['f'] true ∧ ¬KeepsNumber "1.5'0".toList ['f'] true) ∧
      (isPlausibleNumberLiteral "1.0".toList ∧ Resolvable ['Q'] true ∧ ¬KeepsNumber "1.0".toList ['Q'] true ∧
        rewriteLiteral "1.Q".toList ['Q'] true = some "1.QQ".toList) := by
  refine ⟨⟨by decide, ⟨some .uInt, none, rfl⟩, ?_⟩, ⟨by decide, ⟨some .float, none, rfl⟩, ?_⟩, by decide,
    ⟨some .float128, none, rfl⟩, ?_, by decide⟩
  · exact not_keepsNumber "0x1.8p3U".toList (by decide) (by decide +kernel)
  · exact not_keepsNumber "1.5'f".toList (by decide) (by decide +kernel)
  · exact not_keepsNumber "1.Q".toList (by decide) (by decide +kernel)

end MjFormatter.Verified
