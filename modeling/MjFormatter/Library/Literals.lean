import Mathlib.Algebra.Order.Field.Rat
import Mathlib.Data.List.DropRight
import Mathlib.Data.List.TakeWhile
import Mathlib.Data.Nat.Digits.Defs

/-! # Numbers as C++ spells them

Integer and floating literals of C++20: decimal, octal, hexadecimal and binary digits with separators between them, points,
exponents and suffixes.  `literalValue` reads a spelling from the left; `Numeral` says what stands in front of a suffix. -/

namespace MjFormatter.Library.Literals

/-! ## Digits -/

def digitValue (symbol : Char) : Option ℕ :=
  let code := symbol.toNat
  if 48 ≤ code ∧ code ≤ 57 then some (code - 48)
  else if 97 ≤ code ∧ code ≤ 102 then some (code - 87)
  else if 65 ≤ code ∧ code ≤ 70 then some (code - 55)
  else none

def isDigitOf (base : ℕ) (symbol : Char) : Bool := (digitValue symbol).any (· < base)

/-- A digit or the separator of digits. -/
def isDigitMark (base : ℕ) (symbol : Char) : Bool := symbol == '\'' || isDigitOf base symbol

/-- Digits, with at most one separator between two of them. -/
def isDigitSequence (base : ℕ) : List Char → Bool
  | [] => false
  | [digit] => isDigitOf base digit
  | digit :: '\'' :: rest => isDigitOf base digit && isDigitSequence base rest
  | digit :: next :: rest => isDigitOf base digit && isDigitSequence base (next :: rest)

def digitsOf (digits : List Char) : List ℕ := digits.filterMap digitValue

def naturalValue (base : ℕ) (digits : List Char) : ℕ := Nat.ofDigits base (digitsOf digits).reverse

/-! ## Numbers -/

/-- The digits, the scale of the exponent and its mark; the exponent may be left out behind a point; the base of integers is
seen from their digits. -/
structure NumberSystem where
  base : ℕ
  scale : ℕ
  mark : Char → Bool
  exponentOptional : Bool
  integerBase : List Char → ℕ

def decimal : NumberSystem where
  base := 10
  scale := 10
  mark := fun symbol => symbol == 'e' || symbol == 'E'
  exponentOptional := true
  integerBase := fun digits => if digits.head? = some '0' then 8 else 10

def hexadecimal : NumberSystem where
  base := 16
  scale := 2
  mark := fun symbol => symbol == 'p' || symbol == 'P'
  exponentOptional := false
  integerBase := fun _ => 16

def integerSuffixes : List (List Char) :=
  ["", "u", "U", "l", "L", "ll", "LL", "ul", "uL", "Ul", "UL", "ull", "uLL", "Ull", "ULL", "lu", "lU", "Lu", "LU", "llu", "llU",
    "LLu", "LLU"].map String.toList

def floatSuffixes : List (List Char) := ["", "f", "F", "l", "L"].map String.toList

def isMantissa (base : ℕ) (whole fraction : List Char) : Bool :=
  (whole.isEmpty || isDigitSequence base whole) && (fraction.isEmpty || isDigitSequence base fraction) &&
    !(whole.isEmpty && fraction.isEmpty)

def mantissaValue (base : ℕ) (whole fraction : List Char) : ℚ :=
  naturalValue base (whole ++ fraction) / (base : ℚ) ^ (digitsOf fraction).length

/-- The sign of an exponent, and what stands behind it. -/
def readSign : List Char → ℤ × List Char
  | '-' :: rest => (-1, rest)
  | '+' :: rest => (1, rest)
  | rest => (1, rest)

def readExponent (isMark : Char → Bool) : List Char → Option (ℤ × List Char)
  | [] => none
  | mark :: rest =>
    let (sign, rest) := readSign rest
    let digits := rest.takeWhile (isDigitMark 10)
    if isMark mark && isDigitSequence 10 digits then
      some (sign * naturalValue 10 digits, rest.dropWhile (isDigitMark 10))
    else none

def readInteger (base : ℕ) (digits suffix : List Char) : Option ℚ :=
  if isDigitSequence base digits && integerSuffixes.contains suffix then some (naturalValue base digits) else none

def NumberSystem.scaled (system : NumberSystem) (mantissa : ℚ) (exponent : ℤ) : ℚ := mantissa * (system.scale : ℚ) ^ exponent

def readNumber (system : NumberSystem) (text : List Char) : Option ℚ :=
  let whole := text.takeWhile (isDigitMark system.base)
  match text.dropWhile (isDigitMark system.base) with
  | '.' :: rest =>
    let fraction := rest.takeWhile (isDigitMark system.base)
    let behind := rest.dropWhile (isDigitMark system.base)
    if isMantissa system.base whole fraction then
      match readExponent system.mark behind with
      | some (exponent, suffix) =>
        if floatSuffixes.contains suffix then some (system.scaled (mantissaValue system.base whole fraction) exponent) else none
      | none =>
        if system.exponentOptional && floatSuffixes.contains behind then some (mantissaValue system.base whole fraction) else none
    else none
  | behind =>
    match readExponent system.mark behind with
    | some (exponent, suffix) =>
      if isDigitSequence system.base whole && floatSuffixes.contains suffix then
        some (system.scaled (naturalValue system.base whole) exponent)
      else none
    | none => readInteger (system.integerBase whole) whole behind

def readBinary (text : List Char) : Option ℚ :=
  readInteger 2 (text.takeWhile (isDigitMark 2)) (text.dropWhile (isDigitMark 2))

/-- The value of a literal; other texts have none. -/
def literalValue (text : List Char) : Option ℚ :=
  match text with
  | '0' :: letter :: rest =>
    if letter = 'x' ∨ letter = 'X' then readNumber hexadecimal rest
    else if letter = 'b' ∨ letter = 'B' then readBinary rest
    else readNumber decimal text
  | _ => readNumber decimal text

example : literalValue "0x1'F.8p-1f".toList = some (63 / 4) := by
  decide +kernel

example : (literalValue "1'.5".toList, literalValue "08".toList, literalValue "08.".toList) = (none, none, some 8) := by
  decide +kernel

/-! ## Runs of symbols -/

/-- The symbol that a text begins with, if there is one, is none of the run. -/
def Stops (p : Char → Bool) (tail : List Char) : Prop := ∀ symbol ∈ tail.head?, p symbol = false

theorem stops_nil (p : Char → Bool) : Stops p [] := fun _ member => absurd member (by simp)

theorem stops_cons {p : Char → Bool} {symbol : Char} {tail : List Char} (other : p symbol = false) : Stops p (symbol :: tail) := by
  intro first member
  rw [List.head?_cons, Option.mem_some_iff] at member
  rwa [← member]

theorem Stops.append {p : Char → Bool} {front back : List Char} (first : Stops p front) (second : Stops p back) :
    Stops p (front ++ back) := by
  cases front with
  | nil => exact second
  | cons symbol front => exact stops_cons (first symbol rfl)

theorem takeWhile_run {p : Char → Bool} {run tail : List Char} (all : ∀ symbol ∈ run, p symbol = true) (stops : Stops p tail) :
    (run ++ tail).takeWhile p = run := by
  rw [List.takeWhile_append_of_pos all]
  cases tail with
  | nil => exact List.append_nil run
  | cons symbol tail => rw [List.takeWhile_cons_of_neg (by simp [stops symbol rfl]), List.append_nil]

theorem dropWhile_run {p : Char → Bool} {run tail : List Char} (all : ∀ symbol ∈ run, p symbol = true) (stops : Stops p tail) :
    (run ++ tail).dropWhile p = tail := by
  rw [List.dropWhile_append_of_pos all]
  cases tail with
  | nil => rfl
  | cons symbol tail => rw [List.dropWhile_cons_of_neg (by simp [stops symbol rfl])]

theorem stops_dropWhile (p : Char → Bool) (text : List Char) : Stops p (text.dropWhile p) := by
  induction text with
  | nil => exact stops_nil p
  | cons symbol text inductionHypothesis =>
    rw [List.dropWhile_cons]
    split
    · exact inductionHypothesis
    · next other => exact stops_cons (Bool.eq_false_iff.mpr other)

/-! ## Digit sequences -/

theorem isDigitSequence_cons_separator (base : ℕ) (digit : Char) (rest : List Char) :
    isDigitSequence base (digit :: '\'' :: rest) = (isDigitOf base digit && isDigitSequence base rest) := by
  rw [isDigitSequence]

theorem isDigitSequence_cons_digit (base : ℕ) {digit next : Char} (other : next ≠ '\'') (rest : List Char) :
    isDigitSequence base (digit :: next :: rest) = (isDigitOf base digit && isDigitSequence base (next :: rest)) := by
  rw [isDigitSequence]
  simpa using other

theorem isDigitSequence_head {base : ℕ} {digit : Char} {rest : List Char}
    (sequence : isDigitSequence base (digit :: rest) = true) : isDigitOf base digit = true := by
  cases rest with
  | nil => exact sequence
  | cons next rest =>
    by_cases separator : next = '\''
    · rw [separator, isDigitSequence_cons_separator, Bool.and_eq_true] at sequence
      exact sequence.1
    · rw [isDigitSequence_cons_digit base separator, Bool.and_eq_true] at sequence
      exact sequence.1

theorem isDigitMark_of_sequence {base : ℕ} {digits : List Char} (sequence : isDigitSequence base digits = true) :
    ∀ symbol ∈ digits, isDigitMark base symbol = true := by
  fun_induction isDigitSequence base digits with
  | case1 => cases sequence
  | case2 digit =>
    intro symbol member
    rw [List.mem_singleton.mp member, isDigitMark, sequence, Bool.or_true]
  | case3 digit rest inductionHypothesis =>
    rw [Bool.and_eq_true] at sequence
    intro symbol member
    rw [List.mem_cons, List.mem_cons] at member
    cases member with
    | inl first => rw [first, isDigitMark, sequence.1, Bool.or_true]
    | inr later =>
      cases later with
      | inl separator => rw [separator]; rfl
      | inr member => exact inductionHypothesis sequence.2 symbol member
  | case4 digit next rest _ inductionHypothesis =>
    rw [Bool.and_eq_true] at sequence
    intro symbol member
    rw [List.mem_cons] at member
    cases member with
    | inl first => rw [first, isDigitMark, sequence.1, Bool.or_true]
    | inr member => exact inductionHypothesis sequence.2 symbol member

/-- The last symbol of a digit sequence is a digit. -/
theorem isDigitOf_getLast {base : ℕ} {digits : List Char} (sequence : isDigitSequence base digits = true) :
    ∃ last ∈ digits.getLast?, isDigitOf base last = true := by
  fun_induction isDigitSequence base digits with
  | case1 => cases sequence
  | case2 digit => exact ⟨digit, rfl, sequence⟩
  | case3 digit rest inductionHypothesis =>
    rw [Bool.and_eq_true] at sequence
    obtain ⟨last, member, isDigit⟩ := inductionHypothesis sequence.2
    refine ⟨last, ?_, isDigit⟩
    rw [List.getLast?_cons, List.getLast?_cons, Option.mem_def.mp member]
    rfl
  | case4 digit next rest _ inductionHypothesis =>
    rw [Bool.and_eq_true] at sequence
    obtain ⟨last, member, isDigit⟩ := inductionHypothesis sequence.2
    refine ⟨last, ?_, isDigit⟩
    rw [List.getLast?_cons, Option.mem_def.mp member]
    rfl

/-- The front of a digit sequence is one as well, unless it ends in a separator. -/
theorem isDigitSequence_front {base : ℕ} {front back : List Char} (sequence : isDigitSequence base (front ++ back) = true)
    (shown : front ≠ []) : isDigitSequence base front = true ↔ front.getLast? ≠ some '\'' := by
  fun_induction isDigitSequence base front with
  | case1 => exact absurd rfl shown
  | case2 digit =>
    have isDigit := isDigitSequence_head sequence
    refine iff_of_true isDigit fun same => ?_
    rw [List.getLast?_singleton, Option.some.injEq] at same
    exact absurd (same ▸ isDigit) (by simp [isDigitOf, digitValue])
  | case3 digit rest inductionHypothesis =>
    rw [List.cons_append, List.cons_append, isDigitSequence_cons_separator, Bool.and_eq_true] at sequence
    rw [sequence.1, Bool.true_and]
    by_cases ended : rest = []
    · rw [ended]
      exact iff_of_false Bool.false_ne_true (not_not_intro rfl)
    · rw [inductionHypothesis sequence.2 ended, List.getLast?_cons_cons, List.getLast?_cons_of_ne_nil ended]
  | case4 digit next rest other inductionHypothesis =>
    have noSeparator : next ≠ '\'' := fun same => other same
    rw [List.cons_append, List.cons_append, isDigitSequence_cons_digit base noSeparator, Bool.and_eq_true] at sequence
    rw [sequence.1, Bool.true_and, inductionHypothesis sequence.2 (List.cons_ne_nil _ _), List.getLast?_cons_cons]

/-! ## Exponents -/

inductive Exponent (isMark : Char → Bool) : List Char → ℤ → Prop
  | unsigned {mark : Char} {digits : List Char} : isMark mark = true → isDigitSequence 10 digits = true →
      Exponent isMark (mark :: digits) (1 * naturalValue 10 digits)
  | plus {mark : Char} {digits : List Char} : isMark mark = true → isDigitSequence 10 digits = true →
      Exponent isMark (mark :: '+' :: digits) (1 * naturalValue 10 digits)
  | minus {mark : Char} {digits : List Char} : isMark mark = true → isDigitSequence 10 digits = true →
      Exponent isMark (mark :: '-' :: digits) (-1 * naturalValue 10 digits)

theorem readSign_of_sequence {digits : List Char} (sequence : isDigitSequence 10 digits = true) (tail : List Char) :
    readSign (digits ++ tail) = (1, digits ++ tail) := by
  cases digits with
  | nil => cases sequence
  | cons digit rest =>
    have isDigit := isDigitSequence_head sequence
    rw [List.cons_append, readSign]
    · intro rest' same
      rw [List.cons.injEq] at same
      exact absurd (same.1 ▸ isDigit) (by decide)
    · intro rest' same
      rw [List.cons.injEq] at same
      exact absurd (same.1 ▸ isDigit) (by decide)

theorem readExponent_eq {isMark : Char → Bool} {exponent : List Char} {value : ℤ} (spelled : Exponent isMark exponent value)
    {tail : List Char} (stops : Stops (isDigitMark 10) tail) :
    readExponent isMark (exponent ++ tail) = some (value, tail) := by
  have digitsRead : ∀ {digits : List Char}, isDigitSequence 10 digits = true →
      (digits ++ tail).takeWhile (isDigitMark 10) = digits ∧ (digits ++ tail).dropWhile (isDigitMark 10) = tail :=
    fun sequence => ⟨takeWhile_run (isDigitMark_of_sequence sequence) stops, dropWhile_run (isDigitMark_of_sequence sequence) stops⟩
  cases spelled with
  | unsigned isExponent sequence =>
    rw [List.cons_append, readExponent, readSign_of_sequence sequence]
    simp only [digitsRead sequence, isExponent, sequence, Bool.and_true, if_true]
  | plus isExponent sequence =>
    rw [List.cons_append, List.cons_append, readExponent, readSign]
    simp only [digitsRead sequence, isExponent, sequence, Bool.and_true, if_true]
  | minus isExponent sequence =>
    rw [List.cons_append, List.cons_append, readExponent, readSign]
    simp only [digitsRead sequence, isExponent, sequence, Bool.and_true, if_true]

theorem readExponent_of_stops {isMark : Char → Bool} {tail : List Char} (stops : Stops isMark tail) :
    readExponent isMark tail = none := by
  cases tail with
  | nil => rfl
  | cons symbol tail =>
    rw [readExponent, stops symbol rfl]
    rfl

theorem readSign_cases (text : List Char) : (∃ rest, text = '-' :: rest ∧ readSign text = (-1, rest)) ∨
    (∃ rest, text = '+' :: rest ∧ readSign text = (1, rest)) ∨ readSign text = (1, text) := by
  unfold readSign
  split
  · next rest => exact .inl ⟨rest, rfl, rfl⟩
  · next rest => exact .inr (.inl ⟨rest, rfl, rfl⟩)
  · exact .inr (.inr rfl)

/-- What has been read is an exponent, and no digit follows it. -/
theorem exponent_of_read {isMark : Char → Bool} {text tail : List Char} {value : ℤ}
    (read : readExponent isMark text = some (value, tail)) :
    ∃ exponent, text = exponent ++ tail ∧ Exponent isMark exponent value ∧ Stops (isDigitMark 10) tail := by
  cases text with
  | nil => cases read
  | cons mark rest =>
    have accept : ∀ {sign : ℤ} {signed : List Char}, readSign rest = (sign, signed) →
        isMark mark = true ∧ isDigitSequence 10 (signed.takeWhile (isDigitMark 10)) = true ∧
          sign * naturalValue 10 (signed.takeWhile (isDigitMark 10)) = value ∧ signed.dropWhile (isDigitMark 10) = tail := by
      intro sign signed same
      rw [readExponent, same] at read
      dsimp only at read
      split at read
      · next accepted =>
        rw [Bool.and_eq_true] at accepted
        rw [Option.some.injEq, Prod.mk.injEq] at read
        exact ⟨accepted.1, accepted.2, read.1, read.2⟩
      · cases read
    have whole : ∀ signed : List Char, signed = signed.takeWhile (isDigitMark 10) ++ signed.dropWhile (isDigitMark 10) :=
      fun _ => List.takeWhile_append_dropWhile.symm
    cases readSign_cases rest with
    | inl negative =>
      obtain ⟨signed, rfl, same⟩ := negative
      obtain ⟨isExponent, sequence, rfl, rfl⟩ := accept same
      exact ⟨mark :: '-' :: signed.takeWhile (isDigitMark 10), congrArg (mark :: '-' :: ·) (whole signed),
        .minus isExponent sequence, stops_dropWhile _ _⟩
    | inr other =>
      cases other with
      | inl positive =>
        obtain ⟨signed, rfl, same⟩ := positive
        obtain ⟨isExponent, sequence, rfl, rfl⟩ := accept same
        exact ⟨mark :: '+' :: signed.takeWhile (isDigitMark 10), congrArg (mark :: '+' :: ·) (whole signed),
          .plus isExponent sequence, stops_dropWhile _ _⟩
      | inr same =>
        obtain ⟨isExponent, sequence, rfl, rfl⟩ := accept same
        exact ⟨mark :: rest.takeWhile (isDigitMark 10), congrArg (mark :: ·) (whole rest),
          .unsigned isExponent sequence, stops_dropWhile _ _⟩

theorem Exponent.head_mark {isMark : Char → Bool} {exponent : List Char} {value : ℤ} (spelled : Exponent isMark exponent value) :
    ∃ mark rest, exponent = mark :: rest ∧ isMark mark = true := by
  cases spelled with
  | unsigned isExponent _ => exact ⟨_, _, rfl, isExponent⟩
  | plus isExponent _ => exact ⟨_, _, rfl, isExponent⟩
  | minus isExponent _ => exact ⟨_, _, rfl, isExponent⟩

/-! ## Reading a number -/

/-- The marks of a system are told apart by their first symbols. -/
structure NumberSystem.Regular (system : NumberSystem) : Prop where
  decimalDigits : 10 ≤ system.base
  integerBase_le : ∀ digits, system.integerBase digits ≤ system.base
  point : isDigitMark system.base '.' = false
  mark : ∀ symbol, system.mark symbol = true → isDigitMark system.base symbol = false ∧ symbol ≠ '.'

theorem decimal_regular : decimal.Regular where
  decimalDigits := le_rfl
  integerBase_le := by
    intro digits
    change (if digits.head? = some '0' then 8 else 10) ≤ 10
    split <;> omega
  point := by decide
  mark := by
    intro symbol isExponent
    have which : symbol = 'e' ∨ symbol = 'E' := by simpa [decimal] using isExponent
    cases which with
    | inl lower => rw [lower]; decide
    | inr upper => rw [upper]; decide

theorem hexadecimal_regular : hexadecimal.Regular where
  decimalDigits := by decide
  integerBase_le := fun _ => le_rfl
  point := by decide
  mark := by
    intro symbol isExponent
    have which : symbol = 'p' ∨ symbol = 'P' := by simpa [hexadecimal] using isExponent
    cases which with
    | inl lower => rw [lower]; decide
    | inr upper => rw [upper]; decide

section
variable {system : NumberSystem} (regular : system.Regular) {whole fraction exponent tail : List Char} {value : ℤ}

include regular

theorem Exponent.stops (spelled : Exponent system.mark exponent value) : Stops (isDigitMark system.base) (exponent ++ tail) := by
  obtain ⟨mark, rest, rfl, isExponent⟩ := spelled.head_mark
  exact stops_cons (regular.mark mark isExponent).1

variable (allWhole : ∀ symbol ∈ whole, isDigitMark system.base symbol = true)

include allWhole

theorem readNumber_scientific (spelled : Exponent system.mark exponent value) (stops : Stops (isDigitMark 10) tail) :
    readNumber system (whole ++ (exponent ++ tail)) =
      if isDigitSequence system.base whole && floatSuffixes.contains tail then
        some (system.scaled (naturalValue system.base whole) value)
      else none := by
  have exponentStops : Stops (isDigitMark system.base) (exponent ++ tail) := spelled.stops regular
  have read := readExponent_eq spelled stops
  obtain ⟨mark, rest, rfl, isExponent⟩ := spelled.head_mark
  have notPoint := (regular.mark mark isExponent).2
  rw [readNumber, takeWhile_run allWhole exponentStops, dropWhile_run allWhole exponentStops]
  split
  · next rest' same =>
    rw [List.cons_append, List.cons.injEq] at same
    exact absurd same.1 notPoint
  · rw [read]

omit regular in
theorem readNumber_integer (stops : Stops (isDigitMark system.base) tail) (noMark : Stops system.mark tail)
    (noPoint : tail.head? ≠ some '.') :
    readNumber system (whole ++ tail) = readInteger (system.integerBase whole) whole tail := by
  rw [readNumber, takeWhile_run allWhole stops, dropWhile_run allWhole stops]
  split
  · next rest => exact absurd rfl noPoint
  · rw [readExponent_of_stops noMark]

variable (allFraction : ∀ symbol ∈ fraction, isDigitMark system.base symbol = true)

include allFraction

theorem readNumber_pointed (spelled : Exponent system.mark exponent value) (stops : Stops (isDigitMark 10) tail) :
    readNumber system (whole ++ '.' :: (fraction ++ (exponent ++ tail))) =
      if isMantissa system.base whole fraction && floatSuffixes.contains tail then
        some (system.scaled (mantissaValue system.base whole fraction) value)
      else none := by
  have exponentStops : Stops (isDigitMark system.base) (exponent ++ tail) := spelled.stops regular
  rw [readNumber, takeWhile_run allWhole (stops_cons regular.point), dropWhile_run allWhole (stops_cons regular.point)]
  split
  · next rest same =>
    rw [← (List.cons.inj same).2, takeWhile_run allFraction exponentStops, dropWhile_run allFraction exponentStops]
    dsimp only
    rw [readExponent_eq spelled stops]
    cases isMantissa system.base whole fraction <;> rfl
  · next noPoint => exact absurd rfl (noPoint _)

theorem readNumber_fixed (stops : Stops (isDigitMark system.base) tail) (noMark : Stops system.mark tail) :
    readNumber system (whole ++ '.' :: (fraction ++ tail)) =
      if isMantissa system.base whole fraction && (system.exponentOptional && floatSuffixes.contains tail) then
        some (mantissaValue system.base whole fraction)
      else none := by
  rw [readNumber, takeWhile_run allWhole (stops_cons regular.point), dropWhile_run allWhole (stops_cons regular.point)]
  split
  · next rest same =>
    rw [← (List.cons.inj same).2, takeWhile_run allFraction stops, dropWhile_run allFraction stops]
    dsimp only
    rw [readExponent_of_stops noMark]
    cases isMantissa system.base whole fraction <;> rfl
  · next noPoint => exact absurd rfl (noPoint _)

end

/-! ## Numerals -/

inductive NumberKind
  | integer
  | floating

def NumberKind.suffixes : NumberKind → List (List Char)
  | .integer => integerSuffixes
  | .floating => floatSuffixes

/-- What stands in front of a suffix, with the value. -/
inductive Numeral (system : NumberSystem) : NumberKind → List Char → ℚ → Prop
  | integer {digits : List Char} : isDigitSequence (system.integerBase digits) digits = true →
      Numeral system .integer digits (naturalValue (system.integerBase digits) digits)
  | scientific {digits exponent : List Char} {value : ℤ} : isDigitSequence system.base digits = true →
      Exponent system.mark exponent value →
      Numeral system .floating (digits ++ exponent) (system.scaled (naturalValue system.base digits) value)
  | pointed {whole fraction exponent : List Char} {value : ℤ} : isMantissa system.base whole fraction = true →
      Exponent system.mark exponent value →
      Numeral system .floating (whole ++ '.' :: (fraction ++ exponent))
        (system.scaled (mantissaValue system.base whole fraction) value)
  | fixed {whole fraction : List Char} : system.exponentOptional = true → isMantissa system.base whole fraction = true →
      Numeral system .floating (whole ++ '.' :: fraction) (mantissaValue system.base whole fraction)

/-- A text that no number of the kind goes on with. -/
structure Outside (system : NumberSystem) (kind : NumberKind) (tail : List Char) : Prop where
  decimal : Stops (isDigitMark 10) tail
  digits : kind = .integer ∨ system.exponentOptional = true → Stops (isDigitMark system.base) tail
  mark : kind = .integer ∨ system.exponentOptional = true → Stops system.mark tail
  point : kind = .integer → tail.head? ≠ some '.'

theorem isDigitMark_mono {base larger : ℕ} (le : base ≤ larger) {symbol : Char} (isMark : isDigitMark base symbol = true) :
    isDigitMark larger symbol = true := by
  rw [isDigitMark, Bool.or_eq_true, isDigitOf, Option.any_eq_true] at isMark ⊢
  cases isMark with
  | inl separator => exact .inl separator
  | inr isDigit =>
    obtain ⟨digit, same, small⟩ := isDigit
    exact .inr ⟨digit, same, decide_eq_true ((of_decide_eq_true small).trans_le le)⟩

theorem isDigitMark_of_mantissa {base : ℕ} {whole fraction : List Char} (mantissa : isMantissa base whole fraction = true) :
    (∀ symbol ∈ whole, isDigitMark base symbol = true) ∧ ∀ symbol ∈ fraction, isDigitMark base symbol = true := by
  rw [isMantissa, Bool.and_eq_true, Bool.and_eq_true] at mantissa
  have part : ∀ {digits : List Char}, (digits.isEmpty || isDigitSequence base digits) = true →
      ∀ symbol ∈ digits, isDigitMark base symbol = true := by
    intro digits either
    rw [Bool.or_eq_true] at either
    cases either with
    | inl none =>
      rw [List.isEmpty_iff.mp none]
      exact fun _ member => absurd member List.not_mem_nil
    | inr sequence => exact isDigitMark_of_sequence sequence
  exact ⟨part mantissa.1.1, part mantissa.1.2⟩

/-- A numeral with any text behind it is read as a number exactly if the text is one of its suffixes. -/
theorem readNumber_numeral {system : NumberSystem} (regular : system.Regular) {kind : NumberKind} {number : List Char}
    {value : ℚ} (numeral : Numeral system kind number value) {tail : List Char} (outside : Outside system kind tail) :
    readNumber system (number ++ tail) = if kind.suffixes.contains tail then some value else none := by
  cases numeral with
  | integer sequence =>
    have all : ∀ symbol ∈ number, isDigitMark system.base symbol = true := fun symbol member =>
      isDigitMark_mono (regular.integerBase_le number) (isDigitMark_of_sequence sequence symbol member)
    rw [readNumber_integer all (outside.digits (.inl rfl)) (outside.mark (.inl rfl)) (outside.point rfl), readInteger, sequence,
      Bool.true_and, NumberKind.suffixes]
  | scientific sequence spelled =>
    rw [List.append_assoc, readNumber_scientific regular (isDigitMark_of_sequence sequence) spelled outside.decimal, sequence,
      Bool.true_and, NumberKind.suffixes]
  | pointed mantissa spelled =>
    obtain ⟨allWhole, allFraction⟩ := isDigitMark_of_mantissa mantissa
    rw [List.append_assoc, List.cons_append, List.append_assoc,
      readNumber_pointed regular allWhole allFraction spelled outside.decimal, mantissa, Bool.true_and, NumberKind.suffixes]
  | fixed optional mantissa =>
    obtain ⟨allWhole, allFraction⟩ := isDigitMark_of_mantissa mantissa
    rw [List.append_assoc, List.cons_append,
      readNumber_fixed regular allWhole allFraction (outside.digits (.inr optional)) (outside.mark (.inr optional)), mantissa,
      optional, Bool.true_and, Bool.true_and, NumberKind.suffixes]

theorem readInteger_eq_some {base : ℕ} {digits suffix : List Char} {value : ℚ}
    (read : readInteger base digits suffix = some value) :
    isDigitSequence base digits = true ∧ suffix ∈ integerSuffixes ∧ value = naturalValue base digits := by
  rw [readInteger] at read
  split at read
  · next accepted =>
    rw [Bool.and_eq_true, List.contains_iff_mem] at accepted
    exact ⟨accepted.1, accepted.2, (Option.some.inj read).symm⟩
  · cases read

/-- Every number that can be read is a numeral with a suffix. -/
theorem numeral_of_read {system : NumberSystem} {text : List Char} {value : ℚ} (read : readNumber system text = some value) :
    ∃ kind number suffix, text = number ++ suffix ∧ suffix ∈ kind.suffixes ∧ Numeral system kind number value := by
  have whole : text = text.takeWhile (isDigitMark system.base) ++ text.dropWhile (isDigitMark system.base) :=
    List.takeWhile_append_dropWhile.symm
  rw [readNumber] at read
  dsimp only at read
  split at read
  · next rest same =>
    rw [same] at whole
    have inner : rest = rest.takeWhile (isDigitMark system.base) ++ rest.dropWhile (isDigitMark system.base) :=
      List.takeWhile_append_dropWhile.symm
    split at read
    · next mantissa =>
      split at read
      · next exponentValue suffix readExp =>
        obtain ⟨exponent, split, spelled, _⟩ := exponent_of_read readExp
        split at read
        · next isSuffix =>
          obtain rfl := Option.some.inj read
          rw [split] at inner
          refine ⟨.floating, _, suffix, ?_, List.contains_iff_mem.mp isSuffix, Numeral.pointed mantissa spelled⟩
          rw [List.append_assoc, List.cons_append, List.append_assoc, ← inner]
          exact whole
        · cases read
      · split at read
        · next accepted =>
          rw [Bool.and_eq_true] at accepted
          obtain rfl := Option.some.inj read
          refine ⟨.floating, _, _, ?_, List.contains_iff_mem.mp accepted.2, Numeral.fixed accepted.1 mantissa⟩
          rw [List.append_assoc, List.cons_append, ← inner]
          exact whole
        · cases read
    · cases read
  · split at read
    · next exponentValue suffix readExp =>
      obtain ⟨exponent, split, spelled, _⟩ := exponent_of_read readExp
      split at read
      · next accepted =>
        rw [Bool.and_eq_true] at accepted
        obtain rfl := Option.some.inj read
        rw [split] at whole
        refine ⟨.floating, _, suffix, ?_, List.contains_iff_mem.mp accepted.2, Numeral.scientific accepted.1 spelled⟩
        rw [List.append_assoc]
        exact whole
      · cases read
    · obtain ⟨sequence, isSuffix, rfl⟩ := readInteger_eq_some read
      exact ⟨.integer, _, _, whole, isSuffix, .integer sequence⟩

/-! ## The prefixes of literals -/

theorem literalValue_hexadecimal {letter : Char} (which : letter = 'x' ∨ letter = 'X') (rest : List Char) :
    literalValue ('0' :: letter :: rest) = readNumber hexadecimal rest := by
  rw [literalValue, if_pos which]

theorem literalValue_binary {letter : Char} (which : letter = 'b' ∨ letter = 'B') (rest : List Char) :
    literalValue ('0' :: letter :: rest) = readBinary rest := by
  have other : ¬(letter = 'x' ∨ letter = 'X') := by
    rintro same
    cases which with
    | inl lower => rw [lower] at same; revert same; decide
    | inr upper => rw [upper] at same; revert same; decide
  rw [literalValue, if_neg other, if_pos which]

theorem literalValue_decimal {text : List Char}
    (plain : ∀ letter rest, text = '0' :: letter :: rest → letter ∉ ['x', 'X', 'b', 'B']) :
    literalValue text = readNumber decimal text := by
  unfold literalValue
  split
  · next letter rest =>
    have other := plain letter rest rfl
    simp only [List.mem_cons, List.not_mem_nil, or_false, not_or] at other
    rw [if_neg (by simp [other]), if_neg (by simp [other])]
  · rfl

/-! ## Zeros at the end of a fraction -/

theorem digitsOf_append (front back : List Char) : digitsOf (front ++ back) = digitsOf front ++ digitsOf back :=
  List.filterMap_append

theorem digitsOf_zeros {zeros : List Char} (all : ∀ symbol ∈ zeros, symbol = '0') :
    digitsOf zeros = List.replicate zeros.length 0 := by
  rw [List.eq_replicate_of_mem all]
  simp [digitsOf, digitValue]

theorem naturalValue_zeros (base : ℕ) (digits : List Char) {zeros : List Char} (all : ∀ symbol ∈ zeros, symbol = '0') :
    naturalValue base (digits ++ zeros) = base ^ zeros.length * naturalValue base digits := by
  rw [naturalValue, digitsOf_append, List.reverse_append, digitsOf_zeros all, List.reverse_replicate, Nat.ofDigits_append,
    Nat.ofDigits_replicate_zero, List.length_replicate, Nat.zero_add, naturalValue]

theorem mantissaValue_zeros {base : ℕ} (positive : 0 < base) (whole fraction : List Char) {zeros : List Char}
    (all : ∀ symbol ∈ zeros, symbol = '0') : mantissaValue base whole (fraction ++ zeros) = mantissaValue base whole fraction := by
  have nonzero : (base : ℚ) ^ zeros.length ≠ 0 := pow_ne_zero _ (by exact_mod_cast positive.ne')
  rw [mantissaValue, ← List.append_assoc, naturalValue_zeros base _ all, digitsOf_append, digitsOf_zeros all,
    List.length_append, List.length_replicate, pow_add, Nat.cast_mul, Nat.cast_pow, mul_comm, mul_div_mul_right _ _ nonzero,
    mantissaValue]

/-- Behind digits, a shorter fraction is as good as the whole one unless it ends in a separator. -/
theorem isMantissa_front {base : ℕ} {whole front back : List Char} (shown : whole ≠ [])
    (mantissa : isMantissa base whole (front ++ back) = true) :
    isMantissa base whole front = true ↔ front.getLast? ≠ some '\'' := by
  rw [isMantissa, Bool.and_eq_true, Bool.and_eq_true] at mantissa ⊢
  have isShown : whole.isEmpty = false := by simpa using shown
  have left : (whole.isEmpty || isDigitSequence base whole) = true := mantissa.1.1
  rw [left, isShown]
  by_cases ended : front = []
  · rw [ended]
    exact iff_of_true ⟨⟨rfl, rfl⟩, rfl⟩ (by simp)
  · have sequence : isDigitSequence base (front ++ back) = true := by
      simpa [List.append_eq_nil_iff, ended] using mantissa.1.2
    simp [ended, isDigitSequence_front sequence ended]

/-! ## The last symbol of a numeral -/

theorem isDigitOf_mono {base larger : ℕ} (le : base ≤ larger) {symbol : Char} (isDigit : isDigitOf base symbol = true) :
    isDigitOf larger symbol = true := by
  rw [isDigitOf, Option.any_eq_true] at isDigit ⊢
  obtain ⟨digit, same, small⟩ := isDigit
  exact ⟨digit, same, decide_eq_true ((of_decide_eq_true small).trans_le le)⟩

theorem getLast?_append_of_mem {front back : List Char} {last : Char} (member : last ∈ back.getLast?) :
    last ∈ (front ++ back).getLast? := by
  rw [List.getLast?_append, Option.mem_def.mp member]
  rfl

theorem Exponent.getLast {isMark : Char → Bool} {exponent : List Char} {value : ℤ} (spelled : Exponent isMark exponent value) :
    ∃ last ∈ exponent.getLast?, isDigitOf 10 last = true := by
  have behind : ∀ (front : List Char) {digits : List Char}, isDigitSequence 10 digits = true →
      ∃ last ∈ (front ++ digits).getLast?, isDigitOf 10 last = true := by
    intro front digits sequence
    obtain ⟨last, member, isDigit⟩ := isDigitOf_getLast sequence
    exact ⟨last, getLast?_append_of_mem member, isDigit⟩
  cases spelled with
  | unsigned _ sequence => exact behind [_] sequence
  | plus _ sequence => exact behind [_, '+'] sequence
  | minus _ sequence => exact behind [_, '-'] sequence

theorem Numeral.getLast {system : NumberSystem} (regular : system.Regular) {kind : NumberKind} {number : List Char} {value : ℚ}
    (numeral : Numeral system kind number value) :
    ∃ last ∈ number.getLast?, isDigitOf system.base last = true ∨ last = '.' := by
  cases numeral with
  | integer sequence =>
    obtain ⟨last, member, isDigit⟩ := isDigitOf_getLast sequence
    exact ⟨last, member, .inl (isDigitOf_mono (regular.integerBase_le number) isDigit)⟩
  | scientific _ spelled =>
    obtain ⟨last, member, isDigit⟩ := spelled.getLast
    exact ⟨last, getLast?_append_of_mem member, .inl (isDigitOf_mono regular.decimalDigits isDigit)⟩
  | pointed _ spelled =>
    obtain ⟨last, member, isDigit⟩ := spelled.getLast
    rw [← List.cons_append, ← List.append_assoc]
    exact ⟨last, getLast?_append_of_mem member, .inl (isDigitOf_mono regular.decimalDigits isDigit)⟩
  | @fixed whole fraction _ mantissa =>
    by_cases ended : fraction = []
    · rw [ended]
      exact ⟨'.', getLast?_append_of_mem rfl, .inr rfl⟩
    · rw [isMantissa, Bool.and_eq_true, Bool.and_eq_true] at mantissa
      have sequence : isDigitSequence system.base fraction = true := by simpa [ended] using mantissa.1.2
      obtain ⟨last, member, isDigit⟩ := isDigitOf_getLast sequence
      rw [← List.singleton_append, ← List.append_assoc]
      exact ⟨last, getLast?_append_of_mem member, .inl isDigit⟩

/-! ## The symbols of a numeral -/

theorem Exponent.symbols {isMark : Char → Bool} {exponent : List Char} {value : ℤ} (spelled : Exponent isMark exponent value) :
    ∀ symbol ∈ exponent, isMark symbol = true ∨ isDigitMark 10 symbol = true ∨ symbol = '+' ∨ symbol = '-' := by
  intro symbol member
  cases spelled with
  | unsigned isExponent sequence =>
    cases member with
    | head => exact .inl isExponent
    | tail _ member => exact .inr (.inl (isDigitMark_of_sequence sequence symbol member))
  | plus isExponent sequence =>
    cases member with
    | head => exact .inl isExponent
    | tail _ member =>
      cases member with
      | head => exact .inr (.inr (.inl rfl))
      | tail _ member => exact .inr (.inl (isDigitMark_of_sequence sequence symbol member))
  | minus isExponent sequence =>
    cases member with
    | head => exact .inl isExponent
    | tail _ member =>
      cases member with
      | head => exact .inr (.inr (.inr rfl))
      | tail _ member => exact .inr (.inl (isDigitMark_of_sequence sequence symbol member))

/-- What a numeral may be made of. -/
def IsNumberSymbol (system : NumberSystem) (symbol : Char) : Prop :=
  isDigitMark system.base symbol = true ∨ system.mark symbol = true ∨ symbol ∈ ['.', '+', '-']

theorem Numeral.symbols {system : NumberSystem} (regular : system.Regular) {kind : NumberKind} {number : List Char} {value : ℚ}
    (numeral : Numeral system kind number value) : ∀ symbol ∈ number, IsNumberSymbol system symbol := by
  have ofExponent : ∀ {exponent : List Char} {value : ℤ}, Exponent system.mark exponent value → ∀ symbol ∈ exponent,
      IsNumberSymbol system symbol := by
    intro exponent value spelled symbol member
    cases spelled.symbols symbol member with
    | inl isMark => exact .inr (.inl isMark)
    | inr other =>
      cases other with
      | inl isDigit => exact .inl (isDigitMark_mono regular.decimalDigits isDigit)
      | inr sign => exact .inr (.inr (by cases sign with | inl plus => simp [plus] | inr minus => simp [minus]))
  intro symbol member
  cases numeral with
  | integer sequence =>
    exact .inl (isDigitMark_mono (regular.integerBase_le number) (isDigitMark_of_sequence sequence symbol member))
  | scientific sequence spelled =>
    cases List.mem_append.mp member with
    | inl here => exact .inl (isDigitMark_of_sequence sequence symbol here)
    | inr here => exact ofExponent spelled symbol here
  | pointed mantissa spelled =>
    rw [List.mem_append, List.mem_cons, List.mem_append] at member
    obtain inWhole | isPoint | inFraction | inExponent := member
    · exact .inl ((isDigitMark_of_mantissa mantissa).1 symbol inWhole)
    · exact .inr (.inr (by simp [isPoint]))
    · exact .inl ((isDigitMark_of_mantissa mantissa).2 symbol inFraction)
    · exact ofExponent spelled symbol inExponent
  | fixed _ mantissa =>
    rw [List.mem_append, List.mem_cons] at member
    obtain inWhole | isPoint | inFraction := member
    · exact .inl ((isDigitMark_of_mantissa mantissa).1 symbol inWhole)
    · exact .inr (.inr (by simp [isPoint]))
    · exact .inl ((isDigitMark_of_mantissa mantissa).2 symbol inFraction)

theorem Numeral.digits {system : NumberSystem} (regular : system.Regular) {number : List Char} {value : ℚ}
    (numeral : Numeral system .integer number value) : ∀ symbol ∈ number, isDigitMark system.base symbol = true := by
  intro symbol member
  cases numeral with
  | integer sequence =>
    exact isDigitMark_mono (regular.integerBase_le number) (isDigitMark_of_sequence sequence symbol member)

theorem Numeral.mark_or_point {system : NumberSystem} {number : List Char} {value : ℚ}
    (numeral : Numeral system .floating number value) : ∃ symbol ∈ number, system.mark symbol = true ∨ symbol = '.' := by
  cases numeral with
  | scientific _ spelled =>
    obtain ⟨mark, rest, rfl, isMark⟩ := spelled.head_mark
    exact ⟨mark, List.mem_append_right _ List.mem_cons_self, .inl isMark⟩
  | pointed _ _ => exact ⟨'.', List.mem_append_right _ List.mem_cons_self, .inr rfl⟩
  | fixed _ _ => exact ⟨'.', List.mem_append_right _ List.mem_cons_self, .inr rfl⟩

/-- Where the exponent is not optional, every floating number ends in one. -/
theorem Numeral.getLast_exponent {system : NumberSystem} (mandatory : system.exponentOptional = false) {number : List Char}
    {value : ℚ} (numeral : Numeral system .floating number value) :
    (∃ symbol ∈ number, system.mark symbol = true) ∧ ∃ last ∈ number.getLast?, isDigitOf 10 last = true := by
  cases numeral with
  | scientific _ spelled =>
    obtain ⟨last, member, isDigit⟩ := spelled.getLast
    obtain ⟨mark, rest, rfl, isMark⟩ := spelled.head_mark
    exact ⟨⟨mark, List.mem_append_right _ List.mem_cons_self, isMark⟩, last, getLast?_append_of_mem member, isDigit⟩
  | pointed _ spelled =>
    obtain ⟨last, member, isDigit⟩ := spelled.getLast
    obtain ⟨mark, rest, rfl, isMark⟩ := spelled.head_mark
    rw [← List.cons_append, ← List.append_assoc]
    exact ⟨⟨mark, List.mem_append_right _ List.mem_cons_self, isMark⟩, last, getLast?_append_of_mem member, isDigit⟩
  | fixed optional _ => exact absurd optional (by simp [mandatory])

end MjFormatter.Library.Literals
