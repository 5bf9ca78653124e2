import MjFormatter.Parser.CompdbIndex

/-! # Which flags of a compile command are kept

The sanitizer drops the argument behind `-c` whatever it is, and knows the executable and the source by their spelling.
The rule drops the executable, every `-c`, every `-o` with the argument behind it and every spelling of the source.  The
two are read side by side: at each argument each of them reads it or passes over it. -/

namespace MjFormatter.Verified

open MjFormatter.Parser

section

variable {α : Type} (text : α → String)

/-! ## The rule -/

/-- What stays behind the executable, from an argument on that is the operand of an `-o` or not. -/
def ruleFrom (namesSource : String → Bool) : Bool → List α → List α
  | _, [] => []
  | true, _ :: args => ruleFrom namesSource false args
  | false, arg :: args =>
    if text arg = "-c" then ruleFrom namesSource false args
    else if text arg = "-o" then ruleFrom namesSource true args
    else if namesSource (text arg) then ruleFrom namesSource false args
    else arg :: ruleFrom namesSource false args

def keptByRule (isCompiler namesSource : String → Bool) : List α → List α
  | [] => []
  | first :: args =>
    if isCompiler (text first) then ruleFrom text namesSource false args else ruleFrom text namesSource false (first :: args)

/-! ## Reading side by side -/

/-- Who passes over the next argument. -/
inductive Reading where
  | both
  | operand
  /-- The sanitizer alone, behind a `-c`. -/
  | behindCompile
  /-- The rule alone, behind an `-o` that the sanitizer has passed over. -/
  | lostOutput

namespace Reading

@[simp] def codeSkips : Reading → Bool
  | operand | behindCompile => true
  | both | lostOutput => false

@[simp] def ruleSkips : Reading → Bool
  | operand | lostOutput => true
  | both | behindCompile => false

end Reading

/-- No argument is dropped by one of the two only. -/
def AgreesFrom (known namesSource : String → Bool) : Reading → List String → Prop
  | _, [] => True
  | .both, arg :: args =>
    if arg = "-c" then AgreesFrom known namesSource .behindCompile args
    else if arg = "-o" then AgreesFrom known namesSource .operand args
    else (namesSource arg → known arg) ∧ AgreesFrom known namesSource .both args
  | .operand, _ :: args => AgreesFrom known namesSource .both args
  | .behindCompile, arg :: args =>
    if arg = "-o" then AgreesFrom known namesSource .lostOutput args
    else (arg = "-c" ∨ namesSource arg) ∧ AgreesFrom known namesSource .both args
  | .lostOutput, arg :: args =>
    if arg = "-c" ∨ arg = "-o" then AgreesFrom known namesSource .behindCompile args
    else known arg ∧ AgreesFrom known namesSource .both args

def Recognised (arg : String) : Prop := ¬startsWith arg "-" ∧ looksLikeCompilerExecutable arg

instance (arg : String) : Decidable (Recognised arg) := inferInstanceAs (Decidable (_ ∧ _))

def Agrees (isCompiler known namesSource : String → Bool) : List String → Prop
  | [] => True
  | first :: args =>
    if Recognised first then (isCompiler first ∨ namesSource first) ∧ AgreesFrom known namesSource .both args
    else if isCompiler first then AgreesFrom known namesSource .lostOutput (first :: args)
    else AgreesFrom known namesSource .both (first :: args)

end

/-! ## The loop against the rule -/

/-- The spellings that the sanitizer compares with. -/
def known (fileNorm fileName arg : String) : Bool := arg = fileNorm ∨ (fileName ≠ "" ∧ arg = fileName)

/-- The spellings of the source, of which the sanitizer compares with some. -/
def namesSource (fileNorm fileName : String) (resolve : String → String) (arg : String) : Bool :=
  known fileNorm fileName arg || resolve arg = fileNorm

section

variable {α : Type} (text : α → String) (fileNorm fileName : String) (resolve : String → String)

theorem sanitizeFrom_map (args : List α) (index : Nat) (skipNext : Bool) :
    sanitizeFrom id fileNorm fileName index skipNext (args.map text) =
      (sanitizeFrom text fileNorm fileName index skipNext args).map text := by
  induction args generalizing index skipNext with
  | nil => simp only [List.map_nil, sanitizeFrom]
  | cons arg args ih =>
    cases skipNext with
    | true => simp only [List.map_cons, sanitizeFrom, ih]
    | false =>
      simp only [List.map_cons, sanitizeFrom, ih, id_eq]
      split_ifs <;> simp only [List.map_cons]

theorem ruleFrom_map (names : String → Bool) (args : List α) (operand : Bool) :
    ruleFrom id names operand (args.map text) = (ruleFrom text names operand args).map text := by
  induction args generalizing operand with
  | nil => simp only [List.map_nil, ruleFrom]
  | cons arg args ih =>
    cases operand with
    | true => simp only [List.map_cons, ruleFrom, ih]
    | false =>
      simp only [List.map_cons, ruleFrom, ih, id_eq]
      split_ifs <;> simp only [List.map_cons]

theorem keptByRule_map (isCompiler names : String → Bool) (args : List α) :
    keptByRule id isCompiler names (args.map text) = (keptByRule text isCompiler names args).map text := by
  cases args with
  | nil => simp only [List.map_nil, keptByRule]
  | cons first args =>
    rw [List.map_cons, keptByRule, keptByRule, ← List.map_cons, ruleFrom_map, ruleFrom_map, id_eq]
    split_ifs <;> rfl

theorem sanitizeFrom_sublist (args : List α) (index : Nat) (skipNext : Bool) :
    (sanitizeFrom text fileNorm fileName index skipNext args).Sublist args := by
  induction args generalizing index skipNext with
  | nil => simp only [sanitizeFrom, List.Sublist.refl]
  | cons arg args ih =>
    cases skipNext with
    | true => exact (ih _ _).cons arg
    | false =>
      rw [sanitizeFrom]
      split_ifs
      · exact (ih _ _).cons arg
      · exact (ih _ _).cons arg
      · exact (ih _ _).cons arg
      · exact (ih _ _).cons_cons arg

theorem ruleFrom_sublist (names : String → Bool) (args : List α) (operand : Bool) :
    (ruleFrom text names operand args).Sublist args := by
  induction args generalizing operand with
  | nil => simp only [ruleFrom, List.Sublist.refl]
  | cons arg args ih =>
    cases operand with
    | true => exact (ih _).cons arg
    | false =>
      rw [ruleFrom]
      split_ifs
      · exact (ih _).cons arg
      · exact (ih _).cons arg
      · exact (ih _).cons arg
      · exact (ih _).cons_cons arg

/-- Where no executable is looked for, or none is found. -/
theorem sanitizeFrom_read (arg : α) (args : List α) (index : Nat) (plain : index = 0 → ¬Recognised (text arg)) :
    sanitizeFrom text fileNorm fileName index false (arg :: args) =
      if text arg = "-c" ∨ text arg = "-o" then sanitizeFrom text fileNorm fileName (index + 1) true args
      else if known fileNorm fileName (text arg) then sanitizeFrom text fileNorm fileName (index + 1) false args
      else arg :: sanitizeFrom text fileNorm fileName (index + 1) false args := by
  rw [sanitizeFrom, if_neg fun found => plain found.1 found.2]
  simp only [known, decide_eq_true_eq]

theorem sanitizeFrom_index (args : List α) (index : Nat) (skipNext : Bool) :
    sanitizeFrom text fileNorm fileName (index + 1) skipNext args = sanitizeFrom text fileNorm fileName 1 skipNext args := by
  induction args generalizing index skipNext with
  | nil => simp only [sanitizeFrom]
  | cons arg args ih =>
    cases skipNext with
    | true => exact (ih (index + 1) false).trans (ih 1 false).symm
    | false =>
      rw [sanitizeFrom_read text _ _ arg args (index + 1) (by simp), sanitizeFrom_read text _ _ arg args 1 (by simp)]
      simp only [ih (index + 1), ih 1]

theorem flag_not_recognised {arg : String} (flag : arg = "-c" ∨ arg = "-o") : ¬Recognised arg := by
  obtain rfl | rfl := flag
  · exact fun found => found.1 (by decide)
  · exact fun found => found.1 (by decide)

/-- An argument that only one of the two keeps is missing from the other for good. -/
theorem ne_of_head {arg : α} {kept other args : List α} (fresh : arg ∉ args) (others : other.Sublist args) :
    arg :: kept ≠ other :=
  fun same => fresh (others.subset (same ▸ List.mem_cons_self))

/-- What the two keep from an argument on is the same when no argument is dropped by one of them only. -/
theorem sanitizeFrom_eq_iff (args : List α) (distinct : args.Nodup) (index : Nat) (reading : Reading) :
    sanitizeFrom text fileNorm fileName (index + 1) reading.codeSkips args =
        ruleFrom text (namesSource fileNorm fileName resolve) reading.ruleSkips args ↔
      AgreesFrom (known fileNorm fileName) (namesSource fileNorm fileName resolve) reading (args.map text) := by
  induction args generalizing index reading with
  | nil => simp only [sanitizeFrom, ruleFrom, AgreesFrom, List.map_nil]
  | cons arg args ih =>
    obtain ⟨fresh, distinct⟩ := List.nodup_cons.mp distinct
    have step := ih distinct (index + 1)
    have codeKept := sanitizeFrom_sublist text fileNorm fileName args (index + 1 + 1) false
    have ruleKept := ruleFrom_sublist text (namesSource fileNorm fileName resolve) args false
    have knownNames (isKnown : known fileNorm fileName (text arg)) : namesSource fileNorm fileName resolve (text arg) := by
      rw [namesSource, isKnown, Bool.true_or]
    cases reading with
    | operand => exact step .both
    | behindCompile =>
      simp only [Reading.codeSkips, Reading.ruleSkips, List.map_cons, AgreesFrom, ruleFrom, sanitizeFrom]
      by_cases compile : text arg = "-c"
      · simpa [compile] using step .both
      by_cases output : text arg = "-o"
      · simpa [output] using step .lostOutput
      by_cases names : namesSource fileNorm fileName resolve (text arg)
      · simpa [compile, output, names] using step .both
      · simpa [compile, output, names] using (ne_of_head fresh codeKept).symm
    | lostOutput =>
      simp only [Reading.codeSkips, Reading.ruleSkips, List.map_cons, AgreesFrom, ruleFrom]
      rw [sanitizeFrom_read text _ _ arg args (index + 1) (by simp)]
      by_cases flag : text arg = "-c" ∨ text arg = "-o"
      · simpa [flag] using step .behindCompile
      by_cases isKnown : known fileNorm fileName (text arg)
      · simpa [flag, isKnown] using step .both
      · simpa [flag, isKnown] using ne_of_head fresh ruleKept
    | both =>
      simp only [Reading.codeSkips, Reading.ruleSkips, List.map_cons, AgreesFrom, ruleFrom]
      rw [sanitizeFrom_read text _ _ arg args (index + 1) (by simp)]
      by_cases compile : text arg = "-c"
      · simpa [compile] using step .behindCompile
      by_cases output : text arg = "-o"
      · simpa [output] using step .operand
      by_cases isKnown : known fileNorm fileName (text arg)
      · simpa [compile, output, isKnown, knownNames isKnown] using step .both
      by_cases names : namesSource fileNorm fileName resolve (text arg)
      · simpa [compile, output, isKnown, names] using ne_of_head fresh ruleKept
      · simpa [compile, output, isKnown, names] using step .both

/-- At the first argument the sanitizer looks for an executable by its spelling. -/
theorem sanitizeFrom_first_eq_iff (isCompiler : String → Bool) (args : List α) (distinct : args.Nodup) :
    sanitizeFrom text fileNorm fileName 0 false args =
        keptByRule text isCompiler (namesSource fileNorm fileName resolve) args ↔
      Agrees isCompiler (known fileNorm fileName) (namesSource fileNorm fileName resolve) (args.map text) := by
  cases args with
  | nil => simp only [sanitizeFrom, keptByRule, Agrees, List.map_nil]
  | cons first args =>
    obtain ⟨fresh, distinctRest⟩ := List.nodup_cons.mp distinct
    have rest := sanitizeFrom_eq_iff text fileNorm fileName resolve args distinctRest 0
    simp only [List.map_cons, Agrees, keptByRule]
    by_cases recognised : Recognised (text first)
    · have dropped : sanitizeFrom text fileNorm fileName 0 false (first :: args) =
          sanitizeFrom text fileNorm fileName 1 false args := by
        rw [sanitizeFrom, if_pos ⟨rfl, recognised⟩]
      have noFlag : ¬(text first = "-c" ∨ text first = "-o") := fun flag => flag_not_recognised flag recognised
      obtain ⟨noCompile, noOutput⟩ := not_or.mp noFlag
      rw [dropped, if_pos recognised]
      by_cases compiler : isCompiler (text first)
      · simpa [compiler] using rest .both
      by_cases names : namesSource fileNorm fileName resolve (text first)
      · simpa [compiler, names, ruleFrom, noCompile, noOutput] using rest .both
      · have kept := sanitizeFrom_sublist text fileNorm fileName args 1 false
        simpa [compiler, names, ruleFrom, noCompile, noOutput] using (ne_of_head fresh kept).symm
    · have later : sanitizeFrom text fileNorm fileName 0 false (first :: args) =
          sanitizeFrom text fileNorm fileName 1 false (first :: args) := by
        rw [sanitizeFrom_read text _ _ first args 0 fun _ => recognised, sanitizeFrom_read text _ _ first args 1 (by simp)]
        simp only [sanitizeFrom_index text fileNorm fileName args 1]
      have whole := sanitizeFrom_eq_iff text fileNorm fileName resolve (first :: args) distinct 0
      rw [later, if_neg recognised]
      by_cases compiler : isCompiler (text first)
      · rw [if_pos compiler, if_pos compiler]
        exact whole .lostOutput
      · rw [if_neg compiler, if_neg compiler]
        exact whole .both

end

/-! ## The arguments of an entry -/

section

variable {P : Type} (host : CompdbHost P) (fileName : P → Option String) (args : List String) (filePath : P)

/-- The arguments kept, with their places. -/
def keptPlaces : List (String × Nat) :=
  sanitizeFrom Prod.fst (host.normalizePath filePath) ((fileName filePath).getD "") 0 false args.zipIdx

/-- `inDirectory` gives the path that an argument means in the directory of the entry. -/
def entryNames (inDirectory : String → P) : String → Bool :=
  namesSource (host.normalizePath filePath) ((fileName filePath).getD "") (host.normalizePath ∘ inDirectory)

def entryKnown : String → Bool := known (host.normalizePath filePath) ((fileName filePath).getD "")

theorem sanitizeCompdbArgs_eq_places :
    sanitizeCompdbArgs host fileName args filePath = (keptPlaces host fileName args filePath).map Prod.fst := by
  rw [keptPlaces, ← sanitizeFrom_map, List.zipIdx_map_fst, sanitizeCompdbArgs]

/-- The places kept are those that the rule keeps in every list on which the two agree, and in no other. -/
theorem sanitizeCompdbArgs_iff (isCompiler : String → Bool) (inDirectory : String → P) :
    sanitizeCompdbArgs host fileName args filePath = (keptPlaces host fileName args filePath).map Prod.fst ∧
      (keptPlaces host fileName args filePath =
          keptByRule Prod.fst isCompiler (entryNames host fileName filePath inDirectory) args.zipIdx ↔
        Agrees isCompiler (entryKnown host fileName filePath) (entryNames host fileName filePath inDirectory) args) ∧
      (Agrees isCompiler (entryKnown host fileName filePath) (entryNames host fileName filePath inDirectory) args →
        sanitizeCompdbArgs host fileName args filePath =
          keptByRule id isCompiler (entryNames host fileName filePath inDirectory) args) := by
  have distinct : args.zipIdx.Nodup := List.Nodup.of_map Prod.snd (by simp [List.nodup_range'])
  have places := sanitizeFrom_first_eq_iff Prod.fst (host.normalizePath filePath) ((fileName filePath).getD "")
    (host.normalizePath ∘ inDirectory) isCompiler args.zipIdx distinct
  rw [List.zipIdx_map_fst] at places
  have texts := sanitizeCompdbArgs_eq_places host fileName args filePath
  refine ⟨texts, places, fun agrees => ?_⟩
  have same : keptPlaces host fileName args filePath = _ := places.mpr agrees
  rw [texts, same, ← keptByRule_map, List.zipIdx_map_fst]
  rfl

end

/-- Where every path is its own canonical form. -/
def canonicalPaths : CompdbHost String := ⟨id, id, fun _ => []⟩

/-- A flag between `-c` and the file. -/
def flagBehindCompile : List String := ["g++", "-c", "-DNDEBUG", "main.cpp"]

theorem flagBehindCompile_lost :
    sanitizeCompdbArgs canonicalPaths some flagBehindCompile "main.cpp" = [] ∧
      keptByRule id (· = "g++") (entryNames canonicalPaths some "main.cpp" id) flagBehindCompile = ["-DNDEBUG"] ∧
      keptPlaces canonicalPaths some flagBehindCompile "main.cpp" ≠
        keptByRule Prod.fst (· = "g++") (entryNames canonicalPaths some "main.cpp" id) flagBehindCompile.zipIdx := by
  decide

end MjFormatter.Verified
