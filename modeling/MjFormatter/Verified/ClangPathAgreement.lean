import MjFormatter.Parser.ClangPaths

/-! # Which clang parse is cached

The request that is sent ahead has one list of arguments.  A parse that is waited for goes through the argument sets of
related files when the file has no entry of its own, so the two ways agree where nothing has to be chosen. -/

namespace MjFormatter.Verified

open MjFormatter.Parser Files

section
variable {P Key Details : Type} [StdPath P] [DecidableEq Key] (manager : ClangManager P Key Details)
  (cache : ClangCache Key Details) (text : Text) (path : P)

/-- A parse that is sent ahead, from a policy stage or from a checkpoint, is one that is waited for, with its result and
with what it leaves in the cache. -/
def SameParse : Prop :=
  manager.dispatchThenCollect cache text path = manager.parseClang cache text path ∧
    manager.dispatchOrParse cache text path = manager.parseClang cache text path

/-- It does not matter which way parses first, whatever the service answers. -/
def PathsAgree : Prop := ∀ service, SameParse { manager with service } cache text path

/-- The request for a required entry is refused, or nothing needs to be parsed, or the arguments are those of the file. -/
def NothingToChoose : Prop :=
  (manager.requireCompdb = true ∧ manager.hasSemanticCompdb path = false) ∨
    (∃ cached, cache (manager.clangCacheKey path text) = some cached) ∨ manager.hasExactCompdb path = true ∨
    (isHeaderPath path = false ∧ manager.compdbIndex.sourceConsensusArgSets manager.host path = [])

variable {manager cache text path}

/-! ## One list of arguments -/

omit [DecidableEq Key] in
theorem parseUncached_of_exact (exact_entry : manager.hasExactCompdb path = true) (service : ParseService P Details) :
    manager.parseUncached text path service = service path text (manager.buildClangArguments path) := by
  simp [ClangManager.parseUncached, exact_entry]

omit [DecidableEq Key] in
theorem parseUncached_of_unrelated (source : isHeaderPath path = false)
    (unrelated : manager.compdbIndex.sourceConsensusArgSets manager.host path = []) (service : ParseService P Details) :
    manager.parseUncached text path service = service path text (manager.buildClangArguments path) := by
  simp [ClangManager.parseUncached, source, unrelated]

theorem dispatchThenCollect_of_refused (required : manager.requireCompdb = true)
    (unknown : manager.hasSemanticCompdb path = false) :
    manager.dispatchThenCollect cache text path = manager.parseClang cache text path := by
  simp [ClangManager.dispatchThenCollect, ClangManager.dispatchClang, required, unknown]

theorem dispatchThenCollect_of_cached {cached : Parser.ClangParseResult Details}
    (known : cache (manager.clangCacheKey path text) = some cached) :
    manager.dispatchThenCollect cache text path = manager.parseClang cache text path := by
  simp [ClangManager.dispatchThenCollect, ClangManager.dispatchClang, known]

/-- A request that is neither refused nor answered by the cache goes to the service. -/
structure Asks (manager : ClangManager P Key Details) (cache : ClangCache Key Details) (text : Text) (path : P) : Prop where
  accepted : (manager.requireCompdb && !manager.hasSemanticCompdb path) = false
  uncached : cache (manager.clangCacheKey path text) = none

theorem parseClang_of_asks (asks : Asks manager cache text path) :
    manager.parseClang cache text path =
      manager.remember cache text path (manager.service.bind (manager.parseUncached text path)) := by
  simp [ClangManager.parseClang, asks.accepted, asks.uncached]

theorem dispatchThenCollect_of_asks (asks : Asks manager cache text path) :
    manager.dispatchThenCollect cache text path = manager.remember cache text path
      (manager.service.bind fun service => service path text (manager.buildClangArguments path)) := by
  simp only [ClangManager.dispatchThenCollect, ClangManager.dispatchClang, asks.accepted, asks.uncached,
    Bool.false_eq_true, if_false]
  cases manager.service with
  | error failure => rfl
  | ok service => simp [ClangManager.collectClang, asks.uncached, Except.map, Except.bind]

/-- The way of the checkpoint, which falls back on a failed dispatch, differs in nothing. -/
theorem dispatchOrParse_eq : manager.dispatchOrParse cache text path = manager.dispatchThenCollect cache text path := by
  by_cases refused : (manager.requireCompdb && !manager.hasSemanticCompdb path) = true
  · simp [ClangManager.dispatchOrParse, ClangManager.dispatchThenCollect, ClangManager.dispatchClang, refused]
  · rw [Bool.not_eq_true] at refused
    cases known : cache (manager.clangCacheKey path text) with
    | some cached =>
      simp [ClangManager.dispatchOrParse, ClangManager.dispatchThenCollect, ClangManager.dispatchClang, refused, known]
    | none =>
      have asks : Asks manager cache text path := ⟨refused, known⟩
      cases available : manager.service with
      | error failure =>
        rw [dispatchThenCollect_of_asks asks, available, ClangManager.dispatchOrParse, ClangManager.dispatchClang, refused,
          known, available]
        simp only [Bool.false_eq_true, if_false, Except.map]
        rw [parseClang_of_asks asks, available]
        rfl
      | ok service =>
        simp [ClangManager.dispatchOrParse, ClangManager.dispatchThenCollect, ClangManager.dispatchClang, refused, known,
          available, Except.map]

omit [StdPath P] in
theorem eq_of_remember_eq {left right : Except String (Parser.ClangParseResult Details)}
    (same : manager.remember cache text path left = manager.remember cache text path right) : left = right := by
  have results : ∀ result : Except String (Parser.ClangParseResult Details),
      (manager.remember cache text path result).1 = result := by
    intro result
    cases result with
    | error failure => rfl
    | ok parse => rfl
  rw [← results left, same, results]

end

/-! ## Telling the ways apart -/

/-- A parse with an empty message, which no consensus reports. -/
def mutedParse (Details : Type) : Parser.ClangParseResult Details where
  success := true
  diagnostics := [""]
  symbols := []
  diagnosticCounts := { note := 1 }
  diagnosticEntries := [⟨1, 1, 1, "", []⟩]
  renameOffsetsBySymbol := []
  referenceOffsetsByDecl := []
  counted := rfl
  entered := rfl

theorem consensusMessage_ne (messages : List (DiagnosticPlace × String)) (entry : ClangDiagnosticEntry) :
    consensusMessage messages entry ≠ "" := by
  intro blank
  have length := congrArg String.length blank
  unfold consensusMessage at length
  split at length
  · simp [String.length_append, toString] at length
  · simp [String.length_append] at length

theorem mergeHeaderResults_ne_muted {Details : Type} (parses : List (Parser.ClangParseResult Details)) :
    mergeHeaderResults parses ≠ mutedParse Details := by
  intro same
  have diagnostics : (mergeHeaderResults parses).diagnostics = [""] := by rw [same, mutedParse]
  have blank : "" ∈ (mergeHeaderResults parses).diagnostics := by simp [diagnostics]
  obtain ⟨entry, _, message⟩ := List.mem_map.mp blank
  exact consensusMessage_ne _ _ message

section
variable {P Key Details : Type} [StdPath P] [DecidableEq Key] {manager : ClangManager P Key Details}
  {cache : ClangCache Key Details} {text : Text} {path : P}

omit [DecidableEq Key] in
/-- A header without an entry is never parsed as it is. -/
theorem parseUncached_header_ne (header : isHeaderPath path = true) (inexact : manager.hasExactCompdb path = false) :
    manager.parseUncached text path (fun _ _ _ => .ok (mutedParse Details)) ≠ .ok (mutedParse Details) := by
  simp only [ClangManager.parseUncached, header, inexact, Bool.not_false, Bool.and_self, if_true,
    ClangManager.parseClangHeaderConsensus]
  intro same
  split at same
  · cases same
  · split at same
    · cases same
    · exact mergeHeaderResults_ne_muted _ (Except.ok.inj same)

omit [DecidableEq Key] in
/-- A source without an entry but with related ones is not parsed as it is, and its failure is reported as one of all. -/
theorem parseUncached_source_ne (source : isHeaderPath path = false) (inexact : manager.hasExactCompdb path = false)
    (related : manager.compdbIndex.sourceConsensusArgSets manager.host path ≠ []) :
    manager.parseUncached text path (fun _ _ _ => .error "") ≠ .error "" := by
  have nothing : (manager.parseBatch text path (fun _ _ _ => Except.error "")
      (manager.compdbIndex.sourceConsensusArgSets manager.host path)).filterMap Except.toOption = [] := by
    simp [ClangManager.parseBatch, Except.toOption]
  simp only [ClangManager.parseUncached, source, inexact, Bool.not_false, Bool.and_true, Bool.false_eq_true, if_false, if_true,
    if_neg related, ClangManager.parseClangSourceConsensus, nothing]
  intro same
  have length := congrArg String.length (Except.error.inj same)
  simp [String.length_append] at length

/-- The two ways agree for every service exactly when there is nothing to choose. -/
theorem clangPaths_agree_iff : PathsAgree manager cache text path ↔ NothingToChoose manager cache text path := by
  constructor
  · intro agree
    by_contra choice
    simp only [NothingToChoose, not_or, not_and, Bool.not_eq_false, Bool.not_eq_true, not_exists] at choice
    obtain ⟨known, uncached, inexact, sources⟩ := choice
    have asks : ∀ service, Asks { manager with service } cache text path := by
      intro service
      constructor
      · have accepted : (manager.requireCompdb && !manager.hasSemanticCompdb path) = false := by
          cases required : manager.requireCompdb with
          | false => rfl
          | true => simp [known required]
        exact accepted
      · cases found : cache (manager.clangCacheKey path text) with
        | none => rfl
        | some cached => exact absurd found (uncached cached)
    have same : ∀ service : ParseService P Details, service path text (manager.buildClangArguments path) =
        manager.parseUncached text path service := by
      intro service
      have both := (agree (.ok service)).1
      rw [dispatchThenCollect_of_asks (asks _), parseClang_of_asks (asks _)] at both
      exact eq_of_remember_eq both
    by_cases header : isHeaderPath path = true
    · exact parseUncached_header_ne header inexact (same _).symm
    · rw [Bool.not_eq_true] at header
      exact parseUncached_source_ne header inexact (sources header) (same _).symm
  · intro alone service
    rw [SameParse, dispatchOrParse_eq, and_self]
    by_cases refused : (manager.requireCompdb && !manager.hasSemanticCompdb path) = true
    · rw [Bool.and_eq_true, Bool.not_eq_true'] at refused
      exact dispatchThenCollect_of_refused refused.1 refused.2
    · rw [Bool.not_eq_true] at refused
      cases found : cache (manager.clangCacheKey path text) with
      | some cached => exact dispatchThenCollect_of_cached found
      | none =>
        have asks : Asks { manager with service } cache text path := ⟨refused, found⟩
        have single : ∀ answer : ParseService P Details,
            manager.parseUncached text path answer = answer path text (manager.buildClangArguments path) := by
          intro answer
          cases alone with
          | inl rejected => simp [rejected.1, rejected.2] at refused
          | inr others =>
            cases others with
            | inl cached => simp [found] at cached
            | inr direct =>
              cases direct with
              | inl exact_entry => exact parseUncached_of_exact exact_entry answer
              | inr unrelated => exact parseUncached_of_unrelated unrelated.1 unrelated.2 answer
        rw [dispatchThenCollect_of_asks asks, parseClang_of_asks asks]
        congr 2
        funext answer
        exact (single answer).symm

end

/-! ## A header next to its source -/

def sampleHost : CompdbHost String where
  ofStr := id
  normalizePath := id
  pairedCompanionPathsOnDisk _ := []

/-- A parse that has not found an included file. -/
def fileNotFoundParse : Parser.ClangParseResult Unit where
  success := false
  diagnostics := ["/p/a.h:1:10: Fatal: 'b.h' file not found"]
  symbols := []
  diagnosticCounts := { fatal := 1 }
  diagnosticEntries := [⟨1, 10, 4, "", []⟩]
  renameOffsetsBySymbol := []
  referenceOffsetsByDecl := []
  counted := rfl
  entered := rfl

def cleanParse : Parser.ClangParseResult Unit where
  success := true
  diagnostics := []
  symbols := []
  diagnosticCounts := {}
  diagnosticEntries := []
  renameOffsetsBySymbol := []
  referenceOffsetsByDecl := []
  counted := rfl
  entered := rfl

/-- The source has the include directory that its header needs too. -/
def sampleManager : ClangManager String (String × Text) Unit where
  host := sampleHost
  argResolver :=
    { clangArgs := [], clangArgsMode := .merge, cppStandard := "c++17", clangResourceDir := none
      clangSystemIncludeArgs := [], allowInferredIncludes := false, inferredIncludeArgs := fun _ => [] }
  compdbIndex :=
    { argsByPath := some [("/p/a.cpp", ["-I/p/include"])], entries := some [⟨"/p/a.cpp", ["-I/p/include"]⟩] }
  requireCompdb := true
  clangCacheKey path text := (path, text)
  service := .ok fun _ _ arguments => .ok (if "-I/p/include" ∈ arguments then cleanParse else fileNotFoundParse)

def errorsOf (result : Except String (Parser.ClangParseResult Unit)) : Option Nat :=
  result.toOption.map fun parse => parse.diagnosticCounts.errorTotal

theorem sampleHeader_errors : errorsOf (sampleManager.dispatchThenCollect (fun _ => none) [] "/p/a.h").1 = some 1 ∧
    errorsOf (sampleManager.parseClang (fun _ => none) [] "/p/a.h").1 = some 0 := by
  constructor
  · decide +kernel
  · decide +kernel

theorem sampleHeader_disagrees : ¬PathsAgree sampleManager (fun _ => none) [] "/p/a.h" := by
  intro agree
  have same := congrArg (fun outcome => errorsOf outcome.1) (agree sampleManager.service).1
  have errors := sampleHeader_errors
  rw [← same] at errors
  simp [errors.1] at errors

end MjFormatter.Verified
