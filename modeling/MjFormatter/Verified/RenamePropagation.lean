import MjFormatter.App.Propagation

/-! # What the propagation of renames replaces in a file

The text that is left of a target is its text with disjoint occurrences replaced; each occurrence stands at
a clang reference that spells the old name.  Nothing else is asked: an occurrence may be on a line
that is disabled for naming conventions, in a comment, or of a rename that the file's own run refused. -/

namespace MjFormatter.Verified

open Library App

/-! ## The replaced ranges -/

def replacedRange (replacement : Replacement) : RangeEdit Char where
  start := replacement.start
  stop := replacement.stop
  old := replacement.oldName
  new := replacement.newName

/-- The symbols of the text between the offsets are replaced by the new names, and the others are kept. -/
def Renamed (text : Text) (replaced : List Replacement) (out : Text) : Prop :=
  Spliced Char.utf8Size 0 text (replaced.map replacedRange) out

/-- The replacement of an entry's old name at an offset. -/
def occurrence (text : Text) (entry : ClangDeclKey × (Text × Text)) (offset : Nat) : Replacement where
  decl := entry.1
  start := offset
  stop := offset + byteLength entry.2.1
  line := lineForOffset (lineStarts text) offset
  oldName := entry.2.1
  newName := entry.2.2

section
variable (text : Text) (parse : ClangParseResult) (renameByDecl : RenameMap)

theorem mem_findReplacements {replacement : Replacement} :
    replacement ∈ findReplacements text parse renameByDecl ↔
      ∃ entry ∈ renameByDecl, ∃ offset ∈ parse.refOffsets entry.1, spells text offset entry.2.1 entry.2.2 = true ∧
        occurrence text entry offset = replacement := by
  simp only [findReplacements, List.mem_flatMap, List.mem_map, List.mem_filter, and_assoc, occurrence]

theorem disjoined_dedupReplacements :
    Disjoined Char.utf8Size text ((dedupReplacements (findReplacements text parse renameByDecl)).map replacedRange) := by
  refine ⟨?_, ?_⟩
  · intro range member
    obtain ⟨replacement, kept, rfl⟩ := List.mem_map.mp member
    obtain ⟨entry, listed, offset, reference, spelled, rfl⟩ :=
      (mem_findReplacements text parse renameByDecl).mp (keepDisjoint_subset kept)
    exact ⟨Nat.le_add_right _ _, (of_decide_eq_true spelled).1⟩
  · rw [List.pairwise_map]
    exact keepDisjoint_disjoint (findReplacements text parse renameByDecl)

/-- Each occurrence that was found is replaced, or it starts inside one that is. -/
theorem dedupReplacements_covers {candidate : Replacement}
    (found : candidate ∈ findReplacements text parse renameByDecl) :
    ∃ kept ∈ dedupReplacements (findReplacements text parse renameByDecl),
      kept.start ≤ candidate.start ∧ (kept = candidate ∨ candidate.start < kept.stop) :=
  keepDisjoint_covers found

theorem applyReplacements_renamed :
    Renamed text (dedupReplacements (findReplacements text parse renameByDecl))
      (applyReplacements text (dedupReplacements (findReplacements text parse renameByDecl))) := by
  have positive : ∀ symbol : Char, 0 < symbol.utf8Size := Char.utf8Size_pos
  obtain ⟨out, replaced, spliced⟩ := foldr_replaceRange_spliced positive [] text
    (disjoined_dedupReplacements text parse renameByDecl) (fun _ _ => Nat.zero_le _)
  rw [List.foldr_map] at replaced
  have same : applyReplacements text (dedupReplacements (findReplacements text parse renameByDecl)) = out := replaced
  rw [same]
  exact spliced

end

/-- What the file's own run decided: where its comments and strings are, and which of its renames it refused. -/
structure FileDecisions where
  nonCodeRanges : List (Nat × Nat)
  refused : ClangDeclKey → Prop

/-- The pipeline itself could have made the replacement. -/
def Permitted (decisions : FileDecisions) (text : Text) (replacement : Replacement) : Prop :=
  replacement.line ∉ PolicySuppression.disabledLines text "naming_conventions" ∧
    (∀ range ∈ decisions.nonCodeRanges, ¬(range.1 ≤ replacement.start ∧ replacement.start < range.2)) ∧
    ¬decisions.refused replacement.decl

/-- The first range starts inside the second. -/
def StartsInside (inner outer : Replacement) : Prop := outer.start ≤ inner.start ∧ inner.start < outer.stop

/-- The text that the propagation starts from. -/
def startText (fileIo : FileIo) (path : String) (pendingText : Option Text) : Except String Text :=
  pendingText.elim (fileIo.readText path) .ok

section
variable (index : Nat) (path : String) (pendingText : Option Text) (renameByDecl : RenameMap)
  (parser : ProjectParser) (fileIo : FileIo)

theorem applySemanticRenameTarget_parsed {text : Text} {parse : ClangParseResult}
    (context : shouldSkipProjectWideSemanticPropagation parser path = false)
    (readable : startText fileIo path pendingText = .ok text) (parsed : parser.parseClang text path = .ok parse) :
    applySemanticRenameTarget index path pendingText renameByDecl parser fileIo =
      renameParsed index text parse renameByDecl := by
  rw [startText] at readable
  simp only [applySemanticRenameTarget, context, readable, parsed, Bool.false_eq_true, if_false]

/-- A target that gets a text has a readable text and a parse. -/
theorem applySemanticRenameTarget_pendingText {out : Text}
    (written : (applySemanticRenameTarget index path pendingText renameByDecl parser fileIo).pendingText = some out) :
    ∃ text parse, startText fileIo path pendingText = .ok text ∧ parser.parseClang text path = .ok parse ∧
      applySemanticRenameTarget index path pendingText renameByDecl parser fileIo =
        renameParsed index text parse renameByDecl := by
  cases context : shouldSkipProjectWideSemanticPropagation parser path with
  | true =>
    simp only [applySemanticRenameTarget, context, if_true] at written
    cases written
  | false =>
    simp only [applySemanticRenameTarget, context, Bool.false_eq_true, if_false] at written
    split at written
    · cases written
    · next text readable =>
      split at written
      · split at written <;> cases written
      · next parse parsed =>
        exact ⟨text, parse, readable, parsed,
          applySemanticRenameTarget_parsed index path pendingText renameByDecl parser fileIo context readable parsed⟩

theorem renameParsed_pendingText {text out : Text} {parse : ClangParseResult}
    (written : (renameParsed index text parse renameByDecl).pendingText = some out) :
    out = applyReplacements text (dedupReplacements (findReplacements text parse renameByDecl)) ∧
      (renameParsed index text parse renameByDecl).edits =
        (dedupReplacements (findReplacements text parse renameByDecl)).reverse.map replacementEdit := by
  simp only [renameParsed] at written ⊢
  split at written
  · cases written
  · next found =>
    rw [if_neg found]
    exact ⟨(Option.some.inj written).symm, rfl⟩

/-- What is replaced in a target could have been replaced by the pipeline itself when this holds of every
reference that spells an old name.  The converse holds as long as references that overlap agree. -/
theorem propagation_permitted_iff (decisions : FileDecisions) {out : Text}
    (written : (applySemanticRenameTarget index path pendingText renameByDecl parser fileIo).pendingText = some out) :
    ∃ text parse, startText fileIo path pendingText = .ok text ∧ parser.parseClang text path = .ok parse ∧
      ∃ replaced, Renamed text replaced out ∧
        (applySemanticRenameTarget index path pendingText renameByDecl parser fileIo).edits =
          replaced.reverse.map replacementEdit ∧
        ((∀ candidate ∈ findReplacements text parse renameByDecl, Permitted decisions text candidate) →
          ∀ replacement ∈ replaced, Permitted decisions text replacement) ∧
        ((∀ inner ∈ findReplacements text parse renameByDecl, ∀ outer ∈ findReplacements text parse renameByDecl,
            StartsInside inner outer → Permitted decisions text outer → Permitted decisions text inner) →
          ((∀ replacement ∈ replaced, Permitted decisions text replacement) ↔
            ∀ candidate ∈ findReplacements text parse renameByDecl, Permitted decisions text candidate)) := by
  obtain ⟨text, parse, readable, parsed, outcome⟩ :=
    applySemanticRenameTarget_pendingText index path pendingText renameByDecl parser fileIo written
  rw [outcome] at written ⊢
  obtain ⟨rfl, edits⟩ := renameParsed_pendingText index renameByDecl written
  have sufficient : (∀ candidate ∈ findReplacements text parse renameByDecl, Permitted decisions text candidate) →
      ∀ replacement ∈ dedupReplacements (findReplacements text parse renameByDecl),
        Permitted decisions text replacement := by
    intro permitted replacement kept
    exact permitted replacement (keepDisjoint_subset kept)
  refine ⟨text, parse, readable, parsed, dedupReplacements (findReplacements text parse renameByDecl),
    applyReplacements_renamed text parse renameByDecl, edits, sufficient, ?_⟩
  intro agree
  refine ⟨?_, sufficient⟩
  intro permitted candidate found
  obtain ⟨kept, member, before, covers⟩ := dedupReplacements_covers text parse renameByDecl found
  cases covers with
  | inl same => exact same ▸ permitted kept member
  | inr inside => exact agree candidate found kept (keepDisjoint_subset member) ⟨before, inside⟩ (permitted kept member)

end

/-! ## A line that is disabled for naming conventions -/

def badNameDecl : ClangDeclKey := { path := "a.cpp", line := 1, column := 5, kind := 9 }

/-- A parse that knows one reference. -/
def parserWithReference (offset : Nat) : ProjectParser where
  hasExactCompdb _ := true
  semanticCompdbKind _ := .exact
  parseClang _ _ := .ok ⟨fun decl => if decl = badNameDecl then [offset] else []⟩

def badNamePlan : SemanticRenamePlan where
  decl := badNameDecl
  oldName := "BadName".toList
  newName := "bad_name".toList

/-- A file that its own run has left as it was, with the plan for a declaration. -/
def resultWithPlan (path : String) : FileResult where
  path := path
  backupPath := none
  outcome := { changed := false, pendingText := none, renamePlans := [badNamePlan], edits := [] }
  error := none
  warnings := []

def fileWith (text : Text) : FileIo where
  readText _ := .ok text
  writeText _ _ := .ok none

def hashOrderAsIs : HashOrder := ⟨id, fun _ => .refl _⟩

/-- The name is replaced on a line that is disabled for naming conventions. -/
theorem disabledLine_renamed :
    ∃ (text out : Text) (candidate : Replacement),
      (applyProjectWideSemanticRenames (fun _ => 0.0821) hashOrderAsIs (fileWith text) (parserWithReference 4) 1
        [resultWithPlan "a.cpp"]).map (fun result => result.outcome.pendingText) = [some out] ∧
      applySemanticRenameTarget 0 "a.cpp" none [(badNameDecl, "BadName".toList, "bad_name".toList)]
        (parserWithReference 4) (fileWith text) =
        { index := 0, pendingText := some out, edits := [replacementEdit candidate], error := none
          warning := some "naming_conventions: applied project-wide semantic reference updates" } ∧
      out = "int bad_name; // mjf:ignore naming_conventions\n".toList ∧
      candidate.line ∈ PolicySuppression.disabledLines text "naming_conventions" :=
  ⟨"int BadName; // mjf:ignore naming_conventions\n".toList, "int bad_name; // mjf:ignore naming_conventions\n".toList,
    occurrence "int BadName; // mjf:ignore naming_conventions\n".toList
      (badNameDecl, "BadName".toList, "bad_name".toList) 4,
    by decide +kernel, by decide +kernel, rfl, by decide +kernel⟩

/-- On an enabled line the replacement is one that the pipeline could have made. -/
theorem enabledLine_permitted :
    ∃ replaced, Renamed "int BadName;\n".toList replaced "int bad_name;\n".toList ∧
      ∀ replacement ∈ replaced, Permitted ⟨[], fun _ => False⟩ "int BadName;\n".toList replacement := by
  obtain ⟨text, parse, readable, parsed, replaced, renamed, _, permitted, _⟩ :=
    propagation_permitted_iff 0 "a.cpp" none [(badNameDecl, "BadName".toList, "bad_name".toList)]
      (parserWithReference 4) (fileWith "int BadName;\n".toList) ⟨[], fun _ => False⟩
      (by decide +kernel : _ = some "int bad_name;\n".toList)
  cases readable
  cases parsed
  refine ⟨replaced, renamed, permitted ?_⟩
  intro candidate found
  have enabled : PolicySuppression.disabledLines "int BadName;\n".toList "naming_conventions" = ∅ := by
    decide +kernel
  refine ⟨?_, by simp, by simp⟩
  rw [enabled]
  exact Finset.notMem_empty _

end MjFormatter.Verified
