import MjFormatter.Library.CommentModes
import MjFormatter.Policy.IncludeGuards
import MjFormatter.Verified.JoinedLines
import MjFormatter.Verified.TrimmedLines

/-! # Where include guards go

The pragma goes behind the lines at the top that look like comments.  It is in its place if these lines are comments, with their
ends; the guard is if no comment is open at the end.  Both are there to stay if the grammar finds them in the new text. -/

namespace MjFormatter.Verified

open IncludeGuardsPolicy Library.CommentModes

/-! ## The grammar -/

/-- The parser of C++: the directives of a text, whether a line with its end is read as `#pragma once`, and whether lines are read
as the content of a conditional. -/
structure GuardGrammar where
  parse : Text → GuardTree
  readsOnce : Text → Text → Bool
  isContent : List Text → Bool

/-- One of the lines is read as `#pragma once`; the last one has an end if the text is closed. -/
def HasOnceLine (readsOnce : Text → Text → Bool) (eol : Text) (closed : Bool) : Mode → List Text → Prop
  | _, [] => False
  | mode, line :: back =>
    (mode = .code ∧ readsOnce line (if back = [] ∧ ¬closed then [] else eol) = true) ∨
      HasOnceLine readsOnce eol closed (readLine mode line).mode back

instance (readsOnce : Text → Text → Bool) (eol : Text) (closed : Bool) :
    ∀ mode lines, Decidable (HasOnceLine readsOnce eol closed mode lines)
  | _, [] => isFalse id
  | mode, line :: back =>
    haveI := instDecidableHasOnceLine readsOnce eol closed (readLine mode line).mode back
    inferInstanceAs (Decidable (_ ∨ _))

/-- Comments and white space, and no comment is left open. -/
structure ClearFront (front : List Text) : Prop where
  closed : AtLineStart front
  preamble : isPreamble .code front = true

/-! ## What the policy is to keep -/

/-- Whether there is a tree at all, and a compiled query. -/
structure GuardTools where
  hasTree : Bool
  queryCompiles : Bool

def GuardGrammar.view (grammar : GuardGrammar) (tools : GuardTools) (semantic : Bool) (isSafeGlobal : Nat → Bool) (text : Text) :
    GuardView where
  semantic := semantic
  isSafeGlobal := isSafeGlobal
  tree := if tools.hasTree then some (grammar.parse text) else none
  queryCompiles := tools.queryCompiles

/-- The pragma stands behind comments that are closed, and the guard around all the lines, its end outside of comments. -/
structure GuardsPlaced (text : Text) (state : GuardState) : Prop where
  pragma : ∀ edit ∈ state.edits, edit.after = pragmaLine → ∃ front back, splitLinesCow text = front ++ back ∧
    edit.line = front.length + 1 ∧ (front ++ pragmaLine :: back).Sublist state.lines ∧ ClearFront front
  guard : ∀ edit ∈ state.edits, edit.after ≠ pragmaLine → ∃ inner footer, state.lines = edit.after :: inner ++ [footer] ∧
    (splitLinesCow text).Sublist inner ∧ AtLineStart (edit.after :: inner)

/-! ## What a run does -/

section
variable (policy : IncludeGuardsPolicy) (pathStr : Text) (view : GuardView) (text : Text)

def addsPragma : Bool :=
  policy.wantsPragma && !hasPragmaOnce view.tree view.queryCompiles &&
    view.isSafeGlobal (findTopInsert (splitLinesCow text) + 1)

def addsGuard : Bool :=
  policy.wantsGuard && !hasIncludeGuard view.tree && view.isSafeGlobal 1 &&
    view.isSafeGlobal (max ((splitLinesCow text).length + if addsPragma policy view text then 1 else 0) 1)

/-- The lines at the top that are blank or look like comments. -/
def topLines : List Text := (splitLinesCow text).takeWhile isSkipped

def restLines : List Text := (splitLinesCow text).dropWhile isSkipped

/-- The lines with the pragma in its place, if it is added. -/
def pragmaLines (pragma : Bool) : List Text :=
  if pragma then topLines text ++ pragmaLine :: restLines text else splitLinesCow text

/-- And with the guard around them, if that is added. -/
def outputLines (pragma guard : Bool) : List Text :=
  if guard then guarded (deriveMacro pathStr) (pragmaLines text pragma) else pragmaLines text pragma

def outputText (pragma guard : Bool) : Text :=
  joinLines (outputLines pathStr text pragma guard) (detectLineEnding text).toList (endsWithFeed text)

def pragmaEdit : Edit := ⟨.includeGuards, (topLines text).length + 1, [], pragmaLine⟩

def guardEdit : Edit := ⟨.includeGuards, 1, [], ifndefLine (deriveMacro pathStr)⟩

theorem topLines_append_restLines : topLines text ++ restLines text = splitLinesCow text := List.takeWhile_append_dropWhile

theorem findTopInsert_eq (lines : List Text) : findTopInsert lines = (lines.takeWhile isSkipped).length := by
  induction lines with
  | nil => rfl
  | cons line lines inductionHypothesis =>
    rw [findTopInsert, List.takeWhile_cons, inductionHypothesis]
    split <;> rfl

theorem insertIdx_length (front back : List Text) (line : Text) :
    (front ++ back).insertIdx front.length line = front ++ line :: back := by
  induction front with
  | nil => rfl
  | cons first front inductionHypothesis =>
    rw [List.cons_append, List.length_cons, List.insertIdx_succ_cons, inductionHypothesis, List.cons_append]

theorem insertIdx_findTopInsert :
    (splitLinesCow text).insertIdx (findTopInsert (splitLinesCow text)) pragmaLine =
      topLines text ++ pragmaLine :: restLines text := by
  nth_rewrite 1 [← topLines_append_restLines text]
  rw [findTopInsert_eq]
  exact insertIdx_length _ _ _

theorem applyPragma_spec :
    let state := policy.applyPragma view ⟨splitLinesCow text, [], [], 0⟩
    state.lines = pragmaLines text (addsPragma policy view text) ∧
      state.edits = if addsPragma policy view text then [pragmaEdit text] else [] := by
  have place : findTopInsert (splitLinesCow text) = (topLines text).length := findTopInsert_eq _
  dsimp only
  rw [pragmaLines, addsPragma, applyPragma]
  dsimp only
  rw [insertIdx_findTopInsert, pragmaEdit, place]
  cases policy.wantsPragma && !hasPragmaOnce view.tree view.queryCompiles with
  | false => exact ⟨rfl, rfl⟩
  | true =>
    cases view.isSafeGlobal ((topLines text).length + 1) with
    | false => exact ⟨rfl, rfl⟩
    | true => exact ⟨rfl, rfl⟩

theorem length_pragmaLines : (pragmaLines text (addsPragma policy view text)).length =
    (splitLinesCow text).length + if addsPragma policy view text then 1 else 0 := by
  rw [pragmaLines]
  split
  · rw [List.length_append, List.length_cons, ← Nat.add_assoc, ← List.length_append, topLines_append_restLines]
  · rfl

/-- The lines as the policy leaves them. -/
theorem applyGuards_spec :
    let state := policy.applyGuards pathStr view text
    state.lines = outputLines pathStr text (addsPragma policy view text) (addsGuard policy view text) ∧
      state.edits = (if addsPragma policy view text then [pragmaEdit text] else []) ++
        if addsGuard policy view text then [guardEdit pathStr] else [] := by
  obtain ⟨lines, edits⟩ := applyPragma_spec policy view text
  dsimp only
  rw [← edits, outputLines, ← lines, applyGuards, applyGuard, addsGuard, ← length_pragmaLines, ← lines]
  cases policy.wantsGuard && !hasIncludeGuard view.tree with
  | false => exact ⟨rfl, (List.append_nil _).symm⟩
  | true =>
    cases view.isSafeGlobal 1 with
    | false => exact ⟨rfl, (List.append_nil _).symm⟩
    | true =>
      cases view.isSafeGlobal (max (policy.applyPragma view ⟨splitLinesCow text, [], [], 0⟩).lines.length 1) with
      | false => exact ⟨rfl, (List.append_nil _).symm⟩
      | true => exact ⟨rfl, rfl⟩

theorem guards_changed_iff :
    (policy.apply pathStr view text).changed = true ↔
      policy.isHeader pathStr = true ∧ view.semantic = true ∧ (addsPragma policy view text = true ∨ addsGuard policy view text = true) := by
  have edits := (applyGuards_spec policy pathStr view text).2
  rw [apply]
  cases policy.isHeader pathStr with
  | false => simp [PolicyResult.unchanged]
  | true =>
    cases view.semantic with
    | false => simp [PolicyResult.unchanged, PolicyResult.warn]
    | true =>
      rw [Bool.not_true, if_neg Bool.false_ne_true, if_neg Bool.false_ne_true]
      dsimp only
      rw [edits]
      cases addsPragma policy view text with
      | true => simp
      | false =>
        cases addsGuard policy view text with
        | true => simp
        | false => simp [PolicyResult.unchanged]

theorem guards_text (changed : (policy.apply pathStr view text).changed = true) :
    (policy.apply pathStr view text).text = outputText pathStr text (addsPragma policy view text) (addsGuard policy view text) := by
  obtain ⟨header, semantic, _⟩ := (guards_changed_iff policy pathStr view text).mp changed
  rw [apply, header, semantic, Bool.not_true, if_neg Bool.false_ne_true, if_neg Bool.false_ne_true] at changed ⊢
  dsimp only at changed ⊢
  split at changed
  · cases changed
  · next other => rw [if_neg other, (applyGuards_spec policy pathStr view text).1, outputText]

end

/-! ## What the grammar is relied on for -/

/-- How the parser reads the texts that the policy may write in place of this one. -/
structure GuardGrammar.Documented (grammar : GuardGrammar) (pathStr text : Text) : Prop where
  /-- A pragma is a line of code of its own. -/
  once : ∀ pragma guard : Bool, pragma = true ∨ guard = true → (pragma = true → ClearFront (topLines text)) →
    (pragmaOnceCall ∈ (grammar.parse (outputText pathStr text pragma guard)).preprocCalls ↔
      HasOnceLine grammar.readsOnce (detectLineEnding text).toList (endsWithFeed text) .code (outputLines pathStr text pragma guard))
  /-- Comments and other directives are no pragmas. -/
  comment : ∀ line ending, (readLine .code line).code = false → grammar.readsOnce line ending = false
  directive : ∀ guardName ending, ∀ line ∈ [ifndefLine guardName, defineLine guardName, endifLine guardName],
    grammar.readsOnce line ending = false
  /-- The lines in a guard are its content. -/
  section_content : ∀ pragma : Bool, (pragma = true → ClearFront (topLines text)) →
    hasIncludeGuardTs (grammar.parse (outputText pathStr text pragma true)) = grammar.isContent (pragmaLines text pragma)
  /-- A pragma behind comments makes no difference to what follows. -/
  section_pragma : ClearFront (topLines text) →
    hasIncludeGuardTs (grammar.parse (outputText pathStr text true false)) = hasIncludeGuardTs (grammar.parse text)
  content_pragma : ClearFront (topLines text) →
    grammar.isContent (pragmaLines text true) = grammar.isContent (splitLinesCow text)

/-! ## What the policy is to keep -/

variable (grammar : GuardGrammar) (tools : GuardTools) (policy : IncludeGuardsPolicy) (pathStr : Text) (semantic : Bool)
  (isSafeGlobal : Nat → Bool) (text : Text)

/-- The guards are in their places, and another run changes nothing, whatever the semantics of the new text are. -/
def KeepsGuards : Prop :=
  let view := grammar.view tools semantic isSafeGlobal text
  let result := policy.apply pathStr view text
  result.changed = true → GuardsPlaced text (policy.applyGuards pathStr view text) ∧
    ∀ (semanticAgain : Bool) (isSafeAgain : Nat → Bool),
      (policy.apply pathStr (grammar.view tools semanticAgain isSafeAgain result.text) result.text).changed = false

/-! ## When it does -/

/-- The pragma is found again: it is put in and read with its end, or it is there already. -/
def PragmaFound (pragma guard : Bool) : Prop :=
  let eol := (detectLineEnding text).toList
  tools.hasTree ∧ tools.queryCompiles ∧
    ((pragma ∧ grammar.readsOnce pragmaLine
        (if restLines text = [] ∧ ¬endsWithFeed text ∧ ¬guard then [] else eol) = true) ∨
      HasOnceLine grammar.readsOnce eol (endsWithFeed text || guard) .code (splitLinesCow text))

def GuardFound (guard : Bool) : Prop :=
  tools.hasTree ∧
    if guard then grammar.isContent (splitLinesCow text) else hasIncludeGuardTs (grammar.parse text)

def GuardsHold : Prop :=
  let pragma := addsPragma policy (grammar.view tools semantic isSafeGlobal text) text
  let guard := addsGuard policy (grammar.view tools semantic isSafeGlobal text) text
  policy.isHeader pathStr ∧ semantic ∧ (pragma ∨ guard) →
    (pragma → ClearFront (topLines text)) ∧ (guard → AtLineStart (padded (splitLinesCow text))) ∧
      (policy.wantsPragma → PragmaFound grammar tools text pragma guard) ∧
      (policy.wantsGuard → GuardFound grammar tools text guard)

/-! ## Another run -/

/-- Another run changes nothing exactly if it finds all that is wanted. -/
theorem unchangedAgain_iff (header : policy.isHeader pathStr = true) (text : Text) :
    (∀ (semanticAgain : Bool) (isSafeAgain : Nat → Bool),
      (policy.apply pathStr (grammar.view tools semanticAgain isSafeAgain text) text).changed = false) ↔
      (policy.wantsPragma = true →
        hasPragmaOnce (if tools.hasTree then some (grammar.parse text) else none) tools.queryCompiles = true) ∧
      (policy.wantsGuard = true → hasIncludeGuard (if tools.hasTree then some (grammar.parse text) else none) = true) := by
  constructor
  · intro unchanged
    have again := Bool.eq_false_iff.mp (unchanged true fun _ => true)
    rw [Ne, guards_changed_iff, header] at again
    simp only [GuardGrammar.view, addsPragma, addsGuard, true_and, Bool.and_true, not_or, Bool.and_eq_true, Bool.not_eq_true',
      not_and, Bool.not_eq_false] at again
    exact again
  · rintro ⟨pragma, guard⟩ semanticAgain isSafeAgain
    rw [Bool.eq_false_iff, Ne, guards_changed_iff]
    rintro ⟨_, _, adds⟩
    cases adds with
    | inl addsOne =>
      rw [addsPragma, Bool.and_eq_true, Bool.and_eq_true, Bool.not_eq_true'] at addsOne
      exact absurd (pragma addsOne.1.1) (Bool.eq_false_iff.mp addsOne.1.2)
    | inr addsOne =>
      rw [addsGuard, Bool.and_eq_true, Bool.and_eq_true, Bool.and_eq_true, Bool.not_eq_true'] at addsOne
      exact absurd (guard addsOne.1.1.1) (Bool.eq_false_iff.mp addsOne.1.1.2)

/-! ## Lines that are read as a pragma -/

section
variable {readsOnce : Text → Text → Bool} {eol : Text}

theorem hasOnceLine_append (closed : Bool) (mode : Mode) (front back : List Text) :
    HasOnceLine readsOnce eol closed mode (front ++ back) ↔
      HasOnceLine readsOnce eol (closed || !back.isEmpty) mode front ∨
        HasOnceLine readsOnce eol closed (modeFrom mode front) back := by
  induction front generalizing mode with
  | nil => simp [HasOnceLine, modeFrom]
  | cons line front inductionHypothesis =>
    have ends : (front ++ back = [] ∧ ¬closed = true) ↔ (front = [] ∧ ¬(closed || !back.isEmpty) = true) := by
      rw [List.append_eq_nil_iff, Bool.or_eq_true, not_or, Bool.not_eq_true', Bool.not_eq_false, List.isEmpty_iff]
      tauto
    rw [List.cons_append, HasOnceLine, HasOnceLine, inductionHypothesis, modeFrom_cons, or_assoc]
    simp only [ends]

theorem not_hasOnceLine_preamble (comment : ∀ line ending, (readLine .code line).code = false → readsOnce line ending = false)
    {closed : Bool} {mode : Mode} {front : List Text} (preamble : isPreamble mode front = true) :
    ¬HasOnceLine readsOnce eol closed mode front := by
  induction front generalizing mode with
  | nil => exact id
  | cons line front inductionHypothesis =>
    rw [isPreamble, Bool.and_eq_true, Bool.not_eq_true'] at preamble
    rintro (⟨rfl, once⟩ | later)
    · rw [comment line _ preamble.1] at once
      cases once
    · exact inductionHypothesis preamble.2 later

end

/-! ## The lines of a guard -/

theorem isAlphanum_toUpper {symbol : Char} (isWord : symbol.isAlphanum = true) : symbol.toUpper.isAlphanum = true := by
  delta Char.toUpper
  split
  · next lower =>
    have large : 97 ≤ symbol.toNat := UInt32.le_iff_toNat_le.mp lower.1
    have small : symbol.toNat ≤ 122 := UInt32.le_iff_toNat_le.mp lower.2
    have code : (symbol.val + ('A'.val - 'a'.val)).toNat = symbol.toNat - 32 := by
      rw [UInt32.toNat_add]
      change (symbol.toNat + 4294967264) % 4294967296 = symbol.toNat - 32
      omega
    have upper : 'A'.val ≤ symbol.val + ('A'.val - 'a'.val) ∧ symbol.val + ('A'.val - 'a'.val) ≤ 'Z'.val := by
      rw [UInt32.le_iff_toNat_le, UInt32.le_iff_toNat_le, code]
      change 65 ≤ symbol.toNat - 32 ∧ symbol.toNat - 32 ≤ 90
      omega
    have isUpper : ∀ valid, Char.isUpper ⟨symbol.val + ('A'.val - 'a'.val), valid⟩ = true := fun _ => decide_eq_true upper
    delta Char.isAlphanum Char.isAlpha
    rw [isUpper]
    rfl
  · exact isWord

theorem isWordSymbol_toUpper {symbol : Char} (isWord : symbol.isAlphanum = true) : isWordSymbol symbol.toUpper = true := by
  rw [isWordSymbol, isAlphanum_toUpper isWord, Bool.true_or]

theorem mem_macroSymbols {path : Text} {lastSep : Bool} {symbol : Char} (member : symbol ∈ macroSymbols lastSep path) :
    isWordSymbol symbol = true := by
  induction path generalizing lastSep with
  | nil => cases member
  | cons ch path inductionHypothesis =>
    rw [macroSymbols] at member
    split at member
    · next isWord =>
      cases member with
      | head => exact isWordSymbol_toUpper isWord
      | tail _ later => exact inductionHypothesis later
    · split at member
      · exact inductionHypothesis member
      · cases member with
        | head => decide
        | tail _ later => exact inductionHypothesis later

/-- Letters, digits and underscores. -/
def WordText (value : Text) : Prop := ∀ symbol ∈ value, isWordSymbol symbol = true

theorem WordText.append {front back : Text} (first : WordText front) (second : WordText back) : WordText (front ++ back) := by
  intro symbol member
  cases List.mem_append.mp member with
  | inl here => exact first symbol here
  | inr here => exact second symbol here

theorem wordText_ite {condition : Prop} [Decidable condition] {yes no : Text} (first : WordText yes) (second : WordText no) :
    WordText (if condition then yes else no) := by
  split
  · exact first
  · exact second

theorem wordText_deriveMacro (path : Text) : WordText (deriveMacro path) := by
  have trimmed : WordText (trimSeparators (macroSymbols false path)) := by
    intro symbol member
    rw [trimSeparators, List.mem_reverse] at member
    have later := List.mem_reverse.mp ((List.dropWhile_sublist _).mem member)
    exact mem_macroSymbols ((List.dropWhile_sublist _).mem later)
  have header : WordText "HEADER".toList := by
    unfold WordText
    decide
  have digit : WordText "H_".toList := by
    unfold WordText
    decide
  have separator : WordText ['_'] := by
    unfold WordText
    decide
  rw [deriveMacro]
  refine wordText_ite ?_ (WordText.append ?_ separator)
  · exact wordText_ite (digit.append (wordText_ite header trimmed)) (wordText_ite header trimmed)
  · exact wordText_ite (digit.append (wordText_ite header trimmed)) (wordText_ite header trimmed)

theorem plain_of_word {symbol : Char} (isWord : isWordSymbol symbol = true) : IsPlain symbol := by
  have foreign : ∀ symbol ∈ ['/', '"', '\'', '\\'], isWordSymbol symbol = false := by decide
  intro member
  exact absurd isWord (by simp [foreign symbol member])

/-- A directive with the name of the guard is a line of its own. -/
theorem readLine_directive {directive path : Text} (plain : ∀ symbol ∈ directive, IsPlain symbol) :
    (readLine .code (directive ++ deriveMacro path)).mode = .code := by
  refine readLine_plain fun symbol member => ?_
  cases List.mem_append.mp member with
  | inl here => exact plain symbol here
  | inr here => exact plain_of_word (wordText_deriveMacro path symbol here)

theorem readLine_ifndefLine (path : Text) : (readLine .code (ifndefLine (deriveMacro path))).mode = .code :=
  readLine_directive (by unfold IsPlain; decide)

theorem readLine_defineLine (path : Text) : (readLine .code (defineLine (deriveMacro path))).mode = .code :=
  readLine_directive (by unfold IsPlain; decide)

theorem readLine_pragmaLine : (readLine .code pragmaLine).mode = .code := by
  have plain : ∀ symbol ∈ "#pragma once".toList, symbol ∉ ['/', '"', '\'', '\\'] := by decide
  exact readLine_plain plain

/-! ## The modes of the new lines -/

theorem isLast_blank_nil (lines : List Text) : padded lines = lines ∨ padded lines = lines ++ [[]] := by
  rw [padded]
  split
  · exact .inl rfl
  · exact .inr rfl

theorem padded_append {back : List Text} (shown : back ≠ []) (front : List Text) : padded (front ++ back) = front ++ padded back := by
  rw [padded, padded, List.getLast?_append_of_ne_nil _ shown]
  split
  · rfl
  · exact List.append_assoc ..

theorem atLineStart_append {front : List Text} (start : AtLineStart front) (back : List Text) :
    AtLineStart (front ++ back) ↔ AtLineStart back := by
  rw [AtLineStart, modeFrom_append, start, AtLineStart]

theorem atLineStart_padded {lines : List Text} (start : AtLineStart lines) : AtLineStart (padded lines) := by
  cases isLast_blank_nil lines with
  | inl same => rwa [same]
  | inr more => rw [more, atLineStart_append start]; rfl

theorem atLineStart_pragma : AtLineStart [pragmaLine] := readLine_pragmaLine

theorem atLineStart_guard (path : Text) : AtLineStart [ifndefLine (deriveMacro path), defineLine (deriveMacro path)] := by
  rw [AtLineStart, modeFrom_cons, readLine_ifndefLine, modeFrom_cons, readLine_defineLine]
  rfl

/-- A blank last line, and nothing else, makes the difference that a pragma in front of it makes none. -/
theorem atLineStart_padded_pragma {front back : List Text} (clear : ClearFront front) :
    AtLineStart (padded (front ++ pragmaLine :: back)) ↔ AtLineStart (padded (front ++ back)) := by
  have behind : AtLineStart (front ++ [pragmaLine]) := (atLineStart_append clear.closed _).mpr atLineStart_pragma
  cases back with
  | nil =>
    rw [List.append_nil]
    exact iff_of_true (atLineStart_padded behind) (atLineStart_padded clear.closed)
  | cons line back =>
    rw [show front ++ pragmaLine :: line :: back = (front ++ [pragmaLine]) ++ (line :: back) by simp,
      padded_append (List.cons_ne_nil _ _), padded_append (List.cons_ne_nil _ _), atLineStart_append behind,
      atLineStart_append clear.closed]

theorem guarded_eq (path : Text) (lines : List Text) : guarded (deriveMacro path) lines =
    [ifndefLine (deriveMacro path), defineLine (deriveMacro path)] ++ (padded lines ++ [endifLine (deriveMacro path)]) := by
  have inner : padded (ifndefLine (deriveMacro path) :: defineLine (deriveMacro path) :: lines) =
      [ifndefLine (deriveMacro path), defineLine (deriveMacro path)] ++ padded lines := by
    by_cases empty : lines = []
    · subst empty
      have shown : trim (defineLine (deriveMacro path)) ≠ [] := trim_cons_ne_nil (by decide) _
      simp [padded, shown]
    · exact padded_append empty [_, _]
  rw [guarded, inner, List.append_assoc]

/-! ## What another run finds -/

section
variable {grammar pathStr text} (documented : grammar.Documented pathStr text)

include documented

theorem not_readsOnce_blank (ending : Text) : grammar.readsOnce [] ending = false := documented.comment [] ending rfl

theorem hasOnceLine_padded (eol : Text) (lines : List Text) (closed : Bool) (mode : Mode) :
    HasOnceLine grammar.readsOnce eol (closed || true) mode (padded lines) ↔ HasOnceLine grammar.readsOnce eol true mode lines := by
  rw [Bool.or_true]
  cases isLast_blank_nil lines with
  | inl same => rw [same]
  | inr more =>
    rw [more, hasOnceLine_append]
    simp [HasOnceLine, not_readsOnce_blank documented]

/-- The lines of a guard are none that is read as a pragma, and they close the lines inside. -/
theorem hasOnceLine_guarded (path eol : Text) (lines : List Text) (trailing : Bool) :
    HasOnceLine grammar.readsOnce eol trailing .code (guarded (deriveMacro path) lines) ↔
      HasOnceLine grammar.readsOnce eol true .code lines := by
  have none : ∀ line ∈ [ifndefLine (deriveMacro path), defineLine (deriveMacro path), endifLine (deriveMacro path)],
      ∀ ending, grammar.readsOnce line ending = false := fun line member ending =>
    documented.directive (deriveMacro path) ending line member
  have first := none (ifndefLine (deriveMacro path)) (by simp)
  have second := none (defineLine (deriveMacro path)) (by simp)
  have last := none (endifLine (deriveMacro path)) (by simp)
  have start := atLineStart_guard path
  rw [guarded_eq, hasOnceLine_append, hasOnceLine_append, start]
  rw [show (trailing || !([endifLine (deriveMacro path)] : List Text).isEmpty) = (trailing || true) from rfl,
    hasOnceLine_padded documented]
  simp [HasOnceLine, first, second, last]

/-- With the pragma behind comments, it is the pragma that is read or a line that has been there. -/
theorem hasOnceLine_pragma (eol : Text) {front back : List Text} (clear : ClearFront front) (closed : Bool) :
    HasOnceLine grammar.readsOnce eol closed .code (front ++ pragmaLine :: back) ↔
      grammar.readsOnce pragmaLine (if back = [] ∧ ¬closed then [] else eol) = true ∨
        HasOnceLine grammar.readsOnce eol closed .code (front ++ back) := by
  have noFront : ∀ closed, ¬HasOnceLine grammar.readsOnce eol closed .code front := fun _ =>
    not_hasOnceLine_preamble documented.comment clear.preamble
  rw [hasOnceLine_append, hasOnceLine_append, clear.closed, HasOnceLine, readLine_pragmaLine]
  simp [noFront]

end

/-- A run that adds something, the pragma behind comments. -/
structure Added (pragma guard : Bool) : Prop where
  adds : pragma = true ∨ guard = true
  clear : pragma = true → ClearFront (topLines text)

section
variable {grammar tools pathStr text} {pragma guard : Bool} (documented : grammar.Documented pathStr text)
  (added : Added text pragma guard)

include documented added

theorem pragmaFound_iff :
    hasPragmaOnce (if tools.hasTree then some (grammar.parse (outputText pathStr text pragma guard)) else none)
      tools.queryCompiles = true ↔ PragmaFound grammar tools text pragma guard := by
  have inner : HasOnceLine grammar.readsOnce (detectLineEnding text).toList (endsWithFeed text) .code
      (outputLines pathStr text pragma guard) ↔
      HasOnceLine grammar.readsOnce (detectLineEnding text).toList (endsWithFeed text || guard) .code (pragmaLines text pragma) := by
    rw [outputLines]
    cases guard with
    | true => rw [if_pos rfl, hasOnceLine_guarded documented, Bool.or_true]
    | false => rw [if_neg Bool.false_ne_true, Bool.or_false]
  have whole : HasOnceLine grammar.readsOnce (detectLineEnding text).toList (endsWithFeed text || guard) .code
      (pragmaLines text pragma) ↔
      (pragma = true ∧ grammar.readsOnce pragmaLine
        (if restLines text = [] ∧ ¬endsWithFeed text ∧ ¬guard then [] else (detectLineEnding text).toList) = true) ∨
      HasOnceLine grammar.readsOnce (detectLineEnding text).toList (endsWithFeed text || guard) .code (splitLinesCow text) := by
    rw [pragmaLines]
    cases isPragma : pragma with
    | false => simp
    | true =>
      rw [if_pos rfl, hasOnceLine_pragma documented _ (added.clear isPragma), topLines_append_restLines]
      simp only [true_and, Bool.or_eq_true, not_or]
  rw [PragmaFound, ← whole, ← inner, ← documented.once pragma guard added.adds added.clear]
  cases tools.hasTree with
  | false => simp [hasPragmaOnce]
  | true => simp [hasPragmaOnce]

theorem guardFound_iff :
    hasIncludeGuard (if tools.hasTree then some (grammar.parse (outputText pathStr text pragma guard)) else none) = true ↔
      GuardFound grammar tools text guard := by
  have same : hasIncludeGuardTs (grammar.parse (outputText pathStr text pragma guard)) =
      if guard then grammar.isContent (splitLinesCow text) else hasIncludeGuardTs (grammar.parse text) := by
    cases isGuard : guard with
    | true =>
      rw [if_pos rfl, documented.section_content pragma added.clear]
      cases isPragma : pragma with
      | true => exact documented.content_pragma (added.clear isPragma)
      | false => rfl
    | false =>
      have isPragma : pragma = true := added.adds.resolve_right (by simp [isGuard])
      rw [if_neg Bool.false_ne_true, isPragma]
      exact documented.section_pragma (added.clear isPragma)
  rw [GuardFound, ← same]
  cases tools.hasTree with
  | false => simp [hasIncludeGuard]
  | true => simp [hasIncludeGuard]

end

/-! ## The places -/

theorem ifndefLine_ne_pragmaLine (name : Text) : ifndefLine name ≠ pragmaLine := by
  intro same
  have first : (ifndefLine name)[1]? = some 'i' := rfl
  have second : pragmaLine[1]? = some 'p' := rfl
  rw [same, second, Option.some.injEq] at first
  exact absurd first (by decide)

theorem guardsPlaced_iff {view : GuardView} :
    GuardsPlaced text (policy.applyGuards pathStr view text) ↔
      (addsPragma policy view text = true → ClearFront (topLines text)) ∧
        (addsGuard policy view text = true → AtLineStart (padded (pragmaLines text (addsPragma policy view text)))) := by
  obtain ⟨lines, edits⟩ := applyGuards_spec policy pathStr view text
  have whole := topLines_append_restLines text
  have inPadded : ∀ lines : List Text, lines.Sublist (padded lines) := by
    intro lines
    cases isLast_blank_nil lines with
    | inl same => rw [same]
    | inr more => exact more ▸ List.sublist_append_left _ _
  have inGuarded : ∀ lines : List Text, lines.Sublist (guarded (deriveMacro pathStr) lines) := by
    intro lines
    rw [guarded_eq]
    exact ((inPadded lines).trans (List.sublist_append_left _ _)).trans (List.sublist_append_right _ _)
  have inPragma : (splitLinesCow text).Sublist (pragmaLines text (addsPragma policy view text)) := by
    rw [pragmaLines]
    split
    · nth_rewrite 1 [← whole]
      exact (List.Sublist.refl _).append (List.sublist_cons_self _ _)
    · exact List.Sublist.refl _
  have member : ∀ edit, edit ∈ (policy.applyGuards pathStr view text).edits ↔
      (addsPragma policy view text = true ∧ edit = pragmaEdit text) ∨
        (addsGuard policy view text = true ∧ edit = guardEdit pathStr) := by
    intro edit
    rw [edits, List.mem_append]
    cases addsPragma policy view text <;> cases addsGuard policy view text <;> simp
  constructor
  · intro placed
    constructor
    · intro pragma
      obtain ⟨front, back, split, line, _, clear⟩ := placed.pragma _ ((member _).mpr (.inl ⟨pragma, rfl⟩)) rfl
      have sameLength : (topLines text).length = front.length := Nat.succ.inj line
      have same : topLines text = front := List.append_inj_left (whole.trans split) sameLength
      rwa [same]
    · intro guard
      obtain ⟨inner, footer, split, _, start⟩ :=
        placed.guard _ ((member _).mpr (.inr ⟨guard, rfl⟩)) (ifndefLine_ne_pragmaLine _)
      rw [lines, outputLines, if_pos guard, guarded_eq, ← List.append_assoc] at split
      have same := List.append_inj_left' split rfl
      rw [← same] at start
      exact (atLineStart_append (atLineStart_guard pathStr) _).mp start
  · rintro ⟨pragma, guard⟩
    constructor
    · intro edit found after
      obtain ⟨adds, rfl⟩ | ⟨_, rfl⟩ := (member edit).mp found
      · refine ⟨topLines text, restLines text, whole.symm, rfl, ?_, pragma adds⟩
        have inner : topLines text ++ pragmaLine :: restLines text = pragmaLines text (addsPragma policy view text) := by
          rw [pragmaLines, if_pos adds]
        rw [inner, lines, outputLines]
        split
        · exact inGuarded _
        · exact List.Sublist.refl _
      · exact absurd after (ifndefLine_ne_pragmaLine _)
    · intro edit found after
      obtain ⟨_, rfl⟩ | ⟨adds, rfl⟩ := (member edit).mp found
      · exact absurd rfl after
      · refine ⟨defineLine (deriveMacro pathStr) :: padded (pragmaLines text (addsPragma policy view text)), endifLine (deriveMacro pathStr), ?_, ?_, ?_⟩
        · rw [lines, outputLines, if_pos adds, guarded_eq]
          rfl
        · exact (inPragma.trans (inPadded _)).trans (List.sublist_cons_self _ _)
        · exact (atLineStart_append (atLineStart_guard pathStr) _).mpr (guard adds)

/-! ## The guards as a whole -/

theorem atLineStart_padded_pragmaLines {pragma : Bool} (clear : pragma = true → ClearFront (topLines text)) :
    AtLineStart (padded (pragmaLines text pragma)) ↔ AtLineStart (padded (splitLinesCow text)) := by
  rw [pragmaLines]
  cases isPragma : pragma with
  | false => rw [if_neg Bool.false_ne_true]
  | true => rw [if_pos rfl, atLineStart_padded_pragma (clear isPragma), topLines_append_restLines]

/-- Reads directives line by line, and takes the name of a guard from its first line. -/
def lineGrammar : GuardGrammar where
  parse := fun text =>
    let once := HasOnceLine (fun line _ => line = pragmaLine) ['\n'] false .code (splitFeeds text)
    let name := ((splitFeeds text).headD []).drop (ifndefLine []).length
    { preprocCalls := if once then [pragmaOnceCall] else []
      rootChildren := if (ifndefLine []).isPrefixOf text then [⟨true, some name, [name]⟩] else [] }
  readsOnce := fun line _ => line = pragmaLine
  isContent := fun _ => true

def pragmaPolicy : IncludeGuardsPolicy := ⟨.pragmaOnce, [".hpp".toList]⟩

theorem lineGrammar_comment (line ending : Text) (comment : (readLine .code line).code = false) :
    lineGrammar.readsOnce line ending = false := by
  have isCode : (readLine .code pragmaLine).code = true := by decide +kernel
  refine decide_eq_false fun same => ?_
  rw [same, isCode] at comment
  cases comment

theorem lineGrammar_directive (guardName ending : Text) :
    ∀ row ∈ [ifndefLine guardName, defineLine guardName, endifLine guardName], lineGrammar.readsOnce row ending = false := by
  intro row member
  refine decide_eq_false fun same => ?_
  have second : row[1]? = some 'p' := by
    rw [same]
    rfl
  have other : ∀ row ∈ [ifndefLine guardName, defineLine guardName, endifLine guardName],
      row[1]? = some 'i' ∨ row[1]? = some 'd' ∨ row[1]? = some 'e' := by
    intro row member
    simp only [List.mem_cons, List.not_mem_nil, or_false] at member
    obtain rfl | rfl | rfl := member
    · exact .inl rfl
    · exact .inr (.inl rfl)
    · exact .inr (.inr rfl)
  have which := other row member
  rw [second] at which
  exact absurd which (by decide)

end MjFormatter.Verified
