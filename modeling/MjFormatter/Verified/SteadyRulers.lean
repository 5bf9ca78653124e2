import MjFormatter.Policy.DashComment
import MjFormatter.Verified.JoinedLines
import MjFormatter.Verified.TrimmedLines

/-! # Rulers that are normalised again

The length that a ruler gets depends on the length that it has.  A second run changes nothing if every ruler stands on the
same side of the threshold after the first one, or if the side makes no difference. -/

namespace MjFormatter.Verified

open DashCommentNormalizerPolicy

/-! ## Rulers -/

theorem titleLength_of_dash {line : Text} (dash : isDashComment line = true) : titleLength line = none := by
  rw [isDashComment, Bool.and_eq_true, Bool.and_eq_true] at dash
  rw [titleLength, if_pos dash.1.1, if_pos]
  have dashes : (trim ((trim line).drop 2)).all (· = '-') = true := by
    rw [List.all_eq_true]
    intro symbol member
    exact List.all_eq_true.mp dash.2 symbol (mem_of_mem_trim member)
  rw [dashes, Bool.or_true]

def rulerIndent (line : Text) : Text := line.takeWhile fun symbol => symbol = ' ' || symbol = '\t'

theorem mem_rulerIndent {line : Text} {symbol : Char} (member : symbol ∈ rulerIndent line) : symbol = ' ' ∨ symbol = '\t' := by
  simpa using List.mem_takeWhile_imp member

theorem blank_rulerIndent (line : Text) : Blank (rulerIndent line) := by
  intro symbol member
  cases mem_rulerIndent member with
  | inl space => rw [space]; decide
  | inr tab => rw [tab]; decide

/-- A ruler without its indentation. -/
def bareRuler (targetLen : Nat) : Text := commentStart ++ List.replicate (targetLen - 2) '-'

theorem rulerOf_eq (original : Text) (targetLen : Nat) : rulerOf original targetLen = rulerIndent original ++ bareRuler targetLen :=
  List.append_assoc ..

theorem rulerIndent_rulerOf (original : Text) (targetLen : Nat) : rulerIndent (rulerOf original targetLen) = rulerIndent original := by
  rw [rulerOf_eq]
  refine (List.takeWhile_append_of_pos fun symbol member => ?_).trans ?_
  · cases mem_rulerIndent member with
    | inl space => rw [space]; decide
    | inr tab => rw [tab]; decide
  · rw [bareRuler, commentStart, List.cons_append, List.takeWhile_cons_of_neg (by decide), List.append_nil]

theorem rulerOf_rulerOf (original : Text) (first second : Nat) :
    rulerOf (rulerOf original first) second = rulerOf original second := by
  rw [rulerOf_eq, rulerOf_eq original second, rulerIndent_rulerOf]

theorem exists_bareRuler_concat (targetLen : Nat) :
    ∃ front last, bareRuler targetLen = front ++ [last] ∧ (last = '/' ∨ last = '-') := by
  cases dashes : targetLen - 2 with
  | zero => exact ⟨['/'], '/', by rw [bareRuler, dashes]; rfl, .inl rfl⟩
  | succ count =>
    refine ⟨commentStart ++ List.replicate count '-', '-', ?_, .inr rfl⟩
    rw [bareRuler, dashes, List.replicate_succ', List.append_assoc]

theorem trim_rulerOf (original : Text) (targetLen : Nat) : trim (rulerOf original targetLen) = bareRuler targetLen := by
  rw [rulerOf_eq, trim_blank_append (blank_rulerIndent original), trim_eq]
  have start : trimStart (bareRuler targetLen) = bareRuler targetLen := trimStart_cons_of_visible (by decide) _
  obtain ⟨front, last, split, which⟩ := exists_bareRuler_concat targetLen
  rw [start, split]
  refine trimEnd_concat_of_visible front ?_
  cases which with
  | inl slash => rw [slash]; decide
  | inr dash => rw [dash]; decide

theorem byteLength_bareRuler {targetLen : Nat} (enough : 2 ≤ targetLen) : byteLength (bareRuler targetLen) = targetLen := by
  rw [bareRuler, byteLength_append, byteLength_replicate (targetLen - 2) rfl]
  exact Nat.add_sub_cancel' enough

theorem bareRuler_starts (targetLen : Nat) : commentStart.isPrefixOf (bareRuler targetLen) = true :=
  List.isPrefixOf_iff_prefix.mpr (List.prefix_append _ _)

theorem isDashComment_rulerOf (original : Text) {targetLen : Nat} (enough : 2 ≤ targetLen) :
    isDashComment (rulerOf original targetLen) = decide (2 < targetLen) := by
  rw [isDashComment, trim_rulerOf, byteLength_bareRuler enough]
  have rest : (bareRuler targetLen).drop 2 = List.replicate (targetLen - 2) '-' := rfl
  rw [bareRuler_starts, rest]
  simp

/-- No ruler is taken for a title, the shortest (which has no dashes) included. -/
theorem titleLength_rulerOf (original : Text) (targetLen : Nat) : titleLength (rulerOf original targetLen) = none := by
  rw [titleLength, trim_rulerOf, if_pos (bareRuler_starts targetLen), if_pos]
  have dashes : (trim ((bareRuler targetLen).drop 2)).all (· = '-') = true := by
    rw [List.all_eq_true]
    intro symbol member
    have inside : symbol ∈ List.replicate (targetLen - 2) '-' := mem_of_mem_trim member
    exact decide_eq_true (List.eq_of_mem_replicate inside)
  rw [dashes, Bool.or_true]

theorem getLast?_rulerOf_ne (original : Text) (targetLen : Nat) : (rulerOf original targetLen).getLast? ≠ some '\r' := by
  obtain ⟨front, last, split, which⟩ := exists_bareRuler_concat targetLen
  rw [rulerOf_eq, split, ← List.append_assoc, List.getLast?_concat]
  cases which with
  | inl slash => rw [slash]; decide
  | inr dash => rw [dash]; decide

theorem clear_rulerOf (original : Text) (targetLen : Nat) : '\n' ∉ rulerOf original targetLen := by
  rw [rulerOf_eq, List.mem_append, not_or]
  constructor
  · intro member
    cases mem_rulerIndent member with
    | inl space => exact absurd space (by decide)
    | inr tab => exact absurd tab (by decide)
  · rw [bareRuler, List.mem_append, not_or]
    refine ⟨by decide, fun member => ?_⟩
    exact absurd (List.eq_of_mem_replicate member) (by decide)

theorem rulerOf_ne_nil (original : Text) (targetLen : Nat) : rulerOf original targetLen ≠ [] := by
  rw [rulerOf_eq, bareRuler]
  exact List.append_ne_nil_of_right_ne_nil _ (List.cons_ne_nil _ _)

theorem rulerOf_inj {original : Text} {first second : Nat} (firstEnough : 2 ≤ first) (secondEnough : 2 ≤ second)
    (same : rulerOf original first = rulerOf original second) : first = second := by
  have lengths := congrArg (fun line => byteLength (trim line)) same
  simpa only [trim_rulerOf, byteLength_bareRuler firstEnough, byteLength_bareRuler secondEnough] using lengths

/-! ## What a carriage return at the end changes -/

theorem trim_stripCarriageReturn (line : Text) : trim (stripCarriageReturn line) = trim line := by
  rw [stripCarriageReturn_eq]
  split
  · next ends =>
    obtain ⟨front, rfl⟩ := List.getLast?_eq_some_iff.mp ends
    rw [List.dropLast_concat]
    refine (trim_append_blank front fun symbol member => ?_).symm
    rw [List.mem_singleton.mp member]
    decide
  · rfl

theorem isDashComment_congr {first second : Text} (same : trim first = trim second) :
    isDashComment first = isDashComment second := by rw [isDashComment, isDashComment, same]

theorem titleLength_congr {first second : Text} (same : trim first = trim second) : titleLength first = titleLength second := by
  rw [titleLength, titleLength, same]

/-! ## Titles beside rulers -/

/-- Lists of lines with the same titles in the same places. -/
def SameTitles (lines others : List Text) : Prop :=
  ∀ idx : Nat, (lines[idx]?).bind titleLength = (others[idx]?).bind titleLength

theorem SameTitles.adjacent {lines others : List Text} (same : SameTitles lines others) (idx : Nat) :
    adjacentTitleLength lines idx = adjacentTitleLength others idx := by
  rw [adjacentTitleLength, adjacentTitleLength, same (idx - 1), same (idx + 1)]

section
variable (policy : DashCommentNormalizerPolicy) (isMacroLine : Nat → Bool)

/-- The title that a ruler on the line is measured by. -/
def titleBeside (lines : List Text) (idx : Nat) : Option Nat :=
  if policy.modeAuto then adjacentTitleLength lines idx else none

/-- One of the two lengths, beside a title. -/
def raised (title : Option Nat) (base : Nat) : Nat :=
  match title with
  | some titleLen => max (max base titleLen) policy.minLength
  | none => base

/-- The length that a ruler gets beside a title. -/
def lengthBeside (title : Option Nat) (currentLen : Nat) : Nat :=
  raised policy title (if policy.longThreshold ≤ currentLen then policy.longLength else policy.shortLength)

theorem targetLength_eq (lines : List Text) (idx currentLen : Nat) :
    targetLength policy lines idx currentLen = lengthBeside policy (titleBeside policy lines idx) currentLen := by
  rw [targetLength, titleBeside, lengthBeside]
  cases policy.modeAuto with
  | false => rfl
  | true =>
    rw [if_pos rfl, if_pos rfl]
    cases adjacentTitleLength lines idx <;> rfl

theorem SameTitles.targetLength {lines others : List Text} (same : SameTitles lines others) (idx currentLen : Nat) :
    targetLength policy lines idx currentLen = targetLength policy others idx currentLen := by
  rw [targetLength_eq, targetLength_eq, titleBeside, titleBeside, same.adjacent idx]

/-! ## One run -/

/-- What stands in place of a line after a run over the lines. -/
def normalizedLine (lines : List Text) (idx : Nat) (line : Text) : Text :=
  if isMacroLine (idx + 1) = false ∧ isDashComment line = true then
    let targetLen := targetLength policy lines idx (byteLength (trim line))
    if targetLen < 2 then line else rulerOf line targetLen
  else line

theorem normalizedLine_cases (lines : List Text) (idx : Nat) (line : Text) :
    normalizedLine policy isMacroLine lines idx line = line ∨
      (isDashComment line = true ∧ 2 ≤ targetLength policy lines idx (byteLength (trim line)) ∧
        normalizedLine policy isMacroLine lines idx line = rulerOf line (targetLength policy lines idx (byteLength (trim line)))) := by
  rw [normalizedLine]
  split
  · next ruler =>
    dsimp only
    split
    · exact .inl rfl
    · next enough => exact .inr ⟨ruler.2, Nat.le_of_not_lt enough, rfl⟩
  · exact .inl rfl

theorem titleLength_normalizedLine (lines : List Text) (idx : Nat) (line : Text) :
    titleLength (normalizedLine policy isMacroLine lines idx line) = titleLength line := by
  cases normalizedLine_cases policy isMacroLine lines idx line with
  | inl same => rw [same]
  | inr ruler => rw [ruler.2.2, titleLength_rulerOf, titleLength_of_dash ruler.1]

/-- The loop has passed the lines in front of a place. -/
structure PassedRulers (lines : List Text) (count : Nat) (state : DashState) : Prop where
  line : ∀ idx : Nat, state.lines[idx]? =
    lines[idx]?.map fun line => if idx < count then normalizedLine policy isMacroLine lines idx line else line
  edits : state.edits = [] ↔ ∀ idx < count, ∀ line, lines[idx]? = some line → normalizedLine policy isMacroLine lines idx line = line

variable {policy isMacroLine}

theorem PassedRulers.sameTitles {lines : List Text} {count : Nat} {state : DashState}
    (passed : PassedRulers policy isMacroLine lines count state) : SameTitles state.lines lines := by
  intro idx
  rw [passed.line idx]
  cases lines[idx]? with
  | none => rfl
  | some line =>
    rw [Option.map_some, Option.bind_some, Option.bind_some]
    split
    · exact titleLength_normalizedLine policy isMacroLine lines idx line
    · rfl

/-- A turn that leaves its line. -/
theorem PassedRulers.kept {lines : List Text} {count : Nat} {state state' : DashState} {line : Text}
    (passed : PassedRulers policy isMacroLine lines count state) (here : lines[count]? = some line)
    (same : normalizedLine policy isMacroLine lines count line = line) (sameLines : state'.lines = state.lines)
    (sameEdits : state'.edits = state.edits) : PassedRulers policy isMacroLine lines (count + 1) state' := by
  constructor
  · intro idx
    rw [sameLines, passed.line idx]
    by_cases atPlace : idx = count
    · rw [atPlace, here, Option.map_some, Option.map_some, if_neg (Nat.lt_irrefl _), if_pos (Nat.lt_succ_self _), same]
    · have sides : idx < count + 1 ↔ idx < count := by omega
      simp only [sides]
  · rw [sameEdits, passed.edits]
    constructor
    · intro before idx bound other found
      by_cases atPlace : idx = count
      · rw [atPlace, here, Option.some.injEq] at found
        rw [atPlace, ← found, same]
      · exact before idx (by omega) other found
    · exact fun later idx bound => later idx (by omega)

theorem PassedRulers.turn {lines : List Text} {count : Nat} {state : DashState} {line : Text}
    (passed : PassedRulers policy isMacroLine lines count state) (here : lines[count]? = some line) :
    PassedRulers policy isMacroLine lines (count + 1) (applyLine policy isMacroLine state count) := by
  have found : state.lines[count]? = some line := by
    rw [passed.line count, here, Option.map_some, if_neg (Nat.lt_irrefl _)]
  rw [applyLine]
  by_cases isMacro : isMacroLine (count + 1) = true
  · rw [if_pos isMacro]
    exact passed.kept here (by rw [normalizedLine, if_neg (by simp [isMacro])]) rfl rfl
  rw [if_neg isMacro, found]
  dsimp only
  by_cases dash : isDashComment line = true
  swap
  · rw [if_neg dash]
    exact passed.kept here (by rw [normalizedLine, if_neg (by simp [dash])]) rfl rfl
  have ruler : isMacroLine (count + 1) = false ∧ isDashComment line = true := ⟨Bool.eq_false_iff.mpr isMacro, dash⟩
  rw [if_pos dash, passed.sameTitles.targetLength]
  by_cases short : targetLength policy lines count (byteLength (trim line)) < 2
  · rw [if_pos short]
    exact passed.kept here (by rw [normalizedLine, if_pos ruler]; exact if_pos short) rfl rfl
  have becomes : normalizedLine policy isMacroLine lines count line =
      rulerOf line (targetLength policy lines count (byteLength (trim line))) := by
    rw [normalizedLine, if_pos ruler]
    exact if_neg short
  rw [if_neg short, ← becomes]
  by_cases same : normalizedLine policy isMacroLine lines count line = line
  · rw [if_pos same]
    exact passed.kept here same rfl rfl
  rw [if_neg same]
  -- The line is replaced, and the edit says so.
  have bound : count < state.lines.length := (List.getElem?_eq_some_iff.mp found).1
  constructor
  · intro idx
    by_cases atPlace : idx = count
    · rw [atPlace, List.getElem?_set_self bound, here, Option.map_some, if_pos (Nat.lt_succ_self _)]
    · have sides : idx < count + 1 ↔ idx < count := by omega
      rw [List.getElem?_set_ne (Ne.symm atPlace), passed.line idx]
      simp only [sides]
  · constructor
    · intro none
      exact absurd none (by simp)
    · exact fun all => absurd (all count (Nat.lt_succ_self _) line here) same

theorem passedRulers_applyLines (lines : List Text) :
    PassedRulers policy isMacroLine lines lines.length (applyLines policy isMacroLine lines) := by
  have run : ∀ count ≤ lines.length, PassedRulers policy isMacroLine lines count
      ((List.range count).foldl (applyLine policy isMacroLine) ⟨lines, [], 0⟩) := by
    intro count
    induction count with
    | zero =>
      intro _
      constructor
      · intro idx
        cases found : lines[idx]? <;> simp [found]
      · exact ⟨fun _ idx bound => absurd bound (Nat.not_lt_zero idx), fun _ => rfl⟩
    | succ count inductionHypothesis =>
      intro bound
      rw [List.range_succ, List.foldl_append]
      exact (inductionHypothesis (by omega)).turn (List.getElem?_eq_getElem (by omega))
  exact run lines.length (Nat.le_refl _)

theorem changed_iff (text : Text) : (apply policy isMacroLine text).changed = true ↔
    (applyLines policy isMacroLine (splitLinesCow text)).edits ≠ [] := by
  rw [apply]
  by_cases empty : splitLinesCow text = []
  · rw [if_pos empty, empty]
    exact ⟨fun changed => absurd changed Bool.false_ne_true, fun edits => absurd rfl edits⟩
  · rw [if_neg empty]
    dsimp only
    cases (applyLines policy isMacroLine (splitLinesCow text)).edits with
    | nil => exact ⟨fun changed => absurd changed Bool.false_ne_true, fun edits => absurd rfl edits⟩
    | cons first edits => exact ⟨fun _ => List.cons_ne_nil _ _, fun _ => rfl⟩

/-- Nothing is changed if every line is normalised to itself. -/
theorem unchanged_iff (text : Text) : (apply policy isMacroLine text).changed = false ↔
    ∀ idx line, (splitLinesCow text)[idx]? = some line →
      normalizedLine policy isMacroLine (splitLinesCow text) idx line = line := by
  rw [Bool.eq_false_iff, ne_eq, changed_iff, ne_eq, not_not, (passedRulers_applyLines _).edits]
  constructor
  · exact fun all idx line found => all idx (List.getElem?_eq_some_iff.mp found).1 line found
  · exact fun all idx _ line found => all idx line found

/-! ## A second run -/

/-- Lines after a run, as they are read again. -/
structure RulersReread (policy : DashCommentNormalizerPolicy) (isMacroLine : Nat → Bool) (lines again : List Text) : Prop where
  length_eq : again.length = lines.length
  line : ∀ {idx : Nat} {line : Text}, lines[idx]? = some line → ∃ line', again[idx]? = some line' ∧
    (line' = normalizedLine policy isMacroLine lines idx line ∨
      line' = stripCarriageReturn (normalizedLine policy isMacroLine lines idx line))

theorem RulersReread.sameTitles {lines again : List Text} (reread : RulersReread policy isMacroLine lines again) :
    SameTitles again lines := by
  intro idx
  cases found : lines[idx]? with
  | none =>
    rw [List.getElem?_eq_none_iff, ← reread.length_eq, ← List.getElem?_eq_none_iff] at found
    rw [found]
  | some line =>
    obtain ⟨line', found', which⟩ := reread.line found
    rw [found', Option.bind_some, Option.bind_some, ← titleLength_normalizedLine policy isMacroLine lines idx line]
    cases which with
    | inl same => rw [same]
    | inr stripped => rw [stripped, titleLength_congr (trim_stripCarriageReturn _)]

theorem normalizedLines_retouched (text : Text) (lines : List Text)
    (passed : ∀ idx : Nat, lines[idx]? =
      (splitLinesCow text)[idx]?.map (normalizedLine policy isMacroLine (splitLinesCow text) idx)) :
    RetouchedLines text lines := by
  constructor
  · have whole : lines = (splitLinesCow text).mapIdx (normalizedLine policy isMacroLine (splitLinesCow text)) :=
      List.ext_getElem? fun idx => by rw [passed, List.getElem?_mapIdx]
    rw [whole, List.length_mapIdx]
  · intro idx original line here found
    rw [passed, here, Option.map_some, Option.some.injEq] at found
    rw [← found]
    cases normalizedLine_cases policy isMacroLine (splitLinesCow text) idx original with
    | inl same => exact .inl same
    | inr ruler =>
      rw [ruler.2.2]
      refine .inr ⟨clear_rulerOf _ _, getLast?_rulerOf_ne _ _, rulerOf_ne_nil _ _, ?_⟩
      rintro rfl
      exact absurd ruler.1 (by decide)

theorem lines_applyLines (lines : List Text) (idx : Nat) :
    (applyLines policy isMacroLine lines).lines[idx]? = lines[idx]?.map (normalizedLine policy isMacroLine lines idx) := by
  rw [(passedRulers_applyLines lines).line idx]
  cases found : lines[idx]? with
  | none => rfl
  | some line => rw [Option.map_some, Option.map_some, if_pos (List.getElem?_eq_some_iff.mp found).1]

theorem written_of_changed {text : Text} (changed : (apply policy isMacroLine text).changed = true) :
    (apply policy isMacroLine text).written text =
      joinLines (applyLines policy isMacroLine (splitLinesCow text)).lines (detectLineEnding text).toList (endsWithFeed text) := by
  have edited := (changed_iff text).mp changed
  rw [PolicyResult.written, if_pos changed, apply]
  by_cases empty : splitLinesCow text = []
  · rw [empty] at edited
    exact absurd rfl edited
  · rw [if_neg empty]
    dsimp only
    cases edits : (applyLines policy isMacroLine (splitLinesCow text)).edits with
    | nil => exact absurd edits edited
    | cons first rest => rfl

theorem rulersReread_written (policy : DashCommentNormalizerPolicy) (isMacroLine : Nat → Bool) (text : Text) :
    RulersReread policy isMacroLine (splitLinesCow text)
      (splitLinesCow ((apply policy isMacroLine text).written text)) := by
  cases changed : (apply policy isMacroLine text).changed with
  | false =>
    rw [PolicyResult.written, if_neg (by rw [changed]; exact Bool.false_ne_true)]
    exact ⟨rfl, fun {idx line} found => ⟨line, found, .inl ((unchanged_iff text).mp changed idx line found).symm⟩⟩
  | true =>
    have retouched := normalizedLines_retouched text _ (@lines_applyLines policy isMacroLine _)
    have differs : (applyLines policy isMacroLine (splitLinesCow text)).lines ≠ splitLinesCow text := by
      intro same
      refine (changed_iff text).mp changed ((passedRulers_applyLines _).edits.mpr fun idx _ line found => ?_)
      have after := @lines_applyLines policy isMacroLine (splitLinesCow text) idx
      rw [same, found, Option.map_some, Option.some.injEq] at after
      exact after.symm
    have reread := retouched.reread differs
    rw [written_of_changed changed]
    constructor
    · exact retouched.length_reread differs
    · intro idx line found
      rw [reread idx, lines_applyLines, found, Option.map_some, Option.map_some]
      refine ⟨_, rfl, ?_⟩
      split
      · exact .inl rfl
      · exact .inr rfl

/-! ## Rulers that a second run leaves -/

/-- A ruler of this length, beside this title: the length that it gets stands on its own side of the threshold, or is the
length that is given on the other side too, or makes no ruler. -/
def SteadyLength (policy : DashCommentNormalizerPolicy) (title : Option Nat) (currentLen : Nat) : Prop :=
  let long := raised policy title policy.longLength
  let short := raised policy title policy.shortLength
  if policy.longThreshold ≤ currentLen then long ≤ 2 ∨ policy.longThreshold ≤ long ∨ short = long ∨ short < 2
  else short ≤ 2 ∨ short < policy.longThreshold ∨ long = short ∨ long < 2

def SteadyRulers (policy : DashCommentNormalizerPolicy) (isMacroLine : Nat → Bool) (text : Text) : Prop :=
  ∀ idx line, (splitLinesCow text)[idx]? = some line → isMacroLine (idx + 1) = false → isDashComment line = true →
    SteadyLength policy (titleBeside policy (splitLinesCow text) idx) (byteLength (trim line))

theorem steadyLength_iff (title : Option Nat) (currentLen : Nat) : SteadyLength policy title currentLen ↔
    lengthBeside policy title currentLen ≤ 2 ∨
      lengthBeside policy title (lengthBeside policy title currentLen) < 2 ∨
        lengthBeside policy title (lengthBeside policy title currentLen) = lengthBeside policy title currentLen := by
  rw [SteadyLength]
  -- The first length is one of the two; the second run asks on which side of the threshold it stands.
  by_cases side : policy.longThreshold ≤ currentLen
  · have first : lengthBeside policy title currentLen = raised policy title policy.longLength := by
      rw [lengthBeside, if_pos side]
    rw [if_pos side, first, lengthBeside]
    by_cases stays : policy.longThreshold ≤ raised policy title policy.longLength
    · simp [stays]
    · rw [if_neg stays]
      tauto
  · have first : lengthBeside policy title currentLen = raised policy title policy.shortLength := by
      rw [lengthBeside, if_neg side]
    rw [if_neg side, first, lengthBeside]
    by_cases stays : policy.longThreshold ≤ raised policy title policy.shortLength
    · rw [if_pos stays]
      have side' := Nat.not_lt.mpr stays
      tauto
    · simp [stays, Nat.lt_of_not_le stays]

/-- The same line again, with or without a carriage return at its end: nothing of it depends on that. -/
theorem RulersReread.settled_iff {lines again : List Text} (reread : RulersReread policy isMacroLine lines again)
    {idx : Nat} {line line' : Text} (found : lines[idx]? = some line) (found' : again[idx]? = some line') :
    normalizedLine policy isMacroLine again idx line' = line' ↔
      (isMacroLine (idx + 1) = false → isDashComment line = true →
        SteadyLength policy (titleBeside policy lines idx) (byteLength (trim line))) := by
  obtain ⟨same', here, which⟩ := reread.line found
  rw [found', Option.some.injEq] at here
  subst here
  have trims : trim line' = trim (normalizedLine policy isMacroLine lines idx line) := by
    cases which with
    | inl same => rw [same]
    | inr stripped => rw [stripped, trim_stripCarriageReturn]
  by_cases isMacro : isMacroLine (idx + 1) = true
  · rw [normalizedLine, if_neg (by simp [isMacro])]
    simp [isMacro]
  have notMacro : isMacroLine (idx + 1) = false := Bool.eq_false_iff.mpr isMacro
  by_cases dash : isDashComment line = true
  swap
  · have kept : normalizedLine policy isMacroLine lines idx line = line := by rw [normalizedLine, if_neg (by simp [dash])]
    rw [kept] at trims
    rw [normalizedLine, if_neg (by rw [isDashComment_congr trims]; simp [dash])]
    simp [dash]
  simp only [notMacro, dash, true_implies]
  rw [steadyLength_iff, ← targetLength_eq, ← targetLength_eq]
  generalize length : targetLength policy lines idx (byteLength (trim line)) = targetLen
  by_cases short : targetLen < 2
  · have kept : normalizedLine policy isMacroLine lines idx line = line := by
      rw [normalizedLine, if_pos ⟨notMacro, dash⟩]
      exact if_pos (length ▸ short)
    rw [kept] at trims
    rw [normalizedLine, if_pos ⟨notMacro, (isDashComment_congr trims).trans dash⟩, trims, reread.sameTitles.targetLength, length]
    dsimp only
    rw [if_pos short]
    exact ⟨fun _ => .inl (by omega), fun _ => rfl⟩
  have becomes : normalizedLine policy isMacroLine lines idx line = rulerOf line targetLen := by
    rw [normalizedLine, if_pos ⟨notMacro, dash⟩, length]
    exact if_neg short
  have enough : 2 ≤ targetLen := Nat.le_of_not_lt short
  have again : line' = rulerOf line targetLen := by
    cases which with
    | inl same => rw [same, becomes]
    | inr stripped => rw [stripped, becomes, stripCarriageReturn_of_ne (getLast?_rulerOf_ne _ _)]
  rw [again, normalizedLine, isDashComment_rulerOf line enough, trim_rulerOf, byteLength_bareRuler enough,
    reread.sameTitles.targetLength]
  by_cases bare : targetLen ≤ 2
  · rw [if_neg (by simp [bare])]
    exact ⟨fun _ => .inl bare, fun _ => rfl⟩
  rw [if_pos ⟨notMacro, decide_eq_true (Nat.lt_of_not_le bare)⟩]
  dsimp only
  by_cases lost : targetLength policy lines idx targetLen < 2
  · rw [if_pos lost]
    exact ⟨fun _ => .inr (.inl lost), fun _ => rfl⟩
  rw [if_neg lost, rulerOf_rulerOf]
  constructor
  · exact fun same => .inr (.inr (rulerOf_inj (Nat.le_of_not_lt lost) enough same))
  · rintro (small | small | same)
    · exact absurd small bare
    · exact absurd small lost
    · rw [same]

theorem dashComments_idempotent_iff (policy : DashCommentNormalizerPolicy) (isMacroLine : Nat → Bool) (text : Text) :
    (apply policy isMacroLine ((apply policy isMacroLine text).written text)).changed = false ↔
      SteadyRulers policy isMacroLine text := by
  have reread := rulersReread_written policy isMacroLine text
  rw [unchanged_iff]
  constructor
  · intro settled idx line found
    obtain ⟨line', found', _⟩ := reread.line found
    exact (reread.settled_iff found found').mp (settled idx line' found')
  · intro steady idx line' found'
    have bound := (List.getElem?_eq_some_iff.mp found').1
    rw [reread.length_eq] at bound
    have found := List.getElem?_eq_getElem bound
    exact (reread.settled_iff found found').mpr (steady idx _ found)

/-- Beside a title that is longer than the threshold a short ruler becomes as long as the title, and then long. -/
theorem titledRuler_grows :
    let policy := DashCommentNormalizerPolicy.create
      { mode := some "auto".toList, longLength := none, shortLength := none, longThreshold := none, minLength := none }
    let text := "//----\n// A title that is a bit longer than the threshold is\n".toList
    let once := (apply policy (fun _ => false) text).written text
    (apply policy (fun _ => false) once).changed = true ∧
      ((apply policy (fun _ => false) once).edits.map fun edit => (byteLength edit.before, byteLength edit.after)) = [(53, 64)] := by
  decide +kernel

end

end MjFormatter.Verified
