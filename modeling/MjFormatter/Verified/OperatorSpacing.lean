import MjFormatter.Policy.OpSpacing
import MjFormatter.Verified.RenameReplacements
import MjFormatter.Verified.TrimmedLines
import MjFormatter.Verified.JoinedLines

/-! # What the respelling of operator names changes

Every name is replaced at the offsets that it had in the text, in a line that earlier replacements may have made longer or
shorter.  As long as they have not, only whitespace changes. -/

namespace MjFormatter.Verified

open Library OpSpacing NamingConventions

/-! ## Lines -/

theorem visible_splitFeeds (text : Text) : ((splitFeeds text).map visible).flatten = visible text := by
  induction text with
  | nil => rfl
  | cons symbol rest inductionHypothesis =>
    rw [splitFeeds]
    split
    · next feed =>
      subst feed
      exact inductionHypothesis
    · cases lines : splitFeeds rest with
      | nil => exact absurd lines (splitFeeds_ne_nil rest)
      | cons line further =>
        rw [lines, List.map_cons, List.flatten_cons] at inductionHypothesis
        rw [List.map_cons, List.flatten_cons, ← List.singleton_append, visible_append, List.append_assoc,
          inductionHypothesis, ← visible_append, List.singleton_append]

theorem lineTail_cons (symbol : Char) (front : Text) :
    lineTail (symbol :: front) = if '\n' ∈ front ∨ symbol = '\n' then lineTail front else symbol :: lineTail front := by
  have ahead : (symbol :: front).reverse = front.reverse ++ [symbol] := List.reverse_cons
  have stopped : ('\n' ∈ front ∨ symbol = '\n') →
      (front.reverse ++ [symbol]).takeWhile (· ≠ '\n') = front.reverse.takeWhile (· ≠ '\n') := by
    intro either
    rw [List.takeWhile_append]
    split
    · next whole =>
      cases either with
      | inl inside =>
        have clear := List.takeWhile_eq_self_iff.mp (List.IsPrefix.eq_of_length (List.takeWhile_prefix _) whole)
        exact absurd rfl (of_decide_eq_true (clear '\n' (List.mem_reverse.mpr inside)))
      | inr feed =>
        have same := List.IsPrefix.eq_of_length (List.takeWhile_prefix _) whole
        rw [same, feed]
        simp
    · rfl
  have passed : ¬('\n' ∈ front ∨ symbol = '\n') →
      (front.reverse ++ [symbol]).takeWhile (· ≠ '\n') = front.reverse ++ [symbol] := by
    intro neither
    rw [List.takeWhile_eq_self_iff]
    intro other member
    rw [decide_eq_true_eq]
    rintro rfl
    refine neither ?_
    simpa [eq_comm] using member
  have clear : ¬('\n' ∈ front ∨ symbol = '\n') → front.reverse.takeWhile (· ≠ '\n') = front.reverse := by
    intro neither
    rw [List.takeWhile_eq_self_iff]
    intro other member
    rw [decide_eq_true_eq]
    rintro rfl
    exact neither (.inl (List.mem_reverse.mp member))
  rw [lineTail, lineTail, ahead]
  split
  · next either => rw [stopped either]
  · next neither => rw [passed neither, clear neither, List.reverse_append, List.reverse_reverse, List.reverse_singleton,
      List.singleton_append]

/-- The line that a place is on has what is in front of the place on its line, and what follows up to a line feed. -/
theorem splitFeeds_getElem? (front rest : Text) :
    (splitFeeds (front ++ rest))[front.count '\n']? = some (lineTail front ++ rest.takeWhile (· ≠ '\n')) := by
  induction front with
  | nil =>
    rw [List.nil_append, List.count_nil]
    induction rest with
    | nil => rfl
    | cons symbol rest inductionHypothesis =>
      rw [splitFeeds]
      split
      · next feed => simp [feed, lineTail]
      · next other =>
        cases lines : splitFeeds rest with
        | nil => exact absurd lines (splitFeeds_ne_nil rest)
        | cons line further =>
          rw [lines, List.getElem?_cons_zero] at inductionHypothesis
          simp only [lineTail, List.reverse_nil, List.takeWhile_nil, List.nil_append, Option.some.injEq] at inductionHypothesis
          simp [other, lineTail, inductionHypothesis]
  | cons symbol front inductionHypothesis =>
    rw [List.cons_append, splitFeeds, lineTail_cons]
    split
    · next feed =>
      rw [feed, List.count_cons_self, List.getElem?_cons_succ, if_pos (.inr rfl)]
      exact inductionHypothesis
    · next other =>
      rw [List.count_cons_of_ne other]
      cases lines : splitFeeds (front ++ rest) with
      | nil => exact absurd lines (splitFeeds_ne_nil _)
      | cons line further =>
        rw [lines] at inductionHypothesis
        simp only
        by_cases inside : '\n' ∈ front
        · rw [if_pos (.inl inside)]
          have later := List.count_pos_iff.mpr inside
          rw [← Nat.succ_pred_eq_of_pos later, List.getElem?_cons_succ] at inductionHypothesis ⊢
          exact inductionHypothesis
        · rw [if_neg (by simp [inside, other])]
          rw [List.count_eq_zero_of_not_mem inside, List.getElem?_cons_zero, Option.some.injEq] at inductionHypothesis ⊢
          rw [inductionHypothesis, List.cons_append]

theorem visible_stripCarriageReturn (line : Text) : visible (stripCarriageReturn line) = visible line := by
  rw [stripCarriageReturn_eq]
  split
  · next ends =>
    obtain ⟨front, rfl⟩ := List.getLast?_eq_some_iff.mp ends
    rw [List.dropLast_concat, visible_append]
    exact (List.append_nil _).symm
  · rfl

/-- A text that begins and ends with something visible. -/
structure Solid (name : Text) : Prop where
  first : ∃ symbol ∈ name.head?, isWhitespace symbol = false
  last : ∃ symbol ∈ name.getLast?, isWhitespace symbol = false

theorem Solid.ne_nil {name : Text} (solid : Solid name) : name ≠ [] := by
  rintro rfl
  obtain ⟨symbol, found, _⟩ := solid.first
  cases found

theorem visible_ne_nil_of_mem {text : Text} {symbol : Char} (member : symbol ∈ text) (shown : isWhitespace symbol = false) :
    visible text ≠ [] :=
  List.ne_nil_of_mem (List.mem_filter.mpr ⟨member, by rw [shown]; rfl⟩)

theorem stripCarriageReturn_behind {name : Text} (solid : Solid name) (front back : Text) :
    stripCarriageReturn (front ++ name ++ back) = front ++ name ++ stripCarriageReturn back := by
  rw [stripCarriageReturn_eq, stripCarriageReturn_eq]
  cases back using List.reverseRecOn with
  | nil =>
    obtain ⟨symbol, found, shown⟩ := solid.last
    have last : (front ++ name ++ []).getLast? = some symbol := by
      rw [List.append_nil, List.getLast?_append, Option.mem_def.mp found, Option.some_or]
    have other : symbol ≠ '\r' := by
      rintro rfl
      exact absurd shown (by decide)
    rw [last, if_neg (by simpa using other), if_neg (by simp)]
  | append_singleton back symbol =>
    rw [← List.append_assoc, List.getLast?_concat, List.getLast?_concat, List.dropLast_concat, List.dropLast_concat]
    split
    · rfl
    · rw [List.append_assoc]

theorem visible_intercalate {eol : Text} (blank : visible eol = []) (lines : List Text) :
    visible (eol.intercalate lines) = (lines.map visible).flatten := by
  induction lines with
  | nil => rfl
  | cons line lines inductionHypothesis =>
    cases lines with
    | nil => simp [List.intercalate]
    | cons next further =>
      rw [List.intercalate_cons_cons, visible_append, visible_append, blank, List.append_nil, inductionHypothesis]
      rfl

theorem visible_joinLines {eol : Text} (blank : visible eol = []) (lines : List Text) (trailingNewline : Bool) :
    visible (joinLines lines eol trailingNewline) = (lines.map visible).flatten := by
  rw [joinLines]
  split
  · next empty =>
    rw [empty]
    rfl
  · simp only
    split
    · rw [visible_append, visible_intercalate blank, blank, List.append_nil]
    · exact visible_intercalate blank lines

theorem visible_detectLineEnding (text : Text) : visible (detectLineEnding text).toList = [] := by
  induction text using detectLineEnding.induct with
  | case1 =>
    rw [detectLineEnding]
    decide +kernel
  | case2 symbol rest other inductionHypothesis =>
    rw [detectLineEnding]
    · exact inductionHypothesis
    · exact other
  | case3 => decide +kernel

theorem visible_splitLinesCow (text : Text) : ((splitLinesCow text).map visible).flatten = visible text := by
  rw [splitLinesCow]
  split
  · next empty =>
    rw [empty]
    rfl
  · have same : visible ∘ stripCarriageReturn = visible := funext visible_stripCarriageReturn
    rw [List.map_map, same, visible_splitFeeds]

/-! ## Ranges that show the same -/

/-- When as much as a solid text is taken out, and what stays on both sides shows what stands beside the solid text, it is
the solid text that is taken out. -/
theorem byteLength_ahead_eq {ahead name post before replaced behind : Text} (solid : Solid name)
    (line : ahead ++ name ++ post = before ++ replaced ++ behind) (sameLength : byteLength replaced = byteLength name)
    (sameAhead : visible before = visible ahead) (sameBehind : visible behind = visible post) :
    byteLength ahead = byteLength before := by
  rw [List.append_assoc, List.append_assoc] at line
  cases List.append_eq_append_iff.mp line with
  | inl longer =>
    obtain ⟨between, rfl, rest⟩ := longer
    cases between with
    | nil => rw [List.append_nil]
    | cons symbol between =>
      exfalso
      -- The range starts behind the first symbol of the name
      obtain ⟨first, found, shown⟩ := solid.first
      obtain ⟨name, rfl⟩ := List.head?_eq_some_iff.mp (Option.mem_def.mp found)
      have here : first = symbol := (List.cons.inj rest).1
      rw [visible_append, List.append_right_eq_self] at sameAhead
      exact visible_ne_nil_of_mem List.mem_cons_self (here ▸ shown) sameAhead
  | inr shorter =>
    obtain ⟨between, rfl, rest⟩ := shorter
    rw [← List.append_assoc between] at rest
    cases List.append_eq_append_iff.mp rest with
    | inl inside =>
      obtain ⟨tail, whole, rest⟩ := inside
      rw [rest, visible_append, List.append_left_eq_self] at sameBehind
      have measured := congrArg byteLength whole
      rw [byteLength_append, byteLength_append, sameLength] at measured
      cases tail using List.reverseRecOn with
      | nil =>
        rw [byteLength_append]
        have nothing : byteLength ([] : Text) = 0 := rfl
        omega
      | append_singleton tail symbol =>
        exfalso
        -- What stays behind begins with the last symbol of the name
        obtain ⟨last, found, shown⟩ := solid.last
        have ends : (between ++ name).getLast? = some last := by
          rw [List.getLast?_append, Option.mem_def.mp found, Option.some_or]
        rw [whole, ← List.append_assoc, List.getLast?_concat] at ends
        refine visible_ne_nil_of_mem (List.mem_append_right tail (List.mem_singleton_self symbol)) ?_ sameBehind
        rw [Option.some.inj ends]
        exact shown
    | inr outside =>
      obtain ⟨tail, whole, _⟩ := outside
      have measured := congrArg byteLength whole
      rw [byteLength_append, byteLength_append, sameLength] at measured
      rw [byteLength_append]
      omega

theorem lineTail_append_of_clear {back : Text} (clear : '\n' ∉ back) (front : Text) :
    lineTail (front ++ back) = lineTail front ++ back := by
  have whole : back.reverse.takeWhile (· ≠ '\n') = back.reverse := by
    rw [List.takeWhile_eq_self_iff]
    intro symbol member
    rw [decide_eq_true_eq]
    rintro rfl
    exact clear (List.mem_reverse.mp member)
  rw [lineTail, lineTail, List.reverse_append, List.takeWhile_append, whole, if_pos rfl, List.reverse_append,
    List.reverse_reverse]

/-! ## The nodes -/

/-- A span of the tree: the text of its node, between what stands in front and what stands behind. -/
structure Located (text : Text) (span : OperatorSpan) (front name back : Text) : Prop where
  cut : text = front ++ name ++ back
  start : span.byteStart = byteLength front
  stop : span.byteEnd = byteLength front + byteLength name
  line : span.line = front.count '\n'
  solid : Solid name

/-- The operator names of a tree: each has its text, and they do not overlap. -/
structure OperatorNames (text : Text) (spans : List OperatorSpan) : Prop where
  located : ∀ span ∈ spans, ∃ front name back, Located text span front name back
  apart : spans.Pairwise fun left right => left.byteEnd ≤ right.byteStart ∨ right.byteEnd ≤ left.byteStart

theorem Located.spanParts_eq {text front name back : Text} {span : OperatorSpan} (here : Located text span front name back) :
    spanParts text span = some (front, name) := by
  have outer : cutAt Char.utf8Size text span.byteStart = some (front, name ++ back) :=
    (cutAt_eq_some_iff Char.utf8Size_pos).mpr ⟨by rw [here.cut, List.append_assoc], here.start.symm⟩
  have length : span.byteEnd - span.byteStart = byteLength name := by
    rw [here.start, here.stop, Nat.add_sub_cancel_left]
  have inner : cutAt Char.utf8Size (name ++ back) (span.byteEnd - span.byteStart) = some (name, back) :=
    (cutAt_eq_some_iff Char.utf8Size_pos).mpr ⟨rfl, length.symm⟩
  rw [spanParts, outer, Option.bind_some, inner, Option.map_some]

theorem Located.length_eq {text front name back : Text} {span : OperatorSpan} (here : Located text span front name back) :
    span.byteEnd - span.byteStart = byteLength name := by
  rw [here.start, here.stop, Nat.add_sub_cancel_left]

theorem Located.start_lt {text front name back : Text} {span : OperatorSpan} (here : Located text span front name back) :
    span.byteStart < span.byteEnd := by
  have positive := byteLength_pos here.solid.ne_nil
  rw [here.start, here.stop]
  omega

/-- The line of a text as the policy finds it. -/
def rowText (text : Text) (line : Nat) : Text := ((splitLinesCow text)[line]?).getD []

/-- What follows a place on its line. -/
def lineRest (back : Text) : Text := stripCarriageReturn (back.takeWhile (· ≠ '\n'))

theorem Located.line_eq {text front name back : Text} {span : OperatorSpan} (here : Located text span front name back) :
    (splitLinesCow text)[span.line]? = some (stripCarriageReturn (lineTail front ++ (name ++ back).takeWhile (· ≠ '\n'))) := by
  have nonempty : text ≠ [] := by
    rw [here.cut]
    simp [here.solid.ne_nil]
  rw [splitLinesCow, if_neg nonempty, List.getElem?_map, here.cut, List.append_assoc, here.line, splitFeeds_getElem?,
    Option.map_some]

/-- A name on one line stands there between what is in front of it and what follows. -/
theorem Located.line_of_clear {text front name back : Text} {span : OperatorSpan} (here : Located text span front name back)
    (clear : '\n' ∉ name) : (splitLinesCow text)[span.line]? = some (lineTail front ++ name ++ lineRest back) := by
  have passed : ∀ symbol ∈ name, decide (symbol ≠ '\n') = true := by
    intro symbol member
    rw [decide_eq_true_eq]
    rintro rfl
    exact clear member
  rw [here.line_eq, List.takeWhile_append_of_pos passed, ← List.append_assoc, stripCarriageReturn_behind here.solid]
  rfl

/-- A later span of the same line begins behind the name. -/
theorem Located.later {text front name back front' name' back' : Text} {span later : OperatorSpan}
    (here : Located text span front name back) (there : Located text later front' name' back')
    (behind : span.byteEnd ≤ later.byteStart) (same : later.line = span.line) :
    '\n' ∉ name ∧ byteLength (lineTail front) + byteLength name ≤ byteLength (lineTail front') := by
  have order : measure Char.utf8Size (front ++ name) ≤ measure Char.utf8Size front' := by
    have measured := here.stop
    rw [← byteLength_append] at measured
    have started := there.start
    unfold byteLength at measured started
    omega
  obtain ⟨between, rfl, _⟩ := front_of_le Char.utf8Size_pos here.cut
    (there.cut.trans (List.append_assoc ..)) order
  have counted := same
  rw [there.line, here.line, List.count_append, List.count_append] at counted
  have clearName : '\n' ∉ name := List.count_eq_zero.mp (by omega)
  have clearBetween : '\n' ∉ between := List.count_eq_zero.mp (by omega)
  refine ⟨clearName, ?_⟩
  rw [lineTail_append_of_clear clearBetween, lineTail_append_of_clear clearName, byteLength_append, byteLength_append]
  exact Nat.le_add_right _ _

section
variable (text : Text) (semantic : SemanticFileContext) (isMacroLine : Nat → Bool)

/-- A name that is not spelled as it should be, on a line that may be changed. -/
structure Respelled (span : OperatorSpan) (front name : Text) : Prop where
  parts : spanParts text span = some (front, name)
  open_line : isMacroLine (span.line + 1) = false
  other : canonicalName semantic span name ≠ name

/-- How many bytes longer the line becomes with the respelling of a name. -/
def growth (line : Nat) (span : OperatorSpan) : Int :=
  match spanParts text span with
  | none => 0
  | some (_, name) =>
    if span.line = line ∧ isMacroLine (span.line + 1) = false ∧ '\n' ∉ name then
      (byteLength (canonicalName semantic span name) : Int) - byteLength name
    else 0

/-- How many bytes longer the line is behind the respelling of all the names. -/
def shift (line : Nat) : List OperatorSpan → Int
  | [] => 0
  | span :: spans => growth text semantic isMacroLine line span + shift line spans

/-- A name keeps what it shows, and has not been moved on its line by the respelling of the names in front of it.  A name
with a line break is out of the reach of its line. -/
structure Unmoved (done : List OperatorSpan) (span : OperatorSpan) (front name : Text) : Prop where
  shown : visible (canonicalName semantic span name) = visible name
  still : '\n' ∉ name → shift text semantic isMacroLine span.line done = 0
  beyond : '\n' ∈ name → (byteLength (rowText text span.line) : Int) + shift text semantic isMacroLine span.line done <
    byteLength (lineTail front) + byteLength name

/-- Each name that is respelled is where it was in the text when its turn comes. -/
def StandsInPlace (spans : List OperatorSpan) : Prop :=
  ∀ done span rest front name, spans = done ++ span :: rest → Respelled text semantic isMacroLine span front name →
    Unmoved text semantic isMacroLine done span front name

/-- In the line as it is, the range at the name's old offsets has the name: ahead of it and behind it the line shows what
stands beside the name in the text. -/
def TakesName (current front name : Text) (line : Nat) : Prop :=
  ∃ before replaced behind post, current = before ++ replaced ++ behind ∧ byteLength before = byteLength (lineTail front) ∧
    byteLength replaced = byteLength name ∧ rowText text line = lineTail front ++ name ++ post ∧
    visible before = visible (lineTail front) ∧ visible behind = visible post

/-- A name becomes its own canonical spelling, which shows the same, on a line as it is at its turn.  A name with a line
break is passed over. -/
structure TakesOwn (current : Text) (span : OperatorSpan) (front name : Text) : Prop where
  shown : visible (canonicalName semantic span name) = visible name
  takes : '\n' ∉ name → TakesName text current front name span.line
  beyond : '\n' ∈ name → byteLength current < byteLength (lineTail front) + byteLength name

/-- Only whitespace changes, and each name becomes its own canonical spelling, which shows the same as the name. -/
structure WhitespaceOnly (spans : List OperatorSpan) : Prop where
  shown : ∃ result, applySpacing text semantic isMacroLine spans = some result ∧
    (result.changed = true → visible result.text = visible text)
  own : ∀ done span rest front name state current,
    (spans.insertionSort fun left right => left.byteStart ≤ right.byteStart) = done ++ span :: rest →
    applySpans text semantic isMacroLine done = some state → Respelled text semantic isMacroLine span front name →
    state.lines[span.line]? = some current →
    TakesOwn text semantic current span front name

end

variable {text : Text} {semantic : SemanticFileContext} {isMacroLine : Nat → Bool}

theorem shift_append (line : Nat) (spans more : List OperatorSpan) :
    shift text semantic isMacroLine line (spans ++ more) =
      shift text semantic isMacroLine line spans + shift text semantic isMacroLine line more := by
  induction spans with
  | nil => exact (Int.zero_add _).symm
  | cons span spans inductionHypothesis =>
    rw [List.cons_append, shift, shift, inductionHypothesis, Int.add_assoc]

theorem shift_concat (line : Nat) (spans : List OperatorSpan) (span : OperatorSpan) :
    shift text semantic isMacroLine line (spans ++ [span]) =
      shift text semantic isMacroLine line spans + growth text semantic isMacroLine line span := by
  rw [shift_append, shift, shift, Int.add_zero]

theorem growth_of_parts {span : OperatorSpan} {front name : Text} (parts : spanParts text span = some (front, name))
    (line : Nat) :
    growth text semantic isMacroLine line span =
      if span.line = line ∧ isMacroLine (span.line + 1) = false ∧ '\n' ∉ name then
        (byteLength (canonicalName semantic span name) : Int) - byteLength name
      else 0 := by
  rw [growth, parts]

/-! ## The lines behind some turns -/

section
variable (text semantic isMacroLine)

/-- A line behind some turns: what later names may stand on is as it was, and what is in front of it shows the same. -/
def LineKept (done later : List OperatorSpan) (line : Nat) (original current : Text) : Prop :=
  ∃ ahead front tail, original = front ++ tail ∧ current = ahead ++ tail ∧ visible ahead = visible front ∧
    (byteLength ahead : Int) = byteLength front + shift text semantic isMacroLine line done ∧
    ∀ span ∈ later, ∀ before name back, Located text span before name back → span.line = line →
      byteLength front ≤ byteLength (lineTail before)

structure LinesKept (done later : List OperatorSpan) (state : SpacingState) : Prop where
  length : state.lines.length = (splitLinesCow text).length
  kept : ∀ line original, (splitLinesCow text)[line]? = some original →
    ∃ current, state.lines[line]? = some current ∧ LineKept text semantic isMacroLine done later line original current

end

theorem LineKept.byteLength_eq {done later : List OperatorSpan} {line : Nat} {original current : Text}
    (kept : LineKept text semantic isMacroLine done later line original current) :
    (byteLength current : Int) = byteLength original + shift text semantic isMacroLine line done := by
  obtain ⟨ahead, front, tail, rfl, rfl, _, longer, _⟩ := kept
  rw [byteLength_append, byteLength_append]
  push_cast
  omega

theorem LineKept.visible_eq {done later : List OperatorSpan} {line : Nat} {original current : Text}
    (kept : LineKept text semantic isMacroLine done later line original current) : visible current = visible original := by
  obtain ⟨ahead, front, tail, rfl, rfl, same, _, _⟩ := kept
  rw [visible_append, visible_append, same]

theorem LinesKept.visible_eq {done later : List OperatorSpan} {state : SpacingState}
    (kept : LinesKept text semantic isMacroLine done later state) :
    (state.lines.map visible).flatten = visible text := by
  rw [← visible_splitLinesCow]
  congr 1
  apply List.ext_getElem?
  intro line
  rw [List.getElem?_map, List.getElem?_map]
  cases original : (splitLinesCow text)[line]? with
  | none =>
    rw [List.getElem?_eq_none_iff, ← kept.length, ← List.getElem?_eq_none_iff] at original
    rw [original]
  | some original' =>
    obtain ⟨current, found, line⟩ := kept.kept line original' original
    rw [found, Option.map_some, Option.map_some, line.visible_eq]

theorem linesKept_start (spans : List OperatorSpan) :
    LinesKept text semantic isMacroLine [] spans ⟨splitLinesCow text, [], 0⟩ where
  length := rfl
  kept := by
    intro line original found
    refine ⟨original, found, [], [], original, rfl, rfl, rfl, rfl, ?_⟩
    intro span _ before name back _ _
    exact Nat.zero_le _

theorem LineKept.carry {done later : List OperatorSpan} {span : OperatorSpan} {line : Nat} {original current : Text}
    (kept : LineKept text semantic isMacroLine done (span :: later) line original current)
    (same : growth text semantic isMacroLine line span = 0) :
    LineKept text semantic isMacroLine (done ++ [span]) later line original current := by
  obtain ⟨ahead, front, tail, rfl, rfl, shown, longer, untouched⟩ := kept
  refine ⟨ahead, front, tail, rfl, rfl, shown, ?_, fun other member => untouched other (List.mem_cons_of_mem _ member)⟩
  rw [shift_concat, same, Int.add_zero]
  exact longer

theorem LinesKept.carry {done later : List OperatorSpan} {span : OperatorSpan} {state state' : SpacingState}
    (kept : LinesKept text semantic isMacroLine done (span :: later) state)
    (same : ∀ line, growth text semantic isMacroLine line span = 0) (lines : state'.lines = state.lines) :
    LinesKept text semantic isMacroLine (done ++ [span]) later state' where
  length := by rw [lines, kept.length]
  kept := by
    intro line original found
    obtain ⟨current, here, line⟩ := kept.kept line original found
    exact ⟨current, by rw [lines, here], line.carry (same _)⟩

/-- One line is replaced by one that is kept, and the others do not grow. -/
theorem LinesKept.set {done later : List OperatorSpan} {span : OperatorSpan} {state state' : SpacingState}
    {original updated : Text} (kept : LinesKept text semantic isMacroLine done (span :: later) state)
    (same : ∀ line, line ≠ span.line → growth text semantic isMacroLine line span = 0)
    (there : (splitLinesCow text)[span.line]? = some original)
    (replaced : LineKept text semantic isMacroLine (done ++ [span]) later span.line original updated)
    (lines : state'.lines = state.lines.set span.line updated) :
    LinesKept text semantic isMacroLine (done ++ [span]) later state' where
  length := by rw [lines, List.length_set, kept.length]
  kept := by
    intro line other found
    rw [lines]
    by_cases this : line = span.line
    · subst this
      rw [there, Option.some.injEq] at found
      subst found
      obtain ⟨current, here, _⟩ := kept.kept _ _ there
      exact ⟨updated, List.getElem?_set_self (List.getElem?_eq_some_iff.mp here).1, replaced⟩
    · obtain ⟨current, here, unchanged⟩ := kept.kept line other found
      refine ⟨current, ?_, unchanged.carry (same line this)⟩
      rw [List.getElem?_set_ne (Ne.symm this), here]

/-- A name stands in its line as far from its old place as the line has grown. -/
theorem LineKept.holds {done later : List OperatorSpan} {span : OperatorSpan} {current front name back : Text}
    (kept : LineKept text semantic isMacroLine done (span :: later) span.line (lineTail front ++ name ++ lineRest back) current)
    (here : Located text span front name back) :
    ∃ ahead, current = ahead ++ name ++ lineRest back ∧ visible ahead = visible (lineTail front) ∧
      (byteLength ahead : Int) = byteLength (lineTail front) + shift text semantic isMacroLine span.line done := by
  obtain ⟨ahead, start, tail, split, rfl, shown, longer, untouched⟩ := kept
  have order := untouched span List.mem_cons_self front name back here rfl
  -- What was changed ends in front of the name
  obtain ⟨between, rest, rfl⟩ := front_of_le Char.utf8Size_pos split (List.append_assoc ..) order
  refine ⟨ahead ++ between, ?_, ?_, ?_⟩
  · simp only [List.append_assoc]
  · rw [rest, visible_append, visible_append, shown]
  · rw [rest, byteLength_append, byteLength_append]
    push_cast
    omega

theorem respellLine_eq {canonical before replaced behind : Text} {start stop : Nat} (starts : byteLength before = start)
    (stops : start + byteLength replaced = stop) :
    respellLine (before ++ replaced ++ behind) start stop canonical = some (before ++ canonical ++ behind) := by
  have outer : cutAt Char.utf8Size (before ++ replaced ++ behind) start = some (before, replaced ++ behind) :=
    (cutAt_eq_some_iff Char.utf8Size_pos).mpr ⟨List.append_assoc .., starts⟩
  have inner : cutAt Char.utf8Size (before ++ replaced ++ behind) stop = some (before ++ replaced, behind) := by
    rw [cutAt_eq_some_iff Char.utf8Size_pos]
    exact ⟨rfl, by rw [← stops, ← starts]; exact byteLength_append ..⟩
  rw [respellLine, outer, inner]
  rfl

/-- The line behind the respelling of a name that has not been moved. -/
theorem lineKept_respelled {done later : List OperatorSpan} {span : OperatorSpan} {ahead front name back : Text}
    (here : Located text span front name back) (opened : isMacroLine (span.line + 1) = false) (clear : '\n' ∉ name)
    (shown : visible (canonicalName semantic span name) = visible name) (aheadShown : visible ahead = visible (lineTail front))
    (aheadLength : byteLength ahead = byteLength (lineTail front))
    (unmoved : shift text semantic isMacroLine span.line done = 0)
    (behind : ∀ other ∈ later, span.byteEnd ≤ other.byteStart) :
    LineKept text semantic isMacroLine (done ++ [span]) later span.line (lineTail front ++ name ++ lineRest back)
      (ahead ++ canonicalName semantic span name ++ lineRest back) := by
  refine ⟨ahead ++ canonicalName semantic span name, lineTail front ++ name, lineRest back, rfl, rfl, ?_, ?_, ?_⟩
  · rw [visible_append, visible_append, shown, aheadShown]
  · rw [shift_concat, unmoved, growth_of_parts here.spanParts_eq, if_pos ⟨rfl, opened, clear⟩, byteLength_append,
      byteLength_append, aheadLength]
    push_cast
    omega
  · intro other member before name' back' there same
    rw [byteLength_append]
    exact (here.later there (behind other member) same).2

/-- The turn at a name that has not been moved. -/
theorem applySpan_takes {span : OperatorSpan} {state : SpacingState} {ahead front name back post : Text}
    (found : state.lines[span.line]? = some (ahead ++ name ++ post)) (here : Located text span front name back)
    (opened : isMacroLine (span.line + 1) = false) (other : canonicalName semantic span name ≠ name)
    (aheadLength : byteLength ahead = byteLength (lineTail front)) :
    ∃ state', applySpan text semantic isMacroLine state span = some state' ∧
      state'.lines = state.lines.set span.line (ahead ++ canonicalName semantic span name ++ post) := by
  have fits : byteLength (lineTail front) + byteLength name ≤ byteLength (ahead ++ name ++ post) := by
    rw [byteLength_append, byteLength_append, aheadLength]
    exact Nat.le_add_right _ _
  have respelled : respellLine (ahead ++ name ++ post) (byteLength (lineTail front))
      (byteLength (lineTail front) + byteLength name) (canonicalName semantic span name) =
      some (ahead ++ canonicalName semantic span name ++ post) := respellLine_eq aheadLength rfl
  have changed : ahead ++ canonicalName semantic span name ++ post ≠ ahead ++ name ++ post := by
    intro equal
    exact other (List.append_cancel_left (List.append_cancel_right equal))
  simp only [applySpan, found, opened, here.spanParts_eq, here.length_eq, Option.bind_some, if_neg other, if_pos fits,
    respelled, Option.map_some, if_neg changed, Bool.false_eq_true, if_false]
  exact ⟨_, rfl, rfl⟩

theorem applySpan_inPlace {done later : List OperatorSpan} {span : OperatorSpan} {state : SpacingState}
    {front name back : Text} (kept : LinesKept text semantic isMacroLine done (span :: later) state)
    (here : Located text span front name back) (behind : ∀ other ∈ later, span.byteEnd ≤ other.byteStart)
    (inPlace : Respelled text semantic isMacroLine span front name →
      Unmoved text semantic isMacroLine done span front name) :
    ∃ state', applySpan text semantic isMacroLine state span = some state' ∧
      LinesKept text semantic isMacroLine (done ++ [span]) later state' := by
  obtain ⟨current, found, line⟩ := kept.kept span.line _ here.line_eq
  by_cases opened : isMacroLine (span.line + 1) = true
  · refine ⟨{ state with skippedSemanticUnsafe := state.skippedSemanticUnsafe + 1 }, ?_, kept.carry ?_ rfl⟩
    · simp only [applySpan, found, opened, if_true]
    · intro other
      rw [growth_of_parts here.spanParts_eq, if_neg (by simp [opened])]
  · rw [Bool.not_eq_true] at opened
    by_cases same : canonicalName semantic span name = name
    · refine ⟨state, ?_, kept.carry ?_ rfl⟩
      · simp [applySpan, found, opened, here.spanParts_eq, same]
      · intro other
        rw [growth_of_parts here.spanParts_eq, same, Int.sub_self, ite_self]
    · have unmoved := inPlace ⟨here.spanParts_eq, opened, same⟩
      by_cases clear : '\n' ∈ name
      · -- The name goes beyond its line and is passed over
        have short : ¬byteLength (lineTail front) + byteLength name ≤ byteLength current := by
          have far := unmoved.beyond clear
          have length := line.byteLength_eq
          rw [rowText, here.line_eq, Option.getD_some] at far
          omega
        refine ⟨state, ?_, kept.carry ?_ rfl⟩
        · simp [applySpan, found, opened, here.spanParts_eq, same, here.length_eq, short]
        · intro other
          rw [growth_of_parts here.spanParts_eq, if_neg (by simp [clear])]
      · have split := here.line_of_clear clear
        have cut := here.line_eq
        rw [split, Option.some.injEq] at cut
        rw [← cut] at line
        have still := unmoved.still clear
        obtain ⟨ahead, rfl, aheadShown, moved⟩ := line.holds here
        have aheadLength : byteLength ahead = byteLength (lineTail front) := by omega
        obtain ⟨state', applied, lines⟩ := applySpan_takes found here opened same aheadLength
        refine ⟨state', applied, kept.set ?_ split
          (lineKept_respelled here opened clear unmoved.shown aheadShown aheadLength still behind) lines⟩
        intro other elsewhere
        rw [growth_of_parts here.spanParts_eq, if_neg (fun whole => elsewhere whole.1.symm)]

/-! ## Whole runs -/

/-- The operator names of a tree in the order of the text. -/
structure OrderedNames (text : Text) (spans : List OperatorSpan) : Prop where
  located : ∀ span ∈ spans, ∃ front name back, Located text span front name back
  ordered : spans.Pairwise fun left right => left.byteEnd ≤ right.byteStart

theorem OperatorNames.sorted {spans : List OperatorSpan} (names : OperatorNames text spans) :
    OrderedNames text (spans.insertionSort fun left right => left.byteStart ≤ right.byteStart) where
  located := fun span member => names.located span ((List.mem_insertionSort _).mp member)
  ordered := by
    have sorted := List.pairwise_insertionSort (fun left right : OperatorSpan => left.byteStart ≤ right.byteStart) spans
    have apart : (spans.insertionSort fun left right => left.byteStart ≤ right.byteStart).Pairwise
        fun left right => left.byteEnd ≤ right.byteStart ∨ right.byteEnd ≤ left.byteStart :=
      (List.perm_insertionSort _ spans).symm.pairwise names.apart fun either => either.symm
    refine (sorted.and apart).imp_of_mem ?_
    intro left right _ member both
    obtain ⟨front, name, back, there⟩ := names.located right ((List.mem_insertionSort _).mp member)
    have wide := there.start_lt
    have order := both.1
    cases both.2 with
    | inl before => exact before
    | inr behind => omega

theorem applySpans_concat (done : List OperatorSpan) (span : OperatorSpan) :
    applySpans text semantic isMacroLine (done ++ [span]) =
      (applySpans text semantic isMacroLine done).bind fun state => applySpan text semantic isMacroLine state span := by
  rw [applySpans, List.foldlM_append]
  simp only [List.foldlM_cons, List.foldlM_nil, bind_pure]
  rfl

theorem StandsInPlace.start {done rest : List OperatorSpan} (inPlace : StandsInPlace text semantic isMacroLine (done ++ rest)) :
    StandsInPlace text semantic isMacroLine done := by
  intro earlier other further front name split respelled
  exact inPlace earlier other (further ++ rest) front name (by rw [split]; simp) respelled

theorem StandsInPlace.concat {done : List OperatorSpan} {span : OperatorSpan} (inPlace : StandsInPlace text semantic isMacroLine done)
    (last : ∀ front name, Respelled text semantic isMacroLine span front name →
      Unmoved text semantic isMacroLine done span front name) : StandsInPlace text semantic isMacroLine (done ++ [span]) := by
  intro earlier other further front name split respelled
  cases further using List.reverseRecOn with
  | nil =>
    obtain ⟨rfl, same⟩ := List.append_inj' split rfl
    cases same
    exact last front name respelled
  | append_singleton further final =>
    rw [← List.cons_append, ← List.append_assoc] at split
    obtain ⟨rfl, _⟩ := List.append_inj' split rfl
    exact inPlace earlier other further front name rfl respelled

theorem applySpans_inPlace {done rest : List OperatorSpan} (ordered : OrderedNames text (done ++ rest))
    (inPlace : StandsInPlace text semantic isMacroLine done) :
    ∃ state, applySpans text semantic isMacroLine done = some state ∧
      LinesKept text semantic isMacroLine done rest state := by
  induction done using List.reverseRecOn generalizing rest with
  | nil => exact ⟨_, rfl, linesKept_start rest⟩
  | append_singleton done span inductionHypothesis =>
    rw [List.append_assoc, List.singleton_append] at ordered
    obtain ⟨state, applied, kept⟩ := inductionHypothesis ordered inPlace.start
    obtain ⟨front, name, back, here⟩ := ordered.located span (by simp)
    have behind := (List.pairwise_cons.mp (List.pairwise_append.mp ordered.ordered).2.1).1
    obtain ⟨state', turned, kept'⟩ := applySpan_inPlace kept here behind (inPlace done span [] front name rfl)
    exact ⟨state', by rw [applySpans_concat, applied, Option.bind_some, turned], kept'⟩

theorem applySpacing_visible {spans : List OperatorSpan} {state : SpacingState}
    (applied : applySpans text semantic isMacroLine
      (spans.insertionSort fun left right => left.byteStart ≤ right.byteStart) = some state)
    (shown : (state.lines.map visible).flatten = visible text) :
    ∃ result, applySpacing text semantic isMacroLine spans = some result ∧
      (result.changed = true → visible result.text = visible text) := by
  rw [applySpacing, applied, Option.map_some]
  refine ⟨_, rfl, ?_⟩
  cases state.edits with
  | nil =>
    intro changed
    cases changed
  | cons first edits =>
    intro _
    rw [← shown]
    exact visible_joinLines (visible_detectLineEnding text) ..

/-- What a turn finds on its line, when the names in front of it were in place. -/
theorem LinesKept.found {done rest : List OperatorSpan} {span : OperatorSpan} {state : SpacingState}
    {current front name back : Text} (kept : LinesKept text semantic isMacroLine done (span :: rest) state)
    (here : Located text span front name back) (found : state.lines[span.line]? = some current) :
    LineKept text semantic isMacroLine done (span :: rest) span.line (rowText text span.line) current := by
  obtain ⟨current', found', line⟩ := kept.kept span.line _ here.line_eq
  rw [found, Option.some.injEq] at found'
  rw [rowText, here.line_eq, found']
  exact line

theorem Located.rowText_eq {front name back : Text} {span : OperatorSpan} (here : Located text span front name back)
    (clear : '\n' ∉ name) : rowText text span.line = lineTail front ++ name ++ lineRest back := by
  rw [rowText, here.line_of_clear clear, Option.getD_some]

/-- The range at the old offsets has the name only when the line has not grown. -/
theorem TakesOwn.unmoved {done rest : List OperatorSpan} {span : OperatorSpan} {current front name back : Text}
    (own : TakesOwn text semantic current span front name)
    (line : LineKept text semantic isMacroLine done (span :: rest) span.line (rowText text span.line) current)
    (here : Located text span front name back) : Unmoved text semantic isMacroLine done span front name where
  shown := own.shown
  still := by
    intro clear
    obtain ⟨before, replaced, behind, post, taken, beforeLength, sameLength, whole, sameAhead, sameBehind⟩ := own.takes clear
    rw [here.rowText_eq clear] at line
    obtain ⟨ahead, rfl, aheadShown, moved⟩ := line.holds here
    rw [here.rowText_eq clear, List.append_cancel_left_eq] at whole
    subst whole
    have place := byteLength_ahead_eq here.solid taken sameLength (sameAhead.trans aheadShown.symm) sameBehind
    omega
  beyond := by
    intro broken
    have short := own.beyond broken
    have length := line.byteLength_eq
    omega

theorem Unmoved.takesOwn {done rest : List OperatorSpan} {span : OperatorSpan} {current front name back : Text}
    (unmoved : Unmoved text semantic isMacroLine done span front name)
    (line : LineKept text semantic isMacroLine done (span :: rest) span.line (rowText text span.line) current)
    (here : Located text span front name back) : TakesOwn text semantic current span front name where
  shown := unmoved.shown
  takes := by
    intro clear
    have still := unmoved.still clear
    rw [here.rowText_eq clear] at line
    obtain ⟨ahead, rfl, aheadShown, moved⟩ := line.holds here
    exact ⟨ahead, name, lineRest back, lineRest back, rfl, by omega, rfl, here.rowText_eq clear, aheadShown, rfl⟩
  beyond := by
    intro broken
    have short := unmoved.beyond broken
    have length := line.byteLength_eq
    omega

/-- The policy changes only whitespace, and makes each name its own canonical spelling, exactly when each name that it
respells keeps what it shows and has not been moved on its line before. -/
theorem applySpacing_whitespace_iff {spans : List OperatorSpan} (names : OperatorNames text spans) :
    WhitespaceOnly text semantic isMacroLine spans ↔
      StandsInPlace text semantic isMacroLine (spans.insertionSort fun left right => left.byteStart ≤ right.byteStart) := by
  have ordered := names.sorted
  constructor
  · intro only
    have all : ∀ done rest, (spans.insertionSort fun left right => left.byteStart ≤ right.byteStart) = done ++ rest →
        StandsInPlace text semantic isMacroLine done := by
      intro done
      induction done using List.reverseRecOn with
      | nil =>
        intro _ _ earlier span rest _ _ split
        simp at split
      | append_singleton done span inductionHypothesis =>
        intro rest whole
        rw [List.append_assoc, List.singleton_append] at whole
        have inPlace := inductionHypothesis _ whole
        rw [whole] at ordered
        obtain ⟨state, applied, kept⟩ := applySpans_inPlace ordered inPlace
        refine inPlace.concat ?_
        intro front name respelled
        obtain ⟨front', name', back, here⟩ := ordered.located span (by simp)
        obtain ⟨rfl, rfl⟩ := Prod.mk.inj (Option.some.inj (here.spanParts_eq.symm.trans respelled.parts))
        obtain ⟨current, found, _⟩ := kept.kept span.line _ here.line_eq
        have own := only.own done span rest front' name' state current whole applied respelled found
        exact own.unmoved (kept.found here found) here
    exact all _ [] (List.append_nil _).symm
  · intro inPlace
    constructor
    · have whole := ordered
      rw [← List.append_nil (spans.insertionSort _)] at whole
      obtain ⟨state, applied, kept⟩ := applySpans_inPlace whole inPlace
      exact applySpacing_visible applied kept.visible_eq
    · intro done span rest front name state current whole applied respelled found
      rw [whole] at ordered inPlace
      obtain ⟨state', applied', kept⟩ := applySpans_inPlace ordered inPlace.start
      rw [applied, Option.some.injEq] at applied'
      subst applied'
      obtain ⟨front', name', back, here⟩ := ordered.located span (by simp)
      obtain ⟨rfl, rfl⟩ := Prod.mk.inj (Option.some.inj (here.spanParts_eq.symm.trans respelled.parts))
      exact (inPlace done span rest front' name' rfl respelled).takesOwn (kept.found here found) here

/-! ## Two operators on a line -/

def operatorDeclaration (name : String) (line column : Nat) : SemanticDeclaration where
  stableId := "c:@S@X@F@" ++ name
  name := name.toList
  kind := cxxMethod
  line := line
  column := column

def operatorContext (declarations : List SemanticDeclaration) : SemanticFileContext where
  declarations := declarations
  references := []
  parseClean := true
  isSafeEdit _ _ := true

/-- The second name becomes that of the first, one byte behind its place. -/
theorem twoOperators_mixed :
    let text := "struct X \x7b\n  X operator +(X); X operator -(X);\n\x7d;\n".toList
    let semantic := operatorContext [operatorDeclaration "operator+" 2 5, operatorDeclaration "operator-" 2 22]
    let spans : List OperatorSpan := [⟨15, 25, 1⟩, ⟨32, 42, 1⟩]
    (applySpacing text semantic (fun _ => false) spans).map (fun result => (result.changed, result.text)) =
        some (true, "struct X \x7b\n  X operator+(X); X ooperator+X);\n\x7d;\n".toList) ∧
      ¬WhitespaceOnly text semantic (fun _ => false) spans := by
  intro text semantic spans
  have produced : (applySpacing text semantic (fun _ => false) spans).map (fun result => (result.changed, result.text)) =
      some (true, "struct X \x7b\n  X operator+(X); X ooperator+X);\n\x7d;\n".toList) := by decide +kernel
  refine ⟨produced, ?_⟩
  intro only
  obtain ⟨result, applied, shown⟩ := only.shown
  rw [applied, Option.map_some, Option.some.injEq, Prod.mk.injEq] at produced
  have same := shown produced.1
  rw [produced.2] at same
  exact absurd same (by decide +kernel)

theorem spacedPlus_located :
    Located "X operator +(X);".toList ⟨2, 12, 0⟩ "X ".toList "operator +".toList "(X);".toList where
  cut := by decide +kernel
  start := by decide +kernel
  stop := by decide +kernel
  line := by decide +kernel
  solid := ⟨⟨'o', by decide +kernel, by decide +kernel⟩, ⟨'+', by decide +kernel, by decide +kernel⟩⟩

/-- A name that stands alone on its line. -/
theorem spacedPlus_whitespace :
    WhitespaceOnly "X operator +(X);".toList (operatorContext []) (fun _ => false) [⟨2, 12, 0⟩] := by
  have names : OperatorNames "X operator +(X);".toList [⟨2, 12, 0⟩] := by
    refine ⟨?_, List.pairwise_singleton _ _⟩
    intro span member
    obtain rfl := List.mem_singleton.mp member
    exact ⟨_, _, _, spacedPlus_located⟩
  refine (applySpacing_whitespace_iff names).mpr ?_
  intro done span rest front name split respelled
  rw [List.insertionSort_cons, List.insertionSort_nil, List.orderedInsert_nil] at split
  cases List.singleton_eq_append_iff.mp split with
  | inl first =>
    obtain ⟨rfl, alone⟩ := first
    cases alone
    obtain ⟨rfl, rfl⟩ := Prod.mk.inj (Option.some.inj (spacedPlus_located.spanParts_eq.symm.trans respelled.parts))
    exact ⟨by decide +kernel, fun _ => rfl, fun broken => absurd broken (by decide +kernel)⟩
  | inr none => cases none.2

end MjFormatter.Verified
