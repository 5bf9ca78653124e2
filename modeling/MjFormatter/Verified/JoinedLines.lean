import Mathlib.Data.List.Induction
import MjFormatter.Policy.TextUtils
import MjFormatter.Verified.TrimmedLines

/-! # Lines that are joined again

Splitting takes one carriage return from the end of every line, joining puts one line ending behind every line but the
last.  The two undo each other on texts whose line feeds all have a carriage return in front of them, or none. -/

namespace MjFormatter.Verified

/-! ## Pieces between line feeds -/

theorem splitFeeds_eq_splitOn (text : Text) : splitFeeds text = text.splitOn '\n' := by
  induction text with
  | nil => rfl
  | cons symbol rest inductionHypothesis =>
    rw [splitFeeds, inductionHypothesis, List.splitOn_cons_eq_if_modifyHead]
    by_cases feed : symbol = '\n'
    · rw [if_pos feed, if_pos (beq_iff_eq.mpr feed)]
    · rw [if_neg feed, if_neg (fun same => feed (beq_iff_eq.mp same))]
      cases pieces : List.splitOn '\n' rest with
      | nil => exact absurd pieces (List.splitOn_ne_nil '\n' rest)
      | cons piece pieces => rfl

theorem splitFeeds_ne_nil (text : Text) : splitFeeds text ≠ [] := by
  rw [splitFeeds_eq_splitOn]
  exact List.splitOn_ne_nil '\n' text

theorem intercalate_splitFeeds (text : Text) : ['\n'].intercalate (splitFeeds text) = text := by
  rw [splitFeeds_eq_splitOn, List.intercalate_splitOn]

theorem splitFeeds_intercalate {lines : List Text} (some : lines ≠ []) (clear : ∀ line ∈ lines, '\n' ∉ line) :
    splitFeeds (['\n'].intercalate lines) = lines := by
  rw [splitFeeds_eq_splitOn, List.splitOn_intercalate '\n' clear some]

theorem clear_of_mem_splitFeeds {text line : Text} (member : line ∈ splitFeeds text) : '\n' ∉ line := by
  induction text generalizing line with
  | nil =>
    rw [splitFeeds, List.mem_singleton] at member
    rw [member]
    exact List.not_mem_nil
  | cons symbol rest inductionHypothesis =>
    rw [splitFeeds] at member
    split at member
    · cases member with
      | head => exact List.not_mem_nil
      | tail _ member => exact inductionHypothesis member
    · next other =>
      cases pieces : splitFeeds rest with
      | nil => exact absurd pieces (splitFeeds_ne_nil rest)
      | cons piece further =>
        rw [pieces] at member inductionHypothesis
        cases member with
        | head =>
          rw [List.mem_cons, not_or]
          exact ⟨fun same => other same.symm, inductionHypothesis List.mem_cons_self⟩
        | tail _ member => exact inductionHypothesis (List.mem_cons_of_mem _ member)

/-! ## Carriage returns -/

theorem stripCarriageReturn_eq (line : Text) : stripCarriageReturn line = if line.getLast? = some '\r' then line.dropLast else line := by
  rw [stripCarriageReturn, stripSuffixChar]
  split <;> rfl

theorem stripCarriageReturn_concat (line : Text) : stripCarriageReturn (line ++ ['\r']) = line := by
  rw [stripCarriageReturn_eq, List.getLast?_concat, if_pos rfl, List.dropLast_concat]

theorem stripCarriageReturn_of_ne {line : Text} (other : line.getLast? ≠ some '\r') : stripCarriageReturn line = line := by
  rw [stripCarriageReturn_eq, if_neg other]

theorem stripCarriageReturn_eq_self_iff {line : Text} : stripCarriageReturn line = line ↔ line.getLast? ≠ some '\r' := by
  constructor
  · intro same ends
    obtain ⟨front, rfl⟩ := List.getLast?_eq_some_iff.mp ends
    rw [stripCarriageReturn_concat] at same
    have lengths := congrArg List.length same
    rw [List.length_append, List.length_singleton] at lengths
    omega
  · exact stripCarriageReturn_of_ne

theorem clear_stripCarriageReturn {line : Text} (clear : '\n' ∉ line) : '\n' ∉ stripCarriageReturn line := by
  rw [stripCarriageReturn_eq]
  split
  · exact fun member => clear (List.dropLast_subset line member)
  · exact clear

/-! ## The pieces of joined lines -/

/-- What a text has in front of its line feeds. -/
def carriage (windows : Bool) : Text := if windows then ['\r'] else []

/-- The pieces that joining makes of lines: all but the last get what stands in front of the line feeds. -/
def ended (front : Text) : List Text → List Text
  | [] => []
  | [line] => [line]
  | line :: next :: lines => (line ++ front) :: ended front (next :: lines)

theorem ended_ne_nil {front : Text} {lines : List Text} (some : lines ≠ []) : ended front lines ≠ [] := by
  match lines with
  | [] => exact absurd rfl some
  | [line] => exact List.cons_ne_nil _ _
  | line :: next :: lines => exact List.cons_ne_nil _ _

theorem clear_ended {front : Text} (clearFront : '\n' ∉ front) :
    ∀ {lines : List Text}, (∀ line ∈ lines, '\n' ∉ line) → ∀ line ∈ ended front lines, '\n' ∉ line
  | [], _ => by simp [ended]
  | [line], clear => by simpa [ended] using clear
  | line :: next :: lines, clear => by
    have later := @clear_ended front clearFront (next :: lines) fun other member => clear other (List.mem_cons_of_mem _ member)
    intro other member
    rw [ended, List.mem_cons] at member
    cases member with
    | inl here =>
      rw [here, List.mem_append, not_or]
      exact ⟨clear line List.mem_cons_self, clearFront⟩
    | inr there => exact later other there

theorem intercalate_ended (front : Text) : ∀ lines : List Text,
    (front ++ ['\n']).intercalate lines = ['\n'].intercalate (ended front lines)
  | [] => rfl
  | [line] => by simp [ended]
  | line :: next :: lines => by
    rw [List.intercalate_cons_cons, intercalate_ended front (next :: lines), ended,
      List.intercalate_cons_of_ne_nil (ended_ne_nil (List.cons_ne_nil _ _))]
    simp only [List.append_assoc]

theorem splitFeeds_joined {front : Text} {lines : List Text} (clearFront : '\n' ∉ front) (some : lines ≠ [])
    (clear : ∀ line ∈ lines, '\n' ∉ line) : splitFeeds ((front ++ ['\n']).intercalate lines) = ended front lines := by
  rw [intercalate_ended, splitFeeds_intercalate (ended_ne_nil some) (clear_ended clearFront clear)]

/-! ## The line ending that is detected -/

/-- A line feed of the text has a carriage return in front of it. -/
def ReturnedFeed (text : Text) : Prop := ∃ line ∈ (splitFeeds text).dropLast, line.getLast? = some '\r'

instance (text : Text) : Decidable (ReturnedFeed text) := inferInstanceAs (Decidable (∃ line ∈ _, _))

theorem returnedFeed_feed (rest : Text) : ReturnedFeed ('\n' :: rest) ↔ ReturnedFeed rest := by
  rw [ReturnedFeed, ReturnedFeed, splitFeeds, if_pos rfl, List.dropLast_cons_of_ne_nil (splitFeeds_ne_nil rest)]
  simp

theorem returnedFeed_other {symbol : Char} {rest : Text} (other : symbol ≠ '\n') :
    ReturnedFeed (symbol :: rest) ↔ (symbol = '\r' ∧ rest.head? = some '\n') ∨ ReturnedFeed rest := by
  rw [ReturnedFeed, ReturnedFeed, splitFeeds, if_neg other]
  cases rest with
  | nil => simp [splitFeeds]
  | cons next rest =>
    by_cases feed : next = '\n'
    · rw [splitFeeds, if_pos feed]
      simp only [List.dropLast_cons_of_ne_nil (splitFeeds_ne_nil rest)]
      simp [feed]
    · cases pieces : splitFeeds rest with
      | nil => exact absurd pieces (splitFeeds_ne_nil rest)
      | cons line lines =>
        rw [splitFeeds, if_neg feed, pieces]
        -- The piece in front goes on behind the symbol, so that its end is the same.
        cases lines with
        | nil => simp [feed]
        | cons further lines => simp [feed, List.getLast?_cons]

theorem detectLineEnding_eq (text : Text) : detectLineEnding text = if ReturnedFeed text then "\r\n" else "\n" := by
  fun_induction detectLineEnding text with
  | case1 rest =>
    rw [if_pos]
    exact (returnedFeed_other (by decide)).mpr (.inl ⟨rfl, rfl⟩)
  | case2 symbol rest notBoth inductionHypothesis =>
    rw [inductionHypothesis]
    by_cases feed : symbol = '\n'
    · rw [feed]
      simp only [returnedFeed_feed]
    · have same : ReturnedFeed (symbol :: rest) ↔ ReturnedFeed rest := by
        rw [returnedFeed_other feed]
        constructor
        · rintro (⟨rfl, next⟩ | later)
          · obtain ⟨tail, rfl⟩ := List.head?_eq_some_iff.mp next
            exact absurd rfl (notBoth tail rfl)
          · exact later
        · exact .inr
      simp only [same]
  | case3 => rfl

theorem detectLineEnding_toList (text : Text) :
    (detectLineEnding text).toList = carriage (decide (ReturnedFeed text)) ++ ['\n'] := by
  rw [detectLineEnding_eq]
  by_cases returned : ReturnedFeed text
  · rw [if_pos returned, decide_eq_true returned]
    rfl
  · rw [if_neg returned, decide_eq_false returned]
    rfl

/-! ## Texts that end in a line feed -/

theorem splitFeeds_concat_feed (body : Text) : splitFeeds (body ++ ['\n']) = splitFeeds body ++ [[]] := by
  induction body with
  | nil => rfl
  | cons symbol body inductionHypothesis =>
    rw [List.cons_append, splitFeeds, splitFeeds, inductionHypothesis]
    split
    · rfl
    · cases pieces : splitFeeds body with
      | nil => exact absurd pieces (splitFeeds_ne_nil body)
      | cons piece pieces => rfl

theorem intercalate_concat_nil (eol : Text) {lines : List Text} (some : lines ≠ []) :
    eol.intercalate (lines ++ [[]]) = eol.intercalate lines ++ eol := by
  induction lines with
  | nil => exact absurd rfl some
  | cons line lines inductionHypothesis =>
    cases lines with
    | nil => simp
    | cons next lines =>
      rw [List.cons_append, List.intercalate_cons_of_ne_nil (by simp), inductionHypothesis (List.cons_ne_nil _ _),
        List.intercalate_cons_of_ne_nil (List.cons_ne_nil _ _)]
      simp only [List.append_assoc]

theorem joinLines_eq (eol : Text) {lines : List Text} (some : lines ≠ []) (trailingNewline : Bool) :
    joinLines lines eol trailingNewline =
      eol.intercalate (if trailingNewline ∧ ¬eol <:+ eol.intercalate lines then lines ++ [[]] else lines) := by
  rw [joinLines, if_neg some]
  by_cases closing : trailingNewline = true ∧ ¬eol <:+ eol.intercalate lines
  · rw [if_pos closing, if_pos (by simpa [← List.isSuffixOf_iff_suffix] using closing), intercalate_concat_nil eol some]
  · rw [if_neg closing, if_neg (by simpa [← List.isSuffixOf_iff_suffix] using closing)]

/-- Lines of which the last is empty are only joined. -/
theorem joinLines_of_empty_last {eol : Text} {lines : List Text} (some : lines ≠ []) (trailingNewline : Bool) :
    joinLines (lines ++ [[]]) eol trailingNewline = eol.intercalate (lines ++ [[]]) := by
  rw [joinLines_eq eol (by simp), if_neg]
  rintro ⟨_, other⟩
  rw [intercalate_concat_nil eol some] at other
  exact other (List.suffix_append _ _)

theorem splitLinesCow_of_ne_nil {text : Text} (some : text ≠ []) :
    splitLinesCow text = (splitFeeds text).map stripCarriageReturn := if_neg some

theorem joinLines_splitLinesCow {text : Text} (some : text ≠ []) (eol : Text) :
    joinLines (splitLinesCow text) eol (endsWithFeed text) = eol.intercalate ((splitFeeds text).map stripCarriageReturn) := by
  rw [splitLinesCow_of_ne_nil some]
  by_cases feed : text.getLast? = Option.some '\n'
  · obtain ⟨body, rfl⟩ := List.getLast?_eq_some_iff.mp feed
    rw [splitFeeds_concat_feed, List.map_append]
    exact joinLines_of_empty_last (by simpa using splitFeeds_ne_nil body) _
  · rw [endsWithFeed, decide_eq_false feed, joinLines_eq eol (by simpa using splitFeeds_ne_nil text), if_neg]
    rintro ⟨closing, _⟩
    cases closing

/-! ## Splitting and joining -/

/-- All line feeds have a carriage return in front of them, or none has, and there is none at the end of the text. -/
structure UniformEnds (text : Text) : Prop where
  feeds : (∀ line ∈ (splitFeeds text).dropLast, line.getLast? = some '\r') ∨
    (∀ line ∈ (splitFeeds text).dropLast, line.getLast? ≠ some '\r')
  last : text.getLast? ≠ some '\r'

theorem splitFeeds_concat_other {symbol : Char} (other : symbol ≠ '\n') (body : Text) :
    ∃ front last, splitFeeds body = front ++ [last] ∧ splitFeeds (body ++ [symbol]) = front ++ [last ++ [symbol]] := by
  induction body with
  | nil => exact ⟨[], [], rfl, by simp [splitFeeds, other]⟩
  | cons first body inductionHypothesis =>
    obtain ⟨front, last, before, after⟩ := inductionHypothesis
    rw [List.cons_append, splitFeeds, splitFeeds, before, after]
    by_cases feed : first = '\n'
    · rw [if_pos feed, if_pos feed]
      exact ⟨[] :: front, last, rfl, rfl⟩
    · rw [if_neg feed, if_neg feed]
      cases front with
      | nil => exact ⟨[], first :: last, rfl, rfl⟩
      | cons piece front => exact ⟨(first :: piece) :: front, last, rfl, rfl⟩

/-- The last line ends in a carriage return if the text does. -/
theorem getLast?_returned_iff (text : Text) : text.getLast? = some '\r' ↔
    ((splitFeeds text).getLast (splitFeeds_ne_nil text)).getLast? = some '\r' := by
  cases text using List.reverseRecOn with
  | nil => simp [splitFeeds]
  | append_singleton body symbol =>
    by_cases feed : symbol = '\n'
    · simp [feed, splitFeeds_concat_feed]
    · obtain ⟨front, last, _, pieces⟩ := splitFeeds_concat_other feed body
      simp [pieces]

theorem ended_map_strip_iff (front : Text) : ∀ pieces : List Text, ∀ nonempty : pieces ≠ [],
    ended front (pieces.map stripCarriageReturn) = pieces ↔
      (∀ piece ∈ pieces.dropLast, stripCarriageReturn piece ++ front = piece) ∧
        stripCarriageReturn (pieces.getLast nonempty) = pieces.getLast nonempty
  | [], nonempty => absurd rfl nonempty
  | [piece], _ => by simp [ended]
  | piece :: next :: pieces, _ => by
    have later := ended_map_strip_iff front (next :: pieces) (List.cons_ne_nil _ _)
    rw [List.map_cons] at later
    rw [List.map_cons, List.map_cons, ended, List.cons.injEq, later]
    simp [and_assoc]

theorem strip_carriage_iff (windows : Bool) (piece : Text) :
    stripCarriageReturn piece ++ carriage windows = piece ↔ (piece.getLast? = some '\r' ↔ windows = true) := by
  cases windows with
  | false =>
    rw [carriage, if_neg Bool.false_ne_true, List.append_nil, stripCarriageReturn_eq_self_iff]
    simp
  | true =>
    rw [carriage, if_pos rfl]
    constructor
    · intro same
      rw [← same, List.getLast?_concat]
      simp
    · intro returned
      obtain ⟨front, rfl⟩ := List.getLast?_eq_some_iff.mp (returned.mpr rfl)
      rw [stripCarriageReturn_concat]

theorem clear_carriage (windows : Bool) : '\n' ∉ carriage windows := by cases windows <;> decide

theorem clear_stripped (text : Text) : ∀ line ∈ (splitFeeds text).map stripCarriageReturn, '\n' ∉ line := by
  intro line member
  obtain ⟨piece, found, rfl⟩ := List.mem_map.mp member
  exact clear_stripCarriageReturn (clear_of_mem_splitFeeds found)

theorem uniformEnds_iff (text : Text) : UniformEnds text ↔
    (∀ piece ∈ (splitFeeds text).dropLast, (piece.getLast? = some '\r' ↔ ReturnedFeed text)) ∧ text.getLast? ≠ some '\r' := by
  constructor
  · intro uniform
    refine ⟨fun piece member => ?_, uniform.last⟩
    cases uniform.feeds with
    | inl all => exact ⟨fun ends => ⟨piece, member, ends⟩, fun _ => all piece member⟩
    | inr none => exact ⟨fun ends => absurd ends (none piece member), fun ⟨other, found, ends⟩ => absurd ends (none other found)⟩
  · rintro ⟨same, last⟩
    refine ⟨?_, last⟩
    by_cases returned : ReturnedFeed text
    · exact .inl fun piece member => (same piece member).mpr returned
    · exact .inr fun piece member ends => returned ((same piece member).mp ends)

theorem length_ended (front : Text) : ∀ lines : List Text, (ended front lines).length = lines.length
  | [] => rfl
  | [_] => rfl
  | _ :: next :: lines => congrArg Nat.succ (length_ended front (next :: lines))

theorem getElem?_ended (front : Text) : ∀ (lines : List Text) (idx : Nat),
    (ended front lines)[idx]? = lines[idx]?.map fun line => if idx + 1 < lines.length then line ++ front else line
  | [], _ => by simp [ended]
  | [line], 0 => rfl
  | [line], idx + 1 => by simp [ended]
  | line :: next :: lines, 0 => by simp [ended]
  | line :: next :: lines, idx + 1 => by
    rw [ended, List.getElem?_cons_succ, getElem?_ended front (next :: lines) idx]
    simp

theorem joinLines_splitLinesCow_eq_iff (text : Text) :
    joinLines (splitLinesCow text) (detectLineEnding text).toList (endsWithFeed text) = text ↔ UniformEnds text := by
  by_cases empty : text = []
  · rw [empty]
    exact ⟨fun _ => ⟨.inl (by simp [splitFeeds]), by simp⟩, fun _ => rfl⟩
  · have nonempty := splitFeeds_ne_nil text
    rw [joinLines_splitLinesCow empty, detectLineEnding_toList, uniformEnds_iff, ne_eq, getLast?_returned_iff]
    generalize decide_eq : decide (ReturnedFeed text) = windows
    have pieces := splitFeeds_joined (clear_carriage windows) (by simpa using nonempty) (clear_stripped text)
    -- Two texts are the same if their pieces are.
    have byPieces : (carriage windows ++ ['\n']).intercalate ((splitFeeds text).map stripCarriageReturn) = text ↔
        ended (carriage windows) ((splitFeeds text).map stripCarriageReturn) = splitFeeds text := by
      constructor
      · intro same
        rw [← pieces, same]
      · intro same
        rw [intercalate_ended, same, intercalate_splitFeeds]
    rw [byPieces, ended_map_strip_iff _ _ nonempty, stripCarriageReturn_eq_self_iff]
    simp only [strip_carriage_iff, ← decide_eq, decide_eq_true_eq, ne_eq]

/-- Whatever lines a policy puts in place of some lines of the text, the others are what they were, carriage returns
included. -/
def KeepsUnedited (text : Text) : Prop :=
  ∀ edited : List Text, edited.length = (splitLinesCow text).length → (∀ line ∈ edited, '\n' ∉ line) →
    ∀ idx < edited.length, edited[idx]? = (splitLinesCow text)[idx]? →
      (splitFeeds (joinLines edited (detectLineEnding text).toList (endsWithFeed text)))[idx]? = (splitFeeds text)[idx]?

theorem UniformEnds.piece_eq {text : Text} (uniform : UniformEnds text) (nonempty : text ≠ []) (idx : Nat) :
    (splitFeeds text)[idx]? = (ended (carriage (decide (ReturnedFeed text))) (splitLinesCow text))[idx]? := by
  have whole := (joinLines_splitLinesCow_eq_iff text).mpr uniform
  rw [joinLines_splitLinesCow nonempty, detectLineEnding_toList] at whole
  have pieces := splitFeeds_joined (clear_carriage (decide (ReturnedFeed text))) (by simpa using splitFeeds_ne_nil text)
    (clear_stripped text)
  rw [whole] at pieces
  rw [splitLinesCow_of_ne_nil nonempty, ← pieces]

/-- The last of the lines stays the last one, unless it is filled where the text ends in a line feed. -/
theorem splitFeeds_rejoined {windows trailing : Bool} {lines : List Text} (nonempty : lines ≠ [])
    (clear : ∀ line ∈ lines, '\n' ∉ line) {idx : Nat} (bound : idx < lines.length)
    (here : trailing = true → idx + 1 = lines.length → 1 < lines.length ∧ lines[idx]? = some []) :
    (splitFeeds (joinLines lines (carriage windows ++ ['\n']) trailing))[idx]? = (ended (carriage windows) lines)[idx]? := by
  rw [joinLines_eq _ nonempty]
  split
  · next closing =>
    have clearMore : ∀ line ∈ lines ++ [[]], '\n' ∉ line := by
      intro line member
      cases List.mem_append.mp member with
      | inl old => exact clear line old
      | inr new =>
        rw [List.mem_singleton.mp new]
        exact List.not_mem_nil
    rw [splitFeeds_joined (clear_carriage windows) (by simp) clearMore, getElem?_ended, getElem?_ended,
      List.getElem?_append_left bound]
    have inside : idx + 1 < lines.length := by
      by_contra outside
      have lastHere : idx + 1 = lines.length := by omega
      obtain ⟨several, empty⟩ := here closing.1 lastHere
      -- The empty last line of several has a line ending in front of it.
      obtain ⟨ahead, last, rfl⟩ := (List.eq_nil_or_concat' lines).resolve_left nonempty
      rw [List.length_append, List.length_singleton] at lastHere several
      have idxLast : idx = ahead.length := by omega
      rw [idxLast, List.getElem?_concat_length, Option.some.injEq] at empty
      have aheadSome : ahead ≠ [] := by
        rintro rfl
        exact Nat.lt_irrefl _ several
      refine closing.2 ?_
      rw [empty, intercalate_concat_nil _ aheadSome]
      exact List.suffix_append _ _
    have insideMore : idx + 1 < (lines ++ [[]]).length := by
      rw [List.length_append]
      omega
    simp only [if_pos inside, if_pos insideMore]
  · rw [splitFeeds_joined (clear_carriage windows) nonempty clear]

theorem UniformEnds.keepsUnedited {text : Text} (uniform : UniformEnds text) : KeepsUnedited text := by
  intro edited lengths clear idx bound same
  have nonempty : text ≠ [] := by
    rintro rfl
    rw [lengths] at bound
    exact absurd bound (Nat.not_lt_zero _)
  have someEdited : edited ≠ [] := List.ne_nil_of_length_pos (by omega)
  have lengthPieces : edited.length = (splitFeeds text).length := by
    rw [lengths, splitLinesCow_of_ne_nil nonempty, List.length_map]
  rw [uniform.piece_eq nonempty idx, detectLineEnding_toList, splitFeeds_rejoined someEdited clear bound, getElem?_ended,
    getElem?_ended, lengths, same]
  intro trailing lastHere
  rw [endsWithFeed, decide_eq_true_eq] at trailing
  obtain ⟨body, rfl⟩ := List.getLast?_eq_some_iff.mp trailing
  rw [splitFeeds_concat_feed, List.length_append, List.length_singleton] at lengthPieces
  have idxLast : idx = ((splitFeeds body).map stripCarriageReturn).length := by
    rw [List.length_map]
    omega
  have several := List.length_pos_of_ne_nil (splitFeeds_ne_nil body)
  refine ⟨by omega, ?_⟩
  rw [same, splitLinesCow_of_ne_nil nonempty, splitFeeds_concat_feed, List.map_append, idxLast]
  exact List.getElem?_concat_length ..

theorem splitAndRejoin_identity_iff (text : Text) :
    (joinLines (splitLinesCow text) (detectLineEnding text).toList (endsWithFeed text) = text ∧ KeepsUnedited text) ↔
      UniformEnds text := by
  constructor
  · rintro ⟨same, _⟩
    exact (joinLines_splitLinesCow_eq_iff text).mp same
  · intro uniform
    exact ⟨(joinLines_splitLinesCow_eq_iff text).mpr uniform, uniform.keepsUnedited⟩

/-- Lines that are put in place of those of a text are read again as they are; only the last one can lose another
carriage return. -/
theorem splitLinesCow_rejoined {text : Text} {lines : List Text} (filled : lines ≠ [[]]) (nonempty : lines ≠ [])
    (clear : ∀ line ∈ lines, '\n' ∉ line)
    (unreturned : ¬ReturnedFeed text → ∀ line ∈ lines.dropLast, line.getLast? ≠ some '\r')
    (closed : endsWithFeed text = true → ∃ ahead, ahead ≠ [] ∧ lines = ahead ++ [[]]) (idx : Nat) :
    (splitLinesCow (joinLines lines (detectLineEnding text).toList (endsWithFeed text)))[idx]? =
      lines[idx]?.map fun line => if idx + 1 < lines.length then line else stripCarriageReturn line := by
  rw [detectLineEnding_toList]
  generalize decide_eq : decide (ReturnedFeed text) = windows
  have joined : joinLines lines (carriage windows ++ ['\n']) (endsWithFeed text) =
      (carriage windows ++ ['\n']).intercalate lines := by
    cases trailing : endsWithFeed text with
    | true =>
      obtain ⟨ahead, someAhead, rfl⟩ := closed trailing
      exact joinLines_of_empty_last someAhead _
    | false => rw [joinLines_eq _ nonempty, if_neg (fun closing => Bool.false_ne_true closing.1)]
  have pieces := splitFeeds_joined (clear_carriage windows) nonempty clear
  have someText : (carriage windows ++ ['\n']).intercalate lines ≠ [] := by
    intro empty
    rw [empty] at pieces
    match lines with
    | [] => exact nonempty rfl
    | [line] => exact filled pieces.symm
    | line :: next :: lines =>
      have lengths := congrArg List.length pieces
      rw [length_ended] at lengths
      simp [splitFeeds] at lengths
  rw [joined, splitLinesCow_of_ne_nil someText, pieces, List.getElem?_map, getElem?_ended, Option.map_map]
  cases found : lines[idx]? with
  | none => rfl
  | some line =>
    rw [Option.map_some, Option.map_some, Option.some.injEq, Function.comp_apply]
    split
    · next inside =>
      cases windows with
      | true => exact stripCarriageReturn_concat line
      | false =>
        have early : line ∈ lines.dropLast := by
          rw [List.dropLast_eq_take]
          refine List.mem_of_getElem? (i := idx) ?_
          rw [List.getElem?_take_of_lt (by omega), found]
        rw [carriage, if_neg Bool.false_ne_true, List.append_nil]
        exact stripCarriageReturn_of_ne (unreturned (of_decide_eq_false decide_eq) line early)
    · rfl

theorem clear_splitLinesCow (text : Text) : ∀ line ∈ splitLinesCow text, '\n' ∉ line := by
  rw [splitLinesCow]
  split
  · exact fun _ member => absurd member List.not_mem_nil
  · exact clear_stripped text

theorem unreturned_splitLinesCow {text : Text} (unreturned : ¬ReturnedFeed text) {idx : Nat} {line : Text}
    (found : (splitLinesCow text)[idx]? = some line) (inside : idx + 1 < (splitLinesCow text).length) :
    line.getLast? ≠ some '\r' := by
  have nonempty : text ≠ [] := by
    rintro rfl
    exact absurd inside (Nat.not_lt_zero _)
  rw [splitLinesCow_of_ne_nil nonempty, List.getElem?_map, Option.map_eq_some_iff] at found
  rw [splitLinesCow_of_ne_nil nonempty, List.length_map] at inside
  obtain ⟨piece, here, rfl⟩ := found
  have early : piece ∈ (splitFeeds text).dropLast := by
    rw [List.dropLast_eq_take]
    refine List.mem_of_getElem? (i := idx) ?_
    rw [List.getElem?_take_of_lt (by omega), here]
  have plain : piece.getLast? ≠ some '\r' := fun ends => unreturned ⟨piece, early, ends⟩
  rwa [stripCarriageReturn_of_ne plain]

theorem closed_splitLinesCow {text : Text} (trailing : endsWithFeed text = true) :
    ∃ ahead, ahead ≠ [] ∧ splitLinesCow text = ahead ++ [[]] := by
  rw [endsWithFeed, decide_eq_true_eq] at trailing
  obtain ⟨body, rfl⟩ := List.getLast?_eq_some_iff.mp trailing
  refine ⟨(splitFeeds body).map stripCarriageReturn, by simpa using splitFeeds_ne_nil body, ?_⟩
  rw [splitLinesCow_of_ne_nil (by simp), splitFeeds_concat_feed, List.map_append]
  rfl

/-- Filled lines in place of filled ones are read again as they are. -/
theorem splitLinesCow_spliced {text : Text} {front block back lines : List Text}
    (whole : splitLinesCow text = front ++ block ++ back) (blockFilled : ∀ line ∈ block, line ≠ []) (some : block ≠ [])
    (linesFilled : ∀ line ∈ lines, '\n' ∉ line ∧ line ≠ [] ∧ line.getLast? ≠ .some '\r') (someLines : lines ≠ []) {idx : Nat}
    {line : Text} (found : lines[idx]? = .some line) :
    (splitLinesCow (joinLines (front ++ lines ++ back) (detectLineEnding text).toList (endsWithFeed text)))[front.length + idx]? =
      .some line := by
  have linesBound := (List.getElem?_eq_some_iff.mp found).1
  have blockBound := List.length_pos_of_ne_nil some
  have clear : ∀ line ∈ front ++ lines ++ back, '\n' ∉ line := by
    intro line member
    have old : line ∈ front ∨ line ∈ back → '\n' ∉ line := fun side =>
      clear_splitLinesCow text line (by rw [whole]; simp only [List.mem_append]; tauto)
    rw [List.mem_append, List.mem_append] at member
    rcases member with (inFront | new) | inBack
    · exact old (.inl inFront)
    · exact (linesFilled line new).1
    · exact old (.inr inBack)
  have unreturned : ¬ReturnedFeed text → ∀ line ∈ (front ++ lines ++ back).dropLast, line.getLast? ≠ .some '\r' := by
    intro plain line member
    obtain ⟨row, there⟩ := List.getElem?_of_mem member
    rw [List.dropLast_eq_take] at there
    have bound := (List.getElem?_eq_some_iff.mp there).1
    rw [List.length_take, List.length_append, List.length_append] at bound
    rw [List.getElem?_take_of_lt (by simp only [List.length_append]; omega)] at there
    by_cases inFront : row < front.length
    · rw [List.append_assoc, List.getElem?_append_left inFront] at there
      refine @unreturned_splitLinesCow _ plain row _ ?_ ?_
      · rw [whole, List.append_assoc, List.getElem?_append_left inFront, there]
      · simp only [whole, List.length_append]
        omega
    · by_cases inLines : row < front.length + lines.length
      · rw [List.append_assoc, List.getElem?_append_right (by omega), List.getElem?_append_left (by omega)] at there
        exact (linesFilled line (List.mem_of_getElem? there)).2.2
      · rw [List.getElem?_append_right (by rw [List.length_append]; omega), List.length_append] at there
        refine @unreturned_splitLinesCow _ plain (front.length + block.length + (row - (front.length + lines.length))) _ ?_ ?_
        · rw [whole, List.getElem?_append_right (by rw [List.length_append]; omega), List.length_append, Nat.add_sub_cancel_left,
            there]
        · simp only [whole, List.length_append]
          omega
  have closed : endsWithFeed text = true → ∃ ahead, ahead ≠ [] ∧ front ++ lines ++ back = ahead ++ [[]] := by
    intro trailing
    obtain ⟨ahead, _, split⟩ := closed_splitLinesCow trailing
    rw [whole] at split
    have behind : back.getLast? = .some [] := by
      have last := congrArg List.getLast? split
      rw [List.getLast?_concat, List.getLast?_append] at last
      cases ends : back.getLast? with
      | some final =>
        rw [ends, Option.some_or] at last
        exact last
      | none =>
        rw [ends, Option.none_or, List.getLast?_append_of_ne_nil _ some] at last
        exact absurd rfl (blockFilled [] (List.mem_of_getLast? last))
    obtain ⟨rest, rfl⟩ := List.getLast?_eq_some_iff.mp behind
    refine ⟨front ++ lines ++ rest, ?_, by rw [List.append_assoc _ rest]⟩
    exact List.append_ne_nil_of_left_ne_nil (List.append_ne_nil_of_right_ne_nil _ someLines) _
  have here : (front ++ lines ++ back)[front.length + idx]? = .some line := by
    rw [List.append_assoc, List.getElem?_append_right (Nat.le_add_right _ _), Nat.add_sub_cancel_left,
      List.getElem?_append_left linesBound, found]
  have filled : front ++ lines ++ back ≠ [[]] := by
    intro single
    rw [single] at here
    have member := List.mem_of_getElem? here
    exact (linesFilled line (List.mem_of_getElem? found)).2.1 (List.mem_singleton.mp member)
  have nonempty : front ++ lines ++ back ≠ [] := List.ne_nil_of_mem (List.mem_of_getElem? here)
  rw [splitLinesCow_rejoined filled nonempty clear unreturned closed, here, Option.map_some,
    stripCarriageReturn_of_ne (linesFilled line (List.mem_of_getElem? found)).2.2, ite_self]

/-- A line that stayed, or one with another line in its place; an empty line stays. -/
def Retouched (original line : Text) : Prop :=
  line = original ∨ ('\n' ∉ line ∧ line.getLast? ≠ some '\r' ∧ line ≠ [] ∧ original ≠ [])

/-- The lines of a text, some of them replaced. -/
structure RetouchedLines (text : Text) (lines : List Text) : Prop where
  length_eq : lines.length = (splitLinesCow text).length
  line : ∀ {idx : Nat} {original line : Text}, (splitLinesCow text)[idx]? = some original → lines[idx]? = some line → Retouched original line

theorem RetouchedLines.original {text : Text} {lines : List Text} (retouched : RetouchedLines text lines) {idx : Nat}
    {line : Text} (found : lines[idx]? = some line) : ∃ original, (splitLinesCow text)[idx]? = some original := by
  obtain ⟨bound, _⟩ := List.getElem?_eq_some_iff.mp found
  exact ⟨_, List.getElem?_eq_getElem (retouched.length_eq ▸ bound)⟩

theorem RetouchedLines.clear {text : Text} {lines : List Text} (retouched : RetouchedLines text lines) :
    ∀ line ∈ lines, '\n' ∉ line := by
  intro line member
  obtain ⟨idx, found⟩ := List.getElem?_of_mem member
  obtain ⟨original, here⟩ := retouched.original found
  cases retouched.line here found with
  | inl same => exact same ▸ clear_splitLinesCow text original (List.mem_of_getElem? here)
  | inr new => exact new.1

theorem RetouchedLines.closed {text : Text} {lines : List Text} (retouched : RetouchedLines text lines)
    (trailing : endsWithFeed text = true) : ∃ ahead, ahead ≠ [] ∧ lines = ahead ++ [[]] := by
  obtain ⟨ahead, someAhead, split⟩ := closed_splitLinesCow trailing
  have lengths := retouched.length_eq
  have someLines : lines ≠ [] := List.ne_nil_of_length_pos (by rw [lengths, split, List.length_append]; exact Nat.succ_pos _)
  obtain ⟨front, last, rfl⟩ := (List.eq_nil_or_concat' lines).resolve_left someLines
  rw [split, List.length_append, List.length_append, List.length_singleton] at lengths
  have sameLength : front.length = ahead.length := Nat.succ.inj lengths
  have here : (splitLinesCow text)[front.length]? = some [] := by rw [split, sameLength, List.getElem?_concat_length]
  cases retouched.line here List.getElem?_concat_length with
  | inl same =>
    refine ⟨front, ?_, by rw [same]⟩
    exact List.ne_nil_of_length_pos (sameLength ▸ List.length_pos_of_ne_nil someAhead)
  | inr new => exact absurd rfl new.2.2.2

theorem RetouchedLines.unreturned {text : Text} {lines : List Text} (retouched : RetouchedLines text lines)
    (unreturned : ¬ReturnedFeed text) : ∀ line ∈ lines.dropLast, line.getLast? ≠ some '\r' := by
  intro line member
  obtain ⟨idx, found⟩ := List.getElem?_of_mem member
  rw [List.dropLast_eq_take] at found
  obtain ⟨bound, _⟩ := List.getElem?_eq_some_iff.mp found
  rw [List.length_take] at bound
  rw [List.getElem?_take_of_lt (by omega)] at found
  obtain ⟨original, here⟩ := retouched.original found
  cases retouched.line here found with
  | inl same => exact same ▸ unreturned_splitLinesCow unreturned here (by rw [← retouched.length_eq]; omega)
  | inr new => exact new.2.1

/-- A text with replaced lines has these lines; only the last one can lose another carriage return. -/
theorem RetouchedLines.reread {text : Text} {lines : List Text} (retouched : RetouchedLines text lines)
    (differs : lines ≠ splitLinesCow text) (idx : Nat) :
    (splitLinesCow (joinLines lines (detectLineEnding text).toList (endsWithFeed text)))[idx]? =
      lines[idx]?.map fun line => if idx + 1 < lines.length then line else stripCarriageReturn line := by
  have filled : lines ≠ [[]] := by
    intro single
    have one := retouched.length_eq
    rw [single] at one
    obtain ⟨original, whole⟩ := List.length_eq_one_iff.mp one.symm
    cases @RetouchedLines.line _ _ retouched 0 _ _ (by rw [whole]; rfl) (by rw [single]; rfl) with
    | inl same => exact differs (by rw [single, whole, same])
    | inr new => exact new.2.2.1 rfl
  have nonempty : lines ≠ [] := by
    intro empty
    have none := retouched.length_eq
    rw [empty] at none
    exact differs (by rw [empty, List.length_eq_zero_iff.mp none.symm])
  exact splitLinesCow_rejoined filled nonempty retouched.clear retouched.unreturned retouched.closed idx

theorem RetouchedLines.length_reread {text : Text} {lines : List Text} (retouched : RetouchedLines text lines)
    (differs : lines ≠ splitLinesCow text) :
    (splitLinesCow (joinLines lines (detectLineEnding text).toList (endsWithFeed text))).length = (splitLinesCow text).length := by
  have whole : splitLinesCow (joinLines lines (detectLineEnding text).toList (endsWithFeed text)) =
      lines.mapIdx fun idx line => if idx + 1 < lines.length then line else stripCarriageReturn line :=
    List.ext_getElem? fun idx => by rw [retouched.reread differs idx, List.getElem?_mapIdx]
  rw [whole, List.length_mapIdx, retouched.length_eq]

/-- A single line feed among returned ones gets a carriage return, and a carriage return at the end is lost. -/
theorem mixedEnds_altered :
    let rejoined := fun text : Text => joinLines (splitLinesCow text) (detectLineEnding text).toList (endsWithFeed text)
    rejoined "a\nb\r\n".toList = "a\r\nb\r\n".toList ∧ rejoined "a\r".toList = "a".toList := by decide

end MjFormatter.Verified

/-! ## Lines with their ends

The policies take lines without their ends.  Here a text is the list of its lines with their ends, and what is read and what is
written are lists of lines as well. -/

namespace MjFormatter.Verified

open Library.Lines

/-! ## What is read -/

/-- A line without its end. -/
def bareLine (line : Text) : Text := stripCarriageReturn ((stripSuffixChar '\n' line).getD line)

/-- The empty rest behind the last line feed is read as a line. -/
def closingRow (closed : Bool) : List Text := if closed then [[]] else []

theorem bareLine_closed {body : Text} : bareLine (body ++ ['\n']) = stripCarriageReturn body := by
  rw [bareLine, stripSuffixChar, List.getLast?_concat, if_pos rfl, List.dropLast_concat, Option.getD_some]

theorem bareLine_open {line : Text} (clear : '\n' ∉ line) : bareLine line = stripCarriageReturn line := by
  rw [bareLine, stripSuffixChar, if_neg fun last => clear (List.mem_of_getLast? last), Option.getD_none]

theorem splitFeeds_clear {line : Text} (clear : '\n' ∉ line) : splitFeeds line = [line] := by
  induction line with
  | nil => rfl
  | cons symbol line inductionHypothesis =>
    rw [List.mem_cons, not_or] at clear
    rw [splitFeeds, if_neg (Ne.symm clear.1), inductionHypothesis clear.2]

theorem splitFeeds_closed_append {body : Text} (clear : '\n' ∉ body) (rest : Text) :
    splitFeeds (body ++ ['\n'] ++ rest) = body :: splitFeeds rest := by
  induction body with
  | nil => rw [List.nil_append, List.singleton_append, splitFeeds, if_pos rfl]
  | cons symbol body inductionHypothesis =>
    rw [List.mem_cons, not_or] at clear
    rw [List.cons_append, List.cons_append, splitFeeds, if_neg (Ne.symm clear.1), inductionHypothesis clear.2]

theorem endsWithFeed_append (front : Text) {back : Text} (some : back ≠ []) :
    endsWithFeed (front ++ back) = endsWithFeed back := by
  rw [endsWithFeed, endsWithFeed, List.getLast?_append_of_ne_nil _ some]

theorem endsWithFeed_open {line : Text} (clear : '\n' ∉ line) : endsWithFeed line = false :=
  decide_eq_false fun last => clear (List.mem_of_getLast? last)

theorem endsWithFeed_closed {line : Text} (closed : Closed '\n' line) : endsWithFeed line = true :=
  decide_eq_true closed.getLast?_eq

theorem map_strip_splitFeeds {lines : List Text} (isLines : IsLines '\n' lines) (nonempty : lines ≠ []) :
    (splitFeeds lines.flatten).map stripCarriageReturn = lines.map bareLine ++ closingRow (endsWithFeed lines.flatten) := by
  induction isLines with
  | nil => exact absurd rfl nonempty
  | @last line _ clear =>
    rw [List.flatten_singleton, splitFeeds_clear clear, endsWithFeed_open clear, List.map_singleton, List.map_singleton,
      bareLine_open clear]
    rfl
  | @cons line lines closed isLines inductionHypothesis =>
    obtain ⟨body, clear, rfl⟩ := closed
    rw [List.flatten_cons, splitFeeds_closed_append clear, List.map_cons, List.map_cons, bareLine_closed]
    by_cases last : lines = []
    · rw [last, List.flatten_nil, List.append_nil, endsWithFeed_closed ⟨body, clear, rfl⟩]
      rfl
    · rw [inductionHypothesis last, endsWithFeed_append _ (isLines.flatten_ne_nil last), List.cons_append]

theorem splitLinesCow_flatten {lines : List Text} (isLines : IsLines '\n' lines) (nonempty : lines ≠ []) :
    splitLinesCow lines.flatten = lines.map bareLine ++ closingRow (endsWithFeed lines.flatten) := by
  rw [splitLinesCow_of_ne_nil (isLines.flatten_ne_nil nonempty), map_strip_splitFeeds isLines nonempty]

/-! ## Blank lines -/

theorem exists_bareLine (line : Text) : ∃ blank, Blank blank ∧ line = bareLine line ++ blank := by
  have strip : ∀ {symbol : Char}, isWhitespace symbol = true → ∀ line : Text,
      ∃ blank, Blank blank ∧ line = (stripSuffixChar symbol line).getD line ++ blank := by
    intro symbol white line
    rw [stripSuffixChar]
    by_cases last : line.getLast? = some symbol
    · obtain ⟨body, rfl⟩ := List.getLast?_eq_some_iff.mp last
      rw [if_pos last, Option.getD_some, List.dropLast_concat]
      exact ⟨[symbol], fun other member => List.mem_singleton.mp member ▸ white, rfl⟩
    · rw [if_neg last, Option.getD_none]
      exact ⟨[], blank_nil, (List.append_nil line).symm⟩
  obtain ⟨feed, isFeed, whole⟩ := @strip '\n' (by decide) line
  obtain ⟨returned, isReturned, part⟩ := @strip '\r' (by decide) ((stripSuffixChar '\n' line).getD line)
  refine ⟨returned ++ feed, isReturned.append isFeed, ?_⟩
  rw [bareLine, stripCarriageReturn, ← List.append_assoc, ← part, ← whole]

theorem trim_bareLine (line : Text) : trim (bareLine line) = trim line := by
  obtain ⟨blank, isBlank, whole⟩ := exists_bareLine line
  conv_rhs => rw [whole, trim_append_blank _ isBlank]

/-! ## What is written -/

/-- A line with the line ending of its text. -/
def relined (eol line : Text) : Text := if endsWithFeed line then bareLine line ++ eol else bareLine line

theorem relined_closed {eol line : Text} (closed : Closed '\n' line) : relined eol line = bareLine line ++ eol :=
  if_pos (endsWithFeed_closed closed)

theorem relined_open {eol line : Text} (clear : '\n' ∉ line) : relined eol line = bareLine line := by
  rw [relined, endsWithFeed_open clear, if_neg Bool.false_ne_true]

theorem intercalate_concat (eol : Text) (lines : List Text) (last : Text) :
    eol.intercalate (lines ++ [last]) = (lines.map (· ++ eol)).flatten ++ last := by
  induction lines with
  | nil => simp
  | cons line lines inductionHypothesis =>
    rw [List.cons_append, List.intercalate_cons_of_ne_nil (by simp), inductionHypothesis, List.map_cons, List.flatten_cons]
    simp only [List.append_assoc]

theorem flatten_map_relined_closed {eol : Text} {lines : List Text} (closed : ∀ line ∈ lines, Closed '\n' line) :
    (lines.map (relined eol)).flatten = ((lines.map bareLine).map (· ++ eol)).flatten := by
  rw [List.map_map]
  congr 1
  exact List.map_congr_left fun line member => relined_closed (closed line member)

theorem joinLines_bareLines {eol : Text} {lines : List Text} (isLines : IsLines '\n' lines) (nonempty : lines ≠ []) :
    joinLines (lines.map bareLine ++ closingRow (endsWithFeed lines.flatten)) eol (endsWithFeed lines.flatten) =
      (lines.map (relined eol)).flatten := by
  cases feed : endsWithFeed lines.flatten with
  | true =>
    have closed := isLines.closed_of_getLast? (of_decide_eq_true feed)
    rw [closingRow, if_pos rfl, joinLines_of_empty_last (by simpa using nonempty), intercalate_concat, List.append_nil,
      flatten_map_relined_closed closed]
  | false =>
    obtain ⟨ahead, last, rfl⟩ := (List.eq_nil_or_concat' lines).resolve_left nonempty
    obtain ⟨lastLines, aheadClosed⟩ := isLines.of_append
    have clear : '\n' ∉ last := by
      cases lastLines with
      | last _ clear => exact clear
      | cons closed _ =>
        rw [List.flatten_append, List.flatten_singleton, endsWithFeed_append _ closed.ne_nil, endsWithFeed_closed closed] at feed
        cases feed
    rw [closingRow, if_neg Bool.false_ne_true, List.append_nil, joinLines_eq _ (by simp), if_neg fun closing =>
      Bool.false_ne_true closing.1, List.map_append, List.map_singleton, intercalate_concat, List.map_append, List.flatten_append,
      flatten_map_relined_closed (aheadClosed (List.cons_ne_nil _ _)), List.map_singleton, List.flatten_singleton,
      relined_open clear]

/-- What is written is read as the lines that were meant, unless nothing is left of the last one. -/
theorem splitKeepEnds_relined (windows : Bool) {lines : List Text} (isLines : IsLines '\n' lines) :
    splitKeepEnds '\n' (lines.map (relined (carriage windows ++ ['\n']))).flatten =
      (lines.map (relined (carriage windows ++ ['\n']))).filter (· ≠ []) := by
  induction isLines with
  | nil => rfl
  | @last line _ clear =>
    rw [List.map_singleton, List.flatten_singleton, relined_open clear, bareLine_open clear]
    have clearStripped := clear_stripCarriageReturn clear
    by_cases empty : stripCarriageReturn line = []
    · rw [empty]
      rfl
    · rw [splitKeepEnds_of_not_mem empty clearStripped]
      simp [empty]
  | @cons line lines closed isLines inductionHypothesis =>
    have written : Closed '\n' (relined (carriage windows ++ ['\n']) line) := by
      obtain ⟨body, clear, rfl⟩ := closed
      rw [relined_closed ⟨body, clear, rfl⟩, bareLine_closed, ← List.append_assoc]
      refine ⟨_, ?_, rfl⟩
      rw [List.mem_append, not_or]
      exact ⟨clear_stripCarriageReturn clear, clear_carriage windows⟩
    rw [List.map_cons, List.flatten_cons, splitKeepEnds_closed_append written, inductionHypothesis]
    simp [written.ne_nil]

end MjFormatter.Verified
