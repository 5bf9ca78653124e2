import Mathlib.Data.List.Basic

/-! # Sequences cut into terminated lines

`splitKeepEnds` cuts a sequence after every terminator and keeps the terminators, so that
concatenation undoes it.  `IsLines` characterises its results: every line but the last ends in its
only terminator, and the last one is not empty.  The two operations are inverse to each other on
these lists, which is what lets a program pass freely between a text and its list of lines. -/

namespace MjFormatter.Library.Lines

variable {α : Type*}

/-- A line that ends in its only terminator. -/
def Closed (terminator : α) (line : List α) : Prop :=
  ∃ body, terminator ∉ body ∧ line = body ++ [terminator]

/-- The lists of lines that cutting a sequence after every terminator gives. -/
inductive IsLines (terminator : α) : List (List α) → Prop
  | nil : IsLines terminator []
  | last {line : List α} : line ≠ [] → terminator ∉ line → IsLines terminator [line]
  | cons {line : List α} {lines : List (List α)} :
      Closed terminator line → IsLines terminator lines → IsLines terminator (line :: lines)

/-! ## Shape of lists of lines -/

theorem Closed.ne_nil {terminator : α} {line : List α} (closed : Closed terminator line) :
    line ≠ [] := by
  obtain ⟨body, _, rfl⟩ := closed
  simp

theorem closed_cons {terminator symbol : α} {line : List α} (differs : symbol ≠ terminator)
    (closed : Closed terminator line) : Closed terminator (symbol :: line) := by
  obtain ⟨body, absent, rfl⟩ := closed
  exact ⟨symbol :: body, by simp [absent, differs.symm], rfl⟩

theorem IsLines.ne_nil {terminator : α} {lines : List (List α)}
    (wellFormed : IsLines terminator lines) {line : List α} (member : line ∈ lines) : line ≠ [] := by
  induction wellFormed with
  | nil => cases member
  | last nonempty _ =>
    rw [List.mem_singleton] at member
    rwa [member]
  | cons closed _ inductionHypothesis =>
    cases member with
    | head => exact closed.ne_nil
    | tail _ member => exact inductionHypothesis member

theorem IsLines.tail {terminator : α} {line : List α} {lines : List (List α)}
    (wellFormed : IsLines terminator (line :: lines)) : IsLines terminator lines := by
  cases wellFormed with
  | last _ _ => exact .nil
  | cons _ tail => exact tail

theorem IsLines.closed_head {terminator : α} {line : List α} {lines : List (List α)}
    (wellFormed : IsLines terminator (line :: lines)) (more : lines ≠ []) : Closed terminator line := by
  cases wellFormed with
  | last _ _ => exact absurd rfl more
  | cons closed _ => exact closed

theorem IsLines.append {terminator : α} {front back : List (List α)}
    (closed : ∀ line ∈ front, Closed terminator line) (backLines : IsLines terminator back) :
    IsLines terminator (front ++ back) := by
  induction front with
  | nil => exact backLines
  | cons line front inductionHypothesis =>
    exact .cons (closed line List.mem_cons_self)
      (inductionHypothesis fun other member => closed other (List.mem_cons_of_mem line member))

theorem IsLines.of_append {terminator : α} {front back : List (List α)}
    (wellFormed : IsLines terminator (front ++ back)) :
    IsLines terminator back ∧ (back ≠ [] → ∀ line ∈ front, Closed terminator line) := by
  induction front with
  | nil => exact ⟨wellFormed, by simp⟩
  | cons line front inductionHypothesis =>
    obtain ⟨backLines, closed⟩ := inductionHypothesis wellFormed.tail
    refine ⟨backLines, fun more other member => ?_⟩
    cases member with
    | head => exact wellFormed.closed_head (by simp [more])
    | tail _ member => exact closed more other member

theorem IsLines.front {terminator : α} {front back : List (List α)}
    (wellFormed : IsLines terminator (front ++ back)) : IsLines terminator front := by
  by_cases more : back = []
  · rwa [more, List.append_nil] at wellFormed
  · have closed := wellFormed.of_append.2 more
    rw [← List.append_nil front]
    exact IsLines.append closed .nil

theorem Closed.getLast?_eq {terminator : α} {line : List α} (closed : Closed terminator line) :
    line.getLast? = some terminator := by
  obtain ⟨body, _, rfl⟩ := closed
  simp

theorem IsLines.flatten_ne_nil {terminator : α} {lines : List (List α)}
    (wellFormed : IsLines terminator lines) (more : lines ≠ []) : lines.flatten ≠ [] := by
  cases wellFormed with
  | nil => exact absurd rfl more
  | last nonempty _ => simpa using nonempty
  | cons closed _ => simp [closed.ne_nil]

/-- When the text ends in a terminator, the last line does too, and so all lines do. -/
theorem IsLines.closed_of_getLast? {terminator : α} {lines : List (List α)}
    (wellFormed : IsLines terminator lines) (ends : lines.flatten.getLast? = some terminator) :
    ∀ line ∈ lines, Closed terminator line := by
  induction wellFormed with
  | nil => simp
  | last _ absent =>
    rw [List.flatten_singleton] at ends
    exact absurd (List.mem_of_getLast? ends) absent
  | @cons line lines closed tail inductionHypothesis =>
    intro other member
    cases member with
    | head => exact closed
    | tail _ member =>
      refine inductionHypothesis ?_ other member
      -- The last symbol of the text is the last symbol of its tail.
      have nonempty := tail.flatten_ne_nil (List.ne_nil_of_mem member)
      rwa [List.flatten_cons, List.getLast?_append_of_ne_nil _ nonempty] at ends

/-- Choosing each line of a list from one of two lists of lines of the same length gives a list of
lines again: only the last position may hold a line without a terminator. -/
theorem IsLines.choose {terminator : α} :
    ∀ {left right chosen : List (List α)}, IsLines terminator left → IsLines terminator right →
      left.length = right.length → chosen.length = left.length →
      (∀ index : Nat, chosen[index]? = left[index]? ∨ chosen[index]? = right[index]?) →
      IsLines terminator chosen
  | [], _, [], _, _, _, _, _ => .nil
  | leftLine :: left, rightLine :: right, line :: chosen, leftLines, rightLines, sameLength,
      chosenLength, pick => by
    have tail : IsLines terminator chosen :=
      IsLines.choose leftLines.tail rightLines.tail (by simpa using sameLength)
        (by simpa using chosenLength) fun index => by simpa using pick (index + 1)
    have head : line = leftLine ∨ line = rightLine := by simpa using pick 0
    -- Only the last line may lack its terminator; the lines before it are closed in both lists.
    by_cases more : chosen = []
    · subst more
      rcases head with rfl | rfl
      · cases leftLines with
        | last nonempty absent => exact .last nonempty absent
        | cons closed _ => exact .cons closed .nil
      · cases rightLines with
        | last nonempty absent => exact .last nonempty absent
        | cons closed _ => exact .cons closed .nil
    · have moreLeft : left ≠ [] := by rintro rfl; simp_all
      have moreRight : right ≠ [] := by rintro rfl; simp_all
      refine .cons ?_ tail
      rcases head with rfl | rfl
      · exact leftLines.closed_head moreLeft
      · exact rightLines.closed_head moreRight
  | [], _, _ :: _, _, _, _, chosenLength, _ => by simp at chosenLength
  | _ :: _, [], _, _, _, sameLength, _, _ => by simp at sameLength
  | _ :: _, _ :: _, [], _, _, _, chosenLength, _ => by simp at chosenLength

/-! ## Splitting and concatenating -/

variable [DecidableEq α]

/-- Cut after every terminator; what follows the last terminator is a line of its own. -/
def splitKeepEnds (terminator : α) : List α → List (List α)
  | [] => []
  | symbol :: rest =>
    if symbol = terminator then [symbol] :: splitKeepEnds terminator rest
    else match splitKeepEnds terminator rest with
      | [] => [[symbol]]
      | line :: lines => (symbol :: line) :: lines

theorem flatten_splitKeepEnds (terminator : α) (text : List α) :
    (splitKeepEnds terminator text).flatten = text := by
  induction text with
  | nil => rfl
  | cons symbol rest inductionHypothesis =>
    simp only [splitKeepEnds]
    split
    · simp [inductionHypothesis]
    · split
      · next empty => rw [empty] at inductionHypothesis; simpa using inductionHypothesis
      · next line lines cut => rw [cut] at inductionHypothesis; simpa using inductionHypothesis

theorem isLines_splitKeepEnds (terminator : α) (text : List α) :
    IsLines terminator (splitKeepEnds terminator text) := by
  induction text with
  | nil => exact .nil
  | cons symbol rest inductionHypothesis =>
    simp only [splitKeepEnds]
    split
    · next same => exact .cons ⟨[], by simp, by simp [same]⟩ inductionHypothesis
    · next differs =>
      split
      · exact .last (by simp) (by simpa using Ne.symm differs)
      · next line lines cut =>
        -- The symbol becomes the first one of the first line of the rest.
        rw [cut] at inductionHypothesis
        cases inductionHypothesis with
        | last _ absent => exact .last (by simp) (by simp [absent, Ne.symm differs])
        | cons closed tail => exact .cons (closed_cons differs closed) tail

theorem splitKeepEnds_of_not_mem {terminator : α} {line : List α} (nonempty : line ≠ [])
    (absent : terminator ∉ line) : splitKeepEnds terminator line = [line] := by
  induction line with
  | nil => exact absurd rfl nonempty
  | cons symbol rest inductionHypothesis =>
    simp only [List.mem_cons, not_or] at absent
    simp only [splitKeepEnds, if_neg (Ne.symm absent.1)]
    cases rest with
    | nil => rfl
    | cons next rest => rw [inductionHypothesis (by simp) absent.2]

theorem splitKeepEnds_closed_append {terminator : α} {line : List α}
    (closed : Closed terminator line) (text : List α) :
    splitKeepEnds terminator (line ++ text) = line :: splitKeepEnds terminator text := by
  obtain ⟨body, absent, rfl⟩ := closed
  induction body with
  | nil => simp [splitKeepEnds]
  | cons symbol body inductionHypothesis =>
    simp only [List.mem_cons, not_or] at absent
    simp only [List.cons_append, splitKeepEnds, if_neg (Ne.symm absent.1)]
    rw [inductionHypothesis absent.2]

theorem splitKeepEnds_flatten {terminator : α} {lines : List (List α)}
    (wellFormed : IsLines terminator lines) : splitKeepEnds terminator lines.flatten = lines := by
  induction wellFormed with
  | nil => rfl
  | last nonempty absent => simpa using splitKeepEnds_of_not_mem nonempty absent
  | cons closed _ inductionHypothesis =>
    rw [List.flatten_cons, splitKeepEnds_closed_append closed, inductionHypothesis]

theorem IsLines.flatten_injective {terminator : α} {left right : List (List α)}
    (leftLines : IsLines terminator left) (rightLines : IsLines terminator right)
    (same : left.flatten = right.flatten) : left = right := by
  rw [← splitKeepEnds_flatten leftLines, same, splitKeepEnds_flatten rightLines]

end MjFormatter.Library.Lines
