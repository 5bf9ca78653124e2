import Mathlib.Data.List.Induction
import Mathlib.Data.List.TakeWhile
import MjFormatter.Policy.TextUtils

/-! # Trimming

What the blanks at the ends of a text do to its trimmed form. -/

namespace MjFormatter.Verified

/-- A text of whitespace alone. -/
def Blank (text : Text) : Prop := ∀ symbol ∈ text, isWhitespace symbol = true

theorem Blank.append {front back : Text} (first : Blank front) (second : Blank back) : Blank (front ++ back) := by
  intro symbol member
  cases List.mem_append.mp member with
  | inl here => exact first symbol here
  | inr here => exact second symbol here

theorem Blank.reverse {text : Text} (blank : Blank text) : Blank text.reverse := fun symbol member =>
  blank symbol (List.mem_reverse.mp member)

theorem blank_nil : Blank [] := fun _ member => absurd member List.not_mem_nil

theorem trimStart_of_blank {text : Text} (blank : Blank text) : trimStart text = [] :=
  List.dropWhile_eq_nil_iff.mpr blank

theorem trimStart_blank_append {blank : Text} (isBlank : Blank blank) (text : Text) :
    trimStart (blank ++ text) = trimStart text := List.dropWhile_append_of_pos isBlank

theorem trimStart_cons_of_visible {symbol : Char} (shown : isWhitespace symbol = false) (text : Text) :
    trimStart (symbol :: text) = symbol :: text := List.dropWhile_cons_of_neg (by simp [shown])

/-- What is trimmed off at the front, and what stays. -/
theorem exists_trimStart (text : Text) : ∃ blank, Blank blank ∧ text = blank ++ trimStart text :=
  ⟨text.takeWhile isWhitespace, fun _ member => List.mem_takeWhile_imp member, List.takeWhile_append_dropWhile.symm⟩

theorem trimStart_head {text : Text} {symbol : Char} {rest : Text} (starts : trimStart text = symbol :: rest) :
    isWhitespace symbol = false := by
  have shown : text.dropWhile isWhitespace ≠ [] := by
    rw [← trimStart, starts]
    exact List.cons_ne_nil _ _
  have first : (text.dropWhile isWhitespace).head shown = symbol := by
    simp only [show text.dropWhile isWhitespace = symbol :: rest from starts, List.head_cons]
  rw [← first]
  exact List.head_dropWhile_not isWhitespace shown

theorem trimStart_append {text : Text} (shown : trimStart text ≠ []) (more : Text) :
    trimStart (text ++ more) = trimStart text ++ more := by
  obtain ⟨blank, isBlank, whole⟩ := exists_trimStart text
  cases rest : trimStart text with
  | nil => exact absurd rest shown
  | cons symbol rest' =>
    rw [whole, rest, List.append_assoc, trimStart_blank_append isBlank, List.cons_append]
    exact trimStart_cons_of_visible (trimStart_head rest) _

theorem trimStart_trimStart (text : Text) : trimStart (trimStart text) = trimStart text := by
  cases rest : trimStart text with
  | nil => rfl
  | cons symbol rest' => exact trimStart_cons_of_visible (trimStart_head rest) _

theorem trim_eq (text : Text) : trim text = trimEnd (trimStart text) := rfl

theorem trimEnd_append_blank (text : Text) {blank : Text} (isBlank : Blank blank) :
    trimEnd (text ++ blank) = trimEnd text := by
  rw [trimEnd, trimEnd, List.reverse_append, trimStart_blank_append isBlank.reverse]

theorem trimEnd_concat_of_visible (text : Text) {symbol : Char} (shown : isWhitespace symbol = false) :
    trimEnd (text ++ [symbol]) = text ++ [symbol] := by
  rw [trimEnd, List.reverse_append, List.reverse_singleton, List.singleton_append, trimStart_cons_of_visible shown,
    List.reverse_cons, List.reverse_reverse]

theorem exists_trimEnd (text : Text) : ∃ blank, Blank blank ∧ text = trimEnd text ++ blank := by
  obtain ⟨blank, isBlank, whole⟩ := exists_trimStart text.reverse
  refine ⟨blank.reverse, isBlank.reverse, ?_⟩
  rw [trimEnd, ← List.reverse_append, ← whole, List.reverse_reverse]

theorem trimEnd_last (text : Text) : ∀ symbol ∈ (trimEnd text).getLast?, isWhitespace symbol = false := by
  intro symbol last
  rw [trimEnd, List.getLast?_reverse] at last
  obtain ⟨rest, starts⟩ := List.head?_eq_some_iff.mp last
  exact trimStart_head starts

theorem trimEnd_of_visible {content : Text} (visible : ∀ symbol ∈ content.getLast?, isWhitespace symbol = false) :
    trimEnd content = content := by
  cases content using List.reverseRecOn with
  | nil => rfl
  | append_singleton content symbol => exact trimEnd_concat_of_visible content (visible symbol List.getLast?_concat)

theorem trim_blank_append {blank : Text} (isBlank : Blank blank) (text : Text) : trim (blank ++ text) = trim text := by
  rw [trim_eq, trim_eq, trimStart_blank_append isBlank]

theorem trim_append_blank (text : Text) {blank : Text} (isBlank : Blank blank) : trim (text ++ blank) = trim text := by
  rw [trim_eq, trim_eq]
  by_cases shown : trimStart text = []
  · have allBlank : Blank text := List.dropWhile_eq_nil_iff.mp shown
    rw [shown, trimStart_of_blank (allBlank.append isBlank)]
  · rw [trimStart_append shown, trimEnd_append_blank _ isBlank]

/-- What is trimmed off at both ends, and what stays. -/
theorem exists_trim (text : Text) : ∃ front back, Blank front ∧ Blank back ∧ text = front ++ (trim text ++ back) := by
  obtain ⟨front, frontBlank, whole⟩ := exists_trimStart text
  obtain ⟨back, backBlank, ends⟩ := exists_trimEnd (trimStart text)
  exact ⟨front, back, frontBlank, backBlank, by rw [trim_eq, ← ends, ← whole]⟩

theorem trim_trim (text : Text) : trim (trim text) = trim text := by
  obtain ⟨front, back, frontBlank, backBlank, whole⟩ := exists_trim text
  calc trim (trim text) = trim (front ++ (trim text ++ back)) := by
        rw [trim_blank_append frontBlank, trim_append_blank _ backBlank]
    _ = trim text := by rw [← whole]

theorem mem_of_mem_trim {text : Text} {symbol : Char} (member : symbol ∈ trim text) : symbol ∈ text := by
  obtain ⟨front, back, _, _, whole⟩ := exists_trim text
  rw [whole]
  exact List.mem_append_right _ (List.mem_append_left _ member)

theorem trim_cons_ne_nil {symbol : Char} (shown : isWhitespace symbol = false) (rest : Text) : trim (symbol :: rest) ≠ [] := by
  rw [trim_eq, trimStart_cons_of_visible shown]
  intro same
  obtain ⟨blank, isBlank, whole⟩ := exists_trimEnd (symbol :: rest)
  rw [same, List.nil_append] at whole
  rw [isBlank symbol (whole ▸ List.mem_cons_self)] at shown
  cases shown

/-! ## What of a text is not whitespace -/

/-- The symbols of a text that are not whitespace, in their order. -/
def visible (text : Text) : Text := text.filter fun symbol => !isWhitespace symbol

@[simp] theorem visible_nil : visible [] = [] := rfl

@[simp] theorem visible_append (front back : Text) : visible (front ++ back) = visible front ++ visible back :=
  List.filter_append front back

theorem visible_flatten (lines : List Text) : visible lines.flatten = (lines.map visible).flatten :=
  List.filter_flatten

theorem visible_eq_nil {text : Text} : visible text = [] ↔ ∀ symbol ∈ text, isWhitespace symbol = true := by
  simp [visible]

end MjFormatter.Verified
