import Mathlib.Data.List.Basic

/-! # Words across spliced lines

A compiler joins a line that ends in a backslash with the next one before it reads tokens.  Two symbols are next to each
other when nothing but such line ends stands between them. -/

namespace MjFormatter.Library

/-- The text with its lines spliced. -/
def spliced : List Char → List Char
  | '\\' :: '\n' :: text => spliced text
  | '\\' :: '\r' :: '\n' :: text => spliced text
  | symbol :: text => symbol :: spliced text
  | [] => []

/-- A symbol of identifiers or numbers. -/
def isWordSymbol (symbol : Char) : Bool := symbol.isAlphanum || symbol = '_' || 127 < symbol.toNat

def EndsWord (text : List Char) : Prop := ∃ symbol ∈ (spliced text).getLast?, isWordSymbol symbol = true

def StartsWord (text : List Char) : Prop := ∃ symbol ∈ (spliced text).head?, isWordSymbol symbol = true

/-- A symbol that no line end can take away. -/
def Solid (symbol : Char) : Prop := symbol ≠ '\\' ∧ symbol ≠ '\n' ∧ symbol ≠ '\r'

instance (symbol : Char) : Decidable (Solid symbol) := inferInstanceAs (Decidable (_ ∧ _))

theorem spliced_cons {symbol : Char} (plain : symbol ≠ '\\') (text : List Char) :
    spliced (symbol :: text) = symbol :: spliced text :=
  spliced.eq_3 symbol text (fun _ backslash _ => plain backslash) fun _ backslash _ => plain backslash

/-- The text does not go on with a line end. -/
def NoLineEnd : List Char → Prop
  | '\n' :: _ => False
  | '\r' :: '\n' :: _ => False
  | _ => True

theorem spliced_append (front : List Char) {back : List Char} (plain : NoLineEnd back) :
    spliced (front ++ back) = spliced front ++ spliced back := by
  fun_induction spliced front with
  | case1 front ih => exact ih
  | case2 front ih => exact ih
  | case3 first front noFeed noReturn ih =>
    have kept : spliced (first :: (front ++ back)) = first :: spliced (front ++ back) := by
      refine spliced.eq_3 first (front ++ back) (fun rest backslash ends => ?_) fun rest backslash ends => ?_
      · -- A line end that is cut off at the end of the front would go on in the back
        cases front with
        | nil =>
          rw [List.nil_append] at ends
          rw [ends] at plain
          exact plain
        | cons second front => exact noFeed front backslash (by rw [(List.cons.inj ends).1])
      · match front with
        | [] =>
          rw [List.nil_append] at ends
          rw [ends] at plain
          exact plain
        | [second] =>
          have isFeed : back = '\n' :: rest := (List.cons.inj ends).2
          rw [isFeed] at plain
          exact plain
        | second :: third :: front =>
          obtain ⟨isReturn, ends⟩ := List.cons.inj ends
          exact noReturn front backslash (by rw [isReturn, (List.cons.inj ends).1])
    rw [List.cons_append, kept, ih, List.cons_append]
  | case4 => rfl

theorem Solid.noLineEnd {symbol : Char} (solid : Solid symbol) (text : List Char) : NoLineEnd (symbol :: text) := by
  unfold NoLineEnd
  split
  · next same => exact solid.2.1 (List.cons.inj same).1
  · next same => exact solid.2.2 (List.cons.inj same).1
  · trivial

theorem noLineEnd_singleton {symbol : Char} (plain : symbol ≠ '\n') : NoLineEnd [symbol] := by
  unfold NoLineEnd
  split
  · next same => exact plain (List.cons.inj same).1
  · next same => cases (List.cons.inj same).2
  · trivial

/-! ## Words at the ends -/

/-- Behind a solid symbol it does not matter what stood before. -/
theorem endsWord_solid_iff {symbol : Char} (solid : Solid symbol) (front gap : List Char) :
    EndsWord (front ++ symbol :: gap) ↔ ∃ last ∈ (symbol :: spliced gap).getLast?, isWordSymbol last = true := by
  have nonempty : symbol :: spliced gap ≠ [] := List.cons_ne_nil _ _
  rw [EndsWord, spliced_append front (solid.noLineEnd gap), spliced_cons solid.1, List.getLast?_append_of_ne_nil _ nonempty]

/-- A solid symbol may be changed when something stands behind it, or when none of the two is part of a word. -/
theorem endsWord_congr {symbol other : Char} (solid : Solid symbol) (otherSolid : Solid other) (front ahead : List Char)
    {gap : List Char} (free : spliced gap ≠ [] ∨ (isWordSymbol symbol = false ∧ isWordSymbol other = false)) :
    EndsWord (front ++ symbol :: gap) ↔ EndsWord (ahead ++ other :: gap) := by
  rw [endsWord_solid_iff solid, endsWord_solid_iff otherSolid]
  cases behind : spliced gap with
  | nil =>
    obtain ⟨noWord, otherNoWord⟩ := free.resolve_left (not_not_intro behind)
    simp [noWord, otherNoWord]
  | cons first rest => simp only [List.getLast?_cons_cons]

theorem endsWord_concat_iff {symbol : Char} (plain : symbol ≠ '\n') (front : List Char) :
    EndsWord (front ++ [symbol]) ↔ isWordSymbol symbol = true := by
  have alone : spliced [symbol] = [symbol] :=
    spliced.eq_3 symbol [] (fun _ _ nothing => List.cons_ne_nil _ _ nothing.symm)
      fun _ _ nothing => List.cons_ne_nil _ _ nothing.symm
  rw [EndsWord, spliced_append front (noLineEnd_singleton plain), alone, List.getLast?_concat]
  simp

theorem startsWord_cons_iff {symbol : Char} (plain : symbol ≠ '\\') (text : List Char) :
    StartsWord (symbol :: text) ↔ isWordSymbol symbol = true := by
  rw [StartsWord, spliced_cons plain]
  simp

end MjFormatter.Library
