import Mathlib.Data.List.Basic

/-! # Escaping a separator

A separator is written as a word, and the word itself is left as it is.  Two texts are written alike exactly when one goes over into
the other by exchanging separators and words. -/

namespace MjFormatter.Library.Escapes

variable {α : Type*}

/-- What stands in front of the first separator, and what stands behind it. -/
theorem cut_unique {separator : α} {front other back rest : List α} (absent : separator ∉ front) (absentOther : separator ∉ other)
    (same : front ++ separator :: back = other ++ separator :: rest) : front = other ∧ back = rest := by
  induction front generalizing other with
  | nil =>
    cases other with
    | nil => exact ⟨rfl, (List.cons.inj same).2⟩
    | cons symbol other =>
      have first : separator = symbol := (List.cons.inj same).1
      exact absurd (first ▸ List.mem_cons_self) absentOther
  | cons symbol front ih =>
    cases other with
    | nil =>
      have first : symbol = separator := (List.cons.inj same).1
      exact absurd (first ▸ List.mem_cons_self) absent
    | cons otherSymbol other =>
      obtain ⟨first, later⟩ := List.cons.inj same
      have absentFront : separator ∉ front := fun member => absent (List.mem_cons_of_mem _ member)
      obtain ⟨fronts, backs⟩ := ih absentFront (fun member => absentOther (List.mem_cons_of_mem _ member)) later
      exact ⟨congrArg₂ List.cons first fronts, backs⟩

theorem cut_iff {separator : α} {front other back rest : List α} (absent : separator ∉ front) (absentOther : separator ∉ other) :
    front ++ separator :: back = other ++ separator :: rest ↔ front = other ∧ back = rest := by
  constructor
  · intro same
    exact cut_unique absent absentOther same
  · intro same
    rw [same.1, same.2]

variable [DecidableEq α] (separator : α) (word : List α)

def escape (text : List α) : List α := text.flatMap fun symbol => if symbol = separator then word else [symbol]

/-- The texts differ in separators that stand against words only. -/
inductive Alike : List α → List α → Prop where
  | nil : Alike [] []
  | same (symbol : α) {text other : List α} : Alike text other → Alike (symbol :: text) (symbol :: other)
  | left {text other : List α} : Alike text other → Alike (separator :: text) (word ++ other)
  | right {text other : List α} : Alike text other → Alike (word ++ text) (separator :: other)

variable {separator word}

omit [DecidableEq α] in
theorem Alike.refl (text : List α) : Alike separator word text text := by
  induction text with
  | nil => exact .nil
  | cons symbol text ih => exact .same symbol ih

theorem escape_separator (text : List α) : escape separator word (separator :: text) = word ++ escape separator word text := by
  rw [escape, List.flatMap_cons, if_pos rfl, ← escape]

theorem escape_cons {symbol : α} (other : symbol ≠ separator) (text : List α) :
    escape separator word (symbol :: text) = symbol :: escape separator word text := by
  rw [escape, List.flatMap_cons, if_neg other, ← escape]
  rfl

theorem escape_append (front back : List α) :
    escape separator word (front ++ back) = escape separator word front ++ escape separator word back := by
  rw [escape, List.flatMap_append, ← escape, ← escape]

theorem escape_plain {text : List α} (absent : separator ∉ text) : escape separator word text = text := by
  induction text with
  | nil => rfl
  | cons symbol text ih =>
    obtain ⟨other, absentText⟩ := not_or.mp (mt List.mem_cons.mpr absent)
    rw [escape_cons (Ne.symm other), ih absentText]

theorem separator_not_mem_escape (absent : separator ∉ word) (text : List α) : separator ∉ escape separator word text := by
  intro member
  obtain ⟨symbol, _, written⟩ := List.mem_flatMap.mp member
  split at written
  · exact absent written
  · rename_i other
    exact other (List.mem_singleton.mp written).symm

theorem escape_eq_of_alike (absent : separator ∉ word) {text other : List α} (alike : Alike separator word text other) :
    escape separator word text = escape separator word other := by
  induction alike with
  | nil => rfl
  | same symbol _ ih =>
    by_cases isSeparator : symbol = separator
    · rw [isSeparator, escape_separator, escape_separator, ih]
    · rw [escape_cons isSeparator, escape_cons isSeparator, ih]
  | left _ ih => rw [escape_separator, escape_append, escape_plain absent, ih]
  | right _ ih => rw [escape_separator, escape_append, escape_plain absent, ih]

/-- Symbols that do not begin the word are written by themselves only. -/
theorem eq_append_of_escape {first : α} {others rest text : List α} (unlike : first ∉ rest)
    (written : ∃ tail, escape separator (first :: others) text = rest ++ tail) :
    ∃ back, text = rest ++ back := by
  induction rest generalizing text with
  | nil => exact ⟨text, rfl⟩
  | cons symbol rest ih =>
    obtain ⟨tail, written⟩ := written
    obtain ⟨different, unlikeRest⟩ := not_or.mp (mt List.mem_cons.mpr unlike)
    cases text with
    | nil => cases written
    | cons head text =>
      by_cases isSeparator : head = separator
      · rw [isSeparator, escape_separator] at written
        exact absurd (List.cons.inj written).1 different
      · rw [escape_cons isSeparator] at written
        obtain ⟨same, later⟩ := List.cons.inj written
        obtain ⟨back, rfl⟩ := ih unlikeRest ⟨tail, later⟩
        exact ⟨back, by rw [same]; rfl⟩

theorem eq_word_append {first : α} {others text tail : List α} (absent : separator ∉ first :: others) (unlike : first ∉ others)
    {head : α} (plain : head ≠ separator)
    (written : escape separator (first :: others) (head :: text) = first :: others ++ tail) :
    ∃ back, head :: text = first :: others ++ back ∧ escape separator (first :: others) back = tail := by
  rw [escape_cons plain] at written
  obtain ⟨same, later⟩ := List.cons.inj written
  obtain ⟨back, rfl⟩ := eq_append_of_escape unlike ⟨tail, later⟩
  obtain ⟨_, absentOthers⟩ := not_or.mp (mt List.mem_cons.mpr absent)
  rw [escape_append, escape_plain absentOthers] at later
  exact ⟨back, by rw [same]; rfl, List.append_cancel_left later⟩

theorem alike_of_escape_eq {first : α} {others : List α} (absent : separator ∉ first :: others) (unlike : first ∉ others)
    (bound : Nat) {text other : List α} (short : text.length + other.length ≤ bound)
    (same : escape separator (first :: others) text = escape separator (first :: others) other) :
    Alike separator (first :: others) text other := by
  induction bound generalizing text other with
  | zero =>
    obtain rfl := List.eq_nil_of_length_eq_zero (Nat.eq_zero_of_le_zero (Nat.le_trans (Nat.le_add_right ..) short))
    obtain rfl := List.eq_nil_of_length_eq_zero (Nat.eq_zero_of_le_zero (Nat.le_trans (Nat.le_add_left ..) short))
    exact .nil
  | succ bound ih =>
    have nonempty (symbol : α) (rest : List α) : escape separator (first :: others) (symbol :: rest) ≠ [] := by
      by_cases isSeparator : symbol = separator
      · rw [isSeparator, escape_separator]
        exact List.cons_ne_nil _ _
      · rw [escape_cons isSeparator]
        exact List.cons_ne_nil _ _
    match text, other with
    | [], [] => exact .nil
    | [], symbol :: rest => exact absurd same.symm (nonempty symbol rest)
    | symbol :: rest, [] => exact absurd same (nonempty symbol rest)
    | symbol :: text, otherSymbol :: other =>
      rw [List.length_cons, List.length_cons] at short
      by_cases isSeparator : symbol = separator
      · by_cases otherIsSeparator : otherSymbol = separator
        · rw [isSeparator, otherIsSeparator, escape_separator, escape_separator] at same
          rw [isSeparator, otherIsSeparator]
          exact .same separator (ih (by omega) (List.append_cancel_left same))
        · rw [isSeparator, escape_separator] at same
          obtain ⟨back, split, written⟩ := eq_word_append absent unlike otherIsSeparator same.symm
          have shorter := congrArg List.length split
          rw [List.length_append, List.length_cons, List.length_cons] at shorter
          rw [isSeparator, split]
          exact .left (ih (by omega) written.symm)
      · by_cases otherIsSeparator : otherSymbol = separator
        · rw [otherIsSeparator, escape_separator] at same
          obtain ⟨back, split, written⟩ := eq_word_append absent unlike isSeparator same
          have shorter := congrArg List.length split
          rw [List.length_append, List.length_cons, List.length_cons] at shorter
          rw [otherIsSeparator, split]
          exact .right (ih (by omega) written)
        · rw [escape_cons isSeparator, escape_cons otherIsSeparator] at same
          obtain ⟨rfl, later⟩ := List.cons.inj same
          exact .same symbol (ih (by omega) later)

/-- Escaping forgets exactly which words have been separators. -/
theorem escape_eq_iff {first : α} {others : List α} (absent : separator ∉ first :: others) (unlike : first ∉ others)
    {text other : List α} : escape separator (first :: others) text = escape separator (first :: others) other ↔
      Alike separator (first :: others) text other :=
  ⟨alike_of_escape_eq absent unlike _ (Nat.le_refl _), escape_eq_of_alike absent⟩

end MjFormatter.Library.Escapes
