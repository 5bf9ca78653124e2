import Mathlib.Data.List.Basic

/-! # Alternating two sequences, and the perfect shuffle

`alternate` deals the elements of two sequences in turn.  Dealing `left` and a `right` that is one
element shorter sends position `j` of `left ++ right` to position `2 * j` modulo the total length,
which is the perfect (out-)shuffle.  So the two sequences alternate to their concatenation exactly
when the concatenation is a fixed point of that permutation. -/

namespace MjFormatter.Library

variable {β : Type*}

/-- Deal the elements of two sequences in turn, the first sequence first; the rest of the longer one
follows. -/
def alternate : List β → List β → List β
  | [], rights => rights
  | left :: lefts, [] => left :: lefts
  | left :: lefts, right :: rights => left :: right :: alternate lefts rights

@[simp] theorem alternate_nil (rights : List β) : alternate [] rights = rights := rfl

@[simp] theorem alternate_cons_cons (left right : β) (lefts rights : List β) :
    alternate (left :: lefts) (right :: rights) = left :: right :: alternate lefts rights := rfl

theorem alternate_singleton (left : β) (rights : List β) :
    alternate [left] rights = left :: rights := by
  cases rights <;> rfl

theorem length_alternate (lefts rights : List β) :
    (alternate lefts rights).length = lefts.length + rights.length := by
  induction lefts generalizing rights with
  | nil => simp
  | cons left lefts inductionHypothesis =>
    cases rights with
    | nil => rfl
    | cons right rights => simp [inductionHypothesis]; omega

/-- What follows the part of the second sequence that takes part in the dealing is dealt last. -/
theorem alternate_append_right (lefts rights rest : List β)
    (covered : lefts.length ≤ rights.length + 1) :
    alternate lefts (rights ++ rest) = alternate lefts rights ++ rest := by
  induction lefts generalizing rights with
  | nil => rfl
  | cons left lefts inductionHypothesis =>
    cases rights with
    | nil =>
      obtain rfl : lefts = [] := by simpa using covered
      simp [alternate_singleton]
    | cons right rights =>
      simp only [List.cons_append, alternate_cons_cons]
      rw [inductionHypothesis rights (by simpa using covered)]

theorem getElem?_alternate_even {lefts rights : List β}
    (lengths : lefts.length = rights.length + 1) (index : Nat) :
    (alternate lefts rights)[2 * index]? = lefts[index]? := by
  induction index generalizing lefts rights with
  | zero =>
    cases lefts with
    | nil => simp at lengths
    | cons left lefts => cases rights <;> rfl
  | succ index inductionHypothesis =>
    cases lefts with
    | nil => simp at lengths
    | cons left lefts =>
      cases rights with
      | nil =>
        obtain rfl : lefts = [] := by simpa using lengths
        simp [alternate_singleton]
      | cons right rights =>
        -- Dealing one pair moves the position by two.
        have step : (alternate lefts rights)[2 * index]? = lefts[index]? :=
          inductionHypothesis (by simpa using lengths)
        simpa [Nat.mul_succ] using step

theorem getElem?_alternate_odd {lefts rights : List β}
    (lengths : lefts.length = rights.length + 1) (index : Nat) :
    (alternate lefts rights)[2 * index + 1]? = rights[index]? := by
  induction index generalizing lefts rights with
  | zero =>
    cases lefts with
    | nil => simp at lengths
    | cons left lefts =>
      cases rights with
      | nil =>
        obtain rfl : lefts = [] := by simpa using lengths
        rfl
      | cons right rights => rfl
  | succ index inductionHypothesis =>
    cases lefts with
    | nil => simp at lengths
    | cons left lefts =>
      cases rights with
      | nil =>
        obtain rfl : lefts = [] := by simpa using lengths
        simp [alternate_singleton]
      | cons right rights =>
        have step : (alternate lefts rights)[2 * index + 1]? = rights[index]? :=
          inductionHypothesis (by simpa using lengths)
        simpa [Nat.mul_succ] using step

theorem mem_alternate {lefts rights : List β} {symbol : β} :
    symbol ∈ alternate lefts rights ↔ symbol ∈ lefts ∨ symbol ∈ rights := by
  induction lefts generalizing rights with
  | nil => simp
  | cons left lefts inductionHypothesis =>
    cases rights with
    | nil => simp [alternate]
    | cons right rights =>
      simp only [alternate_cons_cons, List.mem_cons, inductionHypothesis]
      tauto

theorem getLast?_alternate {lefts rights : List β} (lengths : lefts.length = rights.length + 1) :
    (alternate lefts rights).getLast? = lefts.getLast? := by
  have last := getElem?_alternate_even lengths rights.length
  rw [List.getLast?_eq_getElem?, List.getLast?_eq_getElem?, length_alternate,
    show lefts.length + rights.length - 1 = 2 * rights.length by omega, last, lengths]
  rfl

/-- A word that the perfect shuffle of its positions leaves as it is. -/
def ShuffleFixed (word : List β) : Prop :=
  ∀ position < word.length, word[2 * position % word.length]? = word[position]?

instance [DecidableEq β] (word : List β) : Decidable (ShuffleFixed word) :=
  inferInstanceAs (Decidable (∀ position < word.length, word[2 * position % word.length]? = word[position]?))

theorem shuffleFixed_of_length_le_one {word : List β} (short : word.length ≤ 1) : ShuffleFixed word := by
  intro position bound
  obtain rfl : position = 0 := by omega
  rw [Nat.mul_zero, Nat.zero_mod]

theorem getElem?_alternate_shuffled {lefts rights : List β}
    (lengths : lefts.length = rights.length + 1) {position : Nat}
    (bound : position < (lefts ++ rights).length) :
    (alternate lefts rights)[2 * position % (lefts ++ rights).length]? =
      (lefts ++ rights)[position]? := by
  simp only [List.length_append] at bound ⊢
  -- The left half goes to the even positions, the right half wraps around to the odd ones.
  by_cases inLeft : position < lefts.length
  · rw [Nat.mod_eq_of_lt (by omega), getElem?_alternate_even lengths,
      List.getElem?_append_left inLeft]
  · have wrapped : 2 * position % (lefts.length + rights.length) =
        2 * (position - lefts.length) + 1 := by
      rw [Nat.mod_eq_sub_mod (by omega), Nat.mod_eq_of_lt (by omega)]
      omega
    rw [wrapped, getElem?_alternate_odd lengths, List.getElem?_append_right (by omega)]

theorem exists_shuffled_position {length : Nat} (odd : length % 2 = 1) {target : Nat}
    (bound : target < length) : ∃ position < length, 2 * position % length = target := by
  -- Modulo an odd length an odd target is an even one too, after one turn.
  by_cases even : target % 2 = 0
  · exact ⟨target / 2, by omega, by rw [Nat.mod_eq_of_lt (by omega)]; omega⟩
  · refine ⟨(target + length) / 2, by omega, ?_⟩
    rw [show 2 * ((target + length) / 2) = target + length by omega, Nat.add_mod_right,
      Nat.mod_eq_of_lt bound]

theorem alternate_eq_append_iff {lefts rights : List β}
    (lengths : lefts.length = rights.length + 1) :
    alternate lefts rights = lefts ++ rights ↔ ShuffleFixed (lefts ++ rights) := by
  constructor
  · intro same position bound
    rw [← same, same, ← getElem?_alternate_shuffled lengths bound, same]
  · intro fixed
    apply List.ext_getElem?
    intro target
    by_cases bound : target < (lefts ++ rights).length
    · have odd : (lefts ++ rights).length % 2 = 1 := by simp only [List.length_append]; omega
      -- Every position is the image of one, so it is enough to compare images.
      obtain ⟨position, positionBound, rfl⟩ := exists_shuffled_position odd bound
      rw [getElem?_alternate_shuffled lengths positionBound, fixed position positionBound]
    · have outside : (alternate lefts rights).length ≤ target := by
        rw [length_alternate]
        simpa using bound
      rw [List.getElem?_eq_none outside, List.getElem?_eq_none (by simpa using bound)]

end MjFormatter.Library
