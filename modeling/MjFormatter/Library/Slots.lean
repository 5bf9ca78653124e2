import Mathlib.Algebra.BigOperators.Group.List.Basic
import Mathlib.Algebra.GroupWithZero.Nat
import Mathlib.Data.List.Perm.Basic

/-! # Parties that step one at a time

A list holds the states of some parties, each at its slot.  What a step of one party changes is read off against the
other parties, which stay as they were. -/

namespace MjFormatter.Library

variable {σ β : Type*} {parties : List σ} {slot : Nat} {before : σ}

theorem perm_of_getElem? (held : parties[slot]? = some before) : parties.Perm (before :: parties.eraseIdx slot) := by
  obtain ⟨inside, same⟩ := List.getElem?_eq_some_iff.mp held
  rw [← same]
  exact (List.getElem_cons_eraseIdx_perm inside).symm

theorem set_perm (held : parties[slot]? = some before) (after : σ) :
    (parties.set slot after).Perm (after :: parties.eraseIdx slot) :=
  List.set_perm_cons_eraseIdx (List.getElem?_eq_some_iff.mp held).1 after

/-- What the parties hold together, split at one of them. -/
theorem flatMap_perm (held : parties[slot]? = some before) (hold : σ → List β) :
    (parties.flatMap hold).Perm (hold before ++ (parties.eraseIdx slot).flatMap hold) :=
  (perm_of_getElem? held).flatMap_right hold

theorem flatMap_set_perm (held : parties[slot]? = some before) (after : σ) (hold : σ → List β) :
    ((parties.set slot after).flatMap hold).Perm (hold after ++ (parties.eraseIdx slot).flatMap hold) :=
  (set_perm held after).flatMap_right hold

/-- Something that a step adds to. -/
theorem flatMap_set_append (held : parties[slot]? = some before) {after : σ} {hold : σ → List β} {more : List β}
    (added : hold after = hold before ++ more) :
    ((parties.set slot after).flatMap hold).Perm (parties.flatMap hold ++ more) := by
  have left := flatMap_set_perm held after hold
  rw [added, List.append_assoc] at left
  have around := (flatMap_perm held hold).append_right more
  rw [List.append_assoc] at around
  exact left.trans (((List.perm_append_comm).append_left _).trans around.symm)

/-- What the parties hold and what lies elsewhere, when a step moves something between them and brings something new. -/
theorem flatMap_set_exchange (held : parties[slot]? = some before) {after : σ} {hold : σ → List β}
    {elsewhere elsewhereAfter more : List β}
    (moved : (hold after ++ elsewhereAfter).Perm (hold before ++ elsewhere ++ more)) :
    ((parties.set slot after).flatMap hold ++ elsewhereAfter).Perm (parties.flatMap hold ++ elsewhere ++ more) := by
  have left := ((flatMap_set_perm held after hold).trans List.perm_append_comm).append_right elsewhereAfter
  have right := ((flatMap_perm held hold).trans List.perm_append_comm).append_right (elsewhere ++ more)
  rw [List.append_assoc] at left right
  rw [List.append_assoc] at moved ⊢
  exact left.trans ((moved.append_left _).trans right.symm)

theorem sum_map_eq (held : parties[slot]? = some before) (weight : σ → Nat) :
    (parties.map weight).sum = weight before + ((parties.eraseIdx slot).map weight).sum := by
  rw [((perm_of_getElem? held).map weight).sum_eq, List.map_cons, List.sum_cons]

theorem sum_map_set_eq (held : parties[slot]? = some before) (after : σ) (weight : σ → Nat) :
    ((parties.set slot after).map weight).sum = weight after + ((parties.eraseIdx slot).map weight).sum := by
  rw [((set_perm held after).map weight).sum_eq, List.map_cons, List.sum_cons]

/-- What holds of every party and of the new state holds of every party behind the step. -/
theorem forall_getElem?_set {holds : Nat → σ → Prop} (held : parties[slot]? = some before) {after : σ}
    (others : ∀ other state, other ≠ slot → parties[other]? = some state → holds other state) (here : holds slot after) :
    ∀ other state, (parties.set slot after)[other]? = some state → holds other state := by
  intro other state found
  by_cases same : slot = other
  · subst same
    rw [List.getElem?_set_self (List.getElem?_eq_some_iff.mp held).1, Option.some.injEq] at found
    rw [← found]
    exact here
  · rw [List.getElem?_set_ne same] at found
    exact others other state (Ne.symm same) found

end MjFormatter.Library
