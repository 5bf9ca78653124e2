import Mathlib.Data.List.Basic

/-! # Overwriting selected positions of a list

`overwrite chosen olds news` takes the chosen positions from `olds` and the others from `news`.  Whether
this loses elements of a permutation depends only on what stands at the chosen positions. -/

namespace MjFormatter.Library

variable {β : Type*}

/-- The elements at the chosen positions. -/
def pick (chosen : Nat → Bool) : List β → List β
  | [] => []
  | first :: rest =>
    if chosen 0 then first :: pick (fun index => chosen (index + 1)) rest
    else pick (fun index => chosen (index + 1)) rest

def overwrite (chosen : Nat → Bool) : List β → List β → List β
  | old :: olds, new :: news =>
    (if chosen 0 then old else new) :: overwrite (fun index => chosen (index + 1)) olds news
  | _, news => news

theorem getElem?_overwrite (chosen : Nat → Bool) {olds news : List β} (sameLength : olds.length = news.length)
    (index : Nat) : (overwrite chosen olds news)[index]? = if chosen index then olds[index]? else news[index]? := by
  induction olds generalizing chosen news index with
  | nil =>
    obtain rfl : news = [] := List.length_eq_zero_iff.mp sameLength.symm
    simp [overwrite]
  | cons old olds inductionHypothesis =>
    cases news with
    | nil => cases sameLength
    | cons new news =>
      cases index with
      | zero =>
        simp only [overwrite, List.getElem?_cons_zero]
        split <;> rfl
      | succ index =>
        simp only [overwrite, List.getElem?_cons_succ]
        exact inductionHypothesis _ (Nat.succ.inj sameLength) index

/-- A list consists of what stands at the chosen positions and of the rest. -/
theorem pick_append_perm (chosen : Nat → Bool) (items : List β) :
    (pick chosen items ++ pick (fun index => !chosen index) items).Perm items := by
  induction items generalizing chosen with
  | nil => exact .refl []
  | cons first rest inductionHypothesis =>
    have tail := inductionHypothesis fun index => chosen (index + 1)
    simp only [pick]
    cases chosen 0 with
    | true => exact tail.cons first
    | false => exact List.perm_middle.trans (tail.cons first)

theorem overwrite_perm (chosen : Nat → Bool) {olds news : List β} (sameLength : olds.length = news.length) :
    (overwrite chosen olds news).Perm (pick chosen olds ++ pick (fun index => !chosen index) news) := by
  induction olds generalizing chosen news with
  | nil =>
    obtain rfl : news = [] := List.length_eq_zero_iff.mp sameLength.symm
    exact .refl []
  | cons old olds inductionHypothesis =>
    cases news with
    | nil => cases sameLength
    | cons new news =>
      have tail := inductionHypothesis (fun index => chosen (index + 1)) (Nat.succ.inj sameLength)
      simp only [overwrite, pick]
      cases chosen 0 with
      | true => exact tail.cons old
      | false => exact (tail.cons new).trans List.perm_middle.symm

/-- Overwriting a permutation gives a permutation exactly when the same elements stand at the chosen
positions of both lists. -/
theorem overwrite_perm_iff (chosen : Nat → Bool) {olds news : List β} (permuted : news.Perm olds) :
    (overwrite chosen olds news).Perm olds ↔ (pick chosen news).Perm (pick chosen olds) := by
  have overwritten := overwrite_perm chosen permuted.length_eq.symm
  have parts := pick_append_perm chosen news
  constructor
  · intro kept
    have whole := (parts.trans permuted).trans (kept.symm.trans overwritten)
    exact (List.perm_append_right_iff _).mp whole
  · intro same
    exact overwritten.trans (((List.perm_append_right_iff _).mpr same.symm).trans (parts.trans permuted))

end MjFormatter.Library
