import Mathlib.Data.List.FinRange
import Mathlib.Data.List.Perm.Subperm

/-! # Codewords with missing symbols

A codeword is a list of symbols.  A received word is sifted by a table of checksums: the symbols that do not
match their entry are taken as missing, and a decoder for erasures fills them in. -/

namespace MjFormatter.Library.Erasures

variable {α γ : Type*}

/-- The slots hold the codeword, some of its symbols left out. -/
def Erased (code : List α) (slots : List (Option α)) : Prop :=
  List.Forall₂ (fun symbol slot => slot = none ∨ slot = some symbol) code slots

def missing (slots : List (Option α)) : Nat := slots.countP Option.isNone

/-- The decoder fills in up to `parity` missing symbols of the codeword. -/
def Recovers (reconstruct : List (Option α) → Option (List (Option α))) (parity : Nat) (code : List α) : Prop :=
  ∀ slots, Erased code slots → missing slots ≤ parity → reconstruct slots = some (code.map some)

/-- The received symbols that match their checksums. -/
def sift [DecidableEq γ] (checksum : α → γ) (table : List γ) (received : List α) : List (Option α) :=
  List.zipWith (fun expected symbol => if checksum symbol = expected then some symbol else none) table received

theorem eq_complete_of_missing_eq_zero {code : List α} {slots : List (Option α)} (erased : Erased code slots)
    (none_missing : missing slots = 0) : slots = code.map some := by
  induction erased with
  | nil => rfl
  | cons first _ ih =>
    rename_i symbol slot code slots _
    cases first with
    | inl gone =>
      subst gone
      simp [missing] at none_missing
    | inr kept =>
      subst kept
      have others : missing slots = 0 := by simpa [missing] using none_missing
      simp [ih others]

/-! ## Sifting a received word -/

section
variable [DecidableEq γ] {checksum : α → γ}

theorem erased_sift {code received : List α} {table : List γ} (sameLength : received.length = code.length)
    (tableLength : table.length = code.length)
    (detects : ∀ (k : Nat) (symbol : α) (expected : γ), received[k]? = some symbol → table[k]? = some expected →
      code[k]? ≠ some symbol → checksum symbol ≠ expected) :
    Erased code (sift checksum table received) := by
  induction code generalizing received table with
  | nil =>
    have empty : received = [] := List.length_eq_zero_iff.mp sameLength
    subst empty
    simp [sift, Erased]
  | cons original code ih =>
    cases received with
    | nil => simp at sameLength
    | cons symbol received =>
      cases table with
      | nil => simp at tableLength
      | cons expected table =>
        simp only [List.length_cons, Nat.add_right_cancel_iff] at sameLength tableLength
        have others : Erased code (sift checksum table received) := by
          apply ih sameLength tableLength
          intro k symbol expected found entry altered
          apply detects (k + 1) symbol expected
          · simpa using found
          · simpa using entry
          · simpa using altered
        simp only [sift, List.zipWith_cons_cons]
        apply List.Forall₂.cons _ others
        by_cases matching : checksum symbol = expected
        · have unchanged : original = symbol := by
            by_contra altered
            apply detects 0 symbol expected (by simp) (by simp) (by simpa using altered) matching
          simp [matching, unchanged]
        · simp [matching]

/-- At most as many elements have a property as there are positions that may have it. -/
theorem countP_le_of_positions {β : Type*} {holds : β → Bool} {elements : List β} {positions : List Nat}
    (only : ∀ (k : Nat) (element : β), elements[k]? = some element → holds element = true → k ∈ positions) :
    elements.countP holds ≤ positions.length := by
  have indexed : elements.countP holds = ((List.finRange elements.length).filter (holds ∘ elements.get)).length := by
    rw [← List.countP_eq_length_filter, ← List.countP_map, List.map_get_finRange]
  have nodup : (((List.finRange elements.length).filter (holds ∘ elements.get)).map Fin.val).Nodup :=
    (List.nodup_finRange _ |>.filter _).map Fin.val_injective
  rw [indexed, ← List.length_map Fin.val]
  apply (List.subperm_of_subset nodup _).length_le
  intro k member
  simp only [List.mem_map, List.mem_filter, Function.comp_apply] at member
  obtain ⟨index, ⟨_, holdsThere⟩, rfl⟩ := member
  exact only index (elements.get index) (by simp) holdsThere

theorem missing_sift_le {code received : List α} {table : List γ} {hit : List Nat}
    (tableLength : table.length = code.length)
    (intact : ∀ k < code.length, k ∉ hit → received[k]? = code[k]? ∧ table[k]? = (code.map checksum)[k]?) :
    missing (sift checksum table received) ≤ hit.length := by
  apply countP_le_of_positions
  intro k slot found gone
  by_contra elsewhere
  simp only [sift, List.getElem?_zipWith] at found
  cases entry : table[k]? with
  | none => simp [entry] at found
  | some expected =>
    have inside : k < code.length := by
      rw [← tableLength]
      exact (List.getElem?_eq_some_iff.mp entry).1
    obtain ⟨sameSymbol, sameEntry⟩ := intact k inside elsewhere
    have symbol : received[k]? = some code[k] := by simp [sameSymbol, inside]
    have matching : checksum code[k] = expected := by
      rw [entry] at sameEntry
      simpa [inside] using sameEntry.symm
    simp only [entry, symbol, matching, if_true, Option.some.injEq] at found
    subst found
    simp at gone

end

end MjFormatter.Library.Erasures
