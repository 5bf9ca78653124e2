import Mathlib.Data.List.Pairwise
import Mathlib.Logic.Function.Basic

/-! # Copies made before overwriting

A store maps places to values.  A save copies what a place holds to a free place and then overwrites it; the log of the
saves, replayed from the first to the last, puts back what the last copy of each place holds. -/

namespace MjFormatter.Library.UndoLog

variable {κ α : Type*} [DecidableEq κ]

structure Save (κ α : Type*) where
  source : κ
  copy : κ
  written : α
  deriving DecidableEq

def Save.apply (save : Save κ α) (store : κ → Option α) : κ → Option α :=
  Function.update (Function.update store save.copy (store save.source)) save.source (some save.written)

/-- The saves lead from one store to another, each from a place that holds something to a free one. -/
inductive Saves : (κ → Option α) → List (Save κ α) → (κ → Option α) → Prop where
  | nil (store : κ → Option α) : Saves store [] store
  | cons {store final : κ → Option α} {save : Save κ α} {saves : List (Save κ α)}
      (there : (store save.source).isSome) (free : store save.copy = none) (others : Saves (save.apply store) saves final) :
      Saves store (save :: saves) final

/-- What a place holds before the first save of it. -/
def firstFound (store : κ → Option α) : List (Save κ α) → κ → Option α
  | [], _ => none
  | save :: saves, place => if save.source = place then store place else firstFound (save.apply store) saves place

/-- What a place holds before the last save of it. -/
def lastFound (store : κ → Option α) : List (Save κ α) → κ → Option α
  | [], _ => none
  | save :: saves, place =>
    if save.source = place ∧ ∀ later ∈ saves, later.source ≠ place then store place
    else lastFound (save.apply store) saves place

/-- The copy that the last save of a place has made. -/
def lastCopy : List (Save κ α) → κ → Option κ
  | [], _ => none
  | save :: saves, place =>
    match lastCopy saves place with
    | some copy => some copy
    | none => if save.source = place then some save.copy else none

def restoreOne (store : κ → Option α) (save : Save κ α) : κ → Option α :=
  match store save.copy with
  | none => store
  | some value => Function.update store save.source (some value)

def replay (store : κ → Option α) (saves : List (Save κ α)) : κ → Option α := saves.foldl restoreOne store

/-! ## Saving -/

section
variable {store final : κ → Option α} {save : Save κ α} {saves : List (Save κ α)}

theorem apply_copy (there : (store save.source).isSome) (free : store save.copy = none) :
    save.apply store save.copy = store save.source := by
  have apart : save.copy ≠ save.source := by
    intro same
    rw [same] at free
    simp [free] at there
  rw [Save.apply, Function.update_of_ne apart, Function.update_self]

theorem apply_of_ne {place : κ} (notSource : place ≠ save.source) (notCopy : place ≠ save.copy) :
    save.apply store place = store place := by
  rw [Save.apply, Function.update_of_ne notSource, Function.update_of_ne notCopy]

theorem isSome_apply {place : κ} (there : (store save.source).isSome) (held : (store place).isSome) :
    (save.apply store place).isSome := by
  by_cases source : place = save.source
  · simp [Save.apply, source]
  · by_cases copy : place = save.copy
    · simpa [Save.apply, source, copy, Function.update_of_ne (copy ▸ source)] using there
    · rwa [apply_of_ne source copy]

theorem isSome_of_saves (run : Saves store saves final) {place : κ} (held : (store place).isSome) : (final place).isSome := by
  induction run with
  | nil => exact held
  | cons there _ _ ih => exact ih (isSome_apply there held)

/-- A copy is made at a place that did not exist, so it is no place from which a value has been saved or copied before. -/
theorem copy_ne_of_held (run : Saves store saves final) {place : κ} (held : (store place).isSome) :
    ∀ save ∈ saves, save.copy ≠ place := by
  induction run with
  | nil => simp
  | cons there free others ih =>
    intro other member
    cases List.mem_cons.mp member with
    | inl isFirst =>
      subst isFirst
      intro same
      rw [same] at free
      simp [free] at held
    | inr later => exact ih (isSome_apply there held) other later

theorem isSome_copy (run : Saves store saves final) : ∀ save ∈ saves, (final save.copy).isSome := by
  induction run with
  | nil => simp
  | cons there free others ih =>
    intro other member
    cases List.mem_cons.mp member with
    | inl isFirst =>
      subst isFirst
      apply isSome_of_saves others
      rwa [apply_copy there free]
    | inr later => exact ih other later

/-- No copy lies where a value has been saved from, in this save or an earlier one. -/
theorem source_ne_copy (run : Saves store saves final) :
    saves.Pairwise (fun earlier later => earlier.source ≠ later.copy) ∧ ∀ save ∈ saves, save.source ≠ save.copy := by
  induction run with
  | nil => simp
  | cons there free others ih =>
    rename_i store final save saves
    have apart : save.source ≠ save.copy := by
      intro same
      rw [same, free] at there
      simp at there
    constructor
    · apply List.Pairwise.cons
      · intro later member same
        exact copy_ne_of_held others (isSome_apply there there) later member same.symm
      · exact ih.1
    · intro other member
      cases List.mem_cons.mp member with
      | inl isFirst =>
        subst isFirst
        exact apart
      | inr later => exact ih.2 other later

end

/-! ## The last copy -/

section
variable {store final : κ → Option α} {saves : List (Save κ α)}

theorem exists_of_lastCopy {place copy : κ} (found : lastCopy saves place = some copy) : ∃ save ∈ saves, save.copy = copy := by
  induction saves with
  | nil => simp [lastCopy] at found
  | cons save saves ih =>
    cases known : lastCopy saves place with
    | some inner =>
      simp only [lastCopy, known, Option.some.injEq] at found
      subst found
      obtain ⟨later, member, same⟩ := ih known
      exact ⟨later, by simp [member], same⟩
    | none =>
      by_cases isSource : save.source = place
      · simp only [lastCopy, known, isSource, if_true, Option.some.injEq] at found
        exact ⟨save, by simp, found⟩
      · simp [lastCopy, known, isSource] at found

theorem lastCopy_eq_none_iff {place : κ} : lastCopy saves place = none ↔ ∀ save ∈ saves, save.source ≠ place := by
  induction saves with
  | nil => simp [lastCopy]
  | cons save saves ih =>
    cases known : lastCopy saves place with
    | some copy =>
      rw [known] at ih
      have notAll : ¬∀ later ∈ saves, later.source ≠ place := fun all => by simpa using ih.mpr all
      simp only [lastCopy, known, List.mem_cons, forall_eq_or_imp, reduceCtorEq, false_iff, not_and]
      exact fun _ => notAll
    | none =>
      have all := ih.mp known
      by_cases isSource : save.source = place
      · simp [lastCopy, known, isSource]
      · simp only [lastCopy, known, isSource, if_false, List.mem_cons, forall_eq_or_imp, true_iff]
        exact ⟨isSource, all⟩

theorem saves_frame (run : Saves store saves final) {place : κ} (held : (store place).isSome)
    (notSource : ∀ save ∈ saves, save.source ≠ place) : final place = store place := by
  have notCopy := copy_ne_of_held run held
  induction run with
  | nil => rfl
  | cons there free others ih =>
    rename_i store final save saves
    have same : save.apply store place = store place :=
      apply_of_ne (notSource save (by simp)).symm (notCopy save (by simp)).symm
    have rest := ih (by rwa [same]) (fun later member => notSource later (by simp [member]))
      (fun later member => notCopy later (by simp [member]))
    rw [rest, same]

/-- Where no copy is overwritten, the last copy of a place holds what the last save of it has found. -/
theorem final_lastCopy (run : Saves store saves final) (kept : saves.Pairwise fun earlier later => later.source ≠ earlier.copy)
    {place copy : κ} (last : lastCopy saves place = some copy) : final copy = lastFound store saves place := by
  induction run with
  | nil => simp [lastCopy] at last
  | cons there free others ih =>
    rename_i store final save saves
    obtain ⟨first, keptOthers⟩ := List.pairwise_cons.mp kept
    cases known : lastCopy saves place with
    | some inner =>
      simp only [lastCopy, known, Option.some.injEq] at last
      subst last
      have again : ¬(save.source = place ∧ ∀ later ∈ saves, later.source ≠ place) := by
        intro only
        rw [lastCopy_eq_none_iff.mpr only.2] at known
        cases known
      rw [lastFound, if_neg again]
      exact ih keptOthers known
    | none =>
      have only := lastCopy_eq_none_iff.mp known
      by_cases isSource : save.source = place
      · simp only [lastCopy, known, isSource, if_true, Option.some.injEq] at last
        subst last isSource
        have held : (save.apply store save.copy).isSome := by rwa [apply_copy there free]
        rw [saves_frame others held first, apply_copy there free, lastFound, if_pos ⟨rfl, only⟩]
      · simp [lastCopy, known, isSource] at last

/-- A place that is saved once is found by its only save. -/
theorem lastFound_eq_firstFound (once : (saves.map Save.source).Nodup) (place : κ) :
    lastFound store saves place = firstFound store saves place := by
  induction saves generalizing store with
  | nil => rfl
  | cons save saves ih =>
    obtain ⟨fresh, onceOthers⟩ := List.nodup_cons.mp once
    by_cases isSource : save.source = place
    · have only : ∀ later ∈ saves, later.source ≠ place := by
        intro later member same
        apply fresh
        rw [isSource, ← same]
        exact List.mem_map_of_mem member
      rw [lastFound, firstFound, if_pos ⟨isSource, only⟩, if_pos isSource]
    · rw [lastFound, firstFound, if_neg isSource, if_neg fun both => isSource both.1]
      exact ih onceOthers

end

/-! ## Replaying -/

section
variable {store : κ → Option α} {saves : List (Save κ α)}

theorem restoreOne_of_ne {save : Save κ α} {place : κ} (other : place ≠ save.source) :
    restoreOne store save place = store place := by
  unfold restoreOne
  cases store save.copy with
  | none => rfl
  | some value => exact Function.update_of_ne other _ _

/-- The replay puts back what the last copy of a place holds, and leaves the other places alone. -/
theorem replay_eq (apart : saves.Pairwise fun earlier later => earlier.source ≠ later.copy)
    (held : ∀ save ∈ saves, (store save.copy).isSome) (place : κ) :
    replay store saves place = match lastCopy saves place with
      | some copy => store copy
      | none => store place := by
  induction saves generalizing store with
  | nil => rfl
  | cons save saves ih =>
    obtain ⟨first, others⟩ := List.pairwise_cons.mp apart
    have untouched : ∀ later ∈ saves, restoreOne store save later.copy = store later.copy := by
      intro later member
      exact restoreOne_of_ne (first later member).symm
    have heldAfter : ∀ later ∈ saves, (restoreOne store save later.copy).isSome := by
      intro later member
      rw [untouched later member]
      exact held later (by simp [member])
    have rest := ih others heldAfter
    rw [replay, List.foldl_cons, ← replay, rest, lastCopy]
    cases known : lastCopy saves place with
    | some copy =>
      obtain ⟨later, member, same⟩ := exists_of_lastCopy known
      simp only
      rw [← same, untouched later member]
    | none =>
      by_cases isSource : save.source = place
      · obtain ⟨value, kept⟩ := Option.isSome_iff_exists.mp (held save (by simp))
        simp only [isSource, if_true, restoreOne, kept, Function.update_self]
      · simp only [if_neg isSource]
        exact restoreOne_of_ne fun same => isSource same.symm

end

end MjFormatter.Library.UndoLog
