import Mathlib.Algebra.GroupWithZero.Nat
import Mathlib.Algebra.Order.BigOperators.Group.List
import Mathlib.Algebra.Order.Monoid.Canonical.Defs
import Mathlib.Data.List.Basic

/-! # Replacing ranges of a text by measured offsets

Offsets count the widths of the symbols before them, as byte offsets do.  Replacements of disjoint
ranges that are carried out from the last to the first change these ranges and nothing else. -/

namespace MjFormatter.Library

variable {α : Type*} (width : α → Nat)

def measure (text : List α) : Nat := (text.map width).sum

/-- The two parts of a text at an offset, when the offset is on the boundary of a symbol. -/
def cutAt : List α → Nat → Option (List α × List α)
  | text, 0 => some ([], text)
  | [], _ + 1 => none
  | symbol :: rest, offset + 1 =>
    if width symbol ≤ offset + 1 then
      (cutAt rest (offset + 1 - width symbol)).map fun parts => (symbol :: parts.1, parts.2)
    else none

def slice (text : List α) (start stop : Nat) : Option (List α) :=
  (cutAt width text start).bind fun outer => (cutAt width outer.2 (stop - start)).map (·.1)

/-- The text with a range replaced; a range that is not on boundaries leaves it. -/
def replaceRange (text : List α) (start stop : Nat) (new : List α) : List α :=
  match cutAt width text start, cutAt width text stop with
  | some (front, _), some (_, back) => front ++ new ++ back
  | _, _ => text

@[simp] theorem measure_nil : measure width [] = 0 := rfl

@[simp] theorem measure_cons (symbol : α) (text : List α) :
    measure width (symbol :: text) = width symbol + measure width text := by
  simp [measure]

@[simp] theorem measure_append (front back : List α) :
    measure width (front ++ back) = measure width front + measure width back := by
  simp [measure]

variable {width} (positive : ∀ symbol, 0 < width symbol)
include positive

theorem eq_nil_of_measure {text : List α} (empty : measure width text = 0) : text = [] := by
  cases text with
  | nil => rfl
  | cons symbol rest =>
    have wide := positive symbol
    rw [measure_cons] at empty
    omega

theorem cutAt_eq_some_iff {text front back : List α} {offset : Nat} :
    cutAt width text offset = some (front, back) ↔ text = front ++ back ∧ measure width front = offset := by
  induction text generalizing front offset with
  | nil =>
    cases offset with
    | zero =>
      simp only [cutAt, Option.some.injEq, Prod.mk.injEq]
      constructor
      · intro cut
        obtain ⟨rfl, rfl⟩ := cut
        exact ⟨rfl, rfl⟩
      · intro cut
        obtain ⟨rfl, rfl⟩ := List.append_eq_nil_iff.mp cut.1.symm
        exact ⟨rfl, rfl⟩
    | succ offset =>
      simp only [cutAt, reduceCtorEq, false_iff, not_and]
      intro cut
      obtain ⟨rfl, rfl⟩ := List.append_eq_nil_iff.mp cut.symm
      simp
  | cons symbol rest inductionHypothesis =>
    have wide := positive symbol
    cases offset with
    | zero =>
      simp only [cutAt, Option.some.injEq, Prod.mk.injEq]
      constructor
      · intro cut
        obtain ⟨rfl, rfl⟩ := cut
        exact ⟨rfl, rfl⟩
      · intro cut
        obtain rfl := eq_nil_of_measure positive cut.2
        exact ⟨rfl, cut.1⟩
    | succ offset =>
      cases front with
      | nil =>
        simp only [cutAt]
        split
        · simp
        · simp
      | cons first front =>
        simp only [cutAt, List.cons_append, List.cons.injEq, measure_cons]
        constructor
        · intro cut
          split at cut
          · next fits =>
            obtain ⟨parts, found, same⟩ := Option.map_eq_some_iff.mp cut
            obtain ⟨⟨rfl, rfl⟩, rfl⟩ := by simpa only [Prod.mk.injEq, List.cons.injEq] using same
            obtain ⟨rfl, measured⟩ := inductionHypothesis.mp found
            exact ⟨⟨rfl, rfl⟩, by omega⟩
          · cases cut
        · intro cut
          obtain ⟨⟨rfl, rfl⟩, measured⟩ := cut
          have fits : width symbol ≤ offset + 1 := by omega
          rw [if_pos fits, inductionHypothesis.mpr ⟨rfl, by omega⟩]
          rfl

theorem slice_eq_some_iff {text part : List α} {start stop : Nat} :
    slice width text start stop = some part ↔
      ∃ front back, text = front ++ part ++ back ∧ measure width front = start ∧
        measure width part = stop - start := by
  simp only [slice, Option.bind_eq_some_iff, Option.map_eq_some_iff]
  constructor
  · intro sliced
    obtain ⟨⟨front, rest⟩, outer, ⟨inner, back⟩, cut, rfl⟩ := sliced
    obtain ⟨rfl, measured⟩ := (cutAt_eq_some_iff positive).mp outer
    obtain ⟨rfl, length⟩ := (cutAt_eq_some_iff positive).mp cut
    exact ⟨front, back, by simp, measured, length⟩
  · intro parts
    obtain ⟨front, back, rfl, measured, length⟩ := parts
    exact ⟨(front, part ++ back), (cutAt_eq_some_iff positive).mpr ⟨by simp, measured⟩, (part, back),
      (cutAt_eq_some_iff positive).mpr ⟨rfl, length⟩, rfl⟩

theorem replaceRange_eq (front old back new : List α) :
    replaceRange width (front ++ old ++ back) (measure width front) (measure width (front ++ old)) new =
      front ++ new ++ back := by
  have outer : cutAt width (front ++ old ++ back) (measure width front) = some (front, old ++ back) :=
    (cutAt_eq_some_iff positive).mpr ⟨by simp, rfl⟩
  have inner : cutAt width (front ++ old ++ back) (measure width (front ++ old)) = some (front ++ old, back) :=
    (cutAt_eq_some_iff positive).mpr ⟨rfl, rfl⟩
  rw [replaceRange, outer, inner]

/-- Of two ways to cut a text the earlier one cuts the front of the later one. -/
theorem front_of_le {text front back later rest : List α} (early : text = front ++ back)
    (late : text = later ++ rest) (before : measure width front ≤ measure width later) :
    ∃ between, later = front ++ between ∧ back = between ++ rest := by
  cases List.append_eq_append_iff.mp (early.symm.trans late) with
  | inl longer =>
    obtain ⟨between, same, split⟩ := longer
    exact ⟨between, same, split⟩
  | inr shorter =>
    obtain ⟨between, same, split⟩ := shorter
    rw [same, measure_append] at before
    obtain rfl := eq_nil_of_measure positive (by omega : measure width between = 0)
    exact ⟨[], by simpa using same.symm, by simpa using split.symm⟩

/-! ## Replacements from the last to the first -/

omit positive

/-- A range, what stands there, and what replaces it. -/
structure RangeEdit (α : Type*) where
  start : Nat
  stop : Nat
  old : List α
  new : List α

variable (width) in
/-- The ranges of `edits`, each behind the one before it, are replaced, and the text between them is kept.
Offsets count from `base`. -/
inductive Spliced : Nat → List α → List (RangeEdit α) → List α → Prop where
  | done (base : Nat) (text : List α) : Spliced base text [] text
  | edit {base : Nat} {kept rest out : List α} {first : RangeEdit α} {edits : List (RangeEdit α)}
      (starts : first.start = base + measure width kept)
      (stops : first.stop = first.start + measure width first.old)
      (further : Spliced first.stop rest edits out) :
      Spliced base (kept ++ first.old ++ rest) (first :: edits) (kept ++ first.new ++ out)

variable (width) in
/-- Each range holds what the edit says, and the next one starts behind it. -/
def Disjoined (text : List α) (edits : List (RangeEdit α)) : Prop :=
  (∀ edit ∈ edits, edit.start ≤ edit.stop ∧ slice width text edit.start edit.stop = some edit.old) ∧
    edits.Pairwise fun earlier later => earlier.stop ≤ later.start

include positive

theorem foldr_replaceRange_spliced {edits : List (RangeEdit α)} (front text : List α)
    (disjoined : Disjoined width (front ++ text) edits)
    (behind : ∀ edit ∈ edits, measure width front ≤ edit.start) :
    ∃ out, edits.foldr (fun edit text => replaceRange width text edit.start edit.stop edit.new) (front ++ text) =
      front ++ out ∧ Spliced width (measure width front) text edits out := by
  induction edits generalizing front text with
  | nil => exact ⟨text, rfl, .done _ text⟩
  | cons first edits inductionHypothesis =>
    obtain ⟨holds, ordered⟩ := disjoined
    obtain ⟨next, later⟩ := List.pairwise_cons.mp ordered
    obtain ⟨upward, sliced⟩ := holds first List.mem_cons_self
    obtain ⟨ahead, rest, cut, starts, length⟩ := (slice_eq_some_iff positive).mp sliced
    -- The range lies behind the front, so the front is kept
    obtain ⟨kept, rfl, rfl⟩ := front_of_le positive rfl (cut.trans (List.append_assoc _ _ _))
      (starts ▸ behind first List.mem_cons_self)
    have stops : measure width (front ++ kept ++ first.old) = first.stop := by
      rw [measure_append, starts, length]
      omega
    have joined : front ++ (kept ++ (first.old ++ rest)) = (front ++ kept ++ first.old) ++ rest := by simp
    obtain ⟨out, replaced, spliced⟩ := inductionHypothesis (front ++ kept ++ first.old) rest
      ⟨fun edit member => joined ▸ holds edit (List.mem_cons_of_mem _ member), later⟩
      (fun edit member => stops ▸ next edit member)
    refine ⟨kept ++ first.new ++ out, ?_, ?_⟩
    · rw [List.foldr_cons, joined, replaced, ← starts, ← stops]
      have range := replaceRange_eq positive (front ++ kept) first.old out first.new
      simpa using range
    · have opened : Spliced width (measure width front) (kept ++ first.old ++ rest) (first :: edits)
          (kept ++ first.new ++ out) :=
        .edit (by rw [← starts, measure_append]) (by rw [length]; omega) (stops ▸ spliced)
      simpa using opened

/-! ## Where the new parts stand -/

omit positive

variable (width) in
/-- The new part of a replacement stands at a place of the new text, between the symbols that are next to the
old part in the old text. -/
def Placed (text out : List α) (edit : RangeEdit α) (place : Nat) : Prop :=
  ∃ front back front' back', text = front ++ edit.old ++ back ∧ measure width front = edit.start ∧
    out = front' ++ edit.new ++ back' ∧ measure width front' = place ∧
    front'.getLast? = front.getLast? ∧ back'.head? = back.head?

/-- Some text is kept in front of the first range. -/
def StartsBehind (base : Nat) (edits : List (RangeEdit α)) : Prop := ∀ first ∈ edits.head?, base < first.start

theorem kept_ne_nil {base : Nat} {kept : List α} {first : RangeEdit α} {edits : List (RangeEdit α)}
    (starts : first.start = base + measure width kept) (behind : StartsBehind base (first :: edits)) : kept ≠ [] := by
  intro empty
  have later := behind first rfl
  rw [starts, empty, measure_nil] at later
  omega

theorem Spliced.head?_eq {base : Nat} {text out : List α} {edits : List (RangeEdit α)}
    (spliced : Spliced width base text edits out) (behind : StartsBehind base edits) : out.head? = text.head? := by
  cases spliced with
  | done => rfl
  | edit starts _ _ =>
    obtain ⟨symbol, kept, rfl⟩ := List.exists_cons_of_ne_nil (kept_ne_nil starts behind)
    rfl

theorem Spliced.places {base : Nat} {text out : List α} {edits : List (RangeEdit α)}
    (spliced : Spliced width base text edits out) (apart : edits.Pairwise fun earlier later => earlier.stop < later.start)
    (front front' : List α) (measured : measure width front = base)
    (next : front'.getLast? = front.getLast? ∨ StartsBehind base edits) :
    ∃ places : List (Nat × RangeEdit α), places.map Prod.snd = edits ∧
      (∀ place ∈ places, measure width front' ≤ place.1 ∧
        Placed width (front ++ text) (front' ++ out) place.2 place.1) ∧
      places.Pairwise fun earlier later => earlier.1 + measure width earlier.2.new ≤ later.1 := by
  induction spliced generalizing front front' with
  | done => exact ⟨[], rfl, by simp, .nil⟩
  | @edit base kept rest out first edits starts stops further inductionHypothesis =>
    obtain ⟨later, apart⟩ := List.pairwise_cons.mp apart
    have behind : StartsBehind first.stop edits := fun next member => later next (List.mem_of_mem_head? member)
    obtain ⟨places, same, placed, ordered⟩ := inductionHypothesis apart (front ++ kept ++ first.old)
      (front' ++ kept ++ first.new) (by simp [measured, stops, starts, Nat.add_assoc]) (.inr behind)
    refine ⟨(measure width (front' ++ kept), first) :: places, by simp [same], ?_, ?_⟩
    · intro place member
      cases List.mem_cons.mp member with
      | inl here =>
        subst here
        refine ⟨by simp, front ++ kept, rest, front' ++ kept, out, by simp, ?_, by simp, rfl, ?_,
          further.head?_eq behind⟩
        · rw [measure_append, measured, starts]
        · cases next with
          | inl sameLast => simp [List.getLast?_append, sameLast]
          | inr startsLater =>
            obtain ⟨symbol, kept, rfl⟩ := List.exists_cons_of_ne_nil (kept_ne_nil starts startsLater)
            simp [List.getLast?_append, List.getLast?_cons]
      | inr there =>
        obtain ⟨above, stands⟩ := placed place there
        simp only [measure_append] at above
        refine ⟨by omega, ?_⟩
        simpa using stands
    · refine .cons (fun place member => ?_) ordered
      have above := (placed place member).1
      simpa [measure_append, Nat.add_assoc] using above

end MjFormatter.Library
