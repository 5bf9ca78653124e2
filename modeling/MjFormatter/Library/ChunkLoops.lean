import MjFormatter.Library.Bytes

/-! # Loops over chunks

A loop goes over a list in chunks of one width and may leave the function in any turn.  What it leaves with depends on the chunk and
on where the chunk stands; when the answers fit together at every cut, the loop answers for the whole stretch. -/

namespace MjFormatter.Library

variable {α β : Type*}

/-- The loop while the offset is below `stop`.  It ends with what a turn has returned or with the last offset; a turn without a
result leaves the loop without one. -/
def chunkLoop (width : Nat) [NeZero width] (stop : Nat) (turn : Nat → Option (Option β)) (offset : Nat) :
    Option (Except β Nat) :=
  if offset < stop then
    match turn offset with
    | none => none
    | some (some result) => some (.error result)
    | some none => chunkLoop width stop turn (offset + width)
  else some (.ok offset)
termination_by stop - offset
decreasing_by
  have positive := NeZero.pos width
  omega

/-- An answer about the stretch of a list that starts at an offset, which is the answer about its first part when that has one. -/
structure ExitScan (exit : Nat → List α → Option β) : Prop where
  nil : ∀ offset, exit offset [] = none
  append : ∀ offset front back, exit offset (front ++ back) = (exit offset front).or (exit (offset + front.length) back)

def exitAt (last : Nat) : Option β → Except β Nat
  | some result => .error result
  | none => .ok last

theorem slice_add (items : List α) (offset first second : Nat) :
    Bytes.slice items offset (first + second) = Bytes.slice items offset first ++ Bytes.slice items (offset + first) second := by
  rw [Bytes.slice, List.take_add, Bytes.slice, List.drop_drop, Bytes.slice]

theorem chunkLoop_eq {exit : Nat → List α → Option β} (scan : ExitScan exit) {width : Nat} [NeZero width] {items : List α}
    {turn : Nat → Option (Option β)}
    (turns : ∀ offset, offset + width ≤ items.length → turn offset = some (exit offset (Bytes.slice items offset width)))
    {stop : Nat} (count offset : Nat) (reached : stop ≤ offset + count * width) (tight : offset + count * width < stop + width)
    (inside : offset + count * width ≤ items.length) :
    chunkLoop width stop turn offset =
      some (exitAt (offset + count * width) (exit offset (Bytes.slice items offset (count * width)))) := by
  induction count generalizing offset with
  | zero =>
    rw [Nat.zero_mul, Nat.add_zero] at reached
    rw [chunkLoop, if_neg (by omega), Nat.zero_mul, Nat.add_zero, Bytes.slice, List.take_zero, scan.nil]
    rfl
  | succ count ih =>
    have split : (count + 1) * width = width + count * width := by rw [Nat.add_mul, Nat.one_mul, Nat.add_comm]
    rw [split] at reached tight inside ⊢
    have first : offset + width ≤ items.length := by omega
    rw [chunkLoop, if_pos (by omega), turns offset first, slice_add, scan.append, Bytes.length_slice first]
    cases exit offset (Bytes.slice items offset width) with
    | some result => rfl
    | none =>
      rw [← Nat.add_assoc] at reached tight inside ⊢
      exact ih (offset + width) reached tight inside

/-! ## Answers -/

/-- The answer is no when an item fails. -/
def exitUnless (holds : α → Bool) (_ : Nat) (items : List α) : Option Bool := if items.all holds then none else some false

/-- The answer is the place of the first item that fails. -/
def exitAtFailure (holds : α → Bool) (offset : Nat) (items : List α) : Option Nat :=
  if items.all holds then none else some (offset + items.findIdx (!holds ·))

theorem exitScan_exitUnless (holds : α → Bool) : ExitScan (exitUnless holds) := by
  constructor
  · intro offset
    rfl
  · intro offset front back
    rw [exitUnless, exitUnless, exitUnless, List.all_append]
    cases front.all holds <;> rfl

theorem findIdx_not_lt_iff (holds : α → Bool) (items : List α) :
    items.findIdx (!holds ·) < items.length ↔ items.all holds = false := by
  rw [List.findIdx_lt_length, List.all_eq_false]
  simp only [Bool.not_eq_true', Bool.not_eq_true]

theorem exitScan_exitAtFailure (holds : α → Bool) : ExitScan (exitAtFailure holds) := by
  constructor
  · intro offset
    rfl
  · intro offset front back
    rw [exitAtFailure, exitAtFailure, exitAtFailure, List.all_append, List.findIdx_append]
    have first := findIdx_not_lt_iff holds front
    cases known : front.all holds with
    | true =>
      rw [known] at first
      rw [if_neg (fun below => Bool.noConfusion (first.mp below)), Nat.add_assoc, Nat.add_comm (back.findIdx _)]
      rfl
    | false =>
      rw [if_pos (first.mpr known)]
      rfl

end MjFormatter.Library
