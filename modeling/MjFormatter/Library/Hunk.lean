import Mathlib.Data.List.Basic

/-! # The single hunk in which two sequences differ

Trimming the longest common prefix of two sequences, and then the longest common suffix of what is
left, leaves one hunk: a block removed from the first sequence and a block added in its place.  The
trimmed parts are carried with the equations that put the two sequences together again. -/

namespace MjFormatter.Library

variable {β : Type*}

/-- `before` and `after` agree outside one block, which is `removed` in the one and `added` in the
other. -/
structure Hunk (before after : List β) where
  pre : List β
  removed : List β
  added : List β
  post : List β
  before_eq : before = pre ++ removed ++ post
  after_eq : after = pre ++ added ++ post

/-! ## Positions relative to the hunk -/

namespace Hunk

variable {before after : List β} (hunk : Hunk before after)

theorem length_before : before.length = hunk.pre.length + hunk.removed.length + hunk.post.length := by
  obtain ⟨pre, removed, added, post, rfl, rfl⟩ := hunk
  simp only [List.length_append]

theorem length_after : after.length = hunk.pre.length + hunk.added.length + hunk.post.length := by
  obtain ⟨pre, removed, added, post, rfl, rfl⟩ := hunk
  simp only [List.length_append]

theorem mem_before {symbol : β} (member : symbol ∈ hunk.removed) : symbol ∈ before := by
  obtain ⟨pre, removed, added, post, rfl, rfl⟩ := hunk
  exact List.mem_append_left post (List.mem_append_right pre member)

theorem mem_after {symbol : β} (member : symbol ∈ hunk.added) : symbol ∈ after := by
  obtain ⟨pre, removed, added, post, rfl, rfl⟩ := hunk
  exact List.mem_append_left post (List.mem_append_right pre member)

/-- Positions before the hunk are the same in both sequences. -/
theorem getElem?_pre {index : Nat} (above : index < hunk.pre.length) : after[index]? = before[index]? := by
  obtain ⟨pre, removed, added, post, rfl, rfl⟩ := hunk
  simp only at above
  rw [List.append_assoc, List.append_assoc, List.getElem?_append_left above, List.getElem?_append_left above]

theorem getElem?_removed {index : Nat} (inside : index < hunk.removed.length) :
    before[hunk.pre.length + index]? = hunk.removed[index]? := by
  obtain ⟨pre, removed, added, post, rfl, rfl⟩ := hunk
  simp only at inside ⊢
  rw [List.append_assoc, List.getElem?_append_right (Nat.le_add_right ..), Nat.add_sub_cancel_left,
    List.getElem?_append_left inside]

theorem getElem?_added {index : Nat} (inside : index < hunk.added.length) :
    after[hunk.pre.length + index]? = hunk.added[index]? := by
  obtain ⟨pre, removed, added, post, rfl, rfl⟩ := hunk
  simp only at inside ⊢
  rw [List.append_assoc, List.getElem?_append_right (Nat.le_add_right ..), Nat.add_sub_cancel_left,
    List.getElem?_append_left inside]

/-- Positions behind the hunk are moved by what the hunk adds. -/
theorem getElem?_post (index : Nat) :
    after[hunk.pre.length + hunk.added.length + index]? =
      before[hunk.pre.length + hunk.removed.length + index]? := by
  obtain ⟨pre, removed, added, post, rfl, rfl⟩ := hunk
  simp only
  rw [← List.length_append, ← List.length_append, List.getElem?_append_right (Nat.le_add_right ..),
    List.getElem?_append_right (Nat.le_add_right ..), Nat.add_sub_cancel_left, Nat.add_sub_cancel_left]

/-- Both sequences start with what is before the hunk. -/
theorem take_pre : before.take hunk.pre.length = after.take hunk.pre.length := by
  obtain ⟨pre, removed, added, post, rfl, rfl⟩ := hunk
  simp only [List.append_assoc, List.take_left]

/-- Both sequences end with what is behind the hunk. -/
theorem drop_post :
    before.drop (hunk.pre.length + hunk.removed.length) = after.drop (hunk.pre.length + hunk.added.length) := by
  obtain ⟨pre, removed, added, post, rfl, rfl⟩ := hunk
  simp only [← List.length_append, List.drop_left]

end Hunk

/-! ## Trimming -/

variable [DecidableEq β]

/-- How many leading elements two sequences have in common. -/
def commonPrefixLength : List β → List β → Nat
  | left :: lefts, right :: rights =>
    if left = right then commonPrefixLength lefts rights + 1 else 0
  | _, _ => 0

theorem take_commonPrefixLength (left right : List β) :
    left.take (commonPrefixLength left right) = right.take (commonPrefixLength left right) := by
  induction left generalizing right with
  | nil => simp [commonPrefixLength]
  | cons head left inductionHypothesis =>
    cases right with
    | nil => simp [commonPrefixLength]
    | cons other right =>
      simp only [commonPrefixLength]
      split
      · next same => simp [same, inductionHypothesis right]
      · simp

/-- How many trailing elements two sequences have in common. -/
def commonSuffixLength (left right : List β) : Nat :=
  commonPrefixLength left.reverse right.reverse

theorem drop_commonSuffixLength (left right : List β) :
    left.drop (left.length - commonSuffixLength left right) =
      right.drop (right.length - commonSuffixLength left right) := by
  -- A suffix is a prefix of the reversed sequence.
  have same := take_commonPrefixLength left.reverse right.reverse
  rw [List.take_reverse, List.take_reverse] at same
  exact List.reverse_injective same

theorem trim_before (before after : List β) :
    before = before.take (commonPrefixLength before after) ++
      (before.drop (commonPrefixLength before after)).take
        ((before.drop (commonPrefixLength before after)).length -
          commonSuffixLength (before.drop (commonPrefixLength before after))
            (after.drop (commonPrefixLength before after))) ++
      (before.drop (commonPrefixLength before after)).drop
        ((before.drop (commonPrefixLength before after)).length -
          commonSuffixLength (before.drop (commonPrefixLength before after))
            (after.drop (commonPrefixLength before after))) := by
  rw [List.append_assoc, List.take_append_drop, List.take_append_drop]

theorem trim_after (before after : List β) :
    after = before.take (commonPrefixLength before after) ++
      (after.drop (commonPrefixLength before after)).take
        ((after.drop (commonPrefixLength before after)).length -
          commonSuffixLength (before.drop (commonPrefixLength before after))
            (after.drop (commonPrefixLength before after))) ++
      (before.drop (commonPrefixLength before after)).drop
        ((before.drop (commonPrefixLength before after)).length -
          commonSuffixLength (before.drop (commonPrefixLength before after))
            (after.drop (commonPrefixLength before after))) := by
  rw [drop_commonSuffixLength, List.append_assoc, List.take_append_drop, take_commonPrefixLength,
    List.take_append_drop]

/-- Trim the longest common prefix, then the longest common suffix of the remainders. -/
def Hunk.trim (before after : List β) : Hunk before after :=
  let shared := commonPrefixLength before after
  let left := before.drop shared
  let right := after.drop shared
  let tail := commonSuffixLength left right
  { pre := before.take shared
    removed := left.take (left.length - tail)
    added := right.take (right.length - tail)
    post := left.drop (left.length - tail)
    before_eq := trim_before before after
    after_eq := trim_after before after }

end MjFormatter.Library
