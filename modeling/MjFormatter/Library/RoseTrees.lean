import Mathlib.Data.List.Nodup
import Mathlib.Order.Basic

/-! # Trees with labelled nodes

The walk over a tree that leaves out what stands below some nodes, and trees whose labels are spans: a node covers its children,
and each child ends before the next one begins. -/

namespace MjFormatter.Library

inductive RoseTree (α : Type*)
  | node (label : α) (children : List (RoseTree α))

namespace RoseTree

variable {α : Type*}

def label : RoseTree α → α
  | .node label _ => label

def children : RoseTree α → List (RoseTree α)
  | .node _ children => children

@[elab_as_elim]
theorem inductionOn {motive : RoseTree α → Prop} (tree : RoseTree α)
    (node : ∀ label children, (∀ child ∈ children, motive child) → motive (.node label children)) : motive tree := by
  refine RoseTree.rec (motive_1 := motive) (motive_2 := fun children => ∀ child ∈ children, motive child) ?_ ?_ ?_ tree
  · exact node
  · exact fun _ member => absurd member List.not_mem_nil
  · intro first others here later child member
    cases List.mem_cons.mp member with
    | inl same => exact same ▸ here
    | inr member => exact later child member

/-! ## Walks -/

mutual
/-- The nodes in the order in which a cursor visits them; below a node that stops it, there are none. -/
def visited (stops : α → Bool) : RoseTree α → List (RoseTree α)
  | .node label children => .node label children :: if stops label then [] else visitedAll stops children

def visitedAll (stops : α → Bool) : List (RoseTree α) → List (RoseTree α)
  | [] => []
  | tree :: trees => visited stops tree ++ visitedAll stops trees
end

def preorder (tree : RoseTree α) : List (RoseTree α) := visited (fun _ => false) tree

theorem visitedAll_eq_flatMap (stops : α → Bool) (trees : List (RoseTree α)) :
    visitedAll stops trees = trees.flatMap (visited stops) := by
  induction trees with
  | nil => rfl
  | cons tree trees inductionHypothesis => rw [visitedAll, List.flatMap_cons, inductionHypothesis]

theorem visited_node (stops : α → Bool) (label : α) (children : List (RoseTree α)) :
    visited stops (.node label children) =
      .node label children :: if stops label then [] else children.flatMap (visited stops) := by
  rw [visited, visitedAll_eq_flatMap]

theorem mem_visited_self (stops : α → Bool) (tree : RoseTree α) : tree ∈ visited stops tree := by
  cases tree with
  | node label children => exact visited_node stops label children ▸ List.mem_cons_self

theorem mem_preorder {tree node : RoseTree α} :
    node ∈ tree.preorder ↔ node = tree ∨ ∃ child ∈ tree.children, node ∈ child.preorder := by
  cases tree with
  | node label children =>
    rw [preorder, visited_node, if_neg Bool.false_ne_true, List.mem_cons, List.mem_flatMap]
    rfl

theorem mem_preorder_self (tree : RoseTree α) : tree ∈ tree.preorder := mem_preorder.mpr (.inl rfl)

theorem mem_preorder_child {tree child : RoseTree α} (isChild : child ∈ tree.children) : child ∈ tree.preorder :=
  mem_preorder.mpr (.inr ⟨child, isChild, mem_preorder_self child⟩)

theorem mem_preorder_of_visited {stops : α → Bool} {tree node : RoseTree α} (member : node ∈ visited stops tree) :
    node ∈ tree.preorder := by
  induction tree using inductionOn with
  | node label children inductionHypothesis =>
    rw [visited_node, List.mem_cons] at member
    rw [mem_preorder]
    cases member with
    | inl same => exact .inl same
    | inr below =>
      split at below
      · cases below
      · obtain ⟨child, isChild, member⟩ := List.mem_flatMap.mp below
        exact .inr ⟨child, isChild, inductionHypothesis child isChild member⟩

theorem mem_preorder_trans {tree inner node : RoseTree α} (outside : inner ∈ tree.preorder) (inside : node ∈ inner.preorder) :
    node ∈ tree.preorder := by
  induction tree using inductionOn with
  | node label children inductionHypothesis =>
    obtain rfl | ⟨child, isChild, member⟩ := mem_preorder.mp outside
    · exact inside
    · exact mem_preorder.mpr (.inr ⟨child, isChild, inductionHypothesis child isChild member⟩)

/-! ## Spans -/

/-- Two items of a list with a relation from each one to all later ones. -/
theorem pairwise_cases {γ : Type*} {relation : γ → γ → Prop} {items : List γ} (ordered : items.Pairwise relation) {first second : γ}
    (isFirst : first ∈ items) (isSecond : second ∈ items) : first = second ∨ relation first second ∨ relation second first := by
  induction items with
  | nil => cases isFirst
  | cons item items inductionHypothesis =>
    obtain ⟨later, ordered⟩ := List.pairwise_cons.mp ordered
    cases List.mem_cons.mp isFirst with
    | inl here =>
      cases List.mem_cons.mp isSecond with
      | inl same => exact .inl (here.trans same.symm)
      | inr behind => exact .inr (.inl (here ▸ later second behind))
    | inr there =>
      cases List.mem_cons.mp isSecond with
      | inl here => exact .inr (.inr (here ▸ later first there))
      | inr behind => exact inductionHypothesis ordered there behind

variable {β : Type*} [Preorder β] {start stop : α → β}

/-- A node covers its children, which are in order. -/
inductive Nested (start stop : α → β) : RoseTree α → Prop
  | node {label : α} {children : List (RoseTree α)} : start label ≤ stop label →
      children.Pairwise (fun earlier later => stop earlier.label ≤ start later.label) →
      (∀ child ∈ children, start label ≤ start child.label ∧ stop child.label ≤ stop label) →
      (∀ child ∈ children, Nested start stop child) → Nested start stop (.node label children)

theorem nested_of_preorder {tree : RoseTree α}
    (spans : ∀ node ∈ tree.preorder, start node.label ≤ stop node.label ∧
      node.children.Pairwise (fun earlier later => stop earlier.label ≤ start later.label) ∧
      ∀ child ∈ node.children, start node.label ≤ start child.label ∧ stop child.label ≤ stop node.label) :
    Nested start stop tree := by
  induction tree using inductionOn with
  | node label children inductionHypothesis =>
    obtain ⟨upward, ordered, covered⟩ := spans _ (mem_preorder_self _)
    refine .node upward ordered covered fun child isChild => inductionHypothesis child isChild ?_
    intro node member
    exact spans node (mem_preorder.mpr (.inr ⟨child, isChild, member⟩))

theorem Nested.ordered {tree : RoseTree α} (nested : Nested start stop tree) :
    tree.children.Pairwise fun earlier later => stop earlier.label ≤ start later.label := by
  cases nested with
  | node _ ordered _ _ => exact ordered

theorem Nested.mem {tree node : RoseTree α} (nested : Nested start stop tree) (member : node ∈ tree.preorder) :
    Nested start stop node := by
  induction nested with
  | node upward ordered covered inner inductionHypothesis =>
    obtain rfl | ⟨child, isChild, member⟩ := mem_preorder.mp member
    · exact .node upward ordered covered inner
    · exact inductionHypothesis child isChild member

theorem Nested.upward {tree : RoseTree α} (nested : Nested start stop tree) : start tree.label ≤ stop tree.label := by
  cases nested with
  | node upward _ _ _ => exact upward

theorem Nested.within {tree node : RoseTree α} (nested : Nested start stop tree) (member : node ∈ tree.preorder) :
    start tree.label ≤ start node.label ∧ stop node.label ≤ stop tree.label := by
  induction nested with
  | node _ _ covered _ inductionHypothesis =>
    obtain rfl | ⟨child, isChild, member⟩ := mem_preorder.mp member
    · exact ⟨le_rfl, le_rfl⟩
    · have inside := inductionHypothesis child isChild member
      have outside := covered child isChild
      exact ⟨outside.1.trans inside.1, inside.2.trans outside.2⟩

/-- Of two nodes, one is below the other, or one ends before the other begins. -/
theorem Nested.apart {tree first second : RoseTree α} (nested : Nested start stop tree) (isFirst : first ∈ tree.preorder)
    (isSecond : second ∈ tree.preorder) :
    first ∈ second.preorder ∨ second ∈ first.preorder ∨ stop first.label ≤ start second.label ∨
      stop second.label ≤ start first.label := by
  induction nested with
  | node _ ordered _ inner inductionHypothesis =>
    obtain rfl | ⟨left, isLeft, inLeft⟩ := mem_preorder.mp isFirst
    · exact .inr (.inl isSecond)
    · obtain rfl | ⟨right, isRight, inRight⟩ := mem_preorder.mp isSecond
      · exact .inl isFirst
      · have leftWithin := (inner left isLeft).within inLeft
        have rightWithin := (inner right isRight).within inRight
        obtain rfl | before | behind := pairwise_cases ordered isLeft isRight
        · exact inductionHypothesis left isLeft inLeft inRight
        · exact .inr (.inr (.inl ((leftWithin.2.trans before).trans rightWithin.1)))
        · exact .inr (.inr (.inr ((rightWithin.2.trans behind).trans leftWithin.1)))

end RoseTree

end MjFormatter.Library
