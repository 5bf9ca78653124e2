import Mathlib.Data.List.Nodup

/-! # Searches by layers

A search visits nodes layer by layer.  In each turn it goes from the last layer along steps to nodes that it has not visited, to
some of them or to all. -/

namespace MjFormatter.Library

variable {α : Type*}

inductive Walk (step : α → α → Prop) : Nat → α → α → Prop where
  | stay (node : α) : Walk step 0 node node
  | go {length : Nat} {start node next : α} : Walk step length start node → step node next → Walk step (length + 1) start next

structure Layers (α : Type*) where
  visited : List α
  frontier : List α
  level : α → Option Nat

/-- What every search by layers keeps, whatever it leaves out. -/
structure Searched (step : α → α → Prop) (start : List α) (depth : Nat) (layers : Layers α) : Prop where
  nodup : layers.visited.Nodup
  known : ∀ node ∈ layers.visited, ∃ level ≤ depth, layers.level node = some level ∧ ∃ first ∈ start, Walk step level first node
  frontier : ∀ node ∈ layers.frontier, node ∈ layers.visited ∧ layers.level node = some depth
  started : ∀ node ∈ start, node ∈ layers.visited

/-- A turn, after which the new layer is the frontier. -/
structure NextLayer (step : α → α → Prop) (depth : Nat) (before after : Layers α) : Prop where
  nodup : before.visited.Nodup → after.visited.Nodup
  mem_visited : ∀ node, node ∈ after.visited ↔ node ∈ before.visited ∨ node ∈ after.frontier
  fresh : ∀ node ∈ after.frontier, node ∉ before.visited ∧ ∃ inner ∈ before.frontier, step inner node
  level_kept : ∀ node ∈ before.visited, after.level node = before.level node
  level_new : ∀ node ∈ after.frontier, after.level node = some (depth + 1)

/-- Every walk within a bound is found, at its least length. -/
structure Exhausted (step : α → α → Prop) (start : List α) (bound : Nat) (layers : Layers α) : Prop where
  within : ∀ length ≤ bound, ∀ first ∈ start, ∀ node, Walk step length first node → node ∈ layers.visited
  least : ∀ node ∈ layers.visited, ∀ level, layers.level node = some level →
    ∀ length, ∀ first ∈ start, Walk step length first node → level ≤ length

/-- What a search keeps that leaves nothing out. -/
structure Complete (step : α → α → Prop) (start : List α) (depth : Nat) (layers : Layers α) : Prop
    extends Exhausted step start depth layers where
  closed : ∀ node ∈ layers.visited, layers.level node ≠ some depth → ∀ next, step node next → next ∈ layers.visited
  frontier : ∀ node ∈ layers.visited, layers.level node = some depth → node ∈ layers.frontier

section
variable {step : α → α → Prop} {start : List α} {depth : Nat} {before after : Layers α}

theorem Searched.next (searched : Searched step start depth before) (next : NextLayer step depth before after) :
    Searched step start (depth + 1) after where
  nodup := next.nodup searched.nodup
  known node member := by
    cases (next.mem_visited node).mp member with
    | inl old =>
      obtain ⟨level, below, known, walk⟩ := searched.known node old
      exact ⟨level, Nat.le_succ_of_le below, (next.level_kept node old).trans known, walk⟩
    | inr new =>
      obtain ⟨_, inner, inFrontier, stepped⟩ := next.fresh node new
      obtain ⟨wasVisited, innerLevel⟩ := searched.frontier inner inFrontier
      obtain ⟨level, _, known, first, isStart, walk⟩ := searched.known inner wasVisited
      obtain rfl : depth = level := Option.some.inj (innerLevel.symm.trans known)
      exact ⟨depth + 1, Nat.le_refl _, next.level_new node new, first, isStart, walk.go stepped⟩
  frontier node member := ⟨(next.mem_visited node).mpr (.inr member), next.level_new node member⟩
  started node member := (next.mem_visited node).mpr (.inl (searched.started node member))

/-- When the frontier has no step to a new node, every walk stays in what was visited. -/
theorem Complete.stuck (complete : Complete step start depth before) (searched : Searched step start depth before)
    (none : ∀ node ∈ before.frontier, ∀ next, step node next → next ∈ before.visited) (bound : Nat) :
    Exhausted step start bound before := by
  have inside : ∀ length first node, first ∈ start → Walk step length first node → node ∈ before.visited := by
    intro length first node isStart walk
    induction walk with
    | stay node => exact searched.started node isStart
    | @go _ _ inner next _ stepped ih =>
      by_cases last : before.level inner = some depth
      · exact none inner (complete.frontier inner (ih isStart) last) next stepped
      · exact complete.closed inner (ih isStart) last next stepped
  exact ⟨fun length _ first isStart node walk => inside length first node isStart walk, complete.least⟩

theorem Complete.next (complete : Complete step start depth before) (searched : Searched step start depth before)
    (next : NextLayer step depth before after)
    (all : ∀ node ∈ before.frontier, ∀ other, step node other → other ∈ before.visited ∨ other ∈ after.frontier) :
    Complete step start (depth + 1) after := by
  have onward : ∀ node ∈ before.visited, ∀ other, step node other → other ∈ after.visited := by
    intro node member other stepped
    refine (next.mem_visited other).mpr ?_
    by_cases last : before.level node = some depth
    · exact all node (complete.frontier node member last) other stepped
    · exact .inl (complete.closed node member last other stepped)
  refine ⟨⟨?_, ?_⟩, ?_, ?_⟩
  · intro length below first isStart node walk
    cases walk with
    | stay => exact (next.mem_visited first).mpr (.inl (searched.started first isStart))
    | @go length _ inner _ walk stepped =>
      exact onward inner (complete.within length (by omega) first isStart inner walk) node stepped
  · intro node member level known length first isStart walk
    cases (next.mem_visited node).mp member with
    | inl old =>
      rw [next.level_kept node old] at known
      exact complete.least node old level known length first isStart walk
    | inr new =>
      rw [next.level_new node new] at known
      obtain rfl := Option.some.inj known
      by_contra shorter
      exact (next.fresh node new).1 (complete.within length (by omega) first isStart node walk)
  · intro node member notLast other stepped
    cases (next.mem_visited node).mp member with
    | inl old => exact onward node old other stepped
    | inr new => exact absurd (next.level_new node new) notLast
  · intro node member last
    cases (next.mem_visited node).mp member with
    | inl old =>
      obtain ⟨level, below, known, _⟩ := searched.known node old
      rw [next.level_kept node old, known] at last
      have same := Option.some.inj last
      omega
    | inr new => exact new

/-- At the start only the first layer is visited. -/
theorem searched_start {layers : Layers α} (visited : layers.visited = start) (frontier : layers.frontier = start)
    (nodup : start.Nodup) (level : ∀ node ∈ start, layers.level node = some 0) : Searched step start 0 layers := by
  subst visited
  refine ⟨nodup, ?_, ?_, ?_⟩
  · intro node member
    exact ⟨0, Nat.le_refl 0, level node member, node, member, .stay node⟩
  · intro node member
    rw [frontier] at member
    exact ⟨member, level node member⟩
  · intro node member
    exact member

theorem complete_start {layers : Layers α} (visited : layers.visited = start) (frontier : layers.frontier = start)
    (level : ∀ node ∈ start, layers.level node = some 0) : Complete step start 0 layers := by
  subst visited
  refine ⟨⟨?_, ?_⟩, ?_, ?_⟩
  · intro length none first isStart node walk
    obtain rfl := Nat.le_zero.mp none
    cases walk with
    | stay => exact isStart
  · intro node member known isKnown length _ _ _
    rw [level node member] at isKnown
    obtain rfl := Option.some.inj isKnown
    exact Nat.zero_le length
  · intro node member notLast
    exact absurd (level node member) notLast
  · intro node member _
    exact frontier ▸ member

end

end MjFormatter.Library
