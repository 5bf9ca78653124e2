import Mathlib.Data.List.Sort

/-! # Connected components by depth-first search

A graph on `0 .. n - 1` is given by the list of its neighbour lists.  The search keeps one flag for each
node and a stack of marked nodes that are still to be explored. -/

namespace MjFormatter.Library

/-! ## The search -/

/-- The flags of the nodes and the stack, whose top is the head of the list. -/
structure Frontier where
  visited : List Bool
  stack : List Nat

def visitNeighbor (frontier : Frontier) (neighbor : Nat) : Frontier :=
  if frontier.visited[neighbor]? = some false then
    { visited := frontier.visited.set neighbor true, stack := neighbor :: frontier.stack }
  else frontier

/-- The nodes explored from the frontier, in the order in which they leave the stack, and the flags in
the end. -/
def explore (adjacency : List (List Nat)) : Nat → Frontier → List Nat → List Nat × List Bool
  | 0, frontier, component => (component, frontier.visited)
  | fuel + 1, frontier, component =>
    match frontier.stack with
    | [] => (component, frontier.visited)
    | node :: stack =>
      explore adjacency fuel
        ((adjacency.getD node []).foldl visitNeighbor { frontier with stack := stack }) (component ++ [node])

/-- One turn of the loop over the seeds; every node is pushed once, so that as many turns of the search
as there are nodes empty the stack. -/
def seedComponent (adjacency : List (List Nat)) (state : List Bool × List (List Nat)) (seed : Nat) :
    List Bool × List (List Nat) :=
  if state.1[seed]? = some false then
    let (component, visited) := explore adjacency adjacency.length ⟨state.1.set seed true, [seed]⟩ []
    (visited, state.2 ++ [component])
  else state

def components (adjacency : List (List Nat)) : List (List Nat) :=
  ((List.range adjacency.length).foldl (seedComponent adjacency)
    (List.replicate adjacency.length false, [])).2

/-! ## Graphs -/

def Adjacent (adjacency : List (List Nat)) (node neighbor : Nat) : Prop := neighbor ∈ adjacency.getD node []

/-- The neighbours are nodes, and the edges have no direction. -/
structure Undirected (adjacency : List (List Nat)) : Prop where
  bounded : ∀ {node neighbor}, Adjacent adjacency node neighbor → neighbor < adjacency.length
  symm : ∀ {node neighbor}, Adjacent adjacency node neighbor → Adjacent adjacency neighbor node

def Marked (visited : List Bool) (node : Nat) : Prop := visited[node]? = some true

/-- No edge leaves the marked nodes. -/
def ClosedMarks (adjacency : List (List Nat)) (visited : List Bool) : Prop :=
  ∀ node neighbor, Marked visited node → Adjacent adjacency node neighbor → Marked visited neighbor

theorem marked_set {visited : List Bool} {node : Nat} (valid : node < visited.length) (other : Nat) :
    Marked (visited.set node true) other ↔ other = node ∨ Marked visited other := by
  simp only [Marked, List.getElem?_set]
  split
  · next same => simp [← same, valid]
  · next different => simp [Ne.symm different]

theorem not_marked_iff {visited : List Bool} {node : Nat} (valid : node < visited.length) :
    ¬Marked visited node ↔ visited[node]? = some false := by
  simp [Marked, List.getElem?_eq_getElem valid]

/-! ## One component -/

variable {adjacency : List (List Nat)}

/-- The search from marks `base`: what is marked since then is explored or on the stack, once, and the
edges of the explored nodes have been followed. -/
structure Exploring (adjacency : List (List Nat)) (base : List Bool) (component : List Nat)
    (frontier : Frontier) : Prop where
  size : frontier.visited.length = adjacency.length
  nodup : (component ++ frontier.stack).Nodup
  marked_iff : ∀ node, Marked frontier.visited node ↔ Marked base node ∨ node ∈ component ++ frontier.stack
  fresh : ∀ node ∈ component ++ frontier.stack, ¬Marked base node

/-- What one look at a neighbour keeps: the nodes still to be marked and those on the stack. -/
def Frontier.measure (frontier : Frontier) : Nat := frontier.visited.count false + frontier.stack.length

theorem Exploring.valid {base : List Bool} {component : List Nat} {frontier : Frontier}
    (exploring : Exploring adjacency base component frontier) {node : Nat}
    (member : node ∈ component ++ frontier.stack) : node < adjacency.length := by
  have marked : Marked frontier.visited node := (exploring.marked_iff node).mpr (.inr member)
  have bounded := (List.getElem?_eq_some_iff.mp marked).1
  rwa [exploring.size] at bounded

theorem visitNeighbor_exploring {base : List Bool} {component : List Nat} {frontier : Frontier}
    (exploring : Exploring adjacency base component frontier) (neighbor : Nat) :
    Exploring adjacency base component (visitNeighbor frontier neighbor) := by
  rw [visitNeighbor]
  split
  · next unmarked =>
    have valid : neighbor < frontier.visited.length := (List.getElem?_eq_some_iff.mp unmarked).1
    have absent := (not_marked_iff valid).mpr unmarked
    rw [exploring.marked_iff, not_or] at absent
    have moved : (component ++ neighbor :: frontier.stack).Perm (neighbor :: (component ++ frontier.stack)) :=
      List.perm_middle
    refine ⟨by simp [exploring.size], ?_, fun node => ?_, fun node member => ?_⟩
    · exact moved.nodup_iff.mpr (List.nodup_cons.mpr ⟨absent.2, exploring.nodup⟩)
    · rw [marked_set valid, exploring.marked_iff, moved.mem_iff, List.mem_cons]
      exact or_left_comm
    · cases List.mem_cons.mp (moved.mem_iff.mp member) with
      | inl same => exact same ▸ absent.1
      | inr earlier => exact exploring.fresh node earlier
  · exact exploring

theorem visitNeighbor_measure (frontier : Frontier) (neighbor : Nat) :
    (visitNeighbor frontier neighbor).measure = frontier.measure := by
  rw [visitNeighbor]
  split
  · next unmarked =>
    obtain ⟨valid, isFalse⟩ := List.getElem?_eq_some_iff.mp unmarked
    have positive : 0 < frontier.visited.count false :=
      List.count_pos_iff.mpr (isFalse ▸ List.getElem_mem valid)
    simp only [Frontier.measure, List.count_set valid, isFalse, List.length_cons, beq_self_eq_true, if_true,
      Bool.true_beq, Bool.false_eq_true, if_false]
    omega
  · rfl

theorem visitNeighbor_marks {frontier : Frontier} {neighbor : Nat} (size : neighbor < frontier.visited.length)
    (node : Nat) : Marked (visitNeighbor frontier neighbor).visited node ↔
      node = neighbor ∨ Marked frontier.visited node := by
  rw [visitNeighbor]
  split
  · exact marked_set size node
  · next marked =>
    rw [← not_marked_iff size, not_not] at marked
    exact ⟨.inr, fun either => either.elim (fun same => same ▸ marked) id⟩

@[simp] theorem visitNeighbor_size (frontier : Frontier) (neighbor : Nat) :
    (visitNeighbor frontier neighbor).visited.length = frontier.visited.length := by
  rw [visitNeighbor]
  split
  · simp
  · rfl

@[simp] theorem visitNeighbors_size (neighbors : List Nat) (frontier : Frontier) :
    (neighbors.foldl visitNeighbor frontier).visited.length = frontier.visited.length := by
  induction neighbors generalizing frontier with
  | nil => rfl
  | cons neighbor rest inductionHypothesis =>
    rw [List.foldl_cons, inductionHypothesis, visitNeighbor_size]

/-- After the neighbours of a node have been looked at, all of them are marked. -/
theorem visitNeighbors_marks {neighbors : List Nat} (frontier : Frontier)
    (bounded : ∀ neighbor ∈ neighbors, neighbor < frontier.visited.length) (node : Nat) :
    Marked (neighbors.foldl visitNeighbor frontier).visited node ↔
      node ∈ neighbors ∨ Marked frontier.visited node := by
  induction neighbors generalizing frontier with
  | nil => simp
  | cons neighbor rest inductionHypothesis =>
    have sizeRest : ∀ other ∈ rest, other < (visitNeighbor frontier neighbor).visited.length :=
      fun other member => by simpa using bounded other (List.mem_cons_of_mem neighbor member)
    rw [List.foldl_cons, inductionHypothesis _ sizeRest, visitNeighbor_marks (bounded neighbor List.mem_cons_self),
      List.mem_cons]
    tauto

theorem visitNeighbors_exploring {base : List Bool} {component : List Nat} (neighbors : List Nat)
    {frontier : Frontier} (exploring : Exploring adjacency base component frontier) :
    Exploring adjacency base component (neighbors.foldl visitNeighbor frontier) ∧
      (neighbors.foldl visitNeighbor frontier).measure = frontier.measure := by
  induction neighbors generalizing frontier with
  | nil => exact ⟨exploring, rfl⟩
  | cons neighbor rest inductionHypothesis =>
    obtain ⟨kept, measured⟩ := inductionHypothesis (visitNeighbor_exploring exploring neighbor)
    exact ⟨kept, measured.trans (visitNeighbor_measure frontier neighbor)⟩

/-- What the loop over the stack has established when it ends. -/
structure Explored (adjacency : List (List Nat)) (base : List Bool) (start : Frontier)
    (found : List Nat × List Bool) : Prop where
  exploring : Exploring adjacency base found.1 ⟨found.2, []⟩
  followed : ∀ node neighbor, node ∈ found.1 → Adjacent adjacency node neighbor → Marked found.2 neighbor
  kept : ∀ node, Marked start.visited node → Marked found.2 node

theorem explore_explored (undirected : Undirected adjacency) {base : List Bool} (fuel : Nat)
    {frontier : Frontier} {component : List Nat} (exploring : Exploring adjacency base component frontier)
    (followed : ∀ node neighbor, node ∈ component → Adjacent adjacency node neighbor →
      Marked frontier.visited neighbor) (enough : frontier.measure ≤ fuel) :
    Explored adjacency base frontier (explore adjacency fuel frontier component) := by
  induction fuel generalizing frontier component with
  | zero =>
    have emptied : frontier.stack = [] := List.length_eq_zero_iff.mp (by rw [Frontier.measure] at enough; omega)
    have ended : frontier = ⟨frontier.visited, []⟩ := by rw [← emptied]
    exact ⟨ended ▸ exploring, followed, fun _ => id⟩
  | succ fuel inductionHypothesis =>
    rw [explore]
    split
    · next emptied =>
      have ended : frontier = ⟨frontier.visited, []⟩ := by rw [← emptied]
      exact ⟨ended ▸ exploring, followed, fun _ => id⟩
    · next node stack top =>
      have listed : component ++ frontier.stack = (component ++ [node]) ++ stack := by simp [top]
      have popped : Exploring adjacency base (component ++ [node]) { frontier with stack := stack } :=
        ⟨exploring.size, listed ▸ exploring.nodup, listed ▸ exploring.marked_iff, listed ▸ exploring.fresh⟩
      have bounded : ∀ neighbor ∈ adjacency.getD node [], neighbor < frontier.visited.length :=
        fun neighbor member => by simpa [exploring.size] using undirected.bounded member
      have marks := visitNeighbors_marks { frontier with stack := stack } bounded
      obtain ⟨visited, measured⟩ := visitNeighbors_exploring (adjacency.getD node []) popped
      have smaller : Frontier.measure { frontier with stack := stack } ≤ fuel := by
        simp only [Frontier.measure, top, List.length_cons] at enough ⊢
        omega
      have explored := inductionHypothesis visited (fun other neighbor member adjacent => ?_)
        (measured.trans_le smaller)
      · exact ⟨explored.exploring, explored.followed,
          fun other marked => explored.kept other ((marks other).mpr (.inr marked))⟩
      · rw [marks]
        cases List.mem_append.mp member with
        | inl earlier => exact .inr (followed other neighbor earlier adjacent)
        | inr last => exact .inl (List.mem_singleton.mp last ▸ adjacent)

/-! ## All components -/

/-- Different lists of nodes without a common node or an edge between them. -/
def Separate (adjacency : List (List Nat)) (left right : List Nat) : Prop :=
  ∀ node ∈ left, ∀ other ∈ right, node ≠ other ∧ ¬Adjacent adjacency node other

theorem Separate.symm (undirected : Undirected adjacency) {left right : List Nat}
    (separate : Separate adjacency left right) : Separate adjacency right left :=
  fun node inRight other inLeft => ⟨Ne.symm (separate other inLeft node inRight).1,
    fun adjacent => (separate other inLeft node inRight).2 (undirected.symm adjacent)⟩

/-- What holds after each seed: the marked nodes are those of the components found so far. -/
structure Decomposing (adjacency : List (List Nat)) (visited : List Bool) (found : List (List Nat)) : Prop where
  size : visited.length = adjacency.length
  marked_iff : ∀ node, Marked visited node ↔ ∃ component ∈ found, node ∈ component
  closed : ClosedMarks adjacency visited
  nodup : ∀ component ∈ found, component.Nodup
  separate : found.Pairwise (Separate adjacency)

theorem Decomposing.initial :
    Decomposing adjacency (List.replicate adjacency.length false) [] where
  size := List.length_replicate
  marked_iff node := by simp [Marked, List.getElem?_replicate]
  closed node neighbor marked := by simp [Marked, List.getElem?_replicate] at marked
  nodup := by simp
  separate := List.Pairwise.nil

/-- A turn of the loop keeps the invariant and the marks, and marks its seed. -/
theorem seedComponent_decomposing (undirected : Undirected adjacency) {state : List Bool × List (List Nat)}
    (decomposing : Decomposing adjacency state.1 state.2) {seed : Nat} (valid : seed < adjacency.length) :
    Decomposing adjacency (seedComponent adjacency state seed).1 (seedComponent adjacency state seed).2 ∧
      ∀ node, node = seed ∨ Marked state.1 node → Marked (seedComponent adjacency state seed).1 node := by
  have inRange : seed < state.1.length := decomposing.size ▸ valid
  rw [seedComponent]
  split
  · next unmarked =>
    have fresh := (not_marked_iff inRange).mpr unmarked
    have exploring : Exploring adjacency state.1 [] ⟨state.1.set seed true, [seed]⟩ :=
      ⟨by simp [decomposing.size], by simp, by simp [marked_set inRange, or_comm], by simpa using fresh⟩
    have enough : Frontier.measure ⟨state.1.set seed true, [seed]⟩ ≤ adjacency.length := by
      have visited := visitNeighbor_measure ⟨state.1, []⟩ seed
      simp only [visitNeighbor, unmarked, if_true] at visited
      rw [visited, ← decomposing.size]
      exact List.count_le_length
    obtain ⟨explored, followed, kept⟩ := explore_explored undirected adjacency.length exploring (by simp) enough
    refine ⟨⟨explored.size, fun node => ?_, fun node neighbor marked adjacent => ?_, fun component member => ?_, ?_⟩,
      fun node marked => kept node ((marked_set inRange node).mpr marked)⟩
    · rw [explored.marked_iff, decomposing.marked_iff]
      simp [or_and_right, exists_or]
    · -- An edge of an older component stays in it, the edges of the new one were followed
      cases (explored.marked_iff node).mp marked with
      | inl older => exact (explored.marked_iff neighbor).mpr (.inl (decomposing.closed node neighbor older adjacent))
      | inr newer => exact followed node neighbor (by simpa using newer) adjacent
    · cases List.mem_append.mp member with
      | inl older => exact decomposing.nodup component older
      | inr newer => exact List.mem_singleton.mp newer ▸ (by simpa using explored.nodup)
    · refine List.pairwise_append.mpr ⟨decomposing.separate, List.pairwise_singleton _ _, ?_⟩
      intro older member newer last node inOlder other inNewer
      obtain rfl := List.mem_singleton.mp last
      have marked := (decomposing.marked_iff node).mpr ⟨older, member, inOlder⟩
      have unmarkedOther := explored.fresh other (by simpa using inNewer)
      exact ⟨fun same => unmarkedOther (same ▸ marked),
        fun adjacent => unmarkedOther (decomposing.closed node other marked adjacent)⟩
  · next marked =>
    rw [← not_marked_iff inRange, not_not] at marked
    exact ⟨decomposing, fun node either => either.elim (fun same => same ▸ marked) id⟩

theorem seeds_decomposing (undirected : Undirected adjacency) {seeds : List Nat}
    (valid : ∀ seed ∈ seeds, seed < adjacency.length) (state : List Bool × List (List Nat))
    (decomposing : Decomposing adjacency state.1 state.2) :
    Decomposing adjacency (seeds.foldl (seedComponent adjacency) state).1
        (seeds.foldl (seedComponent adjacency) state).2 ∧
      ∀ node, node ∈ seeds ∨ Marked state.1 node →
        Marked (seeds.foldl (seedComponent adjacency) state).1 node := by
  induction seeds generalizing state with
  | nil => exact ⟨decomposing, fun node either => either.elim (by simp) id⟩
  | cons seed rest inductionHypothesis =>
    obtain ⟨next, marks⟩ := seedComponent_decomposing undirected decomposing (valid seed List.mem_cons_self)
    obtain ⟨last, later⟩ := inductionHypothesis (fun other member => valid other (List.mem_cons_of_mem _ member)) _ next
    refine ⟨last, fun node either => later node ?_⟩
    cases either with
    | inl member =>
      cases List.mem_cons.mp member with
      | inl same => exact .inr (marks node (.inl same))
      | inr further => exact .inl further
    | inr marked => exact .inr (marks node (.inr marked))

/-- The components split the nodes: every node is in one, once, and no edge joins two of them. -/
structure Decomposition (adjacency : List (List Nat)) (found : List (List Nat)) : Prop where
  nodup : ∀ component ∈ found, component.Nodup
  bounded : ∀ component ∈ found, ∀ node ∈ component, node < adjacency.length
  covers : ∀ node < adjacency.length, ∃ component ∈ found, node ∈ component
  separate : found.Pairwise (Separate adjacency)

theorem components_decomposition (undirected : Undirected adjacency) :
    Decomposition adjacency (components adjacency) := by
  obtain ⟨decomposing, marks⟩ := seeds_decomposing undirected
    (fun seed member => List.mem_range.mp member) (_, _) Decomposing.initial
  refine ⟨decomposing.nodup, fun component member node inside => ?_, fun node valid => ?_, decomposing.separate⟩
  · have marked := (decomposing.marked_iff node).mpr ⟨component, member, inside⟩
    have bounded := (List.getElem?_eq_some_iff.mp marked).1
    rwa [decomposing.size] at bounded
  · exact (decomposing.marked_iff node).mp (marks node (.inl (List.mem_range.mpr valid)))

/-- Sorting the components, and the nodes of each, changes nothing about it. -/
theorem Decomposition.perm {found sorted : List (List Nat)} (undirected : Undirected adjacency)
    (decomposition : Decomposition adjacency found) (sort : List Nat → List Nat)
    (sorts : ∀ component, (sort component).Perm component) (permuted : sorted.Perm (found.map sort)) :
    Decomposition adjacency sorted := by
  have origin : ∀ component ∈ sorted, ∃ before ∈ found, component.Perm before := by
    intro component member
    obtain ⟨before, inFound, rfl⟩ := List.mem_map.mp (permuted.mem_iff.mp member)
    exact ⟨before, inFound, sorts before⟩
  refine ⟨fun component member => ?_, fun component member node inside => ?_, fun node valid => ?_, ?_⟩
  · obtain ⟨before, inFound, same⟩ := origin component member
    exact same.nodup_iff.mpr (decomposition.nodup before inFound)
  · obtain ⟨before, inFound, same⟩ := origin component member
    exact decomposition.bounded before inFound node (same.mem_iff.mp inside)
  · obtain ⟨before, inFound, inside⟩ := decomposition.covers node valid
    exact ⟨sort before, permuted.mem_iff.mpr (List.mem_map_of_mem inFound), (sorts before).mem_iff.mpr inside⟩
  · refine (List.Perm.pairwise_iff (fun {left right} => Separate.symm undirected) permuted).mpr ?_
    refine List.pairwise_map.mpr (decomposition.separate.imp fun {left right} separate => ?_)
    intro node inLeft other inRight
    exact separate node ((sorts left).mem_iff.mp inLeft) other ((sorts right).mem_iff.mp inRight)

end MjFormatter.Library
