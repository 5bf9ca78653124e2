import Mathlib.Algebra.Order.Ring.Rat
import MjFormatter.Graph.Snapshot
import MjFormatter.Library.LayeredSearch
import MjFormatter.Library.OrderedMaps

/-! # The files around changed files

The search is one by layers that leaves some nodes out at its caps.  What it finds is reached in the number of hops it is listed
with; where no cap is reached this is the distance, and nothing within the bound is missed. -/

namespace MjFormatter.Verified

open Library MjFormatter.Graph ProjectGraphSnapshot Std

section
variable {R : Type} (state : ProjectGraphState R)

/-! ## Links -/

/-- A file node has a contains or reference edge to a symbol. -/
def Linked (file symbol : SymbolId) : Prop :=
  ∃ edge ∈ state.edges, (edge.kind = .contains ∨ edge.kind = .reference) ∧ isFileNode state file = true ∧
    edge.fromId = file ∧ edge.toId = symbol

instance (file symbol : SymbolId) : Decidable (Linked state file symbol) :=
  inferInstanceAs (Decidable (∃ edge ∈ state.edges, _))

/-- A step goes to another file that is linked to a common symbol. -/
def Neighbors (file other : SymbolId) : Prop := file ≠ other ∧ ∃ symbol, Linked state file symbol ∧ Linked state other symbol

theorem exists_mem_sortAndDedup (links : List (SymbolId × Nat)) (id : SymbolId) :
    (∃ weight, (id, weight) ∈ sortAndDedupWeightedLinks links) ↔ id ∈ links.map Prod.fst := by
  have keys : id ∈ _ ↔ _ := OrderedMaps.mem_foldl_insert (∅ : StringMap Nat) (fun link : SymbolId × Nat => link.1)
    (fun merged link => max (merged[link.1]?.getD 0) (max link.2 1)) links
  rw [or_iff_right ExtTreeMap.not_mem_empty] at keys
  rw [← keys, OrderedMaps.mem_iff_exists]
  refine exists_congr fun weight => ?_
  rw [sortAndDedupWeightedLinks, (List.perm_insertionSort _ _).mem_iff, ExtTreeMap.mem_toList_iff_getElem?_eq_some]

theorem exists_mem_fileToSymbols (file symbol : SymbolId) :
    (∃ weight, (symbol, weight) ∈ fileToSymbols state file) ↔ Linked state file symbol := by
  rw [fileToSymbols, exists_mem_sortAndDedup, List.map_map, List.mem_map]
  simp only [List.mem_filter, isFileLink, Bool.and_eq_true, Bool.or_eq_true, decide_eq_true_eq, Function.comp_apply]
  constructor
  · intro found
    obtain ⟨edge, ⟨member, ⟨kind, isFile⟩, rfl⟩, rfl⟩ := found
    exact ⟨edge, member, kind, isFile, rfl, rfl⟩
  · intro linked
    obtain ⟨edge, member, kind, isFile, rfl, rfl⟩ := linked
    exact ⟨edge, ⟨member, ⟨kind, isFile⟩, rfl⟩, rfl⟩

theorem exists_mem_symbolToFiles (file symbol : SymbolId) :
    (∃ weight, (file, weight) ∈ symbolToFiles state symbol) ↔ Linked state file symbol := by
  rw [symbolToFiles, exists_mem_sortAndDedup, List.map_map, List.mem_map]
  simp only [List.mem_filter, isFileLink, Bool.and_eq_true, Bool.or_eq_true, decide_eq_true_eq, Function.comp_apply]
  constructor
  · intro found
    obtain ⟨edge, ⟨member, ⟨kind, isFile⟩, rfl⟩, rfl⟩ := found
    exact ⟨edge, member, kind, isFile, rfl, rfl⟩
  · intro linked
    obtain ⟨edge, member, kind, isFile, rfl, rfl⟩ := linked
    exact ⟨edge, ⟨member, ⟨kind, isFile⟩, rfl⟩, rfl⟩

/-! ## Candidates -/

variable {S : Type}

/-- New candidates are all accepted. -/
theorem foldl_acceptCandidate (hop : Nat) (candidates : List (SymbolId × S)) (search : Search S)
    (fresh : ∀ id ∈ candidates.map Prod.fst, id ∉ search.visited) (nodup : (candidates.map Prod.fst).Nodup) :
    (candidates.foldl (acceptCandidate hop) search).visited = search.visited ++ candidates.map Prod.fst ∧
      (candidates.foldl (acceptCandidate hop) search).frontier = search.frontier ++ candidates.map Prod.fst ∧
      ∀ id, (candidates.foldl (acceptCandidate hop) search).fileHops[id]? =
        if id ∈ candidates.map Prod.fst then some hop else search.fileHops[id]? := by
  induction candidates generalizing search with
  | nil => simp
  | cons candidate rest ih =>
    obtain ⟨notInRest, restNodup⟩ := List.nodup_cons.mp nodup
    have accepted : acceptCandidate hop search candidate =
        { visited := search.visited ++ [candidate.1]
          frontier := search.frontier ++ [candidate.1]
          fileScores := search.fileScores.insert candidate.1 candidate.2
          fileHops := search.fileHops.insert candidate.1 hop } :=
      if_neg (fresh candidate.1 (List.mem_cons_self ..))
    rw [List.foldl_cons, accepted]
    have restFresh : ∀ id ∈ rest.map Prod.fst, id ∉ search.visited ++ [candidate.1] := by
      intro id member visited
      cases List.mem_append.mp visited with
      | inl old => exact fresh id (List.mem_cons_of_mem _ member) old
      | inr new => exact notInRest (List.mem_singleton.mp new ▸ member)
    obtain ⟨visited, frontier, hops⟩ := ih
      { visited := search.visited ++ [candidate.1]
        frontier := search.frontier ++ [candidate.1]
        fileScores := search.fileScores.insert candidate.1 candidate.2
        fileHops := search.fileHops.insert candidate.1 hop } restFresh restNodup
    refine ⟨?_, ?_, ?_⟩
    · rw [visited, List.append_assoc, List.singleton_append, List.map_cons]
    · rw [frontier, List.append_assoc, List.singleton_append, List.map_cons]
    · intro id
      rw [hops id, OrderedMaps.getElem?_insert, List.map_cons]
      by_cases same : candidate.1 = id
      · subst same
        simp [notInRest]
      · rw [if_neg same]
        exact if_congr ((or_iff_right (Ne.symm same)).symm.trans List.mem_cons.symm) rfl rfl

variable [NeighborScore R S] (maxFiles : Nat)

/-- Neither the symbols of the file nor the new files of one of them reach their cap. -/
def FileUncapped (search : Search S) (file : SymbolId) : Prop :=
  (fileToSymbols state file).length ≤ perFileSymbolCap maxFiles ∧
    ∀ link ∈ fileToSymbols state file,
      ((symbolToFiles state link.1).filter fun candidate => candidate.1 ∉ search.visited).length ≤ perSymbolFileCap maxFiles

instance (search : Search S) (file : SymbolId) : Decidable (FileUncapped state maxFiles search file) :=
  inferInstanceAs (Decidable (_ ∧ _))

variable {state maxFiles}

theorem linked_of_mem_fileProposals {search : Search S} {file : SymbolId} {proposal : SymbolId × S}
    (proposed : proposal ∈ fileProposals state maxFiles search file) :
    proposal.1 ∉ search.visited ∧ ∃ symbol, Linked state file symbol ∧ Linked state proposal.1 symbol := by
  obtain ⟨link, listed, bySymbol⟩ := List.mem_flatMap.mp proposed
  obtain ⟨candidate, taken, rfl⟩ := List.mem_map.mp bySymbol
  obtain ⟨member, unvisited⟩ := List.mem_filter.mp (List.mem_of_mem_take taken)
  refine ⟨of_decide_eq_true unvisited, link.1, ?_, ?_⟩
  · exact (exists_mem_fileToSymbols state file link.1).mp ⟨link.2, List.mem_of_mem_take listed⟩
  · exact (exists_mem_symbolToFiles state candidate.1 link.1).mp ⟨candidate.2, member⟩

theorem exists_mem_fileProposals {search : Search S} {file other symbol : SymbolId}
    (uncapped : FileUncapped state maxFiles search file) (linked : Linked state file symbol)
    (otherLinked : Linked state other symbol) (unvisited : other ∉ search.visited) :
    ∃ score, (other, score) ∈ fileProposals state maxFiles search file := by
  obtain ⟨weight, listed⟩ := (exists_mem_fileToSymbols state file symbol).mpr linked
  obtain ⟨otherWeight, candidate⟩ := (exists_mem_symbolToFiles state other symbol).mpr otherLinked
  have kept : (other, otherWeight) ∈ (symbolToFiles state symbol).filter fun candidate => candidate.1 ∉ search.visited :=
    List.mem_filter.mpr ⟨candidate, decide_eq_true unvisited⟩
  refine ⟨_, List.mem_flatMap.mpr ⟨(symbol, weight), ?_, List.mem_map.mpr ⟨(other, otherWeight), ?_, rfl⟩⟩⟩
  · rwa [List.take_of_length_le uncapped.1]
  · rwa [List.take_of_length_le (uncapped.2 _ listed)]

/-! ## The start -/

def layersOf (search : Search S) : Layers SymbolId :=
  { visited := search.visited, frontier := search.frontier, level := fun id => search.fileHops[id]? }

theorem level_startSearch (ids : List SymbolId) : ∀ id ∈ ids, (layersOf (startSearch S ids)).level id = some 0 :=
  fun _ member => OrderedMaps.getElem?_foldl_insert _ ids (.inl member)

theorem searched_startSearch (state : ProjectGraphState R) (changedFiles : List String) :
    Searched (Neighbors state) (changedFileIds state changedFiles) 0
      (layersOf (startSearch S (changedFileIds state changedFiles))) :=
  searched_start rfl rfl (List.nodup_dedup _) (level_startSearch _)

theorem complete_startSearch (state : ProjectGraphState R) (changedFiles : List String) :
    Complete (Neighbors state) (changedFileIds state changedFiles) 0
      (layersOf (startSearch S (changedFileIds state changedFiles))) :=
  complete_start rfl rfl (level_startSearch _)

/-! ## One hop -/

variable [LinearOrder S]

theorem mem_nextScores_iff {search : Search S} {id : SymbolId} : id ∈ nextScores state maxFiles search ↔
    ∃ file ∈ search.frontier, ∃ score, (id, score) ∈ fileProposals state maxFiles search file := by
  have keys : id ∈ nextScores state maxFiles search ↔ _ :=
    OrderedMaps.mem_foldl_insert (∅ : StringMap S) (fun proposal : SymbolId × S => proposal.1) _
      (search.frontier.flatMap (fileProposals state maxFiles search))
  rw [or_iff_right ExtTreeMap.not_mem_empty] at keys
  refine Iff.trans keys ?_
  rw [List.mem_map]
  constructor
  · intro found
    obtain ⟨proposal, proposed, rfl⟩ := found
    obtain ⟨file, inFrontier, byFile⟩ := List.mem_flatMap.mp proposed
    exact ⟨file, inFrontier, proposal.2, byFile⟩
  · intro found
    obtain ⟨file, inFrontier, score, byFile⟩ := found
    exact ⟨(id, score), List.mem_flatMap.mpr ⟨file, inFrontier, byFile⟩, rfl⟩

variable (state maxFiles)

/-- The files that a hop adds. -/
def hopFiles (search : Search S) : List SymbolId :=
  ((rankCandidates (nextScores state maxFiles search)).take (frontierCap maxFiles)).map Prod.fst

variable {state maxFiles}

theorem mem_rankCandidates {scores : StringMap S} {id : SymbolId} :
    id ∈ (rankCandidates scores).map Prod.fst ↔ id ∈ scores := by
  rw [rankCandidates, ((List.perm_insertionSort _ _).map Prod.fst).mem_iff, ExtTreeMap.map_fst_toList_eq_keys,
    ExtTreeMap.mem_keys]

theorem nodup_hopFiles (search : Search S) : (hopFiles state maxFiles search).Nodup := by
  rw [hopFiles, List.map_take]
  refine List.Nodup.sublist (List.take_sublist _ _) ?_
  rw [rankCandidates, ((List.perm_insertionSort _ _).map Prod.fst).nodup_iff, ExtTreeMap.map_fst_toList_eq_keys]
  exact ExtTreeMap.nodup_keys

theorem mem_nextScores_of_mem_hopFiles {search : Search S} {id : SymbolId} (member : id ∈ hopFiles state maxFiles search) :
    id ∈ nextScores state maxFiles search := by
  rw [hopFiles, List.map_take] at member
  exact mem_rankCandidates.mp (List.mem_of_mem_take member)

theorem fresh_of_mem_nextScores {search : Search S} {id : SymbolId} (member : id ∈ nextScores state maxFiles search) :
    id ∉ search.visited := by
  obtain ⟨_, _, _, proposed⟩ := mem_nextScores_iff.mp member
  exact (linked_of_mem_fileProposals proposed).1

/-- Without the cap of the frontier every candidate is added. -/
theorem mem_hopFiles {search : Search S} {id : SymbolId}
    (uncapped : (nextScores state maxFiles search).size ≤ frontierCap maxFiles) (member : id ∈ nextScores state maxFiles search) :
    id ∈ hopFiles state maxFiles search := by
  rw [hopFiles, List.take_of_length_le]
  · exact mem_rankCandidates.mpr member
  · rwa [rankCandidates, List.length_insertionSort, ExtTreeMap.length_toList]

variable (state maxFiles) in
theorem expand_adds (hop : Nat) (search : Search S) :
    (expand state maxFiles hop search).visited = search.visited ++ hopFiles state maxFiles search ∧
      (expand state maxFiles hop search).frontier = hopFiles state maxFiles search ∧
      ∀ id, (expand state maxFiles hop search).fileHops[id]? =
        if id ∈ hopFiles state maxFiles search then some hop else search.fileHops[id]? := by
  have fresh : ∀ id ∈ hopFiles state maxFiles search, id ∉ search.visited := fun _ member =>
    fresh_of_mem_nextScores (mem_nextScores_of_mem_hopFiles member)
  exact foldl_acceptCandidate hop _ { search with frontier := [] } fresh (nodup_hopFiles search)

variable (maxFiles) in
theorem nextLayer_expand {start : List SymbolId} {depth : Nat} {search : Search S}
    (searched : Searched (Neighbors state) start depth (layersOf search)) :
    NextLayer (Neighbors state) depth (layersOf search) (layersOf (expand state maxFiles (depth + 1) search)) := by
  obtain ⟨visited, frontier, hops⟩ := expand_adds state maxFiles (depth + 1) search
  have unvisited : ∀ id ∈ hopFiles state maxFiles search, id ∉ search.visited := fun _ member =>
    fresh_of_mem_nextScores (mem_nextScores_of_mem_hopFiles member)
  refine ⟨?_, ?_, ?_, ?_, ?_⟩
  · intro before
    simp only [layersOf, visited]
    exact List.Nodup.append before (nodup_hopFiles search) fun _ old new => unvisited _ new old
  · intro id
    simp only [layersOf, visited, frontier, List.mem_append]
  · intro id member
    simp only [layersOf, frontier] at member
    refine ⟨unvisited id member, ?_⟩
    obtain ⟨file, inFrontier, _, proposed⟩ := mem_nextScores_iff.mp (mem_nextScores_of_mem_hopFiles member)
    refine ⟨file, inFrontier, ?_, (linked_of_mem_fileProposals proposed).2⟩
    rintro rfl
    exact unvisited _ member (searched.frontier _ inFrontier).1
  · intro id old
    simp only [layersOf, hops id]
    exact if_neg fun new => unvisited id new old
  · intro id new
    simp only [layersOf, frontier] at new
    simp only [layersOf, hops id, if_pos new]

/-! ## All hops -/

variable (maxFiles) in
theorem searched_searchFrom {start : List SymbolId} (left depth : Nat) {search : Search S}
    (searched : Searched (Neighbors state) start depth (layersOf search)) :
    ∃ last ≤ depth + left,
      Searched (Neighbors state) start last (layersOf (searchFrom state maxFiles left (depth + 1) search)) := by
  induction left generalizing depth search with
  | zero => exact ⟨depth, Nat.le_refl _, searched⟩
  | succ left ih =>
    rw [searchFrom]
    split
    · exact ⟨depth, Nat.le_add_right .., searched⟩
    · split
      · exact ⟨depth, Nat.le_add_right .., searched⟩
      · obtain ⟨last, below, after⟩ := ih (depth + 1) (searched.next (nextLayer_expand maxFiles searched))
        exact ⟨last, by omega, after⟩

variable (state maxFiles)

/-- The hop leaves nothing out. -/
def HopUncapped (search : Search S) : Prop :=
  (∀ file ∈ search.frontier, FileUncapped state maxFiles search file) ∧
    (nextScores state maxFiles search).size ≤ frontierCap maxFiles

instance (search : Search S) : Decidable (HopUncapped state maxFiles search) := inferInstanceAs (Decidable (_ ∧ _))

/-- No hop leaves anything out. -/
def Uncapped : (left hop : Nat) → Search S → Prop
  | 0, _, _ => True
  | left + 1, hop, search => HopUncapped state maxFiles search ∧ Uncapped left (hop + 1) (expand state maxFiles hop search)

variable {state maxFiles}

theorem mem_nextScores_of_neighbor {search : Search S} {file other : SymbolId} (inFrontier : file ∈ search.frontier)
    (uncapped : FileUncapped state maxFiles search file) (neighbors : Neighbors state file other)
    (unvisited : other ∉ search.visited) : other ∈ nextScores state maxFiles search := by
  obtain ⟨_, symbol, linked, otherLinked⟩ := neighbors
  exact mem_nextScores_iff.mpr ⟨file, inFrontier, exists_mem_fileProposals uncapped linked otherLinked unvisited⟩

theorem exhausted_searchFrom {start : List SymbolId} (left depth : Nat) {search : Search S}
    (searched : Searched (Neighbors state) start depth (layersOf search))
    (complete : Complete (Neighbors state) start depth (layersOf search))
    (uncapped : Uncapped state maxFiles left (depth + 1) search) :
    Exhausted (Neighbors state) start (depth + left) (layersOf (searchFrom state maxFiles left (depth + 1) search)) := by
  induction left generalizing depth search with
  | zero => exact complete.toExhausted
  | succ left ih =>
    obtain ⟨⟨files, size⟩, rest⟩ := uncapped
    have proposed : ∀ file ∈ search.frontier, ∀ other, Neighbors state file other →
        other ∈ search.visited ∨ other ∈ nextScores state maxFiles search := fun file inFrontier other neighbors =>
      or_iff_not_imp_left.mpr (mem_nextScores_of_neighbor inFrontier (files file inFrontier) neighbors)
    rw [searchFrom]
    split
    · rename_i none
      refine complete.stuck searched (fun file inFrontier => ?_) _
      rw [layersOf, none] at inFrontier
      exact absurd inFrontier List.not_mem_nil
    · split
      · rename_i none
        refine complete.stuck searched (fun file inFrontier other neighbors => ?_) _
        have notProposed := ExtTreeMap.eq_empty_iff_forall_not_mem.mp (ExtTreeMap.isEmpty_iff.mp none) other
        exact (proposed file inFrontier other neighbors).resolve_right notProposed
      · rw [show depth + (left + 1) = depth + 1 + left by omega]
        have next := nextLayer_expand maxFiles searched
        refine ih (depth + 1) (searched.next next) (complete.next searched next ?_) rest
        intro file inFrontier other neighbors
        refine (proposed file inFrontier other neighbors).imp_right fun member => ?_
        rw [layersOf, (expand_adds state maxFiles _ search).2.1]
        exact mem_hopFiles size member

/-! ## The result -/

def FileAt (state : ProjectGraphState R) (id : SymbolId) (path : String) : Prop :=
  ∃ node, state.nodes[id]? = some node ∧ node.kind = graphNodeKindFile ∧ node.filePath = path

def DistinctPathKeys (state : ProjectGraphState R) : Prop :=
  ∀ first second path other, FileAt state first path → FileAt state second other → pathKey path = pathKey other →
    first = second

def UnchangedFile (state : ProjectGraphState R) (changedFiles : List String) (id : SymbolId) (path : String) : Prop :=
  FileAt state id path ∧ path ≠ "" ∧ pathKey path ∉ changedPathKeys changedFiles

omit [LinearOrder S] in
theorem unchangedFile_of_impactedOf {changedFiles : List String} {hops : Nat} {search : Search S} {id : SymbolId}
    {impacted : Impacted S} (found : impactedOf state changedFiles hops search id = some impacted) :
    UnchangedFile state changedFiles id impacted.path ∧ impacted.hop = search.fileHops[id]?.getD (hops + 1) := by
  rw [impactedOf] at found
  split at found
  · exact absurd found nofun
  · rename_i node known
    split at found
    · exact absurd found nofun
    · rename_i named
      obtain ⟨isFile, nonempty⟩ := not_or.mp named
      split at found
      · exact absurd found nofun
      · rename_i unchanged
        obtain rfl := Option.some.inj found
        exact ⟨⟨⟨node, known, not_not.mp isFile, rfl⟩, nonempty, unchanged⟩, rfl⟩

omit [LinearOrder S] in
theorem exists_impactedOf {changedFiles : List String} (hops : Nat) (search : Search S) {id : SymbolId} {path : String}
    (unchanged : UnchangedFile state changedFiles id path) :
    ∃ impacted, impactedOf state changedFiles hops search id = some impacted ∧ impacted.path = path := by
  obtain ⟨⟨node, known, isFile, rfl⟩, nonempty, notChanged⟩ := unchanged
  rw [impactedOf, known]
  simp only [isFile, nonempty, ne_eq, not_true_eq_false, or_self, if_false, notChanged]
  exact ⟨_, rfl, rfl⟩

theorem mem_rankImpacted {impacted : Impacted S} {all : List (Impacted S)} : impacted ∈ rankImpacted all ↔ impacted ∈ all :=
  (List.perm_insertionSort _ all).mem_iff

theorem ordered_rankImpacted (all : List (Impacted S)) : ((rankImpacted all).map Impacted.hop).Pairwise (· ≤ ·) := by
  have total : Std.Total fun left right : Impacted S => impactRank left ≤ impactRank right :=
    ⟨fun left right => le_total (impactRank left) (impactRank right)⟩
  have transitive : IsTrans (Impacted S) fun left right => impactRank left ≤ impactRank right :=
    ⟨fun _ _ _ first second => first.trans second⟩
  rw [List.pairwise_map]
  refine (List.pairwise_insertionSort (fun left right : Impacted S => impactRank left ≤ impactRank right) all).imp ?_
  intro left right ordered
  exact Prod.Lex.monotone_fst _ _ ordered

variable (state maxFiles) (changedFiles : List String) (hops : Nat) (search : Search S)

/-- The files that are listed, each with the number of hops at which the search has found it. -/
def listing : List (String × Nat) :=
  ((rankImpacted (search.visited.filterMap (impactedOf state changedFiles hops search))).take maxFiles).map fun impacted =>
    (impacted.path, impacted.hop)

variable {state maxFiles changedFiles hops search}

theorem exists_of_mem_listing {entry : String × Nat} (listed : entry ∈ listing state maxFiles changedFiles hops search) :
    ∃ id ∈ search.visited, UnchangedFile state changedFiles id entry.1 ∧ entry.2 = search.fileHops[id]?.getD (hops + 1) := by
  obtain ⟨impacted, taken, rfl⟩ := List.mem_map.mp listed
  obtain ⟨id, visited, found⟩ := List.mem_filterMap.mp (mem_rankImpacted.mp (List.mem_of_mem_take taken))
  exact ⟨id, visited, unchangedFile_of_impactedOf found⟩

theorem nodup_listing (distinct : DistinctPathKeys state) (nodup : search.visited.Nodup) :
    ((listing state maxFiles changedFiles hops search).map Prod.fst).Nodup := by
  rw [listing, List.map_map, List.map_take]
  refine List.Nodup.sublist (List.take_sublist _ _) ?_
  rw [rankImpacted, ((List.perm_insertionSort _ _).map _).nodup_iff, List.map_filterMap]
  refine List.Nodup.filterMap (fun first second path fromFirst fromSecond => ?_) nodup
  obtain ⟨left, foundLeft, rfl⟩ := Option.map_eq_some_iff.mp fromFirst
  obtain ⟨right, foundRight, same⟩ := Option.map_eq_some_iff.mp fromSecond
  exact distinct first second left.path right.path (unchangedFile_of_impactedOf foundLeft).1.1
    (unchangedFile_of_impactedOf foundRight).1.1 (congrArg pathKey same.symm)

/-- A listing that is not full holds every unchanged file that was visited. -/
theorem mem_listing {id : SymbolId} {path : String} (unchanged : UnchangedFile state changedFiles id path)
    (visited : id ∈ search.visited) (notFull : (listing state maxFiles changedFiles hops search).length < maxFiles) :
    path ∈ (listing state maxFiles changedFiles hops search).map Prod.fst := by
  obtain ⟨impacted, found, rfl⟩ := exists_impactedOf hops search unchanged
  rw [listing, List.length_map, List.length_take] at notFull
  rw [listing, List.take_of_length_le (by omega), List.map_map]
  exact List.mem_map.mpr ⟨impacted, mem_rankImpacted.mpr (List.mem_filterMap.mpr ⟨id, visited, found⟩), rfl⟩

variable (state changedFiles hops maxFiles)

/-- The entries are unchanged files, each with the number of steps of a walk from a changed file. -/
structure Neighborhood (entries : List (String × Nat)) : Prop where
  bounded : entries.length ≤ maxFiles
  distinct : (entries.map Prod.fst).Nodup
  ordered : (entries.map Prod.snd).Pairwise (· ≤ ·)
  reached : ∀ entry ∈ entries, entry.2 ≤ hops ∧ ∃ id, UnchangedFile state changedFiles id entry.1 ∧
    ∃ first ∈ changedFileIds state changedFiles, Walk (Neighbors state) entry.2 first id

/-- The steps are the distances, and entries that are not full hold every file within the bound. -/
structure WholeNeighborhood (entries : List (String × Nat)) : Prop where
  least : ∀ entry ∈ entries, ∀ id, UnchangedFile state changedFiles id entry.1 → ∀ length,
    ∀ first ∈ changedFileIds state changedFiles, Walk (Neighbors state) length first id → entry.2 ≤ length
  whole : entries.length < maxFiles → ∀ id path, UnchangedFile state changedFiles id path → ∀ length ≤ hops,
    ∀ first ∈ changedFileIds state changedFiles, Walk (Neighbors state) length first id → path ∈ entries.map Prod.fst

variable {state changedFiles hops maxFiles}

theorem neighborhood_listing {last : Nat} (distinct : DistinctPathKeys state) (below : last ≤ hops)
    (searched : Searched (Neighbors state) (changedFileIds state changedFiles) last (layersOf search)) :
    Neighborhood state maxFiles changedFiles hops (listing state maxFiles changedFiles hops search) := by
  refine ⟨?_, nodup_listing distinct searched.nodup, ?_, ?_⟩
  · rw [listing, List.length_map]
    exact List.length_take_le ..
  · rw [listing, List.map_map, List.map_take]
    exact (ordered_rankImpacted _).sublist (List.take_sublist _ _)
  · intro entry listed
    obtain ⟨id, visited, unchanged, hop⟩ := exists_of_mem_listing listed
    obtain ⟨level, levelBelow, known, first, isStart, walk⟩ := searched.known id visited
    have steps : entry.2 = level := hop.trans (congrArg (Option.getD · (hops + 1)) known)
    rw [steps]
    exact ⟨levelBelow.trans below, id, unchanged, first, isStart, walk⟩

theorem wholeNeighborhood_listing {last : Nat} (distinct : DistinctPathKeys state)
    (searched : Searched (Neighbors state) (changedFileIds state changedFiles) last (layersOf search))
    (exhausted : Exhausted (Neighbors state) (changedFileIds state changedFiles) hops (layersOf search)) :
    WholeNeighborhood state maxFiles changedFiles hops (listing state maxFiles changedFiles hops search) := by
  constructor
  · intro entry listed id unchanged length first isStart walk
    obtain ⟨found, visited, unchangedFound, hop⟩ := exists_of_mem_listing listed
    obtain rfl := distinct found id entry.1 entry.1 unchangedFound.1 unchanged.1 rfl
    obtain ⟨level, _, known, _⟩ := searched.known found visited
    have steps : entry.2 = level := hop.trans (congrArg (Option.getD · (hops + 1)) known)
    rw [steps]
    exact exhausted.least found visited level known length first isStart walk
  · intro notFull id path unchanged length within first isStart walk
    exact mem_listing unchanged (exhausted.within length within first isStart id walk) notFull

variable (S) in
theorem affectedFilePaths_eq (positive : 1 ≤ hops) : affectedFilePaths state S changedFiles hops maxFiles =
    (listing state maxFiles changedFiles hops (finalSearch state S changedFiles hops maxFiles)).map Prod.fst := by
  rw [affectedFilePaths, listing, List.map_map]
  split
  · rename_i nothing
    obtain none | zero | zero := nothing
    · have noIds : changedFileIds state changedFiles = [] := by
        subst none
        simp [changedFileIds, changedPathKeys]
      have noFile : (finalSearch state S changedFiles hops maxFiles).visited = [] := by
        obtain ⟨hops, rfl⟩ := Nat.exists_eq_add_of_le' positive
        rw [finalSearch, noIds, searchFrom, if_pos (by rfl)]
        rfl
      rw [noFile, List.filterMap_nil, rankImpacted, List.insertionSort_nil, List.take_nil, List.map_nil]
    · omega
    · rw [zero, List.take_zero, List.map_nil]
  · rfl

/-- The affected files are a neighborhood of the changed ones, in the order in which the search reaches them.  When no cap leaves
anything out, it is the whole neighborhood, in the order of the distances. -/
theorem affectedFilePaths_neighborhood (state : ProjectGraphState R) (S : Type) [LinearOrder S] [NeighborScore R S]
    (changedFiles : List String) (hops maxFiles : Nat) (positive : 1 ≤ hops) (distinct : DistinctPathKeys state) :
    ∃ entries : List (String × Nat), affectedFilePaths state S changedFiles hops maxFiles = entries.map Prod.fst ∧
      Neighborhood state maxFiles changedFiles hops entries ∧
      (Uncapped state maxFiles hops 1 (startSearch S (changedFileIds state changedFiles)) →
        WholeNeighborhood state maxFiles changedFiles hops entries) := by
  have start := searched_startSearch (S := S) state changedFiles
  obtain ⟨last, below, searched⟩ := searched_searchFrom maxFiles hops 0 start
  refine ⟨_, affectedFilePaths_eq S positive, neighborhood_listing distinct (by omega) searched, ?_⟩
  intro uncapped
  refine wholeNeighborhood_listing distinct searched ?_
  have exhausted := exhausted_searchFrom hops 0 start (complete_startSearch state changedFiles) uncapped
  rwa [Nat.zero_add] at exhausted

theorem distinctPathKeys_of_toList (distinct : ∀ entry ∈ state.nodes.toList, ∀ other ∈ state.nodes.toList,
    entry.2.kind = graphNodeKindFile → other.2.kind = graphNodeKindFile → pathKey entry.2.filePath = pathKey other.2.filePath →
      entry.1 = other.1) : DistinctPathKeys state := by
  intro first second path other firstAt secondAt same
  obtain ⟨node, known, isFile, rfl⟩ := firstAt
  obtain ⟨otherNode, otherKnown, otherIsFile, rfl⟩ := secondAt
  exact distinct (first, node) (ExtTreeMap.mem_toList_iff_getElem?_eq_some.mpr known) (second, otherNode)
    (ExtTreeMap.mem_toList_iff_getElem?_eq_some.mpr otherKnown) isFile otherIsFile same

end

/-! ## Graphs of files -/

/-- The scores of symbols without metrics, which are exact where the number of files is a square. -/
instance : NeighborScore ℚ ℚ where
  start := 1
  zero := 0
  symbolNeighborQuality _ fanout := max (8 / 100) (min (1 / (Nat.sqrt (max fanout 1) : ℚ)) (60 / 100))
  fanoutPenalty fanout := max (6 / 100) (min (1 / (Nat.sqrt (max fanout 1) : ℚ)) 1)
  nextScore baseScore fileWeight symbolWeight quality penalty :=
    baseScore + ((fileWeight + symbolWeight : Nat) : ℚ) / 2 * quality * penalty

def filesLinked (links : List (String × String)) : ProjectGraphState ℚ :=
  { (ProjectGraphState.new : ProjectGraphState ℚ) with
    nodes := links.foldl (fun nodes link =>
      nodes.insert (fileSymbolId link.1) (GraphNode.new (fileSymbolId link.1) link.1 graphNodeKindFile link.1 0 0)) ∅
    edges := links.map fun link => GraphEdge.new (fileSymbolId link.1) link.2 .reference }

/-- Four files that are linked to one symbol. -/
def fourFiles : ProjectGraphState ℚ := filesLinked [("a", "s"), ("b", "s"), ("c", "s"), ("d", "s")]

theorem affectedFilePaths_neighborhood_fourFiles : ∃ entries : List (String × Nat),
    affectedFilePaths fourFiles ℚ ["a"] 1 9 = entries.map Prod.fst ∧ Neighborhood fourFiles 9 ["a"] 1 entries ∧
      WholeNeighborhood fourFiles 9 ["a"] 1 entries := by
  obtain ⟨entries, listed, near, whole⟩ := affectedFilePaths_neighborhood fourFiles ℚ ["a"] 1 9 (by decide)
    (distinctPathKeys_of_toList (by decide +kernel))
  exact ⟨entries, listed, near, whole ⟨by decide +kernel, trivial⟩⟩

/-- The file a is linked to 25 symbols, one more than the cap, and the last of them is the one that it has in common with z.
The search comes to z over b, after w, which is two steps away. -/
def manyLinks : ProjectGraphState ℚ :=
  filesLinked (("abcdefghijklmnopqrstuvwxy".toList.map fun symbol => ("a", String.ofList [symbol])) ++
    [("b", "a"), ("n", "a"), ("o", "a"), ("z", "y"), ("b", "1"), ("g", "1"), ("w", "1"), ("z", "1")])

theorem affectedFilePaths_unordered : DistinctPathKeys manyLinks ∧ changedFileIds manyLinks ["a"] = [fileSymbolId "a"] ∧
    affectedFilePaths manyLinks ℚ ["a"] 2 6 = ["b", "n", "o", "g", "w", "z"] ∧
    Walk (Neighbors manyLinks) 1 (fileSymbolId "a") (fileSymbolId "z") ∧
    ∀ length, Walk (Neighbors manyLinks) length (fileSymbolId "a") (fileSymbolId "w") → 2 ≤ length := by
  refine ⟨distinctPathKeys_of_toList (by decide +kernel), by decide +kernel, by decide +kernel, ?_, ?_⟩
  · exact (Walk.stay _).go ⟨by decide, "y", by decide +kernel, by decide +kernel⟩
  · intro length walk
    have apart : ∀ edge ∈ manyLinks.edges, ∀ other ∈ manyLinks.edges, edge.fromId = fileSymbolId "a" →
        other.fromId = fileSymbolId "w" → edge.toId ≠ other.toId := by decide +kernel
    cases walk with
    | @go length _ inner _ first last =>
      cases first with
      | stay =>
        obtain ⟨_, symbol, ⟨edge, listed, _, _, fromA, toSymbol⟩, other, otherListed, _, _, fromW, otherToSymbol⟩ := last
        exact absurd (toSymbol.trans otherToSymbol.symm) (apart edge listed other otherListed fromA fromW)
      | go => omega

end MjFormatter.Verified
