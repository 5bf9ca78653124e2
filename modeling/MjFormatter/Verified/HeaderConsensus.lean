import MjFormatter.Parser.Consensus

/-! # The vote on the parses of a header

The merged result keeps what has been listed often enough.  A parse that lists an item twice votes for it twice, and so
the vote is one of parses only as far as repetitions do not decide it. -/

namespace MjFormatter.Verified

open MjFormatter.Parser MjFormatter.Graph Library Library.Votes

variable {Details : Type}

/-! ## What a parse lists -/

def symbolItems (parse : Parser.ClangParseResult Details) : List SemanticDeclaration :=
  parse.symbols.map (·.toSemanticDeclaration)

def offsetItems {κ : Type} (offsets : List (κ × List Nat)) : List (κ × Nat) :=
  offsets.flatMap fun entry => entry.2.map fun offset => (entry.1, offset)

def renameItems (parse : Parser.ClangParseResult Details) : List (ClangSymbolKey × Nat) := offsetItems parse.renameOffsetsBySymbol

def referenceItems (parse : Parser.ClangParseResult Details) : List (ClangDeclKey × Nat) := offsetItems parse.referenceOffsetsByDecl

def diagnosticItems (parse : Parser.ClangParseResult Details) : List DiagnosticPlace :=
  parse.diagnosticEntries.map ClangDiagnosticEntry.place

/-! ## Counting -/

/-- The ballots after these items have been listed. -/
structure Collected (ballots : Ballots Details) (symbols : List SemanticDeclaration) (renames : List (ClangSymbolKey × Nat))
    (references : List (ClangDeclKey × Nat)) (diagnostics : List DiagnosticPlace) : Prop where
  symbolCounts : Counts ballots.symbolVotes symbols
  order : ∀ key, key ∈ ballots.symbolOrder ↔ key ∈ symbols
  exemplars : ∀ key, key ∈ ballots.symbolExemplar.map Prod.fst ↔ key ∈ symbols
  exemplar : ∀ entry ∈ ballots.symbolExemplar, entry.2.toSemanticDeclaration = entry.1
  renameCounts : Counts ballots.renameVotes renames
  referenceCounts : Counts ballots.refVotes references
  diagnosticCounts : Counts ballots.diagVotes diagnostics

section
variable {ballots : Ballots Details} {symbols : List SemanticDeclaration} {renames : List (ClangSymbolKey × Nat)}
  {references : List (ClangDeclKey × Nat)} {diagnostics : List DiagnosticPlace}

theorem collected_nil : Collected ({} : Ballots Details) [] [] [] [] := by
  constructor
  · exact counts_nil
  · simp
  · simp
  · simp
  · exact counts_nil
  · exact counts_nil
  · exact counts_nil

theorem mem_orInsert {κ α : Type} [DecidableEq κ] {map : List (κ × α)} {key other : κ} {value : α} :
    other ∈ (orInsert map key value).map Prod.fst ↔ other ∈ map.map Prod.fst ∨ other = key :=
  Merging.mem_map_key_upsert fun _ _ => rfl

theorem collected_addSymbol (collected : Collected ballots symbols renames references diagnostics)
    (symbol : ParsedDeclaration Details) :
    Collected (ballots.addSymbol symbol) (symbols ++ [symbol.toSemanticDeclaration]) renames references diagnostics := by
  have counts := counts_castVote collected.symbolCounts symbol.toSemanticDeclaration
  have votes := votesFor_eq counts symbol.toSemanticDeclaration
  simp only [List.count_append, List.count_singleton_self] at votes
  constructor
  · exact counts
  · intro key
    simp only [Ballots.addSymbol, votes, List.mem_append, List.mem_singleton]
    by_cases first : symbols.count symbol.toSemanticDeclaration + 1 = 1
    · rw [if_pos first, List.mem_append, List.mem_singleton, collected.order]
    · have listed : symbol.toSemanticDeclaration ∈ symbols := List.count_pos_iff.mp (by omega)
      rw [if_neg first, collected.order]
      constructor
      · exact Or.inl
      · intro either
        cases either with
        | inl old => exact old
        | inr new => rwa [new]
  · intro key
    rw [Ballots.addSymbol, mem_orInsert, collected.exemplars, List.mem_append, List.mem_singleton]
  · apply Merging.forall_upsert
    · exact collected.exemplar
    · rfl
    · intro old member _
      exact collected.exemplar old member
  · exact collected.renameCounts
  · exact collected.referenceCounts
  · exact collected.diagnosticCounts

theorem collected_addSymbols (collected : Collected ballots symbols renames references diagnostics)
    (listed : List (ParsedDeclaration Details)) :
    Collected (listed.foldl Ballots.addSymbol ballots) (symbols ++ listed.map (·.toSemanticDeclaration)) renames references
      diagnostics := by
  induction listed generalizing ballots symbols with
  | nil => simpa using collected
  | cons symbol listed ih => simpa using ih (collected_addSymbol collected symbol)

theorem foldl_castVote {κ : Type} [DecidableEq κ] (votes : List ((κ × Nat) × Nat)) (entry : κ × List Nat) :
    entry.2.foldl (fun votes offset => castVote votes (entry.1, offset)) votes =
      castVotes votes (entry.2.map fun offset => (entry.1, offset)) := by
  rw [castVotes, List.foldl_map]

theorem collected_addRenameOffsets (collected : Collected ballots symbols renames references diagnostics)
    (listed : List (ClangSymbolKey × List Nat)) :
    Collected (listed.foldl Ballots.addRenameOffsets ballots) symbols (renames ++ offsetItems listed) references
      diagnostics := by
  induction listed generalizing ballots renames with
  | nil => simpa [offsetItems] using collected
  | cons entry listed ih =>
    have step : Collected (ballots.addRenameOffsets entry) symbols (renames ++ entry.2.map fun offset => (entry.1, offset))
        references diagnostics := by
      have counts := counts_castVotes collected.renameCounts (entry.2.map fun offset => (entry.1, offset))
      rw [← foldl_castVote] at counts
      exact { collected with renameCounts := counts }
    simpa [offsetItems] using ih step

theorem collected_addReferenceOffsets (collected : Collected ballots symbols renames references diagnostics)
    (listed : List (ClangDeclKey × List Nat)) :
    Collected (listed.foldl Ballots.addReferenceOffsets ballots) symbols renames (references ++ offsetItems listed)
      diagnostics := by
  induction listed generalizing ballots references with
  | nil => simpa [offsetItems] using collected
  | cons entry listed ih =>
    have step : Collected (ballots.addReferenceOffsets entry) symbols renames
        (references ++ entry.2.map fun offset => (entry.1, offset)) diagnostics := by
      have counts := counts_castVotes collected.referenceCounts (entry.2.map fun offset => (entry.1, offset))
      rw [← foldl_castVote] at counts
      exact { collected with referenceCounts := counts }
    simpa [offsetItems] using ih step

theorem collected_addDiagnostics (collected : Collected ballots symbols renames references diagnostics)
    (listed : List (ClangDiagnosticEntry × Option String)) :
    Collected (listed.foldl Ballots.addDiagnostic ballots) symbols renames references
      (diagnostics ++ listed.map fun entry => entry.1.place) := by
  induction listed generalizing ballots diagnostics with
  | nil => simpa using collected
  | cons entry listed ih =>
    have step : Collected (ballots.addDiagnostic entry) symbols renames references (diagnostics ++ [entry.1.place]) :=
      { collected with diagnosticCounts := counts_castVote collected.diagnosticCounts entry.1.place }
    simpa using ih step

theorem map_place_withMessages (parse : Parser.ClangParseResult Details) :
    (Ballots.withMessages parse).map (fun entry => entry.1.place) = diagnosticItems parse := by
  apply List.ext_getElem
  · simp [Ballots.withMessages, diagnosticItems]
  · simp [Ballots.withMessages, diagnosticItems]

theorem collected_addParse (collected : Collected ballots symbols renames references diagnostics)
    (parse : Parser.ClangParseResult Details) :
    Collected (ballots.addParse parse)
      (symbols ++ ([parse].filter headerSemanticVoteEligible).flatMap symbolItems)
      (renames ++ ([parse].filter headerSemanticVoteEligible).flatMap renameItems)
      (references ++ ([parse].filter headerSemanticVoteEligible).flatMap referenceItems)
      (diagnostics ++ diagnosticItems parse) := by
  have semantics : Collected (if headerSemanticVoteEligible parse then ballots.addSemantics parse else ballots)
      (symbols ++ ([parse].filter headerSemanticVoteEligible).flatMap symbolItems)
      (renames ++ ([parse].filter headerSemanticVoteEligible).flatMap renameItems)
      (references ++ ([parse].filter headerSemanticVoteEligible).flatMap referenceItems) diagnostics := by
    by_cases eligible : headerSemanticVoteEligible parse = true
    · have added := collected_addReferenceOffsets (collected_addRenameOffsets
        (collected_addSymbols collected parse.symbols) parse.renameOffsetsBySymbol) parse.referenceOffsetsByDecl
      simpa [eligible, symbolItems, renameItems, referenceItems, Ballots.addSemantics] using added
    · simpa [eligible] using collected
  have all := collected_addDiagnostics semantics (Ballots.withMessages parse)
  rwa [map_place_withMessages] at all

end

theorem collected_all (parses : List (Parser.ClangParseResult Details)) :
    Collected (parses.foldl Ballots.addParse {}) ((parses.filter headerSemanticVoteEligible).flatMap symbolItems)
      ((parses.filter headerSemanticVoteEligible).flatMap renameItems)
      ((parses.filter headerSemanticVoteEligible).flatMap referenceItems) (parses.flatMap diagnosticItems) := by
  induction parses using List.reverseRecOn with
  | nil => exact collected_nil
  | append_singleton parses parse ih =>
    have step := collected_addParse ih parse
    simpa [List.foldl_append, List.filter_append] using step

/-! ## What is kept -/

theorem exists_keptSymbols_iff {ballots : Ballots Details} {symbols : List SemanticDeclaration}
    {renames : List (ClangSymbolKey × Nat)} {references : List (ClangDeclKey × Nat)} {diagnostics : List DiagnosticPlace}
    (collected : Collected ballots symbols renames references diagnostics) {threshold : Nat} (positive : 0 < threshold)
    (key : SemanticDeclaration) :
    (∃ symbol ∈ keptSymbols ballots threshold, symbol.toSemanticDeclaration = key) ↔ threshold ≤ listings symbols key := by
  simp only [keptSymbols, List.mem_insertionSort, List.mem_filterMap, votesFor_eq collected.symbolCounts,
    listings]
  constructor
  · intro kept
    obtain ⟨symbol, ⟨other, _, found⟩, same⟩ := kept
    by_cases enough : threshold ≤ symbols.count other
    · rw [if_pos enough, Option.map_eq_some_iff] at found
      obtain ⟨entry, entry_found, entry_symbol⟩ := found
      have ofOther : entry.1 = other := by simpa using List.find?_some entry_found
      have ofEntry := collected.exemplar entry (List.mem_of_find?_eq_some entry_found)
      rw [entry_symbol, same, ofOther] at ofEntry
      rwa [ofEntry]
    · simp [enough] at found
  · intro enough
    have listed : key ∈ symbols := List.count_pos_iff.mp (lt_of_lt_of_le positive enough)
    have known := (collected.exemplars key).mpr listed
    rw [List.mem_map] at known
    obtain ⟨witness, member, same⟩ := known
    cases found : ballots.symbolExemplar.find? fun entry => entry.1 = key with
    | none =>
      have differs := List.find?_eq_none.mp found witness member
      simp [same] at differs
    | some entry =>
      have ofKey : entry.1 = key := by simpa using List.find?_some found
      have ofEntry := collected.exemplar entry (List.mem_of_find?_eq_some found)
      use entry.2
      constructor
      · use key
        constructor
        · exact (collected.order key).mpr listed
        · simp [enough, found]
      · rw [ofEntry, ofKey]

section
variable {κ : Type} [DecidableEq κ]

/-- The offset is listed under the key. -/
def ListsOffset (offsets : List (κ × List Nat)) (item : κ × Nat) : Prop := ∃ entry ∈ offsets, entry.1 = item.1 ∧ item.2 ∈ entry.2

omit [DecidableEq κ] in
theorem listsOffset_cons {entry : κ × List Nat} {offsets : List (κ × List Nat)} {item : κ × Nat} :
    ListsOffset (entry :: offsets) item ↔ (entry.1 = item.1 ∧ item.2 ∈ entry.2) ∨ ListsOffset offsets item := by
  simp [ListsOffset]

theorem listsOffset_pushOffset {offsets : List (κ × List Nat)} {pushed item : κ × Nat} :
    ListsOffset (pushOffset offsets pushed) item ↔ ListsOffset offsets item ∨ item = pushed := by
  induction offsets with
  | nil =>
    simp [ListsOffset, pushOffset, Merging.upsert, Prod.ext_iff, eq_comm]
  | cons entry offsets ih =>
    simp only [pushOffset] at ih
    by_cases same : entry.1 = pushed.1
    · have merged : pushOffset (entry :: offsets) pushed = (entry.1, entry.2 ++ [pushed.2]) :: offsets := by
        simp [pushOffset, Merging.upsert, same]
      rw [merged, listsOffset_cons, listsOffset_cons, List.mem_append, List.mem_singleton, Prod.ext_iff, ← same,
        eq_comm (a := item.1)]
      tauto
    · simp only [pushOffset, Merging.upsert, if_neg same, listsOffset_cons, ih, or_assoc]

theorem listsOffset_pushAll (pushed : List (κ × Nat)) (offsets : List (κ × List Nat)) (item : κ × Nat) :
    ListsOffset (pushed.foldl pushOffset offsets) item ↔ ListsOffset offsets item ∨ item ∈ pushed := by
  induction pushed generalizing offsets with
  | nil => simp
  | cons first pushed ih => rw [List.foldl_cons, ih, listsOffset_pushOffset, List.mem_cons, or_assoc]

theorem listsOffset_keptOffsets {votes : List ((κ × Nat) × Nat)} {items : List (κ × Nat)} (counts : Counts votes items)
    {threshold : Nat} (positive : 0 < threshold) (item : κ × Nat) :
    ListsOffset (keptOffsets votes threshold) item ↔ threshold ≤ listings items item := by
  have sorted : ∀ offsets : List (κ × List Nat),
      ListsOffset (offsets.map fun entry => (entry.1, (entry.2.insertionSort (· ≤ ·)).dedup)) item ↔
        ListsOffset offsets item := by
    simp [ListsOffset]
  rw [keptOffsets, sorted, listsOffset_pushAll, ← exists_votes_iff counts positive]
  simp [ListsOffset, List.mem_filter, and_assoc]

end

theorem exists_keptDiagnostics_iff {votes : List (DiagnosticPlace × Nat)} {items : List DiagnosticPlace}
    (counts : Counts votes items) {threshold : Nat} (positive : 0 < threshold) (place : DiagnosticPlace) :
    (∃ entry ∈ keptDiagnostics votes threshold, entry.place = place) ↔ threshold ≤ listings items place := by
  rw [← exists_votes_iff counts positive]
  simp only [keptDiagnostics, List.mem_insertionSort, List.mem_filterMap]
  constructor
  · intro kept
    obtain ⟨entry, ⟨vote, member, found⟩, same⟩ := kept
    by_cases enough : threshold ≤ vote.2
    · rw [if_pos enough, Option.some.injEq] at found
      subst found
      exact ⟨vote, member, enough, same⟩
    · simp [enough] at found
  · intro voted
    obtain ⟨vote, member, enough, same⟩ := voted
    refine ⟨_, ⟨vote, member, if_pos enough⟩, ?_⟩
    simp [ClangDiagnosticEntry.place, ← same]

theorem strictMajorityThreshold_pos (voters : Nat) : 0 < strictMajorityThreshold voters := by
  unfold strictMajorityThreshold
  split
  · omega
  · omega

theorem strictMajorityThreshold_le_iff {voters votes : Nat} :
    strictMajorityThreshold voters ≤ votes ↔ voters < 2 * votes := by
  unfold strictMajorityThreshold
  split
  · omega
  · omega

/-! ## One vote for each parse -/

def eligible (parses : List (Parser.ClangParseResult Details)) : List (Parser.ClangParseResult Details) :=
  parses.filter headerSemanticVoteEligible

/-- More than half of the voters list the item. -/
def MoreThanHalf {κ : Type} [DecidableEq κ] (ballot : Parser.ClangParseResult Details → List κ)
    (voters : List (Parser.ClangParseResult Details)) (item : κ) : Prop :=
  voters.length < 2 * reporters ballot voters item

/-- The merged result has what more than half of the parses report, each of which has one vote. -/
structure StrictMajority (parses : List (Parser.ClangParseResult Details)) : Prop where
  symbol : ∀ key, (∃ symbol ∈ (mergeHeaderResults parses).symbols, symbol.toSemanticDeclaration = key) ↔
    MoreThanHalf symbolItems (eligible parses) key
  rename : ∀ item, ListsOffset (mergeHeaderResults parses).renameOffsetsBySymbol item ↔
    MoreThanHalf renameItems (eligible parses) item
  reference : ∀ item, ListsOffset (mergeHeaderResults parses).referenceOffsetsByDecl item ↔
    MoreThanHalf referenceItems (eligible parses) item
  diagnostic : ∀ place, (∃ entry ∈ (mergeHeaderResults parses).diagnosticEntries, entry.place = place) ↔
    MoreThanHalf diagnosticItems parses place

/-- No item of at most half of the voters is listed by them so often that the listings are more than half. -/
def RepeatsDecideNothing {κ : Type} [DecidableEq κ] (ballot : Parser.ClangParseResult Details → List κ)
    (voters : List (Parser.ClangParseResult Details)) : Prop :=
  ∀ item, 2 * reporters ballot voters item ≤ voters.length →
    2 * (reporters ballot voters item + repeats ballot voters item) ≤ voters.length

theorem repeatsDecideNothing_of_nodup {κ : Type} [DecidableEq κ] {ballot : Parser.ClangParseResult Details → List κ}
    {voters : List (Parser.ClangParseResult Details)} (nodup : ∀ voter ∈ voters, (ballot voter).Nodup) :
    RepeatsDecideNothing ballot voters := by
  intro item few
  rwa [repeats_eq_zero nodup, Nat.add_zero]

theorem majority_iff {κ : Type} [DecidableEq κ] {ballot : Parser.ClangParseResult Details → List κ}
    {voters : List (Parser.ClangParseResult Details)} {kept : κ → Prop}
    (keeps : ∀ item, kept item ↔ strictMajorityThreshold voters.length ≤ listings (voters.flatMap ballot) item) :
    (∀ item, kept item ↔ MoreThanHalf ballot voters item) ↔ RepeatsDecideNothing ballot voters := by
  simp only [keeps, strictMajorityThreshold_le_iff, listings_flatMap, MoreThanHalf, RepeatsDecideNothing]
  constructor
  · intro same item few
    have this := same item
    omega
  · intro decides item
    have this := decides item
    omega

/-- The merge is a vote of the parses just when no item that too few of them report is listed often enough all the same. -/
theorem mergeHeaderResults_strictMajority_iff (parses : List (Parser.ClangParseResult Details)) :
    StrictMajority parses ↔ RepeatsDecideNothing symbolItems (eligible parses) ∧
      RepeatsDecideNothing renameItems (eligible parses) ∧ RepeatsDecideNothing referenceItems (eligible parses) ∧
      RepeatsDecideNothing diagnosticItems parses := by
  have collected := collected_all parses
  have positive := strictMajorityThreshold_pos (eligible parses).length
  have symbols := majority_iff (exists_keptSymbols_iff collected positive)
  have renames := majority_iff (listsOffset_keptOffsets collected.renameCounts positive)
  have references := majority_iff (listsOffset_keptOffsets collected.referenceCounts positive)
  have diagnostics := majority_iff
    (exists_keptDiagnostics_iff collected.diagnosticCounts (strictMajorityThreshold_pos parses.length))
  constructor
  · intro majority
    exact ⟨symbols.mp majority.symbol, renames.mp majority.rename, references.mp majority.reference,
      diagnostics.mp majority.diagnostic⟩
  · intro decides
    obtain ⟨onSymbols, onRenames, onReferences, onDiagnostics⟩ := decides
    constructor
    · exact symbols.mpr onSymbols
    · exact renames.mpr onRenames
    · exact references.mpr onReferences
    · exact diagnostics.mpr onDiagnostics

/-! ## A parse that votes twice -/

theorem no_diagnostics : ({} : DiagnosticCounts).total = 0 := rfl

def quietParse : Parser.ClangParseResult Unit where
  success := true
  diagnostics := []
  symbols := []
  diagnosticCounts := {}
  diagnosticEntries := []
  renameOffsetsBySymbol := []
  referenceOffsetsByDecl := []
  counted := no_diagnostics
  entered := List.length_nil

/-- Two warnings at one place. -/
def twiceWarnedParse : Parser.ClangParseResult Unit where
  success := true
  diagnostics := ["a.h:3:5: Warning: unused", "a.h:3:5: Warning: shadowed"]
  symbols := []
  diagnosticCounts := { warning := 2 }
  diagnosticEntries := [⟨3, 5, 2, "-Wunused", []⟩, ⟨3, 5, 2, "-Wshadow", []⟩]
  renameOffsetsBySymbol := []
  referenceOffsetsByDecl := []
  counted := rfl
  entered := rfl

/-- One parse of three has its warning kept. -/
theorem twiceWarned_outvotes : ¬StrictMajority [twiceWarnedParse, quietParse, quietParse] := by
  intro majority
  have kept : ∃ entry ∈ (mergeHeaderResults [twiceWarnedParse, quietParse, quietParse]).diagnosticEntries,
      entry.place = (3, 5, 2) := by decide +kernel
  have half := (majority.diagnostic (3, 5, 2)).mp kept
  have few : ¬MoreThanHalf diagnosticItems [twiceWarnedParse, quietParse, quietParse] (3, 5, 2) := by
    unfold MoreThanHalf
    decide +kernel
  exact few half

end MjFormatter.Verified
