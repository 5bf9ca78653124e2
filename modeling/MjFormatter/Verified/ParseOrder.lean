import MjFormatter.Library.KeyedSorting
import MjFormatter.Verified.HeaderConsensus

/-! # Header parses in another order

What the vote decides does not depend on the order of the parses: which symbols are kept, where they stand, the offsets and
the places of diagnostics.  The other attributes of a symbol and the message of a diagnostic are those of the first parse
that has them. -/

namespace MjFormatter.Verified

open MjFormatter.Parser MjFormatter.Graph Library Library.Votes

variable {Details : Type}

/-! ## First reports -/

/-- The entries of a map that keeps the first value of every key. -/
def firstEntries {κ α : Type} [DecidableEq κ] (items : List (κ × α)) : List (κ × α) :=
  Merging.upsertAll Prod.fst (fun old _ => old) [] items

theorem firstEntries_concat {κ α : Type} [DecidableEq κ] (items : List (κ × α)) (key : κ) (value : α) :
    firstEntries (items ++ [(key, value)]) = orInsert (firstEntries items) key value := by
  rw [firstEntries, Merging.upsertAll, List.foldl_append]
  rfl

theorem find?_firstEntries {κ α : Type} [DecidableEq κ] (items : List (κ × α)) (key : κ) :
    ((firstEntries items).find? fun entry => entry.1 = key) = items.find? fun entry => entry.1 = key := by
  rw [firstEntries, Merging.find?_upsertAll_first, List.find?_nil, Option.none_or]

theorem nodup_firstEntries {κ α : Type} [DecidableEq κ] (items : List (κ × α)) : ((firstEntries items).map Prod.fst).Nodup :=
  Merging.nodup_upsertAll (fun _ _ => rfl) List.nodup_nil

theorem mem_firstEntries {κ α : Type} [DecidableEq κ] {items : List (κ × α)} {key : κ} :
    key ∈ (firstEntries items).map Prod.fst ↔ key ∈ items.map Prod.fst := by
  rw [firstEntries, Merging.mem_map_key_upsertAll fun _ _ => rfl]
  simp

def symbolEntry (symbol : ParsedDeclaration Details) : SemanticDeclaration × ParsedDeclaration Details :=
  (symbol.toSemanticDeclaration, symbol)

def messageEntry (entry : ClangDiagnosticEntry × Option String) : Option (DiagnosticPlace × String) :=
  entry.2.map fun message => (entry.1.place, message)

/-- The ballots after these symbols and these diagnostics. -/
structure Reported (ballots : Ballots Details) (symbols : List (ParsedDeclaration Details))
    (diagnostics : List (ClangDiagnosticEntry × Option String)) : Prop where
  counts : Counts ballots.symbolVotes (symbols.map (·.toSemanticDeclaration))
  exemplars : ballots.symbolExemplar = firstEntries (symbols.map symbolEntry)
  order : ballots.symbolOrder = ballots.symbolExemplar.map Prod.fst
  messages : ballots.diagMessages = firstEntries (diagnostics.filterMap messageEntry)

section
variable {ballots : Ballots Details} {symbols : List (ParsedDeclaration Details)}
  {diagnostics : List (ClangDiagnosticEntry × Option String)}

theorem reported_nil : Reported ({} : Ballots Details) [] [] := by
  constructor
  · exact counts_nil
  · rfl
  · rfl
  · rfl

theorem reported_addSymbol (reported : Reported ballots symbols diagnostics) (symbol : ParsedDeclaration Details) :
    Reported (ballots.addSymbol symbol) (symbols ++ [symbol]) diagnostics := by
  have counts := counts_castVote reported.counts symbol.toSemanticDeclaration
  have votes := votesFor_eq counts symbol.toSemanticDeclaration
  rw [List.count_append, List.count_singleton_self] at votes
  have exemplars : (ballots.addSymbol symbol).symbolExemplar = firstEntries ((symbols ++ [symbol]).map symbolEntry) := by
    rw [List.map_append]
    exact (congrArg (fun known => orInsert known _ _) reported.exemplars).trans (firstEntries_concat ..).symm
  constructor
  · rw [List.map_append]
    exact counts
  · exact exemplars
  · have keys : (ballots.addSymbol symbol).symbolExemplar.map Prod.fst =
        if symbol.toSemanticDeclaration ∈ ballots.symbolExemplar.map Prod.fst then ballots.symbolExemplar.map Prod.fst
        else ballots.symbolExemplar.map Prod.fst ++ [symbol.toSemanticDeclaration] :=
      Merging.map_key_upsert (fun _ _ => rfl) (symbol.toSemanticDeclaration, symbol) ballots.symbolExemplar
    have known : symbol.toSemanticDeclaration ∈ ballots.symbolExemplar.map Prod.fst ↔
        symbol.toSemanticDeclaration ∈ symbols.map (·.toSemanticDeclaration) := by
      rw [reported.exemplars, mem_firstEntries, List.map_map]
      rfl
    rw [keys]
    simp only [Ballots.addSymbol, votes, reported.order, known]
    -- The first vote for a symbol is its first report.
    by_cases listed : symbol.toSemanticDeclaration ∈ symbols.map (·.toSemanticDeclaration)
    · have positive := List.count_pos_iff.mpr listed
      rw [if_pos listed, if_neg (by omega)]
    · rw [if_neg listed, List.count_eq_zero_of_not_mem listed, if_pos rfl]
  · exact reported.messages

theorem reported_addSymbols (reported : Reported ballots symbols diagnostics) (listed : List (ParsedDeclaration Details)) :
    Reported (listed.foldl Ballots.addSymbol ballots) (symbols ++ listed) diagnostics := by
  induction listed generalizing ballots symbols with
  | nil => simpa using reported
  | cons symbol listed inductionHypothesis => simpa using inductionHypothesis (reported_addSymbol reported symbol)

theorem reported_addRenameOffsets (reported : Reported ballots symbols diagnostics)
    (listed : List (ClangSymbolKey × List Nat)) : Reported (listed.foldl Ballots.addRenameOffsets ballots) symbols diagnostics := by
  induction listed generalizing ballots with
  | nil => exact reported
  | cons entry listed inductionHypothesis =>
    exact inductionHypothesis ⟨reported.counts, reported.exemplars, reported.order, reported.messages⟩

theorem reported_addReferenceOffsets (reported : Reported ballots symbols diagnostics)
    (listed : List (ClangDeclKey × List Nat)) : Reported (listed.foldl Ballots.addReferenceOffsets ballots) symbols diagnostics := by
  induction listed generalizing ballots with
  | nil => exact reported
  | cons entry listed inductionHypothesis =>
    exact inductionHypothesis ⟨reported.counts, reported.exemplars, reported.order, reported.messages⟩

theorem reported_addDiagnostics (reported : Reported ballots symbols diagnostics)
    (listed : List (ClangDiagnosticEntry × Option String)) :
    Reported (listed.foldl Ballots.addDiagnostic ballots) symbols (diagnostics ++ listed) := by
  induction listed generalizing ballots diagnostics with
  | nil => simpa using reported
  | cons entry listed inductionHypothesis =>
    have messages : (ballots.addDiagnostic entry).diagMessages = firstEntries ((diagnostics ++ [entry]).filterMap messageEntry) := by
      rw [Ballots.addDiagnostic, List.filterMap_append]
      obtain ⟨found, message⟩ := entry
      cases message with
      | none =>
        rw [show [(found, (none : Option String))].filterMap messageEntry = [] from rfl, List.append_nil]
        exact reported.messages
      | some message =>
        exact (congrArg (fun known => orInsert known _ _) reported.messages).trans (firstEntries_concat ..).symm
    have step : Reported (ballots.addDiagnostic entry) symbols (diagnostics ++ [entry]) :=
      ⟨reported.counts, reported.exemplars, reported.order, messages⟩
    simpa using inductionHypothesis step

end

/-- The symbols that vote, in the order of the parses. -/
def reportedSymbols (parses : List (Parser.ClangParseResult Details)) : List (ParsedDeclaration Details) :=
  (eligible parses).flatMap (·.symbols)

def reportedDiagnostics (parses : List (Parser.ClangParseResult Details)) : List (ClangDiagnosticEntry × Option String) :=
  parses.flatMap Ballots.withMessages

theorem reported_all (parses : List (Parser.ClangParseResult Details)) :
    Reported (parses.foldl Ballots.addParse {}) (reportedSymbols parses) (reportedDiagnostics parses) := by
  induction parses using List.reverseRecOn with
  | nil => exact reported_nil
  | append_singleton parses parse inductionHypothesis =>
    rw [List.foldl_append, List.foldl_cons, List.foldl_nil, Ballots.addParse, reportedSymbols, reportedDiagnostics,
      List.flatMap_append, eligible, List.filter_append, List.flatMap_append, List.flatMap_singleton]
    refine reported_addDiagnostics ?_ _
    by_cases voter : headerSemanticVoteEligible parse = true
    · rw [if_pos voter, List.filter_singleton, voter, cond_true, List.flatMap_singleton]
      exact reported_addReferenceOffsets (reported_addRenameOffsets (reported_addSymbols inductionHypothesis _) _) _
    · rw [if_neg voter, List.filter_singleton, Bool.eq_false_iff.mpr voter, cond_false, List.flatMap_nil, List.append_nil]
      exact inductionHypothesis

/-! ## Symbols -/

/-- What symbols are put in order by. -/
def sortKey (symbol : SemanticDeclaration) : Nat × Nat × String := (symbol.line, symbol.column, symbol.name)

def compareKeys {β : Type} [Ord β] : Nat × Nat × β → Nat × Nat × β → Ordering :=
  compareLex (compareOn Prod.fst) (compareLex (compareOn (·.2.1)) (compareOn (·.2.2)))

instance {β : Type} [Ord β] [Std.TransOrd β] : Std.TransCmp (compareKeys (β := β)) := inferInstanceAs (Std.TransCmp (compareLex _ _))

instance {β : Type} [Ord β] [Std.TransOrd β] [Std.LawfulEqOrd β] : Std.LawfulEqCmp (compareKeys (β := β)) where
  eq_of_compare {left right} same := by
    rw [compareKeys, compareLex_eq_eq, compareLex_eq_eq] at same
    obtain ⟨first, second, third⟩ := same
    exact Prod.ext (Std.LawfulEqOrd.eq_of_compare first)
      (Prod.ext (Std.LawfulEqOrd.eq_of_compare second) (Std.LawfulEqOrd.eq_of_compare third))

/-- The exemplars of the symbols that are kept, in the order of their first reports. -/
def elected (ballots : Ballots Details) (threshold : Nat) : List (ParsedDeclaration Details) :=
  ballots.symbolOrder.filterMap fun key =>
    if threshold ≤ votesFor ballots.symbolVotes key then
      (ballots.symbolExemplar.find? fun entry => entry.1 = key).map Prod.snd
    else none

theorem keptSymbols_eq (ballots : Ballots Details) (threshold : Nat) : keptSymbols ballots threshold =
    KeyedSorting.sortByKey compareKeys (fun symbol => sortKey symbol.toSemanticDeclaration) (elected ballots threshold) := rfl

section
variable {ballots : Ballots Details} {symbols : List (ParsedDeclaration Details)}
  {diagnostics : List (ClangDiagnosticEntry × Option String)}

theorem Reported.exemplar_eq (reported : Reported ballots symbols diagnostics) (key : SemanticDeclaration) :
    (ballots.symbolExemplar.find? fun entry => entry.1 = key).map Prod.snd =
      symbols.find? fun symbol => symbol.toSemanticDeclaration = key := by
  rw [reported.exemplars, find?_firstEntries, List.find?_map, Option.map_map]
  exact Option.map_id'

/-- The exemplar of a symbol is its first report. -/
theorem Reported.elected_first (reported : Reported ballots symbols diagnostics) {threshold : Nat}
    {symbol : ParsedDeclaration Details} (member : symbol ∈ elected ballots threshold) :
    (symbols.find? fun other => other.toSemanticDeclaration = symbol.toSemanticDeclaration) = some symbol := by
  obtain ⟨key, _, found⟩ := List.mem_filterMap.mp member
  split at found
  · rw [reported.exemplar_eq] at found
    have same : symbol.toSemanticDeclaration = key := by simpa using List.find?_some found
    rwa [same]
  · cases found

theorem Reported.map_elected (reported : Reported ballots symbols diagnostics) (threshold : Nat) :
    (elected ballots threshold).map (·.toSemanticDeclaration) = ballots.symbolOrder.filter fun key =>
      threshold ≤ listings (symbols.map (·.toSemanticDeclaration)) key := by
  have known : ∀ key ∈ ballots.symbolOrder, ∃ symbol,
      (ballots.symbolExemplar.find? fun entry => entry.1 = key).map Prod.snd = some symbol ∧ symbol.toSemanticDeclaration = key := by
    intro key member
    rw [reported.order, reported.exemplars, mem_firstEntries, List.map_map] at member
    obtain ⟨symbol, listed, same⟩ := List.mem_map.mp member
    rw [reported.exemplar_eq]
    cases found : symbols.find? fun other => other.toSemanticDeclaration = key with
    | none => exact absurd same (by simpa [symbolEntry] using List.find?_eq_none.mp found symbol listed)
    | some first => exact ⟨first, rfl, by simpa using List.find?_some found⟩
  have votes := votesFor_eq reported.counts
  rw [elected]
  revert known
  generalize ballots.symbolOrder = order
  intro known
  induction order with
  | nil => rfl
  | cons key order inductionHypothesis =>
    have later := inductionHypothesis fun other member => known other (List.mem_cons_of_mem _ member)
    obtain ⟨symbol, found, same⟩ := known key List.mem_cons_self
    rw [List.filterMap_cons, List.filter_cons, votes key, listings]
    by_cases enough : threshold ≤ (symbols.map (·.toSemanticDeclaration)).count key
    · rw [if_pos enough, if_pos (decide_eq_true enough), found, List.map_cons, later, same]
    · rw [if_neg enough, if_neg (by simpa using enough), later]

/-- Reports of the same symbols, in whatever order, elect the same ones. -/
theorem Reported.elected_perm {ballots' : Ballots Details} {symbols' : List (ParsedDeclaration Details)}
    {diagnostics' : List (ClangDiagnosticEntry × Option String)} (reported : Reported ballots symbols diagnostics)
    (reported' : Reported ballots' symbols' diagnostics') (same : symbols.Perm symbols') (threshold : Nat) :
    ((elected ballots threshold).map (·.toSemanticDeclaration)).Perm
      ((elected ballots' threshold).map (·.toSemanticDeclaration)) := by
  have keys := same.map (·.toSemanticDeclaration)
  have nodup : ∀ {ballots : Ballots Details} {symbols diagnostics}, Reported ballots symbols diagnostics →
      ballots.symbolOrder.Nodup := fun reported => by
    rw [reported.order, reported.exemplars]
    exact nodup_firstEntries _
  have members : ∀ {ballots : Ballots Details} {symbols diagnostics}, Reported ballots symbols diagnostics →
      ∀ key, key ∈ ballots.symbolOrder ↔ key ∈ symbols.map (·.toSemanticDeclaration) := fun reported key => by
    rw [reported.order, reported.exemplars, mem_firstEntries, List.map_map]
    rfl
  rw [reported.map_elected, reported'.map_elected,
    List.perm_ext_iff_of_nodup ((nodup reported).filter _) ((nodup reported').filter _)]
  intro key
  rw [List.mem_filter, List.mem_filter, members reported, members reported', keys.mem_iff, listings_perm keys]

end

/-! ## Diagnostics -/

def entryAt (place : DiagnosticPlace) : ClangDiagnosticEntry :=
  { line := place.1, column := place.2.1, severity := place.2.2, warningOption := "", fixIts := [] }

def placesKept (votes : List (DiagnosticPlace × Nat)) (threshold : Nat) : List DiagnosticPlace :=
  (votes.filter fun entry => threshold ≤ entry.2).map Prod.fst

theorem keptDiagnostics_eq (votes : List (DiagnosticPlace × Nat)) (threshold : Nat) : keptDiagnostics votes threshold =
    KeyedSorting.sortByKey compareKeys ClangDiagnosticEntry.place ((placesKept votes threshold).map entryAt) := by
  have entries : (votes.filterMap fun entry =>
      if threshold ≤ entry.2 then some (entryAt entry.1) else none) = (placesKept votes threshold).map entryAt := by
    induction votes with
    | nil => rfl
    | cons entry votes inductionHypothesis =>
      rw [List.filterMap_cons, inductionHypothesis, placesKept, placesKept, List.filter_cons]
      by_cases enough : threshold ≤ entry.2
      · rw [if_pos enough, if_pos (decide_eq_true enough)]
        rfl
      · rw [if_neg enough, if_neg (by simpa using enough)]
  rw [← entries]
  rfl

theorem map_place_entryAt (places : List DiagnosticPlace) : (places.map entryAt).map ClangDiagnosticEntry.place = places := by
  rw [List.map_map]
  exact List.map_id' places

theorem placesKept_perm {votes votes' : List (DiagnosticPlace × Nat)} {items items' : List DiagnosticPlace}
    (counts : Counts votes items) (counts' : Counts votes' items') (same : items.Perm items') {threshold : Nat}
    (positive : 0 < threshold) : (placesKept votes threshold).Perm (placesKept votes' threshold) := by
  have nodup : ∀ {votes : List (DiagnosticPlace × Nat)} {items}, Counts votes items → (placesKept votes threshold).Nodup :=
    fun counts => counts.nodup.sublist ((List.filter_sublist).map _)
  have members : ∀ {votes : List (DiagnosticPlace × Nat)} {items}, Counts votes items →
      ∀ place, place ∈ placesKept votes threshold ↔ threshold ≤ listings items place := fun counts place => by
    rw [← exists_votes_iff counts positive, placesKept, List.mem_map]
    simp only [List.mem_filter, decide_eq_true_eq, and_assoc]
  rw [List.perm_ext_iff_of_nodup (nodup counts) (nodup counts')]
  intro place
  rw [members counts, members counts', listings_perm same]

theorem keptDiagnostics_eq_of_perm {votes votes' : List (DiagnosticPlace × Nat)} {items items' : List DiagnosticPlace}
    (counts : Counts votes items) (counts' : Counts votes' items') (same : items.Perm items') {threshold : Nat}
    (positive : 0 < threshold) : keptDiagnostics votes threshold = keptDiagnostics votes' threshold := by
  have kept : (((placesKept votes threshold).map entryAt).map ClangDiagnosticEntry.place).Perm
      (((placesKept votes' threshold).map entryAt).map ClangDiagnosticEntry.place) := by
    rw [map_place_entryAt, map_place_entryAt]
    exact placesKept_perm counts counts' same positive
  have places := KeyedSorting.map_sortByKey_eq compareKeys ClangDiagnosticEntry.place kept
  -- An entry says nothing but its place.
  have entries : ∀ votes, (keptDiagnostics votes threshold).map (fun entry => entryAt entry.place) = keptDiagnostics votes threshold := by
    intro votes
    refine (List.map_congr_left fun entry member => ?_).trans (List.map_id' _)
    rw [keptDiagnostics_eq, (KeyedSorting.sortByKey_perm ..).mem_iff, List.mem_map] at member
    obtain ⟨place, _, rfl⟩ := member
    rfl
  rw [← entries votes, ← entries votes', keptDiagnostics_eq, keptDiagnostics_eq]
  have mapped := congrArg (List.map entryAt) places
  rwa [List.map_map, List.map_map] at mapped

/-! ## Offsets -/

section
variable {κ : Type} [DecidableEq κ]

/-- What a table of offsets has under a key. -/
def offsetsUnder (table : List (κ × List Nat)) (key : κ) : Option (List Nat) :=
  (table.find? fun entry => entry.1 = key).map Prod.snd

theorem nodup_keptOffsets (votes : List ((κ × Nat) × Nat)) (threshold : Nat) :
    ((keptOffsets votes threshold).map Prod.fst).Nodup := by
  have keepsKey : ∀ old new : κ × List Nat, Prod.fst (old.1, old.2 ++ new.2) = old.1 := fun _ _ => rfl
  have pushed : ∀ (items : List (κ × Nat)) (table : List (κ × List Nat)), (table.map Prod.fst).Nodup →
      ((items.foldl pushOffset table).map Prod.fst).Nodup := by
    intro items
    induction items with
    | nil => exact fun _ nodup => nodup
    | cons item items inductionHypothesis =>
      intro table nodup
      refine inductionHypothesis _ ?_
      rw [pushOffset]
      exact Merging.nodup_upsert keepsKey nodup
  rw [keptOffsets, List.map_map]
  exact pushed _ [] List.nodup_nil

theorem sorted_keptOffsets {votes : List ((κ × Nat) × Nat)} {threshold : Nat} {entry : κ × List Nat}
    (member : entry ∈ keptOffsets votes threshold) : entry.2.Pairwise (· < ·) := by
  obtain ⟨pushed, _, rfl⟩ := List.mem_map.mp member
  exact KeyedSorting.pairwise_lt_dedup_insertionSort pushed.2

theorem offsetsUnder_eq_some {table : List (κ × List Nat)} (nodup : (table.map Prod.fst).Nodup) {entry : κ × List Nat}
    (member : entry ∈ table) : offsetsUnder table entry.1 = some entry.2 := by
  induction table with
  | nil => cases member
  | cons first rest inductionHypothesis =>
    rw [List.map_cons, List.nodup_cons] at nodup
    rw [offsetsUnder, List.find?_cons]
    cases member with
    | head => simp
    | tail _ member =>
      have other : first.1 ≠ entry.1 := fun same => nodup.1 (same ▸ List.mem_map_of_mem member)
      rw [decide_eq_false other]
      exact inductionHypothesis nodup.2 member

theorem pushed_nonempty {votes : List ((κ × Nat) × Nat)} {threshold : Nat} {entry : κ × List Nat}
    (member : entry ∈ keptOffsets votes threshold) : entry.2 ≠ [] := by
  have pushed : ∀ (items : List (κ × Nat)) (table : List (κ × List Nat)), (∀ entry ∈ table, entry.2 ≠ []) →
      ∀ entry ∈ items.foldl pushOffset table, entry.2 ≠ [] := by
    intro items
    induction items with
    | nil => exact fun _ before => before
    | cons item items inductionHypothesis =>
      refine fun table before => inductionHypothesis _ (Merging.forall_upsert before (List.cons_ne_nil _ _) ?_)
      intro old _ _ empty
      rw [List.append_eq_nil_iff] at empty
      exact absurd empty.2 (List.cons_ne_nil _ _)
  obtain ⟨old, found, rfl⟩ := List.mem_map.mp member
  have some := pushed _ [] (fun _ none => absurd none List.not_mem_nil) old found
  obtain ⟨offset, first⟩ := List.exists_mem_of_ne_nil _ some
  exact List.ne_nil_of_mem (List.mem_dedup.mpr ((List.mem_insertionSort _).mpr first))

/-- A table of offsets is known from the offsets that it lists. -/
theorem offsetsUnder_keptOffsets {votes votes' : List ((κ × Nat) × Nat)} {threshold : Nat}
    (same : ∀ item, ListsOffset (keptOffsets votes threshold) item ↔ ListsOffset (keptOffsets votes' threshold) item) (key : κ) :
    offsetsUnder (keptOffsets votes threshold) key = offsetsUnder (keptOffsets votes' threshold) key := by
  have oneWay : ∀ {votes votes' : List ((κ × Nat) × Nat)},
      (∀ item, ListsOffset (keptOffsets votes threshold) item ↔ ListsOffset (keptOffsets votes' threshold) item) →
      ∀ offsets, offsetsUnder (keptOffsets votes threshold) key = some offsets →
        offsetsUnder (keptOffsets votes' threshold) key = some offsets := by
    intro votes votes' same offsets found
    rw [offsetsUnder, Option.map_eq_some_iff] at found
    obtain ⟨entry, first, rfl⟩ := found
    have member := List.mem_of_find?_eq_some first
    have ofKey : entry.1 = key := by simpa using List.find?_some first
    obtain ⟨offset, inEntry⟩ := List.exists_mem_of_ne_nil _ (pushed_nonempty member)
    obtain ⟨other, otherMember, otherKey, _⟩ := (same (key, offset)).mp ⟨entry, member, ofKey, inEntry⟩
    have whole : entry.2 = other.2 := by
      refine (sorted_keptOffsets member).eq_of_mem_iff (sorted_keptOffsets otherMember) fun offset => ?_
      have listed : ∀ {votes : List ((κ × Nat) × Nat)} {entry : κ × List Nat}, entry ∈ keptOffsets votes threshold →
          entry.1 = key → (offset ∈ entry.2 ↔ ListsOffset (keptOffsets votes threshold) (key, offset)) := by
        intro votes entry member ofKey
        constructor
        · exact fun inEntry => ⟨entry, member, ofKey, inEntry⟩
        · rintro ⟨again, againMember, againKey, inAgain⟩
          have first := offsetsUnder_eq_some (nodup_keptOffsets votes threshold) member
          have second := offsetsUnder_eq_some (nodup_keptOffsets votes threshold) againMember
          rw [ofKey] at first
          rw [show again.1 = key from againKey, first, Option.some.injEq] at second
          rwa [second]
      rw [listed member ofKey, listed otherMember otherKey, same]
    have atKey := offsetsUnder_eq_some (nodup_keptOffsets votes' threshold) otherMember
    rwa [show other.1 = key from otherKey, ← whole] at atKey
  refine Option.ext fun offsets => ⟨oneWay same offsets, oneWay (fun item => (same item).symm) offsets⟩

theorem offsetsUnder_eq_of_perm {votes votes' : List ((κ × Nat) × Nat)} {items items' : List (κ × Nat)}
    (counts : Counts votes items) (counts' : Counts votes' items') (same : items.Perm items') {threshold : Nat}
    (positive : 0 < threshold) (key : κ) :
    offsetsUnder (keptOffsets votes threshold) key = offsetsUnder (keptOffsets votes' threshold) key := by
  refine offsetsUnder_keptOffsets (fun item => ?_) key
  rw [listsOffset_keptOffsets counts positive, listsOffset_keptOffsets counts' positive, listings_perm same]

end

/-! ## The merge of a permutation -/

/-- The first parse that votes and has the symbol gives its other attributes. -/
def firstReport (parses : List (Parser.ClangParseResult Details)) (key : SemanticDeclaration) : Option (ParsedDeclaration Details) :=
  (reportedSymbols parses).find? fun symbol => symbol.toSemanticDeclaration = key

/-- The first parse with a message at the place gives it. -/
def firstMessage (parses : List (Parser.ClangParseResult Details)) (place : DiagnosticPlace) : Option String :=
  (((reportedDiagnostics parses).filterMap messageEntry).find? fun entry => entry.1 = place).map Prod.snd

/-- Results with the same verdicts: symbols that are put in order by one key may change places. -/
structure SameVerdicts (result result' : Parser.ClangParseResult Details) : Prop where
  success : result.success = result'.success
  symbols : (result.symbols.map (·.toSemanticDeclaration)).Perm (result'.symbols.map (·.toSemanticDeclaration))
  order : result.symbols.map (fun symbol => sortKey symbol.toSemanticDeclaration) =
    result'.symbols.map fun symbol => sortKey symbol.toSemanticDeclaration
  renames : ∀ key, offsetsUnder result.renameOffsetsBySymbol key = offsetsUnder result'.renameOffsetsBySymbol key
  references : ∀ key, offsetsUnder result.referenceOffsetsByDecl key = offsetsUnder result'.referenceOffsetsByDecl key
  diagnosticEntries : result.diagnosticEntries = result'.diagnosticEntries
  diagnosticCounts : result.diagnosticCounts = result'.diagnosticCounts

/-- What the vote does not decide is as the first of the parses says. -/
structure FirstSaid (parses : List (Parser.ClangParseResult Details)) (result : Parser.ClangParseResult Details) : Prop where
  symbols : ∀ symbol ∈ result.symbols, firstReport parses symbol.toSemanticDeclaration = some symbol
  messages : result.diagnostics = result.diagnosticEntries.map fun entry =>
    match firstMessage parses entry.place with
    | some message => s!"header-consensus: {message}"
    | none => s!"header-consensus:{entry.line}:{entry.column}:{entry.severity}"

/-- Where the parses agree, it does not matter which one is the first. -/
structure SameWhereAgreed (parses parses' : List (Parser.ClangParseResult Details)) : Prop where
  symbol : ∀ key, (∀ first ∈ reportedSymbols parses, ∀ second ∈ reportedSymbols parses,
    first.toSemanticDeclaration = key → second.toSemanticDeclaration = key → first = second) →
      firstReport parses key = firstReport parses' key
  message : ∀ place, (∀ first ∈ (reportedDiagnostics parses).filterMap messageEntry,
    ∀ second ∈ (reportedDiagnostics parses).filterMap messageEntry, first.1 = place → second.1 = place → first = second) →
      firstMessage parses place = firstMessage parses' place

theorem firstSaid_merge (parses : List (Parser.ClangParseResult Details)) : FirstSaid parses (mergeHeaderResults parses) := by
  have reported := reported_all parses
  constructor
  · intro symbol member
    rw [mergeHeaderResults, keptSymbols_eq, (KeyedSorting.sortByKey_perm ..).mem_iff] at member
    exact reported.elected_first member
  · refine List.map_congr_left fun entry _ => ?_
    rw [consensusMessage, reported.messages, find?_firstEntries, firstMessage]
    cases ((reportedDiagnostics parses).filterMap messageEntry).find? fun known => known.1 = entry.place <;> rfl

theorem find?_eq_of_agreed {α : Type} {items items' : List α} (same : items.Perm items') {p : α → Bool}
    (agreed : ∀ first ∈ items, ∀ second ∈ items, p first = true → p second = true → first = second) :
    items.find? p = items'.find? p := by
  cases found : items.find? p with
  | none =>
    rw [eq_comm, List.find?_eq_none]
    exact fun item member => List.find?_eq_none.mp found item (same.mem_iff.mpr member)
  | some item =>
    cases found' : items'.find? p with
    | none => exact absurd (List.find?_some found) (List.find?_eq_none.mp found' item (same.mem_iff.mp (List.mem_of_find?_eq_some found)))
    | some item' =>
      rw [agreed item (List.mem_of_find?_eq_some found) item' (same.mem_iff.mpr (List.mem_of_find?_eq_some found'))
        (List.find?_some found) (List.find?_some found')]

section
variable {parses parses' : List (Parser.ClangParseResult Details)} (same : parses.Perm parses')

include same

theorem sameWhereAgreed : SameWhereAgreed parses parses' := by
  constructor
  · intro key agreed
    refine find?_eq_of_agreed ((same.filter _).flatMap_right _) fun first firstMember second secondMember firstKey secondKey => ?_
    exact agreed first firstMember second secondMember (of_decide_eq_true firstKey) (of_decide_eq_true secondKey)
  · intro place agreed
    refine congrArg (Option.map Prod.snd) (find?_eq_of_agreed ((same.flatMap_right _).filterMap _)
      fun first firstMember second secondMember firstPlace secondPlace => ?_)
    exact agreed first firstMember second secondMember (of_decide_eq_true firstPlace) (of_decide_eq_true secondPlace)

theorem sameVerdicts : SameVerdicts (mergeHeaderResults parses) (mergeHeaderResults parses') := by
  have collected := collected_all parses
  have collected' := collected_all parses'
  have voters : (parses.filter headerSemanticVoteEligible).Perm (parses'.filter headerSemanticVoteEligible) := same.filter _
  have positive := strictMajorityThreshold_pos (parses.filter headerSemanticVoteEligible).length
  have electedSame := (reported_all parses).elected_perm (reported_all parses') (voters.flatMap_right _)
    (strictMajorityThreshold (parses.filter headerSemanticVoteEligible).length)
  have entries : (mergeHeaderResults parses).diagnosticEntries = (mergeHeaderResults parses').diagnosticEntries := by
    have kept := keptDiagnostics_eq_of_perm collected.diagnosticCounts collected'.diagnosticCounts (same.flatMap_right _)
      (strictMajorityThreshold_pos parses.length)
    simpa only [mergeHeaderResults, same.length_eq] using kept
  have empties : parses.isEmpty = parses'.isEmpty := by
    rw [Bool.eq_iff_iff, List.isEmpty_iff_length_eq_zero, List.isEmpty_iff_length_eq_zero, same.length_eq]
  constructor
  · simp only [mergeHeaderResults, same.length_eq, (same.filter _).length_eq, empties]
  · simp only [mergeHeaderResults, keptSymbols_eq, ← voters.length_eq]
    exact ((KeyedSorting.sortByKey_perm ..).map _).trans (electedSame.trans ((KeyedSorting.sortByKey_perm ..).map _).symm)
  · simp only [mergeHeaderResults, keptSymbols_eq, ← voters.length_eq]
    refine KeyedSorting.map_sortByKey_eq _ _ ?_
    have keys := electedSame.map sortKey
    rwa [List.map_map, List.map_map] at keys
  · intro key
    simp only [mergeHeaderResults, ← voters.length_eq]
    exact offsetsUnder_eq_of_perm collected.renameCounts collected'.renameCounts (voters.flatMap_right _) positive key
  · intro key
    simp only [mergeHeaderResults, ← voters.length_eq]
    exact offsetsUnder_eq_of_perm collected.referenceCounts collected'.referenceCounts (voters.flatMap_right _) positive key
  · exact entries
  · exact congrArg (fun entries : List ClangDiagnosticEntry => (entries.map (·.severity)).foldl DiagnosticCounts.bump {}) entries

end

theorem mergeHeaderResults_perm {parses parses' : List (Parser.ClangParseResult Details)} (same : parses.Perm parses') :
    SameVerdicts (mergeHeaderResults parses) (mergeHeaderResults parses') ∧
      FirstSaid parses (mergeHeaderResults parses) ∧ FirstSaid parses' (mergeHeaderResults parses') ∧
        SameWhereAgreed parses parses' :=
  ⟨sameVerdicts same, firstSaid_merge parses, firstSaid_merge parses', sameWhereAgreed same⟩

def runMethod (usr : String) (virtual : Bool) : ParsedDeclaration Bool :=
  { name := "run", kind := 8, line := 2, column := 6, usr := some usr, scopeUsr := none, details := virtual }

/-- A parse with one warning. -/
def warnedParse (symbols : List (ParsedDeclaration Bool)) (message : String) : Parser.ClangParseResult Bool where
  success := true
  diagnostics := [message]
  symbols := symbols
  diagnosticCounts := { warning := 1 }
  diagnosticEntries := [⟨2, 6, 2, "-Wunused", []⟩]
  renameOffsetsBySymbol := []
  referenceOffsetsByDecl := []
  counted := rfl
  entered := rfl

def firstParse : Parser.ClangParseResult Bool := warnedParse [runMethod "c:run" true, runMethod "c:other" true] "unused run"

def secondParse : Parser.ClangParseResult Bool := warnedParse [runMethod "c:other" false, runMethod "c:run" false] "unused other"

theorem swappedParses_verdicts :
    SameVerdicts (mergeHeaderResults [firstParse, secondParse]) (mergeHeaderResults [secondParse, firstParse]) ∧
      FirstSaid [firstParse, secondParse] (mergeHeaderResults [firstParse, secondParse]) ∧
        FirstSaid [secondParse, firstParse] (mergeHeaderResults [secondParse, firstParse]) ∧
          SameWhereAgreed [firstParse, secondParse] [secondParse, firstParse] :=
  mergeHeaderResults_perm (List.Perm.swap _ _ _)

/-- The attributes and the message are those of the parse that comes first, and symbols of one place and one name stand in
the order of their first reports. -/
theorem swappedParses_differ :
    let merged := mergeHeaderResults [firstParse, secondParse]
    let swapped := mergeHeaderResults [secondParse, firstParse]
    merged.symbols.map (fun symbol => (symbol.usr, symbol.details)) = [(some "c:run", true), (some "c:other", true)] ∧
      swapped.symbols.map (fun symbol => (symbol.usr, symbol.details)) = [(some "c:other", false), (some "c:run", false)] ∧
      merged.diagnostics = ["header-consensus: unused run"] ∧ swapped.diagnostics = ["header-consensus: unused other"] := by
  decide +kernel

end MjFormatter.Verified
