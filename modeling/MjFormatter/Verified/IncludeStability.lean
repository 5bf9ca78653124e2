import MjFormatter.Verified.IncludeDirectives
import MjFormatter.Verified.JoinedLines

/-! # Includes that are ordered again

A second run finds the block of the first one as its first cluster.  It changes nothing when the block has no headings and
holds the items of each group once. -/

namespace MjFormatter.IncludeOrder

open Library Library.KeyedSorting Verified

/-! ## Entries of rows -/

/-- The entry that a tree has for a directive. -/
def entryOfDirective (directive : Directive) : Option IncludeEntry :=
  let kind := if directive.path.head? = some '<' then PathKind.systemLibString else PathKind.stringLiteral
  parseIncludeFromNode { startRow := 0, path := some { kind := kind, text := some directive.path } }

def readEntry (row : Text) : Option IncludeEntry := (readDirective row).bind entryOfDirective

/-- The entries of rows, with their places from the start on. -/
def rowEntries (start : Nat) (rows : List Text) : List (Nat × IncludeEntry) :=
  (rows.zipIdx start).filterMap fun item => (readEntry item.1).map fun entry => (item.2, entry)

theorem stripDelimiters_delimited (opening closing : Char) (inner : Text) :
    stripDelimiters opening closing (opening :: (inner ++ [closing])) = some inner := by
  rw [stripDelimiters, if_pos rfl, stripSuffixChar, if_pos List.getLast?_concat, List.dropLast_concat]

theorem CleanEntry.entryOfDirective {entry : IncludeEntry} (clean : CleanEntry entry) :
    entryOfDirective (plainDirective entry) = some entry := by
  obtain ⟨header, quote⟩ := entry
  have made : ∀ quote, entryOf quote header = some ⟨header, quote⟩ := by
    intro quote
    rw [entryOf, clean.trimmed, if_neg clean.filled]
  cases quote with
  | angle => exact (congrArg (Option.bind · _) (stripDelimiters_delimited '<' '>' header)).trans (made .angle)
  | double => exact (congrArg (Option.bind · _) (stripDelimiters_delimited '"' '"' header)).trans (made .double)

theorem CleanEntry.readEntry_includeLine {entry : IncludeEntry} (clean : CleanEntry entry) :
    readEntry (includeLine entry) = some entry := by
  rw [readEntry, clean.readDirective_includeLine, Option.bind_some, clean.entryOfDirective]

theorem map_includeLine_inj {items others : List IncludeEntry} (clean : ∀ item ∈ items, CleanEntry item)
    (cleanOthers : ∀ item ∈ others, CleanEntry item) : items.map includeLine = others.map includeLine ↔ items = others := by
  have reread : ∀ {items : List IncludeEntry}, (∀ item ∈ items, CleanEntry item) →
      (items.map includeLine).filterMap readEntry = items := by
    intro items clean
    rw [List.filterMap_map]
    exact (List.filterMap_congr fun item member => (clean item member).readEntry_includeLine).trans List.filterMap_some
  refine ⟨fun same => ?_, fun same => same ▸ rfl⟩
  rw [← reread clean, same, reread cleanOthers]

theorem map_snd_rowEntries (rows : List Text) : ∀ start, (rowEntries start rows).map Prod.snd = rows.filterMap readEntry := by
  induction rows with
  | nil => exact fun _ => rfl
  | cons row rows inductionHypothesis =>
    intro start
    rw [rowEntries, List.zipIdx_cons, List.filterMap_cons, List.filterMap_cons, ← rowEntries]
    cases readEntry row with
    | none => exact inductionHypothesis (start + 1)
    | some entry => exact congrArg (entry :: ·) (inductionHypothesis (start + 1))

theorem rowEntries_map_includeLine {items : List IncludeEntry} (clean : ∀ item ∈ items, CleanEntry item) :
    ∀ start, rowEntries start (items.map includeLine) = (List.range' start items.length).zip items := by
  induction items with
  | nil => exact fun _ => rfl
  | cons item items inductionHypothesis =>
    intro start
    obtain ⟨first, others⟩ := List.forall_mem_cons.mp clean
    rw [rowEntries, List.map_cons, List.zipIdx_cons, List.filterMap_cons, first.readEntry_includeLine, ← rowEntries,
      inductionHypothesis others, List.length_cons, List.range'_succ, List.zip_cons_cons]
    rfl

/-! ## Clusters -/

section
variable {collected : List (Nat × IncludeEntry)} {start other : Nat} {entries others : List IncludeEntry}
  {rest more : List (Nat × IncludeEntry)}

theorem FirstCluster.getElem?_eq (first : FirstCluster collected start entries rest) {idx : Nat} {entry : IncludeEntry}
    (found : entries[idx]? = some entry) : collected[idx]? = some (start + idx, entry) := by
  obtain ⟨bound, _⟩ := List.getElem?_eq_some_iff.mp found
  rw [first.collected_eq, List.getElem?_append_left (by rw [List.length_zip, List.length_range']; omega),
    List.getElem?_zip_eq_some]
  exact ⟨by rw [List.getElem?_range' bound, Nat.one_mul], found⟩

theorem FirstCluster.start_eq (first : FirstCluster collected start entries rest)
    (second : FirstCluster collected other others more) : start = other := by
  have here := first.getElem?_eq (List.getElem?_eq_getElem (List.length_pos_of_ne_nil first.filled))
  have there := second.getElem?_eq (List.getElem?_eq_getElem (List.length_pos_of_ne_nil second.filled))
  exact congrArg Prod.fst (Option.some.inj (here.symm.trans there))

theorem FirstCluster.length_le (first : FirstCluster collected start entries rest)
    (second : FirstCluster collected other others more) : others.length ≤ entries.length := by
  by_contra longer
  have there := second.getElem?_eq (List.getElem?_eq_getElem (Nat.lt_of_not_le longer))
  have zipped : ((List.range' start entries.length).zip entries).length = entries.length := by
    rw [List.length_zip, List.length_range', Nat.min_self]
  rw [first.collected_eq, List.getElem?_append_right (by rw [zipped])] at there
  have later := first.apart _ (List.mem_of_getElem? there)
  have starts := first.start_eq second
  dsimp only at later
  omega

theorem FirstCluster.entries_eq (first : FirstCluster collected start entries rest)
    (second : FirstCluster collected other others more) : entries = others := by
  have lengths : entries.length = others.length := Nat.le_antisymm (second.length_le first) (first.length_le second)
  refine List.ext_getElem lengths fun idx here there => ?_
  have left := first.getElem?_eq (List.getElem?_eq_getElem here)
  have right := second.getElem?_eq (List.getElem?_eq_getElem there)
  exact congrArg Prod.snd (Option.some.inj (left.symm.trans right))

end

/-! ## Symbols of a row -/

theorem mem_of_readClosed {opening closing : Char} {rest : Text} {directive : Directive}
    (read : readClosed opening closing rest = some directive) {symbol : Char} (member : symbol ∈ directive.path) :
    symbol = opening ∨ symbol ∈ rest := by
  rw [readClosed] at read
  split at read
  · next closed =>
    obtain rfl := Option.some.inj read
    rw [List.mem_cons, List.mem_append, List.mem_singleton] at member
    rcases member with first | inner | last
    · exact .inl first
    · exact .inr ((List.takeWhile_sublist _).mem inner)
    · exact .inr (last ▸ closed)
  · cases read

theorem mem_of_readPath {rest : Text} {directive : Directive} (read : readPath rest = some directive) {symbol : Char}
    (member : symbol ∈ directive.path) : symbol ∈ rest := by
  cases rest with
  | nil => cases read
  | cons first rest =>
    rw [readPath] at read
    split at read
    · next opens => exact List.mem_cons.mpr ((mem_of_readClosed read member).imp_left fun same => same.trans opens.symm)
    · split at read
      · next opens => exact List.mem_cons.mpr ((mem_of_readClosed read member).imp_left fun same => same.trans opens.symm)
      · cases read

/-- The path of a directive is made of symbols of its row. -/
theorem mem_of_readDirective {row : Text} {directive : Directive} (read : readDirective row = some directive) {symbol : Char}
    (member : symbol ∈ directive.path) : symbol ∈ row := by
  rw [readDirective] at read
  split at read
  · cases read
  · next first rest split =>
    have shorter := List.dropWhile_sublist (l := row) isBlankSymbol
    rw [split] at shorter
    split at read
    · rw [readInclude] at read
      split at read
      · have inPath := (List.dropWhile_sublist _).mem (mem_of_readPath read member)
        have inRest := (List.dropWhile_sublist _).mem (List.mem_of_mem_drop inPath)
        exact shorter.mem (List.mem_cons_of_mem _ inRest)
      · cases read
    · cases read

theorem mem_of_mem_plain {directive : Directive} {symbol : Char} (member : symbol ∈ directive.plain.path) :
    symbol ∈ directive.path := by
  rw [Directive.plain, List.mem_append, List.mem_append] at member
  rcases member with front | inner | last
  · exact List.mem_of_mem_take front
  · exact List.mem_of_mem_tail (List.mem_of_mem_dropLast (mem_of_mem_trim inner))
  · exact List.mem_of_mem_tail (List.mem_of_getLast? (Option.mem_toList.mp last))

theorem SpelledRow.mem_row {row : Text} {entry : IncludeEntry} (spelled : SpelledRow row entry) {symbol : Char}
    (member : symbol ∈ entry.header) : symbol ∈ row := by
  obtain ⟨directive, read, plain⟩ := spelled.reads
  refine mem_of_readDirective read (mem_of_mem_plain ?_)
  rw [plain]
  exact List.mem_cons_of_mem _ (List.mem_append_left _ member)

/-- A line that is written for an entry of a row of a text is a line. -/
theorem SpelledRow.includeLine_isLine {row : Text} {entry : IncludeEntry} (spelled : SpelledRow row entry) (clear : '\n' ∉ row) :
    '\n' ∉ includeLine entry ∧ includeLine entry ≠ [] ∧ (includeLine entry).getLast? ≠ some '\r' := by
  refine ⟨?_, IncludeOrderPolicy.includeLine_ne_nil entry, ?_⟩
  · have header : '\n' ∉ entry.header := fun member => clear (spelled.mem_row member)
    obtain ⟨header, quote⟩ := entry
    cases quote <;> simp [includeLine] <;> exact header
  · obtain ⟨header, quote⟩ := entry
    cases quote <;> simp only [includeLine, List.getLast?_concat] <;> decide

namespace IncludeOrderPolicy

variable {policy : IncludeOrderPolicy} {view : IncludeView}

/-- Where the work of a run comes from. -/
theorem reached_first {text : Text} {work : Reached} (found : reached view text = some work) :
    ∃ nodes rest, view.isAvailable = true ∧ view.tree = some nodes ∧
      FirstCluster (collectIncludeEntriesFromTree nodes (splitLinesCow text).length) work.start work.entries rest := by
  rw [reached] at found
  split at found
  · next available =>
    obtain ⟨nodes, tree, found⟩ := Option.bind_eq_some_iff.mp found
    obtain ⟨cluster, chosen, rfl⟩ := Option.map_eq_some_iff.mp found
    obtain ⟨start, entries, rest, first, taken, head, _, _⟩ := chosen_bounds chosen
    refine ⟨nodes, rest, available, tree, ?_⟩
    dsimp only
    rwa [head, taken]
  · cases found

theorem exists_reached {text : Text} {nodes : List IncludeNode} (available : view.isAvailable = true)
    (tree : view.tree = some nodes) (some : collectIncludeEntriesFromTree nodes (splitLinesCow text).length ≠ []) :
    ∃ work, reached view text = .some work := by
  rw [reached, if_pos available, tree, Option.bind_some]
  cases chosen : chooseIncludeCluster ((collectIncludeEntriesFromTree nodes (splitLinesCow text).length).map Prod.fst) with
  | none => exact absurd (List.map_eq_nil_iff.mp (chooseIncludeCluster_eq_none.mp chosen)) some
  | some cluster =>
    dsimp only
    rw [chosen]
    exact ⟨_, rfl⟩

/-! ## Settled texts -/

/-- The first cluster of a text stands as the policy writes it. -/
def Settled (policy : IncludeOrderPolicy) (view : IncludeView) (text : Text) : Prop :=
  ∀ work ∈ reached view text, work.rows.block = orderedBlock policy view work.entries

theorem unchanged_iff_settled {text : Text} (reads : ∀ nodes ∈ view.tree, ReadsRows nodes (splitLinesCow text)) :
    (apply policy view text).changed = false ↔ Settled policy view text := by
  rw [Settled, ← Bool.not_eq_true]
  cases found : reached view text with
  | none =>
    rw [apply_of_not_reached found]
    exact ⟨fun _ _ member => absurd member (Option.not_mem_none _), fun _ => Bool.false_ne_true⟩
  | some work =>
    rw [changed_iff found (placed_of_reached reads found), not_not]
    exact ⟨fun same other member => Option.some.inj member ▸ same, fun all => all work rfl⟩

/-! ## The items of a block, again -/

theorem mem_writtenItems {entries : List IncludeEntry} {groups : List IncludeGroup} {item : IncludeEntry} :
    item ∈ writtenItems policy view entries groups ↔ item ∈ entries ∧ classifyGroup policy view item ∈ groups := by
  rw [writtenItems, List.mem_flatMap]
  constructor
  · rintro ⟨group, named, member⟩
    obtain ⟨here, own⟩ := List.mem_filter.mp ((sortByKey_perm ..).mem_iff.mp member)
    exact ⟨here, of_decide_eq_true own ▸ named⟩
  · rintro ⟨here, named⟩
    exact ⟨_, named, (sortByKey_perm ..).mem_iff.mpr (List.mem_filter.mpr ⟨here, decide_eq_true rfl⟩)⟩

/-- Written items are written as they are when no group is named twice. -/
theorem writtenItems_written_iff (entries : List IncludeEntry) (groups : List IncludeGroup) :
    writtenItems policy view (writtenItems policy view entries groups) groups = writtenItems policy view entries groups ↔
      ∀ entry ∈ entries, groups.count (classifyGroup policy view entry) ≤ 1 := by
  constructor
  · intro same entry member
    by_cases named : classifyGroup policy view entry ∈ groups
    · have once := (@writtenItems_perm_iff policy view _ groups).mp (.of_eq same)
      exact (once entry (mem_writtenItems.mpr ⟨member, named⟩)).le
    · rw [List.count_eq_zero.mpr named]
      exact Nat.zero_le 1
  · intro atMost
    refine List.flatMap_congr fun group named => ?_
    have own : ∀ group, ∀ element ∈ sortItems view (itemsOf policy view entries group),
        classifyGroup policy view element = group := fun group element member =>
      of_decide_eq_true (List.mem_filter.mp ((sortByKey_perm ..).mem_iff.mp member)).2
    have again : itemsOf policy view (writtenItems policy view entries groups) group =
        (List.replicate (groups.count group) (sortItems view (itemsOf policy view entries group))).flatten :=
      Grouping.filter_flatMap_group (classifyGroup policy view) own groups group
    rw [again]
    cases items : itemsOf policy view entries group with
    | nil =>
      have none : sortItems view [] = [] := rfl
      rw [none, List.flatten_replicate_nil]
      rfl
    | cons item items' =>
      have member : item ∈ itemsOf policy view entries group := items ▸ List.mem_cons_self
      obtain ⟨here, own⟩ := List.mem_filter.mp member
      have once : groups.count group = 1 := by
        have limit := atMost item here
        rw [of_decide_eq_true own] at limit
        exact Nat.le_antisymm limit (List.count_pos_iff.mpr named)
      rw [once, List.replicate_one, List.flatten_singleton]
      exact sortByKey_sortByKey ..

/-! ## The second run -/

/-- What the policy is told about a text, with a parser of texts. -/
def viewOn (host : IncludeView) (parse : Text → Option (List IncludeNode)) (text : Text) : IncludeView :=
  { host with tree := parse text }

/-- The tree plays no part in the block. -/
theorem orderedBlock_viewOn (host : IncludeView) (parse : Text → Option (List IncludeNode)) (text : Text)
    (entries : List IncludeEntry) : orderedBlock policy (viewOn host parse text) entries = orderedBlock policy host entries := rfl

/-- The text after one run. -/
def ordered (policy : IncludeOrderPolicy) (host : IncludeView) (parse : Text → Option (List IncludeNode)) (text : Text) : Text :=
  (apply policy (viewOn host parse text) text).written text

/-- The parser finds the includes of the block that the policy has written and, behind them, those that stood behind the first
cluster. -/
structure Reparses (policy : IncludeOrderPolicy) (host : IncludeView) (parse : Text → Option (List IncludeNode)) (text : Text) :
    Prop where
  reads : ∀ nodes ∈ parse text, ReadsRows nodes (splitLinesCow text)
  again : ∀ nodes ∈ parse text, ∀ work ∈ reached (viewOn host parse text) text,
    work.rows.block ≠ orderedBlock policy host work.entries → ∃ found, parse (ordered policy host parse text) = some found ∧
      ReadsRows found (splitLinesCow (ordered policy host parse text)) ∧
      collectIncludeEntriesFromTree found (splitLinesCow (ordered policy host parse text)).length =
        rowEntries work.start (orderedBlock policy host work.entries) ++
          ((collectIncludeEntriesFromTree nodes (splitLinesCow text).length).drop work.entries.length).map fun item =>
            (item.1 - work.entries.length + (orderedBlock policy host work.entries).length, item.2)

/-- The text without the rows of the first cluster. -/
def withoutCluster (text : Text) (work : Reached) : Text :=
  joinLines (work.rows.front ++ work.rows.back) (detectLineEnding text).toList (endsWithFeed text)

/-- The first cluster stands as it is written; or the order names one of its groups, none of them twice, and there are no
headings; or it names none of them, and the text without the cluster is settled. -/
def StaysOrdered (policy : IncludeOrderPolicy) (host : IncludeView) (parse : Text → Option (List IncludeNode)) (text : Text) :
    Prop :=
  ∀ work ∈ reached (viewOn host parse text) text, work.rows.block ≠ orderedBlock policy host work.entries →
    if ∃ entry ∈ work.entries, classifyGroup policy host entry ∈ namedGroups policy host then
      policy.emitGroupComments = false ∧
        ∀ entry ∈ work.entries, (namedGroups policy host).count (classifyGroup policy host entry) ≤ 1
    else Settled policy (viewOn host parse (withoutCluster text work)) (withoutCluster text work)

theorem ordered_of_settled {host : IncludeView} {parse : Text → Option (List IncludeNode)} {text : Text}
    (unchanged : (apply policy (viewOn host parse text) text).changed = false) : ordered policy host parse text = text := by
  rw [ordered, PolicyResult.written, unchanged, if_neg Bool.false_ne_true]

section
variable {host : IncludeView} {parse : Text → Option (List IncludeNode)} {text : Text} {work : Reached}

theorem ordered_eq (found : reached (viewOn host parse text) text = some work) (placed : work.Placed (splitLinesCow text))
    (differs : work.rows.block ≠ orderedBlock policy host work.entries) : ordered policy host parse text =
      joinLines (work.rows.front ++ orderedBlock policy host work.entries ++ work.rows.back) (detectLineEnding text).toList
        (endsWithFeed text) := by
  have changed := (@changed_iff policy _ _ _ found placed).mpr differs
  rw [ordered, PolicyResult.written, if_pos changed, apply_eq_applyCluster found, orderedBlock_viewOn, if_neg differs]
  split
  · next none => exact absurd (placed.blockEdits_eq_nil_iff.mp none) differs
  · rw [writtenRows, found]
    rfl

theorem writtenItems_eq_nil_iff (entries : List IncludeEntry) (groups : List IncludeGroup) :
    writtenItems policy view entries groups = [] ↔ ¬∃ entry ∈ entries, classifyGroup policy view entry ∈ groups := by
  rw [List.eq_nil_iff_forall_not_mem]
  simp only [mem_writtenItems, not_exists]

theorem filterMap_readEntry {entries : List IncludeEntry} (clean : ∀ entry ∈ entries, CleanEntry entry) :
    (orderedBlock policy view entries).filterMap readEntry = writtenItems policy view entries (namedGroups policy view) := by
  have read : (directives (orderedBlock policy view entries)).filterMap entryOfDirective =
      (orderedBlock policy view entries).filterMap readEntry := List.filterMap_filterMap ..
  rw [← read, (blockOf_orderedBlock clean).directives_eq, List.filterMap_map]
  refine (List.filterMap_congr fun item member => ?_).trans List.filterMap_some
  exact (cleanEntries_written clean _ item member).entryOfDirective

/-- The entries behind the first cluster, where they stand after it has been written. -/
def shiftedRest (policy : IncludeOrderPolicy) (host : IncludeView) (work : Reached) (rest : List (Nat × IncludeEntry)) :
    List (Nat × IncludeEntry) :=
  rest.map fun item => (item.1 - work.entries.length + (orderedBlock policy host work.entries).length, item.2)

/-- A block of which something is written is found again. -/
theorem exists_second (again : Reparses policy host parse text) (found : reached (viewOn host parse text) text = some work)
    (placed : work.Placed (splitLinesCow text)) (differs : work.rows.block ≠ orderedBlock policy host work.entries)
    (named : ∃ entry ∈ work.entries, classifyGroup policy host entry ∈ namedGroups policy host) :
    ∃ next rest behind, reached (viewOn host parse (ordered policy host parse text)) (ordered policy host parse text) = some next ∧
      next.Placed (splitLinesCow (ordered policy host parse text)) ∧ (∀ item ∈ rest, work.start + work.entries.length < item.1) ∧
      FirstCluster (rowEntries work.start (orderedBlock policy host work.entries) ++ shiftedRest policy host work rest)
        next.start next.entries behind := by
  obtain ⟨nodes, rest, available, tree, first⟩ := reached_first found
  obtain ⟨nodes', tree', reads, collected⟩ := again.again nodes tree work found differs
  have dropped : (collectIncludeEntriesFromTree nodes (splitLinesCow text).length).drop work.entries.length = rest := by
    rw [first.collected_eq]
    exact List.drop_left' (by rw [List.length_zip, List.length_range', Nat.min_self])
  rw [dropped, ← shiftedRest] at collected
  have written : (rowEntries work.start (orderedBlock policy host work.entries)).map Prod.snd =
      writtenItems policy host work.entries (namedGroups policy host) := by
    rw [map_snd_rowEntries, filterMap_readEntry (cleanEntries placed.spelled)]
  have filled : rowEntries work.start (orderedBlock policy host work.entries) ≠ [] := by
    intro empty
    rw [empty] at written
    exact (writtenItems_eq_nil_iff _ _).mp written.symm named
  obtain ⟨next, here⟩ := @exists_reached (viewOn host parse (ordered policy host parse text)) _ _ available tree'
    (by rw [collected]; exact List.append_ne_nil_of_left_ne_nil filled _)
  obtain ⟨others, behind, _, same, second⟩ := reached_first here
  obtain rfl := Option.some.inj (tree'.symm.trans same)
  rw [collected] at second
  exact ⟨next, rest, behind, here, reached_placed tree' reads here, first.apart, second⟩

/-- A block without headings is the first cluster of the second run. -/
theorem second_of_quiet (again : Reparses policy host parse text) (found : reached (viewOn host parse text) text = some work)
    (placed : work.Placed (splitLinesCow text)) (differs : work.rows.block ≠ orderedBlock policy host work.entries)
    (named : ∃ entry ∈ work.entries, classifyGroup policy host entry ∈ namedGroups policy host)
    (quiet : policy.emitGroupComments = false) :
    ∃ next, reached (viewOn host parse (ordered policy host parse text)) (ordered policy host parse text) = some next ∧
      next.rows.block = (writtenItems policy host work.entries (namedGroups policy host)).map includeLine ∧
      next.entries = writtenItems policy host work.entries (namedGroups policy host) := by
  obtain ⟨next, rest, behind, here, second, apart, cluster⟩ := exists_second again found placed differs named
  have clean := cleanEntries placed.spelled
  have cleanItems := @cleanEntries_written policy host _ clean (namedGroups policy host)
  have block := (@blockOf_orderedBlock policy host _ clean).bare quiet
  have filled : writtenItems policy host work.entries (namedGroups policy host) ≠ [] := fun empty =>
    (writtenItems_eq_nil_iff _ _).mp empty named
  have again' : FirstCluster (rowEntries work.start (orderedBlock policy host work.entries) ++ shiftedRest policy host work rest)
      work.start (writtenItems policy host work.entries (namedGroups policy host)) (shiftedRest policy host work rest) := by
    refine ⟨filled, by rw [block, rowEntries_map_includeLine cleanItems], ?_⟩
    intro item member
    obtain ⟨old, oldMember, rfl⟩ := List.mem_map.mp member
    have later := apart old oldMember
    rw [block, List.length_map]
    dsimp only
    omega
  have starts := cluster.start_eq again'
  have entries := cluster.entries_eq again'
  refine ⟨next, here, ?_, entries⟩
  have lengths : next.rows.block.length = (writtenItems policy host work.entries (namedGroups policy host)).length := by
    rw [second.spelled.length_eq, entries]
  refine List.ext_getElem (by rw [lengths, List.length_map]) fun idx bound thereBound => ?_
  have lines : ∀ line ∈ orderedBlock policy host work.entries, '\n' ∉ line ∧ line ≠ [] ∧ line.getLast? ≠ some '\r' := by
    rw [block]
    intro line member
    obtain ⟨item, itemMember, rfl⟩ := List.mem_map.mp member
    obtain ⟨row, rowMember, spelled⟩ := exists_row_of_mem placed.spelled item (mem_writtenItems.mp itemMember).1
    refine spelled.includeLine_isLine (clear_splitLinesCow text row ?_)
    rw [placed.whole]
    exact List.mem_append_left _ (List.mem_append_right _ rowMember)
  have someBlock : work.rows.block ≠ [] := by
    intro empty
    have none := placed.spelled.length_eq
    rw [empty] at none
    exact placed.filled (List.length_eq_zero_iff.mp none.symm)
  have blockFilled : ∀ line ∈ work.rows.block, line ≠ [] := fun line member =>
    have ⟨_, spelled⟩ := exists_entry_of_mem placed.spelled line member
    spelled.ne_nil
  have line := splitLinesCow_spliced placed.whole blockFilled someBlock lines (by rw [block]; simpa using filled)
    (List.getElem?_eq_getElem (by rw [block]; exact thereBound))
  rw [← ordered_eq found placed differs, placed.front, ← starts, ← second.front, second.whole, List.append_assoc,
    List.getElem?_append_right (Nat.le_add_right _ _), Nat.add_sub_cancel_left, List.getElem?_append_left bound,
    List.getElem?_eq_getElem bound, Option.some.injEq] at line
  rw [line]
  simp only [block]

/-- Headings in front of a block are not there when the policy comes back to it. -/
theorem second_of_loud (again : Reparses policy host parse text) (found : reached (viewOn host parse text) text = some work)
    (placed : work.Placed (splitLinesCow text)) (differs : work.rows.block ≠ orderedBlock policy host work.entries)
    (named : ∃ entry ∈ work.entries, classifyGroup policy host entry ∈ namedGroups policy host)
    (loud : policy.emitGroupComments = true) :
    ∃ next, reached (viewOn host parse (ordered policy host parse text)) (ordered policy host parse text) = some next ∧
      next.rows.block ≠ orderedBlock policy host next.entries := by
  obtain ⟨next, rest, behind, here, second, _, cluster⟩ := exists_second again found placed differs named
  refine ⟨next, here, fun same => ?_⟩
  obtain ⟨entry, entries, whole⟩ := List.exists_cons_of_ne_nil second.filled
  have front := @FirstCluster.getElem?_eq _ _ _ _ cluster 0 _ (by rw [whole]; rfl)
  have written : (rowEntries work.start (orderedBlock policy host work.entries)).map Prod.snd =
      writtenItems policy host work.entries (namedGroups policy host) := by
    rw [map_snd_rowEntries, filterMap_readEntry (cleanEntries placed.spelled)]
  -- The first entry that is found is one that was written, so that its group is named.
  have own : classifyGroup policy host entry ∈ namedGroups policy host := by
    have filled : rowEntries work.start (orderedBlock policy host work.entries) ≠ [] := by
      intro empty
      rw [empty] at written
      exact (writtenItems_eq_nil_iff _ _).mp written.symm named
    rw [List.getElem?_append_left (List.length_pos_of_ne_nil filled)] at front
    have member := List.mem_map_of_mem (f := Prod.snd) (List.mem_of_getElem? front)
    rw [written] at member
    exact (mem_writtenItems.mp member).2
  have block := @blockOf_orderedBlock policy host _ (cleanEntries second.spelled)
  have spelled := second.spelled
  rw [whole] at spelled
  obtain ⟨row, rows, spelledRow, _, split⟩ := List.forall₂_cons_right_iff.mp spelled
  obtain ⟨directive, read, _⟩ := spelledRow.reads
  have silent := block.first loud row (by rw [← same, split]; rfl)
  rw [silent] at read
  cases read

/-- A second run changes nothing exactly when the text stays ordered. -/
theorem apply_idempotent_iff (policy : IncludeOrderPolicy) (host : IncludeView) (parse : Text → Option (List IncludeNode))
    (text : Text) (again : Reparses policy host parse text) :
    (apply policy (viewOn host parse (ordered policy host parse text)) (ordered policy host parse text)).changed = false ↔
      StaysOrdered policy host parse text := by
  by_cases unchanged : (apply policy (viewOn host parse text) text).changed = false
  · rw [ordered_of_settled unchanged]
    refine ⟨fun _ work member differs => ?_, fun _ => unchanged⟩
    exact absurd ((unchanged_iff_settled again.reads).mp unchanged work member) differs
  · cases found : reached (viewOn host parse text) text with
    | none => exact absurd (apply_of_not_reached found) unchanged
    | some work =>
      have placed := placed_of_reached again.reads found
      have differs := (changed_iff found placed).mp (Bool.not_eq_false _ ▸ unchanged)
      rw [orderedBlock_viewOn] at differs
      obtain ⟨nodes, _, _, tree, _⟩ := reached_first found
      obtain ⟨nodes', tree', reads, _⟩ := again.again nodes tree work found differs
      have readsAgain : ∀ nodes ∈ (viewOn host parse (ordered policy host parse text)).tree,
          ReadsRows nodes (splitLinesCow (ordered policy host parse text)) := fun other member =>
        Option.some.inj (tree'.symm.trans member) ▸ reads
      have stays : StaysOrdered policy host parse text ↔
          if ∃ entry ∈ work.entries, classifyGroup policy host entry ∈ namedGroups policy host then
            policy.emitGroupComments = false ∧
              ∀ entry ∈ work.entries, (namedGroups policy host).count (classifyGroup policy host entry) ≤ 1
          else Settled policy (viewOn host parse (withoutCluster text work)) (withoutCluster text work) := by
        rw [StaysOrdered, found]
        exact ⟨fun all => all work rfl differs, fun here other member _ => Option.some.inj member ▸ here⟩
      rw [unchanged_iff_settled readsAgain, stays]
      split
      · next named =>
        by_cases quiet : policy.emitGroupComments = false
        · obtain ⟨next, here, block, entries⟩ := second_of_quiet again found placed differs named quiet
          have cleanItems := @cleanEntries_written policy host _ (cleanEntries placed.spelled)
            (namedGroups policy host)
          have settled : Settled policy (viewOn host parse (ordered policy host parse text)) (ordered policy host parse text) ↔
              next.rows.block = orderedBlock policy host next.entries := by
            rw [Settled, here]
            exact ⟨fun all => all next rfl, fun same other member => Option.some.inj member ▸ same⟩
          rw [settled, block, entries, (blockOf_orderedBlock cleanItems).bare quiet, map_includeLine_inj cleanItems
            (cleanEntries_written cleanItems _), eq_comm, writtenItems_written_iff]
          exact ⟨fun atMost => ⟨quiet, atMost⟩, And.right⟩
        · obtain ⟨next, here, headed⟩ := second_of_loud again found placed differs named (Bool.not_eq_false _ ▸ quiet)
          exact ⟨fun settled => absurd (settled next here) headed, fun both => absurd both.1 quiet⟩
      · next unnamed =>
        have empty := (writtenItems_eq_nil_iff work.entries (namedGroups policy host)).mpr unnamed
        have block := (blockOf_orderedBlock (cleanEntries placed.spelled)).none empty
        rw [ordered_eq found placed differs, block, List.append_nil, ← withoutCluster]

end

/-! ## Headings that pile up -/

def headedPolicy : IncludeOrderPolicy := { defaultPolicy with emitGroupComments := true, separatorLength := 8 }

def singleInclude : Text := "#include <map>\n".toList

def headedInclude : Text := "//------\n// standard\n//------\n#include <map>\n".toList

/-- The includes of a text of plain rows. -/
def parsePlain (text : Text) : Option (List IncludeNode) :=
  some ((rowEntries 0 (splitLinesCow text)).map fun item => angleNode item.1 ('<' :: (item.2.header ++ ['>'])))

theorem headings_pile_up :
    ordered headedPolicy (viewOf []) parsePlain singleInclude = headedInclude ∧
      ordered headedPolicy (viewOf []) parsePlain headedInclude =
        "//------\n// standard\n//------\n".toList ++ headedInclude ∧
      (apply headedPolicy (viewOn (viewOf []) parsePlain headedInclude) headedInclude).changed ≠ false := by
  decide +kernel

theorem reparses_plain : Reparses defaultPolicy (viewOf []) parsePlain plainIncludes := by
  refine ⟨?_, ?_⟩
  · rintro nodes ⟨⟩
    rw [ReadsRows]
    decide +kernel
  · rintro nodes ⟨⟩ work ⟨⟩ _
    exact ⟨_, rfl, by rw [ReadsRows]; decide +kernel, by decide +kernel⟩

theorem apply_idempotent_plain :
    (apply defaultPolicy (viewOn (viewOf []) parsePlain (ordered defaultPolicy (viewOf []) parsePlain plainIncludes))
      (ordered defaultPolicy (viewOf []) parsePlain plainIncludes)).changed = false := by
  refine (apply_idempotent_iff defaultPolicy (viewOf []) parsePlain plainIncludes reparses_plain).mpr ?_
  rintro work ⟨⟩ _
  rw [if_pos (by decide +kernel)]
  exact ⟨rfl, by decide +kernel⟩

end IncludeOrderPolicy

end MjFormatter.IncludeOrder
