import MjFormatter.Library.Grouping
import MjFormatter.Policy.IncludeOrder
import MjFormatter.Verified.TrimmedLines

/-! # The includes of a text that is ordered

The policy writes the includes of its first cluster from their entries.  They stay the same includes when each of their groups
stands once in the order of the configuration and when the rows say nothing besides the paths. -/

namespace MjFormatter.IncludeOrder

open Library Library.KeyedSorting Verified

/-! ## Rows of a cluster -/

/-- A cluster is a run of rows, and the first row behind it does not go on with the run. -/
theorem clustersFrom_head (start : Nat) : ∀ (rows : List Nat) (count : Nat), 0 < count →
    ∃ more rest, rows = List.range' (start + count) more ++ rest ∧ rest.head? ≠ some (start + count + more) ∧
      (clustersFrom (List.range' start count) rows).head? = some (List.range' start (count + more))
  | [], count, _ => ⟨0, [], rfl, by simp, rfl⟩
  | idx :: rows, count, filled => by
    have last : (List.range' start count).getLast?.getD idx = start + count - 1 := by
      rw [List.getLast?_range', if_neg (Nat.ne_of_gt filled), Option.getD_some]
    rw [clustersFrom, last]
    split
    · next follows =>
      have next : idx = start + count := by omega
      obtain ⟨more, rest, whole, apart, head⟩ := clustersFrom_head start rows (count + 1) (Nat.succ_pos _)
      refine ⟨more + 1, rest, ?_, ?_, ?_⟩
      · rw [whole, next, List.range'_succ, List.cons_append, Nat.add_assoc]
      · rwa [show start + count + (more + 1) = start + (count + 1) + more by omega]
      · rw [next, ← List.range'_1_concat, head, show count + (more + 1) = count + 1 + more by omega]
    · next gap => exact ⟨0, idx :: rows, rfl, by simpa using fun same => gap (by omega), rfl⟩

theorem chooseIncludeCluster_eq {rows cluster : List Nat} (chosen : chooseIncludeCluster rows = some cluster) :
    ∃ start count rest, 0 < count ∧ cluster = List.range' start count ∧ rows = cluster ++ rest ∧
      rest.head? ≠ some (start + count) := by
  match rows with
  | [] => cases chosen
  | start :: rows =>
    obtain ⟨more, rest, whole, apart, head⟩ := clustersFrom_head start rows 1 Nat.one_pos
    rw [chooseIncludeCluster] at chosen
    obtain rfl := Option.some.inj (head.symm.trans chosen)
    refine ⟨start, 1 + more, rest, by omega, rfl, ?_, by rwa [← Nat.add_assoc]⟩
    rw [whole, Nat.add_comm 1 more, List.range'_succ, List.cons_append]

theorem chooseIncludeCluster_eq_none {rows : List Nat} : chooseIncludeCluster rows = none ↔ rows = [] := by
  cases rows with
  | nil => exact ⟨fun _ => rfl, fun _ => rfl⟩
  | cons start rows =>
    obtain ⟨more, rest, _, _, head⟩ := clustersFrom_head start rows 1 Nat.one_pos
    rw [chooseIncludeCluster]
    refine ⟨fun none => ?_, fun none => absurd none (List.cons_ne_nil _ _)⟩
    exact absurd (head.symm.trans none) (Option.some_ne_none _)

/-! ## Entries of a tree -/

/-- The entries stand in rows that increase. -/
theorem pairwise_collected (nodes : List IncludeNode) (lineCount : Nat) :
    ((collectIncludeEntriesFromTree nodes lineCount).map Prod.fst).Pairwise (· < ·) := by
  rw [collectIncludeEntriesFromTree, List.pairwise_map]
  refine pairwise_lt_destutter Prod.fst ?_
  exact (List.pairwise_map.mp (pairwise_sortByKey compare Prod.fst _)).imp fun order => Nat.isLE_compare.mp order

theorem mem_collected {nodes : List IncludeNode} {lineCount : Nat} {item : Nat × IncludeEntry}
    (member : item ∈ collectIncludeEntriesFromTree nodes lineCount) :
    ∃ node ∈ nodes, node.startRow = item.1 ∧ item.1 < lineCount ∧ parseIncludeFromNode node = some item.2 := by
  have old := (sortByKey_perm _ _ _).mem_iff.mp ((List.destutter_sublist _ _).mem member)
  obtain ⟨node, here, found⟩ := List.mem_filterMap.mp old
  split at found
  · next inside =>
    obtain ⟨entry, parsed, rfl⟩ := Option.map_eq_some_iff.mp found
    exact ⟨node, here, rfl, inside, parsed⟩
  · cases found

theorem lookup_of_mem {items : List (Nat × IncludeEntry)} (increasing : (items.map Prod.fst).Pairwise (· < ·))
    {item : Nat × IncludeEntry} (member : item ∈ items) : items.lookup item.1 = some item.2 := by
  induction items with
  | nil => cases member
  | cons first items inductionHypothesis =>
    obtain ⟨below, increasing⟩ := List.pairwise_cons.mp increasing
    cases member with
    | head => exact List.lookup_cons_self
    | tail _ member =>
      have other : (item.1 == first.1) = false := beq_false_of_ne (Nat.ne_of_gt (below _ (List.mem_map_of_mem member)))
      rw [List.lookup_cons, other]
      exact inductionHypothesis increasing member

/-- The entries of the first cluster stand in rows that follow each other, and the next entry does not follow them. -/
structure FirstCluster (collected : List (Nat × IncludeEntry)) (start : Nat) (entries : List IncludeEntry)
    (rest : List (Nat × IncludeEntry)) : Prop where
  filled : entries ≠ []
  collected_eq : collected = (List.range' start entries.length).zip entries ++ rest
  apart : ∀ item ∈ rest, start + entries.length < item.1

theorem FirstCluster.mem {collected : List (Nat × IncludeEntry)} {start : Nat} {entries : List IncludeEntry}
    {rest : List (Nat × IncludeEntry)} (cluster : FirstCluster collected start entries rest) {idx : Nat} {entry : IncludeEntry}
    (found : entries[idx]? = some entry) : (start + idx, entry) ∈ collected := by
  obtain ⟨bound, _⟩ := List.getElem?_eq_some_iff.mp found
  rw [cluster.collected_eq]
  refine List.mem_append_left _ (List.mem_of_getElem? (i := idx) ?_)
  rw [List.getElem?_zip_eq_some]
  exact ⟨by rw [List.getElem?_range' bound, Nat.one_mul], found⟩

theorem exists_firstCluster {collected : List (Nat × IncludeEntry)} (increasing : (collected.map Prod.fst).Pairwise (· < ·))
    {cluster : List Nat} (chosen : chooseIncludeCluster (collected.map Prod.fst) = some cluster) :
    ∃ start entries rest, FirstCluster collected start entries rest ∧ cluster = List.range' start entries.length ∧
      IncludeOrderPolicy.clusterEntries collected cluster = entries := by
  obtain ⟨start, count, behind, filled, rfl, whole, gap⟩ := chooseIncludeCluster_eq chosen
  have keys : (collected.take count).map Prod.fst = List.range' start count := by
    rw [List.map_take, whole, List.take_left' List.length_range']
  have behindKeys : (collected.drop count).map Prod.fst = behind := by
    rw [List.map_drop, whole, List.drop_left' List.length_range']
  have lengths : (collected.take count).length = count := by
    rw [← List.length_map (f := Prod.fst), keys, List.length_range']
  refine ⟨start, (collected.take count).map Prod.snd, collected.drop count, ⟨?_, ?_, ?_⟩, ?_, ?_⟩
  · exact List.ne_nil_of_length_pos (by rw [List.length_map, lengths]; exact filled)
  · rw [List.length_map, lengths, ← keys, List.zip_map', List.map_id'', List.take_append_drop]
    exact fun _ => rfl
  · intro item member
    rw [List.length_map, lengths]
    have later : item.1 ∈ behind := behindKeys ▸ List.mem_map_of_mem member
    rw [whole] at increasing
    obtain ⟨_, upward, across⟩ := List.pairwise_append.mp increasing
    have last : start + (count - 1) ∈ List.range' start count := List.mem_range'_1.mpr (by omega)
    cases behind with
    | nil => cases later
    | cons first behind =>
      have ahead := across _ last first List.mem_cons_self
      have other : first ≠ start + count := fun same => gap (by rw [same]; rfl)
      cases later with
      | head => omega
      | tail _ later =>
        have behindFirst := (List.pairwise_cons.mp upward).1 _ later
        omega
  · rw [List.length_map, lengths]
  · rw [IncludeOrderPolicy.clusterEntries, ← keys, List.filterMap_map]
    have found : ∀ item ∈ collected.take count, (fun item => collected.lookup item.1) item = some item.2 :=
      fun item member => lookup_of_mem increasing (List.mem_of_mem_take member)
    rw [← List.filterMap_eq_map]
    exact List.filterMap_congr found

/-! ## Directives -/

/-- An include as a row has it: the path with its delimiters, and what stands behind it. -/
structure Directive where
  path : Text
  trailing : Text
  deriving DecidableEq, Repr

def isBlankSymbol (symbol : Char) : Bool := symbol = ' ' || symbol = '\t'

def readClosed (opening closing : Char) (rest : Text) : Option Directive :=
  if closing ∈ rest then
    some
      { path := opening :: (rest.takeWhile (· ≠ closing) ++ [closing])
        trailing := trim ((rest.dropWhile (· ≠ closing)).drop 1) }
  else none

def readPath : Text → Option Directive
  | [] => none
  | symbol :: rest =>
    if symbol = '<' then readClosed '<' '>' rest
    else if symbol = '"' then readClosed '"' '"' rest
    else none

def readInclude (rest : Text) : Option Directive :=
  if "include".toList.isPrefixOf rest then readPath ((rest.drop 7).dropWhile isBlankSymbol) else none

/-- The include directive in a row, if the row is one. -/
def readDirective (row : Text) : Option Directive :=
  match row.dropWhile isBlankSymbol with
  | [] => none
  | symbol :: rest => if symbol = '#' then readInclude (rest.dropWhile isBlankSymbol) else none

def directives (rows : List Text) : List Directive := rows.filterMap readDirective

/-- The rows that are no include directives. -/
def otherRows (rows : List Text) : List Text := rows.filter fun row => (readDirective row).isNone

def openingOf : IncludeQuote → Char
  | .angle => '<'
  | .double => '"'

def closingOf : IncludeQuote → Char
  | .angle => '>'
  | .double => '"'

/-- The directive that the policy writes for an entry. -/
def plainDirective (entry : IncludeEntry) : Directive where
  path := openingOf entry.quote :: (entry.header ++ [closingOf entry.quote])
  trailing := []

/-- A directive without what stands behind its path and without the blanks at the ends of the path. -/
def Directive.plain (directive : Directive) : Directive where
  path := directive.path.take 1 ++ (trim directive.path.tail.dropLast ++ directive.path.tail.getLast?.toList)
  trailing := []

theorem Directive.plain_delimited (opening closing : Char) (inner trailing : Text) :
    (⟨opening :: (inner ++ [closing]), trailing⟩ : Directive).plain = ⟨opening :: (trim inner ++ [closing]), []⟩ := by
  simp [Directive.plain]

theorem plainDirective_injective : Function.Injective plainDirective := by
  intro first second same
  obtain ⟨first, firstQuote⟩ := first
  obtain ⟨second, secondQuote⟩ := second
  obtain ⟨opening, rest⟩ := List.cons.inj (congrArg Directive.path same)
  cases firstQuote <;> cases secondQuote
  · exact congrArg (IncludeEntry.mk · _) (List.append_cancel_right rest)
  · exact absurd opening (show '<' ≠ '"' by decide)
  · exact absurd opening (show '"' ≠ '<' by decide)
  · exact congrArg (IncludeEntry.mk · _) (List.append_cancel_right rest)

/-- An entry that can be written and read again. -/
structure CleanEntry (entry : IncludeEntry) : Prop where
  clear : closingOf entry.quote ∉ entry.header
  trimmed : trim entry.header = entry.header
  filled : entry.header ≠ []

theorem CleanEntry.plain_plainDirective {entry : IncludeEntry} (clean : CleanEntry entry) :
    (plainDirective entry).plain = plainDirective entry := by
  rw [plainDirective, Directive.plain_delimited, clean.trimmed]

theorem readClosed_delimited (opening : Char) {closing : Char} {inner : Text} (clear : closing ∉ inner) :
    readClosed opening closing (inner ++ [closing]) = some ⟨opening :: (inner ++ [closing]), []⟩ := by
  have apart : ∀ symbol ∈ inner, decide (symbol ≠ closing) = true := by
    intro symbol member
    exact decide_eq_true fun same => clear (same ▸ member)
  rw [readClosed, if_pos (List.mem_append_right _ List.mem_cons_self), List.takeWhile_append_of_pos apart,
    List.dropWhile_append_of_pos apart, List.takeWhile_cons_of_neg (by simp), List.dropWhile_cons_of_neg (by simp),
    List.append_nil]
  rfl

theorem CleanEntry.readDirective_includeLine {entry : IncludeEntry} (clean : CleanEntry entry) :
    readDirective (includeLine entry) = some (plainDirective entry) := by
  obtain ⟨header, quote⟩ := entry
  cases quote with
  | angle => exact readClosed_delimited '<' clean.clear
  | double => exact readClosed_delimited '"' clean.clear

theorem readClosed_eq_some {opening closing : Char} {rest : Text} {directive : Directive}
    (read : readClosed opening closing rest = some directive) :
    ∃ inner, closing ∉ inner ∧ directive.path = opening :: (inner ++ [closing]) := by
  rw [readClosed] at read
  split at read
  · obtain rfl := Option.some.inj read
    exact ⟨_, fun member => by simpa using List.mem_takeWhile_imp member, rfl⟩
  · cases read

/-- A path that is read is delimited as that of an entry. -/
theorem readDirective_path {row : Text} {directive : Directive} (read : readDirective row = some directive) :
    ∃ quote inner, closingOf quote ∉ inner ∧ directive.path = openingOf quote :: (inner ++ [closingOf quote]) := by
  rw [readDirective] at read
  split at read
  · cases read
  · rw [readInclude, readPath.eq_def] at read
    split at read
    · split at read
      · split at read
        · cases read
        · split at read
          · exact ⟨.angle, readClosed_eq_some read⟩
          · split at read
            · exact ⟨.double, readClosed_eq_some read⟩
            · cases read
      · cases read
    · cases read

theorem readDirective_ne_nil {row : Text} {directive : Directive} (read : readDirective row = some directive) : row ≠ [] := by
  rintro rfl
  cases read

theorem readDirective_slashes (rest : Text) : readDirective (slashes ++ rest) = none := rfl

/-! ## Rows that a tree has read -/

/-- The rows of the includes of a tree are the directives that the tree has found. -/
def ReadsRows (nodes : List IncludeNode) (lines : List Text) : Prop :=
  ∀ node ∈ nodes, (parseIncludeFromNode node).isSome → ∀ row ∈ lines[node.startRow]?,
    (readDirective row).map Directive.path = node.path.bind PathNode.text

theorem stripDelimiters_eq_some {opening closing : Char} {text inner : Text}
    (stripped : stripDelimiters opening closing text = some inner) : text = opening :: (inner ++ [closing]) := by
  cases text with
  | nil => cases stripped
  | cons symbol rest =>
    rw [stripDelimiters] at stripped
    split at stripped
    · next first =>
      rw [stripSuffixChar] at stripped
      split at stripped
      · next last =>
        obtain rfl := Option.some.inj stripped
        obtain ⟨front, rfl⟩ := List.getLast?_eq_some_iff.mp last
        rw [first, List.dropLast_concat]
      · cases stripped
    · cases stripped

theorem parseIncludeFromNode_eq_some {node : IncludeNode} {entry : IncludeEntry} (parsed : parseIncludeFromNode node = some entry) :
    ∃ inner, node.path.bind PathNode.text = some (openingOf entry.quote :: (inner ++ [closingOf entry.quote])) ∧
      entry.header = trim inner ∧ entry.header ≠ [] := by
  obtain ⟨pathNode, path, parsed⟩ := Option.bind_eq_some_iff.mp parsed
  obtain ⟨text, here, parsed⟩ := Option.bind_eq_some_iff.mp parsed
  rw [path, Option.bind_some, here]
  split at parsed
  all_goals
    try
      obtain ⟨inner, stripped, made⟩ := Option.bind_eq_some_iff.mp parsed
      rw [entryOf] at made
      split at made
      · cases made
      · next shown =>
        obtain rfl := Option.some.inj made
        exact ⟨inner, congrArg some (stripDelimiters_eq_some stripped), rfl, shown⟩
  cases parsed

/-- A row that stands for an entry. -/
structure SpelledRow (row : Text) (entry : IncludeEntry) : Prop where
  clean : CleanEntry entry
  reads : ∃ directive, readDirective row = some directive ∧ directive.plain = plainDirective entry

theorem ReadsRows.spelledRow {nodes : List IncludeNode} {lines : List Text} (reads : ReadsRows nodes lines) {node : IncludeNode}
    (member : node ∈ nodes) {entry : IncludeEntry} (parsed : parseIncludeFromNode node = some entry) {row : Text}
    (here : lines[node.startRow]? = some row) : SpelledRow row entry := by
  obtain ⟨inner, spelled, header, shown⟩ := parseIncludeFromNode_eq_some parsed
  have path := reads node member (by rw [parsed]; rfl) row here
  obtain ⟨directive, read, same⟩ := Option.map_eq_some_iff.mp (path.trans spelled)
  obtain ⟨quote, other, clear, shape⟩ := readDirective_path read
  obtain ⟨opening, rest⟩ := List.cons.inj (shape.symm.trans same)
  have quotes : quote = entry.quote := by
    revert opening
    cases quote <;> cases entry.quote <;> decide
  rw [quotes] at clear rest
  obtain rfl := List.append_cancel_right rest
  refine ⟨⟨?_, ?_, shown⟩, directive, read, ?_⟩
  · exact fun inside => clear (mem_of_mem_trim (header ▸ inside))
  · rw [header, trim_trim]
  · rw [show directive = ⟨directive.path, directive.trailing⟩ from rfl, same, Directive.plain_delimited, plainDirective, header]

/-- The rows of a block and the entries that they stand for. -/
theorem map_plain_directives {rows : List Text} {entries : List IncludeEntry} (spelled : List.Forall₂ SpelledRow rows entries) :
    (directives rows).map Directive.plain = entries.map plainDirective := by
  induction spelled with
  | nil => rfl
  | cons here _ inductionHypothesis =>
    obtain ⟨directive, read, plain⟩ := here.reads
    rw [directives, List.filterMap_cons_some read, List.map_cons, List.map_cons, plain, ← directives, inductionHypothesis]

theorem exists_entry_of_mem {rows : List Text} {entries : List IncludeEntry} (spelled : List.Forall₂ SpelledRow rows entries) :
    ∀ row ∈ rows, ∃ entry, SpelledRow row entry := by
  induction spelled with
  | nil => exact fun _ member => absurd member List.not_mem_nil
  | cons here _ inductionHypothesis => exact List.forall_mem_cons.mpr ⟨⟨_, here⟩, inductionHypothesis⟩

theorem exists_row_of_mem {rows : List Text} {entries : List IncludeEntry} (spelled : List.Forall₂ SpelledRow rows entries) :
    ∀ entry ∈ entries, ∃ row ∈ rows, SpelledRow row entry := by
  induction spelled with
  | nil => exact fun _ member => absurd member List.not_mem_nil
  | cons here _ inductionHypothesis =>
    refine List.forall_mem_cons.mpr ⟨⟨_, List.mem_cons_self, here⟩, fun entry member => ?_⟩
    obtain ⟨row, rowMember, there⟩ := inductionHypothesis entry member
    exact ⟨row, List.mem_cons_of_mem _ rowMember, there⟩

theorem cleanEntries {rows : List Text} {entries : List IncludeEntry} (spelled : List.Forall₂ SpelledRow rows entries) :
    ∀ entry ∈ entries, CleanEntry entry := fun entry member =>
  have ⟨_, _, here⟩ := exists_row_of_mem spelled entry member
  here.clean

theorem SpelledRow.ne_nil {row : Text} {entry : IncludeEntry} (spelled : SpelledRow row entry) : row ≠ [] :=
  have ⟨_, read, _⟩ := spelled.reads
  readDirective_ne_nil read

theorem otherRows_eq_nil {rows : List Text} {entries : List IncludeEntry} (spelled : List.Forall₂ SpelledRow rows entries) :
    otherRows rows = [] := by
  rw [otherRows, List.filter_eq_nil_iff]
  intro row member
  obtain ⟨entry, here⟩ := exists_entry_of_mem spelled row member
  obtain ⟨directive, read, _⟩ := here.reads
  rw [read]
  exact Bool.false_ne_true

/-! ## The block that the policy writes -/

namespace IncludeOrderPolicy

variable (policy : IncludeOrderPolicy) (view : IncludeView)

/-- The groups that the order names, as often as it does. -/
def namedGroups : List IncludeGroup :=
  (orderForPath policy view).filterMap fun group => IncludeGroup.fromStr (view.lowercase (trim group))

def writtenItems (entries : List IncludeEntry) (groups : List IncludeGroup) : List IncludeEntry :=
  groups.flatMap fun group => sortItems view (itemsOf policy view entries group)

/-- Rows that are written for items, with or without headings. -/
structure BlockOf (items : List IncludeEntry) (rows : List Text) : Prop where
  directives_eq : directives rows = items.map plainDirective
  bare : policy.emitGroupComments = false → rows = items.map includeLine
  none : items = [] → rows = []
  first : policy.emitGroupComments = true → ∀ row ∈ rows.head?, readDirective row = Option.none
  last : ∀ row ∈ rows.getLast?, row ≠ []

theorem BlockOf.append {policy : IncludeOrderPolicy} {items others : List IncludeEntry} {rows more : List Text}
    (front : BlockOf policy items rows) (back : BlockOf policy others more) : BlockOf policy (items ++ others) (rows ++ more) where
  directives_eq := by
    rw [directives, List.filterMap_append, ← directives, ← directives, front.directives_eq, back.directives_eq, List.map_append]
  bare quiet := by rw [front.bare quiet, back.bare quiet, List.map_append]
  none empty := by rw [front.none (List.append_eq_nil_iff.mp empty).1, back.none (List.append_eq_nil_iff.mp empty).2]; rfl
  first speaks row member := by
    cases rows with
    | nil => exact back.first speaks row member
    | cons _ _ => exact front.first speaks row member
  last row member := by
    rw [List.getLast?_append] at member
    cases ends : more.getLast? with
    | none =>
      rw [ends, Option.none_or] at member
      exact front.last row member
    | some final =>
      rw [ends, Option.some_or] at member
      exact back.last row (ends ▸ member)

theorem includeLine_ne_nil (item : IncludeEntry) : includeLine item ≠ [] := by
  obtain ⟨header, quote⟩ := item
  cases quote <;> exact List.cons_ne_nil _ _

theorem blockOf_nil : BlockOf policy [] [] where
  directives_eq := rfl
  bare _ := rfl
  none _ := rfl
  first _ _ member := nomatch member
  last _ member := nomatch member

variable {policy view}

/-- The rows of one group: a heading without directives, when there are headings, and the includes. -/
theorem blockOf_group {items : List IncludeEntry} (filled : items ≠ []) (clean : ∀ item ∈ items, CleanEntry item)
    {heading : List Text} (others : directives heading = []) (speaks : policy.emitGroupComments = true → heading ≠ [])
    (quiet : policy.emitGroupComments = false → heading = []) : BlockOf policy items (heading ++ items.map includeLine) where
  directives_eq := by
    rw [directives, List.filterMap_append, ← directives, others, List.nil_append, List.filterMap_map,
      ← List.filterMap_eq_map]
    exact List.filterMap_congr fun item member => (clean item member).readDirective_includeLine
  bare silent := by rw [quiet silent, List.nil_append]
  none empty := absurd empty filled
  first loud row member := by
    cases heading with
    | nil => exact absurd rfl (speaks loud)
    | cons title heading =>
      obtain rfl := Option.some.inj member
      exact List.filterMap_eq_nil_iff.mp others title List.mem_cons_self
  last row member := by
    have ends := List.mem_of_getLast? member
    rw [List.getLast?_append_of_ne_nil _ (by simpa using filled)] at member
    obtain ⟨item, _, rfl⟩ := List.mem_map.mp (List.mem_of_getLast? member)
    exact includeLine_ne_nil item

theorem directives_headingLines (group : Text) (items : List IncludeEntry) :
    directives (headingLines policy view group items) = [] := rfl

/-- One turn of the loop adds the rows of the group that it names. -/
theorem emitGroup_blockOf {entries : List IncludeEntry} (clean : ∀ entry ∈ entries, CleanEntry entry) (state : EmitState)
    (group : Text) : ∃ rows, (emitGroup policy view entries state group).orderedBlock = state.orderedBlock ++ rows ∧
      BlockOf policy (writtenItems policy view entries (IncludeGroup.fromStr (view.lowercase (trim group))).toList) rows := by
  rw [emitGroup]
  cases IncludeGroup.fromStr (view.lowercase (trim group)) with
  | none => exact ⟨[], (List.append_nil _).symm, blockOf_nil policy⟩
  | some includeGroup =>
    have written : writtenItems policy view entries [includeGroup] = sortItems view (itemsOf policy view entries includeGroup) :=
      List.append_nil _
    rw [Option.toList_some, written]
    dsimp only
    split
    · next empty =>
      rw [empty]
      exact ⟨[], (List.append_nil _).symm, blockOf_nil policy⟩
    · next filled =>
      have sorted := sortByKey_perm compare (fun item => view.lowercase item.header) (itemsOf policy view entries includeGroup)
      refine ⟨_, List.append_assoc .., blockOf_group ?_ ?_ ?_ ?_ ?_⟩
      · exact fun empty => filled (List.nil_perm.mp (empty ▸ sorted))
      · exact fun item member => clean item (List.mem_of_mem_filter (sorted.mem_iff.mp member))
      · split
        · split <;> rfl
        · rfl
      · intro speaks
        rw [if_pos speaks]
        exact List.append_ne_nil_of_right_ne_nil _ (List.cons_ne_nil _ _)
      · exact fun quiet => if_neg (by rw [quiet]; exact Bool.false_ne_true)

theorem blockOf_orderedBlock {entries : List IncludeEntry} (clean : ∀ entry ∈ entries, CleanEntry entry) :
    BlockOf policy (writtenItems policy view entries (namedGroups policy view)) (orderedBlock policy view entries) := by
  have turns : ∀ (order : List Text) (state : EmitState), ∃ rows,
      (order.foldl (emitGroup policy view entries) state).orderedBlock = state.orderedBlock ++ rows ∧
        BlockOf policy (writtenItems policy view entries
          (order.flatMap fun group => (IncludeGroup.fromStr (view.lowercase (trim group))).toList)) rows := by
    intro order
    induction order with
    | nil => exact fun state => ⟨[], (List.append_nil _).symm, blockOf_nil policy⟩
    | cons group order inductionHypothesis =>
      intro state
      obtain ⟨rows, added, block⟩ := emitGroup_blockOf clean state group
      obtain ⟨more, later, blocks⟩ := inductionHypothesis (emitGroup policy view entries state group)
      refine ⟨rows ++ more, by rw [List.foldl_cons, later, added, List.append_assoc], ?_⟩
      have split := block.append blocks
      rw [writtenItems, writtenItems, ← List.flatMap_append] at split
      rwa [List.flatMap_cons, writtenItems]
  obtain ⟨rows, added, block⟩ := turns (orderForPath policy view) ⟨[], false⟩
  rw [List.nil_append] at added
  rwa [orderedBlock, added, namedGroups, List.filterMap_eq_flatMap_toList]

/-! ## What stays -/

/-- The items that are written are those of the cluster when each group of one is named once. -/
theorem writtenItems_perm_iff (entries : List IncludeEntry) (groups : List IncludeGroup) :
    (writtenItems policy view entries groups).Perm entries ↔
      ∀ entry ∈ entries, groups.count (classifyGroup policy view entry) = 1 := by
  rw [← Grouping.flatMap_filter_perm_iff]
  have unsorted : (writtenItems policy view entries groups).Perm
      (groups.flatMap fun group => entries.filter fun other => classifyGroup policy view other = group) :=
    List.Perm.flatMap_left _ fun group _ => sortByKey_perm ..
  exact ⟨unsorted.symm.trans, unsorted.trans⟩

theorem cleanEntries_written {entries : List IncludeEntry} (clean : ∀ entry ∈ entries, CleanEntry entry)
    (groups : List IncludeGroup) : ∀ item ∈ writtenItems policy view entries groups, CleanEntry item := by
  intro item member
  obtain ⟨group, _, member⟩ := List.mem_flatMap.mp member
  exact clean item (List.mem_of_mem_filter ((sortByKey_perm ..).mem_iff.mp member))

/-- The block has the directives that were there when each group is named once and nothing stood behind the paths. -/
theorem directives_orderedBlock_perm_iff {block : List Text} {entries : List IncludeEntry}
    (spelled : List.Forall₂ SpelledRow block entries) :
    (directives (orderedBlock policy view entries)).Perm (directives block) ↔
      (∀ entry ∈ entries, (namedGroups policy view).count (classifyGroup policy view entry) = 1) ∧
        ∀ directive ∈ directives block, directive.plain = directive := by
  have clean := cleanEntries spelled
  have plain := map_plain_directives spelled
  rw [(blockOf_orderedBlock clean).directives_eq, ← writtenItems_perm_iff]
  have writtenClean := @cleanEntries_written policy view _ clean (namedGroups policy view)
  constructor
  · intro same
    have plainSame := same.map Directive.plain
    rw [List.map_map, plain] at plainSame
    have steady : (writtenItems policy view entries (namedGroups policy view)).map (Directive.plain ∘ plainDirective) =
        (writtenItems policy view entries (namedGroups policy view)).map plainDirective :=
      List.map_congr_left fun item member => (writtenClean item member).plain_plainDirective
    rw [steady] at plainSame
    refine ⟨(List.map_perm_map_iff plainDirective_injective).mp plainSame, fun directive member => ?_⟩
    obtain ⟨item, here, rfl⟩ := List.mem_map.mp (same.mem_iff.mpr member)
    exact (writtenClean item here).plain_plainDirective
  · rintro ⟨items, steady⟩
    have unchanged : (directives block).map Directive.plain = directives block :=
      (List.map_congr_left steady).trans (List.map_id _)
    rw [← unchanged, plain]
    exact items.map plainDirective

/-! ## The rows of the result -/

variable (policy view)

/-- What the policy works on, once nothing keeps it from that: where the first cluster starts, the rows and the entries. -/
structure Reached where
  start : Nat
  rows : ClusterRows
  entries : List IncludeEntry

def reached (view : IncludeView) (text : Text) : Option Reached :=
  if view.isAvailable then
    view.tree.bind fun nodes =>
      let lines := splitLinesCow text
      let includeEntries := collectIncludeEntriesFromTree nodes lines.length
      (chooseIncludeCluster (includeEntries.map Prod.fst)).map fun cluster =>
        { start := cluster.head?.getD 0
          rows := clusterRows lines cluster
          entries := clusterEntries includeEntries cluster }
  else none

/-- The rows that the text has after the policy. -/
def writtenRows (text : Text) : List Text :=
  match reached view text with
  | none => splitLinesCow text
  | some work => work.rows.front ++ orderedBlock policy view work.entries ++ work.rows.back

/-- How the rows and the entries of the first cluster lie in the text. -/
structure Reached.Placed (lines : List Text) (work : Reached) : Prop where
  whole : lines = work.rows.front ++ work.rows.block ++ work.rows.back
  front : work.rows.front.length = work.start
  spelled : List.Forall₂ SpelledRow work.rows.block work.entries
  filled : work.entries ≠ []

variable {view}

/-- The rows that a chosen cluster takes are rows of the text. -/
theorem chosen_bounds {nodes : List IncludeNode} {lineCount : Nat} {cluster : List Nat}
    (chosen : chooseIncludeCluster ((collectIncludeEntriesFromTree nodes lineCount).map Prod.fst) = some cluster) :
    ∃ start entries rest, FirstCluster (collectIncludeEntriesFromTree nodes lineCount) start entries rest ∧
      clusterEntries (collectIncludeEntriesFromTree nodes lineCount) cluster = entries ∧ cluster.head?.getD 0 = start ∧
      cluster.getLast?.getD 0 + 1 = start + entries.length ∧ start + entries.length ≤ lineCount := by
  obtain ⟨start, entries, rest, first, rfl, taken⟩ := exists_firstCluster (pairwise_collected nodes lineCount) chosen
  have filled : 0 < entries.length := List.length_pos_of_ne_nil first.filled
  refine ⟨start, entries, rest, first, taken, ?_, ?_, ?_⟩
  · rw [List.head?_range', if_neg (Nat.ne_of_gt filled), Option.getD_some]
  · rw [List.getLast?_range', if_neg (Nat.ne_of_gt filled), Option.getD_some]
    omega
  · obtain ⟨_, _, _, below, _⟩ := mem_collected (first.mem (List.getElem?_eq_getElem (Nat.sub_lt filled Nat.one_pos)))
    omega

theorem reached_placed {nodes : List IncludeNode} (tree : view.tree = some nodes) {text : Text}
    (reads : ReadsRows nodes (splitLinesCow text)) {work : Reached} (found : reached view text = some work) :
    work.Placed (splitLinesCow text) := by
  rw [reached, tree] at found
  split at found
  · obtain ⟨cluster, chosen, rfl⟩ := Option.map_eq_some_iff.mp found
    generalize splitLinesCow text = lines at reads chosen
    obtain ⟨start, entries, rest, first, taken, head, last, inside⟩ := chosen_bounds chosen
    have front : (lines.take start).length = start := by
      rw [List.length_take]
      omega
    constructor <;> simp only [clusterRows, head, last, taken]
    · have opening : lines.take start ++ (lines.take (start + entries.length)).drop start = lines.take (start + entries.length) := by
        have prefixes : (lines.take (start + entries.length)).take start = lines.take start := by
          rw [List.take_take, Nat.min_eq_left (Nat.le_add_right _ _)]
        rw [← prefixes, List.take_append_drop]
      rw [opening, List.take_append_drop]
    · exact front
    · rw [List.forall₂_iff_zip]
      refine ⟨by rw [List.length_drop, List.length_take]; omega, fun {row entry} member => ?_⟩
      obtain ⟨idx, here⟩ := List.getElem?_of_mem member
      obtain ⟨rowHere, entryHere⟩ := List.getElem?_zip_eq_some.mp here
      obtain ⟨node, nodeMember, startRow, _, parsed⟩ := mem_collected (first.mem entryHere)
      obtain ⟨bound, _⟩ := List.getElem?_eq_some_iff.mp entryHere
      rw [List.getElem?_drop, List.getElem?_take_of_lt (by omega)] at rowHere
      exact reads.spelledRow nodeMember parsed (by rw [startRow]; exact rowHere)
    · exact first.filled
  · cases found

theorem placed_of_reached {text : Text} (reads : ∀ nodes ∈ view.tree, ReadsRows nodes (splitLinesCow text)) {work : Reached}
    (found : reached view text = some work) : work.Placed (splitLinesCow text) := by
  cases tree : view.tree with
  | none =>
    rw [reached, tree] at found
    split at found <;> cases found
  | some nodes => exact reached_placed tree (reads nodes tree) found

theorem blockEdits_eq_nil_iff (start : Nat) {block ordered : List Text} (filled : ∀ row ∈ block, row ≠ [])
    (last : ∀ row ∈ ordered.getLast?, row ≠ []) : blockEdits start block ordered = [] ↔ block = ordered := by
  rw [blockEdits, List.filterMap_eq_nil_iff]
  constructor
  · intro same
    have rows : ∀ idx < max block.length ordered.length, block[idx]?.getD [] = ordered[idx]?.getD [] := by
      intro idx bound
      by_contra differs
      have edit := same idx (List.mem_range.mpr bound)
      rw [if_neg differs] at edit
      cases edit
    have short : ordered.length ≤ block.length := by
      by_contra longer
      have bound : ordered.length - 1 < ordered.length := by omega
      have here := rows (ordered.length - 1) (by omega)
      rw [List.getElem?_eq_none (by omega), List.getElem?_eq_getElem bound] at here
      exact last _ (by rw [List.getLast?_eq_getElem?, List.getElem?_eq_getElem bound]; rfl) here.symm
    refine List.ext_getElem? fun idx => ?_
    by_cases bound : idx < block.length
    · have here := rows idx (by omega)
      rw [List.getElem?_eq_getElem bound, Option.getD_some] at here
      cases found : ordered[idx]? with
      | none =>
        rw [found] at here
        exact absurd here (filled _ (List.getElem_mem bound))
      | some row =>
        rw [List.getElem?_eq_getElem bound, here, found]
        rfl
    · rw [List.getElem?_eq_none (by omega), List.getElem?_eq_none (by omega)]
  · rintro rfl idx _
    exact if_pos rfl

/-- The rows are those of the text that the policy leaves behind. -/
def WritesRows (text : Text) (result : PolicyResult) (rows : List Text) : Prop :=
  if result.changed then result.text = joinLines rows (detectLineEnding text).toList (endsWithFeed text)
  else rows = splitLinesCow text

variable {policy}

/-- What a run does with the first cluster. -/
theorem apply_eq_applyCluster {text : Text} {work : Reached} (found : reached view text = some work) :
    apply policy view text =
      if work.rows.block = orderedBlock policy view work.entries then PolicyResult.unchanged
      else
        match blockEdits work.start work.rows.block (orderedBlock policy view work.entries) with
        | [] => PolicyResult.unchanged
        | first :: rest =>
          { text := joinLines (writtenRows policy view text) (detectLineEnding text).toList (endsWithFeed text)
            changed := true
            violations :=
              [{ policy := .includeOrder, message := "Includes are not ordered", line := first.line, column := some 1 }]
            edits := first :: rest
            warnings := [] } := by
  rw [writtenRows, found]
  rw [reached] at found
  split at found
  · next available =>
    obtain ⟨nodes, tree, found⟩ := Option.bind_eq_some_iff.mp found
    obtain ⟨cluster, chosen, rfl⟩ := Option.map_eq_some_iff.mp found
    obtain ⟨start, entries, _, first, _, head, last, inside⟩ := chosen_bounds chosen
    have filled := List.length_pos_of_ne_nil first.filled
    have some : splitLinesCow text ≠ [] := List.ne_nil_of_length_pos (by omega)
    rw [apply, tree]
    dsimp only
    rw [if_neg some, chosen]
    dsimp only
    rw [applyCluster, if_neg (by rw [head, last]; omega)]
    exact if_neg (by rw [available]; exact Bool.false_ne_true)
  · cases found

theorem apply_of_not_reached {text : Text} (found : reached view text = none) : (apply policy view text).changed = false := by
  rw [apply]
  split
  · rfl
  · next nodes tree =>
    dsimp only
    split
    · rfl
    · rw [reached, tree] at found
      split at found
      · rw [Option.map_eq_none_iff.mp found]
        rfl
      · next unavailable =>
        split
        · rfl
        · rw [applyCluster]
          split
          · rfl
          · rw [if_pos (by simpa using unavailable)]
            rfl

theorem Reached.Placed.blockEdits_eq_nil_iff {lines : List Text} {work : Reached} (placed : work.Placed lines) :
    blockEdits work.start work.rows.block (orderedBlock policy view work.entries) = [] ↔
      work.rows.block = orderedBlock policy view work.entries := by
  refine IncludeOrderPolicy.blockEdits_eq_nil_iff _ ?_ (blockOf_orderedBlock (cleanEntries placed.spelled)).last
  intro row member
  obtain ⟨entry, here⟩ := exists_entry_of_mem placed.spelled row member
  exact here.ne_nil

theorem changed_iff {text : Text} {work : Reached} (found : reached view text = some work)
    (placed : work.Placed (splitLinesCow text)) :
    (apply policy view text).changed = true ↔ work.rows.block ≠ orderedBlock policy view work.entries := by
  rw [apply_eq_applyCluster found]
  split
  · next same => exact ⟨fun changed => absurd changed Bool.false_ne_true, fun differs => absurd same differs⟩
  · next differs =>
    refine ⟨fun _ => differs, fun _ => ?_⟩
    split
    · next none => exact absurd (placed.blockEdits_eq_nil_iff.mp none) differs
    · rfl

theorem writesRows {text : Text} (reads : ∀ nodes ∈ view.tree, ReadsRows nodes (splitLinesCow text)) :
    WritesRows text (apply policy view text) (writtenRows policy view text) := by
  rw [WritesRows]
  cases found : reached view text with
  | none => rw [apply_of_not_reached found, if_neg Bool.false_ne_true, writtenRows, found]
  | some work =>
    have placed := placed_of_reached reads found
    split
    · next changed =>
      have differs := (changed_iff found placed).mp changed
      rw [apply_eq_applyCluster found, if_neg differs]
      split
      · next none => exact absurd (placed.blockEdits_eq_nil_iff.mp none) differs
      · rfl
    · next unchanged =>
      have same : work.rows.block = orderedBlock policy view work.entries := by
        by_contra differs
        exact unchanged ((changed_iff found placed).mpr differs)
      rw [writtenRows, found, placed.whole]
      dsimp only
      rw [same]

/-! ## The result -/

/-- The includes stay what they are, with all that stands behind them, and the other rows stay between headings. -/
structure KeepsIncludes (policy : IncludeOrderPolicy) (lines written : List Text) : Prop where
  directives : (directives written).Perm (IncludeOrder.directives lines)
  others : ∃ front headings back, otherRows lines = front ++ back ∧ otherRows written = front ++ headings ++ back ∧
    (policy.emitGroupComments = false → headings = [])

/-- The order names each group of the first cluster once, and its rows say nothing besides the paths. -/
def NamedOnce (policy : IncludeOrderPolicy) (view : IncludeView) (text : Text) : Prop :=
  ∀ work ∈ reached view text,
    (∀ entry ∈ work.entries, (namedGroups policy view).count (classifyGroup policy view entry) = 1) ∧
      ∀ directive ∈ IncludeOrder.directives work.rows.block, directive.plain = directive

theorem otherRows_orderedBlock {entries : List IncludeEntry} (clean : ∀ entry ∈ entries, CleanEntry entry)
    (quiet : policy.emitGroupComments = false) : otherRows (orderedBlock policy view entries) = [] := by
  rw [(blockOf_orderedBlock clean).bare quiet, otherRows, List.filter_eq_nil_iff]
  intro row member
  obtain ⟨item, here, rfl⟩ := List.mem_map.mp member
  rw [(cleanEntries_written clean _ item here).readDirective_includeLine]
  exact Bool.false_ne_true

/-- The policy keeps the includes of a text exactly when the order names their groups once each and nothing stands behind
their paths. -/
theorem apply_keepsIncludes_iff (policy : IncludeOrderPolicy) (view : IncludeView) (text : Text)
    (reads : ∀ nodes ∈ view.tree, ReadsRows nodes (splitLinesCow text)) :
    WritesRows text (apply policy view text) (writtenRows policy view text) ∧
      (KeepsIncludes policy (splitLinesCow text) (writtenRows policy view text) ↔ NamedOnce policy view text) := by
  refine ⟨writesRows reads, ?_⟩
  cases found : reached view text with
  | none =>
    rw [writtenRows, found, NamedOnce, found]
    refine ⟨fun _ _ member => (Option.not_mem_none _ member).elim, fun _ => ⟨.refl _, [], [], _, rfl, rfl, fun _ => rfl⟩⟩
  | some work =>
    have placed := placed_of_reached reads found
    have clean := cleanEntries placed.spelled
    have named : NamedOnce policy view text ↔
        (directives (orderedBlock policy view work.entries)).Perm (directives work.rows.block) := by
      rw [directives_orderedBlock_perm_iff placed.spelled, NamedOnce, found]
      exact ⟨fun all => all work rfl, fun here other member => Option.some.inj member ▸ here⟩
    rw [named, writtenRows, found, placed.whole]
    dsimp only
    constructor
    · intro keeps
      have same := keeps.directives
      rw [directives, directives, List.filterMap_append, List.filterMap_append, List.filterMap_append,
        List.filterMap_append] at same
      exact (List.perm_append_left_iff _).mp ((List.perm_append_right_iff _).mp same)
    · intro same
      constructor
      · rw [directives, directives, List.filterMap_append, List.filterMap_append, List.filterMap_append, List.filterMap_append]
        exact (same.append_left _).append_right _
      · refine ⟨otherRows work.rows.front, otherRows (orderedBlock policy view work.entries), otherRows work.rows.back, ?_, ?_,
          otherRows_orderedBlock clean⟩
        · rw [otherRows, List.filter_append, List.filter_append, ← otherRows, ← otherRows, ← otherRows,
            otherRows_eq_nil placed.spelled, List.append_nil]
        · rw [otherRows, List.filter_append, List.filter_append]
          rfl

/-! ## A lost comment -/

/-- The policy of a configuration without values. -/
def defaultPolicy : IncludeOrderPolicy :=
  .new
    { orderHeader := [], orderSource := [], standardHeaders := [], standardPrefixes := [], projectHeaders := []
      projectPrefixes := [], mainHeaderExtensions := [], separatorLength := 64, emitGroupComments := false
      groupTitles := fun _ => none, thirdPartyLabels := fun _ => none }

def angleNode (row : Nat) (path : Text) : IncludeNode := ⟨row, some ⟨.systemLibString, some path⟩⟩

def viewOf (nodes : List IncludeNode) : IncludeView := ⟨"main.cpp", true, some nodes, toAsciiLowercase⟩

def commentedIncludes : Text := "#include <vector>  // rows\n#include <map>\n".toList

def commentedView : IncludeView := viewOf [angleNode 0 "<vector>".toList, angleNode 1 "<map>".toList]

theorem commentedIncludes_not_kept :
    (∀ nodes ∈ commentedView.tree, ReadsRows nodes (splitLinesCow commentedIncludes)) ∧
      (apply defaultPolicy commentedView commentedIncludes).text = "#include <map>\n#include <vector>\n".toList ∧
      ¬KeepsIncludes defaultPolicy (splitLinesCow commentedIncludes)
        (writtenRows defaultPolicy commentedView commentedIncludes) := by
  refine ⟨?_, by decide +kernel, fun keeps => absurd keeps.directives (by decide +kernel)⟩
  rintro nodes ⟨⟩
  rw [ReadsRows]
  decide +kernel

def plainIncludes : Text := "#include <vector>\n#include <map>\n\nint main();\n".toList

theorem apply_keepsIncludes_reordered :
    KeepsIncludes defaultPolicy (splitLinesCow plainIncludes) (writtenRows defaultPolicy commentedView plainIncludes) ∧
      (apply defaultPolicy commentedView plainIncludes).text = "#include <map>\n#include <vector>\n\nint main();\n".toList := by
  have reads : ∀ nodes ∈ commentedView.tree, ReadsRows nodes (splitLinesCow plainIncludes) := by
    rintro nodes ⟨⟩
    rw [ReadsRows]
    decide +kernel
  refine ⟨(apply_keepsIncludes_iff defaultPolicy commentedView plainIncludes reads).2.mpr ?_, by decide +kernel⟩
  rw [NamedOnce]
  decide +kernel

end IncludeOrderPolicy

end MjFormatter.IncludeOrder
