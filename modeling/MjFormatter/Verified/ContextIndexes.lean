import MjFormatter.Library.KeyedSorting
import MjFormatter.Parser.SemanticContext
import MjFormatter.Verified.ParseOrder

/-! # What a file context answers

The indexes of a context answer as a search through its lists would.  Where a reference stands tells its offset, so a lookup
by line and column finds what clang said about the offset, unless something is declared on the line.  The order of the hash
map can be seen in the lists only where two of its keys come to the same sort key. -/

namespace MjFormatter.Verified.ContextIndexes

open Library Graph SemanticContext MjFormatter.Parser

/-! ## The indexes -/

/-- The lookups of a context, each as a search. -/
structure Searched (semantic : SemanticFileContext) : Prop where
  refsById : ∀ stableId, semantic.refsById stableId =
    semantic.references.filter fun reference => reference.stableId = stableId
  declById : ∀ stableId, semantic.declById stableId =
    semantic.declarations.find? fun decl => decl.details.stableId = stableId
  symbolOnLine : ∀ name line allowedKinds, semantic.symbolOnLine name line allowedKinds =
    semantic.declarations.find? fun decl => decl.line = line && (decl.name = name && allowsKind allowedKinds decl.kind)
  symbolOnLineByKinds : ∀ line allowedKinds, semantic.symbolOnLineByKinds line allowedKinds =
    semantic.declarations.find? fun decl => decl.line = line && allowsKind allowedKinds decl.kind
  hasNameElsewhere : ∀ name exceptLine, semantic.hasNameElsewhere name exceptLine = true ↔
    ∃ decl ∈ semantic.declarations, decl.name = name ∧ decl.line ≠ exceptLine
  renameOffsets : ∀ name line allowedKinds offset, offset ∈ semantic.renameOffsets name line allowedKinds ↔
    ∃ decl ∈ semantic.declarations, decl.line = line ∧ decl.name = name ∧ allowsKind allowedKinds decl.kind = true ∧
      offset ∈ semantic.symbolOffsets decl

/-- The indexes are those of the lists. -/
structure Indexed (semantic : SemanticFileContext) : Prop where
  declarationsByLine : semantic.declarationsByLine =
    OrderedMaps.indexBy (fun decl : ContextDeclaration => decl.line) semantic.declarations
  nameLines : semantic.nameLines =
    OrderedMaps.collect (fun decl : ContextDeclaration => decl.name) semantic.declarations fun decl => decl.line
  declIndexByStableId : semantic.declIndexByStableId =
    OrderedMaps.firstIndexBy (fun decl : ContextDeclaration => decl.details.stableId) semantic.declarations
  refIndicesByStableId : semantic.refIndicesByStableId =
    OrderedMaps.indexBy SemanticReference.stableId semantic.references

theorem indexed_fromParses (hash64 : String → UInt64) (text : Text) (canonicalPath : String) (treeHasError : Bool)
    (scopes : List SemanticScope) (clang : Option (Parser.ClangParseResult DeclarationId)) :
    Indexed (fromParses hash64 text canonicalPath treeHasError scopes clang) := by
  cases clang with
  | none => exact ⟨rfl, rfl, rfl, rfl⟩
  | some parse => exact ⟨rfl, rfl, rfl, rfl⟩

theorem Indexed.declarationsOnLine {semantic : SemanticFileContext} (indexed : Indexed semantic) (line : Nat) :
    semantic.declarationsOnLine line = semantic.declarations.filter fun decl => decl.line = line := by
  rw [SemanticFileContext.declarationsOnLine, indexed.declarationsByLine]
  exact OrderedMaps.getD_indexBy _ _ line

theorem Indexed.searched {semantic : SemanticFileContext} (indexed : Indexed semantic) : Searched semantic where
  refsById stableId := by
    rw [SemanticFileContext.refsById, indexed.refIndicesByStableId]
    split
    · rfl
    · exact OrderedMaps.getD_indexBy _ _ stableId
  declById stableId := by
    rw [SemanticFileContext.declById, indexed.declIndexByStableId]
    split
    · rfl
    · exact OrderedMaps.bind_firstIndexBy _ _ stableId
  symbolOnLine name line allowedKinds := by
    rw [SemanticFileContext.symbolOnLine, indexed.declarationsOnLine, List.find?_filter]
    simp only [Bool.decide_and, Bool.decide_eq_true]
  symbolOnLineByKinds line allowedKinds := by
    rw [SemanticFileContext.symbolOnLineByKinds, indexed.declarationsOnLine, List.find?_filter]
    simp only [Bool.decide_and, Bool.decide_eq_true]
  hasNameElsewhere name exceptLine := by
    rw [SemanticFileContext.hasNameElsewhere, indexed.nameLines, OrderedMaps.getD_collect]
    simp
  renameOffsets name line allowedKinds offset := by
    rw [SemanticFileContext.renameOffsets, indexed.declarationsOnLine, List.mem_dedup, List.mem_insertionSort, List.mem_flatMap]
    simp only [List.mem_filter, Bool.and_eq_true, decide_eq_true_eq, and_assoc]

/-- Every lookup of a built context is a search through its lists, whatever the parse is like. -/
theorem lookups_search (hash64 : String → UInt64) (text : Text) (canonicalPath : String) (treeHasError : Bool)
    (scopes : List SemanticScope) (clang : Option (Parser.ClangParseResult DeclarationId)) :
    Searched (fromParses hash64 text canonicalPath treeHasError scopes clang) :=
  (indexed_fromParses hash64 text canonicalPath treeHasError scopes clang).searched

/-! ## Places -/

theorem pairwise_lineStarts (text : Text) : (lineStarts text).Pairwise (· < ·) := by
  rw [lineStarts, List.pairwise_cons]
  constructor
  · intro start member
    obtain ⟨index, _, rfl⟩ := List.mem_map.mp member
    exact Nat.succ_pos index
  · exact List.pairwise_map.mpr ((List.pairwise_lt_range.filter _).imp fun order => Nat.succ_lt_succ order)

/-- The line start that the search ends at is not behind the offset. -/
theorem getD_countP_le {starts : List Nat} (increasing : starts.Pairwise (· < ·)) (offset : Nat) :
    starts.getD (starts.countP (· ≤ offset) - 1) 0 ≤ offset ∨ starts.countP (· ≤ offset) = 0 := by
  induction starts with
  | nil => exact .inr rfl
  | cons start starts inductionHypothesis =>
    by_cases reached : start ≤ offset
    · rw [List.countP_cons_of_pos (by simpa using reached), Nat.add_sub_cancel]
      cases inductionHypothesis increasing.of_cons with
      | inl before =>
        cases count : starts.countP (· ≤ offset) with
        | zero => exact .inl reached
        | succ count =>
          rw [count] at before
          exact .inl before
      | inr none =>
        rw [none]
        exact .inl reached
    · refine .inr ?_
      rw [List.countP_cons_of_neg (by simpa using reached), List.countP_eq_zero]
      intro later member
      have behind := List.rel_of_pairwise_cons increasing member
      simp only [decide_eq_true_eq]
      omega

/-- The place of an offset tells the offset, also behind the end of the text. -/
theorem offset_of_place (text : Text) (offset : Nat) :
    offset = (lineStarts text).getD ((lineAndColumnForOffset (lineStarts text) offset).1 - 1) 0 +
      ((lineAndColumnForOffset (lineStarts text) offset).2 - 1) := by
  have positive : 0 < lineForOffset (lineStarts text) offset := by
    rw [lineForOffset, List.countP_pos_iff]
    exact ⟨0, List.mem_cons_self, by simp⟩
  have before := (getD_countP_le (pairwise_lineStarts text) offset).resolve_right (Nat.pos_iff_ne_zero.mp positive)
  rw [← lineForOffset] at before
  simp only [lineAndColumnForOffset, Nat.max_eq_right positive, Nat.add_sub_cancel]
  omega

theorem place_injective (text : Text) {left right : Nat}
    (same : lineAndColumnForOffset (lineStarts text) left = lineAndColumnForOffset (lineStarts text) right) :
    left = right := by
  rw [offset_of_place text left, offset_of_place text right, same]

/-! ## References -/

/-- What references are sorted by. -/
def referenceKey (reference : SemanticReference) : Nat × String := (reference.offset, reference.stableId)

def compareReferenceKeys : Nat × String → Nat × String → Ordering := compareLex (compareOn Prod.fst) (compareOn Prod.snd)

instance : Std.TransCmp compareReferenceKeys := inferInstanceAs (Std.TransCmp (compareLex _ _))

instance : Std.LawfulEqCmp compareReferenceKeys where
  eq_of_compare {left right} same := by
    rw [compareReferenceKeys, compareLex_eq_eq] at same
    exact Prod.ext (Std.LawfulEqOrd.eq_of_compare same.1) (Std.LawfulEqOrd.eq_of_compare same.2)

theorem sortReferences_eq (references : List SemanticReference) :
    sortReferences references = KeyedSorting.sortFirst compareReferenceKeys referenceKey references := by
  have apart : (fun left right : SemanticReference => ¬(left.offset = right.offset ∧ left.stableId = right.stableId)) =
      fun left right => referenceKey left ≠ referenceKey right := by
    funext left right
    rw [Ne, referenceKey, referenceKey, Prod.mk.injEq]
  rw [sortReferences, KeyedSorting.sortFirst]
  simp only [apart]
  rfl

section
variable (hash64 : String → UInt64) (text : Text) (canonicalPath : String)

/-- The id that an entry's references get. -/
def entryId (parse : Parser.ClangParseResult DeclarationId) (entry : ClangDeclKey × List Nat) : DeclarationId :=
  referenceId hash64 text (declareAll hash64 text canonicalPath parse) entry.1

/-- The references of a parse in the order of the hash map. -/
def rawReferences (parse : Parser.ClangParseResult DeclarationId) : List SemanticReference :=
  parse.referenceOffsetsByDecl.flatMap (referencesOfEntry hash64 text (declareAll hash64 text canonicalPath parse))

theorem mem_rawReferences {parse : Parser.ClangParseResult DeclarationId} {reference : SemanticReference} :
    reference ∈ rawReferences hash64 text canonicalPath parse ↔ ∃ entry ∈ parse.referenceOffsetsByDecl, ∃ offset ∈ entry.2,
      referenceAt text (entryId hash64 text canonicalPath parse entry) entry.1 offset = reference := by
  simp only [rawReferences, List.mem_flatMap, referencesOfEntry, List.mem_map, entryId]

variable (treeHasError : Bool) (scopes : List SemanticScope)

theorem references_fromParses (parse : Parser.ClangParseResult DeclarationId) :
    (fromParses hash64 text canonicalPath treeHasError scopes (some parse)).references =
      KeyedSorting.sortFirst compareReferenceKeys referenceKey (rawReferences hash64 text canonicalPath parse) :=
  sortReferences_eq _

theorem mem_rawReferences_of_mem {parse : Parser.ClangParseResult DeclarationId} {reference : SemanticReference}
    (member : reference ∈ (fromParses hash64 text canonicalPath treeHasError scopes (some parse)).references) :
    reference ∈ rawReferences hash64 text canonicalPath parse := by
  rw [references_fromParses] at member
  exact (KeyedSorting.sortByKey_perm _ _ _).mem_iff.mp ((List.destutter_sublist _ _).mem member)

/-! ## What stands at a place -/

/-- The ids under which clang lists the offset. -/
def idsAt (parse : Parser.ClangParseResult DeclarationId) (offset : Nat) : List String :=
  (parse.referenceOffsetsByDecl.filter fun entry => entry.2.contains offset).map fun entry =>
    (entryId hash64 text canonicalPath parse entry).stableId

/-- How a lookup at a place is answered when the ids are those of the offset there. -/
structure AnswersPlace (semantic : SemanticFileContext) (line column : Nat) (allowedKinds : List Int) (ids : List String) :
    Prop where
  declared : ∀ decl ∈ semantic.declarations, decl.line = line → allowsKind allowedKinds decl.kind = true →
    ∃ found, semantic.symbolAt line column allowedKinds = some found ∧ found.line = line ∧
      allowsKind allowedKinds found.kind = true ∧ Nat.dist found.column column ≤ Nat.dist decl.column column
  unlisted : (∀ decl ∈ semantic.declarations, decl.line = line → allowsKind allowedKinds decl.kind = false) → ids = [] →
    semantic.symbolAt line column allowedKinds = none
  listed : (∀ decl ∈ semantic.declarations, decl.line = line → allowsKind allowedKinds decl.kind = false) →
    ∀ id ∈ ids, (∀ other ∈ ids, (compare id other).isLE = true) →
      semantic.symbolAt line column allowedKinds =
        (semantic.declarations.find? fun decl => decl.details.stableId = id).filter fun decl => allowsKind allowedKinds decl.kind

end

section
variable {semantic : SemanticFileContext} {line column : Nat} {allowedKinds : List Int}

/-- Something allowed on the line is found whatever the column is. -/
theorem declarationAtLocation_nearest {decl : ContextDeclaration} (member : decl ∈ semantic.declarations)
    (onLine : decl.line = line) (allowed : allowsKind allowedKinds decl.kind = true) :
    ∃ found, semantic.declarationAtLocation line column allowedKinds = some found ∧ found.line = line ∧
      allowsKind allowedKinds found.kind = true ∧ Nat.dist found.column column ≤ Nat.dist decl.column column := by
  rw [SemanticFileContext.declarationAtLocation]
  cases exact : semantic.declarations.find? fun decl =>
      decl.line = line && decl.column = column && allowsKind allowedKinds decl.kind with
  | some found =>
    have fits := List.find?_some exact
    simp only [Bool.and_eq_true, decide_eq_true_eq] at fits
    refine ⟨found, rfl, fits.1.1, fits.2, ?_⟩
    rw [fits.1.2, Nat.dist_self]
    exact Nat.zero_le _
  | none =>
    have listed : decl ∈ semantic.declarations.filter fun decl => decl.line = line && allowsKind allowedKinds decl.kind :=
      List.mem_filter.mpr ⟨member, by simp [onLine, allowed]⟩
    cases nearest : (semantic.declarations.filter fun decl => decl.line = line && allowsKind allowedKinds decl.kind).argmin
        fun decl => Nat.dist decl.column column with
    | none =>
      rw [List.argmin_eq_none] at nearest
      rw [nearest] at listed
      cases listed
    | some found =>
      have fits := (List.mem_filter.mp (List.argmin_mem nearest)).2
      simp only [Bool.and_eq_true, decide_eq_true_eq] at fits
      exact ⟨found, rfl, fits.1, fits.2, List.le_of_mem_argmin listed nearest⟩

theorem declarationAtLocation_none
    (clear : ∀ decl ∈ semantic.declarations, decl.line = line → allowsKind allowedKinds decl.kind = false) :
    semantic.declarationAtLocation line column allowedKinds = none := by
  have empty : semantic.declarations.filter (fun decl => decl.line = line && allowsKind allowedKinds decl.kind) = [] := by
    rw [List.filter_eq_nil_iff]
    intro decl member
    simpa using clear decl member
  have exact : semantic.declarations.find? (fun decl =>
      decl.line = line && decl.column = column && allowsKind allowedKinds decl.kind) = none := by
    rw [List.find?_eq_none]
    intro decl member fits
    simp only [Bool.and_eq_true, decide_eq_true_eq] at fits
    rw [clear decl member fits.1.1] at fits
    cases fits.2
  rw [SemanticFileContext.declarationAtLocation, empty, exact]
  rfl

end

section
variable (hash64 : String → UInt64) (text : Text) (canonicalPath : String) (treeHasError : Bool) (scopes : List SemanticScope)

theorem place_of_mem {parse : Parser.ClangParseResult DeclarationId} {reference : SemanticReference}
    (member : reference ∈ (fromParses hash64 text canonicalPath treeHasError scopes (some parse)).references) :
    (reference.line, reference.column) = lineAndColumnForOffset (lineStarts text) reference.offset := by
  obtain ⟨entry, _, offset, _, rfl⟩ := (mem_rawReferences hash64 text canonicalPath).mp
    (mem_rawReferences_of_mem hash64 text canonicalPath treeHasError scopes member)
  rfl

/-- An id that lists an offset has a reference there. -/
theorem exists_reference_of_mem_idsAt {parse : Parser.ClangParseResult DeclarationId} {offset : Nat} {id : String}
    (member : id ∈ idsAt hash64 text canonicalPath parse offset) :
    ∃ reference ∈ (fromParses hash64 text canonicalPath treeHasError scopes (some parse)).references,
      reference.offset = offset ∧ reference.stableId = id := by
  obtain ⟨entry, kept, rfl⟩ := List.mem_map.mp member
  obtain ⟨inside, contains⟩ := List.mem_filter.mp kept
  have raw := (mem_rawReferences hash64 text canonicalPath).mpr ⟨entry, inside, offset, List.contains_iff_mem.mp contains, rfl⟩
  cases found : (rawReferences hash64 text canonicalPath parse).find? fun reference => referenceKey reference =
      (offset, (entryId hash64 text canonicalPath parse entry).stableId) with
  | none => exact absurd (decide_eq_true rfl) (List.find?_eq_none.mp found _ raw)
  | some reference =>
    rw [← KeyedSorting.find?_sortFirst compareReferenceKeys, ← references_fromParses hash64 text canonicalPath treeHasError scopes]
      at found
    have keys : referenceKey reference =
        (offset, (entryId hash64 text canonicalPath parse entry).stableId) := by
      simpa only [decide_eq_true_eq] using List.find?_some found
    exact ⟨reference, List.mem_of_find?_eq_some found, congrArg Prod.fst keys, congrArg Prod.snd keys⟩

def atPlace (offset : Nat) (reference : SemanticReference) : Bool :=
  reference.line = (lineAndColumnForOffset (lineStarts text) offset).1 &&
    reference.column = (lineAndColumnForOffset (lineStarts text) offset).2

theorem atPlace_iff {parse : Parser.ClangParseResult DeclarationId} {reference : SemanticReference} {offset : Nat}
    (member : reference ∈ (fromParses hash64 text canonicalPath treeHasError scopes (some parse)).references) :
    atPlace text offset reference = true ↔ reference.offset = offset := by
  have place := place_of_mem hash64 text canonicalPath treeHasError scopes member
  rw [atPlace, Bool.and_eq_true, decide_eq_true_eq, decide_eq_true_eq]
  constructor
  · intro same
    exact place_injective text (place.symm.trans (Prod.ext same.1 same.2))
  · rintro rfl
    exact ⟨congrArg Prod.fst place, congrArg Prod.snd place⟩

theorem idsAt_eq_nil {parse : Parser.ClangParseResult DeclarationId} {offset : Nat}
    (absent : (fromParses hash64 text canonicalPath treeHasError scopes (some parse)).references.find? (atPlace text offset) = none) :
    idsAt hash64 text canonicalPath parse offset = [] := by
  rw [List.eq_nil_iff_forall_not_mem]
  intro id member
  obtain ⟨reference, inside, same, _⟩ := exists_reference_of_mem_idsAt hash64 text canonicalPath treeHasError scopes member
  exact List.find?_eq_none.mp absent reference inside
    ((atPlace_iff hash64 text canonicalPath treeHasError scopes inside).mpr same)

/-- The first reference at a place is the one with the least id that lists its offset. -/
theorem least_of_find? {parse : Parser.ClangParseResult DeclarationId} {offset : Nat} {reference : SemanticReference}
    (found : (fromParses hash64 text canonicalPath treeHasError scopes (some parse)).references.find? (atPlace text offset) =
      some reference) :
    reference.stableId ∈ idsAt hash64 text canonicalPath parse offset ∧
      ∀ other ∈ idsAt hash64 text canonicalPath parse offset, (compare reference.stableId other).isLE = true := by
  have member := List.mem_of_find?_eq_some found
  have same := (atPlace_iff hash64 text canonicalPath treeHasError scopes member).mp (List.find?_some found)
  constructor
  · obtain ⟨entry, inside, _, isOffset, rfl⟩ := (mem_rawReferences hash64 text canonicalPath).mp
      (mem_rawReferences_of_mem hash64 text canonicalPath treeHasError scopes member)
    subst same
    exact List.mem_map.mpr ⟨entry, List.mem_filter.mpr ⟨inside, List.contains_iff_mem.mpr isOffset⟩, rfl⟩
  · intro id listed
    obtain ⟨other, inside, sameOther, rfl⟩ :=
      exists_reference_of_mem_idsAt hash64 text canonicalPath treeHasError scopes listed
    have increasing := KeyedSorting.pairwise_sortFirst compareReferenceKeys referenceKey (rawReferences hash64 text canonicalPath parse)
    rw [← references_fromParses hash64 text canonicalPath treeHasError scopes] at increasing
    obtain ⟨_, front, back, whole, before⟩ := List.find?_eq_some_iff_append.mp found
    rw [whole] at inside increasing
    -- Nothing in front of the first reference stands at the place
    cases List.mem_append.mp inside with
    | inl early =>
      have absent := before other early
      rw [(atPlace_iff hash64 text canonicalPath treeHasError scopes
        (whole ▸ List.mem_append_left _ early)).mpr sameOther] at absent
      cases absent
    | inr late =>
      cases List.mem_cons.mp late with
      | inl equal =>
        rw [equal]
        exact KeyedSorting.isLE_self compare _
      | inr later =>
        have order := List.rel_of_pairwise_cons (List.pairwise_append.mp increasing).2.1 later
        change (compare reference.offset other.offset).then (compare reference.stableId other.stableId) = .lt at order
        rw [same, sameOther, Std.ReflOrd.compare_self, Ordering.eq_then] at order
        rw [order]
        exact rfl

/-- On a line that declares nothing of the allowed kinds, a place is answered by the least id that lists its offset; on any
other line the nearest declaration of the line answers, whatever is referred to at the place. -/
theorem symbolAt_answers (parse : Parser.ClangParseResult DeclarationId) (offset : Nat) (allowedKinds : List Int) :
    AnswersPlace (fromParses hash64 text canonicalPath treeHasError scopes (some parse))
      (lineAndColumnForOffset (lineStarts text) offset).1 (lineAndColumnForOffset (lineStarts text) offset).2 allowedKinds
      (idsAt hash64 text canonicalPath parse offset) := by
  have line : max (lineAndColumnForOffset (lineStarts text) offset).1 1 = (lineAndColumnForOffset (lineStarts text) offset).1 :=
    Nat.max_eq_left (Nat.le_max_left _ _)
  have column : max (lineAndColumnForOffset (lineStarts text) offset).2 1 = (lineAndColumnForOffset (lineStarts text) offset).2 :=
    Nat.max_eq_left (Nat.succ_pos _)
  constructor
  case declared =>
    intro decl member onLine allowed
    have nearest := @declarationAtLocation_nearest _ _ (lineAndColumnForOffset (lineStarts text) offset).2 _ decl member onLine
      allowed
    obtain ⟨found, answer, rest⟩ := nearest
    refine ⟨found, ?_, rest⟩
    rw [SemanticFileContext.symbolAt, line, column, answer]
    exact rfl
  case unlisted =>
    intro clear empty
    rw [SemanticFileContext.symbolAt, line, column, declarationAtLocation_none clear, Option.none_or]
    cases found : (fromParses hash64 text canonicalPath treeHasError scopes (some parse)).references.find? (atPlace text offset) with
    | none =>
      change Option.bind (List.find? (atPlace text offset) _) _ = none
      rw [found]
      exact rfl
    | some reference =>
      have listed := (least_of_find? hash64 text canonicalPath treeHasError scopes found).1
      rw [empty] at listed
      cases listed
  case listed =>
    intro clear id member least
    rw [SemanticFileContext.symbolAt, line, column, declarationAtLocation_none clear, Option.none_or]
    cases found : (fromParses hash64 text canonicalPath treeHasError scopes (some parse)).references.find? (atPlace text offset) with
    | none =>
      rw [idsAt_eq_nil hash64 text canonicalPath treeHasError scopes found] at member
      cases member
    | some reference =>
      have first := least_of_find? hash64 text canonicalPath treeHasError scopes found
      have same : reference.stableId = id := Std.LawfulEqCmp.eq_of_compare
        (Std.OrientedCmp.isLE_antisymm (first.2 id member) (least reference.stableId first.1))
      change Option.bind (List.find? (atPlace text offset) _) _ = _
      rw [found, Option.bind_some, same]

/-! ## The order of the hash map -/

/-- The keys of the file itself, at a place. -/
def isOwnKey (declKey : ClangDeclKey) : Bool := declKey.path = canonicalPath && declKey.line ≠ 0 && declKey.column ≠ 0

theorem idOf_insert (declared : Declared) (declKey other : ClangDeclKey) (decl : ContextDeclaration) :
    (declared.insert declKey decl).idOf other = if declKey = other then some decl.details else declared.idOf other := by
  rw [Declared.idOf, Declared.insert, List.find?_cons]
  by_cases same : declKey = other
  · simp [same]
  · simp [same, Declared.idOf]

/-- Keys that are declared in turn: each own key once, whatever their order. -/
theorem foldl_declareKey {declKeys : List ClangDeclKey} (distinct : declKeys.Nodup) (declared : Declared)
    (fresh : ∀ declKey ∈ declKeys, declared.idOf declKey = none) :
    (declKeys.foldl (declareKey hash64 text canonicalPath) declared).declarations =
        declared.declarations ++ (declKeys.filter (isOwnKey canonicalPath)).map (synthesized hash64 text) ∧
      ∀ declKey, (declKeys.foldl (declareKey hash64 text canonicalPath) declared).idOf declKey =
        if declKey ∈ declKeys ∧ isOwnKey canonicalPath declKey then some (synthesized hash64 text declKey).details
        else declared.idOf declKey := by
  induction declKeys generalizing declared with
  | nil => simp
  | cons first declKeys inductionHypothesis =>
    have unknown : declared.idOf first = none := fresh first List.mem_cons_self
    have notLater : first ∉ declKeys := (List.nodup_cons.mp distinct).1
    rw [List.foldl_cons]
    by_cases own : isOwnKey canonicalPath first = true
    · have declares : declareKey hash64 text canonicalPath declared first =
          declared.insert first (synthesized hash64 text first) := by
        simp only [isOwnKey, Bool.and_eq_true, decide_eq_true_eq] at own
        rw [declareKey, unknown, if_neg]
        simp [own]
      have stillFresh : ∀ declKey ∈ declKeys, (declareKey hash64 text canonicalPath declared first).idOf declKey = none := by
        intro declKey member
        have other : first ≠ declKey := fun same => notLater (same.symm ▸ member)
        rw [declares, idOf_insert, if_neg other]
        exact fresh declKey (List.mem_cons_of_mem _ member)
      obtain ⟨declarations, ids⟩ := inductionHypothesis (List.nodup_cons.mp distinct).2 _ stillFresh
      constructor
      · rw [declarations, declares, List.filter_cons_of_pos own]
        simp [Declared.insert]
      · intro declKey
        rw [ids, declares, idOf_insert]
        by_cases same : first = declKey
        · subst same
          simp [own, notLater]
        · simp [same, Ne.symm same]
    · have skips : declareKey hash64 text canonicalPath declared first = declared := by
        rw [declareKey, if_pos]
        simp only [isOwnKey, Bool.and_eq_true, decide_eq_true_eq] at own
        tauto
      obtain ⟨declarations, ids⟩ := inductionHypothesis (List.nodup_cons.mp distinct).2 declared
        fun declKey member => fresh declKey (List.mem_cons_of_mem _ member)
      rw [skips]
      constructor
      · rw [declarations, List.filter_cons_of_neg own]
      · intro declKey
        rw [ids]
        by_cases same : declKey = first
        · subst same
          simp [own]
        · simp [same]

/-- The parse with another order of the hash map. -/
def reordered (parse : Parser.ClangParseResult DeclarationId) (order : List (ClangDeclKey × List Nat)) : Parser.ClangParseResult DeclarationId :=
  { parse with referenceOffsetsByDecl := order }

variable {parse : Parser.ClangParseResult DeclarationId} {order : List (ClangDeclKey × List Nat)}

/-- Without symbols the own keys are what is declared. -/
theorem declareAll_of_nil (bare : parse.symbols = []) (distinct : (parse.referenceOffsetsByDecl.map Prod.fst).Nodup) :
    (declareAll hash64 text canonicalPath parse).declarations =
        ((parse.referenceOffsetsByDecl.map Prod.fst).filter (isOwnKey canonicalPath)).map (synthesized hash64 text) ∧
      ∀ declKey, (declareAll hash64 text canonicalPath parse).idOf declKey =
        if declKey ∈ parse.referenceOffsetsByDecl.map Prod.fst ∧ isOwnKey canonicalPath declKey then
          some (synthesized hash64 text declKey).details
        else none := by
  have keys := foldl_declareKey hash64 text canonicalPath distinct {} fun _ _ => rfl
  rw [declareAll, if_pos bare, bare]
  exact keys

theorem declareAll_reordered_of_symbols (symbols : parse.symbols ≠ []) :
    declareAll hash64 text canonicalPath (reordered parse order) = declareAll hash64 text canonicalPath parse := by
  rw [declareAll, declareAll, if_neg symbols]
  exact if_neg symbols

/-- The order says nothing about the ids. -/
theorem referenceId_reordered (distinct : (parse.referenceOffsetsByDecl.map Prod.fst).Nodup)
    (permuted : order.Perm parse.referenceOffsetsByDecl) :
    referenceId hash64 text (declareAll hash64 text canonicalPath (reordered parse order)) =
      referenceId hash64 text (declareAll hash64 text canonicalPath parse) := by
  funext declKey
  rw [referenceId, referenceId]
  by_cases bare : parse.symbols = []
  · have keys := permuted.map Prod.fst
    have ids := (declareAll_of_nil hash64 text canonicalPath bare distinct).2 declKey
    have idsReordered := (@declareAll_of_nil hash64 text canonicalPath (reordered parse order) bare
      (keys.nodup_iff.mpr distinct)).2 declKey
    rw [ids, idsReordered]
    have members : declKey ∈ (reordered parse order).referenceOffsetsByDecl.map Prod.fst ↔
        declKey ∈ parse.referenceOffsetsByDecl.map Prod.fst := keys.mem_iff
    simp only [members]
  · rw [declareAll_reordered_of_symbols hash64 text canonicalPath bare]

variable (parse)

/-- The references do not depend on the order of the hash map if and only if two keys that are listed at one offset under one id
agree on what else a reference says. -/
theorem references_order_iff (distinct : (parse.referenceOffsetsByDecl.map Prod.fst).Nodup) :
    (∀ order : List (ClangDeclKey × List Nat), order.Perm parse.referenceOffsetsByDecl →
      (fromParses hash64 text canonicalPath treeHasError scopes (some (reordered parse order))).references =
        (fromParses hash64 text canonicalPath treeHasError scopes (some parse)).references) ↔
      ∀ left ∈ parse.referenceOffsetsByDecl, ∀ right ∈ parse.referenceOffsetsByDecl, ∀ offset ∈ left.2, offset ∈ right.2 →
        (entryId hash64 text canonicalPath parse left).stableId = (entryId hash64 text canonicalPath parse right).stableId →
          (entryId hash64 text canonicalPath parse left).provenance = (entryId hash64 text canonicalPath parse right).provenance ∧
            left.1.path = right.1.path ∧ left.1.kind = right.1.kind := by
  have within : ∀ entry ∈ parse.referenceOffsetsByDecl,
      ∀ item ∈ referencesOfEntry hash64 text (declareAll hash64 text canonicalPath parse) entry,
      ∀ other ∈ referencesOfEntry hash64 text (declareAll hash64 text canonicalPath parse) entry,
        referenceKey item = referenceKey other → item = other := by
    intro entry _ item member other memberOther keys
    obtain ⟨offset, _, rfl⟩ := List.mem_map.mp member
    obtain ⟨place, _, rfl⟩ := List.mem_map.mp memberOther
    have offsets : offset = place := congrArg Prod.fst keys
    rw [offsets]
  have general := KeyedSorting.sortFirst_flatMap_iff compareReferenceKeys referenceKey within
  have reorders : ∀ order : List (ClangDeclKey × List Nat), order.Perm parse.referenceOffsetsByDecl →
      (fromParses hash64 text canonicalPath treeHasError scopes (some (reordered parse order))).references =
        KeyedSorting.sortFirst compareReferenceKeys referenceKey
          (order.flatMap (referencesOfEntry hash64 text (declareAll hash64 text canonicalPath parse))) := by
    intro order permuted
    have ids := referenceId_reordered hash64 text canonicalPath distinct permuted
    have entries : referencesOfEntry hash64 text (declareAll hash64 text canonicalPath (reordered parse order)) =
        referencesOfEntry hash64 text (declareAll hash64 text canonicalPath parse) := by
      funext entry
      rw [referencesOfEntry, referencesOfEntry, ids]
    rw [references_fromParses, rawReferences, entries]
    exact rfl
  constructor
  · intro same left member right memberRight offset inLeft inRight ids
    have agree := general.mp fun order permuted => by
      rw [← reorders order permuted, same order permuted, references_fromParses]
      exact rfl
    have leftItem := (mem_rawReferences hash64 text canonicalPath).mpr ⟨left, member, offset, inLeft, rfl⟩
    have rightItem := (mem_rawReferences hash64 text canonicalPath).mpr ⟨right, memberRight, offset, inRight, rfl⟩
    have equal := agree _ leftItem _ rightItem (Prod.ext rfl ids)
    exact ⟨congrArg SemanticReference.provenance equal, congrArg SemanticReference.declPath equal,
      congrArg SemanticReference.declKind equal⟩
  · intro agree order permuted
    rw [reorders order permuted, references_fromParses]
    refine general.mpr ?_ order permuted
    intro item member other memberOther keys
    obtain ⟨left, inside, offset, inLeft, rfl⟩ := (mem_rawReferences hash64 text canonicalPath).mp member
    obtain ⟨right, insideRight, place, inRight, rfl⟩ := (mem_rawReferences hash64 text canonicalPath).mp memberOther
    obtain rfl : offset = place := congrArg Prod.fst keys
    have rest := agree left inside right insideRight offset inLeft inRight (congrArg Prod.snd keys)
    have ids : (referenceAt text (entryId hash64 text canonicalPath parse left) left.1 offset).stableId =
      (referenceAt text (entryId hash64 text canonicalPath parse right) right.1 offset).stableId := congrArg Prod.snd keys
    rw [SemanticReference.mk.injEq]
    exact ⟨ids, rest.1, rest.2.1, rest.2.2, rfl, rfl, rfl⟩

end

theorem nothing_entered : ([] : List ClangDiagnosticEntry).length = ([] : List String).length := rfl

/-- The parse of a file that declares a function and defines it: both keys have the symbol's id. -/
def declaredTwice : Parser.ClangParseResult DeclarationId where
  success := true
  diagnostics := []
  symbols :=
    [⟨⟨"f", 8, 1, 6, some "c:@F@f", none⟩, ⟨"usr:c:@F@f", .usr⟩⟩, ⟨⟨"f", 8, 2, 6, some "c:@F@f", none⟩, ⟨"usr:c:@F@f", .usr⟩⟩]
  diagnosticCounts := {}
  diagnosticEntries := []
  renameOffsetsBySymbol := []
  referenceOffsetsByDecl := [(⟨"a.cpp", 1, 6, 8⟩, [5, 15, 30]), (⟨"a.cpp", 2, 6, 8⟩, [15, 30])]
  counted := DiagnosticCounts.total_none
  entered := nothing_entered

theorem declaredTwice_references :
    (fromParses (fun _ => 0) "void f();\nvoid f() { f(); }".toList "a.cpp" false []
      (some (reordered declaredTwice [(⟨"a.cpp", 2, 6, 8⟩, [15, 30]), (⟨"a.cpp", 1, 6, 8⟩, [5, 15, 30])]))).references =
      (fromParses (fun _ => 0) "void f();\nvoid f() { f(); }".toList "a.cpp" false [] (some declaredTwice)).references :=
  (references_order_iff (fun _ => 0) _ "a.cpp" false [] declaredTwice (by decide)).mpr (by decide) _ (.swap _ _ [])

section
variable (hash64 : String → UInt64) (text : Text) (canonicalPath : String) (treeHasError : Bool) (scopes : List SemanticScope)
  (parse : Parser.ClangParseResult DeclarationId)

/-- What a key declares in a file without symbols. -/
def declaredOfEntry (entry : ClangDeclKey × List Nat) : List ContextDeclaration :=
  if isOwnKey canonicalPath entry.1 then [synthesized hash64 text entry.1] else []

theorem mem_declaredOfEntry {entry : ClangDeclKey × List Nat} {decl : ContextDeclaration} :
    decl ∈ declaredOfEntry hash64 text canonicalPath entry ↔
      isOwnKey canonicalPath entry.1 = true ∧ decl = synthesized hash64 text entry.1 := by
  rw [declaredOfEntry]
  split
  · next own => simp [own]
  · next other => simp [other]

theorem flatMap_declaredOfEntry (entries : List (ClangDeclKey × List Nat)) :
    entries.flatMap (declaredOfEntry hash64 text canonicalPath) =
      ((entries.map Prod.fst).filter (isOwnKey canonicalPath)).map (synthesized hash64 text) := by
  induction entries with
  | nil => rfl
  | cons entry entries inductionHypothesis =>
    rw [List.flatMap_cons, List.map_cons, List.filter_cons, inductionHypothesis, declaredOfEntry]
    split <;> rfl

theorem sortDeclarations_eq (declarations : List ContextDeclaration) : sortDeclarations declarations =
    KeyedSorting.sortByKey compareKeys (fun decl => sortKey decl.toSemanticDeclaration) declarations := rfl

theorem declKey_ext {left right : ClangDeclKey} (paths : left.path = right.path) (lines : left.line = right.line)
    (columns : left.column = right.column) (kinds : left.kind = right.kind) : left = right := by
  cases left
  cases right
  simp_all

/-- The declarations do not depend on the order of the hash map if and only if there are symbols, or else no two own keys share a
place. -/
theorem declarations_order_iff (distinct : (parse.referenceOffsetsByDecl.map Prod.fst).Nodup) :
    (∀ order : List (ClangDeclKey × List Nat), order.Perm parse.referenceOffsetsByDecl →
      (fromParses hash64 text canonicalPath treeHasError scopes (some (reordered parse order))).declarations =
        (fromParses hash64 text canonicalPath treeHasError scopes (some parse)).declarations) ↔
      parse.symbols ≠ [] ∨ ∀ left ∈ parse.referenceOffsetsByDecl, ∀ right ∈ parse.referenceOffsetsByDecl,
        isOwnKey canonicalPath left.1 = true → isOwnKey canonicalPath right.1 = true →
          left.1.line = right.1.line → left.1.column = right.1.column → left.1.kind = right.1.kind := by
  by_cases bare : parse.symbols = []
  · have within : ∀ entry ∈ parse.referenceOffsetsByDecl, ∀ item ∈ declaredOfEntry hash64 text canonicalPath entry,
        ∀ other ∈ declaredOfEntry hash64 text canonicalPath entry,
          sortKey item.toSemanticDeclaration = sortKey other.toSemanticDeclaration → item = other := by
      intro entry _ item member other memberOther _
      rw [((mem_declaredOfEntry hash64 text canonicalPath).mp member).2,
        ((mem_declaredOfEntry hash64 text canonicalPath).mp memberOther).2]
    have general := KeyedSorting.sortByKey_flatMap_iff compareKeys
      (fun decl : ContextDeclaration => sortKey decl.toSemanticDeclaration) within
    have reorders : ∀ order : List (ClangDeclKey × List Nat), order.Perm parse.referenceOffsetsByDecl →
        (fromParses hash64 text canonicalPath treeHasError scopes (some (reordered parse order))).declarations =
          KeyedSorting.sortByKey compareKeys (fun decl => sortKey decl.toSemanticDeclaration)
            (order.flatMap (declaredOfEntry hash64 text canonicalPath)) := by
      intro order permuted
      have keys := @declareAll_of_nil hash64 text canonicalPath (reordered parse order) bare
        ((permuted.map Prod.fst).nodup_iff.mpr distinct)
      change sortDeclarations (declareAll hash64 text canonicalPath (reordered parse order)).declarations = _
      rw [keys.1, flatMap_declaredOfEntry, sortDeclarations_eq]
      exact rfl
    constructor
    · intro same
      refine .inr fun left member right memberRight ownLeft ownRight lines columns => ?_
      have agree := general.mp fun order permuted => by
        rw [← reorders order permuted, same order permuted]
        exact reorders _ (.refl _)
      have leftItem := List.mem_flatMap.mpr ⟨left, member, (mem_declaredOfEntry hash64 text canonicalPath).mpr ⟨ownLeft, rfl⟩⟩
      have rightItem :=
        List.mem_flatMap.mpr ⟨right, memberRight, (mem_declaredOfEntry hash64 text canonicalPath).mpr ⟨ownRight, rfl⟩⟩
      have equal := agree _ leftItem _ rightItem (by simp only [sortKey, synthesized, lines, columns])
      exact congrArg (fun decl : ContextDeclaration => decl.kind) equal
    · intro apart order permuted
      rw [reorders order permuted]
      refine (general.mpr ?_ order permuted).trans (reorders _ (.refl _)).symm
      intro item member other memberOther keys
      obtain ⟨left, inside, isLeft⟩ := List.mem_flatMap.mp member
      obtain ⟨right, insideRight, isRight⟩ := List.mem_flatMap.mp memberOther
      obtain ⟨ownLeft, rfl⟩ := (mem_declaredOfEntry hash64 text canonicalPath).mp isLeft
      obtain ⟨ownRight, rfl⟩ := (mem_declaredOfEntry hash64 text canonicalPath).mp isRight
      have lines : left.1.line = right.1.line := congrArg Prod.fst keys
      have columns : left.1.column = right.1.column := congrArg (fun key => key.2.1) keys
      have kinds := apart.resolve_left (not_not.mpr bare) left inside right insideRight ownLeft ownRight lines columns
      simp only [isOwnKey, Bool.and_eq_true, decide_eq_true_eq] at ownLeft ownRight
      rw [declKey_ext (ownLeft.1.1.trans ownRight.1.1.symm) lines columns kinds]
  · refine iff_of_true (fun order permuted => ?_) (.inl bare)
    change sortDeclarations (declareAll hash64 text canonicalPath (reordered parse order)).declarations = _
    rw [declareAll_reordered_of_symbols hash64 text canonicalPath bare]
    exact rfl

end

/-- A parse without symbols whose keys share a line. -/
def undeclared : Parser.ClangParseResult DeclarationId :=
  { declaredTwice with symbols := [], referenceOffsetsByDecl := [(⟨"a.cpp", 1, 5, 9⟩, [4]), (⟨"a.cpp", 1, 8, 9⟩, [7])] }

theorem undeclared_declarations :
    (fromParses (fun _ => 0) "int a, b;".toList "a.cpp" false []
      (some (reordered undeclared [(⟨"a.cpp", 1, 8, 9⟩, [7]), (⟨"a.cpp", 1, 5, 9⟩, [4])]))).declarations =
      (fromParses (fun _ => 0) "int a, b;".toList "a.cpp" false [] (some undeclared)).declarations :=
  (declarations_order_iff (fun _ => 0) _ "a.cpp" false [] undeclared (by decide)).mpr (.inr (by decide)) _ (.swap _ _ [])

end MjFormatter.Verified.ContextIndexes
