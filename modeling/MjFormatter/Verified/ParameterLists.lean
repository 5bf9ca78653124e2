import MjFormatter.Policy.VoidParams
import MjFormatter.Verified.RenameReplacements

/-! # The parameter lists that are replaced

The first parameter list below a declarator can belong to a declarator that stands in front of its own list.  The
replacements are disjoint, each the list of its own declarator, if the own list comes first, and no declarator is met twice or
inside a list that is replaced. -/

namespace MjFormatter.Verified

open Library RoseTree FunctionVoidParamsPolicy

/-! ## Bytes of symbols -/

def IsBlankByte (byte : UInt8) : Prop := byte = ' '.val.toUInt8 ∨ byte = '\t'.val.toUInt8

instance (byte : UInt8) : Decidable (IsBlankByte byte) := inferInstanceAs (Decidable (_ ∨ _))

theorem continuation_not_blank (byte : UInt8) : ¬IsBlankByte (byte &&& 0x3f ||| 0x80) := by
  have high : 128 ≤ (byte &&& 0x3f ||| 0x80).toNat := by
    rw [UInt8.toNat_or]
    exact Nat.right_le_or
  intro blank
  cases blank with
  | inl space => exact absurd (space ▸ high) (by decide)
  | inr tab => exact absurd (tab ▸ high) (by decide)

theorem utf8Size_of_lastBlank {symbol : Char} {byte : UInt8} (last : (String.utf8EncodeChar symbol).getLast? = some byte)
    (blank : IsBlankByte byte) : symbol.utf8Size = 1 := by
  obtain one | two | three | four := symbol.utf8Size_eq
  · exact one
  · rw [String.utf8EncodeChar_eq_cons_cons two] at last
    exact absurd (Option.some.inj last ▸ blank) (continuation_not_blank _)
  · rw [String.utf8EncodeChar_eq_cons_cons_cons three] at last
    exact absurd (Option.some.inj last ▸ blank) (continuation_not_blank _)
  · rw [String.utf8EncodeChar_eq_cons_cons_cons_cons four] at last
    exact absurd (Option.some.inj last ▸ blank) (continuation_not_blank _)

/-! ## Blanks in front of a list -/

theorem le_wsStart {bytes : List UInt8} {nodeStart offset : Nat} (behind : nodeStart ≤ offset) :
    nodeStart ≤ wsStart bytes nodeStart offset := by
  induction offset with
  | zero => exact behind
  | succ previous inductionHypothesis =>
    rw [wsStart]
    split
    · next more => exact inductionHypothesis (by omega)
    · exact behind

theorem wsStart_blank {bytes : List UInt8} {nodeStart offset index : Nat} (notBefore : wsStart bytes nodeStart offset ≤ index)
    (below : index < offset) : IsBlankByte (bytes.getD index 0) := by
  induction offset with
  | zero => omega
  | succ previous inductionHypothesis =>
    rw [wsStart] at notBefore
    split at notBefore
    · next blank =>
      by_cases last : index = previous
      · exact last ▸ blank.2
      · exact inductionHypothesis notBefore (by omega)
    · omega

/-- The loop stops where a symbol begins. -/
theorem wsStart_cut (nodeStart : Nat) (front back : Text) : ∃ kept blanks, front = kept ++ blanks ∧
    byteLength kept = wsStart (Text.asBytes (front ++ back)) nodeStart (byteLength front) := by
  induction front using List.reverseRecOn generalizing back with
  | nil => exact ⟨[], [], rfl, rfl⟩
  | append_singleton front symbol inductionHypothesis =>
    obtain ⟨previous, long⟩ : ∃ previous, byteLength (front ++ [symbol]) = previous + 1 :=
      Nat.exists_eq_add_one.mpr (byteLength_pos (by simp))
    rw [long, wsStart]
    split
    · next more =>
      obtain ⟨byte, last⟩ : ∃ byte, (String.utf8EncodeChar symbol).getLast? = some byte :=
        ⟨_, List.getLast?_eq_some_getLast String.utf8EncodeChar_ne_nil⟩
      have bytes : (Text.asBytes (front ++ [symbol])).getLast? = some byte := by
        rw [getLast?_asBytes, List.getLast?_concat]
        exact last
      have here : (Text.asBytes (front ++ [symbol] ++ back)).getD previous 0 = byte := by
        rw [List.getLast?_eq_getElem?, length_asBytes, long] at bytes
        rw [List.getD_eq_getElem?_getD, asBytes_append, List.getElem?_append_left (by rw [length_asBytes]; omega)]
        exact congrArg (·.getD 0) bytes
      have narrow := utf8Size_of_lastBlank last (here ▸ more.2)
      have shorter : byteLength front = previous := by
        rw [byteLength_append] at long
        simp only [byteLength, measure_cons, measure_nil, narrow] at long ⊢
        omega
      obtain ⟨kept, blanks, cut, measured⟩ := inductionHypothesis (symbol :: back)
      refine ⟨kept, blanks ++ [symbol], by rw [cut, List.append_assoc], ?_⟩
      rw [measured, shorter, List.append_assoc, List.singleton_append]
    · exact ⟨front ++ [symbol], [], (List.append_nil _).symm, long⟩

/-! ## All ranges at once -/

/-- The text with all the ranges replaced, each by what it asks for. -/
def SubstitutedAtOnce (text : Text) (replacements : List ByteReplacement) (out : Text) : Prop :=
  ∃ edits : List (RangeEdit Char), (edits.map fun edit => ByteReplacement.mk edit.start edit.stop edit.new).Perm replacements ∧
    Spliced Char.utf8Size 0 text edits out

def DisjointRanges (left right : ByteReplacement) : Prop := left.stop ≤ right.start ∨ right.stop ≤ left.start

/-- A range that is not empty, from one symbol to another one. -/
structure SpansSymbols (text : Text) (range : ByteReplacement) : Prop where
  nonempty : range.start < range.stop
  spelled : ∃ old, slice Char.utf8Size text range.start range.stop = some old

def oldText (text : Text) (range : ByteReplacement) : Text := (slice Char.utf8Size text range.start range.stop).getD []

def byteEdit (text : Text) (range : ByteReplacement) : RangeEdit Char :=
  ⟨range.start, range.stop, oldText text range, range.replacement⟩

/-- From the last range to the first, the bytes are replaced where the symbols are. -/
theorem foldr_splice {base : Nat} {text out : Text} {edits : List (RangeEdit Char)}
    (spliced : Spliced Char.utf8Size base text edits out) (front : List UInt8) (long : front.length = base) :
    (edits.map fun edit => ByteReplacement.mk edit.start edit.stop edit.new).reverse.foldlM splice (front ++ text.asBytes) =
      some (front ++ out.asBytes) := by
  induction spliced generalizing front with
  | done => rfl
  | @edit base kept rest out first edits starts stops further inductionHypothesis =>
    have longer : (front ++ Text.asBytes kept ++ Text.asBytes first.old).length = first.stop := by
      rw [List.length_append, List.length_append, length_asBytes, length_asBytes, long, stops, starts]
      rfl
    have later := inductionHypothesis _ longer
    rw [List.map_cons, List.reverse_cons, List.foldlM_append, asBytes_append, asBytes_append, ← List.append_assoc,
      ← List.append_assoc, later]
    have begins : (front ++ Text.asBytes kept).length = first.start := by
      rw [List.length_append, length_asBytes, long, starts]
      rfl
    have inside : first.start ≤ first.stop ∧
        first.stop ≤ (front ++ Text.asBytes kept ++ Text.asBytes first.old ++ Text.asBytes out).length := by
      rw [List.length_append, longer, stops]
      omega
    change splice _ _ >>= pure = _
    rw [splice, if_pos inside, ← longer, List.drop_left, List.append_assoc (front ++ Text.asBytes kept), ← begins, List.take_left]
    simp [asBytes_append]

theorem sortedReplacements_ordered {replacements : List ByteReplacement} (disjoint : replacements.Pairwise DisjointRanges)
    (nonempty : ∀ range ∈ replacements, range.start < range.stop) :
    (sortedReplacements replacements).Pairwise fun later earlier => earlier.stop ≤ later.start := by
  have downwards : (sortedReplacements replacements).Pairwise fun left right => decide (right.start ≤ left.start) = true :=
    List.pairwise_mergeSort (fun _ _ _ first second => by simp only [decide_eq_true_eq] at first second ⊢; omega)
      (fun left right => by simp only [Bool.or_eq_true, decide_eq_true_eq]; omega) _
  have perm := List.mergeSort_perm replacements fun left right => decide (right.start ≤ left.start)
  have apart := (perm.pairwise_iff fun ranges => Or.symm ranges).mpr disjoint
  refine (downwards.and apart).imp_of_mem fun {later earlier} _ isEarlier ranges => ?_
  have wide := nonempty earlier (perm.mem_iff.mp isEarlier)
  have order := of_decide_eq_true ranges.1
  have wider := nonempty later (perm.mem_iff.mp ‹_›)
  cases ranges.2 with
  | inl before => omega
  | inr behind => exact behind

theorem disjoined_sortedReplacements {text : Text} {replacements : List ByteReplacement}
    (disjoint : replacements.Pairwise DisjointRanges) (symbols : ∀ range ∈ replacements, SpansSymbols text range) :
    Disjoined Char.utf8Size text ((sortedReplacements replacements).reverse.map (byteEdit text)) := by
  constructor
  · intro edit member
    obtain ⟨range, isRange, rfl⟩ := List.mem_map.mp member
    have spans := symbols range ((List.mergeSort_perm _ _).mem_iff.mp (List.mem_reverse.mp isRange))
    obtain ⟨old, spelled⟩ := spans.spelled
    exact ⟨spans.nonempty.le, by rw [byteEdit, oldText, spelled]; rfl⟩
  · rw [List.pairwise_map, List.pairwise_reverse]
    exact sortedReplacements_ordered disjoint fun range member => (symbols range member).nonempty

/-- Replacing disjoint ranges one after the other, the last one first, replaces all of them at once. -/
theorem foldlM_splice_substituted {text : Text} {replacements : List ByteReplacement}
    (disjoint : replacements.Pairwise DisjointRanges) (symbols : ∀ range ∈ replacements, SpansSymbols text range) :
    ∃ out, SubstitutedAtOnce text replacements out ∧
      (sortedReplacements replacements).foldlM splice text.asBytes = some (Text.asBytes out) := by
  obtain ⟨out, _, spliced⟩ := foldr_replaceRange_spliced Char.utf8Size_pos [] text (disjoined_sortedReplacements disjoint symbols)
    fun _ _ => Nat.zero_le _
  rw [List.nil_append] at spliced
  have ranges : ((sortedReplacements replacements).reverse.map (byteEdit text)).map
      (fun edit => ByteReplacement.mk edit.start edit.stop edit.new) = (sortedReplacements replacements).reverse := by
    rw [List.map_map]
    exact List.map_id _
  refine ⟨out, ⟨_, ?_, spliced⟩, ?_⟩
  · rw [ranges]
    exact (List.reverse_perm _).trans (List.mergeSort_perm _ _)
  · have replaced := foldr_splice spliced [] rfl
    rwa [ranges, List.reverse_reverse] at replaced

/-! ## Declarators and their lists -/

/-- The tree of a text: nodes are nested, and a parameter list begins and ends with one of its tokens, not with a blank. -/
structure TreeOf (text : Text) (root : TsNode) : Prop where
  nested : root.Nested TsLabel.startByte TsLabel.endByte
  tokens : ∀ node : TsNode, node ∈ root.preorder → node.kind = .parameterList → node.startByte < node.endByte ∧
    ¬IsBlankByte (text.asBytes.getD (node.endByte - 1) 0)

def isOwnList (child : TsNode) : Bool := child.label.field = some .parameters && child.kind = .parameterList

/-- The parameter list that belongs to a declarator. -/
def ownList (node : TsNode) : Option TsNode := node.children.find? isOwnList

/-- The nodes that the search for a list visits. -/
def searchedNodes (node : TsNode) : List TsNode :=
  node.visited fun label => [TsKind.compoundStatement, .fieldDeclarationList].contains label.kind

/-- No parameter list of a nested declarator comes first. -/
def OwnListFirst (node : TsNode) : Prop :=
  ∃ before own after, node.children = before ++ own :: after ∧ isOwnList own = true ∧
    ∀ child ∈ before, ∀ inner ∈ searchedNodes child, inner.kind ≠ .parameterList

theorem ownList_eq_some {node own : TsNode} (found : ownList node = some own) :
    own ∈ node.children ∧ own.kind = .parameterList := by
  have isOwn := List.find?_some found
  rw [isOwnList, Bool.and_eq_true] at isOwn
  exact ⟨List.mem_of_find?_eq_some found, of_decide_eq_true isOwn.2⟩

theorem parameterListOf_mem {node found : TsNode} (search : parameterListOf node = some found) :
    found ∈ node.preorder ∧ found.kind = .parameterList := by
  have kind := List.find?_some search
  exact ⟨mem_preorder_of_visited (List.mem_of_find?_eq_some search), by simpa using kind⟩

theorem parameterListOf_declarator {node : TsNode} (declarator : node.kind = .functionDeclarator) :
    parameterListOf node = (node.children.flatMap searchedNodes).find? fun inner => inner.kind = .parameterList := by
  cases node with
  | node label children =>
    have kind : label.kind = .functionDeclarator := declarator
    rw [parameterListOf, TsNode.firstDescendant, visited_node, kind, if_neg (by decide), List.find?_cons_of_neg (by
      rw [show TsNode.kind _ = TsKind.functionDeclarator from declarator]
      decide)]
    congr 1
    funext inner
    simp

theorem parameterListOf_eq_own {node own : TsNode} {before after : List TsNode} (declarator : node.kind = .functionDeclarator)
    (children : node.children = before ++ own :: after) (isOwn : isOwnList own = true)
    (clear : ∀ child ∈ before, ∀ inner ∈ searchedNodes child, inner.kind ≠ .parameterList) :
    parameterListOf node = some own ∧ ownList node = some own := by
  have kind : own.kind = .parameterList := by
    rw [isOwnList, Bool.and_eq_true] at isOwn
    exact of_decide_eq_true isOwn.2
  constructor
  · have none : (before.flatMap searchedNodes).find? (fun inner => inner.kind = .parameterList) = none := by
      rw [List.find?_eq_none]
      intro inner member
      obtain ⟨child, isChild, member⟩ := List.mem_flatMap.mp member
      simpa using clear child isChild inner member
    have first : (searchedNodes own).find? (fun inner => inner.kind = .parameterList) = some own := by
      cases own with
      | node label children =>
        rw [searchedNodes, visited_node, List.find?_cons_of_pos (by simpa using kind)]
    rw [parameterListOf_declarator declarator, children, List.flatMap_append, List.find?_append, none, List.flatMap_cons,
      List.find?_append, first]
    rfl
  · refine List.find?_eq_some_iff_append.mpr ⟨isOwn, before, after, children, ?_⟩
    intro child isChild
    have different := clear child isChild child (mem_visited_self _ child)
    simp [isOwnList, different]

/-- What is found begins where the own list does, so it does not stand in front of it. -/
theorem ownListFirst_of_start {text : Text} {root node found own : TsNode} (parsed : TreeOf text root)
    (inTree : node ∈ root.preorder) (declarator : node.kind = .functionDeclarator) (search : parameterListOf node = some found)
    (isOwn : ownList node = some own) (together : found.startByte = own.startByte) : OwnListFirst node := by
  obtain ⟨isOwn, before, after, children, _⟩ := List.find?_eq_some_iff_append.mp isOwn
  refine ⟨before, own, after, children, isOwn, ?_⟩
  intro child isChild inner member isList
  rw [parameterListOf_declarator declarator, children, List.flatMap_append, List.find?_append] at search
  have some : ((before.flatMap searchedNodes).find? fun inner => inner.kind = .parameterList).isSome := by
    rw [List.find?_isSome]
    exact ⟨inner, List.mem_flatMap.mpr ⟨child, isChild, member⟩, decide_eq_true isList⟩
  obtain ⟨first, isFirst⟩ := Option.isSome_iff_exists.mp some
  rw [isFirst, Option.some_or] at search
  obtain rfl := Option.some.inj search
  obtain ⟨earlier, isEarlier, member⟩ := List.mem_flatMap.mp (List.mem_of_find?_eq_some isFirst)
  have nested := parsed.nested.mem inTree
  have ordered := nested.ordered
  rw [children, List.pairwise_append] at ordered
  have ahead := ordered.2.2 earlier isEarlier own List.mem_cons_self
  have inChildren : earlier ∈ node.children := children ▸ List.mem_append_left _ isEarlier
  have inside := (nested.mem (mem_preorder_child inChildren)).within (mem_preorder_of_visited member)
  have wide := (parsed.tokens first (mem_preorder_trans inTree (mem_preorder_trans (mem_preorder_child inChildren)
    (mem_preorder_of_visited member))) (by simpa using List.find?_some isFirst)).1
  simp only [TsNode.startByte, TsNode.endByte] at wide together
  omega

/-! ## What a declarator asks for -/

section
variable (policy : FunctionVoidParamsPolicy) (host : VoidHost) (text : Text)

/-- An empty list that can be rewritten safely. -/
def editedParams (node : TsNode) : Option EmptyParams :=
  (emptyParams text node).filter fun params => host.isSafeEdit params.line params.column

def replacesList (node : TsNode) : Bool := (editedParams host text node).any fun params => params.paramsText ≠ policy.replacement

def removesBlanks (node : TsNode) : Bool :=
  (editedParams host text node).any fun params =>
    policy.noSpaceBeforeParen && wsStart text.asBytes node.startByte params.paramNode.startByte < params.paramNode.startByte

def rewritesParams (node : TsNode) : Bool := replacesList policy host text node || removesBlanks policy host text node

/-- The ranges that are collected for one declarator. -/
def collectedRanges (node : TsNode) : List ByteReplacement := (applyDeclarator policy host text ⟨[], [], []⟩ node).replacements

variable {policy host text}

theorem applyDeclarator_edited (state : VoidState) (node : TsNode) :
    (applyDeclarator policy host text state node).replacements = state.replacements ++
      (editedParams host text node).elim [] fun params =>
        policy.listReplacements params ++ policy.blankReplacements text node params := by
  unfold applyDeclarator editedParams
  cases emptyParams text node with
  | none => exact (List.append_nil _).symm
  | some params =>
    dsimp only
    rw [Option.filter_some]
    cases host.isSafeEdit params.line params.column with
    | false => exact (List.append_nil _).symm
    | true => exact List.append_assoc _ _ _

theorem applyDeclarator_replacements (state : VoidState) (node : TsNode) :
    (applyDeclarator policy host text state node).replacements = state.replacements ++ collectedRanges policy host text node := by
  rw [collectedRanges, applyDeclarator_edited, applyDeclarator_edited ⟨[], [], []⟩, List.nil_append]

theorem applyDeclarators_replacements (declarators : List TsNode) :
    (policy.applyDeclarators host text declarators).replacements = declarators.flatMap (collectedRanges policy host text) := by
  have general (state : VoidState) : (declarators.foldl (applyDeclarator policy host text) state).replacements =
      state.replacements ++ declarators.flatMap (collectedRanges policy host text) := by
    induction declarators generalizing state with
    | nil => exact (List.append_nil _).symm
    | cons node declarators inductionHypothesis =>
      rw [List.foldl_cons, inductionHypothesis, applyDeclarator_replacements, List.flatMap_cons, List.append_assoc]
  exact general ⟨[], [], []⟩

theorem editedParams_spec {node : TsNode} {params : EmptyParams} (edited : editedParams host text node = some params) :
    parameterListOf node = some params.paramNode ∧ params.paramNode.utf8Text text = some params.paramsText := by
  have empty := (Option.filter_eq_some_iff.mp edited).1
  unfold emptyParams at empty
  split at empty
  · cases empty
  · next paramNode search =>
    split at empty
    · cases empty
    · next paramsText spelled =>
      split at empty
      · cases empty
      · obtain rfl := Option.some.inj empty
        split
        · exact ⟨search, spelled⟩
        · exact ⟨search, spelled⟩

theorem mem_collected {node : TsNode} {range : ByteReplacement} : range ∈ collectedRanges policy host text node ↔
    ∃ params, editedParams host text node = some params ∧
      (replacesList policy host text node = true ∧
          range = ⟨params.paramNode.startByte, params.paramNode.endByte, policy.replacement⟩ ∨
        removesBlanks policy host text node = true ∧
          range = ⟨wsStart text.asBytes node.startByte params.paramNode.startByte, params.paramNode.startByte, []⟩) := by
  rw [collectedRanges, applyDeclarator_edited, List.nil_append]
  unfold replacesList removesBlanks
  cases editedParams host text node with
  | none => simp
  | some params =>
    simp only [Option.elim_some, List.mem_append, listReplacements, blankReplacements, Option.any_some, Option.some.injEq,
      exists_eq_left', List.mem_ite_nil_right, List.mem_singleton, decide_eq_true_eq]

theorem rewritesParams_iff {node : TsNode} : rewritesParams policy host text node = true ↔
    ∃ range, range ∈ collectedRanges policy host text node := by
  simp only [mem_collected]
  unfold rewritesParams replacesList removesBlanks
  cases editedParams host text node with
  | none => simp
  | some params => simp [exists_or]

section
variable {root node : TsNode} (parsed : TreeOf text root) (inTree : node ∈ root.preorder)
include parsed inTree

theorem parameterListOf_within {found : TsNode} (search : parameterListOf node = some found) :
    node.startByte ≤ found.startByte ∧ found.startByte < found.endByte ∧ found.endByte ≤ node.endByte := by
  obtain ⟨member, kind⟩ := parameterListOf_mem search
  have within := (parsed.nested.mem inTree).within member
  exact ⟨within.1, (parsed.tokens found (mem_preorder_trans inTree member) kind).1, within.2⟩

/-- Nothing is replaced behind the list that is found. -/
theorem collectedRanges_within {range : ByteReplacement} (asked : range ∈ collectedRanges policy host text node) :
    ∃ found, parameterListOf node = some found ∧ node.startByte ≤ range.start ∧ range.start < range.stop ∧
      range.stop ≤ found.endByte ∧ found.endByte ≤ node.endByte := by
  obtain ⟨params, edited, ways⟩ := mem_collected.mp asked
  have search := (editedParams_spec edited).1
  obtain ⟨behind, wide, inside⟩ := parameterListOf_within parsed inTree search
  refine ⟨params.paramNode, search, ?_⟩
  cases ways with
  | inl listed =>
    obtain ⟨_, rfl⟩ := listed
    exact ⟨behind, wide, le_rfl, inside⟩
  | inr blank =>
    obtain ⟨removed, rfl⟩ := blank
    rw [removesBlanks, edited, Option.any_some, Bool.and_eq_true] at removed
    exact ⟨le_wsStart behind, of_decide_eq_true removed.2, wide.le, inside⟩

theorem collectedRanges_spans {range : ByteReplacement} (asked : range ∈ collectedRanges policy host text node) :
    SpansSymbols text range := by
  obtain ⟨_, _, _, nonempty, _, _⟩ := collectedRanges_within parsed inTree asked
  refine ⟨nonempty, ?_⟩
  obtain ⟨params, edited, ways⟩ := mem_collected.mp asked
  have spelled := (editedParams_spec edited).2
  cases ways with
  | inl listed =>
    obtain ⟨_, rfl⟩ := listed
    exact ⟨_, spelled⟩
  | inr blank =>
    obtain ⟨_, rfl⟩ := blank
    obtain ⟨front, back, cut, starts, _⟩ := (slice_eq_some_iff Char.utf8Size_pos).mp spelled
    obtain ⟨kept, blanks, rfl, measured⟩ := wsStart_cut node.startByte front (params.paramsText ++ back)
    have long : byteLength (kept ++ blanks) = params.paramNode.startByte := starts
    rw [long, ← List.append_assoc, ← cut] at measured
    refine ⟨blanks, (slice_eq_some_iff Char.utf8Size_pos).mpr ⟨kept, params.paramsText ++ back, ?_, measured, ?_⟩⟩
    · rw [cut, List.append_assoc (kept ++ blanks)]
    · rw [byteLength_append, measured] at long
      change byteLength blanks = _
      simp only
      omega

end

/-! ## One declarator below another -/

section
variable {root outer inner : TsNode}

/-- A list in front of the blanks ends before them. -/
theorem le_wsStart_of_token (nodeStart : Nat) {offset stop : Nat} (before : stop ≤ offset) (nonempty : 0 < stop)
    (token : ¬IsBlankByte (text.asBytes.getD (stop - 1) 0)) : stop ≤ wsStart text.asBytes nodeStart offset := by
  by_contra inside
  exact token (wsStart_blank (Nat.le_sub_one_of_lt (Nat.lt_of_not_le inside)) (by omega))

theorem disjoint_of_nested (parsed : TreeOf text root) (outerInTree : outer ∈ root.preorder)
    (declarator : outer.kind = .functionDeclarator) (first : OwnListFirst outer) (isInner : inner ∈ outer.preorder)
    (different : inner ≠ outer)
    (outside : ∀ own, ownList outer = some own → replacesList policy host text outer = true → inner ∉ own.preorder)
    {range other : ByteReplacement} (asked : range ∈ collectedRanges policy host text outer)
    (alsoAsked : other ∈ collectedRanges policy host text inner) : DisjointRanges range other := by
  obtain ⟨before, own, after, children, isOwn, clear⟩ := first
  obtain ⟨search, ownIs⟩ := parameterListOf_eq_own declarator children isOwn clear
  obtain ⟨child, isChild, member⟩ := (mem_preorder.mp isInner).resolve_left different
  have nested := parsed.nested.mem outerInTree
  have ordered := nested.ordered
  rw [children, List.pairwise_append, List.pairwise_cons] at ordered
  have innerInTree := mem_preorder_trans outerInTree isInner
  obtain ⟨found, innerSearch, behindStart, nonempty, beforeEnd, insideEnd⟩ := collectedRanges_within parsed innerInTree alsoAsked
  have inChild := (nested.mem (mem_preorder_child isChild)).within member
  obtain ⟨params, edited, ways⟩ := mem_collected.mp asked
  obtain rfl : own = params.paramNode := Option.some.inj (search.symm.trans (editedParams_spec edited).1)
  have wide := (parameterListOf_within parsed outerInTree search).2.1
  simp only [TsNode.startByte, TsNode.endByte] at behindStart beforeEnd insideEnd wide
  rw [children, List.mem_append, List.mem_cons] at isChild
  obtain isBefore | rfl | isAfter := isChild
  · -- The inner list ends where the outer one begins, or before the blanks in front of that
    have ahead := ordered.2.2 child isBefore params.paramNode List.mem_cons_self
    cases ways with
    | inl listed =>
      obtain ⟨_, rfl⟩ := listed
      right
      simp only [TsNode.startByte]
      omega
    | inr blank =>
      obtain ⟨_, rfl⟩ := blank
      obtain ⟨foundInside, isList⟩ := parameterListOf_mem innerSearch
      have token := (parsed.tokens found (mem_preorder_trans innerInTree foundInside) isList).2
      simp only [TsNode.endByte] at token
      have inFront : found.label.endByte ≤ params.paramNode.startByte := by
        simp only [TsNode.startByte]
        omega
      right
      exact beforeEnd.trans (le_wsStart_of_token outer.startByte inFront (by omega) token)
  · cases ways with
    | inl listed => exact absurd member (outside _ ownIs listed.1)
    | inr blank =>
      obtain ⟨_, rfl⟩ := blank
      left
      simp only [TsNode.startByte]
      omega
  · have behind := ordered.2.1.1 child isAfter
    left
    cases ways with
    | inl listed =>
      obtain ⟨_, rfl⟩ := listed
      simp only [TsNode.endByte]
      omega
    | inr blank =>
      obtain ⟨_, rfl⟩ := blank
      simp only [TsNode.startByte]
      omega

end

/-! ## All declarators -/

/-- Neither declarator stands in a list of the other one that is replaced. -/
structure SeparateLists (policy : FunctionVoidParamsPolicy) (host : VoidHost) (text : Text) (left right : TsNode) : Prop where
  different : left ≠ right
  notInLeft : ∀ own, ownList left = some own → replacesList policy host text left = true → right ∉ own.preorder
  notInRight : ∀ own, ownList right = some own → replacesList policy host text right = true → left ∉ own.preorder

/-- A declarator that is rewritten has its own list in front of all others, and is met once, outside of lists that are replaced. -/
structure OwnLists (policy : FunctionVoidParamsPolicy) (host : VoidHost) (text : Text) (declarators : List TsNode) : Prop where
  first : ∀ node ∈ declarators, rewritesParams policy host text node = true → OwnListFirst node
  separate : declarators.Pairwise fun left right =>
    rewritesParams policy host text left = true → rewritesParams policy host text right = true →
      SeparateLists policy host text left right

/-- A range is the list of a declarator, or the blanks in front of it. -/
def CoversOwn (policy : FunctionVoidParamsPolicy) (own : TsNode) (range : ByteReplacement) : Prop :=
  range = ⟨own.startByte, own.endByte, policy.replacement⟩ ∨ range.stop = own.startByte ∧ range.replacement = []

/-- The ranges are disjoint, each the list of its own declarator or the blanks in front of it, and the output is the text with all
of them replaced. -/
structure SubstitutedOnce (policy : FunctionVoidParamsPolicy) (host : VoidHost) (text : Text) (declarators : List TsNode) :
    Prop where
  disjoint : (policy.applyDeclarators host text declarators).replacements.Pairwise DisjointRanges
  once : (policy.applyDeclarators host text declarators).replacements.Nodup
  owned : ∀ node ∈ declarators, ∀ range ∈ collectedRanges policy host text node,
    ∃ own, ownList node = some own ∧ CoversOwn policy own range
  substituted : ∃ result, policy.apply host text declarators = some result ∧
    SubstitutedAtOnce text (policy.applyDeclarators host text declarators).replacements (result.written text)

section
variable {root : TsNode} {declarators : List TsNode}

theorem replacement_ne_nil : policy.replacement ≠ [] := by
  unfold replacement
  split <;> simp

theorem OwnLists.disjoint (parsed : TreeOf text root)
    (inTree : ∀ node ∈ declarators, node ∈ root.preorder ∧ node.kind = .functionDeclarator)
    (own : OwnLists policy host text declarators) :
    (policy.applyDeclarators host text declarators).replacements.Pairwise DisjointRanges := by
  rw [applyDeclarators_replacements, List.pairwise_flatMap]
  constructor
  · intro node _
    rw [collectedRanges, applyDeclarator_edited]
    cases editedParams host text node with
    | none => exact .nil
    | some params =>
      simp only [List.nil_append, Option.elim_some, listReplacements, blankReplacements]
      split <;> split <;> simp [DisjointRanges]
  · refine own.separate.imp_of_mem fun {left right} isLeft isRight separate range asked other alsoAsked => ?_
    have leftRewritten := rewritesParams_iff.mpr ⟨range, asked⟩
    have rightRewritten := rewritesParams_iff.mpr ⟨other, alsoAsked⟩
    have separate := separate leftRewritten rightRewritten
    obtain ⟨leftInTree, leftKind⟩ := inTree left isLeft
    obtain ⟨rightInTree, rightKind⟩ := inTree right isRight
    obtain below | above | before | behind := parsed.nested.apart leftInTree rightInTree
    · have apart := disjoint_of_nested parsed rightInTree rightKind (own.first right isRight rightRewritten) below
        separate.different separate.notInRight alsoAsked asked
      exact Or.symm apart
    · exact disjoint_of_nested parsed leftInTree leftKind (own.first left isLeft leftRewritten) above separate.different.symm
        separate.notInLeft asked alsoAsked
    · obtain ⟨_, _, _, _, stops, within⟩ := collectedRanges_within parsed leftInTree asked
      obtain ⟨_, _, starts, _, _, _⟩ := collectedRanges_within parsed rightInTree alsoAsked
      exact .inl ((stops.trans within).trans (before.trans starts))
    · obtain ⟨_, _, starts, _, _, _⟩ := collectedRanges_within parsed leftInTree asked
      obtain ⟨_, _, _, _, stops, within⟩ := collectedRanges_within parsed rightInTree alsoAsked
      exact .inr ((stops.trans within).trans (behind.trans starts))

theorem collectedRanges_coversOwn {node : TsNode} (declarator : node.kind = .functionDeclarator) (first : OwnListFirst node)
    {range : ByteReplacement} (asked : range ∈ collectedRanges policy host text node) :
    ∃ own, ownList node = some own ∧ CoversOwn policy own range := by
  obtain ⟨before, own, after, children, isOwn, clear⟩ := first
  obtain ⟨search, ownIs⟩ := parameterListOf_eq_own declarator children isOwn clear
  obtain ⟨params, edited, ways⟩ := mem_collected.mp asked
  obtain rfl : own = params.paramNode := Option.some.inj (search.symm.trans (editedParams_spec edited).1)
  refine ⟨params.paramNode, ownIs, ?_⟩
  cases ways with
  | inl listed => exact .inl listed.2
  | inr blank => exact .inr ⟨congrArg ByteReplacement.stop blank.2, congrArg ByteReplacement.replacement blank.2⟩

section
variable (parsed : TreeOf text root) (inTree : ∀ node ∈ declarators, node ∈ root.preorder ∧ node.kind = .functionDeclarator)
include parsed inTree

theorem replacements_spans : ∀ range ∈ (policy.applyDeclarators host text declarators).replacements, SpansSymbols text range := by
  intro range asked
  rw [applyDeclarators_replacements] at asked
  obtain ⟨node, isNode, asked⟩ := List.mem_flatMap.mp asked
  exact collectedRanges_spans parsed (inTree node isNode).1 asked

theorem apply_substituted (lossless : ∀ text : Text, host.fromUtf8Lossy text.asBytes = text)
    (disjoint : (policy.applyDeclarators host text declarators).replacements.Pairwise DisjointRanges) :
    ∃ result, policy.apply host text declarators = some result ∧
      SubstitutedAtOnce text (policy.applyDeclarators host text declarators).replacements (result.written text) := by
  obtain ⟨out, substituted, replaced⟩ := foldlM_splice_substituted disjoint (replacements_spans parsed inTree)
  unfold FunctionVoidParamsPolicy.apply
  dsimp only
  split
  · next empty =>
    rw [empty]
    exact ⟨_, rfl, [], .refl _, .done 0 text⟩
  · rw [replaced]
    refine ⟨_, rfl, ?_⟩
    rw [PolicyResult.written, if_pos rfl]
    simpa only [lossless out] using substituted

theorem replacements_nodup (disjoint : (policy.applyDeclarators host text declarators).replacements.Pairwise DisjointRanges) :
    (policy.applyDeclarators host text declarators).replacements.Nodup := by
  refine disjoint.imp_of_mem fun {left right} isLeft _ apart same => ?_
  have wide := (replacements_spans parsed inTree left isLeft).nonempty
  subst same
  cases apart with
  | inl before => omega
  | inr behind => omega

/-- A range that covers the own list or ends in front of it says where the search ended. -/
theorem SubstitutedOnce.ownListFirst (substituted : SubstitutedOnce policy host text declarators) {node : TsNode}
    (isNode : node ∈ declarators) (rewritten : rewritesParams policy host text node = true) : OwnListFirst node := by
  obtain ⟨range, asked⟩ := rewritesParams_iff.mp rewritten
  obtain ⟨own, isOwn, covers⟩ := substituted.owned node isNode range asked
  obtain ⟨params, edited, ways⟩ := mem_collected.mp asked
  refine ownListFirst_of_start parsed (inTree node isNode).1 (inTree node isNode).2 (editedParams_spec edited).1 isOwn ?_
  cases ways with
  | inl listed =>
    obtain ⟨_, rfl⟩ := listed
    cases covers with
    | inl same => exact congrArg ByteReplacement.start same
    | inr empty => exact absurd empty.2 replacement_ne_nil
  | inr blank =>
    obtain ⟨_, rfl⟩ := blank
    cases covers with
    | inl same => exact absurd (congrArg ByteReplacement.replacement same).symm replacement_ne_nil
    | inr stops => exact stops.1

/-- What a declarator in a replaced list asks for would lie in that list. -/
theorem SubstitutedOnce.outside (substituted : SubstitutedOnce policy host text declarators) {outer inner own : TsNode}
    (isOuter : outer ∈ declarators) (isOwn : ownList outer = some own) (replaced : replacesList policy host text outer = true)
    {range : ByteReplacement} (asked : range ∈ collectedRanges policy host text inner)
    (apart : ∀ other ∈ collectedRanges policy host text outer, DisjointRanges other range) : inner ∉ own.preorder := by
  intro isInner
  have outerInTree := (inTree outer isOuter).1
  have isChild := (ownList_eq_some isOwn).1
  have within := (parsed.nested.mem (mem_preorder_trans outerInTree (mem_preorder_child isChild))).within isInner
  have innerInTree := mem_preorder_trans outerInTree (mem_preorder_trans (mem_preorder_child isChild) isInner)
  obtain ⟨_, _, starts, nonempty, stops, inside⟩ := collectedRanges_within parsed innerInTree asked
  obtain ⟨params, edited⟩ : ∃ params, editedParams host text outer = some params := by
    unfold replacesList at replaced
    cases edited : editedParams host text outer with
    | none => rw [edited] at replaced; cases replaced
    | some params => exact ⟨params, rfl⟩
  have listed : _ ∈ collectedRanges policy host text outer := mem_collected.mpr ⟨params, edited, .inl ⟨replaced, rfl⟩⟩
  obtain ⟨_, sameOwn, covers⟩ := substituted.owned outer isOuter _ listed
  obtain rfl := Option.some.inj (isOwn.symm.trans sameOwn)
  have same := covers.resolve_right fun empty => replacement_ne_nil empty.2
  have separated := apart _ listed
  rw [same] at separated
  simp only [DisjointRanges, TsNode.startByte, TsNode.endByte] at separated starts stops inside
  omega

end

end

end

/-- A compiler that knows every place, and texts read as UTF-8. -/
def openHost : VoidHost where
  fromUtf8Lossy bytes := (bytes.toByteArray.utf8Decode?.map Array.toList).getD []
  isSafeEdit _ _ := true

theorem openHost_lossless (text : Text) : openHost.fromUtf8Lossy text.asBytes = text := by
  have decoded := List.utf8Decode?_utf8Encode (l := text)
  unfold List.utf8Encode at decoded
  change ((Text.asBytes text).toByteArray.utf8Decode?.map Array.toList).getD [] = text
  rw [Text.asBytes, decoded]
  simp

/-- A node of a text of one line. -/
def nodeOnLine (kind : TsKind) (field : Option TsField) (named : Bool) (start stop : Nat) (children : List TsNode) : TsNode :=
  .node ⟨kind, field, named, start, stop, 0, start⟩ children

def tokenAt (start stop : Nat) : TsNode := nodeOnLine (.unknown 0) none false start stop []

def emptyListAt (start : Nat) : TsNode :=
  nodeOnLine .parameterList (some .parameters) true start (start + 2) [tokenAt start (start + 1), tokenAt (start + 1) (start + 2)]

def identifierAt (start : Nat) : TsNode := nodeOnLine .identifier (some .declarator) true start (start + 1) []

def functionDeclarators (root : TsNode) : List TsNode := root.preorder.filter fun node => node.kind = .functionDeclarator

theorem mem_functionDeclarators {root node : TsNode} (member : node ∈ functionDeclarators root) :
    node ∈ root.preorder ∧ node.kind = .functionDeclarator := by
  simpa [functionDeclarators] using member

theorem treeOf_of_preorder {text : Text} {root : TsNode}
    (spans : ∀ node ∈ root.preorder, node.label.startByte ≤ node.label.endByte ∧
      node.children.Pairwise (fun earlier later => earlier.label.endByte ≤ later.label.startByte) ∧
      ∀ child ∈ node.children, node.label.startByte ≤ child.label.startByte ∧ child.label.endByte ≤ node.label.endByte)
    (tokens : ∀ node ∈ root.preorder, node.label.kind = .parameterList → node.label.startByte < node.label.endByte ∧
      ¬IsBlankByte (text.asBytes.getD (node.label.endByte - 1) 0)) : TreeOf text root :=
  ⟨nested_of_preorder spans, tokens⟩

def twoText : Text := "int f (), g();".toList

def twoTree : TsNode :=
  nodeOnLine (.unknown 1) none true 0 14
    [nodeOnLine (.unknown 2) none true 0 14
      [nodeOnLine (.unknown 3) (some .type) true 0 3 [],
        nodeOnLine .functionDeclarator (some .declarator) true 4 8 [identifierAt 4, emptyListAt 6], tokenAt 8 9,
        nodeOnLine .functionDeclarator (some .declarator) true 10 13 [identifierAt 10, emptyListAt 11], tokenAt 13 14]]

theorem twoTree_parsed : TreeOf twoText twoTree := treeOf_of_preorder (by decide +kernel) (by decide +kernel)

theorem twoTree_ownLists : OwnLists ⟨true, true⟩ openHost twoText (functionDeclarators twoTree) := by
  have listed : functionDeclarators twoTree =
      [nodeOnLine .functionDeclarator (some .declarator) true 4 8 [identifierAt 4, emptyListAt 6],
        nodeOnLine .functionDeclarator (some .declarator) true 10 13 [identifierAt 10, emptyListAt 11]] := rfl
  have noneInside (start : Nat) : ∀ inner : TsNode, inner ∈ (emptyListAt start).preorder → inner.kind ≠ .functionDeclarator := by
    intro inner member
    have kinds : ((emptyListAt start).preorder.all fun inner : TsNode => inner.kind ≠ .functionDeclarator) = true := rfl
    simpa using List.all_eq_true.mp kinds inner member
  rw [listed]
  constructor
  · intro node member _
    simp only [List.mem_cons, List.not_mem_nil, or_false] at member
    obtain rfl | rfl := member
    · exact ⟨[identifierAt 4], emptyListAt 6, [], rfl, rfl, by decide +kernel⟩
    · exact ⟨[identifierAt 10], emptyListAt 11, [], rfl, rfl, by decide +kernel⟩
  · rw [List.pairwise_pair]
    intro _ _
    refine ⟨fun same => ?_, fun own isOwn _ member => ?_, fun own isOwn _ member => ?_⟩
    · exact absurd (congrArg TsNode.startByte same) (by decide)
    · obtain rfl : emptyListAt 6 = own := Option.some.inj isOwn
      exact noneInside 6 _ member rfl
    · obtain rfl : emptyListAt 11 = own := Option.some.inj isOwn
      exact noneInside 11 _ member rfl

def pointerText : Text := "int (*f())();".toList

def pointerTree : TsNode :=
  nodeOnLine (.unknown 1) none true 0 13
    [nodeOnLine (.unknown 2) none true 0 13
      [nodeOnLine (.unknown 3) (some .type) true 0 3 [],
        nodeOnLine .functionDeclarator (some .declarator) true 4 12
          [nodeOnLine (.unknown 4) (some .declarator) true 4 10
            [tokenAt 4 5,
              nodeOnLine (.unknown 5) none true 5 9
                [tokenAt 5 6, nodeOnLine .functionDeclarator (some .declarator) true 6 9 [identifierAt 6, emptyListAt 7]],
              tokenAt 9 10],
            emptyListAt 10],
        tokenAt 12 13]]

end MjFormatter.Verified
