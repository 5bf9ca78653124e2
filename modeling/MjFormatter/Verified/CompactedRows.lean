import MjFormatter.Library.Tiling
import MjFormatter.Policy.CompactDecls
import MjFormatter.Verified.OperatorSpacing

/-! # What stays of rows that are compacted

A group of rows becomes one line that is built from the first name of one declaration of each row.  It has all that was
on the rows when there was nothing else on them. -/

namespace MjFormatter.Verified

open Library CompactDecls

/-! ## Texts with a separator -/

/-- The length of all the texts when each has a separator. -/
def joinedLength (separator : Text) : List Text → Nat
  | [] => 0
  | text :: texts => text.length + separator.length + joinedLength separator texts

theorem length_intercalate (separator : Text) {texts : List Text} (nonempty : texts ≠ []) :
    (separator.intercalate texts).length + separator.length = joinedLength separator texts := by
  induction texts with
  | nil => exact absurd rfl nonempty
  | cons text texts inductionHypothesis =>
    cases texts with
    | nil => simp [joinedLength, List.intercalate]
    | cons next further =>
      have rest := inductionHypothesis (List.cons_ne_nil _ _)
      rw [List.intercalate_cons_cons, List.length_append, List.length_append, joinedLength]
      omega

theorem joinedLength_le (separator : Text) {some_of texts : List Text} (part : some_of.Sublist texts) :
    joinedLength separator some_of ≤ joinedLength separator texts := by
  induction part with
  | slnil => exact Nat.le_refl _
  | cons text part inductionHypothesis =>
    rw [joinedLength]
    omega
  | cons_cons text part inductionHypothesis =>
    rw [joinedLength, joinedLength]
    omega

theorem eq_of_joinedLength {separator : Text} (wide : separator ≠ []) {some_of texts : List Text}
    (part : some_of.Sublist texts) (same : joinedLength separator some_of = joinedLength separator texts) :
    some_of = texts := by
  induction part with
  | slnil => rfl
  | cons text part inductionHypothesis =>
    have less := joinedLength_le separator part
    have positive := List.length_pos_iff.mpr wide
    rw [joinedLength] at same
    omega
  | cons_cons text part inductionHypothesis =>
    rw [joinedLength, joinedLength, Nat.add_left_cancel_iff] at same
    rw [inductionHypothesis same]

/-- Texts that are some of others make a shorter text, unless they are all of them. -/
theorem length_intercalate_le (separator : Text) {some_of texts : List Text} (nonempty : some_of ≠ [])
    (part : some_of.Sublist texts) : (separator.intercalate some_of).length ≤ (separator.intercalate texts).length := by
  have others : texts ≠ [] := by
    rintro rfl
    exact nonempty (List.sublist_nil.mp part)
  have less := joinedLength_le separator part
  have first := length_intercalate separator nonempty
  have second := length_intercalate separator others
  omega

theorem eq_of_length_intercalate {separator : Text} (wide : separator ≠ []) {some_of texts : List Text}
    (nonempty : some_of ≠ []) (part : some_of.Sublist texts)
    (same : (separator.intercalate texts).length ≤ (separator.intercalate some_of).length) : some_of = texts := by
  have others : texts ≠ [] := by
    rintro rfl
    exact nonempty (List.sublist_nil.mp part)
  have less := length_intercalate_le separator nonempty part
  have first := length_intercalate separator nonempty
  have second := length_intercalate separator others
  exact eq_of_joinedLength wide part (by omega)

/-! ## What the nodes declare -/

/-- A child that says something about the type of the names. -/
def isSpecifier (child : ChildNode) : Bool :=
  child.field ≠ some .declarator && child.kind ≠ .semicolon && child.kind ≠ .comma

def specifiers (node : DeclarationNode) : List ChildNode := node.children.filter isSpecifier

def declarators (node : DeclarationNode) : List ChildNode :=
  node.children.filter fun child => child.field = some .declarator

/-- The specifiers that become part of the compacted type. -/
def takenSpecifiers (declarator typeNode : ChildNode) (children : List ChildNode) : List ChildNode :=
  (children.takeWhile fun child => ¬(child.id = declarator.id ∨ child.kind = .semicolon)).filter fun child =>
    child.kind = .typeQualifier ∨ child.kind = .storageClassSpecifier ∨ child.id = typeNode.id

section
variable (text : Text)

def childText (child : ChildNode) : Text := (utf8Text text child).getD []

def typeOf (node : DeclarationNode) : Text := [' '].intercalate ((specifiers node).map (childText text))

/-- The variables of a declaration: their type with all its specifiers, and their declarators with what initialises them. -/
def variablesOf (node : DeclarationNode) : List (Text × Text) :=
  (declarators node).map fun declarator => (typeOf text node, childText text declarator)

def onRow (row : Nat) (node : DeclarationNode) : Bool := node.startRow = row && node.endRow = row

variable (nodes : List DeclarationNode)

def variablesOn (row : Nat) : List (Text × Text) := (nodes.filter (onRow row)).flatMap (variablesOf text)

/-- What is on a row at the offsets that are not covered, when so many rows are in front of it. -/
def uncovered (covered : Nat → Bool) : Nat → Nat → Text → Text
  | _, _, [] => []
  | offset, rows, symbol :: rest =>
    if symbol = '\n' then
      match rows with
      | 0 => []
      | rows + 1 => uncovered covered (offset + symbol.utf8Size) rows rest
    else
      (if rows = 0 ∧ covered offset = false then [symbol] else []) ++
        uncovered covered (offset + symbol.utf8Size) rows rest

/-- What is on a row beside its declarations. -/
def otherText (row : Nat) : Text :=
  uncovered (fun offset => nodes.any fun node => onRow row node && node.byteStart ≤ offset && offset < node.byteEnd) 0 row text

/-- The tree gives a declaration its first child, distinct children, a declarator, and texts to its children. -/
structure WellParsed (node : DeclarationNode) : Prop where
  first : ∀ child ∈ node.children.head?, child.byteStart = node.byteStart
  distinct : (node.children.map ChildNode.id).Nodup
  declared : ∃ child ∈ node.children, child.field = some .declarator
  separators : ∀ child ∈ node.children, child.kind = .comma → child.field = none
  specified : ∀ child ∈ node.children, isSpecifier child = true → ∃ word, utf8Text text child = some word ∧ Solid word

end

variable {text : Text} {nodes : List DeclarationNode} {node : DeclarationNode}

theorem childByField_split {field : ChildField} {child : ChildNode} (found : node.childByField field = some child) :
    child.field = some field ∧ ∃ front back, node.children = front ++ child :: back ∧
      ∀ other ∈ front, other.field ≠ some field := by
  obtain ⟨here, front, back, split, others⟩ := List.find?_eq_some_iff_append.mp found
  exact ⟨of_decide_eq_true here, front, back, split, fun other member => by simpa using others other member⟩

theorem WellParsed.eq_of_id (parsed : WellParsed text node) {child other : ChildNode} (member : child ∈ node.children)
    (there : other ∈ node.children) (same : child.id = other.id) : child = other :=
  List.inj_on_of_nodup_map parsed.distinct member there same

/-- What is taken are specifiers. -/
theorem takenSpecifiers_sublist (parsed : WellParsed text node) {declarator typeNode : ChildNode}
    (declares : node.childByField .declarator = some declarator) (typed : node.childByField .type = some typeNode) :
    (takenSpecifiers declarator typeNode node.children).Sublist (specifiers node) := by
  have specifies : ∀ child ∈ takenSpecifiers declarator typeNode node.children, isSpecifier child = true := by
    intro child member
    obtain ⟨inFront, taken⟩ := List.mem_filter.mp member
    have passed : ¬(child.id = declarator.id ∨ child.kind = .semicolon) := by
      simpa using List.mem_takeWhile_imp inFront
    have there := (List.takeWhile_sublist _).subset inFront
    -- The declarator is the first of its field
    obtain ⟨_, front, back, split, others⟩ := childByField_split declares
    have before : child ∈ front := by
      rw [split, List.takeWhile_append] at inFront
      split at inFront
      · simpa using inFront
      · exact (List.takeWhile_sublist _).subset inFront
    have comma : child.kind ≠ .comma := by
      intro comma
      have same : child.id = typeNode.id := by simpa [comma] using of_decide_eq_true taken
      obtain ⟨field, _, _, split', _⟩ := childByField_split typed
      have here : typeNode ∈ node.children := by rw [split']; simp
      rw [parsed.eq_of_id there here same] at comma
      rw [parsed.separators typeNode here comma] at field
      cases field
    simp only [not_or] at passed
    simp [isSpecifier, others child before, passed.2, comma]
  rw [← List.filter_eq_self.mpr specifies]
  exact (List.filter_sublist.trans (List.takeWhile_sublist _)).filter _

theorem takenSpecifiers_cons (declarator typeNode child : ChildNode) (rest : List ChildNode) :
    takenSpecifiers declarator typeNode (child :: rest) =
      if child.id = declarator.id ∨ child.kind = .semicolon then []
      else if child.kind = .typeQualifier ∨ child.kind = .storageClassSpecifier ∨ child.id = typeNode.id then
        child :: takenSpecifiers declarator typeNode rest
      else takenSpecifiers declarator typeNode rest := by
  rw [takenSpecifiers, List.takeWhile_cons]
  by_cases stops : child.id = declarator.id ∨ child.kind = .semicolon
  · rw [if_pos stops, if_neg (by rw [decide_eq_true_eq]; exact not_not.mpr stops)]
    rfl
  · rw [if_neg stops, if_pos (by simpa using stops), List.filter_cons]
    by_cases taken : child.kind = .typeQualifier ∨ child.kind = .storageClassSpecifier ∨ child.id = typeNode.id
    · rw [if_pos taken, if_pos (by simpa using taken)]
      rfl
    · rw [if_neg taken, if_neg (by simpa using taken)]
      rfl

theorem typePrefixParts_eq {declarator typeNode : ChildNode} {typeText : Text} {children : List ChildNode}
    (texts : ∀ child ∈ takenSpecifiers declarator typeNode children, utf8Text text child = some (childText text child) ∧
      (child.id = typeNode.id → childText text child = typeText)) :
    typePrefixParts text declarator typeNode typeText children =
      (takenSpecifiers declarator typeNode children).map (childText text) := by
  induction children with
  | nil => rfl
  | cons child rest inductionHypothesis =>
    rw [takenSpecifiers_cons] at texts ⊢
    rw [typePrefixParts]
    by_cases stops : child.id = declarator.id ∨ child.kind = .semicolon
    · rw [if_pos stops, if_pos stops]
      rfl
    · rw [if_neg stops] at texts
      rw [if_neg stops, if_neg stops]
      by_cases taken : child.kind = .typeQualifier ∨ child.kind = .storageClassSpecifier ∨ child.id = typeNode.id
      · rw [if_pos taken] at texts
        have here := texts child List.mem_cons_self
        have further := inductionHypothesis fun other member => texts other (List.mem_cons_of_mem _ member)
        rw [if_pos taken, List.map_cons, ← further]
        by_cases qualifies : child.kind = .typeQualifier ∨ child.kind = .storageClassSpecifier
        · rw [if_pos qualifies, here.1]
          rfl
        · have type : child.id = typeNode.id := by
            rw [← or_assoc] at taken
            exact taken.resolve_left qualifies
          rw [if_neg qualifies, if_pos type, here.2 type]
      · rw [if_neg taken] at texts
        have none : ¬(child.kind = .typeQualifier ∨ child.kind = .storageClassSpecifier) ∧ child.id ≠ typeNode.id := by
          rw [← or_assoc, not_or] at taken
          exact taken
        rw [if_neg taken, if_neg none.1, if_neg none.2, inductionHypothesis texts]

/-- A candidate, and the declaration that it is of. -/
structure CandidateOf (text : Text) (node : DeclarationNode) (row : Nat) (candidate : CandidateDecl)
    (declarator typeNode : ChildNode) : Prop where
  startRow : node.startRow = row
  endRow : node.endRow = row
  declares : node.childByField .declarator = some declarator
  typed : node.childByField .type = some typeNode
  name : candidate.name = childText text declarator
  typePrefix : candidate.typePrefix =
    [' '].intercalate ((takenSpecifiers declarator typeNode node.children).map (childText text))
  nonempty : candidate.typePrefix ≠ []
  indent : candidate.indent = []

theorem indentOf_eq_nil (parsed : WellParsed text node) : indentOf text node = [] := by
  have starts : (node.children.head?.map ChildNode.byteStart).getD node.byteStart = node.byteStart := by
    cases first : node.children.head? with
    | none => rfl
    | some child => exact parsed.first child first
  rw [indentOf, starts]
  cases cut : slice Char.utf8Size text node.byteStart node.byteStart with
  | none => rfl
  | some part =>
    obtain ⟨_, _, _, _, width⟩ := (slice_eq_some_iff Char.utf8Size_pos).mp cut
    rw [Nat.sub_self] at width
    exact eq_nil_of_measure Char.utf8Size_pos width

theorem utf8Text_childText {child : ChildNode} {word : Text} (found : utf8Text text child = some word) :
    childText text child = word := by
  rw [childText, found, Option.getD_some]

theorem candidateFromNode_eq_some (parsed : WellParsed text node) {row : Nat} {candidate : CandidateDecl}
    (found : candidateFromNode text node = some (row, candidate)) :
    ∃ declarator typeNode, CandidateOf text node row candidate declarator typeNode := by
  rw [candidateFromNode] at found
  split at found
  · cases found
  · next oneRow =>
    obtain ⟨declarator, declares, found⟩ := Option.bind_eq_some_iff.mp found
    split at found
    · cases found
    · obtain ⟨typeNode, typed, found⟩ := Option.bind_eq_some_iff.mp found
      obtain ⟨typeText, typeFound, found⟩ := Option.bind_eq_some_iff.mp found
      split at found
      · cases found
      · have texts : ∀ child ∈ takenSpecifiers declarator typeNode node.children,
            utf8Text text child = some (childText text child) ∧ (child.id = typeNode.id → childText text child = typeText) := by
          intro child member
          have specifier := (takenSpecifiers_sublist parsed declares typed).subset member
          obtain ⟨there, specifies⟩ := List.mem_filter.mp specifier
          obtain ⟨word, cut, _⟩ := parsed.specified child there specifies
          refine ⟨by rw [utf8Text_childText cut, cut], ?_⟩
          intro same
          obtain ⟨_, _, _, split', _⟩ := childByField_split typed
          have here : typeNode ∈ node.children := by rw [split']; simp
          rw [parsed.eq_of_id there here same, utf8Text_childText typeFound]
        have parts := typePrefixParts_eq texts
        simp only [parts] at found
        split at found
        · cases found
        · next nonempty =>
          obtain ⟨name, nameFound, found⟩ := Option.bind_eq_some_iff.mp found
          split at found
          · cases found
          · rw [Option.some.injEq, Prod.mk.injEq] at found
            obtain ⟨here, rfl⟩ := found
            exact ⟨declarator, typeNode, {
              startRow := here
              endRow := by rw [← here]; exact (not_not.mp oneRow).symm
              declares := declares
              typed := typed
              name := (utf8Text_childText nameFound).symm
              typePrefix := rfl
              nonempty := nonempty
              indent := indentOf_eq_nil parsed }⟩

/-- The candidate of a row is of a declaration on the row. -/
theorem candidateMap_eq_some {declNodes : List DeclarationNode} {row : Nat} {candidate : CandidateDecl}
    (found : candidateMap text declNodes row = some candidate) :
    ∃ node ∈ declNodes, candidateFromNode text node = some (row, candidate) := by
  rw [candidateMap] at found
  have any : ∀ (entries : List (Nat × CandidateDecl)) (start : Nat → Option CandidateDecl),
      entries.foldl (fun map entry row => if row = entry.1 then some entry.2 else map row) start row = some candidate →
        start row = some candidate ∨ (row, candidate) ∈ entries := by
    intro entries
    induction entries with
    | nil => exact fun start here => .inl here
    | cons entry entries inductionHypothesis =>
      intro start here
      cases inductionHypothesis _ here with
      | inl first =>
        dsimp only at first
        split at first
        · next same =>
          rw [Option.some.injEq] at first
          exact .inr (List.mem_cons.mpr (.inl (Prod.ext same first.symm)))
        · exact .inl first
      | inr later => exact .inr (List.mem_cons_of_mem _ later)
  cases any _ _ found with
  | inl none => cases none
  | inr member =>
    obtain ⟨node, there, here⟩ := List.mem_filterMap.mp member
    exact ⟨node, there, here⟩

/-! ## Groups and turns -/

/-- The row has a candidate that goes with the given one. -/
def Matches (candidates : Nat → Option CandidateDecl) (first : CandidateDecl) (row : Nat) : Prop :=
  ∃ next, candidates row = some next ∧ next.indent = first.indent ∧ next.typePrefix = first.typePrefix

variable {candidates : Nat → Option CandidateDecl} {isMacroLine : Nat → Bool} {minGroupSize : Nat}

structure GroupSpec (candidates : Nat → Option CandidateDecl) (first : CandidateDecl) (remaining row : Nat)
    (group : List CandidateDecl) : Prop where
  within : group.length ≤ remaining
  rows : (List.range' row group.length).map candidates = group.map some
  alike : ∀ next ∈ group, next.indent = first.indent ∧ next.typePrefix = first.typePrefix
  ends : group.length = remaining ∨ ¬Matches candidates first (row + group.length)

variable (candidates) in
theorem groupFrom_spec (first : CandidateDecl) (remaining row : Nat) :
    GroupSpec candidates first remaining row (groupFrom candidates first remaining row) := by
  induction remaining generalizing row with
  | zero =>
    constructor
    · exact Nat.le_refl _
    · rfl
    · intro next member
      cases member
    · exact .inl rfl
  | succ remaining inductionHypothesis =>
    rw [groupFrom]
    cases found : candidates row with
    | none =>
      refine ⟨Nat.zero_le _, rfl, fun next member => absurd member List.not_mem_nil, .inr ?_⟩
      rintro ⟨next, here, _⟩
      rw [List.length_nil, Nat.add_zero, found] at here
      cases here
    | some next =>
      dsimp only
      by_cases other : next.indent ≠ first.indent ∨ next.typePrefix ≠ first.typePrefix
      · rw [if_pos other]
        refine ⟨Nat.zero_le _, rfl, fun next member => absurd member List.not_mem_nil, .inr ?_⟩
        rintro ⟨next', here, sameIndent, sameType⟩
        rw [List.length_nil, Nat.add_zero, found, Option.some.injEq] at here
        subst here
        cases other with
        | inl differs => exact differs sameIndent
        | inr differs => exact differs sameType
      · rw [if_neg other]
        rw [not_or, not_not, not_not] at other
        have further := inductionHypothesis (row + 1)
        refine ⟨?_, ?_, ?_, ?_⟩
        · rw [List.length_cons]
          exact Nat.succ_le_succ further.within
        · rw [List.length_cons, List.range'_succ, List.map_cons, List.map_cons, found, further.rows]
        · intro other' member
          cases List.mem_cons.mp member with
          | inl this => rw [this]; exact other
          | inr later => exact further.alike other' later
        · rw [List.length_cons]
          cases further.ends with
          | inl whole => exact .inl (by rw [whole])
          | inr stopped =>
            refine .inr ?_
            rw [Nat.add_assoc, Nat.add_comm 1] at stopped
            exact stopped

/-- Rows that the policy makes one line: as many as go together, without macro lines, behind a row that does not go with
them or is a macro line. -/
structure CompactedRun (candidates : Nat → Option CandidateDecl) (isMacroLine : Nat → Bool) (minGroupSize rowCount : Nat)
    (first : CandidateDecl) (start stop : Nat) : Prop where
  opens : candidates start = some first
  alike : ∀ row, start ≤ row → row < stop → Matches candidates first row
  within : stop ≤ rowCount
  large : minGroupSize ≤ stop - start
  plain : ∀ row, start ≤ row → row < stop → isMacroLine (row + 1) = false
  ends : stop = rowCount ∨ ¬Matches candidates first stop
  begins : ∀ row, row + 1 = start → ¬Matches candidates first row ∨ isMacroLine (row + 1) = true

/-- A turn that takes a group: the group and what is built from it. -/
structure GroupTurn (candidates : Nat → Option CandidateDecl) (isMacroLine : Nat → Bool) (minGroupSize rowCount : Nat)
    (turn : Turn) (first : CandidateDecl) (group : List CandidateDecl) : Prop where
  opens : candidates turn.start = some first
  stops : turn.stop = turn.start + group.length
  rows : (List.range' turn.start group.length).map candidates = group.map some
  alike : ∀ next ∈ group, next.indent = first.indent ∧ next.typePrefix = first.typePrefix
  within : turn.stop ≤ rowCount
  large : minGroupSize ≤ group.length
  plain : ∀ row, turn.start ≤ row → row < turn.stop → isMacroLine (row + 1) = false
  ends : turn.stop = rowCount ∨ ¬Matches candidates first turn.stop
  line : turn.line = declarationLine first.indent first.typePrefix (group.map CandidateDecl.name)

/-- The group that a turn at a row looks at. -/
def groupAt (candidates : Nat → Option CandidateDecl) (first : CandidateDecl) (remaining idx : Nat) : List CandidateDecl :=
  first :: groupFrom candidates first remaining (idx + 1)

variable (candidates isMacroLine minGroupSize) in
/-- A turn takes its group, or leaves its row. -/
theorem turnAt_cases (remaining idx : Nat) (line : Text) :
    (∃ first group, candidates idx = some first ∧ group = groupAt candidates first remaining idx ∧
        GroupTurn candidates isMacroLine minGroupSize (idx + 1 + remaining)
          (turnAt candidates isMacroLine minGroupSize remaining idx line) first group) ∨
      ((turnAt candidates isMacroLine minGroupSize remaining idx line).stop = idx + 1 ∧
        (turnAt candidates isMacroLine minGroupSize remaining idx line).line = line ∧
        ∀ first, candidates idx = some first → (groupAt candidates first remaining idx).length < minGroupSize ∨
          ∃ row, idx ≤ row ∧ row < idx + (groupAt candidates first remaining idx).length ∧ isMacroLine (row + 1) = true) := by
  rw [turnAt]
  cases found : candidates idx with
  | none => exact .inr ⟨rfl, rfl, fun first here => by cases here⟩
  | some first =>
    have spec := groupFrom_spec candidates first remaining (idx + 1)
    by_cases large : minGroupSize ≤ (first :: groupFrom candidates first remaining (idx + 1)).length
    · by_cases plain : (List.range' idx (first :: groupFrom candidates first remaining (idx + 1)).length).all
          fun row => !isMacroLine (row + 1)
      · refine .inl ⟨first, _, rfl, rfl, ?_⟩
        simp only [if_pos large, if_pos plain]
        constructor
        · exact found
        · rfl
        · rw [groupAt, List.length_cons, List.range'_succ, List.map_cons, List.map_cons, found, spec.rows]
          rfl
        · intro next member
          cases List.mem_cons.mp member with
          | inl this => rw [this]; exact ⟨rfl, rfl⟩
          | inr later => exact spec.alike next later
        · have within := spec.within
          simp only [List.length_cons]
          omega
        · exact large
        · intro row behind before
          simpa using List.all_eq_true.mp plain row (List.mem_range'_1.mpr ⟨behind, before⟩)
        · simp only [List.length_cons]
          cases spec.ends with
          | inl whole => exact .inl (by omega)
          | inr stopped =>
            refine .inr ?_
            rw [Nat.add_assoc, Nat.add_comm 1] at stopped
            exact stopped
        · rfl
      · refine .inr ?_
        simp only [if_pos large, if_neg plain]
        refine ⟨trivial, trivial, ?_⟩
        rintro _ ⟨⟩
        refine .inr ?_
        simp only [List.all_eq_true, not_forall] at plain
        obtain ⟨row, member, opened⟩ := plain
        obtain ⟨behind, before⟩ := List.mem_range'_1.mp member
        exact ⟨row, behind, before, by simpa using opened⟩
    · refine .inr ?_
      simp only [if_neg large]
      refine ⟨trivial, trivial, ?_⟩
      rintro _ ⟨⟩
      exact .inl (Nat.lt_of_not_le large)

theorem turnAt_start (remaining idx : Nat) (line : Text) :
    (turnAt candidates isMacroLine minGroupSize remaining idx line).start = idx := by
  rw [turnAt]
  split
  · rfl
  · dsimp only
    split <;> try split
    all_goals rfl

variable (candidates isMacroLine minGroupSize) in
theorem turnAt_bounds (remaining idx : Nat) (line : Text) :
    idx < (turnAt candidates isMacroLine minGroupSize remaining idx line).stop ∧
      (turnAt candidates isMacroLine minGroupSize remaining idx line).stop ≤ idx + 1 + remaining := by
  cases turnAt_cases candidates isMacroLine minGroupSize remaining idx line with
  | inl taken =>
    obtain ⟨first, group, _, rfl, turn⟩ := taken
    have within := turn.within
    have stops := turn.stops
    rw [turnAt_start, groupAt, List.length_cons] at stops
    omega
  | inr left =>
    rw [left.1]
    omega

variable (candidates isMacroLine minGroupSize) in
theorem turnsFrom_tiles {lines : List Text} (idx skip : Nat) (within : skip ≤ lines.length) :
    Tiles Turn.start Turn.stop (idx + skip) (turnsFrom candidates isMacroLine minGroupSize idx skip lines)
      (idx + lines.length) := by
  induction lines generalizing idx skip with
  | nil =>
    obtain rfl := Nat.le_zero.mp within
    rw [turnsFrom]
    exact .done _
  | cons line rest inductionHypothesis =>
    rw [List.length_cons] at within ⊢
    cases skip with
    | succ skip =>
      rw [turnsFrom, show idx + (skip + 1) = idx + 1 + skip by omega, show idx + (rest.length + 1) = idx + 1 + rest.length by omega]
      exact inductionHypothesis (idx + 1) skip (by omega)
    | zero =>
      obtain ⟨wide, ends⟩ := turnAt_bounds candidates isMacroLine minGroupSize rest.length idx line
      rw [turnsFrom]
      refine .piece (turnAt_start ..) wide ?_
      have further := inductionHypothesis (idx + 1)
        ((turnAt candidates isMacroLine minGroupSize rest.length idx line).stop - (idx + 1)) (by omega)
      rw [Nat.add_sub_cancel' wide, show idx + 1 + rest.length = idx + (rest.length + 1) by omega] at further
      exact further

/-- Every turn is the one at its row. -/
theorem mem_turnsFrom {idx skip : Nat} {lines : List Text} {turn : Turn}
    (member : turn ∈ turnsFrom candidates isMacroLine minGroupSize idx skip lines) :
    ∃ offset line, lines[offset]? = some line ∧
      turn = turnAt candidates isMacroLine minGroupSize (lines.length - (offset + 1)) (idx + offset) line := by
  induction lines generalizing idx skip with
  | nil =>
    rw [turnsFrom] at member
    cases member
  | cons line rest inductionHypothesis =>
    have later : ∀ {skip'}, turn ∈ turnsFrom candidates isMacroLine minGroupSize (idx + 1) skip' rest →
        ∃ offset line', (line :: rest)[offset]? = some line' ∧
          turn = turnAt candidates isMacroLine minGroupSize ((line :: rest).length - (offset + 1)) (idx + offset) line' := by
      intro skip' there
      obtain ⟨offset, line', found, same⟩ := inductionHypothesis there
      refine ⟨offset + 1, line', by rw [List.getElem?_cons_succ, found], ?_⟩
      rw [same, List.length_cons, Nat.add_sub_add_right, show idx + 1 + offset = idx + (offset + 1) by omega]
    cases skip with
    | succ skip =>
      rw [turnsFrom] at member
      exact later member
    | zero =>
      rw [turnsFrom] at member
      cases List.mem_cons.mp member with
      | inl this => exact ⟨0, line, rfl, this⟩
      | inr there => exact later there

theorem Matches.congr {next first : CandidateDecl} (sameIndent : next.indent = first.indent)
    (sameType : next.typePrefix = first.typePrefix) (row : Nat) :
    Matches candidates next row ↔ Matches candidates first row := by
  rw [Matches, Matches, sameIndent, sameType]

theorem rows_getElem {row : Nat} {group : List CandidateDecl}
    (rows : (List.range' row group.length).map candidates = group.map some) (other : Nat) (behind : row ≤ other)
    (before : other < row + group.length) : ∃ next ∈ group, candidates other = some next := by
  have member : candidates other ∈ (List.range' row group.length).map candidates :=
    List.mem_map.mpr ⟨other, List.mem_range'_1.mpr ⟨behind, before⟩, rfl⟩
  rw [rows] at member
  obtain ⟨next, there, same⟩ := List.mem_map.mp member
  exact ⟨next, there, same.symm⟩

theorem GroupTurn.matches {rowCount : Nat} {turn : Turn} {first : CandidateDecl} {group : List CandidateDecl}
    (taken : GroupTurn candidates isMacroLine minGroupSize rowCount turn first group) {row : Nat}
    (behind : turn.start ≤ row) (before : row < turn.stop) : Matches candidates first row := by
  obtain ⟨next, member, found⟩ := rows_getElem taken.rows row behind (by rw [← taken.stops]; exact before)
  exact ⟨next, found, taken.alike next member⟩

/-- The group of a turn reaches as far as the rows go together. -/
theorem groupAt_length {first : CandidateDecl} {idx stop : Nat} (remaining : Nat) (opens : idx < stop)
    (within : stop ≤ idx + 1 + remaining) (alike : ∀ row, idx ≤ row → row < stop → Matches candidates first row)
    (ends : stop = idx + 1 + remaining ∨ ¬Matches candidates first stop) :
    idx + (groupAt candidates first remaining idx).length = stop := by
  have spec := groupFrom_spec candidates first remaining (idx + 1)
  have bounded := spec.within
  rw [groupAt, List.length_cons]
  by_contra other
  cases Nat.lt_or_gt_of_ne other with
  | inl shorter =>
    cases spec.ends with
    | inl whole => omega
    | inr stopped => exact stopped (alike _ (by omega) (by omega))
  | inr longer =>
    cases ends with
    | inl whole => omega
    | inr stopped =>
      obtain ⟨next, member, found⟩ := rows_getElem spec.rows stop (by omega) (by omega)
      exact stopped ⟨next, found, spec.alike next member⟩

section
variable {lines : List Text}

variable (candidates isMacroLine minGroupSize lines) in
theorem turns_tile :
    Tiles Turn.start Turn.stop 0 (turnsFrom candidates isMacroLine minGroupSize 0 0 lines) lines.length := by
  have tiles := turnsFrom_tiles candidates isMacroLine minGroupSize 0 0 (Nat.zero_le lines.length)
  rw [Nat.zero_add, Nat.zero_add] at tiles
  exact tiles

/-- A turn that leaves its row: the group there is too small, or has a macro line. -/
structure LeftTurn (candidates : Nat → Option CandidateDecl) (isMacroLine : Nat → Bool) (minGroupSize : Nat)
    (lines : List Text) (turn : Turn) : Prop where
  stops : turn.stop = turn.start + 1
  line : lines[turn.start]? = some turn.line
  passed : ∀ first, candidates turn.start = some first →
    (groupAt candidates first (lines.length - (turn.start + 1)) turn.start).length < minGroupSize ∨
      ∃ row, turn.start ≤ row ∧
        row < turn.start + (groupAt candidates first (lines.length - (turn.start + 1)) turn.start).length ∧
        isMacroLine (row + 1) = true

theorem turns_cases {turn : Turn} (member : turn ∈ turnsFrom candidates isMacroLine minGroupSize 0 0 lines) :
    (∃ first group, GroupTurn candidates isMacroLine minGroupSize lines.length turn first group) ∨
      LeftTurn candidates isMacroLine minGroupSize lines turn := by
  obtain ⟨offset, line, found, same⟩ := mem_turnsFrom member
  rw [Nat.zero_add] at same
  have inside := (List.getElem?_eq_some_iff.mp found).1
  have starts : turn.start = offset := by rw [same, turnAt_start]
  cases turnAt_cases candidates isMacroLine minGroupSize
      (lines.length - (offset + 1)) offset line with
  | inl taken =>
    obtain ⟨first, group, _, _, taken⟩ := taken
    rw [← same, Nat.add_sub_cancel' inside] at taken
    exact .inl ⟨first, group, taken⟩
  | inr left =>
    rw [← same, ← starts] at left
    exact .inr ⟨left.1, by rw [starts, found, left.2.1], left.2.2⟩

theorem LeftTurn.passes {turn : Turn} (left : LeftTurn candidates isMacroLine minGroupSize lines turn) {first : CandidateDecl}
    (stop : Nat) (opens : candidates turn.start = some first) (behind : turn.start < stop) (within : stop ≤ lines.length)
    (alike : ∀ row, turn.start ≤ row → row < stop → Matches candidates first row)
    (ends : stop = lines.length ∨ ¬Matches candidates first stop) :
    stop - turn.start < minGroupSize ∨ ∃ row, turn.start ≤ row ∧ row < stop ∧ isMacroLine (row + 1) = true := by
  have total : turn.start + 1 + (lines.length - (turn.start + 1)) = lines.length := by omega
  have length := groupAt_length (lines.length - (turn.start + 1)) behind (by omega) alike (by rw [total]; exact ends)
  cases left.passed first opens with
  | inl small => exact .inl (by omega)
  | inr broken => exact .inr (by rw [length] at broken; exact broken)

/-- The groups that turns take are the runs of the file. -/
theorem GroupTurn.run {turn : Turn} {first : CandidateDecl} {group : List CandidateDecl}
    (member : turn ∈ turnsFrom candidates isMacroLine minGroupSize 0 0 lines)
    (taken : GroupTurn candidates isMacroLine minGroupSize lines.length turn first group) :
    CompactedRun candidates isMacroLine minGroupSize lines.length first turn.start turn.stop where
  opens := taken.opens
  alike := fun row behind before => taken.matches behind before
  within := taken.within
  large := by
    have large := taken.large
    have stops := taken.stops
    omega
  plain := taken.plain
  ends := taken.ends
  begins := by
    intro row starts
    by_contra neither
    rw [not_or, not_not, Bool.not_eq_true] at neither
    obtain ⟨matching, opened⟩ := neither
    have tiles := turns_tile candidates isMacroLine minGroupSize lines
    have bounds := tiles.bounds member
    obtain ⟨other, there, behind, before⟩ := tiles.covers (Nat.zero_le row) (by omega)
    have apart := tiles.apart there member (by omega)
    have stops : other.stop = turn.start := by omega
    obtain ⟨next, found, sameIndent, sameType⟩ := matching
    have alike : ∀ row, Matches candidates next row ↔ Matches candidates first row := Matches.congr sameIndent sameType
    cases turns_cases there with
    | inl taken' =>
      obtain ⟨first', group', taken'⟩ := taken'
      obtain ⟨next', found', indent', type'⟩ := taken'.matches behind before
      rw [found, Option.some.injEq] at found'
      subst found'
      -- The turn in front would have gone on
      cases taken'.ends with
      | inl whole => omega
      | inr stopped =>
        rw [stops, ← Matches.congr indent' type', alike] at stopped
        exact stopped ⟨first, taken.opens, rfl, rfl⟩
    | inr left =>
      have same : other.start = row := by
        have one := left.stops
        omega
      have whole := taken.ends
      rw [← alike] at whole
      rw [← same] at found
      cases left.passes turn.stop found (by omega) taken.within (by
        intro row' behind' before'
        by_cases at_row : row' = row
        · exact ⟨next, by rw [at_row, ← same, found], rfl, rfl⟩
        · exact (alike row').mpr (taken.matches (by omega) before')) whole with
      | inl small =>
        have large := taken.large
        have length := taken.stops
        omega
      | inr broken =>
        obtain ⟨row', behind', before', closed⟩ := broken
        by_cases at_row : row' = row
        · rw [at_row, opened] at closed
          cases closed
        · rw [taken.plain row' (by omega) before'] at closed
          cases closed

/-- Every run of the file is taken by a turn. -/
theorem CompactedRun.taken {first : CandidateDecl} {start stop : Nat} (positive : 0 < minGroupSize)
    (run : CompactedRun candidates isMacroLine minGroupSize lines.length first start stop) :
    ∃ turn ∈ turnsFrom candidates isMacroLine minGroupSize 0 0 lines, turn.start = start ∧ turn.stop = stop ∧
      ∃ group, GroupTurn candidates isMacroLine minGroupSize lines.length turn first group := by
  have tiles := turns_tile candidates isMacroLine minGroupSize lines
  have large := run.large
  have within := run.within
  obtain ⟨turn, member, behind, before⟩ := tiles.covers (Nat.zero_le start) (by omega)
  by_cases starts : turn.start = start
  · cases turns_cases member with
    | inl taken =>
      obtain ⟨first', group, taken⟩ := taken
      have opens := taken.opens
      rw [starts, run.opens, Option.some.injEq] at opens
      subst opens
      refine ⟨turn, member, starts, ?_, group, taken⟩
      by_contra other
      cases Nat.lt_or_gt_of_ne other with
      | inl shorter =>
        cases taken.ends with
        | inl whole => omega
        | inr stopped => exact stopped (run.alike turn.stop (by omega) shorter)
      | inr longer =>
        cases run.ends with
        | inl whole =>
          have inside := taken.within
          omega
        | inr stopped => exact stopped (taken.matches (by omega) longer)
    | inr left =>
      exfalso
      rw [← starts] at run
      cases left.passes stop run.opens (by omega) within run.alike run.ends with
      | inl small => omega
      | inr broken =>
        obtain ⟨row, behind', before', closed⟩ := broken
        rw [run.plain row behind' before'] at closed
        cases closed
  · exfalso
    cases turns_cases member with
    | inl taken =>
      obtain ⟨first', group, taken⟩ := taken
      obtain ⟨next, found, indent, type⟩ := taken.matches behind before
      rw [run.opens, Option.some.injEq] at found
      subst found
      cases run.begins (start - 1) (by omega) with
      | inl other => exact other ((Matches.congr indent type _).mpr (taken.matches (by omega) (by omega)))
      | inr closed =>
        rw [taken.plain (start - 1) (by omega) (by omega)] at closed
        cases closed
    | inr left =>
      have stops := left.stops
      omega

end

/-! ## Lists of the rows -/

theorem map_sublist_flatMap {α β : Type*} {one : α → β} {many : α → List β} {rows : List α}
    (each : ∀ row ∈ rows, [one row].Sublist (many row)) : (rows.map one).Sublist (rows.flatMap many) := by
  induction rows with
  | nil => exact List.Sublist.slnil
  | cons row rows inductionHypothesis =>
    rw [List.map_cons, List.flatMap_cons]
    exact (each row List.mem_cons_self).append (inductionHypothesis fun other member => each other (List.mem_cons_of_mem _ member))

/-- When there is only one for each row in all, there is only one for each row. -/
theorem eq_singleton_of_flatMap {α β : Type*} {one : α → β} {many : α → List β} {rows : List α}
    (each : ∀ row ∈ rows, [one row].Sublist (many row)) (all : rows.map one = rows.flatMap many) :
    ∀ row ∈ rows, many row = [one row] := by
  induction rows with
  | nil =>
    intro row member
    cases member
  | cons row rows inductionHypothesis =>
    have first := each row List.mem_cons_self
    have others := fun other member => each other (List.mem_cons_of_mem row member)
    have further := (map_sublist_flatMap others).length_le
    have counted := congrArg List.length all
    rw [List.map_cons, List.flatMap_cons, List.length_cons, List.length_append] at counted
    have here : many row = [one row] := by
      have positive := first.length_le
      rw [List.length_singleton] at positive
      exact (first.eq_of_length (by rw [List.length_singleton]; omega)).symm
    intro other member
    rw [List.map_cons, List.flatMap_cons, here, List.singleton_append, List.cons.injEq] at all
    cases List.mem_cons.mp member with
    | inl this => rw [this, here]
    | inr later => exact inductionHypothesis others all.2 other later

/-! ## What a line keeps of its rows -/

/-- The declaration of some names of a type. -/
def spelled (type : Text) (names : List Text) : Text := type ++ ' ' :: [',', ' '].intercalate names ++ [';']

def indentation (line : Text) : Text := line.takeWhile isWhitespace

def rowsOf (turn : Turn) : List Nat := List.range' turn.start (turn.stop - turn.start)

/-- The line of a turn declares each variable of its rows once, with its type and what initialises it, shows what else is
on the rows, and is indented as they are. -/
def KeepsRows (text : Text) (nodes : List DeclarationNode) (turn : Turn) : Prop :=
  ∃ front back type names, turn.line = front ++ spelled type names ++ back ∧
    (rowsOf turn).flatMap (variablesOn text nodes) = names.map (fun name => (type, name)) ∧
    visible (front ++ back) = visible ((rowsOf turn).flatMap (otherText text nodes)) ∧
    ∀ row ∈ rowsOf turn, indentation (rowText text row) = indentation turn.line

/-- A row that has nothing but one declaration of one name, with no other specifiers than those that are taken. -/
structure PlainRow (text : Text) (nodes : List DeclarationNode) (row : Nat) : Prop where
  alone : ∃ node declarator typeNode, nodes.filter (onRow row) = [node] ∧ declarators node = [declarator] ∧
    node.childByField .type = some typeNode ∧ specifiers node = takenSpecifiers declarator typeNode node.children
  bare : visible (otherText text nodes row) = []
  flush : indentation (rowText text row) = []

theorem declarators_head {declarator : ChildNode} (declares : node.childByField .declarator = some declarator) :
    ∃ others, declarators node = declarator :: others := by
  have first : (declarators node).head? = some declarator := by
    rw [declarators, List.head?_filter]
    exact declares
  cases found : declarators node with
  | nil =>
    rw [found] at first
    cases first
  | cons here others =>
    rw [found, List.head?_cons, Option.some.injEq] at first
    exact ⟨others, by rw [first]⟩

theorem WellParsed.declarators_ne_nil (parsed : WellParsed text node) : declarators node ≠ [] := by
  obtain ⟨child, member, field⟩ := parsed.declared
  exact List.ne_nil_of_mem (List.mem_filter.mpr ⟨member, by simpa using field⟩)

theorem onRow_iff {row : Nat} : onRow row node = true ↔ node.startRow = row ∧ node.endRow = row := by
  simp [onRow]

namespace CandidateOf

variable {row : Nat} {candidate : CandidateDecl} {declarator typeNode : ChildNode}

theorem taken_ne_nil (of : CandidateOf text node row candidate declarator typeNode) :
    takenSpecifiers declarator typeNode node.children ≠ [] := by
  intro none
  have type := of.typePrefix
  rw [none] at type
  exact of.nonempty type

/-- The type of a candidate is not longer than that of its declaration. -/
theorem length_le (of : CandidateOf text node row candidate declarator typeNode) (parsed : WellParsed text node) :
    candidate.typePrefix.length ≤ (typeOf text node).length := by
  rw [of.typePrefix, typeOf]
  refine length_intercalate_le _ ?_ ((takenSpecifiers_sublist parsed of.declares of.typed).map _)
  intro none
  exact of.taken_ne_nil (List.map_eq_nil_iff.mp none)

theorem specifiers_eq (of : CandidateOf text node row candidate declarator typeNode) (parsed : WellParsed text node)
    (long : (typeOf text node).length ≤ candidate.typePrefix.length) :
    specifiers node = takenSpecifiers declarator typeNode node.children := by
  have part := takenSpecifiers_sublist parsed of.declares of.typed
  have texts := eq_of_length_intercalate (List.cons_ne_nil ' ' [])
    (fun none => of.taken_ne_nil (List.map_eq_nil_iff.mp none)) (part.map (childText text))
    (by rw [← of.typePrefix]; exact long)
  have counted := congrArg List.length texts
  rw [List.length_map, List.length_map] at counted
  exact (part.eq_of_length counted).symm

theorem typeOf_eq (of : CandidateOf text node row candidate declarator typeNode)
    (all : specifiers node = takenSpecifiers declarator typeNode node.children) : typeOf text node = candidate.typePrefix := by
  rw [of.typePrefix, typeOf, all]

/-- The type begins with something visible. -/
theorem typePrefix_head (of : CandidateOf text node row candidate declarator typeNode) (parsed : WellParsed text node) :
    ∃ symbol rest, candidate.typePrefix = symbol :: rest ∧ isWhitespace symbol = false := by
  cases taken : takenSpecifiers declarator typeNode node.children with
  | nil => exact absurd taken of.taken_ne_nil
  | cons first others =>
    have member : first ∈ specifiers node :=
      (takenSpecifiers_sublist parsed of.declares of.typed).subset (by rw [taken]; exact List.mem_cons_self)
    obtain ⟨there, specifies⟩ := List.mem_filter.mp member
    obtain ⟨word, cut, solid⟩ := parsed.specified first there specifies
    obtain ⟨symbol, found, shown⟩ := solid.first
    obtain ⟨rest, rfl⟩ := List.head?_eq_some_iff.mp (Option.mem_def.mp found)
    rw [of.typePrefix, taken, List.map_cons, utf8Text_childText cut]
    cases others with
    | nil => exact ⟨symbol, rest, by simp [List.intercalate], shown⟩
    | cons next further =>
      rw [List.map_cons, List.intercalate_cons_cons]
      exact ⟨symbol, _, rfl, shown⟩

/-- The variable that is named by the candidate is one of its row. -/
theorem variable_sublist (of : CandidateOf text node row candidate declarator typeNode) {nodes : List DeclarationNode}
    (member : node ∈ nodes) : [(typeOf text node, candidate.name)].Sublist (variablesOn text nodes row) := by
  obtain ⟨others, first⟩ := declarators_head of.declares
  rw [List.singleton_sublist, variablesOn, List.mem_flatMap]
  refine ⟨node, List.mem_filter.mpr ⟨member, onRow_iff.mpr ⟨of.startRow, of.endRow⟩⟩, ?_⟩
  rw [variablesOf, first, List.map_cons, of.name]
  exact List.mem_cons_self

end CandidateOf

/-! ## The turns of a file -/

section
variable {declNodes : List DeclarationNode} {turn : Turn} {first : CandidateDecl} {group : List CandidateDecl} {rowCount : Nat}

/-- The name that a row gives to the line. -/
def nameAt (candidates : Nat → Option CandidateDecl) (row : Nat) : Text := ((candidates row).map CandidateDecl.name).getD []

theorem GroupTurn.names (taken : GroupTurn candidates isMacroLine minGroupSize rowCount turn first group) :
    (rowsOf turn).map (nameAt candidates) = group.map CandidateDecl.name := by
  have rows := taken.rows
  have width : turn.stop - turn.start = group.length := by
    rw [taken.stops, Nat.add_sub_cancel_left]
  have read := congrArg (List.map fun candidate : Option CandidateDecl => (candidate.map CandidateDecl.name).getD []) rows
  rw [List.map_map, List.map_map] at read
  rw [rowsOf, width]
  exact read

theorem GroupTurn.mem_rows (taken : GroupTurn candidates isMacroLine minGroupSize rowCount turn first group)
    (positive : 0 < minGroupSize) : turn.start ∈ rowsOf turn := by
  have large := taken.large
  have stops := taken.stops
  exact List.mem_range'_1.mpr ⟨Nat.le_refl _, by omega⟩

/-- The candidate of each row of a group, with its declaration. -/
theorem GroupTurn.candidate
    (taken : GroupTurn (candidateMap text declNodes) isMacroLine minGroupSize rowCount turn first group)
    (parsed : ∀ node ∈ nodes, WellParsed text node) (found : ∀ node ∈ declNodes, node ∈ nodes) {row : Nat}
    (member : row ∈ rowsOf turn) :
    ∃ node ∈ nodes, ∃ candidate declarator typeNode, CandidateOf text node row candidate declarator typeNode ∧
      candidate.typePrefix = first.typePrefix ∧ nameAt (candidateMap text declNodes) row = candidate.name := by
  obtain ⟨behind, before⟩ := List.mem_range'_1.mp member
  obtain ⟨candidate, here, _, type⟩ := taken.matches behind (by omega)
  obtain ⟨node, there, of⟩ := candidateMap_eq_some here
  obtain ⟨declarator, typeNode, of⟩ := candidateFromNode_eq_some (parsed node (found node there)) of
  exact ⟨node, found node there, candidate, declarator, typeNode, of, type, by rw [nameAt, here]; rfl⟩

theorem GroupTurn.line_eq
    (taken : GroupTurn (candidateMap text declNodes) isMacroLine minGroupSize rowCount turn first group)
    (parsed : ∀ node ∈ nodes, WellParsed text node) (found : ∀ node ∈ declNodes, node ∈ nodes) :
    turn.line = spelled first.typePrefix (group.map CandidateDecl.name) := by
  obtain ⟨node, there, of⟩ := candidateMap_eq_some taken.opens
  obtain ⟨_, _, of⟩ := candidateFromNode_eq_some (parsed node (found node there)) of
  rw [taken.line, declarationLine, of.indent, List.nil_append, spelled]

/-- The line of a group is not indented. -/
theorem GroupTurn.indentation_eq
    (taken : GroupTurn (candidateMap text declNodes) isMacroLine minGroupSize rowCount turn first group)
    (parsed : ∀ node ∈ nodes, WellParsed text node) (found : ∀ node ∈ declNodes, node ∈ nodes) :
    indentation turn.line = [] := by
  obtain ⟨node, there, of⟩ := candidateMap_eq_some taken.opens
  obtain ⟨_, _, of⟩ := candidateFromNode_eq_some (parsed node (found node there)) of
  obtain ⟨symbol, rest, type, shown⟩ := of.typePrefix_head (parsed node (found node there))
  rw [taken.line_eq parsed found, indentation, spelled, type, List.cons_append, List.cons_append,
    List.takeWhile_cons_of_neg (by rw [shown]; exact Bool.false_ne_true)]

theorem keepsRows_of_plain
    (taken : GroupTurn (candidateMap text declNodes) isMacroLine minGroupSize rowCount turn first group)
    (parsed : ∀ node ∈ nodes, WellParsed text node) (found : ∀ node ∈ declNodes, node ∈ nodes)
    (plain : ∀ row ∈ rowsOf turn, PlainRow text nodes row) : KeepsRows text nodes turn := by
  refine ⟨[], [], first.typePrefix, group.map CandidateDecl.name, ?_, ?_, ?_, ?_⟩
  · rw [taken.line_eq parsed found, List.nil_append, List.append_nil]
  · have each : ∀ row ∈ rowsOf turn, variablesOn text nodes row =
        [(first.typePrefix, nameAt (candidateMap text declNodes) row)] := by
      intro row member
      obtain ⟨node, there, candidate, declarator, typeNode, of, type, name⟩ := taken.candidate parsed found member
      obtain ⟨other, declarator', typeNode', alone, single, typed, specified⟩ := (plain row member).alone
      have here : node ∈ nodes.filter (onRow row) :=
        List.mem_filter.mpr ⟨there, onRow_iff.mpr ⟨of.startRow, of.endRow⟩⟩
      rw [alone, List.mem_singleton] at here
      subst here
      obtain ⟨others, head⟩ := declarators_head of.declares
      rw [single, List.cons.injEq] at head
      obtain ⟨rfl, _⟩ := head
      rw [of.typed, Option.some.injEq] at typed
      subst typed
      rw [variablesOn, alone, List.flatMap_singleton, variablesOf, single, List.map_singleton, of.typeOf_eq specified, type,
        name, of.name]
    rw [List.flatMap_congr each, ← List.map_eq_flatMap, ← taken.names, List.map_map]
    rfl
  · refine (visible_eq_nil.mpr ?_).symm
    intro symbol member
    obtain ⟨row, here, there⟩ := List.mem_flatMap.mp member
    exact visible_eq_nil.mp (plain row here).bare symbol there
  · intro row member
    rw [(plain row member).flush, taken.indentation_eq parsed found]

/-- A row whose declarations have one name in all has one declaration. -/
theorem alone_of_variables (parsed : ∀ node ∈ nodes, WellParsed text node) {row : Nat} (member : node ∈ nodes)
    (here : onRow row node = true) (single : (variablesOn text nodes row).length = 1) :
    nodes.filter (onRow row) = [node] ∧ (declarators node).length = 1 := by
  have there : node ∈ nodes.filter (onRow row) := List.mem_filter.mpr ⟨member, here⟩
  have each : ∀ other ∈ nodes.filter (onRow row), 1 ≤ (variablesOf text other).length := by
    intro other member
    rw [variablesOf, List.length_map]
    exact List.length_pos_iff.mpr (parsed other (List.mem_filter.mp member).1).declarators_ne_nil
  rw [variablesOn] at single
  cases whole : nodes.filter (onRow row) with
  | nil =>
    rw [whole] at there
    cases there
  | cons other others =>
    rw [whole] at there each single
    rw [List.flatMap_cons, List.length_append] at single
    have positive := each other List.mem_cons_self
    cases others with
    | nil =>
      rw [List.mem_singleton] at there
      subst there
      rw [List.flatMap_nil, List.length_nil, Nat.add_zero, variablesOf, List.length_map] at single
      exact ⟨rfl, single⟩
    | cons next further =>
      have second := each next (List.mem_cons_of_mem _ List.mem_cons_self)
      rw [List.flatMap_cons, List.length_append] at single
      omega

/-- A line that keeps its rows has room for nothing but the names of its group. -/
theorem GroupTurn.tight
    (taken : GroupTurn (candidateMap text declNodes) isMacroLine minGroupSize rowCount turn first group)
    (positive : 0 < minGroupSize) (parsed : ∀ node ∈ nodes, WellParsed text node) (found : ∀ node ∈ declNodes, node ∈ nodes)
    {front back type : Text} {names : List Text} (line : turn.line = front ++ spelled type names ++ back)
    (declared : (rowsOf turn).flatMap (variablesOn text nodes) = names.map fun name => (type, name)) :
    front = [] ∧ back = [] ∧ type.length ≤ first.typePrefix.length ∧
      ∀ row ∈ rowsOf turn, (variablesOn text nodes row).length = 1 := by
  have typed : ∀ row ∈ rowsOf turn, ∀ entry ∈ variablesOn text nodes row, entry.1 = type := by
    intro row member entry here
    have there : entry ∈ (rowsOf turn).flatMap (variablesOn text nodes) := List.mem_flatMap.mpr ⟨row, member, here⟩
    rw [declared] at there
    obtain ⟨name, _, same⟩ := List.mem_map.mp there
    rw [← same]
  have each : ∀ row ∈ rowsOf turn,
      [nameAt (candidateMap text declNodes) row].Sublist ((variablesOn text nodes row).map Prod.snd) := by
    intro row member
    obtain ⟨node, there, candidate, declarator, typeNode, of, _, name⟩ := taken.candidate parsed found member
    rw [name]
    exact (of.variable_sublist there).map Prod.snd
  have named : names = (rowsOf turn).flatMap fun row => (variablesOn text nodes row).map Prod.snd := by
    rw [← List.map_flatMap, declared, List.map_map]
    exact (List.map_id names).symm
  have part := map_sublist_flatMap each
  rw [← named, taken.names] at part
  have shortType : first.typePrefix.length ≤ type.length := by
    obtain ⟨node, there, candidate, declarator, typeNode, of, same, _⟩ :=
      taken.candidate parsed found (taken.mem_rows positive)
    have whole := of.length_le (parsed node there)
    have typedHere : typeOf text node = type :=
      typed _ (taken.mem_rows positive) _ ((of.variable_sublist there).subset (List.mem_singleton_self _))
    rw [same, typedHere] at whole
    exact whole
  have nonempty : group.map CandidateDecl.name ≠ [] := by
    have large := taken.large
    intro none
    rw [List.map_eq_nil_iff.mp none, List.length_nil] at large
    omega
  have shortNames := length_intercalate_le [',', ' '] nonempty part
  -- Both spellings are of one line
  have counted := congrArg List.length ((taken.line_eq parsed found).symm.trans line)
  simp only [spelled, List.length_append, List.length_cons, List.length_nil] at counted
  refine ⟨List.length_eq_zero_iff.mp (by omega), List.length_eq_zero_iff.mp (by omega), by omega, ?_⟩
  have same := eq_of_length_intercalate (List.cons_ne_nil ',' [' ']) nonempty part (by omega)
  rw [← taken.names, named] at same
  intro row member
  have one := congrArg List.length (eq_singleton_of_flatMap each same row member)
  rw [List.length_map] at one
  exact one

theorem plain_of_keepsRows
    (taken : GroupTurn (candidateMap text declNodes) isMacroLine minGroupSize rowCount turn first group)
    (positive : 0 < minGroupSize) (parsed : ∀ node ∈ nodes, WellParsed text node) (found : ∀ node ∈ declNodes, node ∈ nodes)
    (keeps : KeepsRows text nodes turn) : ∀ row ∈ rowsOf turn, PlainRow text nodes row := by
  obtain ⟨front, back, type, names, line, declared, shown, indented⟩ := keeps
  obtain ⟨rfl, rfl, short, single⟩ := taken.tight positive parsed found line declared
  intro row member
  obtain ⟨node, there, candidate, declarator, typeNode, of, same, _⟩ := taken.candidate parsed found member
  have named := (of.variable_sublist there).subset (List.mem_singleton_self _)
  have typed : typeOf text node = type := by
    have entry : (typeOf text node, candidate.name) ∈ (rowsOf turn).flatMap (variablesOn text nodes) :=
      List.mem_flatMap.mpr ⟨row, member, named⟩
    rw [declared] at entry
    obtain ⟨name, _, equal⟩ := List.mem_map.mp entry
    exact (congrArg Prod.fst equal).symm
  refine ⟨⟨node, declarator, typeNode, ?_⟩, ?_, ?_⟩
  · obtain ⟨alone, count⟩ := alone_of_variables parsed there (onRow_iff.mpr ⟨of.startRow, of.endRow⟩) (single row member)
    obtain ⟨others, head⟩ := declarators_head of.declares
    rw [head, List.length_cons, Nat.add_eq_right, List.length_eq_zero_iff] at count
    rw [count] at head
    exact ⟨alone, head, of.typed, of.specifiers_eq (parsed node there) (by rw [typed, same]; exact short)⟩
  · refine visible_eq_nil.mpr ?_
    intro symbol inside
    exact visible_eq_nil.mp shown.symm symbol (List.mem_flatMap.mpr ⟨row, member, inside⟩)
  · rw [indented row member, taken.indentation_eq parsed found]

end

/-- What the policy makes of a file keeps everything: the turns follow each other over all the rows, and each leaves its row
or keeps what is on its rows. -/
structure CompactionKeeps (text : Text) (nodes declNodes : List DeclarationNode) (isMacroLine : Nat → Bool)
    (minGroupSize : Nat) : Prop where
  tiled : Tiles Turn.start Turn.stop 0 (turnsOf text declNodes isMacroLine minGroupSize) (splitLinesCow text).length
  produced : (compactDeclarations text declNodes isMacroLine minGroupSize).changed = true →
    (compactDeclarations text declNodes isMacroLine minGroupSize).text =
      joinLines ((turnsOf text declNodes isMacroLine minGroupSize).map Turn.line) (detectLineEnding text).toList
        (endsWithFeed text)
  kept : ∀ turn ∈ turnsOf text declNodes isMacroLine minGroupSize,
    (turn.stop = turn.start + 1 ∧ (splitLinesCow text)[turn.start]? = some turn.line) ∨ KeepsRows text nodes turn

theorem compactDeclarations_text {declNodes : List DeclarationNode}
    (changed : (compactDeclarations text declNodes isMacroLine minGroupSize).changed = true) :
    (compactDeclarations text declNodes isMacroLine minGroupSize).text =
      joinLines ((turnsOf text declNodes isMacroLine minGroupSize).map Turn.line) (detectLineEnding text).toList
        (endsWithFeed text) := by
  unfold compactDeclarations at changed ⊢
  by_cases few : (splitLinesCow text).length < minGroupSize.max 2
  · rw [if_pos few] at changed
    cases changed
  · rw [if_neg few] at changed ⊢
    by_cases same : splitLinesCow text = (turnsOf text declNodes isMacroLine minGroupSize).map Turn.line
    · simp only [if_pos same] at changed
      cases changed
    · simp only [if_neg same]

/-- The policy keeps everything exactly when each row that it compacts has nothing but one declaration of one name, whose
specifiers all become part of the type, and is not indented. -/
theorem compactDeclarations_keeps_iff {changedRanges : Option (List (Nat × Nat))}
    {queryInRange : Nat × Nat → List DeclarationNode} (parsed : ∀ node ∈ nodes, WellParsed text node)
    (queried : ∀ range, ∀ node ∈ queryInRange range, node ∈ nodes) :
    CompactionKeeps text nodes (collectDeclNodes nodes queryInRange changedRanges) isMacroLine minGroupSize ↔
      ∀ first start stop,
        CompactedRun (candidateMap text (collectDeclNodes nodes queryInRange changedRanges)) isMacroLine
          (minGroupSize.max 2) (splitLinesCow text).length first start stop →
        ∀ row, start ≤ row → row < stop → PlainRow text nodes row := by
  have two : 2 ≤ minGroupSize.max 2 := Nat.le_max_right _ _
  have positive : 0 < minGroupSize.max 2 := by omega
  have found : ∀ node ∈ collectDeclNodes nodes queryInRange changedRanges, node ∈ nodes := by
    intro node member
    cases changedRanges with
    | none => exact member
    | some ranges =>
      obtain ⟨range, _, here⟩ := List.mem_flatMap.mp member
      exact queried range node here
  constructor
  · intro keeps first start stop run row behind before
    obtain ⟨turn, member, rfl, rfl, group, taken⟩ := run.taken positive
    cases keeps.kept turn member with
    | inl left =>
      have large := taken.large
      have stops := taken.stops
      omega
    | inr kept =>
      exact plain_of_keepsRows taken positive parsed found kept row (List.mem_range'_1.mpr ⟨behind, by omega⟩)
  · intro plain
    refine ⟨turns_tile _ _ _ _, compactDeclarations_text, ?_⟩
    intro turn member
    cases turns_cases member with
    | inl taken =>
      obtain ⟨first, group, taken⟩ := taken
      refine .inr (keepsRows_of_plain taken parsed found ?_)
      intro row inside
      obtain ⟨behind, before⟩ := List.mem_range'_1.mp inside
      exact plain first _ _ (taken.run member) row behind (by omega)
    | inr left => exact .inl ⟨left.stops, left.line⟩

/-! ## Two rows -/

/-- The declaration of one name of one letter, of a type of three letters. -/
def shortDeclaration (row start : Nat) : DeclarationNode where
  startRow := row
  endRow := row
  byteStart := start
  byteEnd := start + 6
  children :=
    [⟨0, .other, some .type, start, start + 3⟩, ⟨1, .identifier, some .declarator, start + 4, start + 5⟩,
      ⟨2, .semicolon, none, start + 5, start + 6⟩]

/-- The indentation of the rows and the comments on them are lost. -/
theorem commentedRows_lost :
    let text := "  int a; // first\n  int b; // second\n".toList
    let nodes := [shortDeclaration 0 2, shortDeclaration 1 20]
    (compactDeclarations text nodes (fun _ => false) 2).changed = true ∧
      (compactDeclarations text nodes (fun _ => false) 2).text = "int a, b;\n".toList ∧
      ¬CompactionKeeps text nodes nodes (fun _ => false) 2 := by
  intro text nodes
  refine ⟨by decide +kernel, by decide +kernel, ?_⟩
  intro keeps
  have turns : turnsOf text nodes (fun _ => false) 2 =
      [⟨0, 2, "int a, b;".toList, [compactedViolation 0], 0⟩, ⟨2, 3, [], [], 0⟩] := by
    decide +kernel
  have kept := keeps.kept
  rw [turns] at kept
  cases kept _ List.mem_cons_self with
  | inl left => cases left.1
  | inr kept =>
    obtain ⟨_, _, _, _, _, _, _, indented⟩ := kept
    exact absurd (indented 0 (by decide)) (by decide +kernel)

theorem shortDeclaration_parsed {text type : Text} {row start : Nat}
    (typed : slice Char.utf8Size text start (start + 3) = some type) (solid : Solid type) :
    WellParsed text (shortDeclaration row start) where
  first := by
    rintro child ⟨⟩
    rfl
  distinct := by simp [shortDeclaration]
  declared := ⟨⟨1, .identifier, some .declarator, start + 4, start + 5⟩, by simp [shortDeclaration], rfl⟩
  separators := by
    intro child member comma
    simp only [shortDeclaration, List.mem_cons, List.not_mem_nil, or_false] at member
    obtain rfl | rfl | rfl := member
    all_goals cases comma
  specified := by
    intro child member specifies
    simp only [shortDeclaration, List.mem_cons, List.not_mem_nil, or_false] at member
    obtain rfl | rfl | rfl := member
    · exact ⟨type, typed, solid⟩
    · cases specifies
    · cases specifies

/-- Rows with nothing else are compacted, and nothing is lost. -/
theorem bareRows_kept :
    (compactDeclarations "int a;\nint b;\n".toList [shortDeclaration 0 0, shortDeclaration 1 7] (fun _ => false) 2).text =
        "int a, b;\n".toList ∧
      CompactionKeeps "int a;\nint b;\n".toList [shortDeclaration 0 0, shortDeclaration 1 7]
        (collectDeclNodes [shortDeclaration 0 0, shortDeclaration 1 7] (fun _ => []) none) (fun _ => false) 2 := by
  refine ⟨by decide +kernel, ?_⟩
  have solid : Solid "int".toList := ⟨⟨'i', by decide +kernel, by decide +kernel⟩, ⟨'t', by decide +kernel, by decide +kernel⟩⟩
  refine (compactDeclarations_keeps_iff ?_ ?_).mpr ?_
  · intro node member
    simp only [List.mem_cons, List.not_mem_nil, or_false] at member
    obtain rfl | rfl := member
    all_goals exact shortDeclaration_parsed (by decide +kernel) solid
  · intro range node member
    cases member
  · intro first start stop run row behind before
    have within : stop ≤ 3 := run.within
    have rows : row = 0 ∨ row = 1 ∨ row = 2 := by omega
    obtain rfl | rfl | rfl := rows
    · exact ⟨⟨shortDeclaration 0 0, ⟨1, .identifier, some .declarator, 4, 5⟩, ⟨0, .other, some .type, 0, 3⟩,
        by decide +kernel, by decide +kernel, by decide +kernel, by decide +kernel⟩, by decide +kernel, by decide +kernel⟩
    · exact ⟨⟨shortDeclaration 1 7, ⟨1, .identifier, some .declarator, 11, 12⟩, ⟨0, .other, some .type, 7, 10⟩,
        by decide +kernel, by decide +kernel, by decide +kernel, by decide +kernel⟩, by decide +kernel, by decide +kernel⟩
    · obtain ⟨next, found, _⟩ := run.alike 2 behind before
      have none : (candidateMap "int a;\nint b;\n".toList [shortDeclaration 0 0, shortDeclaration 1 7] 2) = none := by
        decide +kernel
      exact absurd (found.symm.trans none) (by simp)

end MjFormatter.Verified
