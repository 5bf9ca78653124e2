import MjFormatter.Library.LineSplices
import MjFormatter.Policy.KeywordOperators
import MjFormatter.Verified.MacroRegions

/-! # Operators become keywords

The text is cut at the operators of the tree.  What the policy writes is the same text with some of the operators replaced, and
a choice of operators can be read back from it: a keyword begins with a letter where the operator has none.  Two things can go
wrong.  The lookup of macro regions misses lines, and a line end counts as a space on the left also when a backslash stands in
front of it. -/

namespace MjFormatter.Verified

open Library MjFormatter.Parser KeywordOperators LogicalKeywordOperatorsPolicy

/-! ## The text with some operators replaced -/

def between (text : Text) (start stop : Nat) : Text := (text.drop start).take (stop - start)

/-- A replaced operator comes with a space on the left and on the right, or without. -/
abbrev Choice := OperatorNode → Option (Bool × Bool)

def tokenOf (choice : Choice) (node : OperatorNode) : Text :=
  match choice node with
  | none => node.kind.before
  | some (left, right) => blank left ++ node.kind.keyword ++ blank right

/-- The text between two places, where the nodes stand in between. -/
def rewritten (choice : Choice) (text : Text) : Nat → List OperatorNode → Nat → Text
  | cursor, [], stop => between text cursor stop
  | cursor, node :: nodes, stop =>
    between text cursor node.start ++ tokenOf choice node ++ rewritten choice text node.stop nodes stop

/-- No keyword merges with a word next to it. -/
def Separated (choice : Choice) (text : Text) (nodes : List OperatorNode) : Prop :=
  ∀ ahead node behind, nodes = ahead ++ node :: behind → ∀ left right, choice node = some (left, right) →
    ¬EndsWord (rewritten choice text 0 ahead node.start ++ blank left) ∧
      ¬StartsWord (blank right ++ rewritten choice text node.stop behind text.length)

def OutsideRanges (ranges : List (Nat × Nat)) (node : OperatorNode) : Prop :=
  ∀ range ∈ ranges, node.stop ≤ range.1 ∨ range.2 ≤ node.start

/-- The nodes are operators of the text, and nodes do not cut each other. -/
structure OperatorsOf (text : Text) (tree : OperatorTree) (skipPreprocessor : Bool) : Prop where
  length : ∀ node ∈ tree.operators, node.stop = node.start + 2
  spelled : ∀ node ∈ tree.operators, between text node.start node.stop = node.kind.before
  disjoint : tree.operators.Pairwise fun node other => node.stop ≤ other.start ∨ other.stop ≤ node.start
  ordered : ∀ range ∈ tree.protectedNodes skipPreprocessor, range.1 ≤ range.2
  whole : ∀ node ∈ tree.operators, ∀ range ∈ tree.protectedNodes skipPreprocessor,
    (range.1 ≤ node.start ∧ node.stop ≤ range.2) ∨ node.stop ≤ range.1 ∨ range.2 ≤ node.start

/-- The text is the old one with some of the operators replaced that stand outside the protected ranges and macro regions. -/
def KeepsTokens (tree : OperatorTree) (skipPreprocessor : Bool) (scopes : List SemanticScope) (text out : Text) : Prop :=
  ∃ nodes choice, nodes.Perm tree.operators ∧ nodes.Pairwise (fun node later => node.stop ≤ later.start) ∧
    out = rewritten choice text 0 nodes text.length ∧ Separated choice text nodes ∧
    ∀ node ∈ nodes, (choice node).isSome = true →
      OutsideRanges (tree.protectedNodes skipPreprocessor) node ∧ isMacroRegion scopes (operatorLine text node.start) = false

/-! ## Cutting the text -/

theorem between_append {text : Text} {start middle stop : Nat} (first : start ≤ middle) (second : middle ≤ stop) :
    between text start middle ++ between text middle stop = between text start stop := by
  have drops : text.drop middle = (text.drop start).drop (middle - start) := by
    rw [List.drop_drop, Nat.add_sub_cancel' first]
  rw [between, between, between, drops, show stop - start = (middle - start) + (stop - middle) by omega, List.take_add]

theorem between_zero (text : Text) (stop : Nat) : between text 0 stop = text.take stop := by
  rw [between, List.drop_zero, Nat.sub_zero]

theorem between_length (text : Text) (start : Nat) : between text start text.length = text.drop start := by
  rw [between, List.take_of_length_le (by rw [List.length_drop])]

theorem getElem?_of_spelled {text : Text} {node : OperatorNode} (length : node.stop = node.start + 2)
    (spelled : between text node.start node.stop = node.kind.before) :
    node.stop ≤ text.length ∧ ∃ symbol, text[node.start]? = some symbol ∧ (symbol = '&' ∨ symbol = '|') := by
  have size := congrArg List.length spelled
  have first := congrArg (fun token => token[0]?) spelled
  rw [between, length, Nat.add_sub_cancel_left] at size first
  rw [List.length_take, List.length_drop] at size
  rw [List.getElem?_take_of_lt Nat.zero_lt_two, List.getElem?_drop, Nat.add_zero] at first
  cases kind : node.kind with
  | ampAmp =>
    rw [kind, LogicalOperator.before] at size first
    exact ⟨by simp at size; omega, '&', first, .inl rfl⟩
  | pipePipe =>
    rw [kind, LogicalOperator.before] at size first
    exact ⟨by simp at size; omega, '|', first, .inr rfl⟩

/-! ## Which operators are replaced -/

theorem filter_blank (needed : Bool) : (blank needed).filter (· ≠ ' ') = [] := by
  cases needed <;> rfl

/-- Without its spaces a token is the operator or the keyword. -/
theorem filter_tokenOf (choice : Choice) (node : OperatorNode) :
    (tokenOf choice node).filter (· ≠ ' ') = if (choice node).isSome then node.kind.keyword else node.kind.before := by
  have keyword : node.kind.keyword.filter (· ≠ ' ') = node.kind.keyword := by cases node.kind <;> rfl
  have before : node.kind.before.filter (· ≠ ' ') = node.kind.before := by cases node.kind <;> rfl
  rw [tokenOf]
  cases choice node with
  | none => exact before
  | some spaces =>
    rw [List.filter_append, List.filter_append, filter_blank, filter_blank, keyword]
    simp

theorem filter_rewritten_congr {choice other : Choice} {nodes : List OperatorNode}
    (same : ∀ node ∈ nodes, (choice node).isSome = (other node).isSome) (text : Text) (cursor stop : Nat) :
    (rewritten choice text cursor nodes stop).filter (· ≠ ' ') = (rewritten other text cursor nodes stop).filter (· ≠ ' ') := by
  induction nodes generalizing cursor with
  | nil => rfl
  | cons node nodes ih =>
    obtain ⟨here, later⟩ := List.forall_mem_cons.mp same
    simp only [rewritten, List.filter_append, ih later, filter_tokenOf, here]

/-- The replaced operators can be read back. -/
theorem isSome_of_filter_rewritten {choice other : Choice} (nodes : List OperatorNode) (text : Text) (cursor stop : Nat)
    (same : (rewritten choice text cursor nodes stop).filter (· ≠ ' ') =
      (rewritten other text cursor nodes stop).filter (· ≠ ' ')) :
    ∀ node ∈ nodes, (choice node).isSome = (other node).isSome := by
  induction nodes generalizing cursor with
  | nil => exact fun node member => absurd member List.not_mem_nil
  | cons node nodes ih =>
    simp only [rewritten, List.filter_append, filter_tokenOf, List.append_assoc, List.append_cancel_left_eq] at same
    have here : (choice node).isSome = (other node).isSome := by
      cases chosen : (choice node).isSome <;> cases otherChosen : (other node).isSome <;> cases kind : node.kind <;>
        simp_all [LogicalOperator.keyword, LogicalOperator.before]
    rw [here, List.append_cancel_left_eq] at same
    exact List.forall_mem_cons.mpr ⟨here, ih _ same⟩

/-- The place of a symbol is known from what stands ahead of it without the spaces. -/
theorem eq_of_filter_eq {ahead other back otherBack : Text} {symbol otherSymbol : Char} (shown : symbol ≠ ' ')
    (otherShown : otherSymbol ≠ ' ') (whole : ahead ++ symbol :: back = other ++ otherSymbol :: otherBack)
    (same : ahead.filter (· ≠ ' ') = other.filter (· ≠ ' ')) : ahead = other := by
  induction ahead generalizing other with
  | nil =>
    cases other with
    | nil => rfl
    | cons first other =>
      rw [← (List.cons.inj whole).1] at same
      simp [shown] at same
  | cons first ahead ih =>
    cases other with
    | nil =>
      rw [(List.cons.inj whole).1] at same
      simp [otherShown] at same
    | cons second other =>
      obtain ⟨rfl, rest⟩ := List.cons.inj whole
      rw [ih rest]
      by_cases isSpace : first = ' '
      · simpa [isSpace] using same
      · simpa [isSpace] using same

/-! ## What stands ahead of an operator -/

theorem rewritten_split (choice : Choice) (text : Text) (ahead : List OperatorNode) (node : OperatorNode)
    (behind : List OperatorNode) (cursor stop : Nat) :
    rewritten choice text cursor (ahead ++ node :: behind) stop =
      rewritten choice text cursor ahead node.start ++ tokenOf choice node ++ rewritten choice text node.stop behind stop := by
  induction ahead generalizing cursor with
  | nil => rfl
  | cons first ahead ih => simp only [List.cons_append, rewritten, ih, List.append_assoc]

theorem exists_last_before (kind : LogicalOperator) :
    ∃ front symbol, kind.before = front ++ [symbol] ∧ Solid symbol ∧ isWordSymbol symbol = false := by
  cases kind with
  | ampAmp => exact ⟨['&'], '&', rfl, by decide, by decide⟩
  | pipePipe => exact ⟨['|'], '|', rfl, by decide, by decide⟩

/-- A token ends in a word only when it is a keyword without a space on its right. -/
theorem exists_last_tokenOf (choice : Choice) (node : OperatorNode) :
    ∃ front symbol, tokenOf choice node = front ++ [symbol] ∧ Solid symbol ∧
      (isWordSymbol symbol = false ∨ ∃ left, choice node = some (left, false)) := by
  rw [tokenOf]
  cases choice node with
  | none =>
    obtain ⟨front, symbol, last, solid, noWord⟩ := exists_last_before node.kind
    exact ⟨front, symbol, last, solid, .inl noWord⟩
  | some spaces =>
    obtain ⟨left, right⟩ := spaces
    cases right with
    | true => exact ⟨blank left ++ node.kind.keyword, ' ', rfl, by decide, .inl (by decide)⟩
    | false =>
      dsimp only
      rw [show blank false = [] from rfl, List.append_nil]
      cases kind : node.kind with
      | ampAmp => exact ⟨blank left ++ ['a', 'n'], 'd', by simp [LogicalOperator.keyword], by decide, .inr ⟨left, rfl⟩⟩
      | pipePipe => exact ⟨blank left ++ ['o'], 'r', by simp [LogicalOperator.keyword], by decide, .inr ⟨left, rfl⟩⟩

/-- Operators of the text that end ahead of a place. -/
structure Stands (text : Text) (ahead : List OperatorNode) (stop : Nat) : Prop where
  length : ∀ node ∈ ahead, node.stop = node.start + 2
  spelled : ∀ node ∈ ahead, between text node.start node.stop = node.kind.before
  before : ∀ node ∈ ahead, node.stop ≤ stop

/-- Behind the last operator ahead of a place both texts go on in the same way. -/
theorem rewritten_ahead (choice : Choice) {text : Text} {ahead : List OperatorNode} {stop : Nat}
    (stands : Stands text ahead stop) :
    rewritten choice text 0 ahead stop = text.take stop ∨
      ∃ node ∈ ahead, ∃ front frontText,
        rewritten choice text 0 ahead stop = front ++ tokenOf choice node ++ between text node.stop stop ∧
          text.take stop = frontText ++ node.kind.before ++ between text node.stop stop := by
  cases List.eq_nil_or_concat' ahead with
  | inl none =>
    left
    rw [none, rewritten, between_zero]
  | inr some =>
    right
    obtain ⟨earlier, node, rfl⟩ := some
    have member : node ∈ earlier ++ [node] := List.mem_append_right _ (List.mem_singleton_self node)
    refine ⟨node, member, _, text.take node.start, rewritten_split choice text earlier node [] 0 stop, ?_⟩
    have inOrder : node.start ≤ node.stop := by
      have length := stands.length node member
      omega
    rw [← stands.spelled node member, ← between_zero, ← between_zero, between_append (Nat.zero_le _) inOrder,
      between_append (Nat.zero_le _) (stands.before node member)]

theorem endsWord_rewritten_iff (choice : Choice) {text : Text} {ahead : List OperatorNode} {stop : Nat}
    (stands : Stands text ahead stop)
    (free : ∀ node ∈ ahead, ∀ left, choice node = some (left, false) → spliced (between text node.stop stop) ≠ []) :
    EndsWord (rewritten choice text 0 ahead stop) ↔ EndsWord (text.take stop) := by
  cases rewritten_ahead choice stands with
  | inl same => rw [same]
  | inr some =>
    obtain ⟨node, member, front, frontText, whole, wholeText⟩ := some
    obtain ⟨tokenFront, symbol, token, solid, noWord⟩ := exists_last_tokenOf choice node
    obtain ⟨beforeFront, other, before, otherSolid, otherNoWord⟩ := exists_last_before node.kind
    have gap : spliced (between text node.stop stop) ≠ [] ∨ (isWordSymbol symbol = false ∧ isWordSymbol other = false) := by
      cases noWord with
      | inl noWord => exact .inr ⟨noWord, otherNoWord⟩
      | inr replaced =>
        obtain ⟨left, chosen⟩ := replaced
        exact .inl (free node member left chosen)
    have moved := endsWord_congr solid otherSolid (front ++ tokenFront) (frontText ++ beforeFront) gap
    rw [whole, wholeText, token, before]
    simpa only [List.append_assoc, List.singleton_append] using moved

/-- A word that ends ahead of a place is still there, whatever is replaced. -/
theorem endsWord_rewritten_of_text (choice : Choice) {text : Text} {ahead : List OperatorNode} {stop : Nat}
    (stands : Stands text ahead stop) (word : EndsWord (text.take stop)) : EndsWord (rewritten choice text 0 ahead stop) := by
  cases rewritten_ahead choice stands with
  | inl same => rwa [same]
  | inr some =>
    obtain ⟨node, member, front, frontText, whole, wholeText⟩ := some
    obtain ⟨tokenFront, symbol, token, solid, _⟩ := exists_last_tokenOf choice node
    obtain ⟨beforeFront, other, before, otherSolid, otherNoWord⟩ := exists_last_before node.kind
    rw [wholeText, before, List.append_assoc, List.append_assoc, List.singleton_append, ← List.append_assoc] at word
    have gap : spliced (between text node.stop stop) ≠ [] := by
      intro nothing
      rw [endsWord_solid_iff otherSolid, nothing] at word
      obtain ⟨last, isLast, isWord⟩ := word
      rw [List.getLast?_singleton, Option.mem_some_iff] at isLast
      rw [← isLast, otherNoWord] at isWord
      cases isWord
    have moved := (endsWord_congr solid otherSolid (front ++ tokenFront) (frontText ++ beforeFront) (.inl gap)).mpr word
    rw [whole, token]
    simpa only [List.append_assoc, List.singleton_append] using moved

/-! ## The spaces of the policy -/

/-- The selected operators with the spaces that the policy gives them. -/
def spacedChoice (text : Text) (selected : OperatorNode → Bool) : Choice := fun node =>
  if selected node then some (needsLeftSpace text node.start, needsRightSpace text node.stop) else none

/-- A line end behind a backslash and a word. -/
def BehindSplice (text : Text) (start : Nat) : Prop :=
  EndsWord (text.take start) ∧ (text.take start).getLast? = some '\n'

theorem spacedChoice_some {text : Text} {selected : OperatorNode → Bool} {node : OperatorNode} {left right : Bool}
    (chosen : spacedChoice text selected node = some (left, right)) :
    selected node = true ∧ left = needsLeftSpace text node.start ∧ right = needsRightSpace text node.stop := by
  rw [spacedChoice] at chosen
  split at chosen
  · next isSelected =>
    have spaces := Prod.mk.inj (Option.some.inj chosen)
    exact ⟨isSelected, spaces.1.symm, spaces.2.symm⟩
  · cases chosen

/-- No space is put in front of white space and of closing brackets, none of which starts a word or is a backslash. -/
theorem not_word_of_not_needsRightSpace {text : Text} {stop : Nat} {symbol : Char} (here : text[stop]? = some symbol)
    (none : needsRightSpace text stop = false) :
    symbol ≠ '\\' ∧ symbol ≠ '&' ∧ symbol ≠ '|' ∧ isWordSymbol symbol = false := by
  rw [needsRightSpace, here, Option.any_some, Bool.not_eq_false', Bool.or_eq_true] at none
  simp only [isAsciiWhitespace, List.contains_cons, List.contains_nil, Bool.or_false, Bool.or_eq_true, beq_iff_eq] at none
  obtain (rfl | rfl | rfl | rfl | rfl) | rfl | rfl | rfl | rfl | rfl | rfl | rfl := none <;> decide

theorem not_word_of_not_needsLeftSpace {text : Text} {start : Nat} {symbol : Char} (positive : start ≠ 0)
    (here : text[start - 1]? = some symbol) (none : needsLeftSpace text start = false) : isWordSymbol symbol = false := by
  rw [needsLeftSpace, if_neg positive, here, Option.any_some, Bool.not_eq_false', Bool.or_eq_true] at none
  simp only [isAsciiWhitespace, List.contains_cons, List.contains_nil, Bool.or_false, Bool.or_eq_true, beq_iff_eq] at none
  obtain (rfl | rfl | rfl | rfl | rfl) | rfl | rfl | rfl := none <;> decide

theorem getLast?_take {text : Text} {start : Nat} (positive : start ≠ 0) (inside : start ≤ text.length) :
    (text.take start).getLast? = text[start - 1]? := by
  rw [List.getLast?_eq_getElem?, List.length_take, Nat.min_eq_left inside, List.getElem?_take_of_lt (by omega)]

theorem between_cons {text : Text} {start stop : Nat} (before : start < stop) (inside : start < text.length) :
    between text start stop = text[start] :: between text (start + 1) stop := by
  rw [between, List.drop_eq_getElem_cons inside, show stop - start = (stop - (start + 1)) + 1 by omega, List.take_succ_cons,
    between]

/-- Operators of the text in their order. -/
structure Listed (text : Text) (nodes : List OperatorNode) : Prop where
  length : ∀ node ∈ nodes, node.stop = node.start + 2
  spelled : ∀ node ∈ nodes, between text node.start node.stop = node.kind.before
  sorted : nodes.Pairwise fun node later => node.stop ≤ later.start

namespace Listed

variable {text : Text}

theorem stands {ahead behind : List OperatorNode} {node : OperatorNode} (listed : Listed text (ahead ++ node :: behind)) :
    Stands text ahead node.start where
  length other member := listed.length other (List.mem_append_left _ member)
  spelled other member := listed.spelled other (List.mem_append_left _ member)
  before other member := (List.pairwise_append.mp listed.sorted).2.2 other member node List.mem_cons_self

theorem symbol {nodes : List OperatorNode} {node : OperatorNode} (listed : Listed text nodes) (member : node ∈ nodes) :
    node.stop ≤ text.length ∧ ∃ symbol, text[node.start]? = some symbol ∧ (symbol = '&' ∨ symbol = '|') :=
  getElem?_of_spelled (listed.length node member) (listed.spelled node member)

/-- Where no space is put on the right, what comes next is no part of a word and stays ahead of the next operator. -/
theorem gap_ne_nil {nodes : List OperatorNode} (listed : Listed text nodes) {node : OperatorNode} (nodeMember : node ∈ nodes)
    {stop : Nat} (before : stop ≤ node.start) (none : needsRightSpace text stop = false) :
    stop < node.start ∧ spliced (between text stop node.start) ≠ [] := by
  obtain ⟨inside, symbol, here, isOperator⟩ := listed.symbol nodeMember
  have length := listed.length node nodeMember
  have present : stop < text.length := by omega
  obtain ⟨noBackslash, noAmp, noPipe, _⟩ := not_word_of_not_needsRightSpace (List.getElem?_eq_getElem present) none
  have apart : stop ≠ node.start := by
    intro same
    rw [← same, List.getElem?_eq_getElem present, Option.some.injEq] at here
    rw [here] at noAmp noPipe
    cases isOperator with
    | inl amp => exact noAmp amp
    | inr pipe => exact noPipe pipe
  have strictly : stop < node.start := by omega
  refine ⟨strictly, ?_⟩
  rw [between_cons strictly present, spliced_cons noBackslash]
  exact List.cons_ne_nil _ _

/-- What stands behind an operator begins with the next symbol of the text, unless this is an operator. -/
theorem rewritten_starts {nodes : List OperatorNode} (listed : Listed text nodes) (choice : Choice) {stop : Nat}
    (behind : ∀ node ∈ nodes, stop ≤ node.start) (none : needsRightSpace text stop = false) :
    ¬StartsWord (rewritten choice text stop nodes text.length) := by
  cases Nat.lt_or_ge stop text.length with
  | inl present =>
    obtain ⟨noBackslash, _, _, noWord⟩ := not_word_of_not_needsRightSpace (List.getElem?_eq_getElem present) none
    have starts : ∃ rest, rewritten choice text stop nodes text.length = text[stop] :: rest := by
      cases nodes with
      | nil => exact ⟨_, between_cons present present⟩
      | cons node nodes =>
        have strictly := (listed.gap_ne_nil List.mem_cons_self (behind node List.mem_cons_self) none).1
        rw [rewritten, between_cons strictly present]
        exact ⟨_, rfl⟩
    obtain ⟨rest, starts⟩ := starts
    rw [starts, startsWord_cons_iff noBackslash, noWord]
    exact Bool.false_ne_true
  | inr ended =>
    cases nodes with
    | nil =>
      rw [rewritten, between_length, List.drop_eq_nil_of_le ended]
      rintro ⟨symbol, nothing, _⟩
      cases nothing
    | cons node nodes =>
      have inside := (listed.symbol List.mem_cons_self).1
      have length := listed.length node List.mem_cons_self
      have after := behind node List.mem_cons_self
      omega

/-- The spaces of the policy keep the keywords apart from words, but for line ends behind a backslash. -/
theorem separated {nodes : List OperatorNode} (listed : Listed text nodes) (selected : OperatorNode → Bool)
    (clear : ∀ node ∈ nodes, selected node = true → ¬BehindSplice text node.start) :
    Separated (spacedChoice text selected) text nodes := by
  intro ahead node behind cut left right chosen
  subst cut
  have member : node ∈ ahead ++ node :: behind := List.mem_append_right _ List.mem_cons_self
  obtain ⟨isSelected, rfl, rfl⟩ := spacedChoice_some chosen
  obtain ⟨inside, _, _, _⟩ := listed.symbol member
  have length := listed.length node member
  constructor
  · cases spaces : needsLeftSpace text node.start with
    | true =>
      rw [show blank true = [' '] from rfl, endsWord_concat_iff (by decide)]
      decide
    | false =>
      rw [show blank false = [] from rfl, List.append_nil, endsWord_rewritten_iff _ listed.stands]
      · intro word
        by_cases atStart : node.start = 0
        · rw [atStart] at word
          obtain ⟨symbol, nothing, _⟩ := word
          cases nothing
        · have present : node.start - 1 < text.length := by omega
          have last : (text.take node.start).getLast? = text[node.start - 1]? := getLast?_take atStart (by omega)
          rw [List.getElem?_eq_getElem present] at last
          by_cases feed : text[node.start - 1] = '\n'
          · exact clear node member isSelected ⟨word, by rw [last, feed]⟩
          · obtain ⟨front, whole⟩ := List.getLast?_eq_some_iff.mp last
            rw [whole, endsWord_concat_iff feed,
              not_word_of_not_needsLeftSpace atStart (List.getElem?_eq_getElem present) spaces] at word
            cases word
      · intro op opMember left chosen
        exact (listed.gap_ne_nil member (listed.stands.before op opMember) (spacedChoice_some chosen).2.2.symm).2
  · have sortedBehind := (List.pairwise_append.mp listed.sorted).2.1
    have rest : Listed text behind :=
      ⟨fun other otherMember => listed.length other (List.mem_append_right _ (List.mem_cons_of_mem _ otherMember)),
        fun other otherMember => listed.spelled other (List.mem_append_right _ (List.mem_cons_of_mem _ otherMember)),
        sortedBehind.of_cons⟩
    cases spaces : needsRightSpace text node.stop with
    | true =>
      rw [show blank true = [' '] from rfl, List.singleton_append, startsWord_cons_iff (by decide)]
      decide
    | false =>
      rw [show blank false = [] from rfl, List.nil_append]
      exact rest.rewritten_starts _ (List.pairwise_cons.mp sortedBehind).1 spaces

end Listed

/-! ## Line ends behind a backslash -/

theorem getLast?_rewritten (choice : Choice) {text : Text} {ahead : List OperatorNode} {stop : Nat}
    (stands : Stands text ahead stop) (feed : (text.take stop).getLast? = some '\n') :
    (rewritten choice text 0 ahead stop).getLast? = some '\n' := by
  cases rewritten_ahead choice stands with
  | inl same => rwa [same]
  | inr some =>
    obtain ⟨node, member, front, frontText, whole, wholeText⟩ := some
    obtain ⟨beforeFront, symbol, before, solid, _⟩ := exists_last_before node.kind
    rw [wholeText, before] at feed
    cases gap : between text node.stop stop with
    | nil =>
      rw [gap, List.append_nil, ← List.append_assoc, List.getLast?_concat, Option.some.injEq] at feed
      exact absurd feed solid.2.1
    | cons first rest =>
      rw [gap, List.getLast?_append_of_ne_nil _ (List.cons_ne_nil _ _)] at feed
      rw [whole, gap, List.getLast?_append_of_ne_nil _ (List.cons_ne_nil _ _), feed]

theorem exists_keyword (kind : LogicalOperator) : ∃ symbol rest, kind.keyword = symbol :: rest ∧ symbol ≠ ' ' := by
  cases kind with
  | ampAmp => exact ⟨'a', ['n', 'd'], rfl, by decide⟩
  | pipePipe => exact ⟨'o', ['r'], rfl, by decide⟩

/-- In a reading that keeps the keywords apart, no replaced operator stands behind a spliced line that ends in a word. -/
theorem Listed.not_behindSplice {text : Text} {nodes : List OperatorNode} (listed : Listed text nodes)
    {selected : OperatorNode → Bool} {choice : Choice}
    (out : rewritten (spacedChoice text selected) text 0 nodes text.length = rewritten choice text 0 nodes text.length)
    (separated : Separated choice text nodes) {node : OperatorNode} (member : node ∈ nodes) (isSelected : selected node = true) :
    ¬BehindSplice text node.start := by
  intro spliced
  obtain ⟨word, feed⟩ := spliced
  have same := isSome_of_filter_rewritten nodes text 0 text.length (congrArg (List.filter (· ≠ ' ')) out)
  obtain ⟨inside, _⟩ := listed.symbol member
  have length := listed.length node member
  have positive : node.start ≠ 0 := fun atStart => by
    rw [atStart] at feed
    cases feed
  have last : (text.take node.start).getLast? = text[node.start - 1]? := getLast?_take positive (by omega)
  have noSpace : needsLeftSpace text node.start = false := by
    rw [needsLeftSpace, if_neg positive, ← last, feed]
    rfl
  have chosen : spacedChoice text selected node = some (false, needsRightSpace text node.stop) := by
    rw [spacedChoice, if_pos isSelected, noSpace]
  obtain ⟨⟨left, right⟩, otherChosen⟩ : ∃ spaces, choice node = some spaces := by
    rw [← Option.isSome_iff_exists, ← same node member, chosen]
    rfl
  obtain ⟨ahead, behind, rfl⟩ := List.append_of_mem member
  obtain ⟨symbol, rest, keyword, shown⟩ := exists_keyword node.kind
  rw [rewritten_split, rewritten_split, tokenOf, tokenOf, chosen, otherChosen, keyword] at out
  have ends : rewritten (spacedChoice text selected) text 0 ahead node.start =
      rewritten choice text 0 ahead node.start ++ blank left := by
    dsimp only at out
    rw [show blank false = [] from rfl] at out
    simp only [List.nil_append, List.cons_append, List.append_assoc] at out
    rw [← List.append_assoc _ (blank left)] at out
    refine eq_of_filter_eq shown shown out ?_
    rw [List.filter_append, filter_blank, List.append_nil]
    exact filter_rewritten_congr (fun other otherMember => same other (List.mem_append_left _ otherMember)) text 0 node.start
  cases left with
  | true =>
    have isFeed := getLast?_rewritten (spacedChoice text selected) listed.stands feed
    rw [ends, show blank true = [' '] from rfl, List.getLast?_concat] at isFeed
    cases isFeed
  | false =>
    refine (separated ahead node behind rfl false right otherChosen).1 ?_
    rw [show blank false = [] from rfl, List.append_nil]
    exact endsWord_rewritten_of_text choice listed.stands word

/-! ## What the policy writes -/

theorem rewriteFrom_later {text : Text} {cursor middle : Nat} {items : List Replacement} (before : cursor ≤ middle)
    (later : ∀ item ∈ items, middle ≤ item.start) :
    rewriteFrom text cursor items = between text cursor middle ++ rewriteFrom text middle items := by
  cases items with
  | nil =>
    have drops : (text.drop cursor).drop (middle - cursor) = text.drop middle := by
      rw [List.drop_drop, Nat.add_sub_cancel' before]
    rw [rewriteFrom, rewriteFrom, between, ← drops, List.take_append_drop]
  | cons item items =>
    have gaps : between text cursor middle ++ between text middle item.start = between text cursor item.start :=
      between_append before (later item List.mem_cons_self)
    rw [rewriteFrom, rewriteFrom, ← List.append_assoc, ← List.append_assoc]
    exact congrArg (fun gap => gap ++ item.replacement ++ rewriteFrom text item.stop items) gaps.symm

/-- The replacements of the selected operators, carried out. -/
theorem rewriteFrom_eq_rewritten {text : Text} {nodes : List OperatorNode} (listed : Listed text nodes)
    (selected : OperatorNode → Bool) {cursor : Nat} (behind : ∀ node ∈ nodes, cursor ≤ node.start) :
    rewriteFrom text cursor ((nodes.filter selected).map (replacementOf text)) =
      rewritten (spacedChoice text selected) text cursor nodes text.length := by
  induction nodes generalizing cursor with
  | nil => exact (between_length text cursor).symm
  | cons node nodes ih =>
    obtain ⟨later, sorted⟩ := List.pairwise_cons.mp listed.sorted
    have rest : Listed text nodes :=
      ⟨fun other member => listed.length other (List.mem_cons_of_mem _ member),
        fun other member => listed.spelled other (List.mem_cons_of_mem _ member), sorted⟩
    rw [rewritten, tokenOf, ← ih rest later]
    by_cases isSelected : selected node = true
    · rw [List.filter_cons_of_pos isSelected, spacedChoice, if_pos isSelected]
      rfl
    · have inOrder : node.start ≤ node.stop := by
        have length := listed.length node List.mem_cons_self
        omega
      have started := behind node List.mem_cons_self
      have items : ∀ item ∈ (nodes.filter selected).map (replacementOf text), node.stop ≤ item.start := by
        intro item member
        obtain ⟨other, otherMember, rfl⟩ := List.mem_map.mp member
        exact later other (List.mem_of_mem_filter otherMember)
      rw [List.filter_cons_of_neg isSelected, spacedChoice, if_neg isSelected, rewriteFrom_later (started.trans inOrder) items,
        ← listed.spelled node List.mem_cons_self, between_append started inOrder]

/-! ## The operators of the tree in their order -/

instance : Std.TransCmp comparePlaces :=
  inferInstanceAs (Std.TransCmp (compareLex (compareOn Prod.fst) (compareOn Prod.snd)))

def sortNodes (nodes : List OperatorNode) : List OperatorNode :=
  KeyedSorting.sortByKey comparePlaces (fun node : OperatorNode => (node.start, node.stop)) nodes

theorem sortNodes_perm (nodes : List OperatorNode) : (sortNodes nodes).Perm nodes := KeyedSorting.sortByKey_perm _ _ _

theorem start_le_of_comparePlaces {place other : Nat × Nat} (order : (comparePlaces place other).isLE = true) :
    place.1 ≤ other.1 := by
  rw [comparePlaces, compareLex, compareOn] at order
  by_contra after
  rw [Nat.compare_eq_gt.mpr (Nat.lt_of_not_le after)] at order
  cases order

/-- Sorted by place, operators that do not overlap come one behind the other. -/
theorem pairwise_sortNodes {nodes : List OperatorNode} (length : ∀ node ∈ nodes, node.stop = node.start + 2)
    (disjoint : nodes.Pairwise fun node other => node.stop ≤ other.start ∨ other.stop ≤ node.start) :
    (sortNodes nodes).Pairwise fun node later => node.stop ≤ later.start := by
  have symmetric : ∀ {node other : OperatorNode}, node.stop ≤ other.start ∨ other.stop ≤ node.start →
      other.stop ≤ node.start ∨ node.stop ≤ other.start := Or.symm
  have apart := ((sortNodes_perm nodes).pairwise_iff symmetric).mpr disjoint
  have inOrder := List.pairwise_map.mp (KeyedSorting.pairwise_sortByKey comparePlaces
    (fun node : OperatorNode => (node.start, node.stop)) nodes)
  refine (inOrder.and apart).imp_of_mem fun {node other} member otherMember both => ?_
  have below := start_le_of_comparePlaces both.1
  have otherLength := length other ((sortNodes_perm nodes).mem_iff.mp otherMember)
  dsimp only at below
  omega

/-- There is only one such order. -/
theorem eq_of_sorted {nodes others : List OperatorNode} (length : ∀ node ∈ nodes, node.stop = node.start + 2)
    (perm : nodes.Perm others) (sorted : nodes.Pairwise fun node later => node.stop ≤ later.start)
    (otherSorted : others.Pairwise fun node later => node.stop ≤ later.start) : nodes = others := by
  refine List.Perm.eq_of_pairwise (fun node other member otherMember before behind => ?_) sorted otherSorted perm
  have nodeLength := length node member
  have otherLength := length other (perm.mem_iff.mpr otherMember)
  omega

theorem collectReplacements_eq (sort : List (Nat × Nat) → List (Nat × Nat)) (policy : LogicalKeywordOperatorsPolicy) (text : Text)
    {tree : OperatorTree} (ofTree : OperatorsOf text tree policy.skipPreprocessor) (scopes : List SemanticScope) :
    (collectReplacementsFromTree sort policy text tree scopes).1 =
      ((sortNodes tree.operators).filter fun node =>
        policy.isCandidate text (collectProtectedRanges (tree.protectedNodes policy.skipPreprocessor)) node &&
          !isSemanticUnsafe sort scopes (operatorLine text node.start)).map (replacementOf text) := by
  rw [collectReplacementsFromTree]
  by_cases short : text.length < 2
  · -- A text with an operator is long enough
    have none : tree.operators = [] := by
      refine List.eq_nil_iff_forall_not_mem.mpr fun node member => ?_
      have inside := (getElem?_of_spelled (ofTree.length node member) (ofTree.spelled node member)).1
      have length := ofTree.length node member
      omega
    rw [if_pos short, none]
    rfl
  · rw [if_neg short]
    dsimp only
    rw [List.filter_filter, ← KeyedSorting.map_sortByKey]
    simp only [Bool.and_comm (policy.isCandidate _ _ _)]
    refine congrArg (List.map (replacementOf text)) ?_
    exact eq_of_sorted
      (fun node member => ofTree.length node (List.mem_of_mem_filter ((sortNodes_perm _).mem_iff.mp member)))
      ((sortNodes_perm _).trans ((sortNodes_perm tree.operators).filter _).symm)
      (pairwise_sortNodes (fun node member => ofTree.length node (List.mem_of_mem_filter member)) (ofTree.disjoint.filter _))
      ((pairwise_sortNodes ofTree.length ofTree.disjoint).filter _)

/-! ## The whole policy -/

def operatorTree (view : KeywordView) : OperatorTree := view.tree.getD ⟨fun _ => [], []⟩

def scopesOf (view : KeywordView) : List SemanticScope := view.semantic.getD []

/-- There are a tree and a semantic context, and no fatal diagnostics. -/
structure Runs (view : KeywordView) : Prop where
  tree : view.tree.isSome = true
  noFatal : view.fatalDiagCount = 0
  semantic : view.semantic.isSome = true

/-- The operators that the policy may replace by their kind and their place. -/
def MayReplace (policy : LogicalKeywordOperatorsPolicy) (view : KeywordView) (node : OperatorNode) : Prop :=
  policy.replaces node.kind = true ∧ OutsideRanges ((operatorTree view).protectedNodes policy.skipPreprocessor) node

/-- A line of a macro region is recognised: its closest scope is one of the preprocessor, or every preprocessor scope that
starts last reaches it. -/
def RecognisedLine (scopes : List SemanticScope) (line : Nat) : Prop :=
  ((scopeAtLocation scopes line).any fun scope => isPreprocessorScope scope.nodeKindId) = true ∨
    ∀ scope, StartsLast scopes line scope → line ≤ scope.endLine

/-- What has to hold of the operators that may be replaced. -/
def KeywordsFit (policy : LogicalKeywordOperatorsPolicy) (view : KeywordView) (text : Text) : Prop :=
  Runs view → ∀ node ∈ (operatorTree view).operators, MayReplace policy view node →
    (isMacroRegion (scopesOf view) (operatorLine text node.start) = true →
      RecognisedLine (scopesOf view) (operatorLine text node.start)) ∧
    (isMacroRegion (scopesOf view) (operatorLine text node.start) = false → ¬BehindSplice text node.start)

theorem containsOffset_iff {captures : List (Nat × Nat)} (ordered : ∀ range ∈ captures, range.1 ≤ range.2) (offset : Nat) :
    containsOffset (collectProtectedRanges captures) offset = true ↔ ∃ range ∈ captures, InRange offset range := by
  have perm := KeyedSorting.sortByKey_perm compare (Prod.fst : Nat × Nat → Nat) captures
  have sorted := List.pairwise_map.mp (KeyedSorting.pairwise_sortByKey compare (Prod.fst : Nat × Nat → Nat) captures)
  rw [containsOffset, collectProtectedRanges, anyRangeHolds_mergeRanges_iff
    (sorted.imp fun order => Nat.isLE_compare.mp order) fun range member => ordered range (perm.mem_iff.mp member)]
  simp only [perm.mem_iff]

/-- What is skipped as unsafe is in a macro region. -/
theorem isMacroRegion_of_unsafe {sort : List (Nat × Nat) → List (Nat × Nat)} (sorts : SortsByStart sort)
    {scopes : List SemanticScope} {line : Nat} (skipped : isSemanticUnsafe sort scopes line = true) :
    isMacroRegion scopes line = true := by
  rw [isSemanticUnsafe, Bool.or_eq_true] at skipped
  cases skipped with
  | inl closest =>
    cases found : scopeAtLocation scopes line with
    | none =>
      rw [found] at closest
      cases closest
    | some scope =>
      rw [found, Option.any_some] at closest
      obtain ⟨member, holds⟩ := scopeAtLocation_mem found
      rw [isMacroRegion, List.any_eq_true]
      exact ⟨scope, member, by rw [closest, holds]; rfl⟩
  | inr lookup => exact isMacroRegion_of_at sorts lookup

section
variable (sort : List (Nat × Nat) → List (Nat × Nat)) (policy : LogicalKeywordOperatorsPolicy) (view : KeywordView) (text : Text)

def selects (node : OperatorNode) : Bool :=
  policy.isCandidate text (collectProtectedRanges ((operatorTree view).protectedNodes policy.skipPreprocessor)) node &&
    !isSemanticUnsafe sort (scopesOf view) (operatorLine text node.start)

variable {sort policy view text} (ofTree : OperatorsOf text (operatorTree view) policy.skipPreprocessor)
include ofTree

theorem listed_sortNodes : Listed text (sortNodes (operatorTree view).operators) where
  length node member := ofTree.length node ((sortNodes_perm _).mem_iff.mp member)
  spelled node member := ofTree.spelled node ((sortNodes_perm _).mem_iff.mp member)
  sorted := pairwise_sortNodes ofTree.length ofTree.disjoint

theorem selects_iff {node : OperatorNode} (member : node ∈ (operatorTree view).operators) :
    selects sort policy view text node = true ↔
      MayReplace policy view node ∧ isSemanticUnsafe sort (scopesOf view) (operatorLine text node.start) = false := by
  have length := ofTree.length node member
  have inside := (getElem?_of_spelled length (ofTree.spelled node member)).1
  have outside : containsOffset (collectProtectedRanges ((operatorTree view).protectedNodes policy.skipPreprocessor))
      node.start = false ↔ OutsideRanges ((operatorTree view).protectedNodes policy.skipPreprocessor) node := by
    rw [Bool.eq_false_iff, Ne, containsOffset_iff ofTree.ordered]
    constructor
    · intro free range rangeMember
      refine (ofTree.whole node member range rangeMember).resolve_left fun covered => free ⟨range, rangeMember, ?_⟩
      exact ⟨covered.1, by omega⟩
    · intro apart held
      obtain ⟨range, rangeMember, started, before⟩ := held
      have away := apart range rangeMember
      omega
  rw [selects, isCandidate, MayReplace, ← outside]
  simp only [Bool.and_eq_true, Bool.not_eq_true', Bool.or_eq_false_iff, decide_eq_false_iff_not]
  constructor
  · intro chosen
    exact ⟨⟨chosen.1.1.1, chosen.1.2⟩, chosen.2⟩
  · intro chosen
    exact ⟨⟨⟨chosen.1.1, by omega, by omega⟩, chosen.1.2⟩, chosen.2⟩

omit ofTree in
theorem written_replaced (items : List Replacement) (skipped : Nat) :
    (replaced text items skipped).written text = rewriteFrom text 0 items := by
  cases items with
  | nil =>
    rw [replaced, rewriteFrom, List.drop_zero]
    split <;> rfl
  | cons item items => rfl

/-- The policy writes the text with the selected operators replaced. -/
theorem apply_written (runs : Runs view) :
    (apply sort policy view text).written text =
      rewritten (spacedChoice text (selects sort policy view text)) text 0 (sortNodes (operatorTree view).operators)
        text.length := by
  rw [← rewriteFrom_eq_rewritten (listed_sortNodes ofTree) _ fun _ _ => Nat.zero_le _, apply]
  split
  · next neither =>
    -- No operator is replaced by its kind
    have none : (sortNodes (operatorTree view).operators).filter (selects sort policy view text) = [] := by
      refine List.filter_eq_nil_iff.mpr fun node _ selected => ?_
      rw [Bool.and_eq_true, Bool.not_eq_true', Bool.not_eq_true'] at neither
      rw [selects, isCandidate, replaces.eq_def, neither.1, neither.2] at selected
      cases kind : node.kind <;> simp [kind] at selected
    rw [none]
    rfl
  · obtain ⟨tree, isTree⟩ := Option.isSome_iff_exists.mp runs.tree
    obtain ⟨scopes, isSemantic⟩ := Option.isSome_iff_exists.mp runs.semantic
    have sameTree : operatorTree view = tree := by rw [operatorTree, isTree, Option.getD_some]
    have sameScopes : scopesOf view = scopes := by rw [scopesOf, isSemantic, Option.getD_some]
    have selection : selects sort policy view text = fun node =>
        policy.isCandidate text (collectProtectedRanges (tree.protectedNodes policy.skipPreprocessor)) node &&
          !isSemanticUnsafe sort scopes (operatorLine text node.start) := by
      funext node
      rw [selects, sameTree, sameScopes]
    rw [sameTree] at ofTree ⊢
    rw [isTree, isSemantic, selection]
    dsimp only
    rw [if_neg (by rw [runs.noFatal]; exact Nat.lt_irrefl 0), written_replaced, collectReplacements_eq sort policy text ofTree]

omit ofTree in
theorem apply_unchanged (stays : ¬Runs view) : (apply sort policy view text).written text = text := by
  rw [apply]
  split
  · rfl
  · split
    · rfl
    · next tree isTree =>
      split
      · rfl
      · next noFatal =>
        split
        · rfl
        · next scopes isSemantic =>
          exact absurd ⟨by rw [isTree]; rfl, Nat.eq_zero_of_not_pos noFatal, by rw [isSemantic]; rfl⟩ stays

/-- Under the condition the policy keeps the tokens, whatever order the sort leaves equal first lines in. -/
theorem keepsTokens_of_fit (sorts : SortsByStart sort) (fit : KeywordsFit policy view text) :
    KeepsTokens (operatorTree view) policy.skipPreprocessor (scopesOf view) text
      ((apply sort policy view text).written text) := by
  have listed := listed_sortNodes ofTree
  have perm := sortNodes_perm (operatorTree view).operators
  by_cases runs : Runs view
  · have chosen : ∀ node ∈ sortNodes (operatorTree view).operators, selects sort policy view text node = true →
        OutsideRanges ((operatorTree view).protectedNodes policy.skipPreprocessor) node ∧
          isMacroRegion (scopesOf view) (operatorLine text node.start) = false := by
      intro node member selected
      obtain ⟨replaceable, safe⟩ := (selects_iff ofTree (perm.mem_iff.mp member)).mp selected
      refine ⟨replaceable.2, ?_⟩
      by_contra inside
      rw [Bool.not_eq_false] at inside
      rw [isSemanticUnsafe, Bool.or_eq_false_iff] at safe
      cases (fit runs node (perm.mem_iff.mp member) replaceable).1 inside with
      | inl closest => exact Bool.false_ne_true (safe.1.symm.trans closest)
      | inr latest =>
        have found := (macroLookup_eq_iff _ _).mpr (.inr latest) sort sorts
        exact Bool.false_ne_true (safe.2.symm.trans (found.trans inside))
    refine ⟨_, _, perm, listed.sorted, apply_written ofTree runs, listed.separated _ fun node member selected => ?_, ?_⟩
    · have replaceable := ((selects_iff ofTree (perm.mem_iff.mp member)).mp selected).1
      exact (fit runs node (perm.mem_iff.mp member) replaceable).2 (chosen node member selected).2
    · intro node member isSome
      rw [spacedChoice] at isSome
      split at isSome
      · next selected => exact chosen node member selected
      · cases isSome
  · -- Nothing is written
    have kept := rewriteFrom_eq_rewritten listed (fun _ => false) fun _ _ => Nat.zero_le _
    rw [List.filter_false, List.map_nil, rewriteFrom, List.drop_zero] at kept
    refine ⟨_, spacedChoice text fun _ => false, perm, listed.sorted, ?_, listed.separated _ ?_, ?_⟩
    · rw [apply_unchanged runs]
      exact kept
    · intro node _ selected
      cases selected
    · intro node _ isSome
      cases isSome

/-- An operator that the policy selects under some order of the ranges fits. -/
theorem fit_of_keepsTokens {node : OperatorNode} (runs : Runs view) (member : node ∈ (operatorTree view).operators)
    (selected : selects sort policy view text node = true)
    (keeps : KeepsTokens (operatorTree view) policy.skipPreprocessor (scopesOf view) text
      ((apply sort policy view text).written text)) :
    isMacroRegion (scopesOf view) (operatorLine text node.start) = false ∧ ¬BehindSplice text node.start := by
  obtain ⟨nodes, choice, perm, sorted, out, separated, outside⟩ := keeps
  have listed := listed_sortNodes ofTree
  have sortedPerm := sortNodes_perm (operatorTree view).operators
  obtain rfl : sortNodes (operatorTree view).operators = nodes :=
    eq_of_sorted listed.length (sortedPerm.trans perm.symm) listed.sorted sorted
  rw [apply_written ofTree runs] at out
  have listedMember := sortedPerm.mem_iff.mpr member
  have same := isSome_of_filter_rewritten _ text 0 text.length (congrArg (List.filter (· ≠ ' ')) out) node listedMember
  rw [spacedChoice, if_pos selected] at same
  exact ⟨(outside node listedMember same.symm).2, listed.not_behindSplice out separated listedMember selected⟩

end

/-- The output keeps the tokens, whatever order the sort leaves equal first lines in, if and only if every operator that may be
replaced is recognised where it stands in a macro region, and does not stand behind a spliced line that ends in a word where it
does not. -/
theorem keepsTokens_iff (policy : LogicalKeywordOperatorsPolicy) (view : KeywordView) (text : Text)
    (ofTree : OperatorsOf text (operatorTree view) policy.skipPreprocessor) :
    (∀ sort, SortsByStart sort → KeepsTokens (operatorTree view) policy.skipPreprocessor (scopesOf view) text
        ((apply sort policy view text).written text)) ↔ KeywordsFit policy view text := by
  constructor
  · intro keeps runs node member replaceable
    have fits := fun selected => fit_of_keepsTokens ofTree runs member selected (keeps shortestLast sortsByStart_shortestLast)
    constructor
    · intro inside
      by_contra missed
      rw [RecognisedLine, not_or] at missed
      push Not at missed
      obtain ⟨noScope, scope, last, ended⟩ := missed
      -- With equal first lines in a bad order the lookup misses the line
      have safe : isSemanticUnsafe shortestLast (scopesOf view) (operatorLine text node.start) = false := by
        rw [isSemanticUnsafe, isMacroRegionAt_shortestLast last ended, Bool.or_false]
        exact Bool.eq_false_iff.mpr noScope
      have outside := (fits ((selects_iff ofTree member).mpr ⟨replaceable, safe⟩)).1
      exact Bool.false_ne_true (outside.symm.trans inside)
    · intro outside
      have safe : isSemanticUnsafe shortestLast (scopesOf view) (operatorLine text node.start) = false := by
        by_contra skipped
        have inside := isMacroRegion_of_unsafe sortsByStart_shortestLast (Bool.not_eq_false _ ▸ skipped)
        exact Bool.false_ne_true (outside.symm.trans inside)
      exact (fits ((selects_iff ofTree member).mpr ⟨replaceable, safe⟩)).2
  · intro fit sort sorts
    exact keepsTokens_of_fit ofTree sorts fit

def bothOperators (skipPreprocessor : Bool) : LogicalKeywordOperatorsPolicy := ⟨true, true, skipPreprocessor⟩

def viewOf (operators : List OperatorNode) (scopes : List SemanticScope) : KeywordView :=
  ⟨some ⟨fun _ => [], operators⟩, 0, some scopes⟩

def plainLine : Text := "bool ok = a&&b || c;\n".toList

def plainView : KeywordView := viewOf [⟨.pipePipe, 15, 17⟩, ⟨.ampAmp, 11, 13⟩] []

theorem keepsTokens_plainLine :
    (∀ sort, SortsByStart sort → KeepsTokens (operatorTree plainView) true (scopesOf plainView) plainLine
        ((apply sort (bothOperators true) plainView plainLine).written plainLine)) ↔
      KeywordsFit (bothOperators true) plainView plainLine :=
  keepsTokens_iff (bothOperators true) plainView plainLine ⟨by decide, by decide, by decide, by decide, by decide⟩

/-- An operator in a conditional block behind a definition of a macro, and one behind a spliced line. -/
def guardedOperator : Text := "#ifdef A\n#define X 1\n\nbool f(bool a, bool b) \x7b\n  return a && b;\n\x7d\n#endif\n".toList

def guardedView : KeywordView :=
  viewOf [⟨.ampAmp, 58, 60⟩] [⟨.preprocIfdef, 0, 72, 1, 7⟩, ⟨.preprocDef, 9, 21, 2, 3⟩, ⟨.functionDefinition, 22, 65, 4, 6⟩]

def splicedOperator : Text := "bool ok = a\\\n&&b;\n".toList

def splicedView : KeywordView := viewOf [⟨.ampAmp, 13, 15⟩] []

theorem operators_misplaced :
    (¬KeepsTokens (operatorTree guardedView) false (scopesOf guardedView) guardedOperator
      ((apply shortestLast (bothOperators false) guardedView guardedOperator).written guardedOperator)) ∧
    ¬KeepsTokens (operatorTree splicedView) true (scopesOf splicedView) splicedOperator
      ((apply shortestLast (bothOperators true) splicedView splicedOperator).written splicedOperator) := by
  constructor
  · intro keeps
    have ofTree : OperatorsOf guardedOperator (operatorTree guardedView) (bothOperators false).skipPreprocessor :=
      ⟨by decide, by decide, by decide, by decide, by decide⟩
    have outside := (fit_of_keepsTokens ofTree ⟨rfl, rfl, rfl⟩ List.mem_cons_self (by decide) keeps).1
    exact absurd outside (by decide)
  · intro keeps
    have ofTree : OperatorsOf splicedOperator (operatorTree splicedView) (bothOperators true).skipPreprocessor :=
      ⟨by decide, by decide, by decide, by decide, by decide⟩
    refine (fit_of_keepsTokens ofTree ⟨rfl, rfl, rfl⟩ List.mem_cons_self (by decide) keeps).2 ⟨⟨'a', ?_, by decide⟩, by decide⟩
    decide

end MjFormatter.Verified
