import MjFormatter.Policy.ClassLayout
import MjFormatter.Verified.TrimmedLines

/-! # Reordered member definitions

The region from the first candidate to the last is rebuilt from the candidates alone.  What stands between two of them is lost, and
what is put in front of the first one is not part of the region of the next run. -/

namespace MjFormatter.Verified.MemberOrder

open Library ClassLayoutPolicy

/-! ## Candidates -/

/-- No two of the definitions overlap. -/
def Apart (candidates : List SourceBlock) : Prop :=
  candidates.Pairwise fun left right => left.stop ≤ right.start ∨ right.stop ≤ left.start

/-- The places of a block are in the text, and its text is what stands there. -/
structure Within (text : Text) (block : SourceBlock) : Prop where
  nonempty : block.start < block.stop
  bound : block.stop ≤ text.length
  cut : block.text = (text.take block.stop).drop block.start

theorem Within.text_ne_nil {text : Text} {block : SourceBlock} (within : Within text block) : block.text ≠ [] := by
  intro empty
  have length := congrArg List.length within.cut
  rw [empty, List.length_nil, List.length_drop, List.length_take] at length
  have nonempty := within.nonempty
  have inside := within.bound
  omega

/-- Blocks one after another. -/
structure Laid (text : Text) (blocks : List SourceBlock) : Prop where
  within : ∀ block ∈ blocks, Within text block
  ordered : blocks.Pairwise fun left right => left.stop ≤ right.start

theorem within_of_sourceBlock {text : Text} {node : FunctionDefinition} {block : SourceBlock}
    (made : sourceBlock text node = some block) : Within text block := by
  obtain ⟨fullName, -, rest⟩ := Option.bind_eq_some_iff.mp made
  split at rest
  · rename_i fits
    cases rest
    exact ⟨fits.1, fits.2, rfl⟩
  · cases rest

theorem within_of_mem_candidatesOf {headerOrder : List HeaderMethodEntry} {text : Text} {functions : List FunctionDefinition}
    {block : SourceBlock} (member : block ∈ candidatesOf headerOrder text functions) : Within text block := by
  have kept := (KeyedSorting.sortByKey_perm compare SourceBlock.start _).mem_iff.mp member
  have extracted := (KeyedSorting.sortByKey_perm compare SourceBlock.start _).mem_iff.mp (List.mem_of_mem_filter kept)
  obtain ⟨node, -, made⟩ := List.mem_filterMap.mp extracted
  exact within_of_sourceBlock made

theorem pairwise_start_candidatesOf (headerOrder : List HeaderMethodEntry) (text : Text) (functions : List FunctionDefinition) :
    (candidatesOf headerOrder text functions).Pairwise fun left right => left.start ≤ right.start := by
  have sorted := List.pairwise_map.mp (KeyedSorting.pairwise_sortByKey compare SourceBlock.start
    ((extractSourceBlocks text functions).filter fun block =>
      (headerOrder.map HeaderMethodEntry.fullName).contains block.fullName))
  exact sorted.imp fun order => Nat.isLE_compare.mp order

theorem laid_candidatesOf {headerOrder : List HeaderMethodEntry} {text : Text} {functions : List FunctionDefinition}
    (apart : Apart (candidatesOf headerOrder text functions)) : Laid text (candidatesOf headerOrder text functions) := by
  refine ⟨fun block => within_of_mem_candidatesOf, ?_⟩
  refine ((apart.and (pairwise_start_candidatesOf headerOrder text functions)).imp_of_mem ?_)
  rintro left right leftMember rightMember ⟨before | behind, order⟩
  · exact before
  · have nonempty := (within_of_mem_candidatesOf rightMember).nonempty
    omega

/-- Blocks at one place are one block. -/
theorem Laid.nodup_starts {text : Text} {blocks : List SourceBlock} (laid : Laid text blocks) :
    (blocks.map SourceBlock.start).Nodup := by
  refine List.pairwise_map.mpr (laid.ordered.imp_of_mem ?_)
  rintro left right leftMember - before same
  have nonempty := (laid.within left leftMember).nonempty
  omega

theorem Laid.nodup {text : Text} {blocks : List SourceBlock} (laid : Laid text blocks) : blocks.Nodup :=
  laid.nodup_starts.of_map _

/-! ## The new order -/

section
variable {text : Text} {candidates : List SourceBlock} (headerOrder : List HeaderMethodEntry)

/-- The blocks at the places of the taken ones are the taken ones. -/
theorem leftovers_eq (laid : Laid text candidates) :
    leftovers headerOrder candidates (takenBlocks headerOrder candidates) =
      (Queues.left HeaderMethodEntry.fullName SourceBlock.fullName headerOrder candidates).map fun block =>
        (block, accessOf headerOrder block.fullName) := by
  rw [leftovers, Queues.left]
  congr 1
  refine List.filter_congr fun block member => ?_
  have taken : (block.start, block.stop) ∈ (takenBlocks headerOrder candidates).map (fun item => (item.1.start, item.1.stop)) ↔
      block ∈ (Queues.taken HeaderMethodEntry.fullName SourceBlock.fullName headerOrder candidates).map Prod.fst := by
    rw [takenBlocks, List.map_map, List.mem_map, List.mem_map]
    constructor
    · rintro ⟨item, isTaken, place⟩
      have candidate := Queues.mem_of_mem_taken HeaderMethodEntry.fullName SourceBlock.fullName headerOrder
        (List.mem_map_of_mem (f := Prod.fst) isTaken)
      exact ⟨item, isTaken, List.inj_on_of_nodup_map laid.nodup_starts candidate member (congrArg Prod.fst place)⟩
    · rintro ⟨item, isTaken, rfl⟩
      exact ⟨item, isTaken, rfl⟩
  simp only [List.contains_eq_mem, taken, decide_not]

theorem map_fst_orderedBlocks (laid : Laid text candidates) :
    (orderedBlocks headerOrder candidates).map Prod.fst =
      (Queues.taken HeaderMethodEntry.fullName SourceBlock.fullName headerOrder candidates).map Prod.fst ++
        Queues.left HeaderMethodEntry.fullName SourceBlock.fullName headerOrder candidates := by
  have blocks : (Prod.fst ∘ fun block : SourceBlock => (block, accessOf headerOrder block.fullName)) = id := rfl
  rw [orderedBlocks, List.map_append, leftovers_eq headerOrder laid, takenBlocks, List.map_map, List.map_map, blocks, List.map_id]
  rfl

theorem orderedBlocks_perm (laid : Laid text candidates) :
    ((orderedBlocks headerOrder candidates).map Prod.fst).Perm candidates := by
  rw [map_fst_orderedBlocks headerOrder laid]
  exact Queues.taken_append_left_perm _ _ _ laid.nodup

/-- Definitions of one name keep their order. -/
theorem filter_orderedBlocks (laid : Laid text candidates) (name : Text) :
    ((orderedBlocks headerOrder candidates).map Prod.fst).filter (fun block => block.fullName = name) =
      candidates.filter fun block => block.fullName = name := by
  rw [map_fst_orderedBlocks headerOrder laid]
  exact Queues.queuesOf_taken_append_left _ _ _ laid.nodup name

/-- The definitions that the header asks for come first, in its order and in its sections. -/
theorem takenBlocks_sublist :
    ((takenBlocks headerOrder candidates).map fun item => HeaderMethodEntry.mk item.1.fullName item.2).Sublist headerOrder := by
  have entries : (takenBlocks headerOrder candidates).map (fun item => HeaderMethodEntry.mk item.1.fullName item.2) =
      (Queues.taken HeaderMethodEntry.fullName SourceBlock.fullName headerOrder candidates).map Prod.snd := by
    rw [takenBlocks, List.map_map]
    refine List.map_congr_left fun item member => ?_
    have named := Queues.key_of_mem_taken HeaderMethodEntry.fullName SourceBlock.fullName headerOrder candidates member
    simp only [Function.comp_apply, named]
  rw [entries]
  exact Queues.map_snd_takeInTurn_sublist _ _ _

end

/-! ## The region -/

/-- What stands between two places. -/
def between (text : Text) (start stop : Nat) : Text := (text.take stop).drop start

theorem between_append (text : Text) {start middle stop : Nat} (first : start ≤ middle) (second : middle ≤ stop) :
    between text start middle ++ between text middle stop = between text start stop := by
  have inner : (text.take stop).take middle = text.take middle := by rw [List.take_take, Nat.min_eq_left second]
  rw [between, between, between, ← inner]
  by_cases fits : middle ≤ (text.take stop).length
  · have front : ((text.take stop).take middle).length = middle := List.length_take_of_le fits
    conv_rhs => rw [← List.take_append_drop middle (text.take stop), List.drop_append_of_le_length (by omega)]
  · have whole : (text.take stop).take middle = text.take stop := List.take_of_length_le (by omega)
    rw [whole, List.drop_of_length_le (by omega : (text.take stop).length ≤ middle), List.append_nil]

/-- What stands between the blocks. -/
def gaps (text : Text) : List SourceBlock → Text
  | [] | [_] => []
  | block :: next :: blocks => between text block.stop next.start ++ gaps text (next :: blocks)

/-- The blocks with what stands between them. -/
def region (text : Text) : List SourceBlock → Text
  | [] => []
  | [block] => block.text
  | block :: next :: blocks => block.text ++ between text block.stop next.start ++ region text (next :: blocks)

theorem between_eq_region {text : Text} {first : SourceBlock} {blocks : List SourceBlock} {last : SourceBlock}
    (laid : Laid text (first :: blocks)) (isLast : (first :: blocks).getLast? = some last) :
    between text first.start last.stop = region text (first :: blocks) := by
  induction blocks generalizing first with
  | nil =>
    obtain rfl : first = last := by simpa using isLast
    exact (laid.within first List.mem_cons_self).cut.symm
  | cons next blocks inductionHypothesis =>
    have rest : Laid text (next :: blocks) :=
      ⟨fun block member => laid.within block (List.mem_cons_of_mem _ member), laid.ordered.of_cons⟩
    have restLast : (next :: blocks).getLast? = some last := by rwa [List.getLast?_cons_cons] at isLast
    have firstWithin := laid.within first List.mem_cons_self
    have nextWithin := rest.within next List.mem_cons_self
    have order : first.stop ≤ next.start := List.rel_of_pairwise_cons laid.ordered List.mem_cons_self
    have lastStop : next.start ≤ last.stop := by
      have member : last ∈ next :: blocks := List.mem_of_getLast? restLast
      rcases List.mem_cons.mp member with rfl | later
      · exact nextWithin.nonempty.le
      · have behind : next.stop ≤ last.start := List.rel_of_pairwise_cons rest.ordered later
        have nonempty := (rest.within last member).nonempty
        have nextNonempty := nextWithin.nonempty
        omega
    rw [region, ← inductionHypothesis rest restLast, firstWithin.cut, ← between,
      between_append text firstWithin.nonempty.le order,
      between_append text (firstWithin.nonempty.le.trans order) lastStop]

/-! ## Letters -/

/-- The symbols that can be seen. -/
def letters (text : Text) : Text := text.filter fun symbol => !isWhitespace symbol

@[simp] theorem letters_nil : letters [] = [] := rfl

@[simp] theorem letters_append (front back : Text) : letters (front ++ back) = letters front ++ letters back :=
  List.filter_append _ _

theorem letters_of_blank {blank : Text} (isBlank : Blank blank) : letters blank = [] := by
  rw [letters, List.filter_eq_nil_iff]
  intro symbol member
  simp [isBlank symbol member]

@[simp] theorem letters_trimEnd (text : Text) : letters (trimEnd text) = letters text := by
  obtain ⟨blank, isBlank, whole⟩ := exists_trimEnd text
  conv_rhs => rw [whole, letters_append, letters_of_blank isBlank, List.append_nil]

/-- The section comments that are put in. -/
def headings : Option AccessLevel → List (SourceBlock × AccessLevel) → Text
  | _, [] => []
  | last, (_, access) :: blocks => (if last = some access then [] else access.sectionComment) ++ headings (some access) blocks

theorem letters_lead (last : Option AccessLevel) (access : AccessLevel) :
    letters (lead last access) = letters (if last = some access then [] else access.sectionComment) := by
  cases last with
  | none => simp [lead, letters, isWhitespace]
  | some last =>
    by_cases same : last = access
    · simp [lead, same, letters, isWhitespace]
    · simp [lead, same, letters, isWhitespace]

theorem letters_joinBlocks (last : Option AccessLevel) (blocks : List (SourceBlock × AccessLevel)) :
    (letters (joinBlocks last blocks)).Perm
      (letters ((blocks.map Prod.fst).flatMap SourceBlock.text) ++ letters (headings last blocks)) := by
  induction blocks generalizing last with
  | nil => exact List.Perm.refl _
  | cons item blocks inductionHypothesis =>
    obtain ⟨block, access⟩ := item
    simp only [joinBlocks, headings, letters_append, letters_lead, letters_trimEnd, List.map_cons, List.flatMap_cons]
    refine ((inductionHypothesis (some access)).append_left _).trans ?_
    simp only [List.append_assoc]
    refine (List.perm_append_comm_assoc _ _ _).trans ?_
    exact (List.perm_append_comm_assoc _ _ _).append_left _

theorem letters_region (text : Text) (blocks : List SourceBlock) :
    (letters (region text blocks)).Perm (letters (blocks.flatMap SourceBlock.text) ++ letters (gaps text blocks)) := by
  induction blocks with
  | nil => exact List.Perm.refl _
  | cons block blocks inductionHypothesis =>
    cases blocks with
    | nil => simp [region, gaps]
    | cons next blocks =>
      simp only [region, gaps, letters_append, List.flatMap_cons, List.append_assoc] at inductionHypothesis ⊢
      refine List.Perm.append_left _ ((inductionHypothesis.append_left _).trans ?_)
      have swapped := List.perm_append_comm_assoc (letters (between text block.stop next.start))
        (letters next.text ++ letters (blocks.flatMap SourceBlock.text)) (letters (gaps text (next :: blocks)))
      simpa only [List.append_assoc] using swapped

/-! ## The rebuilt text -/

section
variable (headerOrder : List HeaderMethodEntry) {text : Text} {candidates : List SourceBlock}

/-- Nothing but the comments is new, and what stands between the candidates is lost. -/
theorem letters_rebuilt_perm_iff (laid : Laid text candidates) :
    (letters (region text candidates) ++ letters (headings none (orderedBlocks headerOrder candidates))).Perm
        (letters (joinBlocks none (orderedBlocks headerOrder candidates))) ↔ letters (gaps text candidates) = [] := by
  have blocks : (letters (((orderedBlocks headerOrder candidates).map Prod.fst).flatMap SourceBlock.text)).Perm
      (letters (candidates.flatMap SourceBlock.text)) :=
    ((orderedBlocks_perm headerOrder laid).flatMap_right _).filter _
  have joined := (letters_joinBlocks none (orderedBlocks headerOrder candidates)).trans (blocks.append_right _)
  have whole := (letters_region text candidates).append_right
    (letters (headings none (orderedBlocks headerOrder candidates)))
  constructor
  · intro kept
    have lengths := (whole.symm.trans (kept.trans joined)).length_eq
    simp only [List.length_append] at lengths
    exact List.length_eq_zero_iff.mp (by omega)
  · intro blank
    rw [blank, List.append_nil] at whole
    exact whole.trans joined.symm

end

/-! ## When the policy rebuilds -/

/-- The policy gets as far as to reorder the candidates. -/
structure Ready (policy : ClassLayoutPolicy) (view : ClassLayoutView) (text : Text) (classes : List ClassNode)
    (functions : List FunctionDefinition) : Prop where
  sourceFile : policy.isSourceFile view = true
  available : view.isAvailable = true
  tree : view.functions = some functions
  header : view.header = .parsed classes
  two : 2 ≤ (candidatesOf (extractHeaderOrder classes) text functions).length
  plain : ((candidatesOf (extractHeaderOrder classes) text functions).any fun item =>
    (List.range' item.startLine (item.endLine + 1 - item.startLine)).any view.isMacroLine) = false

section
variable {policy : ClassLayoutPolicy} {view : ClassLayoutView} {text : Text} {classes : List ClassNode}
  {functions : List FunctionDefinition}

theorem fullName_of_mem_candidatesOf {headerOrder : List HeaderMethodEntry} {block : SourceBlock}
    (member : block ∈ candidatesOf headerOrder text functions) : ∃ entry ∈ headerOrder, entry.fullName = block.fullName := by
  have kept := (KeyedSorting.sortByKey_perm compare SourceBlock.start _).mem_iff.mp member
  have known := (List.mem_filter.mp kept).2
  simpa [List.contains_eq_mem] using known

theorem length_candidatesOf_le (headerOrder : List HeaderMethodEntry) (text : Text) (functions : List FunctionDefinition) :
    (candidatesOf headerOrder text functions).length ≤ (extractSourceBlocks text functions).length := by
  rw [candidatesOf, (KeyedSorting.sortByKey_perm compare SourceBlock.start _).length_eq]
  exact List.length_filter_le _ _

/-- Some entry of the header finds its block. -/
theorem takenBlocks_ne_nil {headerOrder : List HeaderMethodEntry}
    (some : candidatesOf headerOrder text functions ≠ []) :
    takenBlocks headerOrder (candidatesOf headerOrder text functions) ≠ [] := by
  obtain ⟨block, member⟩ := List.exists_mem_of_ne_nil _ some
  obtain ⟨entry, known, named⟩ := fullName_of_mem_candidatesOf member
  have queued : block ∈ Queues.queuesOf SourceBlock.fullName (candidatesOf headerOrder text functions) block.fullName :=
    List.mem_filter.mpr ⟨member, by simp⟩
  have counted : 0 < headerOrder.countP fun request => request.fullName = block.fullName :=
    List.countP_pos_iff.mpr ⟨entry, known, by simp [named]⟩
  intro empty
  have none := Queues.filter_map_fst_taken HeaderMethodEntry.fullName SourceBlock.fullName headerOrder
    (candidatesOf headerOrder text functions) block.fullName
  rw [List.map_eq_nil_iff.mp empty, List.map_nil, List.filter_nil] at none
  have length := congrArg List.length none
  have positive := List.length_pos_of_mem queued
  rw [List.length_nil, List.length_take] at length
  omega

theorem apply_of_ready (ready : Ready policy view text classes functions) :
    policy.apply view text =
      reorder (extractHeaderOrder classes) text (candidatesOf (extractHeaderOrder classes) text functions) := by
  have some : candidatesOf (extractHeaderOrder classes) text functions ≠ [] := by
    intro empty
    have two := ready.two
    simp [empty] at two
  have entries : extractHeaderOrder classes ≠ [] := by
    intro empty
    obtain ⟨block, member⟩ := List.exists_mem_of_ne_nil _ some
    obtain ⟨entry, known, -⟩ := fullName_of_mem_candidatesOf member
    simp [empty] at known
  have extracted := ready.two.trans (length_candidatesOf_le (extractHeaderOrder classes) text functions)
  simp only [ClassLayoutPolicy.apply, ready.sourceFile, ready.available, ready.tree, ready.header, Bool.not_true,
    Bool.false_eq_true, if_false]
  rw [applyTo, if_neg entries, if_neg (by omega)]
  simp only [ready.plain, Bool.false_eq_true, if_false, takenBlocks_ne_nil some]
  rw [if_neg (by have two := ready.two; omega)]

theorem of_applyTo_changed {headerOrder : List HeaderMethodEntry}
    (changed : (applyTo view headerOrder functions text).changed = true) :
    2 ≤ (candidatesOf headerOrder text functions).length ∧
      ((candidatesOf headerOrder text functions).any fun item =>
        (List.range' item.startLine (item.endLine + 1 - item.startLine)).any view.isMacroLine) = false := by
  rw [applyTo] at changed
  split at changed
  · simp [PolicyResult.unchanged] at changed
  split at changed
  · simp [PolicyResult.unchanged] at changed
  dsimp only at changed
  split at changed
  · simp [PolicyResult.unchanged] at changed
  rename_i two
  split at changed
  · simp [PolicyResult.unchanged, PolicyResult.warn] at changed
  rename_i plain
  exact ⟨by omega, by rwa [Bool.not_eq_true] at plain⟩

theorem ready_of_changed (changed : (policy.apply view text).changed = true) :
    ∃ classes functions, Ready policy view text classes functions := by
  by_cases sourceFile : policy.isSourceFile view = true
  · by_cases available : view.isAvailable = true
    · cases tree : view.functions with
      | none => simp [ClassLayoutPolicy.apply, sourceFile, available, tree, PolicyResult.warn, PolicyResult.unchanged] at changed
      | some functions =>
        cases header : view.header with
        | missing | unreadable | unparsed =>
          simp [ClassLayoutPolicy.apply, sourceFile, available, tree, header, PolicyResult.warn, PolicyResult.unchanged] at changed
        | parsed classes =>
          simp only [ClassLayoutPolicy.apply, sourceFile, available, tree, header, Bool.not_true, Bool.false_eq_true,
            if_false] at changed
          obtain ⟨two, plain⟩ := of_applyTo_changed changed
          exact ⟨classes, functions, sourceFile, available, tree, header, two, plain⟩
    · simp [ClassLayoutPolicy.apply, sourceFile, available, PolicyResult.warn, PolicyResult.unchanged] at changed
  · simp [ClassLayoutPolicy.apply, sourceFile, PolicyResult.unchanged] at changed

section
variable {headerOrder : List HeaderMethodEntry}

/-- What is written when the region is not what it was. -/
theorem reorder_cons {first : SourceBlock} {rest : List SourceBlock} {last : SourceBlock}
    (isLast : (first :: rest).getLast? = some last) (order : first.start < last.stop) (bound : last.stop ≤ text.length)
    (other : trimEnd (between text first.start last.stop) ≠ trimEnd (joinBlocks none (orderedBlocks headerOrder (first :: rest)))) :
    (reorder headerOrder text (first :: rest)).changed = true ∧
      (reorder headerOrder text (first :: rest)).text = text.take first.start ++
        trimEnd (joinBlocks none (orderedBlocks headerOrder (first :: rest))) ++ text.drop last.stop := by
  have inside : ¬(last.stop ≤ first.start ∨ text.length < last.stop) := by omega
  simp only [between] at other
  simp only [reorder, List.head?_cons, isLast, if_neg inside, if_neg other, and_self]

theorem reorder_same {first : SourceBlock} {rest : List SourceBlock} {last : SourceBlock}
    (isLast : (first :: rest).getLast? = some last)
    (same : trimEnd (between text first.start last.stop) = trimEnd (joinBlocks none (orderedBlocks headerOrder (first :: rest)))) :
    (reorder headerOrder text (first :: rest)).changed = false := by
  simp only [between] at same
  simp only [reorder, List.head?_cons, isLast, if_pos same]
  split
  · rfl
  · rfl

end

/-- The first candidate begins in front of the end of the last one. -/
theorem start_lt_stop {first : SourceBlock} {rest : List SourceBlock} {last : SourceBlock} (laid : Laid text (first :: rest))
    (isLast : (first :: rest).getLast? = some last) : first.start < last.stop ∧ last.stop ≤ text.length := by
  have member : last ∈ first :: rest := List.mem_of_getLast? isLast
  have lastWithin := laid.within last member
  refine ⟨?_, lastWithin.bound⟩
  rcases List.mem_cons.mp member with rfl | later
  · exact lastWithin.nonempty
  · have behind : first.stop ≤ last.start := List.rel_of_pairwise_cons laid.ordered later
    have nonempty := lastWithin.nonempty
    have firstNonempty := (laid.within first List.mem_cons_self).nonempty
    omega

theorem take_between_drop {start stop : Nat} (order : start ≤ stop) :
    text.take start ++ between text start stop ++ text.drop stop = text := by
  have front : (text.take stop).take start = text.take start := by rw [List.take_take, Nat.min_eq_left order]
  rw [between, ← front, List.take_append_drop, List.take_append_drop]

end

/-! ## Texts that the policy has written -/

/-- The places at which the blocks are written. -/
def placements : Option AccessLevel → Nat → List (SourceBlock × AccessLevel) → List (Text × Nat × Nat)
  | _, _, [] => []
  | last, offset, (block, access) :: blocks =>
    let start := offset + (lead last access).length
    let stop := start + (trimEnd block.text).length
    (block.fullName, start, stop) :: placements (some access) stop blocks

def placeOf (block : SourceBlock) : Text × Nat × Nat := (block.fullName, block.start, block.stop)

theorem length_placements (last : Option AccessLevel) (offset : Nat) (blocks : List (SourceBlock × AccessLevel)) :
    (placements last offset blocks).length = blocks.length := by
  induction blocks generalizing last offset with
  | nil => rfl
  | cons item blocks inductionHypothesis => rw [placements, List.length_cons, List.length_cons, inductionHypothesis]

theorem map_fst_placements (last : Option AccessLevel) (offset : Nat) (blocks : List (SourceBlock × AccessLevel)) :
    (placements last offset blocks).map Prod.fst = blocks.map fun item => item.1.fullName := by
  induction blocks generalizing last offset with
  | nil => rfl
  | cons item blocks inductionHypothesis => rw [placements, List.map_cons, List.map_cons, inductionHypothesis]

theorem stop_placements {last : Option AccessLevel} {offset : Nat} {blocks : List (SourceBlock × AccessLevel)}
    {place : Text × Nat × Nat} (isLast : (placements last offset blocks).getLast? = some place) :
    place.2.2 = offset + (joinBlocks last blocks).length := by
  induction blocks generalizing last offset with
  | nil => simp [placements] at isLast
  | cons item blocks inductionHypothesis =>
    cases blocks with
    | nil =>
      simp only [placements, List.getLast?_singleton, Option.some.injEq] at isLast
      rw [← isLast]
      simp only [joinBlocks, List.length_append, List.length_nil]
      omega
    | cons next blocks =>
      have later : (placements (some item.2) (offset + (lead last item.2).length + (trimEnd item.1.text).length)
          (next :: blocks)).getLast? = some place := by
        rw [placements] at isLast
        rw [placements] at isLast ⊢
        rwa [List.getLast?_cons_cons] at isLast
      have joined : joinBlocks last (item :: next :: blocks) =
          lead last item.2 ++ trimEnd item.1.text ++ joinBlocks (some item.2) (next :: blocks) := rfl
      rw [inductionHypothesis later, joined, List.length_append, List.length_append]
      omega

/-- At their places the blocks stand without their last blanks. -/
theorem map_text_of_placements {text front back : Text} {last : Option AccessLevel}
    {blocks : List (SourceBlock × AccessLevel)} {found : List SourceBlock} (within : ∀ block ∈ found, Within text block)
    (whole : text = front ++ joinBlocks last blocks ++ back)
    (places : found.map placeOf = placements last front.length blocks) :
    found.map SourceBlock.text = blocks.map fun item => trimEnd item.1.text := by
  induction blocks generalizing last front found with
  | nil =>
    rw [placements, List.map_eq_nil_iff] at places
    rw [places, List.map_nil, List.map_nil]
  | cons item blocks inductionHypothesis =>
    obtain ⟨block, access⟩ := item
    cases found with
    | nil => simp [placements] at places
    | cons first found =>
      rw [placements, List.map_cons, List.cons.injEq] at places
      obtain ⟨place, places⟩ := places
      have start : first.start = (front ++ lead last access).length := by
        rw [List.length_append]
        exact congrArg (fun place => place.2.1) place
      have stop : first.stop = (front ++ lead last access ++ trimEnd block.text).length := by
        rw [List.length_append, ← start]
        have same : first.stop = _ := congrArg (fun place => place.2.2) place
        rw [same, start, List.length_append]
      have cut : text = front ++ lead last access ++ trimEnd block.text ++ joinBlocks (some access) blocks ++ back := by
        rw [whole, joinBlocks]
        simp only [List.append_assoc]
      have here : first.text = trimEnd block.text := by
        rw [(within first List.mem_cons_self).cut, stop, start, cut, List.append_assoc _ _ back, List.take_left, List.drop_left]
      have rest := @inductionHypothesis (front ++ lead last access ++ trimEnd block.text) (some access) found
        (fun other member => within other (List.mem_cons_of_mem _ member)) cut (by
          rw [places]
          congr 1
          simp only [List.length_append])
      rw [List.map_cons, List.map_cons, here, rest]

/-- Nothing is trimmed off where the last block can be seen. -/
theorem trimEnd_joinBlocks {last : Option AccessLevel} {blocks : List (SourceBlock × AccessLevel)}
    (shown : ∀ item ∈ blocks, trimEnd item.1.text ≠ []) : trimEnd (joinBlocks last blocks) = joinBlocks last blocks := by
  refine trimEnd_of_visible ?_
  induction blocks generalizing last with
  | nil => simp [joinBlocks]
  | cons item blocks inductionHypothesis =>
    have here := shown item List.mem_cons_self
    have rest : ∀ symbol ∈ (joinBlocks (some item.2) blocks).getLast?, isWhitespace symbol = false :=
      inductionHypothesis fun other member => shown other (List.mem_cons_of_mem _ member)
    intro symbol isLast
    rw [joinBlocks, List.getLast?_append] at isLast
    cases tail : (joinBlocks (some item.2) blocks).getLast? with
    | some other =>
      simp only [tail, Option.some_or, Option.mem_def, Option.some.injEq] at isLast
      exact isLast ▸ rest other tail
    | none =>
      rw [tail, Option.none_or, List.getLast?_append, List.getLast?_eq_some_getLast here] at isLast
      have shownLast := trimEnd_last item.1.text _ (List.getLast?_eq_some_getLast here)
      obtain rfl : (trimEnd item.1.text).getLast here = symbol := by simpa using isLast
      exact shownLast

/-- Blocks that differ in blanks at the end alone are joined to one text. -/
theorem joinBlocks_map {f : SourceBlock → SourceBlock} {last : Option AccessLevel} {blocks : List (SourceBlock × AccessLevel)}
    (same : ∀ item ∈ blocks, trimEnd (f item.1).text = trimEnd item.1.text) :
    joinBlocks last (blocks.map fun item => (f item.1, item.2)) = joinBlocks last blocks := by
  induction blocks generalizing last with
  | nil => rfl
  | cons item blocks inductionHypothesis =>
    rw [List.map_cons, joinBlocks, joinBlocks, same item List.mem_cons_self,
      inductionHypothesis fun other member => same other (List.mem_cons_of_mem _ member)]

theorem trimEnd_trimEnd (text : Text) : trimEnd (trimEnd text) = trimEnd text := trimEnd_of_visible (trimEnd_last text)

/-! ## Run after run -/

section
variable {headerOrder : List HeaderMethodEntry} {text next : Text} {candidates found : List SourceBlock}

/-- The blocks of a text that the policy has written are taken in the order in which they stand. -/
theorem orderedBlocks_again (laid : Laid text candidates) (laidFound : Laid next found)
    (names : found.map SourceBlock.fullName = (orderedBlocks headerOrder candidates).map fun item => item.1.fullName)
    (texts : found.map SourceBlock.text = (orderedBlocks headerOrder candidates).map fun item => trimEnd item.1.text) :
    joinBlocks none (orderedBlocks headerOrder found) = joinBlocks none (orderedBlocks headerOrder candidates) := by
  let items := (orderedBlocks headerOrder candidates).map Prod.fst
  have nodupItems : items.Nodup := (orderedBlocks_perm headerOrder laid).nodup_iff.mpr laid.nodup
  have lengths : items.length = found.length := by
    have same := congrArg List.length names
    simp only [List.length_map] at same ⊢
    rw [same, List.length_map]
  have : Inhabited SourceBlock := ⟨⟨[], 0, 0, 0, 0, []⟩⟩
  obtain ⟨f, exchanged⟩ := Queues.exists_map_eq nodupItems lengths
  have rearranged : items = (Queues.taken HeaderMethodEntry.fullName SourceBlock.fullName headerOrder candidates).map Prod.fst ++
      Queues.left HeaderMethodEntry.fullName SourceBlock.fullName headerOrder candidates :=
    map_fst_orderedBlocks headerOrder laid
  have named : ∀ block ∈ items, (f block).fullName = block.fullName := by
    have same : items.map (SourceBlock.fullName ∘ f) = items.map SourceBlock.fullName := by
      rw [← List.map_map, exchanged, names, List.map_map]
      rfl
    exact List.map_inj_left.mp same
  have trimmed : ∀ item ∈ orderedBlocks headerOrder candidates, trimEnd (f item.1).text = trimEnd item.1.text := by
    rw [← exchanged, List.map_map, List.map_map] at texts
    intro item member
    have same : (f item.1).text = trimEnd item.1.text := List.map_inj_left.mp texts item member
    rw [same, trimEnd_trimEnd]
  have injective : ∀ block ∈ items, ∀ other ∈ items, f block = f other → block = other := fun block member other otherMember same =>
    List.inj_on_of_nodup_map (exchanged ▸ laidFound.nodup) member otherMember same
  have taken : takenBlocks headerOrder found = (takenBlocks headerOrder candidates).map fun item => (f item.1, item.2) := by
    rw [takenBlocks, takenBlocks, ← exchanged, Queues.taken_map _ _ _ named, rearranged,
      Queues.taken_rearranged _ _ _ laid.nodup, List.map_map, List.map_map]
    rfl
  have left : leftovers headerOrder found (takenBlocks headerOrder found) =
      (leftovers headerOrder candidates (takenBlocks headerOrder candidates)).map fun item => (f item.1, item.2) := by
    rw [leftovers_eq headerOrder laidFound, leftovers_eq headerOrder laid, ← exchanged, Queues.left_map _ _ _ named injective,
      rearranged, Queues.left_rearranged _ _ _ laid.nodup, List.map_map, List.map_map]
    refine List.map_congr_left fun block member => ?_
    have isItem : block ∈ items := by
      rw [rearranged]
      exact List.mem_append_right _ member
    simp only [Function.comp_apply, named block isItem]
  have both : orderedBlocks headerOrder found = (orderedBlocks headerOrder candidates).map fun item => (f item.1, item.2) := by
    rw [orderedBlocks, taken, ← taken, left, taken, orderedBlocks, List.map_append]
  rw [both, joinBlocks_map trimmed]

theorem head?_sectionComment (access : AccessLevel) : access.sectionComment.head? = some '/' := by
  cases access with
  | isPublic => rfl
  | isProtected => rfl
  | isPrivate => rfl

/-- The region is rebuilt behind a section comment. -/
theorem head?_joinBlocks {blocks : List (SourceBlock × AccessLevel)} (exist : blocks ≠ []) :
    (joinBlocks none blocks).head? = some '/' := by
  cases blocks with
  | nil => exact absurd rfl exist
  | cons item blocks => rw [joinBlocks, lead, List.append_assoc, List.append_assoc, List.head?_append, head?_sectionComment, Option.some_or]

theorem head?_trimEnd {text : Text} {symbol : Char} (starts : text.head? = some symbol) (shown : isWhitespace symbol = false) :
    (trimEnd text).head? = some symbol := by
  obtain ⟨blank, isBlank, whole⟩ := exists_trimEnd text
  cases trimmed : trimEnd text with
  | nil =>
    rw [trimmed, List.nil_append] at whole
    rw [whole] at starts
    have dark := isBlank symbol (List.mem_of_head? starts)
    rw [shown] at dark
    cases dark
  | cons first rest =>
    rw [trimmed] at whole
    rw [whole] at starts
    simpa using starts

theorem head?_of_trimEnd {text : Text} {symbol : Char} (starts : (trimEnd text).head? = some symbol) :
    text.head? = some symbol := by
  obtain ⟨blank, -, whole⟩ := exists_trimEnd text
  rw [whole, List.head?_append, starts, Option.some_or]

variable (headerOrder) in
/-- As no definition begins with a comment, the rebuilt region is never what it was. -/
theorem reorder_changed {first : SourceBlock} {rest : List SourceBlock} {last : SourceBlock} (laid : Laid text (first :: rest))
    (isLast : (first :: rest).getLast? = some last) (noComment : first.text.head? ≠ some '/') :
    (reorder headerOrder text (first :: rest)).changed = true ∧
      (reorder headerOrder text (first :: rest)).text = text.take first.start ++
        trimEnd (joinBlocks none (orderedBlocks headerOrder (first :: rest))) ++ text.drop last.stop := by
  obtain ⟨order, bound⟩ := start_lt_stop laid isLast
  have exist : orderedBlocks headerOrder (first :: rest) ≠ [] := by
    intro empty
    have perm := orderedBlocks_perm headerOrder laid
    rw [empty, List.map_nil] at perm
    exact absurd perm.symm.eq_nil (by simp)
  refine reorder_cons isLast order bound fun same => noComment ?_
  have starts := head?_trimEnd (head?_joinBlocks exist) (by decide)
  rw [← same] at starts
  have visible : first.text ≠ [] := (laid.within first List.mem_cons_self).text_ne_nil
  have regionStarts := head?_of_trimEnd starts
  rw [between_eq_region laid isLast] at regionStarts
  obtain ⟨symbol, tail, firstText⟩ := List.exists_cons_of_ne_nil visible
  cases rest with
  | nil => rwa [region] at regionStarts
  | cons next rest =>
    rw [region, firstText] at regionStarts
    rw [firstText]
    simpa using regionStarts

end

/-- What the trees find in a text: the header is as before, and the candidates are at the places. -/
def Finds (policy : ClassLayoutPolicy) (view : ClassLayoutView) (text : Text) (headerOrder : List HeaderMethodEntry)
    (places : List (Text × Nat × Nat)) : Prop :=
  ∃ classes functions, extractHeaderOrder classes = headerOrder ∧ Ready policy view text classes functions ∧
    Apart (candidatesOf headerOrder text functions) ∧ (candidatesOf headerOrder text functions).map placeOf = places

/-- The comment of the first section, on a line of its own. -/
def firstComment (blocks : List (SourceBlock × AccessLevel)) : Text :=
  (blocks.head?.map fun item => lead none item.2).getD []

section
variable {policy : ClassLayoutPolicy} {headerOrder : List HeaderMethodEntry} {text : Text} {candidates : List SourceBlock}

/-- A run over a text that the policy has written adds the first comment again. -/
theorem apply_again {view : ClassLayoutView} {front back : Text} (laid : Laid text candidates)
    (noComment : ∀ block ∈ candidates, block.text.head? ≠ some '/')
    (finds : Finds policy view (front ++ joinBlocks none (orderedBlocks headerOrder candidates) ++ back) headerOrder
      (placements none front.length (orderedBlocks headerOrder candidates))) :
    trimEnd (joinBlocks none (orderedBlocks headerOrder candidates)) =
        joinBlocks none (orderedBlocks headerOrder candidates) ∧
      (policy.apply view (front ++ joinBlocks none (orderedBlocks headerOrder candidates) ++ back)).written
          (front ++ joinBlocks none (orderedBlocks headerOrder candidates) ++ back) =
        front ++ firstComment (orderedBlocks headerOrder candidates) ++
          joinBlocks none (orderedBlocks headerOrder candidates) ++ back := by
  obtain ⟨classes, functions, rfl, ready, apart, places⟩ := finds
  have applied := apply_of_ready ready
  have laidFound := laid_candidatesOf apart
  have two := ready.two
  obtain ⟨ordered, isOrdered⟩ : ∃ ordered, orderedBlocks (extractHeaderOrder classes) candidates = ordered := ⟨_, rfl⟩
  obtain ⟨found, isFound⟩ : ∃ found, candidatesOf (extractHeaderOrder classes) (front ++ joinBlocks none
    (orderedBlocks (extractHeaderOrder classes) candidates) ++ back) functions = found := ⟨_, rfl⟩
  rw [isFound] at applied laidFound two places
  have texts := map_text_of_placements laidFound.within rfl places
  have names := congrArg (List.map Prod.fst) places
  rw [map_fst_placements, List.map_map] at names
  have joinedAgain := orderedBlocks_again laid laidFound names texts
  have kept : ∀ item ∈ ordered, item.1 ∈ candidates := fun item member =>
    (orderedBlocks_perm (extractHeaderOrder classes) laid).mem_iff.mp (List.mem_map_of_mem (isOrdered ▸ member))
  rw [isOrdered] at texts places joinedAgain applied laidFound ⊢
  have shown : ∀ item ∈ ordered, trimEnd item.1.text ≠ [] := by
    intro item member
    have written : trimEnd item.1.text ∈ ordered.map fun item => trimEnd item.1.text := List.mem_map.mpr ⟨item, member, rfl⟩
    rw [← texts] at written
    obtain ⟨block, isBlock, same⟩ := List.mem_map.mp written
    rw [← same]
    exact (laidFound.within block isBlock).text_ne_nil
  have trimmed : trimEnd (joinBlocks none ordered) = joinBlocks none ordered := trimEnd_joinBlocks shown
  refine ⟨trimmed, ?_⟩
  cases found with
  | nil => simp at two
  | cons first rest =>
    obtain ⟨last, isLast⟩ : ∃ last, (first :: rest).getLast? = some last := ⟨_, List.getLast?_eq_some_getLast (by simp)⟩
    have firstPlain : first.text.head? ≠ some '/' := by
      intro comment
      have written : first.text ∈ (first :: rest).map SourceBlock.text := List.mem_map.mpr ⟨first, List.mem_cons_self, rfl⟩
      rw [texts] at written
      obtain ⟨item, member, same⟩ := List.mem_map.mp written
      rw [← same] at comment
      exact noComment item.1 (kept item member) (head?_of_trimEnd comment)
    obtain ⟨changed, rebuilt⟩ := reorder_changed (extractHeaderOrder classes) laidFound isLast firstPlain
    have start : first.start = (front ++ firstComment ordered).length := by
      cases ordered with
      | nil => simp [placements] at places
      | cons item blocks =>
        rw [placements, List.map_cons, List.cons.injEq] at places
        rw [List.length_append]
        exact congrArg (fun place => place.2.1) places.1
    have stop : last.stop = (front ++ joinBlocks none ordered).length := by
      have place : (placements none front.length ordered).getLast? = some (placeOf last) := by
        rw [← places, List.getLast?_map, isLast, Option.map_some]
      rw [List.length_append]
      exact stop_placements place
    have opening : ∃ behind, joinBlocks none ordered = firstComment ordered ++ behind := by
      cases ordered with
      | nil => exact ⟨[], rfl⟩
      | cons item blocks => exact ⟨_, List.append_assoc _ _ _⟩
    obtain ⟨behind, opening⟩ := opening
    have taken : (front ++ joinBlocks none ordered ++ back).take first.start = front ++ firstComment ordered := by
      rw [start, opening, ← List.append_assoc front, List.append_assoc _ behind, List.take_left]
    have dropped : (front ++ joinBlocks none ordered ++ back).drop last.stop = back := by
      rw [stop, List.drop_left]
    rw [PolicyResult.written, applied, changed, if_pos rfl, rebuilt, joinedAgain, trimmed, taken, dropped]

/-- The policy, run on a text. -/
def run (policy : ClassLayoutPolicy) (views : Text → ClassLayoutView) (text : Text) : Text :=
  (policy.apply (views text) text).written text

/-- What is in front of the region. -/
def frontOf (text : Text) (candidates : List SourceBlock) : Text :=
  text.take ((candidates.head?.map SourceBlock.start).getD 0)

/-- What is behind the region. -/
def backOf (text : Text) (candidates : List SourceBlock) : Text :=
  text.drop ((candidates.getLast?.map SourceBlock.stop).getD 0)

/-- The rebuilt text, with more lines that are the comment of its first section. -/
def piled (headerOrder : List HeaderMethodEntry) (text : Text) (candidates : List SourceBlock) (count : Nat) : Text :=
  frontOf text candidates ++ (List.replicate count (firstComment (orderedBlocks headerOrder candidates))).flatten ++
    joinBlocks none (orderedBlocks headerOrder candidates) ++ backOf text candidates

/-- Where the definitions are put. -/
def piledPlaces (headerOrder : List HeaderMethodEntry) (text : Text) (candidates : List SourceBlock) (count : Nat) :
    List (Text × Nat × Nat) :=
  placements none
    (frontOf text candidates ++ (List.replicate count (firstComment (orderedBlocks headerOrder candidates))).flatten).length
    (orderedBlocks headerOrder candidates)

end

def sampleText : Text := "int A::g(){}\nint A::f(){}\n".toList

/-- `struct A` with `f` in front of `g`. -/
def sampleClasses : List ClassNode :=
  [{ isStruct := true
     className := some ['A']
     body := some [.declarators [some ['f']], .declarators [some ['g']]] }]

def sampleDefinition (name : Char) (start : Nat) : FunctionDefinition :=
  { fullName := some ("A::".toList ++ [name]), start := start, stop := start + 12, startLine := 1, endLine := 1 }

def sampleBlock (text : Text) (name : Char) (start : Nat) : SourceBlock :=
  { fullName := "A::".toList ++ [name]
    start := start
    stop := start + 12
    startLine := 1
    endLine := 1
    text := (text.take (start + 12)).drop start }

/-- The definitions that the tree of a text finds: `f` is behind `g` in the text of the sample and in front of it in the others,
which end with what the policy has written. -/
def sampleFunctions (text : Text) : List FunctionDefinition :=
  if text = sampleText then [sampleDefinition 'g' 0, sampleDefinition 'f' 13]
  else [sampleDefinition 'f' (text.length - 27), sampleDefinition 'g' (text.length - 13)]

def sampleView (text : Text) : ClassLayoutView where
  pathExtension := ".cpp"
  isAvailable := true
  functions := some (sampleFunctions text)
  header := .parsed sampleClasses
  isMacroLine := fun _ => false

def samplePolicy : ClassLayoutPolicy := ⟨[".cpp"]⟩

theorem sample_candidates {text : Text} {left right : Char} {first second : Nat} (isLeft : left = 'f' ∨ left = 'g')
    (isRight : right = 'f' ∨ right = 'g') (order : first + 12 ≤ second) (bound : second + 12 ≤ text.length) :
    candidatesOf (extractHeaderOrder sampleClasses) text [sampleDefinition left first, sampleDefinition right second] =
      [sampleBlock text left first, sampleBlock text right second] := by
  have made (name : Char) (isName : name = 'f' ∨ name = 'g') (start : Nat) (inside : start + 12 ≤ text.length) :
      sourceBlock text (sampleDefinition name start) = some (sampleBlock text name start) := by
    have hasScope : [':', ':'] <:+: ['A', ':', ':', name] := ⟨['A'], [name], rfl⟩
    simp [sourceBlock, sampleDefinition, sampleBlock, Option.filter, hasScope, inside]
  have known (name : Char) (isName : name = 'f' ∨ name = 'g') (start : Nat) :
      ((extractHeaderOrder sampleClasses).map HeaderMethodEntry.fullName).contains (sampleBlock text name start).fullName = true := by
    have isEntry : (extractHeaderOrder sampleClasses).map HeaderMethodEntry.fullName =
        ["A::".toList ++ ['f'], "A::".toList ++ ['g']] := by decide
    rw [isEntry]
    rcases isName with rfl | rfl
    · rfl
    · rfl
  have sorted : (compare (sampleBlock text left first).start (sampleBlock text right second).start).isLE = true :=
    Nat.isLE_compare.mpr (by simp only [sampleBlock]; omega)
  simp only [candidatesOf, extractSourceBlocks, List.filterMap_cons, made left isLeft first (by omega),
    made right isRight second bound, List.filterMap_nil, KeyedSorting.sortByKey, List.insertionSort_cons,
    List.insertionSort_nil, List.orderedInsert, sorted, if_true, List.filter_cons, known left isLeft, known right isRight,
    List.filter_nil]

theorem sampleFunctions_sampleText : sampleFunctions sampleText = [sampleDefinition 'g' 0, sampleDefinition 'f' 13] :=
  if_pos rfl

theorem candidatesOf_sampleText :
    candidatesOf (extractHeaderOrder sampleClasses) sampleText (sampleFunctions sampleText) =
      [sampleBlock sampleText 'g' 0, sampleBlock sampleText 'f' 13] := by
  rw [sampleFunctions_sampleText]
  exact sample_candidates (.inr rfl) (.inl rfl) (by decide) (by decide)

theorem sample_ready {text : Text} {blocks : List SourceBlock} (two : blocks.length = 2)
    (found : candidatesOf (extractHeaderOrder sampleClasses) text (sampleFunctions text) = blocks) :
    Ready samplePolicy (sampleView text) text sampleClasses (sampleFunctions text) where
  sourceFile := rfl
  available := rfl
  tree := rfl
  header := rfl
  two := by rw [found, two]
  plain := by simp [sampleView]

def sampleCandidates : List SourceBlock := [sampleBlock sampleText 'g' 0, sampleBlock sampleText 'f' 13]

theorem orderedBlocks_sample : orderedBlocks (extractHeaderOrder sampleClasses) sampleCandidates =
    [(sampleBlock sampleText 'f' 13, .isPublic), (sampleBlock sampleText 'g' 0, .isPublic)] := by
  decide

/-- The text after so many runs more. -/
def sampleWritten (count : Nat) : Text := piled (extractHeaderOrder sampleClasses) sampleText sampleCandidates count

theorem length_sampleLines (count : Nat) :
    ((List.replicate count (firstComment (orderedBlocks (extractHeaderOrder sampleClasses) sampleCandidates))).flatten).length =
      count * 31 := by
  have line : (firstComment [(sampleBlock sampleText 'f' 13, .isPublic), (sampleBlock sampleText 'g' 0, .isPublic)]).length = 31 := by
    decide
  rw [orderedBlocks_sample, List.length_flatten, List.map_replicate, line]
  simp

theorem length_sampleWritten (count : Nat) : (sampleWritten count).length = count * 31 + 58 := by
  rw [sampleWritten, piled, List.length_append, List.length_append, List.length_append, length_sampleLines, orderedBlocks_sample]
  have front : (frontOf sampleText sampleCandidates).length = 0 := by decide
  have back : (backOf sampleText sampleCandidates).length = 1 := by decide
  have joined : (joinBlocks none [(sampleBlock sampleText 'f' 13, .isPublic), (sampleBlock sampleText 'g' 0, .isPublic)]).length = 57 := by
    decide
  omega

theorem sample_finds (count : Nat) : Finds samplePolicy (sampleView (sampleWritten count)) (sampleWritten count)
    (extractHeaderOrder sampleClasses) (piledPlaces (extractHeaderOrder sampleClasses) sampleText sampleCandidates count) := by
  have length := length_sampleWritten count
  have other : sampleWritten count ≠ sampleText := by
    intro same
    rw [same] at length
    have short : sampleText.length = 26 := by decide
    omega
  have found : candidatesOf (extractHeaderOrder sampleClasses) (sampleWritten count) (sampleFunctions (sampleWritten count)) =
      [sampleBlock (sampleWritten count) 'f' (count * 31 + 31), sampleBlock (sampleWritten count) 'g' (count * 31 + 45)] := by
    have functions : sampleFunctions (sampleWritten count) =
        [sampleDefinition 'f' (count * 31 + 31), sampleDefinition 'g' (count * 31 + 45)] := by
      rw [sampleFunctions, if_neg other, length, (by omega : count * 31 + 58 - 27 = count * 31 + 31),
        (by omega : count * 31 + 58 - 13 = count * 31 + 45)]
    rw [functions]
    exact sample_candidates (.inl rfl) (.inr rfl) (by omega) (by omega)
  refine ⟨sampleClasses, sampleFunctions (sampleWritten count), rfl, sample_ready rfl found, ?_, ?_⟩
  · rw [found]
    refine List.pairwise_pair.mpr (.inl ?_)
    simp only [sampleBlock]
    omega
  · have front : (frontOf sampleText sampleCandidates).length = 0 := by decide
    rw [found, piledPlaces, List.length_append, length_sampleLines, orderedBlocks_sample, front]
    have first : (lead none .isPublic).length = 31 := by decide
    have second : (lead (some .isPublic) .isPublic).length = 2 := by decide
    have bodies : (trimEnd (sampleBlock sampleText 'f' 13).text).length = 12 := by decide
    have bodies' : (trimEnd (sampleBlock sampleText 'g' 0).text).length = 12 := by decide
    simp only [placements, first, second, bodies, bodies', List.map_cons, List.map_nil, placeOf]
    simp only [sampleBlock, Nat.zero_add, Nat.add_assoc, Nat.reduceAdd]

end MjFormatter.Verified.MemberOrder
