import MjFormatter.App.GraphRefresh
import MjFormatter.Verified.PropagationOrder

/-! # Parses and files behind a batch

The parses that the graph gets should be those of the files as the batch leaves them.  A target of the refresh
carries the text and the clang parse from before the propagation and the writes, and is not looked at again. -/

namespace MjFormatter.Verified

open Library App

variable {Clang : Type}

/-! ## The files behind the writes -/

section
variable {readText : String → Except String Text} {final : FileResult × Option Text}

theorem leaveWritten_of_ne {path : String} (apart : path ≠ final.1.path) :
    leaveWritten readText final path = readText path := by
  cases written : final.2 with
  | none => simp only [leaveWritten, written]
  | some text => simp only [leaveWritten, written, Function.update_of_ne apart]

theorem leaveWritten_self : leaveWritten readText final final.1.path = final.2.elim (readText final.1.path) .ok := by
  cases written : final.2 with
  | none => simp only [leaveWritten, written, Option.elim_none]
  | some text => simp only [leaveWritten, written, Function.update_self, Option.elim_some]

theorem readWritten_of_notMem {finals : List (FileResult × Option Text)} {path : String}
    (absent : path ∉ finals.map fun final => final.1.path) : readWritten readText finals path = readText path := by
  induction finals generalizing readText with
  | nil => rfl
  | cons first finals inductionHypothesis =>
    simp only [List.map_cons, List.mem_cons, not_or] at absent
    have rest : readWritten readText (first :: finals) path = leaveWritten readText first path :=
      inductionHypothesis absent.2
    rw [rest, leaveWritten_of_ne absent.1]

/-- A file that is written holds the text, any other one what it held before. -/
theorem readWritten_of_mem {finals : List (FileResult × Option Text)}
    (distinct : (finals.map fun final => final.1.path).Nodup) (member : final ∈ finals) :
    readWritten readText finals final.1.path = final.2.elim (readText final.1.path) .ok := by
  induction finals generalizing readText with
  | nil => cases member
  | cons first finals inductionHypothesis =>
    rw [List.map_cons, List.nodup_cons] at distinct
    cases List.mem_cons.mp member with
    | inl here =>
      subst here
      have rest : readWritten readText (final :: finals) final.1.path = leaveWritten readText final final.1.path :=
        readWritten_of_notMem distinct.1
      rw [rest, leaveWritten_self]
    | inr there =>
      have apart : final.1.path ≠ first.1.path := by
        intro same
        exact distinct.1 (same ▸ List.mem_map_of_mem there)
      have rest : readWritten readText (first :: finals) final.1.path =
          final.2.elim (leaveWritten readText first final.1.path) .ok := inductionHypothesis distinct.2 there
      rw [rest, leaveWritten_of_ne apart]

end

theorem rejectResult_path (conflict : String) (result : FileResult) :
    (rejectResult conflict result).path = result.path := by
  unfold rejectResult
  split
  · rfl
  · rfl

theorem writeResult_path (fileIo : FileIo) (result : FileResult) : (writeResult fileIo result).1.path = result.path := by
  simp only [writeResult]
  split
  · rfl
  split
  · rfl
  split
  · rfl
  split
  · rfl
  · rfl

section
variable (context : RunContext Clang) (results : List (BatchResult Clang))

/-- What a file is before it is written. -/
theorem finishFiles_getElem? {index : Nat} {entry : BatchResult Clang} (listed : results[index]? = some entry)
    (writes : context.check = false) :
    ∃ propagated : FileResult, propagated.path = entry.result.path ∧
      (entry.result.error.isSome = true → propagated.error.isSome = true) ∧
      (finishFiles context results)[index]? = some (writeResult context.fileIo propagated) := by
  have finals : finishFiles context results = finishBatch context.exp context.hashOrder context.populationEditSuccess
      (results.map fun entry => entry.result) context.parser.project context.fileIo := by
    simp only [finishFiles, writes, Bool.false_eq_true, if_false]
    rfl
  cases plans : collectPlans (results.map fun entry => entry.result) with
  | error conflict =>
    refine ⟨rejectResult conflict entry.result, rejectResult_path _ _, ?_, ?_⟩
    · intro failed
      unfold rejectResult
      split
      · rfl
      · exact failed
    · rw [finals, finishBatch_conflict _ _ _ _ _ _ plans]
      simp [listed]
  | ok renameByDecl =>
    refine ⟨propagateRetained (retainedRenames context.exp context.hashOrder context.populationEditSuccess
        (results.map fun entry => entry.result) renameByDecl) context.parser.project context.fileIo index entry.result,
      propagateRetained_path _ _ _ _ _, ?_, ?_⟩
    · intro failed
      have passed : shouldProcessSemanticPropagationResult entry.result = false := by
        simp [shouldProcessSemanticPropagationResult, Option.isNone_eq_false_iff.mpr failed]
      simp only [propagateRetained, propagateResult, passed, Bool.false_eq_true, if_false, ite_self]
      exact failed
    · rw [finals, finishBatch_agreed _ _ _ _ _ _ plans]
      simp [listed]

theorem length_finishFiles (writes : context.check = false) :
    (finishFiles context results).length = results.length := by
  simp only [finishFiles, writes, Bool.false_eq_true, if_false, applyWritePhase, List.length_map,
    applyProjectWideSemanticRenames]
  split
  · simp only [List.length_map]
  · split
    · simp only [List.length_map]
    · simp only [List.length_mapIdx, List.length_map]

theorem finishFiles_paths (writes : context.check = false) :
    (finishFiles context results).map (fun final => final.1.path) = results.map fun entry => entry.result.path := by
  apply List.ext_getElem?
  intro index
  rw [List.getElem?_map, List.getElem?_map]
  cases listed : results[index]? with
  | none =>
    have behind : (finishFiles context results)[index]? = none := by
      rw [List.getElem?_eq_none_iff, length_finishFiles context results writes]
      exact List.getElem?_eq_none_iff.mp listed
    rw [behind]
    rfl
  | some entry =>
    obtain ⟨propagated, path, _, final⟩ := finishFiles_getElem? context results listed writes
    rw [final, Option.map_some, Option.map_some, writeResult_path, path]

end

/-- The text that the phases leave of a file: the text that was written, or the one from before. -/
def leftText (context : RunContext Clang) (results : List (BatchResult Clang)) (index : Nat) (path : String) :
    Except String Text :=
  ((finishFiles context results)[index]?.bind fun final => final.2).elim (context.fileIo.readText path) .ok

theorem readWritten_finishFiles {context : RunContext Clang} {results : List (BatchResult Clang)}
    (distinct : (results.map fun entry => entry.result.path).Nodup) (writes : context.check = false) {index : Nat}
    {entry : BatchResult Clang} (listed : results[index]? = some entry) :
    readWritten context.fileIo.readText (finishFiles context results) entry.result.path =
      leftText context results index entry.result.path := by
  obtain ⟨propagated, path, _, final⟩ := finishFiles_getElem? context results listed writes
  have member : writeResult context.fileIo propagated ∈ finishFiles context results := List.mem_of_getElem? final
  rw [← finishFiles_paths context results writes] at distinct
  have held : readWritten context.fileIo.readText (finishFiles context results) _ = _ := readWritten_of_mem distinct member
  rw [writeResult_path, path] at held
  rw [held, leftText, final]
  rfl

/-! ## The targets -/

section
variable {context : RunContext Clang} {results : List (BatchResult Clang)}

theorem mem_changedTargets {target : GraphRefreshTarget Clang} :
    target ∈ changedTargets results ↔
      ∃ index entry, results[index]? = some entry ∧ changedTarget index entry = some target := by
  simp only [changedTargets, List.mem_filterMap, Prod.exists, List.mem_zipIdx_iff_getElem?]
  constructor
  · intro found
    obtain ⟨entry, index, listed, made⟩ := found
    exact ⟨index, entry, listed, made⟩
  · intro found
    obtain ⟨index, entry, listed, made⟩ := found
    exact ⟨entry, index, listed, made⟩

theorem changedTarget_eq_some {index : Nat} {entry : BatchResult Clang} {target : GraphRefreshTarget Clang}
    (made : changedTarget index entry = some target) :
    entry.result.error = none ∧ entry.result.outcome.changed = true ∧ target.resultIndex = some index ∧
      target.path = entry.result.path ∧ target.cachedText = entry.result.outcome.pendingText ∧
      target.cachedClang = if hasNamingEdits entry.result.outcome.edits then none else entry.clangParse := by
  unfold changedTarget at made
  split at made
  · next passes =>
    simp only [Bool.and_eq_true, Option.isNone_iff_eq_none] at passes
    rw [Option.some.injEq] at made
    subst made
    exact ⟨passes.1, passes.2, rfl, rfl, rfl, rfl⟩
  · cases made

/-- A neighbor that is added brings nothing that is known already. -/
structure IsNeighbor (target : GraphRefreshTarget Clang) : Prop where
  index : target.resultIndex = none
  text : target.cachedText = none
  clang : target.cachedClang = none

/-- What the loop over the neighbors keeps true. -/
structure Expanding (context : RunContext Clang) (start : List (GraphRefreshTarget Clang)) (passed : List String)
    (reached : List (GraphRefreshTarget Clang) × List String) : Prop where
  keeps : ∀ target ∈ start, target ∈ reached.1
  adds : ∀ target ∈ reached.1, target ∈ start ∨ IsNeighbor target ∧ target.path ∈ passed ∧
    context.pathExists target.path = true
  identities : ∀ identity, identity ∈ reached.2 ↔ ∃ target ∈ reached.1, context.pathIdentity target.path = identity
  covers : ∀ neighbor ∈ passed, context.pathExists neighbor = true → context.pathIdentity neighbor ∈ reached.2

theorem addNeighbor_expanding {start : List (GraphRefreshTarget Clang)} {passed : List String}
    {reached : List (GraphRefreshTarget Clang) × List String} (expanding : Expanding context start passed reached)
    (neighbor : String) : Expanding context start (passed ++ [neighbor]) (addNeighbor context reached neighbor) := by
  have adds : ∀ target ∈ reached.1, target ∈ start ∨ IsNeighbor target ∧ target.path ∈ passed ++ [neighbor] ∧
      context.pathExists target.path = true := by
    intro target member
    cases expanding.adds target member with
    | inl begun => exact .inl begun
    | inr added => exact .inr ⟨added.1, List.mem_append_left _ added.2.1, added.2.2⟩
  unfold addNeighbor
  split
  · next skips =>
    refine ⟨expanding.keeps, adds, expanding.identities, fun other member there => ?_⟩
    cases List.mem_append.mp member with
    | inl before => exact expanding.covers other before there
    | inr here =>
      rw [List.mem_singleton] at here
      subst here
      simpa [there] using skips
  · next isNew =>
    simp only [Bool.or_eq_true, Bool.not_eq_true', not_or, Bool.not_eq_false, Bool.not_eq_true] at isNew
    refine ⟨fun target member => List.mem_append_left _ (expanding.keeps target member), fun target member => ?_,
      fun identity => ?_, fun other member there => ?_⟩
    · cases List.mem_append.mp member with
      | inl before => exact adds target before
      | inr here =>
        rw [List.mem_singleton] at here
        subst here
        exact .inr ⟨⟨rfl, rfl, rfl⟩, List.mem_append_right _ (List.mem_singleton_self _), isNew.1⟩
    · simp only [List.mem_cons, expanding.identities, List.mem_append, List.not_mem_nil, or_false]
      constructor
      · intro known
        cases known with
        | inl here => exact ⟨_, .inr rfl, here.symm⟩
        | inr before =>
          obtain ⟨target, member, same⟩ := before
          exact ⟨target, .inl member, same⟩
      · intro known
        obtain ⟨target, member, same⟩ := known
        cases member with
        | inl before => exact .inr ⟨target, before, same⟩
        | inr here =>
          subst here
          exact .inl same.symm
    · cases List.mem_append.mp member with
      | inl before => exact List.mem_cons_of_mem _ (expanding.covers other before there)
      | inr here =>
        rw [List.mem_singleton] at here
        subst here
        exact List.mem_cons_self

theorem addNeighbors_expanding {start : List (GraphRefreshTarget Clang)} (further : List String) {passed : List String}
    {reached : List (GraphRefreshTarget Clang) × List String} (expanding : Expanding context start passed reached) :
    Expanding context start (passed ++ further) (further.foldl (addNeighbor context) reached) := by
  induction further generalizing passed reached with
  | nil =>
    rw [List.append_nil]
    exact expanding
  | cons neighbor further inductionHypothesis =>
    have rest := inductionHypothesis (addNeighbor_expanding expanding neighbor)
    rw [List.append_assoc, List.singleton_append] at rest
    exact rest

variable {snapshot : GraphSnapshot}

variable (context results snapshot) in
theorem consideredTargets_expanding : ∃ identities,
    Expanding context (changedTargets results) (neighbors context snapshot (changedTargets results))
      (consideredTargets context snapshot results, identities) := by
  have begun : Expanding context (changedTargets results) []
      (changedTargets results, (changedTargets results).map fun target => context.pathIdentity target.path) := by
    refine ⟨fun _ member => member, fun _ member => .inl member, fun identity => ?_, fun _ member => ?_⟩
    · simp only [List.mem_map]
    · cases member
  have expanding := addNeighbors_expanding (neighbors context snapshot (changedTargets results)) begun
  rw [List.nil_append] at expanding
  exact ⟨_, expanding⟩

/-- A neighbor that exists is covered by a target with its identity. -/
theorem considered_of_neighbor {neighbor : String}
    (member : neighbor ∈ neighbors context snapshot (changedTargets results))
    (there : context.pathExists neighbor = true) :
    ∃ target ∈ consideredTargets context snapshot results,
      context.pathIdentity target.path = context.pathIdentity neighbor := by
  obtain ⟨identities, expanding⟩ := consideredTargets_expanding context results snapshot
  exact (expanding.identities _).mp (expanding.covers neighbor member there)

theorem mem_capTargets {targets : List (GraphRefreshTarget Clang)} {target : GraphRefreshTarget Clang}
    (kept : target ∈ capTargets context results targets) : target ∈ targets := by
  simp only [capTargets] at kept
  split at kept
  · exact (List.mem_insertionSort _).mp (List.mem_of_mem_take kept)
  · exact kept

end

/-! ## The parses -/

/-- The text has the parse. -/
def ParsesTo (parser : BatchParser Clang) (path : String) (text : Except String Text) (clang : Clang) : Prop :=
  ∃ held, text = .ok held ∧ parser.parseClang held path = .ok clang

theorem mem_fileParses {parser : BatchParser Clang} {readText : String → Except String Text}
    {targets : List (GraphRefreshTarget Clang)} {path : String} {clang : Clang} :
    (path, clang) ∈ fileParses (graphParses parser readText targets) ↔
      ∃ target ∈ targets, target.path = path ∧ (parseProjectGraphTarget parser readText target).parse = some clang := by
  have split : ∀ target, target ∈ (targets.filter fun target => target.cachedClang.isSome) ++
      (targets.filter fun target => target.cachedClang.isNone) ↔ target ∈ targets := by
    intro target
    cases cached : target.cachedClang <;> simp [cached]
  have pathKept : ∀ target, (parseProjectGraphTarget parser readText target).path = target.path := by
    intro target
    simp only [parseProjectGraphTarget]
    repeat' split
    all_goals rfl
  simp only [fileParses, graphParses, List.mem_filterMap, List.mem_map, Option.map_eq_some_iff, Prod.mk.injEq]
  constructor
  · intro found
    obtain ⟨outcome, ⟨target, member, rfl⟩, parse, parsed, path, rfl⟩ := found
    exact ⟨target, (split target).mp member, (pathKept target).symm.trans path, parsed⟩
  · intro found
    obtain ⟨target, member, path, parsed⟩ := found
    exact ⟨_, ⟨target, (split target).mpr member, rfl⟩, clang, parsed, (pathKept target).trans path, rfl⟩

/-- Which parse a target brings: the one it carries, that of the text it carries, or that of the file. -/
theorem parseProjectGraphTarget_parse {parser : BatchParser Clang} {readText : String → Except String Text}
    {target : GraphRefreshTarget Clang} {clang : Clang} :
    (parseProjectGraphTarget parser readText target).parse = some clang ↔
      target.cachedClang = some clang ∨ target.cachedClang = none ∧
        ParsesTo parser target.path (target.cachedText.elim (readText target.path) .ok) clang := by
  simp only [parseProjectGraphTarget, ParsesTo]
  cases cached : target.cachedClang with
  | some held => simp
  | none =>
    simp only [reduceCtorEq, false_or, true_and]
    cases source : target.cachedText.elim (readText target.path) .ok with
    | error err => simp
    | ok text =>
      cases parsed : parser.parseClang text target.path with
      | error err => simp [parsed]
      | ok held => simp [parsed]

/-! ## What the graph gets -/

/-- The file is changed, and its target is under the cap. -/
def Refreshed (context : RunContext Clang) (results : List (BatchResult Clang)) (index : Nat) : Prop :=
  ∃ snapshot, context.projectGraph = some snapshot ∧ context.check = false ∧
    ∃ target ∈ (extractGraphRefreshInput context snapshot results).1, target.resultIndex = some index

/-- Every parse that is applied is that of the file behind the writes. -/
def AppliesFiles (context : RunContext Clang) (results : List (BatchResult Clang)) : Prop :=
  ∀ path clang, (path, clang) ∈ (runWriteAndGraphPhase context results).applied →
    ParsesTo context.parser path
      (readWritten context.fileIo.readText (runWriteAndGraphPhase context results).finals path) clang

/-- A file that is written with another text than the one from before the propagation is a target of the refresh, in
front of the cap. -/
def ReparsesPropagated (context : RunContext Clang) (results : List (BatchResult Clang)) : Prop :=
  ∀ snapshot, context.projectGraph = some snapshot → context.check = false →
    ∀ (index : Nat) (entry : BatchResult Clang) (final : FileResult) (text : Text),
    results[index]? = some entry → (finishFiles context results)[index]? = some (final, some text) →
    entry.result.outcome.pendingText ≠ some text →
    ∃ target ∈ consideredTargets context snapshot results,
      context.pathIdentity target.path = context.pathIdentity entry.result.path

/-- What the target of a file carries has the parse of the text that is left. -/
structure UpToDate (context : RunContext Clang) (left : Except String Text) (entry : BatchResult Clang) : Prop where
  clang : hasNamingEdits entry.result.outcome.edits = false → ∀ clang, entry.clangParse = some clang →
    ParsesTo context.parser entry.result.path left clang
  text : hasNamingEdits entry.result.outcome.edits = true ∨ entry.clangParse = none →
    ∀ pending, entry.result.outcome.pendingText = some pending →
    ∀ clang, context.parser.parseClang pending entry.result.path = .ok clang →
    ParsesTo context.parser entry.result.path left clang

def SourcesUpToDate (context : RunContext Clang) (results : List (BatchResult Clang)) : Prop :=
  ∀ (index : Nat) (entry : BatchResult Clang), results[index]? = some entry → Refreshed context results index →
    UpToDate context (leftText context results index entry.result.path) entry

/-- A file that only the propagation changes is a neighbor of one that was changed before. -/
def PropagatedKnown (context : RunContext Clang) (results : List (BatchResult Clang)) : Prop :=
  ∀ snapshot, context.projectGraph = some snapshot → context.check = false →
    ∀ (index : Nat) (entry : BatchResult Clang) (final : FileResult) (text : Text),
    results[index]? = some entry → (finishFiles context results)[index]? = some (final, some text) →
    entry.result.outcome.pendingText ≠ some text →
    entry.result.outcome.changed = true ∨
      ∃ neighbor ∈ neighbors context snapshot (changedTargets results), context.pathExists neighbor = true ∧
        context.pathIdentity neighbor = context.pathIdentity entry.result.path

section
variable {context : RunContext Clang} {results : List (BatchResult Clang)}

theorem runWriteAndGraphPhase_finals :
    (runWriteAndGraphPhase context results).finals = finishFiles context results := by
  simp only [runWriteAndGraphPhase]
  split
  · rfl
  · split
    · rfl
    · rfl

theorem mem_applied {path : String} {clang : Clang} :
    (path, clang) ∈ (runWriteAndGraphPhase context results).applied ↔
      ∃ snapshot, context.projectGraph = some snapshot ∧ context.check = false ∧
        ∃ target ∈ (extractGraphRefreshInput context snapshot results).1, target.path = path ∧
          (parseProjectGraphTarget context.parser
            (readWritten context.fileIo.readText (finishFiles context results)) target).parse = some clang := by
  cases graph : context.projectGraph with
  | none => simp [runWriteAndGraphPhase, graph]
  | some snapshot =>
    simp only [Option.some.injEq, exists_eq_left']
    by_cases check : context.check = true
    · have noTargets : (extractGraphRefreshInput context snapshot results).1 = [] := by
        simp only [extractGraphRefreshInput, check, if_true]
      have noParses : (runWriteAndGraphPhase context results).applied = [] := by
        simp only [runWriteAndGraphPhase, graph]
        split
        · rfl
        · simp only [noTargets, graphParses, List.filter_nil, List.append_nil, List.map_nil]
          rfl
      simp [noParses, check]
    · rw [Bool.not_eq_true] at check
      have applied : (runWriteAndGraphPhase context results).applied = fileParses (graphParses context.parser
          (readWritten context.fileIo.readText (finishFiles context results))
          (extractGraphRefreshInput context snapshot results).1) := by
        simp only [runWriteAndGraphPhase, graph, check, Bool.false_and, Bool.false_eq_true, if_false]
      rw [applied, mem_fileParses]
      simp only [check, true_and]

/-- A target under the cap is that of a changed file, or of a neighbor that is read behind the writes. -/
theorem target_cases {snapshot : GraphSnapshot} {target : GraphRefreshTarget Clang}
    (member : target ∈ (extractGraphRefreshInput context snapshot results).1) :
    (∃ index entry, results[index]? = some entry ∧ changedTarget index entry = some target) ∨ IsNeighbor target := by
  simp only [extractGraphRefreshInput] at member
  split at member
  · cases member
  · obtain ⟨identities, expanding⟩ := consideredTargets_expanding context results snapshot
    cases expanding.adds target (mem_capTargets member) with
    | inl changed => exact .inl (mem_changedTargets.mp changed)
    | inr added => exact .inr added.1

theorem appliesFiles_iff (distinct : (results.map fun entry => entry.result.path).Nodup) :
    AppliesFiles context results ↔ SourcesUpToDate context results := by
  constructor
  · intro applies index entry listed refreshed
    obtain ⟨snapshot, graph, writes, target, member, isIndex⟩ := refreshed
    rcases target_cases member with ⟨place, other, found, made⟩ | neighbor
    · obtain ⟨_, _, index', path, text, cached⟩ := changedTarget_eq_some made
      obtain rfl : place = index := Option.some.inj (index'.symm.trans isIndex)
      obtain rfl : other = entry := Option.some.inj (found.symm.trans listed)
      have onDisk := readWritten_finishFiles distinct writes listed
      have applied : ∀ clang, target.cachedClang = some clang ∨ target.cachedClang = none ∧
          ParsesTo context.parser target.path (target.cachedText.elim
            (readWritten context.fileIo.readText (finishFiles context results) target.path) .ok) clang →
          ParsesTo context.parser other.result.path (leftText context results place other.result.path) clang := by
        intro clang parsed
        have parses := applies target.path clang
          (mem_applied.mpr ⟨snapshot, graph, writes, target, member, rfl, parseProjectGraphTarget_parse.mpr parsed⟩)
        rw [runWriteAndGraphPhase_finals, path, onDisk] at parses
        exact parses
      refine ⟨fun unnamed clang held => ?_, fun unused pending held clang parsed => ?_⟩
      · refine applied clang (.inl ?_)
        rw [cached, unnamed, if_neg Bool.false_ne_true, held]
      · refine applied clang (.inr ⟨?_, pending, ?_, ?_⟩)
        · rw [cached]
          cases unused with
          | inl named => rw [if_pos named]
          | inr missing => rw [missing, ite_self]
        · rw [text, held]
          rfl
        · rw [path]
          exact parsed
    · rw [neighbor.index] at isIndex
      cases isIndex
  · intro upToDate path clang applied
    obtain ⟨snapshot, graph, writes, target, member, rfl, parsed⟩ := mem_applied.mp applied
    rw [runWriteAndGraphPhase_finals]
    rcases target_cases member with ⟨index, entry, listed, made⟩ | neighbor
    · obtain ⟨_, _, index', path, text, cached⟩ := changedTarget_eq_some made
      have current := upToDate index entry listed ⟨snapshot, graph, writes, target, member, index'⟩
      rw [← readWritten_finishFiles distinct writes listed] at current
      rw [parseProjectGraphTarget_parse, path, cached, text] at parsed
      rw [path]
      have carried : (if hasNamingEdits entry.result.outcome.edits then none else entry.clangParse) = none →
          hasNamingEdits entry.result.outcome.edits = true ∨ entry.clangParse = none := by
        intro nothing
        by_cases named : hasNamingEdits entry.result.outcome.edits = true
        · exact .inl named
        · rw [if_neg named] at nothing
          exact .inr nothing
      cases parsed with
      | inl reused =>
        by_cases named : hasNamingEdits entry.result.outcome.edits = true
        · rw [if_pos named] at reused
          cases reused
        · rw [if_neg named] at reused
          exact current.clang (Bool.not_eq_true _ ▸ named) clang reused
      | inr made =>
        obtain ⟨nothing, held, source, parsed⟩ := made
        cases pending : entry.result.outcome.pendingText with
        | none =>
          rw [pending, Option.elim_none] at source
          exact ⟨held, source, parsed⟩
        | some pendingText =>
          rw [pending, Option.elim_some, Except.ok.injEq] at source
          subst source
          exact current.text (carried nothing) pendingText pending clang parsed
    · rw [parseProjectGraphTarget_parse, neighbor.clang, neighbor.text] at parsed
      simpa using parsed

/-- A file with an error is not written. -/
theorem error_of_written (writes : context.check = false) {index : Nat} {entry : BatchResult Clang} {final : FileResult}
    {text : Text} (listed : results[index]? = some entry)
    (written : (finishFiles context results)[index]? = some (final, some text)) : entry.result.error = none := by
  obtain ⟨propagated, _, failed, isFinal⟩ := finishFiles_getElem? context results listed writes
  by_contra broken
  obtain ⟨error, held⟩ := Option.isSome_iff_exists.mp (failed (Option.isSome_iff_ne_none.mpr broken))
  have unwritten := (writeResult_of_error context.fileIo held).1
  rw [Option.some.inj (isFinal.symm.trans written)] at unwritten
  cases unwritten

theorem reparsesPropagated_iff (distinct : (results.map fun entry => context.pathIdentity entry.result.path).Nodup) :
    ReparsesPropagated context results ↔ PropagatedKnown context results := by
  constructor
  · intro reparses snapshot graph writes index entry final text listed written differs
    obtain ⟨target, member, same⟩ := reparses snapshot graph writes index entry final text listed written differs
    obtain ⟨identities, expanding⟩ := consideredTargets_expanding context results snapshot
    cases expanding.adds target member with
    | inl changed =>
      obtain ⟨place, other, found, made⟩ := mem_changedTargets.mp changed
      obtain ⟨_, isChanged, _, path, _⟩ := changedTarget_eq_some made
      -- Two results with one identity are one result.
      have samePlace : place = index := by
        apply (List.getElem?_inj (by simpa using (List.getElem?_eq_some_iff.mp found).1) distinct).mp
        rw [List.getElem?_map, List.getElem?_map, found, listed, Option.map_some, Option.map_some, ← path, same]
      subst samePlace
      obtain rfl : other = entry := Option.some.inj (found.symm.trans listed)
      exact .inl isChanged
    | inr added => exact .inr ⟨target.path, added.2.1, added.2.2, same⟩
  · intro known snapshot graph writes index entry final text listed written differs
    cases known snapshot graph writes index entry final text listed written differs with
    | inl changed =>
      have sound := error_of_written writes listed written
      obtain ⟨identities, expanding⟩ := consideredTargets_expanding context results snapshot
      have made : changedTarget index entry = some _ := if_pos (by simp [sound, changed])
      exact ⟨_, expanding.keeps _ (mem_changedTargets.mpr ⟨index, entry, listed, made⟩), rfl⟩
    | inr near =>
      obtain ⟨neighbor, member, there, same⟩ := near
      obtain ⟨target, covered, identity⟩ := considered_of_neighbor member there
      exact ⟨target, covered, identity.trans same⟩

end

/-! ## Small batches -/

/-- A parse by clang remembers the text, and one reference to a declaration. -/
def rememberingParser : BatchParser Text where
  hasExactCompdb _ := true
  semanticCompdbKind _ := .exact
  parseClang text _ := .ok text
  refOffsets text decl := if decl = badNameDecl then (if text.length < 14 then [4] else [8]) else []

/-- A run over files whose texts are given; the writes succeed or fail. -/
def sampleContext (texts : String → Text) (written : Except String (Option String)) : RunContext Text where
  check := false
  convergenceLearnOnCheck := false
  projectGraph := some ⟨fun _ _ _ => []⟩
  graphConfig := ⟨false, 1, 1⟩
  eagerParseCap _ _ := 4
  populationObservationCount := 0
  pathExists _ := true
  pathIdentity := id
  parser := rememberingParser
  fileIo := ⟨fun path => .ok (texts path), fun _ _ => written⟩
  exp _ := 0.0821
  hashOrder := hashOrderAsIs
  populationEditSuccess := 1

/-- A line was added at the top, and the clang parse is the one of the text before. -/
def insertedLine (clangParse : Option Text) : BatchResult Text where
  result :=
    { path := "a.cpp"
      backupPath := none
      outcome :=
        { changed := true
          pendingText := some "x\na\n".toList
          renamePlans := []
          edits := [⟨.classLayout, 1, [], "x".toList⟩] }
      error := none
      warnings := [] }
  clangParse := clangParse

/-- A file with a use of the declaration, laid out anew by its own run. -/
def relaidUse : BatchResult Text where
  result :=
    { resultWithPlan "b.cpp" with
      outcome := { changed := true, pendingText := some "int y = BadName;\n".toList, renamePlans := [badNamePlan], edits := [] } }
  clangParse := none

end MjFormatter.Verified
