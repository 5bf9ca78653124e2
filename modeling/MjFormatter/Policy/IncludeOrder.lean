import MjFormatter.Files.FileUnit
import MjFormatter.Library.KeyedSorting
import MjFormatter.Model.PolicyResult
import MjFormatter.Policy.TextUtils

/-! # The policy for the order of includes

The first rows of includes that follow each other are written again, group by group in the order of the configuration. -/

namespace MjFormatter.IncludeOrder

open Library.KeyedSorting

/-! ## Entries -/

inductive IncludeQuote where
  | angle
  | double
  deriving DecidableEq, Repr

inductive IncludeGroup where
  | main
  | standard
  | thirdParty
  | project
  | localFiles
  deriving DecidableEq, Repr

def IncludeGroup.fromStr (value : Text) : Option IncludeGroup :=
  match String.ofList value with
  | "main" => some .main
  | "standard" => some .standard
  | "third_party" => some .thirdParty
  | "project" => some .project
  | "local" => some .localFiles
  | _ => none

structure IncludeEntry where
  header : Text
  quote : IncludeQuote
  deriving DecidableEq, Repr

inductive PathKind where
  | systemLibString
  | stringLiteral
  | other
  deriving DecidableEq, Repr

/-- The field `path` of a directive; a text that is no UTF-8 is missing. -/
structure PathNode where
  kind : PathKind
  text : Option Text
  deriving DecidableEq, Repr

/-- A `preproc_include` of the tree. -/
structure IncludeNode where
  startRow : Nat
  path : Option PathNode
  deriving DecidableEq, Repr

/-- `strip_prefix`, then `strip_suffix`. -/
def stripDelimiters (opening closing : Char) : Text → Option Text
  | [] => none
  | symbol :: rest => if symbol = opening then stripSuffixChar closing rest else none

def entryOf (quote : IncludeQuote) (inner : Text) : Option IncludeEntry :=
  if trim inner = [] then none else some { header := trim inner, quote := quote }

def parseIncludeFromNode (node : IncludeNode) : Option IncludeEntry :=
  node.path.bind fun pathNode =>
    pathNode.text.bind fun text =>
      match pathNode.kind with
      | .systemLibString => (stripDelimiters '<' '>' text).bind (entryOf .angle)
      | .stringLiteral => (stripDelimiters '"' '"' text).bind (entryOf .double)
      | .other => none

/-- The entries by their rows, of which each counts once. -/
def collectIncludeEntriesFromTree (nodes : List IncludeNode) (lineCount : Nat) : List (Nat × IncludeEntry) :=
  let entries := nodes.filterMap fun node =>
    if node.startRow < lineCount then (parseIncludeFromNode node).map fun entry => (node.startRow, entry) else none
  (sortByKey compare Prod.fst entries).destutter fun left right => left.1 ≠ right.1

/-! ## Clusters -/

/-- The loop over the rows, with the cluster that is not closed yet. -/
def clustersFrom (current : List Nat) : List Nat → List (List Nat)
  | [] => [current]
  | idx :: rest =>
    let prev := current.getLast?.getD idx
    if idx = prev + 1 then clustersFrom (current ++ [idx]) rest else current :: clustersFrom [idx] rest

def chooseIncludeCluster : List Nat → Option (List Nat)
  | [] => none
  | first :: rest => (clustersFrom [first] rest).head?

/-! ## The policy -/

structure IncludeOrderPolicy where
  orderHeader : List Text
  orderSource : List Text
  standardHeaders : List Text
  standardPrefixes : List Text
  projectHeaders : List Text
  projectPrefixes : List Text
  mainHeaderExtensions : List Text
  separatorLength : Nat
  emitGroupComments : Bool
  groupTitles : Text → Option Text
  thirdPartyLabels : Text → Option Text

def defaultOrderHeader : List Text := ["standard".toList, "third_party".toList, "project".toList, "local".toList]

def defaultOrderSource : List Text := "main".toList :: defaultOrderHeader

/-- `IncludeOrderPolicy::new`, from the values of the configuration. -/
def IncludeOrderPolicy.new (settings : IncludeOrderPolicy) : IncludeOrderPolicy :=
  { settings with
    orderHeader := if settings.orderHeader = [] then defaultOrderHeader else settings.orderHeader
    orderSource := if settings.orderSource = [] then defaultOrderSource else settings.orderSource
    mainHeaderExtensions :=
      if settings.mainHeaderExtensions = [] then Files.headerExtensions.map fun extension => '.' :: extension.toList
      else settings.mainHeaderExtensions
    separatorLength := max settings.separatorLength 2 }

/-- What the policy is told besides the text. -/
structure IncludeView where
  path : String
  /-- `semantic_query.is_available()`. -/
  isAvailable : Bool
  tree : Option (List IncludeNode)
  /-- `str::to_lowercase`, by the tables of Unicode. -/
  lowercase : Text → Text

def isHeaderFile (path : String) : Bool :=
  (Files.Utf8Path.extension path).any fun extension =>
    Files.headerExtensions.any fun known => Files.toAsciiLowercase known = Files.toAsciiLowercase extension

/-- The end of a row of dashes, or a title, behind the two slashes. -/
def slashes : Text := ['/', '/']

def includeLine (item : IncludeEntry) : Text :=
  match item.quote with
  | .angle => "#include <".toList ++ item.header ++ ['>']
  | .double => "#include \"".toList ++ item.header ++ ['"']

namespace IncludeOrderPolicy

variable (policy : IncludeOrderPolicy) (view : IncludeView)

def mainHeaderCandidates : List Text :=
  let stem := ((Files.Utf8Path.fileStem view.path).getD "").toList
  policy.mainHeaderExtensions.map fun ext => view.lowercase (stem ++ ext)

def isStandardHeader (header : Text) : Bool :=
  let normalized := view.lowercase header
  policy.standardHeaders.contains normalized || policy.standardPrefixes.any (·.isPrefixOf normalized) || !header.contains '/'

def isProjectHeader (header : Text) : Bool :=
  let normalized := view.lowercase header
  policy.projectHeaders.contains normalized || policy.projectPrefixes.any (·.isPrefixOf normalized)

def classifyGroup (entry : IncludeEntry) : IncludeGroup :=
  let header := view.lowercase entry.header
  if !isHeaderFile view.path && (mainHeaderCandidates policy view).contains header then .main
  else
    match entry.quote with
    | .angle => if isStandardHeader policy view header then .standard else .thirdParty
    | .double => if isProjectHeader policy view header then .project else .localFiles

/-- The labels of the third parties in a group, each once. -/
def sortedLabels (items : List IncludeEntry) : List Text :=
  let labels := items.filterMap fun item =>
    let front := view.lowercase (item.header.takeWhile (· ≠ '/'))
    if front = [] then none else some ((policy.thirdPartyLabels front).getD front)
  sortByKey compare id labels.dedup

def groupTitle (group : Text) (items : List IncludeEntry) : Text :=
  let title := (policy.groupTitles group).getD group
  if group ≠ "third_party".toList then title
  else if sortedLabels policy view items = [] then title
  else title ++ ": ".toList ++ ", ".toList.intercalate (sortedLabels policy view items)

def headingLines (group : Text) (items : List IncludeEntry) : List Text :=
  let separator := slashes ++ List.replicate (policy.separatorLength - 2) '-'
  [separator, slashes ++ [' '] ++ groupTitle policy view group items, separator]

def orderForPath : List Text := if isHeaderFile view.path then policy.orderHeader else policy.orderSource

/-! ## The block of a cluster -/

def sortItems (items : List IncludeEntry) : List IncludeEntry := sortByKey compare (fun item => view.lowercase item.header) items

/-- The items of a group in the cluster, as the loop over the cluster pushes them. -/
def itemsOf (entries : List IncludeEntry) (group : IncludeGroup) : List IncludeEntry :=
  entries.filter fun entry => classifyGroup policy view entry = group

structure EmitState where
  orderedBlock : List Text
  emittedGroup : Bool

/-- One turn of the loop over the order. -/
def emitGroup (entries : List IncludeEntry) (state : EmitState) (group : Text) : EmitState :=
  let normalized := view.lowercase (trim group)
  match IncludeGroup.fromStr normalized with
  | none => state
  | some includeGroup =>
    if itemsOf policy view entries includeGroup = [] then state
    else
      let items := sortItems view (itemsOf policy view entries includeGroup)
      let heading :=
        if policy.emitGroupComments then
          (if state.emittedGroup then [[]] else []) ++ headingLines policy view normalized items
        else []
      { orderedBlock := state.orderedBlock ++ heading ++ items.map includeLine
        emittedGroup := true }

def orderedBlock (entries : List IncludeEntry) : List Text :=
  ((orderForPath policy view).foldl (emitGroup policy view entries) ⟨[], false⟩).orderedBlock

/-- The rows of two blocks side by side, a missing row taken for an empty one. -/
def blockEdits (start : Nat) (originalBlock orderedBlock : List Text) : List Edit :=
  (List.range (max originalBlock.length orderedBlock.length)).filterMap fun idx =>
    let beforeLine := originalBlock[idx]?.getD []
    let afterLine := orderedBlock[idx]?.getD []
    if beforeLine = afterLine then none
    else some { policy := .includeOrder, line := start + idx + 1, before := beforeLine, after := afterLine }

/-! ## The run -/

/-- The entries in the rows of a cluster. -/
def clusterEntries (includeEntries : List (Nat × IncludeEntry)) (cluster : List Nat) : List IncludeEntry :=
  cluster.filterMap fun idx => includeEntries.lookup idx

/-- The rows in front of a cluster, those of the cluster and those behind it. -/
structure ClusterRows where
  front : List Text
  block : List Text
  back : List Text

def clusterRows (lines : List Text) (cluster : List Nat) : ClusterRows :=
  let start := cluster.head?.getD 0
  let stop := cluster.getLast?.getD 0 + 1
  { front := lines.take start, block := (lines.take stop).drop start, back := lines.drop stop }

def applyCluster (text : Text) (lines : List Text) (cluster : List Nat) (entries : List IncludeEntry) : PolicyResult :=
  let start := cluster.head?.getD 0
  let stop := cluster.getLast?.getD 0 + 1
  if stop ≤ start ∨ lines.length < stop then PolicyResult.unchanged
  else if !view.isAvailable then
    PolicyResult.unchanged.warn "include_order: semantic context unavailable; skipping heuristic edits"
  else
    let rows := clusterRows lines cluster
    let ordered := orderedBlock policy view entries
    if rows.block = ordered then PolicyResult.unchanged
    else
      match blockEdits start rows.block ordered with
      | [] => PolicyResult.unchanged
      | first :: rest =>
        { text := joinLines (rows.front ++ ordered ++ rows.back) (detectLineEnding text).toList (endsWithFeed text)
          changed := true
          violations :=
            [{ policy := .includeOrder, message := "Includes are not ordered", line := first.line, column := some 1 }]
          edits := first :: rest
          warnings := [] }

def apply (text : Text) : PolicyResult :=
  match view.tree with
  | none => PolicyResult.unchanged.warn "include_order: tree-sitter context unavailable"
  | some nodes =>
    let lines := splitLinesCow text
    if lines = [] then PolicyResult.unchanged
    else
      let includeEntries := collectIncludeEntriesFromTree nodes lines.length
      match chooseIncludeCluster (includeEntries.map Prod.fst) with
      | none => PolicyResult.unchanged
      | some cluster => applyCluster policy view text lines cluster (clusterEntries includeEntries cluster)

end IncludeOrderPolicy

end MjFormatter.IncludeOrder
