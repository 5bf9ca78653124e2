import Mathlib.Data.List.Forall2
import Mathlib.Data.List.Nodup
import Mathlib.Data.List.Perm.Basic
import Mathlib.Logic.Function.Basic

/-! # Taking items from queues

Requests come in a row, and each takes the first item that is left in the queue of its name. -/

namespace MjFormatter.Library.Queues

variable {ε α β κ : Type*} [DecidableEq κ] (name : ε → κ)

def takeInTurn : List ε → (κ → List α) → List (α × ε)
  | [], _ => []
  | request :: requests, queues =>
    match queues (name request) with
    | [] => takeInTurn requests queues
    | item :: queue => (item, request) :: takeInTurn requests (Function.update queues (name request) queue)

theorem takeInTurn_cons_nil {request : ε} {queues : κ → List α} (empty : queues (name request) = []) (requests : List ε) :
    takeInTurn name (request :: requests) queues = takeInTurn name requests queues := by
  rw [takeInTurn, empty]

theorem takeInTurn_cons_cons {request : ε} {queues : κ → List α} {item : α} {queue : List α}
    (first : queues (name request) = item :: queue) (requests : List ε) :
    takeInTurn name (request :: requests) queues =
      (item, request) :: takeInTurn name requests (Function.update queues (name request) queue) := by
  rw [takeInTurn, first]

/-- The requests that get an item come in the order of the requests. -/
theorem map_snd_takeInTurn_sublist (requests : List ε) (queues : κ → List α) :
    ((takeInTurn name requests queues).map Prod.snd).Sublist requests := by
  induction requests generalizing queues with
  | nil => exact List.Sublist.refl _
  | cons request requests inductionHypothesis =>
    cases queue : queues (name request) with
    | nil =>
      rw [takeInTurn_cons_nil name queue]
      exact (inductionHypothesis queues).cons _
    | cons item rest =>
      rw [takeInTurn_cons_cons name queue, List.map_cons]
      exact (inductionHypothesis _).cons_cons _

/-- The requests of one name and the items of their queue meet in order. -/
theorem filter_takeInTurn (requests : List ε) (queues : κ → List α) (key : κ) :
    (takeInTurn name requests queues).filter (fun taken => name taken.2 = key) =
      (queues key).zip (requests.filter fun request => name request = key) := by
  induction requests generalizing queues with
  | nil => simp [takeInTurn]
  | cons request requests inductionHypothesis =>
    cases queue : queues (name request) with
    | nil =>
      rw [takeInTurn_cons_nil name queue, inductionHypothesis]
      by_cases same : name request = key
      · rw [← same, queue, List.zip_nil_left, List.zip_nil_left]
      · rw [List.filter_cons_of_neg (by simpa using same)]
    | cons item rest =>
      rw [takeInTurn_cons_cons name queue]
      by_cases same : name request = key
      · rw [List.filter_cons_of_pos (by simpa using same), List.filter_cons_of_pos (by simpa using same),
          inductionHypothesis, ← same, Function.update_self, queue, List.zip_cons_cons]
      · rw [List.filter_cons_of_neg (by simpa using same), List.filter_cons_of_neg (by simpa using same),
          inductionHypothesis, Function.update_of_ne (Ne.symm same)]

/-- Queues of corresponding items are used up in the same way. -/
theorem takeInTurn_rel {rel : α → β → Prop} (requests : List ε) {queues : κ → List α} {others : κ → List β}
    (related : ∀ key, List.Forall₂ rel (queues key) (others key)) :
    List.Forall₂ (fun left right => rel left.1 right.1 ∧ left.2 = right.2) (takeInTurn name requests queues)
      (takeInTurn name requests others) := by
  induction requests generalizing queues others with
  | nil => exact .nil
  | cons request requests inductionHypothesis =>
    have here := related (name request)
    cases queue : queues (name request) with
    | nil =>
      rw [queue, List.forall₂_nil_left_iff] at here
      rw [takeInTurn_cons_nil name queue, takeInTurn_cons_nil name here]
      exact inductionHypothesis related
    | cons item rest =>
      rw [queue, List.forall₂_cons_left_iff] at here
      obtain ⟨other, others', first, further, queue'⟩ := here
      rw [takeInTurn_cons_cons name queue, takeInTurn_cons_cons name queue']
      refine .cons ⟨first, rfl⟩ (inductionHypothesis fun key => ?_)
      by_cases same : key = name request
      · rw [same, Function.update_self, Function.update_self]
        exact further
      · rw [Function.update_of_ne same, Function.update_of_ne same]
        exact related key

theorem map_fst_zip_eq_take (items : List α) (others : List β) : (items.zip others).map Prod.fst = items.take others.length := by
  induction items generalizing others with
  | nil => simp
  | cons item items inductionHypothesis =>
    cases others with
    | nil => simp
    | cons other others => simp [inductionHypothesis]

theorem filter_notMem_take {items : List α} [DecidableEq α] (nodup : items.Nodup) (count : Nat) :
    items.filter (fun item => item ∉ items.take count) = items.drop count := by
  have apart := List.nodup_append.mp ((List.take_append_drop count items).symm ▸ nodup)
  calc items.filter (fun item => item ∉ items.take count)
      = (items.take count ++ items.drop count).filter fun item => item ∉ items.take count := by rw [List.take_append_drop]
    _ = items.drop count := by
      rw [List.filter_append, List.filter_eq_nil_iff.mpr (by simp), List.nil_append, List.filter_eq_self]
      intro item member
      exact decide_eq_true fun taken => apart.2.2 item taken item member rfl

/-! ## Queues of a list of items -/

section
variable (key : α → κ) (requests : List ε) (items : List α)

/-- The items, in a queue for each name. -/
def queuesOf (name : κ) : List α := items.filter fun item => key item = name

def taken : List (α × ε) := takeInTurn name requests (queuesOf key items)

theorem key_of_mem_taken {pair : α × ε} (member : pair ∈ taken name key requests items) : key pair.1 = name pair.2 := by
  have filtered : pair ∈ (taken name key requests items).filter fun other => name other.2 = name pair.2 :=
    List.mem_filter.mpr ⟨member, by simp⟩
  rw [taken, filter_takeInTurn] at filtered
  have queued : pair.1 ∈ queuesOf key items (name pair.2) := (List.of_mem_zip filtered).1
  exact of_decide_eq_true (List.mem_filter.mp queued).2

/-- The first items of each name are taken, as many as there are requests for it. -/
theorem filter_map_fst_taken (name' : κ) :
    ((taken name key requests items).map Prod.fst).filter (fun item => key item = name') =
      (queuesOf key items name').take (requests.countP fun request => name request = name') := by
  have same : (taken name key requests items).filter (fun pair => key pair.1 = name') =
      (taken name key requests items).filter (fun pair => name pair.2 = name') := by
    refine List.filter_congr fun pair member => ?_
    rw [key_of_mem_taken name key requests items member]
  rw [List.filter_map]
  simp only [Function.comp_def]
  rw [same, taken, filter_takeInTurn, map_fst_zip_eq_take, List.countP_eq_length_filter]

variable [DecidableEq α]

/-- The items that nobody has asked for. -/
def left : List α := items.filter fun item => item ∉ (taken name key requests items).map Prod.fst

variable {items}

theorem filter_left (nodup : items.Nodup) (name' : κ) :
    (left name key requests items).filter (fun item => key item = name') =
      (queuesOf key items name').drop (requests.countP fun request => name request = name') := by
  have nodupQueue : (queuesOf key items name').Nodup := nodup.filter _
  rw [← filter_notMem_take nodupQueue, ← filter_map_fst_taken name key requests items name', queuesOf, left,
    List.filter_filter, List.filter_filter]
  refine List.filter_congr fun item member => ?_
  by_cases same : key item = name'
  · simp [same]
  · simp [same]

theorem nodup_map_fst_taken (nodup : items.Nodup) : ((taken name key requests items).map Prod.fst).Nodup := by
  rw [List.nodup_iff_count_le_one]
  intro item
  have counted : ((taken name key requests items).map Prod.fst).count item =
      (((taken name key requests items).map Prod.fst).filter fun other => key other = key item).count item :=
    (List.count_filter (by simp)).symm
  rw [counted, filter_map_fst_taken]
  exact List.nodup_iff_count_le_one.mp ((nodup.filter _).sublist (List.take_sublist _ _)) item

omit [DecidableEq α] in
theorem mem_of_mem_taken {item : α} (member : item ∈ (taken name key requests items).map Prod.fst) : item ∈ items := by
  have filtered : item ∈ ((taken name key requests items).map Prod.fst).filter fun other => key other = key item :=
    List.mem_filter.mpr ⟨member, by simp⟩
  rw [filter_map_fst_taken] at filtered
  exact List.mem_of_mem_filter (List.mem_of_mem_take filtered)

/-- Every item is taken or left, once. -/
theorem taken_append_left_perm (nodup : items.Nodup) :
    ((taken name key requests items).map Prod.fst ++ left name key requests items).Perm items := by
  have apart : ((taken name key requests items).map Prod.fst ++ left name key requests items).Nodup := by
    refine List.nodup_append.mpr ⟨nodup_map_fst_taken name key requests nodup, nodup.filter _, ?_⟩
    rintro item isTaken other isLeft rfl
    exact of_decide_eq_true (List.mem_filter.mp isLeft).2 isTaken
  refine (List.perm_ext_iff_of_nodup apart nodup).mpr fun item => ?_
  rw [List.mem_append, left, List.mem_filter, decide_eq_true_eq]
  constructor
  · rintro (isTaken | ⟨member, _⟩)
    · exact mem_of_mem_taken name key requests isTaken
    · exact member
  · intro member
    by_cases isTaken : item ∈ (taken name key requests items).map Prod.fst
    · exact .inl isTaken
    · exact .inr ⟨member, isTaken⟩

/-- Whoever takes from the items in their new order takes them in the same order. -/
theorem queuesOf_taken_append_left (nodup : items.Nodup) (name' : κ) :
    queuesOf key ((taken name key requests items).map Prod.fst ++ left name key requests items) name' =
      queuesOf key items name' := by
  rw [queuesOf, List.filter_append, filter_map_fst_taken, filter_left name key requests nodup, List.take_append_drop]

/-- Taking from the rearranged items changes nothing. -/
theorem taken_rearranged (nodup : items.Nodup) :
    taken name key requests ((taken name key requests items).map Prod.fst ++ left name key requests items) =
      taken name key requests items := by
  rw [taken, funext (queuesOf_taken_append_left name key requests nodup), taken]

theorem left_rearranged (nodup : items.Nodup) :
    left name key requests ((taken name key requests items).map Prod.fst ++ left name key requests items) =
      left name key requests items := by
  rw [left, taken_rearranged name key requests nodup, List.filter_append, List.filter_eq_nil_iff.mpr (by simp),
    List.nil_append, List.filter_eq_self]
  intro item isLeft
  exact (List.mem_filter.mp isLeft).2

omit [DecidableEq α] in
/-- Items that are exchanged for others of their names. -/
theorem taken_map {f : α → β} {key' : β → κ} (named : ∀ item ∈ items, key' (f item) = key item) :
    taken name key' requests (items.map f) = (taken name key requests items).map fun pair => (f pair.1, pair.2) := by
  have queues (name' : κ) : List.Forall₂ (fun other item => other = f item) (queuesOf key' (items.map f) name')
      (queuesOf key items name') := by
    have same : queuesOf key' (items.map f) name' = (queuesOf key items name').map f := by
      rw [queuesOf, queuesOf, List.filter_map]
      congr 1
      refine List.filter_congr fun item member => ?_
      rw [Function.comp_apply, named item member]
    rw [same, List.forall₂_map_left_iff]
    exact List.forall₂_same.mpr fun _ _ => rfl
  have pairs := takeInTurn_rel name requests queues
  rw [taken, taken, ← List.forall₂_eq_eq_eq, List.forall₂_map_right_iff]
  exact pairs.imp fun left right same => Prod.ext same.1 same.2

theorem left_map [DecidableEq β] {f : α → β} {key' : β → κ} (named : ∀ item ∈ items, key' (f item) = key item)
    (injective : ∀ item ∈ items, ∀ other ∈ items, f item = f other → item = other) :
    left name key' requests (items.map f) = (left name key requests items).map f := by
  rw [left, left, List.filter_map, taken_map name key requests named, List.map_map]
  congr 1
  have fronts : (Prod.fst ∘ fun pair : α × ε => (f pair.1, pair.2)) = f ∘ Prod.fst := rfl
  refine List.filter_congr fun item member => ?_
  rw [Function.comp_apply, decide_eq_decide, not_iff_not, fronts, ← List.map_map]
  constructor
  · intro isTaken
    obtain ⟨other, otherTaken, same⟩ := List.mem_map.mp isTaken
    exact injective other (mem_of_mem_taken name key requests otherTaken) item member same ▸ otherTaken
  · exact List.mem_map_of_mem

end

/-- Items without repetition can be exchanged for any others. -/
theorem exists_map_eq [DecidableEq α] [Inhabited β] {items : List α} (nodup : items.Nodup) {others : List β}
    (lengths : items.length = others.length) : ∃ f : α → β, items.map f = others := by
  induction items generalizing others with
  | nil =>
    cases others with
    | nil => exact ⟨fun _ => default, rfl⟩
    | cons other others => simp at lengths
  | cons item items inductionHypothesis =>
    cases others with
    | nil => simp at lengths
    | cons other others =>
      obtain ⟨absent, nodup⟩ := List.nodup_cons.mp nodup
      obtain ⟨f, same⟩ := inductionHypothesis nodup (by simpa using lengths)
      refine ⟨Function.update f item other, ?_⟩
      rw [List.map_cons, Function.update_self, ← same]
      congr 1
      refine List.map_congr_left fun further member => ?_
      rw [Function.update_of_ne]
      rintro rfl
      exact absent member

end MjFormatter.Library.Queues
