import Mathlib.Data.List.Nodup
import Mathlib.Data.List.Perm.Subperm
import Std.Data.ExtTreeMap.Lemmas

/-! # Ordered maps whose keys have a lawful order

The rules of `Std.ExtTreeMap` for a key type in which only equal keys compare equal: lookups after an
update by a test of equality, and how many entries a filter on the keys leaves. -/

namespace MjFormatter.Library.OrderedMaps

open Std

variable {α β : Type*} [Ord α] [TransOrd α] (map : ExtTreeMap α β)

theorem mem_iff_exists {key : α} : key ∈ map ↔ ∃ value, map[key]? = some value := by
  rw [ExtTreeMap.mem_iff_isSome_getElem?, Option.isSome_iff_exists]

theorem size_filter_key (keep : α → Bool) : (map.filter fun key _ => keep key).size = (map.keys.filter keep).length := by
  rw [← ExtTreeMap.length_keys, ExtTreeMap.keys_filter_key]

theorem size_filter_contains_le [DecidableEq α] (keep : List α) :
    (map.filter fun key _ => keep.contains key).size ≤ keep.length := by
  rw [size_filter_key]
  have nodup : (map.keys.filter keep.contains).Nodup := map.nodup_keys.filter _
  apply (List.subperm_of_subset nodup _).length_le
  intro key member
  simpa using (List.mem_filter.mp member).2

variable [LawfulEqOrd α]

/-! ## Filters -/

theorem getElem?_filter_eq_some {keep : α → β → Bool} {key : α} {value : β} :
    (map.filter keep)[key]? = some value ↔ map[key]? = some value ∧ keep key value = true := by
  rw [ExtTreeMap.getElem?_filter', Option.filter_eq_some_iff]

theorem mem_filter_key {keep : α → Bool} {key : α} :
    (key ∈ map.filter fun key _ => keep key) ↔ key ∈ map ∧ keep key = true := by
  rw [← ExtTreeMap.mem_keys, ExtTreeMap.keys_filter_key, List.mem_filter, ExtTreeMap.mem_keys]

theorem filter_eq_self {keep : α → β → Bool} :
    map.filter keep = map ↔ ∀ key value, map[key]? = some value → keep key value = true := by
  constructor
  · intro kept key value found
    rw [← kept] at found
    exact ((getElem?_filter_eq_some map).mp found).2
  · intro keeps
    apply ExtTreeMap.ext_getElem?
    intro key
    rw [ExtTreeMap.getElem?_filter']
    cases found : map[key]? with
    | none => rfl
    | some value => simp [keeps key value found]

variable [DecidableEq α]

/-- Dropping distinct keys of the map takes away as many entries. -/
theorem size_filter_notContains {dropped : List α} (nodup : dropped.Nodup) (known : ∀ key ∈ dropped, key ∈ map) :
    (map.filter fun key _ => !dropped.contains key).size + dropped.length = map.size := by
  have split : (map.keys.filter dropped.contains).Perm dropped := by
    apply (List.perm_ext_iff_of_nodup (map.nodup_keys.filter _) nodup).mpr
    intro key
    simp only [List.mem_filter, List.contains_eq_mem, decide_eq_true_eq]
    exact and_iff_right_of_imp fun member => ExtTreeMap.mem_keys.mpr (known key member)
  rw [size_filter_key map fun key => !dropped.contains key, ← split.length_eq, ← ExtTreeMap.length_keys, Nat.add_comm]
  exact (List.length_eq_length_filter_add dropped.contains).symm

/-! ## Updates -/

theorem getElem?_insert (key other : α) (value : β) :
    (map.insert key value)[other]? = if key = other then some value else map[other]? := by
  rw [ExtTreeMap.getElem?_insert]
  simp only [Std.compare_eq_iff_eq]

theorem mem_insert {key other : α} {value : β} : other ∈ map.insert key value ↔ other = key ∨ other ∈ map := by
  rw [ExtTreeMap.mem_insert, Std.compare_eq_iff_eq, eq_comm]

theorem getElem?_erase (key other : α) : (map.erase key)[other]? = if key = other then none else map[other]? := by
  rw [ExtTreeMap.getElem?_erase]
  simp only [Std.compare_eq_iff_eq]

theorem getElem?_modify (key other : α) (f : β → β) :
    (map.modify key f)[other]? = if key = other then map[other]?.map f else map[other]? := by
  rw [ExtTreeMap.getElem?_modify]
  simp only [Std.compare_eq_iff_eq]
  split
  next same => rw [same]
  next => rfl

theorem getElem?_foldl_insert_of (value : α → β) (keys : List α) (key : α) :
    (keys.foldl (fun map key => map.insert key (value key)) map)[key]? =
      if key ∈ keys then some (value key) else map[key]? := by
  induction keys generalizing map with
  | nil => simp
  | cons first keys ih =>
    rw [List.foldl_cons, ih, getElem?_insert]
    by_cases same : first = key
    · simp [same]
    · simp [same, Ne.symm same]

theorem getElem?_foldl_insert {value : β} {key : α} (keys : List α) (found : key ∈ keys ∨ map[key]? = some value) :
    (keys.foldl (fun map key => map.insert key value) map)[key]? = some value := by
  rw [getElem?_foldl_insert_of map fun _ => value]
  split
  · rfl
  · next absent => exact found.resolve_left absent

/-- The keys of a map that a loop has put items into. -/
theorem mem_foldl_insert {γ : Type*} (key : γ → α) (value : ExtTreeMap α β → γ → β) (items : List γ) {found : α} :
    found ∈ items.foldl (fun map item => map.insert (key item) (value map item)) map ↔
      found ∈ map ∨ found ∈ items.map key := by
  induction items generalizing map with
  | nil => simp
  | cons item items ih =>
    rw [List.foldl_cons, ih, mem_insert, List.map_cons, List.mem_cons, or_assoc, or_left_comm]

/-! ## Indexes

An index tells for each key where in a list the items with that key stand. -/

section
variable {γ : Type*} (key : γ → α) (items : List γ)

/-- `entry(key).or_default().push(value)`. -/
def push (map : ExtTreeMap α (List β)) (key : α) (value : β) : ExtTreeMap α (List β) :=
  map.insert key (map.getD key [] ++ [value])

/-- The values of the items, by the keys of the items. -/
def collect (value : γ → β) : ExtTreeMap α (List β) := items.foldl (fun map item => push map (key item) (value item)) ∅

/-- The places of the items, by the keys of the items. -/
def indexBy : ExtTreeMap α (List Nat) := collect (fun entry => key entry.1) items.zipIdx Prod.snd

/-- The first places of the keys. -/
def firstIndexBy : ExtTreeMap α Nat :=
  items.zipIdx.foldl (fun map entry => map.insertIfNew (key entry.1) entry.2) ∅

theorem getElem?_push (map : ExtTreeMap α (List β)) (key other : α) (value : β) :
    (push map key value)[other]? = if key = other then some (map.getD other [] ++ [value]) else map[other]? := by
  rw [push, getElem?_insert]
  split
  · next same => rw [same]
  · rfl

theorem getElem?_foldl_push (value : γ → β) (map : ExtTreeMap α (List β)) (found : α) :
    (items.foldl (fun map item => push map (key item) (value item)) map)[found]? =
      if ∃ item ∈ items, key item = found then
        some (map.getD found [] ++ (items.filter fun item => key item = found).map value)
      else map[found]? := by
  induction items generalizing map with
  | nil => simp
  | cons item items inductionHypothesis =>
    have pushed := getElem?_push map (key item) found (value item)
    rw [List.foldl_cons, inductionHypothesis, ExtTreeMap.getD_eq_getD_getElem?, pushed]
    by_cases same : key item = found
    · by_cases later : ∃ item ∈ items, key item = found
      · simp [same, later]
      · have none : items.filter (fun item => key item = found) = [] := by
          rw [List.filter_eq_nil_iff]
          intro other member equal
          exact later ⟨other, member, of_decide_eq_true equal⟩
        simp [same, later, none]
    · simp [same, ExtTreeMap.getD_eq_getD_getElem?]

theorem getElem?_collect (value : γ → β) (found : α) : (collect key items value)[found]? =
    if ∃ item ∈ items, key item = found then some ((items.filter fun item => key item = found).map value) else none := by
  rw [collect, getElem?_foldl_push]
  simp

/-- Without an entry there is nothing with the key. -/
theorem getD_collect (value : γ → β) (found : α) :
    (collect key items value)[found]?.getD [] = (items.filter fun item => key item = found).map value := by
  rw [getElem?_collect]
  split
  · rfl
  · next absent =>
    have none : items.filter (fun item => key item = found) = [] := by
      rw [List.filter_eq_nil_iff]
      intro item member equal
      exact absent ⟨item, member, of_decide_eq_true equal⟩
    rw [none]
    rfl

/-- The items at the places of a filter are what the filter leaves. -/
theorem filterMap_zipIdx (keep : γ → Bool) (front : List γ) :
    ((items.zipIdx front.length).filter fun entry => keep entry.1).filterMap (fun entry => (front ++ items)[entry.2]?) =
      items.filter keep := by
  induction items generalizing front with
  | nil => rfl
  | cons item items inductionHypothesis =>
    have rest := inductionHypothesis (front ++ [item])
    rw [List.length_append, List.length_singleton, List.append_assoc, List.singleton_append] at rest
    rw [List.zipIdx_cons, List.filter_cons, List.filter_cons]
    cases keep item with
    | true => simp [rest]
    | false => simp [rest]

/-- An index answers with the items that have the key, in their order. -/
theorem getD_indexBy (found : α) : ((indexBy key items)[found]?.getD []).filterMap (fun index => items[index]?) =
    items.filter fun item => key item = found := by
  rw [indexBy, getD_collect, List.filterMap_map]
  exact filterMap_zipIdx items (fun item => key item = found) []

theorem getElem?_foldl_insertIfNew (map : ExtTreeMap α Nat) (start : Nat) (found : α) :
    ((items.zipIdx start).foldl (fun map entry => map.insertIfNew (key entry.1) entry.2) map)[found]? =
      map[found]?.or (((items.zipIdx start).find? fun entry => key entry.1 = found).map Prod.snd) := by
  induction items generalizing map start with
  | nil => simp
  | cons item items inductionHypothesis =>
    rw [List.zipIdx_cons, List.foldl_cons, inductionHypothesis, List.find?_cons, ExtTreeMap.getElem?_insertIfNew]
    simp only [Std.compare_eq_iff_eq]
    by_cases same : key item = found
    · subst same
      cases known : map[key item]? with
      | none => simp [mem_iff_exists, known]
      | some index => simp [mem_iff_exists, known]
    · simp [same]

/-- The index of first places answers with the first item that has the key. -/
theorem bind_firstIndexBy (found : α) : ((firstIndexBy key items)[found]?.bind fun index => items[index]?) =
    items.find? fun item => key item = found := by
  rw [firstIndexBy, getElem?_foldl_insertIfNew]
  have first := filterMap_zipIdx items (fun item => decide (key item = found)) []
  rw [← List.head?_filter, ← List.head?_filter, ← first]
  simp only [List.length_nil, List.nil_append, ExtTreeMap.getElem?_empty, Option.none_or]
  cases kept : (items.zipIdx).filter fun entry => decide (key entry.1 = found) with
  | nil => rfl
  | cons entry entries =>
    have place := List.mem_zipIdx' (List.mem_of_mem_filter (kept ▸ List.mem_cons_self))
    simp [place]

end

end MjFormatter.Library.OrderedMaps
