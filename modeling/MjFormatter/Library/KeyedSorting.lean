import Mathlib.Data.List.Dedup
import Mathlib.Data.List.Destutter
import Mathlib.Data.List.Sort

/-! # Sorting by a key

Items that are sorted by a key come in the same order of keys, whatever order they had before. -/

namespace MjFormatter.Library.KeyedSorting

variable {α β : Type*} (cmp : β → β → Ordering) (key : α → β)

def sortByKey (items : List α) : List α := items.insertionSort fun left right => (cmp (key left) (key right)).isLE = true

theorem sortByKey_perm (items : List α) : (sortByKey cmp key items).Perm items := List.perm_insertionSort _ _

theorem map_sortByKey {γ : Type*} (f : γ → α) (items : List γ) :
    (sortByKey cmp (fun item => key (f item)) items).map f = sortByKey cmp key (items.map f) :=
  List.map_insertionSort _ _ _ _ fun _ _ _ _ => Iff.rfl

section
variable [Std.TransCmp cmp]

theorem pairwise_sortByKey (items : List α) :
    ((sortByKey cmp key items).map key).Pairwise fun left right => (cmp left right).isLE = true := by
  have total : Std.Total fun left right : α => (cmp (key left) (key right)).isLE = true := ⟨fun left right => by
    cases order : cmp (key left) (key right) with
    | lt => exact .inl rfl
    | eq => exact .inl rfl
    | gt => exact .inr (Std.OrientedCmp.isLE_of_isGE (by rw [order]; rfl))⟩
  have transitive : IsTrans α fun left right => (cmp (key left) (key right)).isLE = true :=
    ⟨fun _ _ _ first second => Std.TransCmp.isLE_trans first second⟩
  rw [List.pairwise_map]
  exact List.pairwise_insertionSort _ _

theorem sortByKey_sortByKey (items : List α) : sortByKey cmp key (sortByKey cmp key items) = sortByKey cmp key items :=
  (List.pairwise_map.mp (pairwise_sortByKey cmp key items)).insertionSort_eq

variable [Std.LawfulEqCmp cmp]

theorem map_sortByKey_eq {items others : List α} (same : (items.map key).Perm (others.map key)) :
    (sortByKey cmp key items).map key = (sortByKey cmp key others).map key := by
  refine List.Perm.eq_of_pairwise (fun left right _ _ before behind => ?_) (pairwise_sortByKey cmp key items)
    (pairwise_sortByKey cmp key others) ?_
  · exact Std.LawfulEqCmp.eq_of_compare (Std.OrientedCmp.isLE_antisymm before behind)
  · exact ((sortByKey_perm cmp key items).map key).trans (same.trans ((sortByKey_perm cmp key others).map key).symm)

end

/-- Sorted items without the repeated ones increase. -/
theorem pairwise_lt_dedup_insertionSort [LinearOrder β] (items : List β) :
    ((items.insertionSort (· ≤ ·)).dedup).Pairwise (· < ·) := by
  have sorted : ((items.insertionSort (· ≤ ·)).dedup).Pairwise (· ≤ ·) :=
    (List.pairwise_insertionSort (· ≤ ·) items).sublist (List.dedup_sublist _)
  exact (sorted.and (List.nodup_dedup _)).imp fun order => lt_of_le_of_ne order.1 order.2

/-- Sorted items without those that have the key of the one before increase. -/
theorem pairwise_lt_destutter [LinearOrder β] {items : List α} (sorted : items.Pairwise fun left right => key left ≤ key right) :
    (items.destutter fun left right => key left ≠ key right).Pairwise fun left right => key left < key right := by
  have upward := sorted.sublist (List.destutter_sublist (fun left right => key left ≠ key right) items)
  have apart := List.isChain_destutter (fun left right => key left ≠ key right) items
  have transitive : IsTrans α fun left right => key left < key right := ⟨fun _ _ _ => lt_trans⟩
  rw [← List.isChain_iff_pairwise, List.isChain_iff_getElem] at *
  exact fun idx bound => lt_of_le_of_ne (upward idx bound) (apart idx bound)

/-! ## What depends on the order before -/

section
variable [DecidableEq β]

/-- Sorts the items and keeps the first one of each key. -/
def sortFirst (items : List α) : List α :=
  (sortByKey cmp key items).destutter fun left right => key left ≠ key right

theorem find?_destutter' (first : α) (items : List α) (found : β) :
    (items.destutter' (fun left right => key left ≠ key right) first).find? (fun item => key item = found) =
      (first :: items).find? fun item => key item = found := by
  induction items generalizing first with
  | nil => rfl
  | cons item items inductionHypothesis =>
    by_cases same : key first = key item
    · rw [List.destutter'_cons_neg _ (not_not.mpr same), inductionHypothesis, List.find?_cons, List.find?_cons, List.find?_cons,
        same]
      split <;> rfl
    · rw [List.destutter'_cons_pos _ same, List.find?_cons, List.find?_cons, inductionHypothesis]

theorem find?_destutter (items : List α) (found : β) :
    (items.destutter fun left right => key left ≠ key right).find? (fun item => key item = found) =
      items.find? fun item => key item = found := by
  cases items with
  | nil => rfl
  | cons item items => exact find?_destutter' key item items found

variable [Std.TransCmp cmp]

omit [DecidableEq β] in
theorem isLE_self (found : β) : (cmp found found).isLE = true := by
  have same : cmp found found = .eq := Std.ReflCmp.compare_self
  rw [same]
  rfl

/-- The sort leaves the items of a key in the order they had. -/
theorem filter_sortByKey (items : List α) (found : β) :
    (sortByKey cmp key items).filter (fun item => key item = found) = items.filter fun item => key item = found := by
  have alike : (items.filter fun item => key item = found).Pairwise fun left right =>
      (cmp (key left) (key right)).isLE = true := by
    refine List.pairwise_of_forall_mem_list fun left member right other => ?_
    rw [of_decide_eq_true (List.mem_filter.mp member).2, of_decide_eq_true (List.mem_filter.mp other).2]
    exact isLE_self cmp found
  have kept := (List.sublist_insertionSort alike List.filter_sublist).filter fun item => key item = found
  rw [List.filter_filter] at kept
  simp only [Bool.and_self] at kept
  exact (kept.eq_of_length ((sortByKey_perm cmp key items).filter _).length_eq.symm).symm

variable [Std.LawfulEqCmp cmp]

omit [Std.TransCmp cmp] [Std.LawfulEqCmp cmp] in
theorem filter_cons_cancel {item : α} {items others : List α} {found : β}
    (same : (item :: items).filter (fun item => key item = found) = (item :: others).filter fun item => key item = found) :
    items.filter (fun item => key item = found) = others.filter fun item => key item = found := by
  rw [List.filter_cons, List.filter_cons] at same
  split at same
  · exact (List.cons.inj same).2
  · exact same

/-- Sorted lists are told apart by the items of one key. -/
theorem eq_of_filter_eq {items others : List α}
    (sorted : items.Pairwise fun left right => (cmp (key left) (key right)).isLE = true)
    (sortedOthers : others.Pairwise fun left right => (cmp (key left) (key right)).isLE = true)
    (same : ∀ found, items.filter (fun item => key item = found) = others.filter fun item => key item = found) :
    items = others := by
  induction items generalizing others with
  | nil =>
    rw [eq_comm, List.eq_nil_iff_forall_not_mem]
    intro other member
    have listed : other ∈ others.filter fun item => key item = key other := List.mem_filter.mpr ⟨member, decide_eq_true rfl⟩
    rw [← same (key other)] at listed
    cases listed
  | cons item items inductionHypothesis =>
    have listed : item ∈ others.filter fun other => key other = key item := by
      rw [← same (key item)]
      exact List.mem_filter.mpr ⟨List.mem_cons_self, decide_eq_true rfl⟩
    cases others with
    | nil => cases listed
    | cons other others =>
      have behind : other ∈ (item :: items).filter fun item => key item = key other := by
        rw [same (key other)]
        exact List.mem_filter.mpr ⟨List.mem_cons_self, decide_eq_true rfl⟩
      have upward : (cmp (key item) (key other)).isLE = true := by
        cases List.mem_cons.mp (List.mem_filter.mp behind).1 with
        | inl equal =>
          rw [equal]
          exact isLE_self cmp _
        | inr later => exact List.rel_of_pairwise_cons sorted later
      have downward : (cmp (key other) (key item)).isLE = true := by
        cases List.mem_cons.mp (List.mem_filter.mp listed).1 with
        | inl equal =>
          rw [equal]
          exact isLE_self cmp _
        | inr later => exact List.rel_of_pairwise_cons sortedOthers later
      have keys : key item = key other := Std.LawfulEqCmp.eq_of_compare (Std.OrientedCmp.isLE_antisymm upward downward)
      have heads := same (key item)
      rw [List.filter_cons, List.filter_cons, if_pos (decide_eq_true rfl), if_pos (decide_eq_true keys.symm)] at heads
      obtain rfl : item = other := (List.cons.inj heads).1
      rw [inductionHypothesis sorted.of_cons sortedOthers.of_cons fun found => filter_cons_cancel key (same found)]

/-- Two sorts come to the same when the items of each key came in the same order. -/
theorem sortByKey_eq_iff {items others : List α} : sortByKey cmp key items = sortByKey cmp key others ↔
    ∀ found, items.filter (fun item => key item = found) = others.filter fun item => key item = found := by
  constructor
  · intro same found
    rw [← filter_sortByKey cmp, same, filter_sortByKey]
  · intro same
    refine eq_of_filter_eq cmp key (List.pairwise_map.mp (pairwise_sortByKey cmp key items))
      (List.pairwise_map.mp (pairwise_sortByKey cmp key others)) fun found => ?_
    rw [filter_sortByKey, filter_sortByKey, same]

/-- The items increase: nothing of the same key is left. -/
theorem pairwise_sortFirst (items : List α) :
    (sortFirst cmp key items).Pairwise fun left right => cmp (key left) (key right) = .lt := by
  have sorted := List.pairwise_map.mp (pairwise_sortByKey cmp key items)
  have upward := sorted.sublist (List.destutter_sublist (fun left right => key left ≠ key right) _)
  have apart := List.isChain_destutter (fun left right => key left ≠ key right) (sortByKey cmp key items)
  have transitive : IsTrans α fun left right => cmp (key left) (key right) = .lt := ⟨fun _ _ _ => Std.TransCmp.lt_trans⟩
  rw [sortFirst, ← List.isChain_iff_pairwise, List.isChain_iff_getElem]
  rw [List.isChain_iff_getElem] at apart
  intro index bound
  have order := List.pairwise_iff_getElem.mp upward index (index + 1) (by omega) bound (by omega)
  cases compared : cmp (key _) (key _) with
  | lt => rfl
  | eq => exact absurd (Std.LawfulEqCmp.eq_of_compare compared) (apart index bound)
  | gt =>
    rw [compared] at order
    cases order

omit [Std.LawfulEqCmp cmp] in
theorem find?_sortFirst (items : List α) (found : β) :
    (sortFirst cmp key items).find? (fun item => key item = found) = items.find? fun item => key item = found := by
  rw [sortFirst, find?_destutter, ← List.head?_filter, filter_sortByKey, List.head?_filter]

omit [Std.TransCmp cmp] in
theorem filter_eq_toList_find? {items : List α} (increasing : items.Pairwise fun left right => cmp (key left) (key right) = .lt)
    (found : β) : items.filter (fun item => key item = found) = (items.find? fun item => key item = found).toList := by
  rw [← List.head?_filter]
  have apart := increasing.filter fun item => key item = found
  cases kept : items.filter fun item => key item = found with
  | nil => rfl
  | cons item rest =>
    cases rest with
    | nil => rfl
    | cons other rest =>
      rw [kept] at apart
      have keys : ∀ item ∈ items.filter (fun item => key item = found), key item = found :=
        fun item member => of_decide_eq_true (List.mem_filter.mp member).2
      have order := List.rel_of_pairwise_cons apart List.mem_cons_self
      have same : cmp found found = .eq := Std.ReflCmp.compare_self
      rw [keys item (kept ▸ List.mem_cons_self), keys other (kept ▸ List.mem_cons_of_mem _ List.mem_cons_self), same] at order
      cases order

/-- What is kept of two lists is the same when the first items of each key are the same. -/
theorem sortFirst_eq_iff {items others : List α} : sortFirst cmp key items = sortFirst cmp key others ↔
    ∀ found, items.find? (fun item => key item = found) = others.find? fun item => key item = found := by
  constructor
  · intro same found
    rw [← find?_sortFirst cmp, same, find?_sortFirst]
  · intro same
    have upward (items : List α) : (sortFirst cmp key items).Pairwise fun left right => (cmp (key left) (key right)).isLE = true :=
      (pairwise_sortFirst cmp key items).imp fun order => order ▸ rfl
    refine eq_of_filter_eq cmp key (upward items) (upward others) fun found => ?_
    rw [filter_eq_toList_find? cmp key (pairwise_sortFirst cmp key items),
      filter_eq_toList_find? cmp key (pairwise_sortFirst cmp key others), find?_sortFirst, find?_sortFirst, same]

/-! ## Groups of items in any order -/

section
variable {γ : Type*} {itemsOf : γ → List α} {groups : List γ}

omit [Std.TransCmp cmp] [Std.LawfulEqCmp cmp] [DecidableEq β] in
/-- Unless two items of different groups have one key, the order of the groups decides which one comes first. -/
theorem agree_of_find? [DecidableEq β] (within : ∀ group ∈ groups, ∀ item ∈ itemsOf group, ∀ other ∈ itemsOf group, key item = key other → item = other)
    (same : ∀ order : List γ, order.Perm groups → ∀ found, (order.flatMap itemsOf).find? (fun item => key item = found) =
      (groups.flatMap itemsOf).find? fun item => key item = found) :
    ∀ item ∈ groups.flatMap itemsOf, ∀ other ∈ groups.flatMap itemsOf, key item = key other → item = other := by
  have first : ∀ group ∈ groups, ∀ item ∈ itemsOf group,
      (groups.flatMap itemsOf).find? (fun other => key other = key item) = some item := by
    intro group member item listed
    obtain ⟨front, back, rfl⟩ := List.mem_iff_append.mp member
    rw [← same (group :: (front ++ back)) List.perm_middle.symm, List.flatMap_cons, List.find?_append]
    cases found : (itemsOf group).find? fun other => key other = key item with
    | none => exact absurd rfl (of_decide_eq_false (Bool.eq_false_iff.mpr (List.find?_eq_none.mp found item listed)))
    | some other =>
      have keys : key other = key item := by simpa using List.find?_some found
      rw [within group member other (List.mem_of_find?_eq_some found) item listed keys]
      rfl
  intro item member other memberOther keys
  obtain ⟨group, inside, listed⟩ := List.mem_flatMap.mp member
  obtain ⟨otherGroup, insideOther, listedOther⟩ := List.mem_flatMap.mp memberOther
  have found := first group inside item listed
  rw [keys, first otherGroup insideOther other listedOther] at found
  exact (Option.some.inj found).symm

/-- Every order of the groups leaves the same items exactly when items of one key are one item. -/
theorem sortFirst_flatMap_iff
    (within : ∀ group ∈ groups, ∀ item ∈ itemsOf group, ∀ other ∈ itemsOf group, key item = key other → item = other) :
    (∀ order : List γ, order.Perm groups →
      sortFirst cmp key (order.flatMap itemsOf) = sortFirst cmp key (groups.flatMap itemsOf)) ↔
      ∀ item ∈ groups.flatMap itemsOf, ∀ other ∈ groups.flatMap itemsOf, key item = key other → item = other := by
  constructor
  · intro same
    exact agree_of_find? key within fun order permuted => (sortFirst_eq_iff cmp key).mp (same order permuted)
  · intro agree order permuted
    have together := permuted.flatMap_right itemsOf
    refine (sortFirst_eq_iff cmp key).mpr fun found => ?_
    cases sought : (groups.flatMap itemsOf).find? fun item => key item = found with
    | none =>
      rw [List.find?_eq_none] at sought ⊢
      exact fun item member => sought item (together.mem_iff.mp member)
    | some item =>
      have member := List.mem_of_find?_eq_some sought
      have keyItem : key item = found := by simpa using List.find?_some sought
      cases chosen : (order.flatMap itemsOf).find? fun item => key item = found with
      | none => exact absurd (decide_eq_true keyItem) (List.find?_eq_none.mp chosen item (together.mem_iff.mpr member))
      | some other =>
        have listed := together.mem_iff.mp (List.mem_of_find?_eq_some chosen)
        have keyOther : key other = found := by simpa using List.find?_some chosen
        rw [agree other listed item member (keyOther.trans keyItem.symm)]

/-- Every order of the groups sorts to the same exactly when items of one key are one item. -/
theorem sortByKey_flatMap_iff
    (within : ∀ group ∈ groups, ∀ item ∈ itemsOf group, ∀ other ∈ itemsOf group, key item = key other → item = other) :
    (∀ order : List γ, order.Perm groups →
      sortByKey cmp key (order.flatMap itemsOf) = sortByKey cmp key (groups.flatMap itemsOf)) ↔
      ∀ item ∈ groups.flatMap itemsOf, ∀ other ∈ groups.flatMap itemsOf, key item = key other → item = other := by
  constructor
  · intro same
    refine agree_of_find? key within fun order permuted found => ?_
    rw [← List.head?_filter, (sortByKey_eq_iff cmp key).mp (same order permuted), List.head?_filter]
  · intro agree order permuted
    have together := permuted.flatMap_right itemsOf
    refine (sortByKey_eq_iff cmp key).mpr fun found => ?_
    have kept := together.filter fun item => key item = found
    cases listed : (groups.flatMap itemsOf).filter fun item => key item = found with
    | nil => exact List.perm_nil.mp (listed ▸ kept)
    | cons item rest =>
      have alike : ∀ other ∈ (groups.flatMap itemsOf).filter (fun item => key item = found), other = item := by
        intro other member
        have first := List.mem_filter.mp (listed ▸ List.mem_cons_self : item ∈ (groups.flatMap itemsOf).filter fun item => key item = found)
        have second := List.mem_filter.mp member
        exact agree other second.1 item first.1 ((of_decide_eq_true second.2).trans (of_decide_eq_true first.2).symm)
      rw [← listed, List.eq_replicate_of_mem alike, ← kept.length_eq]
      exact List.eq_replicate_of_mem fun other member => alike other (kept.mem_iff.mp member)

end

end

end MjFormatter.Library.KeyedSorting
