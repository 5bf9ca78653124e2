import Mathlib.Algebra.BigOperators.Group.Finset.Piecewise
import Mathlib.Algebra.BigOperators.Group.List.Basic
import Mathlib.Algebra.GroupWithZero.Nat
import Mathlib.Data.List.Nodup

/-! # Lists that merge items of one key

Every item has a key.  An item is merged into the first one of its key, or stands last if there is none,
so that a list without repeated keys stays one.  Items may have a weight that merging adds up, up to a
bound; the weight that a list holds under a key is then the same, up to the bound, however it was merged. -/

namespace MjFormatter.Library.Merging

variable {α κ : Type*} [DecidableEq κ] (key : α → κ) (merge : α → α → α)

def upsert (item : α) : List α → List α
  | [] => [item]
  | old :: rest => if key old = key item then merge old item :: rest else old :: upsert item rest

def upsertAll (list items : List α) : List α :=
  items.foldl (fun list item => upsert key merge item list) list

variable {key merge}

section Members

theorem forall_upsert {P : α → Prop} {item : α} {list : List α} (held : ∀ old ∈ list, P old) (offered : P item)
    (merged : ∀ old ∈ list, key old = key item → P (merge old item)) : ∀ entry ∈ upsert key merge item list, P entry := by
  induction list with
  | nil => simpa [upsert] using offered
  | cons old rest inductionHypothesis =>
    have tail := inductionHypothesis (fun other member => held other (List.mem_cons_of_mem _ member))
      (fun other member => merged other (List.mem_cons_of_mem _ member))
    intro entry member
    simp only [upsert] at member
    split at member
    next same =>
      cases List.mem_cons.mp member with
      | inl isMerged => exact isMerged ▸ merged old List.mem_cons_self same
      | inr inRest => exact held entry (List.mem_cons_of_mem _ inRest)
    next different =>
      cases List.mem_cons.mp member with
      | inl isOld => exact isOld ▸ held old List.mem_cons_self
      | inr inRest => exact tail entry inRest

theorem forall_upsertAll {P : α → Prop} {list items : List α} (held : ∀ old ∈ list, P old) (offered : ∀ item ∈ items, P item)
    (merged : ∀ old item, P old → P item → key old = key item → P (merge old item)) :
    ∀ entry ∈ upsertAll key merge list items, P entry := by
  induction items generalizing list with
  | nil => exact held
  | cons item items inductionHypothesis =>
    have first := offered item List.mem_cons_self
    apply inductionHypothesis
    · exact forall_upsert held first fun old member same => merged old item (held old member) first same
    · exact fun other member => offered other (List.mem_cons_of_mem _ member)

end Members

section Keys

variable (keepsKey : ∀ old item, key (merge old item) = key old)

include keepsKey in
theorem map_key_upsert (item : α) (list : List α) :
    (upsert key merge item list).map key =
      if key item ∈ list.map key then list.map key else list.map key ++ [key item] := by
  induction list with
  | nil => simp [upsert]
  | cons old rest inductionHypothesis =>
    by_cases same : key old = key item
    · simp [upsert, same, keepsKey]
    · have other : key item ≠ key old := fun equal => same equal.symm
      simp only [upsert, same, if_false, List.map_cons, inductionHypothesis, List.mem_cons, other, false_or]
      split <;> rfl

include keepsKey in
theorem mem_map_key_upsert {item : α} {list : List α} {k : κ} :
    k ∈ (upsert key merge item list).map key ↔ k ∈ list.map key ∨ k = key item := by
  rw [map_key_upsert keepsKey]
  split
  next known =>
    constructor
    · exact Or.inl
    · intro either
      cases either with
      | inl old => exact old
      | inr new => exact new ▸ known
  next unknown => simp

include keepsKey in
theorem nodup_upsert {item : α} {list : List α} (nodup : (list.map key).Nodup) :
    ((upsert key merge item list).map key).Nodup := by
  rw [map_key_upsert keepsKey]
  split
  next => exact nodup
  next unknown => exact List.nodup_append.mpr ⟨nodup, List.nodup_singleton _, by
    intro k member other single equal
    rw [List.mem_singleton] at single
    exact unknown (single ▸ equal ▸ member)⟩

include keepsKey in
theorem nodup_upsertAll {list items : List α} (nodup : (list.map key).Nodup) :
    ((upsertAll key merge list items).map key).Nodup := by
  induction items generalizing list with
  | nil => exact nodup
  | cons item items inductionHypothesis => exact inductionHypothesis (nodup_upsert keepsKey nodup)

include keepsKey in
theorem mem_map_key_upsertAll {list items : List α} {k : κ} :
    k ∈ (upsertAll key merge list items).map key ↔ k ∈ list.map key ∨ k ∈ items.map key := by
  induction items generalizing list with
  | nil => simp [upsertAll]
  | cons item items inductionHypothesis =>
    refine inductionHypothesis.trans ?_
    rw [mem_map_key_upsert keepsKey, or_assoc, List.map_cons, List.mem_cons]

end Keys

theorem upsert_of_notMem {item : α} {list : List α} (unknown : key item ∉ list.map key) :
    upsert key merge item list = list ++ [item] := by
  induction list with
  | nil => rfl
  | cons old rest inductionHypothesis =>
    simp only [List.map_cons, List.mem_cons, not_or] at unknown
    have different : ¬key old = key item := fun equal => unknown.1 equal.symm
    simp [upsert, different, inductionHypothesis unknown.2]

/-- Items of new, distinct keys are appended as they are. -/
theorem upsertAll_of_nodup {list items : List α} (nodup : ((list ++ items).map key).Nodup) :
    upsertAll key merge list items = list ++ items := by
  induction items generalizing list with
  | nil => simp [upsertAll]
  | cons item items inductionHypothesis =>
    have unknown : key item ∉ list.map key := by
      intro known
      simp only [List.map_append, List.map_cons] at nodup
      exact (List.disjoint_of_nodup_append nodup) known List.mem_cons_self
    have regrouped : ((list ++ [item] ++ items).map key).Nodup := by simpa using nodup
    simpa [upsertAll, upsert_of_notMem unknown] using inductionHypothesis regrouped

/-! ## Keeping the first item of a key -/

theorem find?_upsert_first (item : α) (list : List α) (k : κ) :
    (upsert key (fun old _ => old) item list).find? (fun entry => key entry = k) =
      (list.find? fun entry => key entry = k).or ([item].find? fun entry => key entry = k) := by
  induction list with
  | nil => rfl
  | cons old rest inductionHypothesis =>
    by_cases asked : key old = k
    · have first : ∀ others : List α, (old :: others).find? (fun entry => key entry = k) = some old := fun others =>
        List.find?_cons_of_pos (by simpa using asked)
      rw [upsert, first, Option.some_or]
      split <;> exact first _
    · rw [List.find?_cons_of_neg (by simpa using asked), ← inductionHypothesis, upsert]
      split
      · next same =>
        -- The old item has the key of the new one, which is not the one that is asked for.
        have other : ¬key item = k := same ▸ asked
        rw [List.find?_cons_of_neg (by simpa using asked), inductionHypothesis, List.find?_cons_of_neg (by simpa using other),
          List.find?_nil, Option.or_none]
      · rw [List.find?_cons_of_neg (by simpa using asked)]

theorem find?_upsertAll_first (items list : List α) (k : κ) :
    (upsertAll key (fun old _ => old) list items).find? (fun entry => key entry = k) =
      (list.find? fun entry => key entry = k).or (items.find? fun entry => key entry = k) := by
  induction items generalizing list with
  | nil => rw [List.find?_nil, Option.or_none]; rfl
  | cons item items inductionHypothesis =>
    refine (inductionHypothesis _).trans ?_
    rw [find?_upsert_first, Option.or_assoc]
    congr 1
    by_cases asked : key item = k <;> simp [asked]

/-! ## Weights -/

section Weights

variable (key) (weight : α → ℕ)

/-- The weight that the items of one key have together. -/
def total (k : κ) (list : List α) : ℕ := ((list.filter fun item => key item = k).map weight).sum

variable {weight}

@[simp] theorem total_nil (k : κ) : total key weight k [] = 0 := rfl

@[simp] theorem total_cons (k : κ) (item : α) (list : List α) :
    total key weight k (item :: list) = (if key item = k then weight item else 0) + total key weight k list := by
  by_cases same : key item = k
  · simp [total, same]
  · simp [total, same]

@[simp] theorem total_append (k : κ) (front back : List α) :
    total key weight k (front ++ back) = total key weight k front + total key weight k back := by
  simp [total]

variable {key} {bound : ℕ}

theorem total_upsert (keepsKey : ∀ old item, key (merge old item) = key old) {item : α}
    (addsWeight : ∀ old, weight (merge old item) = min bound (weight old + weight item)) (k : κ) (list : List α) :
    min bound (total key weight k (upsert key merge item list)) =
      min bound (total key weight k list + total key weight k [item]) := by
  induction list with
  | nil => simp [upsert]
  | cons old rest inductionHypothesis =>
    simp only [total_cons, total_nil, Nat.add_zero] at inductionHypothesis ⊢
    by_cases same : key old = key item
    · simp only [upsert, same, if_true, total_cons, keepsKey, addsWeight]
      split <;> omega
    · simp only [upsert, same, if_false, total_cons]
      omega

theorem total_upsertAll (keepsKey : ∀ old item, key (merge old item) = key old) {items : List α}
    (addsWeight : ∀ old, ∀ item ∈ items, weight (merge old item) = min bound (weight old + weight item)) (k : κ)
    (list : List α) :
    min bound (total key weight k (upsertAll key merge list items)) =
      min bound (total key weight k list + total key weight k items) := by
  induction items generalizing list with
  | nil => simp [upsertAll]
  | cons item items inductionHypothesis =>
    have first := total_upsert keepsKey (fun old => addsWeight old item List.mem_cons_self) k list
    have later := inductionHypothesis (fun old other member => addsWeight old other (List.mem_cons_of_mem _ member))
      (upsert key merge item list)
    simp only [total_cons, total_nil, Nat.add_zero] at first
    simp only [total_cons]
    calc min bound (total key weight k (upsertAll key merge list (item :: items)))
        = min bound (total key weight k (upsert key merge item list) + total key weight k items) := later
      _ = _ := by omega

theorem total_of_notMem {list : List α} {k : κ} (absent : k ∉ list.map key) : total key weight k list = 0 := by
  have none : (list.filter fun item => key item = k) = [] := by
    apply List.filter_eq_nil_iff.mpr
    intro item member
    simpa using fun equal : key item = k => absent (equal ▸ List.mem_map_of_mem member)
  simp [total, none]

/-- In a list without repeated keys an item is all that is held under its key. -/
theorem total_of_mem {list : List α} (nodup : (list.map key).Nodup) {item : α} (member : item ∈ list) :
    total key weight (key item) list = weight item := by
  induction list with
  | nil => cases member
  | cons first rest inductionHypothesis =>
    simp only [List.map_cons, List.nodup_cons] at nodup
    cases List.mem_cons.mp member with
    | inl isFirst =>
      subst isFirst
      simp [total_of_notMem nodup.1]
    | inr inRest =>
      have different : ¬key first = key item := fun equal => nodup.1 (equal ▸ List.mem_map_of_mem inRest)
      simp [different, inductionHypothesis nodup.2 inRest]

/-- What a list without repeated keys and without empty items holds is given by its totals. -/
theorem mem_map_iff_total {list : List α} (nodup : (list.map key).Nodup) (positive : ∀ item ∈ list, 0 < weight item)
    {k : κ} {amount : ℕ} :
    (k, amount) ∈ list.map (fun item => (key item, weight item)) ↔ total key weight k list = amount ∧ 0 < amount := by
  constructor
  · intro member
    obtain ⟨item, inList, equal⟩ := List.mem_map.mp member
    obtain ⟨rfl, rfl⟩ := Prod.mk.inj equal
    exact ⟨total_of_mem nodup inList, positive item inList⟩
  · intro held
    by_cases known : k ∈ list.map key
    · obtain ⟨item, inList, rfl⟩ := List.mem_map.mp known
      rw [total_of_mem nodup inList] at held
      exact List.mem_map.mpr ⟨item, inList, Prod.ext rfl held.1⟩
    · rw [total_of_notMem known] at held
      omega

/-- Lists without repeated keys that agree on the keys of a kind hold the same under these keys. -/
theorem perm_of_total {left right : List α} (leftNodup : (left.map key).Nodup) (rightNodup : (right.map key).Nodup)
    (leftPositive : ∀ item ∈ left, 0 < weight item) (rightPositive : ∀ item ∈ right, 0 < weight item) {p : κ → Bool}
    (same : ∀ k, p k = true → total key weight k left = total key weight k right) :
    ((left.filter fun item => p (key item)).map fun item => (key item, weight item)).Perm
      ((right.filter fun item => p (key item)).map fun item => (key item, weight item)) := by
  have nodupPairs : ∀ {list : List α}, (list.map key).Nodup →
      ((list.filter fun item => p (key item)).map fun item => (key item, weight item)).Nodup := by
    intro list nodup
    apply List.Nodup.of_map Prod.fst
    rw [List.map_map]
    exact (List.filter_sublist.map key).nodup nodup
  have inFilter : ∀ {list : List α}, (list.map key).Nodup → (∀ item ∈ list, 0 < weight item) → ∀ k amount,
      (k, amount) ∈ (list.filter fun item => p (key item)).map (fun item => (key item, weight item)) ↔
        p k = true ∧ total key weight k list = amount ∧ 0 < amount := by
    intro list nodup positive k amount
    rw [← mem_map_iff_total nodup positive]
    constructor
    · intro member
      obtain ⟨item, kept, equal⟩ := List.mem_map.mp member
      obtain ⟨rfl, rfl⟩ := Prod.mk.inj equal
      exact ⟨(List.mem_filter.mp kept).2, List.mem_map.mpr ⟨item, (List.mem_filter.mp kept).1, rfl⟩⟩
    · intro both
      obtain ⟨item, inList, equal⟩ := List.mem_map.mp both.2
      obtain ⟨rfl, rfl⟩ := Prod.mk.inj equal
      exact List.mem_map.mpr ⟨item, List.mem_filter.mpr ⟨inList, both.1⟩, rfl⟩
  apply (List.perm_ext_iff_of_nodup (nodupPairs leftNodup) (nodupPairs rightNodup)).mpr
  intro pair
  rw [inFilter leftNodup leftPositive, inFilter rightNodup rightPositive]
  constructor
  · exact fun held => ⟨held.1, (same _ held.1) ▸ held.2.1, held.2.2⟩
  · exact fun held => ⟨held.1, (same _ held.1).symm ▸ held.2.1, held.2.2⟩

end Weights

/-! ## Items that get other keys -/

section Rekeying

variable {weight : α → ℕ} {bound : ℕ} {rekey : κ → κ} {move : α → α}

theorem total_map (movesKey : ∀ item, key (move item) = rekey (key item)) (keepsWeight : ∀ item, weight (move item) = weight item)
    (k : κ) {list : List α} {keys : Finset κ} (covers : ∀ item ∈ list, key item ∈ keys) :
    total key weight k (list.map move) = ∑ old ∈ keys with rekey old = k, total key weight old list := by
  induction list with
  | nil => simp
  | cons item list inductionHypothesis =>
    have covered := covers item List.mem_cons_self
    have rest := inductionHypothesis fun other member => covers other (List.mem_cons_of_mem _ member)
    simp only [List.map_cons, total_cons, movesKey, keepsWeight, rest, Finset.sum_add_distrib, Finset.sum_ite_eq,
      Finset.mem_filter, covered, true_and]

theorem min_sum_congr {ι : Type*} (indices : Finset ι) {left right : ι → ℕ}
    (same : ∀ i ∈ indices, min bound (left i) = min bound (right i)) :
    min bound (∑ i ∈ indices, left i) = min bound (∑ i ∈ indices, right i) := by
  classical
  induction indices using Finset.induction_on with
  | empty => rfl
  | insert first rest fresh inductionHypothesis =>
    have here := same first (Finset.mem_insert_self first rest)
    have further := inductionHypothesis fun i member => same i (Finset.mem_insert_of_mem member)
    rw [Finset.sum_insert fresh, Finset.sum_insert fresh]
    omega

end Rekeying

end MjFormatter.Library.Merging
