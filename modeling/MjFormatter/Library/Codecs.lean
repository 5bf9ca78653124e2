import Mathlib.Data.List.Perm.Subperm
import Mathlib.Algebra.Order.BigOperators.Group.List
import MjFormatter.Library.Bytes
import MjFormatter.Library.OrderedMaps

/-! # Codecs that read from the front of a byte string

A codec writes values to bytes and reads one value off the front of a byte string, leaving the rest.  It
reads back what it has written whatever follows, and it never reads fewer bytes than it would write for
the value it returns. -/

namespace MjFormatter.Library.Codecs

open Library.Bytes Library.OrderedMaps Std

structure Codec (α : Type) where
  encode : α → List UInt8
  decode : List UInt8 → Option (α × List UInt8)
  /-- The values that have an encoding. -/
  Valid : α → Prop
  decidableValid : DecidablePred Valid := by infer_instance
  decode_encode : ∀ (value : α) (rest : List UInt8), Valid value → decode (encode value ++ rest) = some (value, rest)
  frugal : ∀ (bytes : List UInt8) (value : α) (rest : List UInt8), decode bytes = some (value, rest) →
    (encode value).length + rest.length ≤ bytes.length

variable {α β : Type}

instance (codec : Codec α) : DecidablePred codec.Valid := codec.decidableValid

/-! ## Variable-length numbers -/

def varintBytes : Nat → Nat → List UInt8
  | 0, _ => []
  | more + 1, value =>
    if value < 128 then [UInt8.ofNat value] else UInt8.ofNat (value % 128 + 128) :: varintBytes more (value / 128)

/-- Reads at most so many bytes; the last of these has a maximum of its own. -/
def takeVarint (lastMax : Nat) : Nat → List UInt8 → Option (Nat × List UInt8)
  | 0, _ => none
  | _ + 1, [] => none
  | more + 1, byte :: rest =>
    if byte.toNat < 128 then
      if more = 0 ∧ lastMax < byte.toNat then none else some (byte.toNat, rest)
    else
      match takeVarint lastMax more rest with
      | some (high, rest) => some (byte.toNat - 128 + 128 * high, rest)
      | none => none

theorem takeVarint_varintBytes {lastMax more value : Nat} (small : lastMax < 128) (fits : value < 128 ^ more * (lastMax + 1))
    (rest : List UInt8) : takeVarint lastMax (more + 1) (varintBytes (more + 1) value ++ rest) = some (value, rest) := by
  induction more generalizing value with
  | zero =>
    simp only [pow_zero, one_mul] at fits
    have oneByte : value < 128 := by omega
    have bounded : ¬lastMax < value := by omega
    have exact_value : (UInt8.ofNat value).toNat = value := by
      simp only [UInt8.toNat_ofNat']
      omega
    simp [varintBytes, oneByte, takeVarint, exact_value, bounded]
  | succ more ih =>
    by_cases oneByte : value < 128
    · have exact_value : (UInt8.ofNat value).toNat = value := by
        simp only [UInt8.toNat_ofNat']
        omega
      rw [varintBytes, if_pos oneByte, List.singleton_append, takeVarint, exact_value]
      simp [oneByte]
    · have high : value / 128 < 128 ^ more * (lastMax + 1) := by
        apply Nat.div_lt_of_lt_mul
        calc value < 128 ^ (more + 1) * (lastMax + 1) := fits
          _ = 128 * (128 ^ more * (lastMax + 1)) := by ring
      have low : (UInt8.ofNat (value % 128 + 128)).toNat = value % 128 + 128 := by
        simp only [UInt8.toNat_ofNat']
        omega
      have continued : ¬value % 128 + 128 < 128 := by omega
      have whole : value % 128 + 128 - 128 + 128 * (value / 128) = value := by omega
      rw [varintBytes, if_neg oneByte, List.cons_append, takeVarint, low, if_neg continued, ih high]
      simp only [whole]

theorem length_varintBytes_le {more value larger : Nat} (le : value ≤ larger) :
    (varintBytes more value).length ≤ (varintBytes more larger).length := by
  induction more generalizing value larger with
  | zero => simp [varintBytes]
  | succ more ih =>
    have step := @ih (value / 128) (larger / 128) (Nat.div_le_div_right le)
    by_cases smallValue : value < 128
    · by_cases smallLarger : larger < 128
      · simp [varintBytes, smallValue, smallLarger]
      · simp [varintBytes, smallValue, smallLarger]
    · have large : ¬larger < 128 := by omega
      simpa [varintBytes, smallValue, large] using step

theorem takeVarint_frugal {lastMax more value : Nat} {bytes rest : List UInt8}
    (taken : takeVarint lastMax more bytes = some (value, rest)) :
    (varintBytes more value).length + rest.length ≤ bytes.length := by
  induction more generalizing bytes value with
  | zero => simp [takeVarint] at taken
  | succ more ih =>
    cases bytes with
    | nil => simp [takeVarint] at taken
    | cons byte bytes =>
      rw [takeVarint] at taken
      by_cases last : byte.toNat < 128
      · rw [if_pos last] at taken
        by_cases tooLarge : more = 0 ∧ lastMax < byte.toNat
        · simp [tooLarge] at taken
        · rw [if_neg tooLarge] at taken
          simp only [Option.some.injEq, Prod.mk.injEq] at taken
          obtain ⟨rfl, rfl⟩ := taken
          simp only [varintBytes, last, if_true, List.length_cons, List.length_nil]
          omega
      · rw [if_neg last] at taken
        cases others : takeVarint lastMax more bytes with
        | none => simp [others] at taken
        | some pair =>
          obtain ⟨high, left⟩ := pair
          simp only [others, Option.some.injEq, Prod.mk.injEq] at taken
          obtain ⟨rfl, rfl⟩ := taken
          have tail := ih others
          by_cases oneByte : byte.toNat - 128 + 128 * high < 128
          · simp only [varintBytes, oneByte, if_true, List.length_cons, List.length_nil]
            omega
          · have shifted : (byte.toNat - 128 + 128 * high) / 128 = high := by
              have small := byte.toNat_lt
              omega
            simp only [varintBytes, oneByte, if_false, List.length_cons, shifted]
            omega

/-- Numbers of up to `more + 1` bytes, seven bits in each but the last. -/
def varint (more lastMax : Nat) (small : lastMax < 128) : Codec Nat where
  encode := varintBytes (more + 1)
  decode := takeVarint lastMax (more + 1)
  Valid value := value < 128 ^ more * (lastMax + 1)
  decode_encode _ rest fits := takeVarint_varintBytes small fits rest
  frugal _ _ _ taken := takeVarint_frugal taken

/-! ## Combinations -/

namespace Codec

def pair (first : Codec α) (second : Codec β) : Codec (α × β) where
  encode value := first.encode value.1 ++ second.encode value.2
  decode bytes :=
    match first.decode bytes with
    | none => none
    | some (left, bytes) =>
      match second.decode bytes with
      | none => none
      | some (right, bytes) => some ((left, right), bytes)
  Valid value := first.Valid value.1 ∧ second.Valid value.2
  decode_encode value rest valid := by
    rw [List.append_assoc, first.decode_encode _ _ valid.1]
    simp only [second.decode_encode _ _ valid.2]
  frugal bytes value rest decoded := by
    cases left : first.decode bytes with
    | none => simp [left] at decoded
    | some leftPair =>
      obtain ⟨leftValue, middle⟩ := leftPair
      cases right : second.decode middle with
      | none => simp [left, right] at decoded
      | some rightPair =>
        obtain ⟨rightValue, final⟩ := rightPair
        simp only [left, right, Option.some.injEq, Prod.mk.injEq] at decoded
        obtain ⟨rfl, rfl⟩ := decoded
        have leftFrugal := first.frugal _ _ _ left
        have rightFrugal := second.frugal _ _ _ right
        simp only [List.length_append]
        omega

/-- Values that are written as values of another codec, which need not all stand for one. -/
def through (codec : Codec α) (toValue : α → Option β) (ofValue : β → α) (restore : ∀ value, toValue (ofValue value) = some value)
    (unique : ∀ raw value, toValue raw = some value → ofValue value = raw) : Codec β where
  encode value := codec.encode (ofValue value)
  decode bytes :=
    match codec.decode bytes with
    | none => none
    | some (raw, bytes) => (toValue raw).map fun value => (value, bytes)
  Valid value := codec.Valid (ofValue value)
  decode_encode value rest valid := by
    rw [codec.decode_encode _ _ valid]
    simp [restore]
  frugal bytes value rest decoded := by
    cases read : codec.decode bytes with
    | none => simp [read] at decoded
    | some pair =>
      obtain ⟨raw, left⟩ := pair
      simp only [read, Option.map_eq_some_iff, Prod.mk.injEq] at decoded
      obtain ⟨found, isValue, rfl, rfl⟩ := decoded
      rw [unique raw found isValue]
      exact codec.frugal _ _ _ read

/-- Records that are written as the tuple of their fields. -/
def record (codec : Codec α) (build : α ≃ β) : Codec β :=
  codec.through (fun raw => some (build raw)) build.symm (by simp) fun raw value found => by
    simp only [Option.some.injEq] at found
    rw [← found, build.symm_apply_apply]

theorem pair_decode_append (first : Codec α) (second : Codec β) {value : α} (valid : first.Valid value)
    (bytes : List UInt8) : (first.pair second).decode (first.encode value ++ bytes) =
      (second.decode bytes).map fun found => ((value, found.1), found.2) := by
  simp only [pair, first.decode_encode _ _ valid]
  cases second.decode bytes with
  | none => rfl
  | some found => rfl

theorem record_decode (codec : Codec α) (build : α ≃ β) (bytes : List UInt8) :
    (codec.record build).decode bytes = (codec.decode bytes).map fun found => (build found.1, found.2) := by
  simp only [record, through]
  cases codec.decode bytes with
  | none => rfl
  | some found => rfl

def option (codec : Codec α) : Codec (Option α) where
  encode
    | none => [0]
    | some value => 1 :: codec.encode value
  decode
    | [] => none
    | tag :: bytes =>
      if tag = 0 then some (none, bytes)
      else if tag = 1 then
        match codec.decode bytes with
        | none => none
        | some (inner, bytes) => some (some inner, bytes)
      else none
  Valid value := ∀ inner ∈ value, codec.Valid inner
  decode_encode value rest valid := by
    cases value with
    | none => rfl
    | some inner => simp [codec.decode_encode inner rest (valid inner rfl)]
  frugal bytes value rest decoded := by
    cases bytes with
    | nil => simp at decoded
    | cons tag bytes =>
      by_cases isNone : tag = 0
      · simp only [isNone, if_true, Option.some.injEq, Prod.mk.injEq] at decoded
        obtain ⟨rfl, rfl⟩ := decoded
        simp [Nat.add_comm]
      · by_cases isSome : tag = 1
        · simp only [if_neg isNone, if_pos isSome] at decoded
          cases read : codec.decode bytes with
          | none => simp [read] at decoded
          | some pair =>
            obtain ⟨inner, left⟩ := pair
            simp only [read, Option.some.injEq, Prod.mk.injEq] at decoded
            obtain ⟨rfl, rfl⟩ := decoded
            have frugal := codec.frugal _ _ _ read
            simp only [List.length_cons]
            omega
        · simp [isNone, isSome] at decoded

/-- A byte as it is. -/
def byte : Codec UInt8 where
  encode value := [value]
  decode
    | [] => none
    | value :: rest => some (value, rest)
  Valid _ := True
  decode_encode value rest _ := by simp
  frugal bytes value rest decoded := by
    cases bytes with
    | nil => simp at decoded
    | cons first others =>
      simp only [Option.some.injEq, Prod.mk.injEq] at decoded
      obtain ⟨_, rfl⟩ := decoded
      simp [Nat.add_comm]

/-- So many raw bytes. -/
def raw (count : Nat) : Codec (List UInt8) where
  encode value := value
  decode bytes := if count ≤ bytes.length then some (bytes.take count, bytes.drop count) else none
  Valid value := value.length = count
  decode_encode value rest valid := by
    subst valid
    simp
  frugal bytes value rest decoded := by
    by_cases long : count ≤ bytes.length
    · simp only [long, if_true, Option.some.injEq, Prod.mk.injEq] at decoded
      obtain ⟨rfl, rfl⟩ := decoded
      rw [← List.length_append, List.take_append_drop]
    · simp [long] at decoded

end Codec

/-! ## Sequences -/

def takeMany (codec : Codec α) : Nat → List UInt8 → Option (List α × List UInt8)
  | 0, bytes => some ([], bytes)
  | count + 1, bytes =>
    match codec.decode bytes with
    | none => none
    | some (value, bytes) =>
      match takeMany codec count bytes with
      | none => none
      | some (values, bytes) => some (value :: values, bytes)

theorem takeMany_encoded (codec : Codec α) {values : List α} (valid : ∀ value ∈ values, codec.Valid value)
    (rest : List UInt8) : takeMany codec values.length (values.flatMap codec.encode ++ rest) = some (values, rest) := by
  induction values with
  | nil => rfl
  | cons value values ih =>
    have others := ih fun other member => valid other (by simp [member])
    rw [List.length_cons, takeMany, List.flatMap_cons, List.append_assoc, codec.decode_encode _ _ (valid value (by simp))]
    simp only [others]

theorem takeMany_frugal (codec : Codec α) {count : Nat} {bytes rest : List UInt8} {values : List α}
    (taken : takeMany codec count bytes = some (values, rest)) :
    values.length = count ∧ (values.flatMap codec.encode).length + rest.length ≤ bytes.length := by
  induction count generalizing bytes values with
  | zero =>
    simp only [takeMany, Option.some.injEq, Prod.mk.injEq] at taken
    obtain ⟨rfl, rfl⟩ := taken
    simp
  | succ count ih =>
    rw [takeMany] at taken
    cases first : codec.decode bytes with
    | none => simp [first] at taken
    | some pair =>
      obtain ⟨value, middle⟩ := pair
      cases others : takeMany codec count middle with
      | none => simp [first, others] at taken
      | some pair =>
        obtain ⟨values', left⟩ := pair
        simp only [first, others, Option.some.injEq, Prod.mk.injEq] at taken
        obtain ⟨rfl, rfl⟩ := taken
        obtain ⟨counted, tail⟩ := ih others
        have head := codec.frugal _ _ _ first
        constructor
        · simp [counted]
        · simp only [List.flatMap_cons, List.length_append]
          omega

namespace Codec

/-- A count, and as many values. -/
def list (more lastMax : Nat) (small : lastMax < 128) (codec : Codec α) : Codec (List α) where
  encode values := varintBytes (more + 1) values.length ++ values.flatMap codec.encode
  decode bytes :=
    match takeVarint lastMax (more + 1) bytes with
    | none => none
    | some (count, bytes) => takeMany codec count bytes
  Valid values := values.length < 128 ^ more * (lastMax + 1) ∧ ∀ value ∈ values, codec.Valid value
  decode_encode values rest valid := by
    rw [List.append_assoc, takeVarint_varintBytes small valid.1]
    exact takeMany_encoded codec valid.2 rest
  frugal bytes values rest decoded := by
    cases read : takeVarint lastMax (more + 1) bytes with
    | none => simp [read] at decoded
    | some pair =>
      obtain ⟨count, left⟩ := pair
      simp only [read] at decoded
      obtain ⟨rfl, frugal⟩ := takeMany_frugal codec decoded
      have countFrugal := takeVarint_frugal read
      simp only [List.length_append]
      omega

end Codec

/-! ## Maps -/

section Maps

variable {κ ν : Type} [Ord κ] [TransOrd κ]

/-- Inserts the entries one after another. -/
def collect (entries : List (κ × ν)) : ExtTreeMap κ ν :=
  entries.foldl (fun map entry => map.insert entry.1 entry.2) ∅

theorem nodup_keys_toList (map : ExtTreeMap κ ν) : (map.toList.map Prod.fst).Nodup := by
  rw [ExtTreeMap.map_fst_toList_eq_keys]
  exact map.nodup_keys

variable [LawfulEqOrd κ] [DecidableEq κ]

theorem foldl_insert_of_notMem {entries : List (κ × ν)} {map : ExtTreeMap κ ν} {key : κ}
    (absent : key ∉ entries.map Prod.fst) :
    (entries.foldl (fun map entry => map.insert entry.1 entry.2) map)[key]? = map[key]? := by
  induction entries generalizing map with
  | nil => rfl
  | cons entry entries ih =>
    simp only [List.map_cons, List.mem_cons, not_or] at absent
    rw [List.foldl_cons, ih absent.2, getElem?_insert, if_neg (Ne.symm absent.1)]

theorem foldl_insert_of_mem {entries : List (κ × ν)} {map : ExtTreeMap κ ν} {key : κ} {value : ν}
    (nodup : (entries.map Prod.fst).Nodup) (member : (key, value) ∈ entries) :
    (entries.foldl (fun map entry => map.insert entry.1 entry.2) map)[key]? = some value := by
  induction entries generalizing map with
  | nil => simp at member
  | cons entry entries ih =>
    rw [List.map_cons, List.nodup_cons] at nodup
    rw [List.foldl_cons]
    cases List.mem_cons.mp member with
    | inl first =>
      subst first
      rw [foldl_insert_of_notMem nodup.1, getElem?_insert, if_pos rfl]
    | inr later => exact ih nodup.2 later

theorem mem_of_foldl_insert {entries : List (κ × ν)} {map : ExtTreeMap κ ν} {key : κ} {value : ν}
    (found : (entries.foldl (fun map entry => map.insert entry.1 entry.2) map)[key]? = some value) :
    (key, value) ∈ entries ∨ map[key]? = some value := by
  induction entries generalizing map with
  | nil => exact Or.inr found
  | cons entry entries ih =>
    cases ih found with
    | inl later => exact Or.inl (List.mem_cons_of_mem _ later)
    | inr before =>
      rw [getElem?_insert] at before
      by_cases same : entry.1 = key
      · rw [if_pos same, Option.some.injEq] at before
        left
        simp [← same, ← before]
      · rw [if_neg same] at before
        exact Or.inr before

theorem collect_toList (map : ExtTreeMap κ ν) : collect map.toList = map := by
  apply ExtTreeMap.ext_getElem?
  intro key
  cases found : map[key]? with
  | none =>
    have absent : key ∉ map.toList.map Prod.fst := by
      rw [ExtTreeMap.map_fst_toList_eq_keys, ExtTreeMap.mem_keys, mem_iff_exists, found]
      simp
    rw [collect, foldl_insert_of_notMem absent]
    simp
  | some value =>
    have member : (key, value) ∈ map.toList := ExtTreeMap.mem_toList_iff_getElem?_eq_some.mpr found
    exact foldl_insert_of_mem (nodup_keys_toList map) member

theorem collect_map_toList {ν' : Type} (map : ExtTreeMap κ ν) (f : ν → ν') :
    collect (map.toList.map fun entry => (entry.1, f entry.2)) = map.map fun _ value => f value := by
  have whole := collect_toList (map.map fun _ value => f value)
  rwa [ExtTreeMap.toList_map] at whole

theorem toList_collect_subperm (entries : List (κ × ν)) : List.Subperm (collect entries).toList entries := by
  apply List.subperm_of_subset
  · exact (nodup_keys_toList _).of_map
  · intro entry member
    have found : (collect entries)[entry.1]? = some entry.2 := ExtTreeMap.mem_toList_iff_getElem?_eq_some.mp member
    cases mem_of_foldl_insert found with
    | inl inEntries => exact inEntries
    | inr inEmpty => simp at inEmpty

theorem length_flatMap_le_of_subperm {f : α → List UInt8} {few many : List α} (subperm : List.Subperm few many) :
    (few.flatMap f).length ≤ (many.flatMap f).length := by
  obtain ⟨between, perm, sublist⟩ := subperm
  rw [← (perm.flatMap_right f).length_eq, List.length_flatMap, List.length_flatMap]
  exact (sublist.map _).sum_le_sum (by simp)

namespace Codec

/-- Maps are written as the list of their entries; entries of one key override each other when they are read. -/
def map (more lastMax : Nat) (small : lastMax < 128) (entry : Codec (κ × ν)) : Codec (ExtTreeMap κ ν) where
  encode value := (Codec.list more lastMax small entry).encode value.toList
  decode bytes :=
    match (Codec.list more lastMax small entry).decode bytes with
    | none => none
    | some (entries, bytes) => some (collect entries, bytes)
  Valid value := (Codec.list more lastMax small entry).Valid value.toList
  decode_encode value rest valid := by
    rw [(Codec.list more lastMax small entry).decode_encode _ _ valid]
    simp only [collect_toList]
  frugal bytes value rest decoded := by
    cases read : (Codec.list more lastMax small entry).decode bytes with
    | none => simp [read] at decoded
    | some pair =>
      obtain ⟨entries, left⟩ := pair
      simp only [read, Option.some.injEq, Prod.mk.injEq] at decoded
      obtain ⟨rfl, rfl⟩ := decoded
      have frugal := (Codec.list more lastMax small entry).frugal _ _ _ read
      have subperm := toList_collect_subperm entries
      have fewer := @length_varintBytes_le (more + 1) _ _ subperm.length_le
      have shorter := @length_flatMap_le_of_subperm _ entry.encode _ _ subperm
      simp only [Codec.list, List.length_append] at frugal ⊢
      omega

end Codec

end Maps

end MjFormatter.Library.Codecs
