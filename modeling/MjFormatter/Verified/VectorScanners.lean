import MjFormatter.Parser.VectorScan

/-! # Vectors and single bytes agree

Each comparison of vectors is a mask of the answers for its bytes, and the questions about masks are answered in the same way on both
architectures.  With the rule for loops over chunks this makes the scanners equal to what they do byte by byte, and no load reads
outside of the bytes. -/

namespace MjFormatter.Verified

open Library Lanes

/-! ## Questions about masks -/

theorem allSet_mask (arch : SimdArch) (holds : Vector Bool 16) : allSet arch (mask holds) = holds.toList.all id := by
  rw [Bool.eq_iff_iff]
  cases arch with
  | sse2 => exact decide_eq_true_iff.trans (highBits_full_iff holds)
  | neon => exact decide_eq_true_iff.trans (least_full_iff holds)

theorem allLanesSet_mask (arch : SimdArch) (holds : Vector Bool 16) : allLanesSet arch (mask holds) = holds.toList.all id := by
  rw [Bool.eq_iff_iff]
  cases arch with
  | sse2 => exact decide_eq_true_iff.trans (highBits_full_iff holds)
  | neon =>
    rw [allLanesSet, Bool.and_eq_true, decide_eq_true_eq, decide_eq_true_eq]
    exact halves_full_iff holds

theorem firstClear_mask (arch : SimdArch) (holds : Vector Bool 16) :
    firstClear arch (mask holds) = if holds.toList.all id then none else some (holds.toList.findIdx (!·)) := by
  cases arch with
  | sse2 =>
    rw [firstClear, highBits_mask, BitMasks.trailingZeros_not holds.toList (by rw [Vector.length_toList]; decide), ← highBits_mask]
    exact if_congr (highBits_full_iff holds) rfl rfl
  | neon =>
    rw [firstClear, findIdx_mask]
    exact if_congr (least_full_iff holds) rfl rfl

theorem halfPositions_mask {holds : Vector Bool 16} {start : Nat} (inside : start + 8 ≤ 16) (base : Nat) :
    halfPositions (Bytes.ofLe ((Bytes.slice holds.toList start 8).map maskByte)) base =
      (Bytes.slice holds.toList start 8).findIdxs id base := by
  have found := Bytes.filter_range_ofLe ((Bytes.slice holds.toList start 8).map maskByte)
  rw [List.length_map, length_half inside, List.findIdxs_map] at found
  have same : (fun byte : UInt8 => decide (byte ≠ 0)) ∘ maskByte = id := by
    funext answer
    cases answer <;> rfl
  rw [same] at found
  rw [halfPositions, found, List.findIdxs_start (s := base)]
  split
  · exact List.map_congr_left fun place _ => Nat.add_comm base place
  · rename_i zero
    rw [not_not.mp zero] at found
    rw [← found]
    simp

theorem setPositions_mask (arch : SimdArch) (holds : Vector Bool 16) (offset : Nat) :
    setPositions arch (mask holds) offset = holds.toList.findIdxs id offset := by
  cases arch with
  | sse2 =>
    rw [setPositions, highBits_mask, BitMasks.takeBits_ofBits, List.findIdxs_start (s := offset)]
    exact List.map_congr_left fun place _ => Nat.add_comm offset place
  | neon =>
    rw [setPositions, half_mask, half_mask, halfPositions_mask (by decide), halfPositions_mask (by decide)]
    have first : (Bytes.slice holds.toList (8 * 0) 8).length = 8 := length_half (by decide)
    have joined : holds.toList.findIdxs id offset = _ :=
      (congrArg (List.findIdxs id · offset) (halves_append holds)).symm.trans List.findIdxs_append
    rw [joined, show (Bytes.slice holds.toList 0 8).length = 8 from first]

/-! ## Answers for the bytes -/

theorem exists_load {bytes : List UInt8} {offset : Nat} (inside : offset + 16 ≤ bytes.length) :
    ∃ lanes, load bytes offset = some lanes ∧ lanes.toList = Bytes.slice bytes offset 16 :=
  Option.map_eq_some_iff.mp (toList_load inside)

theorem all_zipWith_and {left right : List Bool} (same : left.length = right.length) :
    (List.zipWith (· && ·) left right).all id = (left.all id && right.all id) := by
  induction left generalizing right with
  | nil =>
    obtain rfl := List.eq_nil_of_length_eq_zero same.symm
    rfl
  | cons first left ih =>
    cases right with
    | nil => cases same
    | cons second right =>
      rw [List.zipWith_cons_cons, List.all_cons, List.all_cons, List.all_cons, ih (Nat.succ.inj same)]
      cases first <;> cases second <;> simp

theorem all_both (left right : Vector Bool 16) :
    (Vector.zipWith (· && ·) left right).toList.all id = (left.toList.all id && right.toList.all id) := by
  rw [Vector.toList_zipWith]
  exact all_zipWith_and (by rw [Vector.length_toList, Vector.length_toList])

/-! ## Comparisons everywhere -/

section
variable {α : Type*} {items : List α} {holds : α → Bool} {compare : Nat → Option Lanes}

/-- A comparison answers for sixteen items. -/
def Compares (items : List α) (holds : α → Bool) (compare : Nat → Option Lanes) : Prop :=
  ∀ offset, offset + 16 ≤ items.length →
    ∃ answers, compare offset = some (mask answers) ∧ answers.toList = (Bytes.slice items offset 16).map holds

theorem all_answers {answers : Vector Bool 16} {offset : Nat} (known : answers.toList = (Bytes.slice items offset 16).map holds) :
    answers.toList.all id = (Bytes.slice items offset 16).all holds := by
  rw [known, List.all_map]
  rfl

theorem turn_single (arch : SimdArch) (compares : Compares items holds compare) {offset : Nat} (inside : offset + 16 ≤ items.length) :
    (do
      let cmp ← compare offset
      return if allSet arch cmp then none else some false) = some (exitUnless holds offset (Bytes.slice items offset 16)) := by
  obtain ⟨answers, compared, known⟩ := compares offset inside
  rw [compared, Option.bind_eq_bind, Option.bind_some, allSet_mask, all_answers known]
  rfl

theorem turn_four (arch : SimdArch) (compares : Compares items holds compare) {offset : Nat} (inside : offset + 64 ≤ items.length) :
    (do
      let c0 ← compare offset
      let c1 ← compare (offset + 16)
      let c2 ← compare (offset + 32)
      let c3 ← compare (offset + 48)
      let merged := both (both c0 c1) (both c2 c3)
      return if allSet arch merged then none else some false) = some (exitUnless holds offset (Bytes.slice items offset 64)) := by
  obtain ⟨answers0, compared0, known0⟩ := compares offset (by omega)
  obtain ⟨answers1, compared1, known1⟩ := compares (offset + 16) (by omega)
  obtain ⟨answers2, compared2, known2⟩ := compares (offset + 32) (by omega)
  obtain ⟨answers3, compared3, known3⟩ := compares (offset + 48) (by omega)
  have split : Bytes.slice items offset 64 = (Bytes.slice items offset 16 ++ Bytes.slice items (offset + 16) 16) ++
      (Bytes.slice items (offset + 32) 16 ++ Bytes.slice items (offset + 48) 16) := by
    rw [show 64 = 16 + 16 + (16 + 16) from rfl, slice_add, slice_add, slice_add]
  simp only [compared0, compared1, compared2, compared3, Option.bind_eq_bind, Option.bind_some, both_mask, allSet_mask, all_both]
  rw [all_answers known0, all_answers known1, all_answers known2, all_answers known3, exitUnless, split, List.all_append,
    List.all_append, List.all_append]
  rfl

theorem alignDown_eq (length bits : Nat) : alignDown length bits = length / 2 ^ bits * 2 ^ bits := by
  rw [alignDown, Nat.shiftRight_eq_div_pow, Nat.shiftLeft_eq]

/-- The list is what the loops go over and the tail. -/
theorem all_split (items : List α) (holds : α → Bool) (middle last : Nat) (ordered : middle ≤ last) :
    items.all holds = ((Bytes.slice items 0 middle).all holds && ((Bytes.slice items middle (last - middle)).all holds &&
      (items.drop last).all holds)) := by
  have rest : items.drop middle = Bytes.slice items middle (last - middle) ++ items.drop last := by
    rw [Bytes.slice, show last = middle + (last - middle) by omega, ← List.drop_drop, Nat.add_sub_cancel_left,
      List.take_append_drop]
  rw [← List.all_append, ← rest, ← List.all_append, Bytes.slice, List.drop_zero, List.take_append_drop]

theorem loop_wide (arch : SimdArch) (compares : Compares items holds compare) :
    chunkLoop 64 (alignDown items.length 6) (fun offset => do
      let c0 ← compare offset
      let c1 ← compare (offset + 16)
      let c2 ← compare (offset + 32)
      let c3 ← compare (offset + 48)
      let merged := both (both c0 c1) (both c2 c3)
      return if allSet arch merged then none else some false) 0 =
    some (exitAt (items.length / 64 * 64) (exitUnless holds 0 (Bytes.slice items 0 (items.length / 64 * 64)))) := by
  have aligned := alignDown_eq items.length 6
  have looped := chunkLoop_eq (exitScan_exitUnless holds) (fun offset inside => turn_four arch compares inside)
    (items.length / 64) 0 (by omega : alignDown items.length 6 ≤ _) (by omega) (by omega)
  rwa [Nat.zero_add] at looped

theorem loop_narrow (arch : SimdArch) (compares : Compares items holds compare) :
    chunkLoop 16 (alignDown items.length 4) (fun offset => do
      let cmp ← compare offset
      return if allSet arch cmp then none else some false) (items.length / 64 * 64) =
    some (exitAt (items.length / 16 * 16) (exitUnless holds (items.length / 64 * 64)
      (Bytes.slice items (items.length / 64 * 64) (items.length / 16 * 16 - items.length / 64 * 64)))) := by
  have aligned := alignDown_eq items.length 4
  have looped := chunkLoop_eq (exitScan_exitUnless holds) (fun offset inside => turn_single arch compares inside)
    ((items.length / 16 * 16 - items.length / 64 * 64) / 16) (items.length / 64 * 64)
    (by omega : alignDown items.length 4 ≤ _) (by omega) (by omega)
  have stretch : (items.length / 16 * 16 - items.length / 64 * 64) / 16 * 16 =
      items.length / 16 * 16 - items.length / 64 * 64 := by omega
  have last : items.length / 64 * 64 + (items.length / 16 * 16 - items.length / 64 * 64) = items.length / 16 * 16 := by omega
  rwa [stretch, last] at looped

theorem comparesEverywhere_eq (arch : SimdArch) (compares : Compares items holds compare) {tail : Nat → Bool}
    (rest : ∀ offset, tail offset = (items.drop offset).all holds) :
    comparesEverywhere arch items.length compare tail = some (items.all holds) := by
  rw [comparesEverywhere, loop_wide arch compares, all_split items holds (items.length / 64 * 64) (items.length / 16 * 16) (by omega),
    Option.bind_eq_bind, Option.bind_some]
  cases front : (Bytes.slice items 0 (items.length / 64 * 64)).all holds with
  | false =>
    rw [exitUnless, front]
    rfl
  | true =>
    rw [exitUnless, front, if_pos rfl]
    dsimp only [exitAt]
    rw [loop_narrow arch compares, Option.bind_some]
    cases middle : (Bytes.slice items (items.length / 64 * 64) (items.length / 16 * 16 - items.length / 64 * 64)).all holds with
    | false =>
      rw [exitUnless, middle]
      rfl
    | true =>
      rw [exitUnless, middle, if_pos rfl, Bool.true_and, Bool.true_and]
      exact congrArg some (rest _)

end

/-! ## The scanners of text -/

theorem compares_target (bytes : List UInt8) (target : UInt8) : Compares bytes (· == target) fun offset => do
    let chunk ← load bytes offset
    return equal chunk (splat target) := by
  intro offset inside
  obtain ⟨chunk, loaded, known⟩ := exists_load inside
  refine ⟨chunk.map (· == target), ?_, ?_⟩
  · simp only [loaded, Option.bind_eq_bind, Option.bind_some, equal_splat, Option.pure_def]
  · rw [Vector.toList_map, known]

theorem allBytesEqualVector_eq (arch : SimdArch) (bytes : List UInt8) (target : UInt8) :
    allBytesEqualVector arch bytes target = some (allBytesEqualScalar bytes target) := by
  rw [allBytesEqualVector]
  split
  · rfl
  · exact comparesEverywhere_eq arch (compares_target bytes target) fun _ => rfl

theorem all_zip_eq {a b : List UInt8} (same : a.length = b.length) : (a.zip b).all (fun pair => pair.1 == pair.2) = (a == b) := by
  induction a generalizing b with
  | nil =>
    obtain rfl := List.eq_nil_of_length_eq_zero same.symm
    rfl
  | cons first a ih =>
    cases b with
    | nil => cases same
    | cons second b =>
      rw [List.zip_cons_cons, List.all_cons, ih (Nat.succ.inj same)]
      rfl

theorem drop_zip (a b : List UInt8) (count : Nat) : (a.zip b).drop count = (a.drop count).zip (b.drop count) :=
  List.drop_zipWith

theorem slice_zip (a b : List UInt8) (start length : Nat) :
    Bytes.slice (a.zip b) start length = (Bytes.slice a start length).zip (Bytes.slice b start length) := by
  rw [Bytes.slice, drop_zip]
  exact List.take_zipWith

theorem slicesEqualVector_eq (arch : SimdArch) {a b : List UInt8} (same : a.length = b.length) :
    slicesEqualVector arch a b = some (a == b) := by
  have length : (a.zip b).length = a.length := by rw [List.length_zip, ← same, Nat.min_self]
  rw [slicesEqualVector]
  split
  · rfl
  · rw [← all_zip_eq same, ← length]
    refine comparesEverywhere_eq arch ?_ fun offset => ?_
    · intro offset inside
      rw [length] at inside
      obtain ⟨av, loadedA, knownA⟩ := exists_load inside
      obtain ⟨bv, loadedB, knownB⟩ := exists_load (same ▸ inside)
      refine ⟨Vector.zipWith (· == ·) av bv, ?_, ?_⟩
      · simp only [loadedA, loadedB, Option.bind_eq_bind, Option.bind_some, equal_eq_mask, Option.pure_def]
      · rw [Vector.toList_zipWith, knownA, knownB, slice_zip, List.zip, List.map_zipWith]
    · rw [drop_zip]
      exact (all_zip_eq (by rw [List.length_drop, List.length_drop, same])).symm

theorem turn_blank (arch : SimdArch) {bytes : List UInt8} {offset : Nat} (inside : offset + 16 ≤ bytes.length) :
    (do
      let chunk ← load bytes offset
      let cmp := either (equal chunk (splat ' '.val.toUInt8)) (equal chunk (splat '\t'.val.toUInt8))
      return (firstClear arch cmp).map (offset + ·)) =
    some (exitAtFailure isBlankByte offset (Bytes.slice bytes offset 16)) := by
  obtain ⟨chunk, loaded, known⟩ := exists_load inside
  have blank : either (equal chunk (splat ' '.val.toUInt8)) (equal chunk (splat '\t'.val.toUInt8)) =
      mask (chunk.map isBlankByte) := by
    rw [equal_splat, equal_splat, either_mask]
    refine congrArg mask (Vector.ext fun lane bound => ?_)
    simp only [Vector.getElem_zipWith, Vector.getElem_map, isBlankByte]
  simp only [loaded, Option.bind_eq_bind, Option.bind_some, blank, firstClear_mask, Vector.toList_map, known, Option.pure_def,
    exitAtFailure, List.all_map, List.findIdx_map, Function.comp_def, id_eq]
  split <;> rfl

theorem leadingWhitespaceByteCountScalar_eq (bytes : List UInt8) :
    leadingWhitespaceByteCountScalar bytes = bytes.findIdx (!isBlankByte ·) := by
  rw [leadingWhitespaceByteCountScalar, List.takeWhile_eq_take_findIdx_not, List.length_take]
  exact Nat.min_eq_left List.findIdx_le_length

theorem leadingWhitespaceByteCountVector_eq (arch : SimdArch) (bytes : List UInt8) :
    leadingWhitespaceByteCountVector arch bytes = some (leadingWhitespaceByteCountScalar bytes) := by
  rw [leadingWhitespaceByteCountVector]
  split
  · rfl
  · have looped := chunkLoop_eq (exitScan_exitAtFailure isBlankByte) (fun offset (inside : offset + 16 ≤ bytes.length) =>
      turn_blank arch inside)
      (bytes.length / 16) 0 (by omega : bytes.length - 15 ≤ _) (by omega) (by omega)
    rw [Nat.zero_add] at looped
    rw [looped, Option.bind_eq_bind, Option.bind_some]
    have split : Bytes.slice bytes 0 (bytes.length / 16 * 16) ++ bytes.drop (bytes.length / 16 * 16) = bytes := by
      rw [Bytes.slice, List.drop_zero, List.take_append_drop]
    have whole := leadingWhitespaceByteCountScalar_eq bytes
    rw [← split, List.findIdx_append] at whole
    rw [split] at whole
    have length : (Bytes.slice bytes 0 (bytes.length / 16 * 16)).length = bytes.length / 16 * 16 := Bytes.length_slice (by omega)
    have first := findIdx_not_lt_iff isBlankByte (Bytes.slice bytes 0 (bytes.length / 16 * 16))
    cases known : (Bytes.slice bytes 0 (bytes.length / 16 * 16)).all isBlankByte with
    | true =>
      rw [known] at first
      rw [if_neg fun below => Bool.noConfusion (first.mp below), length] at whole
      rw [exitAtFailure, known, if_pos rfl, whole, Nat.add_comm]
      exact congrArg (fun count => some (_ + count)) (leadingWhitespaceByteCountScalar_eq _)
    | false =>
      rw [if_pos (first.mpr known)] at whole
      rw [exitAtFailure, known, whole, Nat.zero_add]
      rfl

/-! ## The classifiers -/

theorem sub_le_iff (byte first span : UInt8) (fits : first.toNat + span.toNat < 256) :
    byte - first ≤ span ↔ first ≤ byte ∧ byte ≤ first + span := by
  have small := byte.toNat_lt
  have firstSmall := first.toNat_lt
  rw [UInt8.le_iff_toNat_le, UInt8.le_iff_toNat_le, UInt8.le_iff_toNat_le, UInt8.toNat_sub, UInt8.toNat_add]
  omega

theorem within_mask (arch : SimdArch) (lanes : Lanes) (first span : UInt8) :
    within arch lanes first span = mask (lanes.map fun byte => decide (byte - first ≤ span)) := by
  have compared : atMost (minus lanes (splat first)) (splat span) = mask (lanes.map fun byte => decide (byte - first ≤ span)) := by
    rw [atMost_eq_mask]
    refine congrArg mask (Vector.ext fun lane bound => ?_)
    simp only [minus, splat, Vector.getElem_zipWith, Vector.getElem_replicate, Vector.getElem_map]
  cases arch with
  | sse2 => exact (equal_smaller _ _).trans compared
  | neon => exact compared

theorem isAsciiUppercase_eq (byte : UInt8) : decide (byte - 'A'.val.toUInt8 ≤ 25) = isAsciiUppercase byte := by
  rw [isAsciiUppercase, ← Bool.decide_and]
  exact decide_eq_decide.mpr (sub_le_iff byte 'A'.val.toUInt8 25 (by decide))

theorem isAsciiLowercase_eq (byte : UInt8) : decide (byte - 'a'.val.toUInt8 ≤ 25) = isAsciiLowercase byte := by
  rw [isAsciiLowercase, ← Bool.decide_and]
  exact decide_eq_decide.mpr (sub_le_iff byte 'a'.val.toUInt8 25 (by decide))

theorem isAsciiDigit_eq (byte : UInt8) : decide (byte - '0'.val.toUInt8 ≤ 9) = isAsciiDigit byte := by
  rw [isAsciiDigit, ← Bool.decide_and]
  exact decide_eq_decide.mpr (sub_le_iff byte '0'.val.toUInt8 9 (by decide))

theorem turn_case (arch : SimdArch) {firstLetter : UInt8} {isLetter : UInt8 → Bool}
    (letters : ∀ byte : UInt8, decide (byte - firstLetter ≤ 25) = isLetter byte) {bytes : List UInt8} {offset : Nat}
    (inside : offset + 16 ≤ bytes.length) :
    (do
      let v ← load bytes offset
      let isLetter := within arch v firstLetter 25
      let isDigit := within arch v '0'.val.toUInt8 9
      let isUnder := equal v (splat '_'.val.toUInt8)
      let valid := either (either isLetter isDigit) isUnder
      return if allLanesSet arch valid then none else some false) =
    some (exitUnless (fun byte => isLetter byte || isAsciiDigit byte || byte == '_'.val.toUInt8) offset
      (Bytes.slice bytes offset 16)) := by
  obtain ⟨v, loaded, known⟩ := exists_load inside
  have valid : either (either (within arch v firstLetter 25) (within arch v '0'.val.toUInt8 9))
      (equal v (splat '_'.val.toUInt8)) =
        mask (v.map fun byte => isLetter byte || isAsciiDigit byte || byte == '_'.val.toUInt8) := by
    rw [within_mask, within_mask, equal_splat, either_mask, either_mask]
    refine congrArg mask (Vector.ext fun lane bound => ?_)
    simp only [Vector.getElem_zipWith, Vector.getElem_map, letters, isAsciiDigit_eq]
  simp only [loaded, Option.bind_eq_bind, Option.bind_some, valid, allLanesSet_mask, Vector.toList_map, known, Option.pure_def,
    exitUnless, List.all_map, Function.comp_def, id_eq]

theorem isCaseVector_eq (arch : SimdArch) {firstLetter : UInt8} {isLetter : UInt8 → Bool}
    (letters : ∀ byte : UInt8, decide (byte - firstLetter ≤ 25) = isLetter byte) (bytes : List UInt8) :
    isCaseVector arch firstLetter (fun rest => rest.all fun byte => isLetter byte || isAsciiDigit byte || byte == '_'.val.toUInt8)
      bytes = some (bytes.all fun byte => isLetter byte || isAsciiDigit byte || byte == '_'.val.toUInt8) := by
  have looped := chunkLoop_eq (exitScan_exitUnless fun byte => isLetter byte || isAsciiDigit byte || byte == '_'.val.toUInt8)
    (fun offset (inside : offset + 16 ≤ bytes.length) => turn_case arch letters inside) (bytes.length / 16) 0
    (by omega : bytes.length / 16 * 16 ≤ _) (by omega) (by omega)
  rw [Nat.zero_add] at looped
  rw [isCaseVector]
  dsimp only
  rw [looped, Option.bind_eq_bind, Option.bind_some]
  have parts : bytes.all (fun byte => isLetter byte || isAsciiDigit byte || byte == '_'.val.toUInt8) = _ :=
    all_split bytes _ 0 (bytes.length / 16 * 16) (Nat.zero_le _)
  rw [Nat.sub_zero] at parts
  rw [parts]
  cases front : (Bytes.slice bytes 0 (bytes.length / 16 * 16)).all
      fun byte => isLetter byte || isAsciiDigit byte || byte == '_'.val.toUInt8 with
  | true =>
    rw [exitUnless, front]
    rfl
  | false =>
    rw [exitUnless, front]
    rfl

theorem positions_zipIdx (bytes : List UInt8) (start : Nat) :
    ((bytes.zipIdx start).filter fun entry => isAsciiUppercase entry.1).map Prod.snd = bytes.findIdxs isAsciiUppercase start := by
  induction bytes generalizing start with
  | nil => rfl
  | cons byte rest ih =>
    rw [List.zipIdx_cons, List.filter_cons, List.findIdxs_cons, ← ih]
    split <;> rfl

theorem uppercasePositionsFrom_eq (bytes : List UInt8) (skipped : Nat) :
    uppercasePositionsFrom bytes skipped = (bytes.drop skipped).findIdxs isAsciiUppercase skipped := by
  have dropped : ∀ (bytes : List UInt8) (skipped start : Nat),
      (bytes.zipIdx start).drop skipped = (bytes.drop skipped).zipIdx (start + skipped) := by
    intro bytes
    induction bytes with
    | nil => simp
    | cons byte rest ih =>
      intro skipped start
      cases skipped with
      | zero => rfl
      | succ skipped =>
        rw [List.zipIdx_cons, List.drop_succ_cons, List.drop_succ_cons, ih, Nat.add_right_comm, Nat.add_assoc]
  rw [uppercasePositionsFrom, dropped, Nat.zero_add, positions_zipIdx]

theorem foldlM_positions (arch : SimdArch) (bytes : List UInt8) (chunks : Nat) (inside : chunks * 16 ≤ bytes.length) :
    (List.range chunks).foldlM (fun positions chunk => do
      let offset := chunk * 16
      let v ← load bytes offset
      return positions ++ setPositions arch (within arch v 'A'.val.toUInt8 25) offset) [] =
    some ((Bytes.slice bytes 0 (chunks * 16)).findIdxs isAsciiUppercase) := by
  induction chunks with
  | zero => rfl
  | succ chunks ih =>
    have next : chunks * 16 + 16 ≤ bytes.length := by omega
    obtain ⟨v, loaded, known⟩ := exists_load next
    have length : (Bytes.slice bytes 0 (chunks * 16)).length = chunks * 16 := Bytes.length_slice (by omega)
    rw [List.range_succ, List.foldlM_append, ih (by omega), Nat.add_mul, Nat.one_mul, slice_add, List.findIdxs_append, length,
      Nat.zero_add]
    simp only [List.foldlM_cons, List.foldlM_nil, loaded, Option.bind_eq_bind, Option.bind_some, Option.pure_def, within_mask,
      setPositions_mask, Vector.toList_map, known, List.findIdxs_map, Function.comp_def, isAsciiUppercase_eq, id_eq]

theorem findUppercasePositionsVector_eq (arch : SimdArch) (bytes : List UInt8) :
    findUppercasePositionsVector arch bytes = some (findUppercasePositionsScalar bytes) := by
  have length : (Bytes.slice bytes 0 (bytes.length / 16 * 16)).length = bytes.length / 16 * 16 := Bytes.length_slice (by omega)
  have split : Bytes.slice bytes 0 (bytes.length / 16 * 16) ++ bytes.drop (bytes.length / 16 * 16) = bytes := by
    rw [Bytes.slice, List.drop_zero, List.take_append_drop]
  have whole : bytes.findIdxs isAsciiUppercase = _ :=
    (congrArg (List.findIdxs isAsciiUppercase · 0) split).symm.trans List.findIdxs_append
  rw [findUppercasePositionsVector]
  dsimp only
  rw [foldlM_positions arch bytes (bytes.length / 16) (by omega), Option.bind_eq_bind, Option.bind_some,
    findUppercasePositionsScalar, uppercasePositionsFrom_eq, uppercasePositionsFrom_eq, List.drop_zero, whole, length,
    Nat.zero_add]
  rfl

/-- On every architecture the scanners give what they give byte by byte, and they read nothing outside of the bytes. -/
theorem scanners_agree (arch : Option SimdArch) (bytes others : List UInt8) (target : UInt8) (out : List Nat) :
    allBytesEqual arch bytes target = some (allBytesEqualScalar bytes target) ∧
      leadingWhitespaceByteCount arch bytes = some (leadingWhitespaceByteCountScalar bytes) ∧
      slicesEqual arch bytes others = some (bytes == others) ∧
      findUppercasePositionsInto arch bytes out = some (findUppercasePositionsScalar bytes) ∧
      isSnakeCaseBytes arch bytes = some (isSnakeCaseScalar bytes) ∧
      isUpperSnakeCaseBytes arch bytes = some (isUpperSnakeCaseScalar bytes) := by
  refine ⟨?_, ?_, ?_, ?_, ?_, ?_⟩
  · rw [allBytesEqual.eq_def]
    split
    · rename_i empty
      rw [empty]
      rfl
    · cases arch with
      | none => rfl
      | some arch => exact allBytesEqualVector_eq arch bytes target
  · cases arch with
    | none => rfl
    | some arch => exact leadingWhitespaceByteCountVector_eq arch bytes
  · rw [slicesEqual.eq_def]
    split
    · rename_i different
      exact congrArg some (beq_eq_false_iff_ne.mpr fun same => different (congrArg List.length same)).symm
    · rename_i same
      cases arch with
      | none => rfl
      | some arch => exact slicesEqualVector_eq arch (not_not.mp same)
  · cases arch with
    | none => rfl
    | some arch => exact findUppercasePositionsVector_eq arch bytes
  · cases arch with
    | none => rfl
    | some arch => exact isCaseVector_eq arch isAsciiLowercase_eq bytes
  · cases arch with
    | none => rfl
    | some arch => exact isCaseVector_eq arch isAsciiUppercase_eq bytes

end MjFormatter.Verified
