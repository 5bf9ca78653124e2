import MjFormatter.Files.EccLayout
import MjFormatter.Library.Erasures

/-! # Damaged shards

What the state files and the journal frames share: which byte belongs to which shard, and that the shards left over by
damage to at most as many of them as there are parity shards determine the payload. -/

namespace MjFormatter.Verified

open Files Library.Bytes Library.Erasures

/-! ## Running checks -/

@[simp] theorem ok_bind {ε α β : Type} (value : α) (next : α → Except ε β) : (Except.ok value >>= next) = next value :=
  rfl

@[simp] theorem error_bind {ε α β : Type} (failure : ε) (next : α → Except ε β) :
    ((Except.error failure : Except ε α) >>= next) = .error failure := rfl

@[simp] theorem pure_eq_ok {ε α : Type} (value : α) : (pure value : Except ε α) = .ok value := rfl

@[simp] theorem context_some {α : Type} (message : String) (value : α) : context message (some value) = .ok value := rfl

@[simp] theorem context_none {α : Type} (message : String) : context message (none : Option α) = .error message := rfl

theorem ensure_of {condition : Prop} [Decidable condition] (holds : condition) (message : String) :
    ensure condition message = .ok () := by
  simp [ensure, holds]

theorem ensure_of_not {condition : Prop} [Decidable condition] (fails : ¬condition) (message : String) :
    ensure condition message = .error message := by
  simp [ensure, fails]

theorem tryFrom_of_le {maximum value : Nat} (fits : value ≤ maximum) : tryFrom maximum value = some value := by
  simp [tryFrom, fits]

theorem checkedMul_of_le {a b : Nat} (fits : a * b ≤ usizeMax) : checkedMul a b = some (a * b) := by
  simp [checkedMul, fits]

theorem checkedAdd_of_le {a b : Nat} (fits : a + b ≤ usizeMax) : checkedAdd a b = some (a + b) := by
  simp [checkedAdd, fits]

/-! ## The layout of a payload -/

structure EccLayout.Sound (layout : EccLayout) : Prop where
  minData : eccMinDataShards ≤ layout.dataShards
  maxData : layout.dataShards ≤ eccMaxDataShards
  parity : layout.parityShards = eccParityShards
  positive : 0 < layout.shardSize

theorem sized_sound (payloadLen : Nat) : EccLayout.Sound (EccLayout.sized payloadLen) := by
  have clamped : eccMinDataShards ≤ eccMaxDataShards := by decide
  constructor
  · exact le_max_left _ _
  · exact max_le clamped (min_le_right _ _)
  · rfl
  · exact lt_of_lt_of_le Nat.zero_lt_one (le_max_right _ _)

theorem payloadLen_le_sized (payloadLen : Nat) :
    payloadLen ≤ (EccLayout.sized payloadLen).dataShards * (EccLayout.sized payloadLen).shardSize := by
  have positive : 0 < (EccLayout.sized payloadLen).dataShards := by
    have atLeast := (sized_sound payloadLen).minData
    simp only [eccMinDataShards] at atLeast
    omega
  calc payloadLen ≤ max payloadLen 1 := le_max_left _ _
    _ ≤ (EccLayout.sized payloadLen).dataShards * (max payloadLen 1 ⌈/⌉ (EccLayout.sized payloadLen).dataShards) :=
      le_smul_ceilDiv positive
    _ ≤ _ := Nat.mul_le_mul_left _ (le_max_left _ _)

theorem sized_shardSize_le (payloadLen : Nat) : (EccLayout.sized payloadLen).shardSize ≤ max payloadLen 1 := by
  have positive : 0 < (EccLayout.sized payloadLen).dataShards := by
    have atLeast := (sized_sound payloadLen).minData
    simp only [eccMinDataShards] at atLeast
    omega
  apply max_le
  · apply (ceilDiv_le_iff_le_smul positive).mpr
    exact Nat.le_mul_of_pos_left _ positive
  · exact le_max_right _ _

/-! ## The codec -/

/-- The documented behaviour of a codec: it keeps the data shards, and it reconstructs what it has encoded when at most
as many shards are missing as there are parity shards. -/
def CodecLaw (layout : EccLayout) (codec : ReedSolomon) : Prop :=
  ∀ blank : List Shard, blank.length = layout.totalShards → (∀ shard ∈ blank, shard.length = layout.shardSize) →
    ∃ code, codec.encode blank = some code ∧ code.length = layout.totalShards ∧
      (∀ shard ∈ code, shard.length = layout.shardSize) ∧
      code.take layout.dataShards = blank.take layout.dataShards ∧
      Recovers codec.reconstruct layout.parityShards code

/-- `ReedSolomon::new` builds a codec that keeps to the law. -/
def Corrects (crates : Crates) (layout : EccLayout) : Prop :=
  ∃ codec, crates.reedSolomon layout.dataShards layout.parityShards = some codec ∧ CodecLaw layout codec

/-- The shards of a payload. -/
structure Coded (crates : Crates) (layout : EccLayout) (payload : List UInt8) (code : List Shard) : Prop where
  length_eq : code.length = layout.totalShards
  uniform : ∀ shard ∈ code, shard.length = layout.shardSize
  payload_eq : (code.take layout.dataShards).flatten.take payload.length = payload
  reconstruct_eq : ∀ slots failure, Erased code slots → missing slots ≤ layout.parityShards →
    reconstructShards crates layout.dataShards layout.parityShards slots failure = .ok (code.map some)

theorem length_padded {layout : EccLayout} {payload : List UInt8}
    (fits : payload.length ≤ layout.dataShards * layout.shardSize) :
    (padded layout payload).length = layout.dataShards * layout.shardSize := by
  simp only [padded, List.length_append, List.length_replicate]
  omega

theorem blankShards_eq {layout : EccLayout} {payload : List UInt8} (positive : 0 < layout.shardSize)
    (fits : payload.length ≤ layout.dataShards * layout.shardSize) :
    blankShards layout payload = blocks layout.shardSize layout.dataShards (padded layout payload) ++
      List.replicate layout.parityShards (List.replicate layout.shardSize 0) := by
  rw [blankShards, chunks_eq_blocks positive (length_padded fits)]

/-- Encoding succeeds, with shards from which the payload can be read off. -/
theorem encodeShards_coded {crates : Crates} {layout : EccLayout} {payload : List UInt8} (positive : 0 < layout.shardSize)
    (fits : payload.length ≤ layout.dataShards * layout.shardSize) (corrects : Corrects crates layout) (failure : String) :
    ∃ code, encodeShards crates layout payload failure = .ok code ∧ Coded crates layout payload code := by
  obtain ⟨codec, built, law⟩ := corrects
  have padding := length_padded fits
  have blank := blankShards_eq positive fits
  have counted : (blankShards layout payload).length = layout.totalShards := by
    simp [blank, EccLayout.totalShards]
  have uniform : ∀ shard ∈ blankShards layout payload, shard.length = layout.shardSize := by
    intro shard member
    rw [blank, List.mem_append] at member
    cases member with
    | inl data => exact length_of_mem_blocks padding.ge data
    | inr parity => simp [List.eq_of_mem_replicate parity]
  obtain ⟨code, encoded, length_eq, codeUniform, data, recovers⟩ := law _ counted uniform
  have joined : (code.take layout.dataShards).flatten = padded layout payload := by
    rw [data, blank, List.take_left' (length_blocks _ _ _), flatten_blocks, ← padding, List.take_length]
  use code
  constructor
  · simp [encodeShards, built, encoded]
  · constructor
    · exact length_eq
    · exact codeUniform
    · simp [joined, padded]
    · intro slots failure erased few
      simp [reconstructShards, built, recovers slots erased few]

/-! ## Bytes and shards -/

section
variable (headerLen : Nat) (layout : EccLayout)

def shardsStart : Nat := headerLen + layout.totalShards * 4

/-- The shard to which a byte of a frame belongs: as one of its bytes, or as a byte of its checksum. -/
def shardAt (offset : Nat) : Option Nat :=
  if offset < headerLen then none
  else if offset < shardsStart headerLen layout then some ((offset - headerLen) / 4)
  else some ((offset - shardsStart headerLen layout) / layout.shardSize)

/-- The frame is damaged in the shards of a list only. -/
structure DamagedIn (hit : List Nat) (original damaged : List UInt8) : Prop where
  length_eq : damaged.length = original.length
  confined : ∀ offset, damaged[offset]? ≠ original[offset]? → ∃ k ∈ hit, shardAt headerLen layout offset = some k

def checksumTable (frame : List UInt8) : List UInt32 :=
  (blocks 4 layout.totalShards (frame.drop headerLen)).map fun entry => UInt32.ofNat (ofLe entry)

def shardsOf (frame : List UInt8) : List Shard :=
  blocks layout.shardSize layout.totalShards (frame.drop (shardsStart headerLen layout))

/-- The shards of a frame that match their checksums. -/
def survivors (crates : Crates) (frame : List UInt8) : List (Option Shard) :=
  sift crates.crc32 (checksumTable headerLen layout frame) (shardsOf headerLen layout frame)

/-- No shard that has been altered matches its checksum. -/
def Detects (crates : Crates) (original damaged : List UInt8) : Prop :=
  ∀ (k : Nat) (shard : Shard) (expected : UInt32), (shardsOf headerLen layout damaged)[k]? = some shard →
    (checksumTable headerLen layout damaged)[k]? = some expected →
    (shardsOf headerLen layout original)[k]? ≠ some shard → crates.crc32 shard ≠ expected

end

/-- The table and the shards as they are written. -/
def frameBody (crates : Crates) (code : List Shard) : List UInt8 :=
  (code.map fun shard => toLe 4 (crates.crc32 shard).toNat).flatten ++ code.flatten

section
variable {crates : Crates} {layout : EccLayout} {payload header : List UInt8} {code : List Shard}

theorem length_checksums (code : List Shard) : (code.map fun shard => toLe 4 (crates.crc32 shard).toNat).flatten.length =
    code.length * 4 := by
  rw [length_flatten, List.length_map]
  intro entry member
  simp only [List.mem_map] at member
  obtain ⟨shard, _, rfl⟩ := member
  exact length_toLe 4 _

theorem length_frame (coded : Coded crates layout payload code) :
    (header ++ frameBody crates code).length = shardsStart header.length layout + layout.totalShards * layout.shardSize := by
  simp only [frameBody, List.length_append, length_checksums, length_flatten coded.uniform, coded.length_eq, shardsStart]
  omega

theorem checksumTable_frame (coded : Coded crates layout payload code) :
    checksumTable header.length layout (header ++ frameBody crates code) = code.map crates.crc32 := by
  have entries : ∀ entry ∈ code.map fun shard => toLe 4 (crates.crc32 shard).toNat, entry.length = 4 := by
    intro entry member
    simp only [List.mem_map] at member
    obtain ⟨shard, _, rfl⟩ := member
    exact length_toLe 4 _
  have counted : layout.totalShards = (code.map fun shard => toLe 4 (crates.crc32 shard).toNat).length := by
    rw [List.length_map, coded.length_eq]
  rw [checksumTable, List.drop_left, frameBody, counted, blocks_flatten entries, List.map_map]
  apply List.map_congr_left
  intro shard _
  have fits := (crates.crc32 shard).toNat_lt
  rw [Function.comp_apply, ofLe_toLe fits, UInt32.ofNat_toNat]

theorem shardsOf_frame (coded : Coded crates layout payload code) :
    shardsOf header.length layout (header ++ frameBody crates code) = code := by
  have skipped : shardsStart header.length layout = header.length +
      (code.map fun shard => toLe 4 (crates.crc32 shard).toNat).flatten.length := by
    rw [length_checksums, coded.length_eq, shardsStart]
  have whole := blocks_flatten coded.uniform []
  rw [List.append_nil] at whole
  rw [shardsOf, skipped, frameBody, ← List.drop_drop, List.drop_left, List.drop_left, ← coded.length_eq, whole]

end

/-! ## What damage leaves -/

section
variable {headerLen : Nat} {layout : EccLayout} {hit : List Nat} {original damaged : List UInt8}

theorem shardAt_entry {k i : Nat} (inside : k < layout.totalShards) (within : i < 4) :
    shardAt headerLen layout (headerLen + k * 4 + i) = some k := by
  have beyond : ¬headerLen + k * 4 + i < headerLen := by omega
  have before : headerLen + k * 4 + i < shardsStart headerLen layout := by
    simp only [shardsStart]
    omega
  have entry : (headerLen + k * 4 + i - headerLen) / 4 = k := by omega
  simp [shardAt, beyond, before, entry]

theorem shardAt_shard {k i : Nat} (within : i < layout.shardSize) :
    shardAt headerLen layout (shardsStart headerLen layout + k * layout.shardSize + i) = some k := by
  have started : headerLen ≤ shardsStart headerLen layout := Nat.le_add_right _ _
  have beyond : ¬shardsStart headerLen layout + k * layout.shardSize + i < headerLen := by omega
  have after : ¬shardsStart headerLen layout + k * layout.shardSize + i < shardsStart headerLen layout := by omega
  have offset : shardsStart headerLen layout + k * layout.shardSize + i - shardsStart headerLen layout =
      i + k * layout.shardSize := by omega
  have shard : (i + k * layout.shardSize) / layout.shardSize = k := by
    rw [Nat.add_mul_div_right _ _ (by omega), Nat.div_eq_of_lt within, Nat.zero_add]
  simp only [shardAt, beyond, after, if_false, offset, shard]

/-- Only the bytes of the frame need to be looked at. -/
theorem damagedIn_of_forall (length_eq : damaged.length = original.length)
    (confined : ∀ offset < original.length, damaged[offset]? = original[offset]? ∨
      ∃ k ∈ hit, shardAt headerLen layout offset = some k) : DamagedIn headerLen layout hit original damaged := by
  constructor
  · exact length_eq
  · intro offset differs
    by_cases inside : offset < original.length
    · cases confined offset inside with
      | inl same => exact absurd same differs
      | inr found => exact found
    · have beyond : original.length ≤ offset := Nat.le_of_not_lt inside
      have none : damaged[offset]? = original[offset]? := by
        rw [List.getElem?_eq_none beyond, List.getElem?_eq_none (length_eq.trans_le beyond)]
      exact absurd none differs

theorem detects_of_forall {crates : Crates}
    (noted : ∀ k < layout.totalShards,
      (shardsOf headerLen layout damaged)[k]? = (shardsOf headerLen layout original)[k]? ∨
        (shardsOf headerLen layout damaged)[k]?.map crates.crc32 ≠ (checksumTable headerLen layout damaged)[k]?) :
    Detects headerLen layout crates original damaged := by
  intro k shard expected found entry altered matching
  have inside : k < layout.totalShards := by
    by_contra beyond
    simp [shardsOf, beyond] at found
  cases noted k inside with
  | inl same => exact altered (same ▸ found)
  | inr differs => exact differs (by simp [found, entry, matching])

theorem DamagedIn.slice_eq (damage : DamagedIn headerLen layout hit original damaged) {start length : Nat}
    (outside : ∀ i < length, ∀ k ∈ hit, shardAt headerLen layout (start + i) ≠ some k) :
    slice damaged start length = slice original start length := by
  apply List.ext_getElem?
  intro i
  rw [getElem?_slice, getElem?_slice]
  by_cases within : i < length
  · simp only [within, if_true]
    by_contra differs
    obtain ⟨k, member, found⟩ := damage.confined _ differs
    exact outside i within k member found
  · simp only [within, if_false]

theorem DamagedIn.header_eq (damage : DamagedIn headerLen layout hit original damaged) :
    damaged.take headerLen = original.take headerLen := by
  have same : slice damaged 0 headerLen = slice original 0 headerLen := by
    apply damage.slice_eq
    intro i within k _
    simp [shardAt, within]
  simpa only [slice, List.drop_zero] using same

theorem DamagedIn.entry_eq (damage : DamagedIn headerLen layout hit original damaged) {k : Nat}
    (inside : k < layout.totalShards) (spared : k ∉ hit) :
    (checksumTable headerLen layout damaged)[k]? = (checksumTable headerLen layout original)[k]? := by
  have same : slice damaged (headerLen + k * 4) 4 = slice original (headerLen + k * 4) 4 := by
    apply damage.slice_eq
    intro i within other member found
    rw [shardAt_entry inside within, Option.some.injEq] at found
    exact spared (found ▸ member)
  simp only [checksumTable, List.getElem?_map, getElem?_blocks, inside, if_true, slice_drop, same]

theorem DamagedIn.shard_eq (damage : DamagedIn headerLen layout hit original damaged) {k : Nat} (spared : k ∉ hit) :
    (shardsOf headerLen layout damaged)[k]? = (shardsOf headerLen layout original)[k]? := by
  have same : slice damaged (shardsStart headerLen layout + k * layout.shardSize) layout.shardSize =
      slice original (shardsStart headerLen layout + k * layout.shardSize) layout.shardSize := by
    apply damage.slice_eq
    intro i within other member found
    rw [shardAt_shard within, Option.some.injEq] at found
    exact spared (found ▸ member)
  simp [shardsOf, getElem?_blocks, slice_drop, same]

theorem length_checksumTable (frame : List UInt8) :
    (checksumTable headerLen layout frame).length = layout.totalShards := by
  simp [checksumTable]

theorem length_shardsOf (frame : List UInt8) : (shardsOf headerLen layout frame).length = layout.totalShards :=
  length_blocks _ _ _

end

section
variable {crates : Crates} {layout : EccLayout} {payload header damaged : List UInt8} {code : List Shard} {hit : List Nat}

theorem erased_received (coded : Coded crates layout payload code)
    (detects : Detects header.length layout crates (header ++ frameBody crates code) damaged) :
    Erased code (survivors header.length layout crates damaged) := by
  apply erased_sift
  · rw [length_shardsOf, coded.length_eq]
  · rw [length_checksumTable, coded.length_eq]
  · intro k shard expected found entry altered
    apply detects k shard expected found entry
    rwa [shardsOf_frame coded]

theorem missing_received_le (coded : Coded crates layout payload code)
    (damage : DamagedIn header.length layout hit (header ++ frameBody crates code) damaged) :
    missing (survivors header.length layout crates damaged) ≤ hit.length := by
  have tableLength : (checksumTable header.length layout damaged).length = code.length := by
    rw [length_checksumTable, coded.length_eq]
  apply missing_sift_le tableLength
  intro k inside spared
  rw [damage.shard_eq spared, shardsOf_frame coded]
  rw [coded.length_eq] at inside
  rw [damage.entry_eq inside spared, checksumTable_frame coded]
  exact ⟨rfl, rfl⟩

end

end MjFormatter.Verified
