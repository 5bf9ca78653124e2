import MjFormatter.Files.EccFrame
import MjFormatter.Library.Runs
import MjFormatter.Verified.PairCodec

/-! # Streams of frames

The reader takes from the stream the bytes of one frame at a time, whatever has happened to them, and gives back the
payload when at most two of its shards are damaged.  So a stream of frames is read to its end. -/

namespace MjFormatter.Verified

open Files Files.EccFrame Library.Bytes Library.Erasures

/-! ## Reading forwards -/

theorem readExact_append {front : List UInt8} {count : Nat} (wide : front.length = count) (rest : List UInt8) :
    readExact count (front ++ rest) = .ok (front, rest) := by
  subst wide
  simp [readExact]

theorem readLe_append {width value : Nat} (small : value < 256 ^ width) (rest : List UInt8) :
    readLe width (toLe width value ++ rest) = .ok (value, rest) := by
  simp only [readLe, readExact_append (length_toLe width value), ok_bind, pure_eq_ok, ofLe_toLe small]

theorem readCrcs_append {entries : List (List UInt8)} (uniform : ∀ entry ∈ entries, entry.length = 4)
    (rest : List UInt8) : readCrcs entries.length (entries.flatten ++ rest) =
      .ok (entries.map fun entry => UInt32.ofNat (ofLe entry), rest) := by
  induction entries with
  | nil => rfl
  | cons entry entries ih =>
    have wide : entry.length = 4 := uniform entry (by simp)
    have others := ih fun other member => uniform other (by simp [member])
    simp only [List.length_cons, List.flatten_cons, List.append_assoc, readCrcs, readLe, readExact_append wide, others,
      ok_bind, pure_eq_ok, List.map_cons]

theorem readShards_append {crates : Crates} {shardSize : Nat} {expected : List UInt32} {shards : List Shard}
    (sameLength : expected.length = shards.length) (uniform : ∀ shard ∈ shards, shard.length = shardSize)
    (rest : List UInt8) : readShards crates shardSize expected (shards.flatten ++ rest) =
      .ok (sift crates.crc32 expected shards, missing (sift crates.crc32 expected shards), rest) := by
  induction shards generalizing expected with
  | nil =>
    have empty : expected = [] := List.length_eq_zero_iff.mp sameLength
    subst empty
    rfl
  | cons shard shards ih =>
    cases expected with
    | nil => simp at sameLength
    | cons checksum expected =>
      have wide : shard.length = shardSize := uniform shard (by simp)
      have others := ih (by simpa using sameLength) fun other member => uniform other (by simp [member])
      simp only [List.flatten_cons, List.append_assoc, readShards, readExact_append wide, others, ok_bind, sift,
        List.zipWith_cons_cons]
      by_cases matching : crates.crc32 shard = checksum
      · simp [matching, missing]
      · simp [matching, missing]

theorem joinShards_complete (code : List Shard) : EccFrame.joinShards (code.map some) = .ok code.flatten := by
  induction code with
  | nil => rfl
  | cons shard code ih => simp [EccFrame.joinShards, ih]

/-! ## The header -/

def frameHeaderLen : Nat := 20

def frameHeader (layout : EccLayout) (payloadLen : Nat) (payloadCrc : UInt32) : List UInt8 :=
  frameMagic ++ (toLe 4 payloadLen ++ (toLe 4 payloadCrc.toNat ++
    (toLe 2 layout.dataShards ++ (toLe 2 layout.parityShards ++ toLe 4 layout.shardSize))))

theorem frameMagic_length : frameMagic.length = 4 := by decide +kernel

theorem length_frameHeader (layout : EccLayout) (payloadLen : Nat) (payloadCrc : UInt32) :
    (frameHeader layout payloadLen payloadCrc).length = frameHeaderLen := by
  simp [frameHeader, frameMagic_length, frameHeaderLen]

/-- The numbers of the layout fit into the fields of a header. -/
structure FitsFrame (layout : EccLayout) (payloadLen : Nat) : Prop where
  sound : EccLayout.Sound layout
  payload : payloadLen ≤ maxFramePayload
  size : layout.shardSize ≤ maxFramePayload

theorem fitsFrame_sized {payloadLen : Nat} (within : payloadLen ≤ maxFramePayload) :
    FitsFrame (EccLayout.sized payloadLen) payloadLen := by
  constructor
  · exact sized_sound payloadLen
  · exact within
  · have small := sized_shardSize_le payloadLen
    simp only [maxFramePayload] at *
    omega

section
variable {crates : Crates} {layout : EccLayout} {payload arrived : List UInt8} {code : List Shard} {hit : List Nat}

theorem readHeader_frame {payloadLen : Nat} (fits : FitsFrame layout payloadLen) (payloadCrc : UInt32) (rest : List UInt8) :
    EccFrame.readHeader (toLe 4 payloadLen ++ (toLe 4 payloadCrc.toNat ++ (toLe 2 layout.dataShards ++
      (toLe 2 layout.parityShards ++ (toLe 4 layout.shardSize ++ rest))))) =
        .ok ({ payloadLen, payloadCrc, dataShards := layout.dataShards, parityShards := layout.parityShards
               shardSize := layout.shardSize }, rest) := by
  have small : payloadLen < 256 ^ 4 := lt_of_le_of_lt fits.payload (by decide)
  have smallCrc : payloadCrc.toNat < 256 ^ 4 := payloadCrc.toNat_lt
  have smallSize : layout.shardSize < 256 ^ 4 := lt_of_le_of_lt fits.size (by decide)
  have smallData : layout.dataShards < 256 ^ 2 := lt_of_le_of_lt fits.sound.maxData (by decide)
  have smallParity : layout.parityShards < 256 ^ 2 := by
    rw [fits.sound.parity]
    decide
  have dataRange : eccMinDataShards ≤ layout.dataShards ∧ layout.dataShards ≤ eccMaxDataShards :=
    ⟨fits.sound.minData, fits.sound.maxData⟩
  have nonzero : layout.shardSize ≠ 0 := Nat.pos_iff_ne_zero.mp fits.sound.positive
  simp only [EccFrame.readHeader, readLe_append small, ensure_of fits.payload, readLe_append smallCrc,
    readLe_append smallData, readLe_append smallParity, readLe_append smallSize, ensure_of dataRange,
    ensure_of fits.sound.parity, ensure_of nonzero, ok_bind, pure_eq_ok, UInt32.ofNat_toNat]

/-! ## One frame -/

def frameOf (crates : Crates) (layout : EccLayout) (payload : List UInt8) (code : List Shard) : List UInt8 :=
  frameHeader layout payload.length (crates.crc32 payload) ++ frameBody crates code

theorem writeFrame_coded (within : payload.length ≤ maxFramePayload)
    (corrects : Corrects crates (EccLayout.sized payload.length)) :
    ∃ code, Coded crates (EccLayout.sized payload.length) payload code ∧ ∀ written,
      writeFrame crates written payload = .ok (written ++ frameOf crates (EccLayout.sized payload.length) payload code) := by
  obtain ⟨code, encoded, coded⟩ := encodeShards_coded (sized_sound payload.length).positive
    (payloadLen_le_sized payload.length) corrects "failed encoding parity shards"
  have fits : payload.length ≤ Files.u32Max := le_trans within (by decide)
  use code, coded
  intro written
  simp only [writeFrame, forPayload, ensure_of within, tryFrom_of_le fits, encoded, context_some, ok_bind, pure_eq_ok,
    frameOf, frameHeader, frameBody]

theorem fillShards_erased {header : EccFrame.Header} {slots : List (Option Shard)}
    (coded : Coded crates layout payload code) (data : header.dataShards = layout.dataShards)
    (parity : header.parityShards = layout.parityShards) (erased : Erased code slots)
    (few : missing slots ≤ layout.parityShards) :
    fillShards crates header slots (missing slots) = .ok (code.map some) := by
  by_cases corrupted : 0 < missing slots
  · rw [fillShards, if_pos corrupted, data, parity, coded.reconstruct_eq slots _ erased few]
  · rw [fillShards, if_neg corrupted, eq_complete_of_missing_eq_zero erased (by omega)]

theorem recoverPayload_erased {header : EccFrame.Header} {slots : List (Option Shard)}
    (coded : Coded crates layout payload code) (data : header.dataShards = layout.dataShards)
    (parity : header.parityShards = layout.parityShards) (length : header.payloadLen = payload.length)
    (crc : header.payloadCrc = crates.crc32 payload) (erased : Erased code slots)
    (few : missing slots ≤ layout.parityShards) :
    recoverPayload crates header slots (missing slots) = .ok payload := by
  have filled := fillShards_erased coded data parity erased few
  have joined : EccFrame.joinShards ((code.map some).take header.dataShards) = .ok (code.take layout.dataShards).flatten := by
    rw [← List.map_take, joinShards_complete, data]
  rw [← parity] at few
  rw [recoverPayload, ensure_of few, ok_bind, filled, ok_bind, joined, ok_bind]
  dsimp only
  rw [length, coded.payload_eq, ensure_of crc.symm, ok_bind, pure_eq_ok]

/-- A frame falls into its header, its table and its shards, however it is damaged. -/
theorem damaged_parts (coded : Coded crates layout payload code)
    (damage : DamagedIn frameHeaderLen layout hit (frameOf crates layout payload code) arrived) :
    arrived = frameHeader layout payload.length (crates.crc32 payload) ++
      ((blocks 4 layout.totalShards (arrived.drop frameHeaderLen)).flatten ++
        (shardsOf frameHeaderLen layout arrived).flatten) := by
  have headerLength := length_frameHeader layout payload.length (crates.crc32 payload)
  have length : arrived.length = shardsStart frameHeaderLen layout + layout.totalShards * layout.shardSize := by
    rw [damage.length_eq, frameOf, ← headerLength, length_frame coded]
  have header : arrived.take frameHeaderLen = frameHeader layout payload.length (crates.crc32 payload) := by
    have same := damage.header_eq
    rwa [frameOf, ← headerLength, List.take_left, headerLength] at same
  have shards : (shardsOf frameHeaderLen layout arrived).flatten = arrived.drop (shardsStart frameHeaderLen layout) := by
    rw [shardsOf, flatten_blocks]
    apply List.take_of_length_le
    rw [List.length_drop, length]
    omega
  have table := List.take_append_drop (layout.totalShards * 4) (arrived.drop frameHeaderLen)
  rw [List.drop_drop] at table
  calc arrived = arrived.take frameHeaderLen ++ arrived.drop frameHeaderLen := (List.take_append_drop _ _).symm
    _ = _ := by rw [header, flatten_blocks, shards, shardsStart, table]

/-- A frame with at most two damaged shards is read to its last byte, and its payload is restored. -/
theorem readFrame_damaged (fits : FitsFrame layout payload.length) (coded : Coded crates layout payload code)
    (few : hit.length ≤ layout.parityShards)
    (damage : DamagedIn frameHeaderLen layout hit (frameOf crates layout payload code) arrived)
    (detects : Detects frameHeaderLen layout crates (frameOf crates layout payload code) arrived) (rest : List UInt8) :
    readFrame crates (arrived ++ rest) = .ok (some payload, rest) := by
  have headerLength := length_frameHeader layout payload.length (crates.crc32 payload)
  have length : arrived.length = shardsStart frameHeaderLen layout + layout.totalShards * layout.shardSize := by
    rw [damage.length_eq, frameOf, ← headerLength, length_frame coded]
  have whole : arrived ++ rest = frameMagic ++ (toLe 4 payload.length ++ (toLe 4 (crates.crc32 payload).toNat ++
      (toLe 2 layout.dataShards ++ (toLe 2 layout.parityShards ++ (toLe 4 layout.shardSize ++
        ((blocks 4 layout.totalShards (arrived.drop frameHeaderLen)).flatten ++
          ((shardsOf frameHeaderLen layout arrived).flatten ++ rest))))))) := by
    conv_lhs => rw [damaged_parts coded damage]
    simp only [frameHeader, List.append_assoc]
  rw [frameOf, ← headerLength] at damage detects
  have erased := erased_received coded detects
  have missingFew := le_trans (missing_received_le coded damage) few
  rw [headerLength] at erased missingFew
  have crcs : readCrcs (layout.dataShards + layout.parityShards)
      ((blocks 4 layout.totalShards (arrived.drop frameHeaderLen)).flatten ++
        ((shardsOf frameHeaderLen layout arrived).flatten ++ rest)) =
      .ok (checksumTable frameHeaderLen layout arrived, (shardsOf frameHeaderLen layout arrived).flatten ++ rest) := by
    have uniform : ∀ entry ∈ blocks 4 layout.totalShards (arrived.drop frameHeaderLen), entry.length = 4 := by
      intro entry member
      apply length_of_mem_blocks _ member
      rw [List.length_drop, length, shardsStart]
      omega
    have read := readCrcs_append uniform ((shardsOf frameHeaderLen layout arrived).flatten ++ rest)
    rwa [length_blocks] at read
  have shards : readShards crates layout.shardSize (checksumTable frameHeaderLen layout arrived)
      ((shardsOf frameHeaderLen layout arrived).flatten ++ rest) =
      .ok (survivors frameHeaderLen layout crates arrived, missing (survivors frameHeaderLen layout crates arrived), rest) := by
    apply readShards_append
    · rw [length_checksumTable, length_shardsOf]
    · intro shard member
      apply length_of_mem_blocks _ member
      rw [List.length_drop, length]
      omega
  rw [whole, readFrame, readExact_append frameMagic_length]
  dsimp only
  rw [ensure_of rfl, ok_bind, readHeader_frame fits, ok_bind]
  dsimp only
  rw [crcs, ok_bind]
  dsimp only
  rw [shards, ok_bind]
  dsimp only
  rw [recoverPayload_erased coded rfl rfl rfl rfl erased missingFew, ok_bind, pure_eq_ok]

end

/-! ## Streams -/

/-- The reader gives back the payloads, then the end of the stream. -/
inductive ReadsAll (crates : Crates) : List UInt8 → List (List UInt8) → Prop where
  | ended {stream rest : List UInt8} (none_left : readFrame crates stream = .ok (none, rest)) : ReadsAll crates stream []
  | frame {stream payload rest : List UInt8} {payloads : List (List UInt8)}
      (read : readFrame crates stream = .ok (some payload, rest)) (others : ReadsAll crates rest payloads) :
      ReadsAll crates stream (payload :: payloads)

/-- A frame with damage in at most two of its shards, none of which the checksums miss. -/
def DamagedFrame (crates : Crates) (payload frame arrived : List UInt8) : Prop :=
  ∃ hit : List Nat, hit.length ≤ eccParityShards ∧
    DamagedIn frameHeaderLen (EccLayout.sized payload.length) hit frame arrived ∧
    Detects frameHeaderLen (EccLayout.sized payload.length) crates frame arrived

/-- What has become of the frames of some payloads. -/
inductive Arrives (crates : Crates) : List (List UInt8) → List (List UInt8) → List (List UInt8) → Prop where
  | nil : Arrives crates [] [] []
  | cons {payload frame arrived : List UInt8} {payloads frames arrivals : List (List UInt8)}
      (damaged : DamagedFrame crates payload frame arrived) (others : Arrives crates payloads frames arrivals) :
      Arrives crates (payload :: payloads) (frame :: frames) (arrived :: arrivals)

section
variable {crates : Crates}

theorem damagedFrame_refl (payload frame : List UInt8) : DamagedFrame crates payload frame frame := by
  use []
  constructor
  · simp
  constructor
  · constructor
    · rfl
    · intro offset differs
      exact absurd rfl differs
  · intro k shard expected found _ altered
    exact absurd found altered

theorem arrives_refl {payloads frames : List (List UInt8)} (sameLength : payloads.length = frames.length) :
    Arrives crates payloads frames frames := by
  induction payloads generalizing frames with
  | nil =>
    have empty : frames = [] := List.length_eq_zero_iff.mp sameLength.symm
    subst empty
    exact Arrives.nil
  | cons payload payloads ih =>
    cases frames with
    | nil => simp at sameLength
    | cons frame frames => exact Arrives.cons (damagedFrame_refl payload frame) (ih (by simpa using sameLength))

def IsFrameOf (crates : Crates) (payload frame : List UInt8) : Prop :=
  ∃ code, Coded crates (EccLayout.sized payload.length) payload code ∧
    frame = frameOf crates (EccLayout.sized payload.length) payload code

theorem writeFrames_eq {payloads : List (List UInt8)} (within : ∀ payload ∈ payloads, payload.length ≤ maxFramePayload)
    (corrects : ∀ payload ∈ payloads, Corrects crates (EccLayout.sized payload.length)) :
    ∃ frames, List.Forall₂ (IsFrameOf crates) payloads frames ∧
      List.Forall₂ (fun payload frame => writeFrame crates [] payload = .ok frame) payloads frames ∧
      ∀ written, payloads.foldlM (writeFrame crates) written = .ok (written ++ frames.flatten) := by
  induction payloads with
  | nil =>
    use []
    simp
  | cons payload payloads ih =>
    have withinOthers : ∀ other ∈ payloads, other.length ≤ maxFramePayload := by
      intro other member
      exact within other (by simp [member])
    have correctsOthers : ∀ other ∈ payloads, Corrects crates (EccLayout.sized other.length) := by
      intro other member
      exact corrects other (by simp [member])
    obtain ⟨frames, areFrames, each, all⟩ := ih withinOthers correctsOthers
    obtain ⟨code, coded, writes⟩ := writeFrame_coded (within payload (by simp)) (corrects payload (by simp))
    use frameOf crates (EccLayout.sized payload.length) payload code :: frames
    constructor
    · exact List.Forall₂.cons ⟨code, coded, rfl⟩ areFrames
    constructor
    · exact List.Forall₂.cons (by simpa using writes []) each
    · intro written
      rw [List.foldlM_cons, writes, ok_bind, all, List.flatten_cons, List.append_assoc]

theorem readsAll_of_arrives {payloads frames arrivals : List (List UInt8)}
    (within : ∀ payload ∈ payloads, payload.length ≤ maxFramePayload)
    (areFrames : List.Forall₂ (IsFrameOf crates) payloads frames) (arrives : Arrives crates payloads frames arrivals) :
    ReadsAll crates arrivals.flatten payloads := by
  induction arrives with
  | nil => exact ReadsAll.ended rfl
  | cons damaged _ ih =>
    rename_i payload frame arrived payloads frames arrivals _
    cases areFrames with
    | cons isFrame others =>
      obtain ⟨code, coded, rfl⟩ := isFrame
      obtain ⟨hit, few, damage, detects⟩ := damaged
      have fits := fitsFrame_sized (within payload (by simp))
      have read := readFrame_damaged fits coded few damage detects arrivals.flatten
      have rest := ih (fun other member => within other (by simp [member])) others
      exact ReadsAll.frame read rest

/-- Payloads written as frames one after another are read back in order, up to the end of the stream, and also when each
frame has been damaged in at most two of its shards. -/
theorem frames_readBack {payloads : List (List UInt8)} (within : ∀ payload ∈ payloads, payload.length ≤ maxFramePayload)
    (corrects : ∀ payload ∈ payloads, Corrects crates (EccLayout.sized payload.length)) :
    ∃ frames, List.Forall₂ (fun payload frame => writeFrame crates [] payload = .ok frame) payloads frames ∧
      payloads.foldlM (writeFrame crates) [] = .ok frames.flatten ∧ ReadsAll crates frames.flatten payloads ∧
      ∀ arrivals, Arrives crates payloads frames arrivals → ReadsAll crates arrivals.flatten payloads := by
  obtain ⟨frames, areFrames, each, all⟩ := writeFrames_eq within corrects
  use frames
  constructor
  · exact each
  constructor
  · exact all []
  constructor
  · exact readsAll_of_arrives within areFrames (arrives_refl areFrames.length_eq)
  · intro arrivals arrives
    exact readsAll_of_arrives within areFrames arrives

end

/-! ## Two frames of a stream -/

def sampleFrame (payload : List UInt8) (first : UInt8) : List UInt8 :=
  frameOf pairCrates (EccLayout.sized 1) payload (pairShards [first] [0])

/-- A frame of one byte that has lost two shards, and the frame of an empty payload that has lost one. -/
def sampleArrivals : List (List UInt8) := [((sampleFrame [42] 42).set 36 7).set 39 9, (sampleFrame [] 0).set 37 1]

theorem sampleArrivals_readBack : ReadsAll pairCrates sampleArrivals.flatten [[42], []] := by
  have within : ∀ payload ∈ [[(42 : UInt8)], []], payload.length ≤ maxFramePayload := by decide
  have corrects : ∀ payload ∈ [[(42 : UInt8)], []], Corrects pairCrates (EccLayout.sized payload.length) := by
    intro payload member
    simp only [List.mem_cons, List.not_mem_nil, or_false] at member
    cases member with
    | inl first =>
      subst first
      exact pairCrates_corrects (by decide) (by decide)
    | inr second =>
      subst second
      exact pairCrates_corrects (by decide) (by decide)
  have firstDamaged : DamagedFrame pairCrates [42] (sampleFrame [42] 42) (((sampleFrame [42] 42).set 36 7).set 39 9) := by
    use [0, 3]
    constructor
    · decide
    constructor
    · apply damagedIn_of_forall
      · decide +kernel
      · decide +kernel
    · apply detects_of_forall
      decide +kernel
  have secondDamaged : DamagedFrame pairCrates [] (sampleFrame [] 0) ((sampleFrame [] 0).set 37 1) := by
    use [1]
    constructor
    · decide
    constructor
    · apply damagedIn_of_forall
      · decide +kernel
      · decide +kernel
    · apply detects_of_forall
      decide +kernel
  obtain ⟨frames, each, _, _, readBack⟩ := frames_readBack within corrects
  have firstWritten : writeFrame pairCrates [] [42] = .ok (sampleFrame [42] 42) := by decide +kernel
  have secondWritten : writeFrame pairCrates [] [] = .ok (sampleFrame [] 0) := by decide +kernel
  cases each with
  | cons first others =>
    cases others with
    | cons second none_left =>
      cases none_left
      rw [firstWritten] at first
      rw [secondWritten] at second
      cases first
      cases second
      exact readBack sampleArrivals (Arrives.cons firstDamaged (Arrives.cons secondDamaged Arrives.nil))

end MjFormatter.Verified

/-! ## Torn streams

A write that breaks off leaves a stream that ends inside a frame.  The frames before it are read, and the reader then
fails, except when so little is left of the torn frame that the reader finds no magic and takes it for the end. -/

namespace MjFormatter.Verified

open Files Files.EccFrame Library.Bytes Library.Erasures

/-! ## More bytes do not change what was read -/

section
variable {stream rest : List UInt8}

theorem readExact_more {count : Nat} {bytes : List UInt8} (read : readExact count stream = .ok (bytes, rest))
    (extra : List UInt8) : readExact count (stream ++ extra) = .ok (bytes, rest ++ extra) := by
  by_cases enough : count ≤ stream.length
  · simp only [readExact, if_pos enough, Except.ok.injEq, Prod.mk.injEq] at read
    have more : count ≤ (stream ++ extra).length := by
      rw [List.length_append]
      omega
    rw [readExact, if_pos more, List.take_append_of_le_length enough, List.drop_append_of_le_length enough, read.1, read.2]
  · simp [readExact, enough] at read

theorem readLe_more {width value : Nat} (read : readLe width stream = .ok (value, rest)) (extra : List UInt8) :
    readLe width (stream ++ extra) = .ok (value, rest ++ extra) := by
  obtain ⟨⟨bytes, left⟩, exact_read, done⟩ := Library.bind_eq_ok_iff.mp read
  simp only [pure_eq_ok, Except.ok.injEq, Prod.mk.injEq] at done
  simp only [readLe, readExact_more exact_read extra, ok_bind, pure_eq_ok, done.1, done.2]

theorem readHeader_more {header : Header} (read : readHeader stream = .ok (header, rest)) (extra : List UInt8) :
    readHeader (stream ++ extra) = .ok (header, rest ++ extra) := by
  obtain ⟨⟨payloadLen, afterLen⟩, readLen, read⟩ := Library.bind_eq_ok_iff.mp read
  obtain ⟨_, checkedLen, read⟩ := Library.bind_eq_ok_iff.mp read
  obtain ⟨⟨payloadCrc, afterCrc⟩, readCrc, read⟩ := Library.bind_eq_ok_iff.mp read
  obtain ⟨⟨dataShards, afterData⟩, readData, read⟩ := Library.bind_eq_ok_iff.mp read
  obtain ⟨⟨parityShards, afterParity⟩, readParity, read⟩ := Library.bind_eq_ok_iff.mp read
  obtain ⟨⟨shardSize, afterSize⟩, readSize, read⟩ := Library.bind_eq_ok_iff.mp read
  obtain ⟨_, checkedData, read⟩ := Library.bind_eq_ok_iff.mp read
  obtain ⟨_, checkedParity, read⟩ := Library.bind_eq_ok_iff.mp read
  obtain ⟨_, checkedSize, read⟩ := Library.bind_eq_ok_iff.mp read
  simp only [pure_eq_ok, Except.ok.injEq, Prod.mk.injEq] at read
  simp only [readHeader, readLe_more readLen extra, readLe_more readCrc extra, readLe_more readData extra,
    readLe_more readParity extra, readLe_more readSize extra, checkedLen, checkedData, checkedParity, checkedSize, ok_bind,
    pure_eq_ok, read.1, read.2]

theorem readCrcs_more {count : Nat} {expected : List UInt32} (read : readCrcs count stream = .ok (expected, rest))
    (extra : List UInt8) : readCrcs count (stream ++ extra) = .ok (expected, rest ++ extra) := by
  induction count generalizing stream expected with
  | zero =>
    simp only [readCrcs, pure_eq_ok, Except.ok.injEq, Prod.mk.injEq] at read
    simp only [readCrcs, pure_eq_ok, read.1, read.2]
  | succ count ih =>
    obtain ⟨⟨crc, afterCrc⟩, readCrc, read⟩ := Library.bind_eq_ok_iff.mp read
    obtain ⟨⟨others, afterOthers⟩, readOthers, read⟩ := Library.bind_eq_ok_iff.mp read
    simp only [pure_eq_ok, Except.ok.injEq, Prod.mk.injEq] at read
    rw [read.2] at readOthers
    simp only [readCrcs, readLe_more readCrc extra, ih readOthers, ok_bind, pure_eq_ok, read.1]

theorem readShards_more {crates : Crates} {shardSize corrupted : Nat} {expected : List UInt32}
    {shards : List (Option Shard)} (read : readShards crates shardSize expected stream = .ok (shards, corrupted, rest))
    (extra : List UInt8) :
    readShards crates shardSize expected (stream ++ extra) = .ok (shards, corrupted, rest ++ extra) := by
  induction expected generalizing stream rest shards corrupted with
  | nil =>
    simp only [readShards, pure_eq_ok, Except.ok.injEq, Prod.mk.injEq] at read
    simp only [readShards, pure_eq_ok, read.1, read.2.1, read.2.2]
  | cons checksum expected ih =>
    obtain ⟨⟨shard, afterShard⟩, readShard, read⟩ := Library.bind_eq_ok_iff.mp read
    obtain ⟨⟨others, others_corrupted, afterOthers⟩, readOthers, read⟩ := Library.bind_eq_ok_iff.mp read
    dsimp only at readShard readOthers read
    simp only [readShards, readExact_more readShard extra, ih readOthers, ok_bind, pure_eq_ok]
    by_cases matching : crates.crc32 shard = checksum
    · simp only [if_pos matching, pure_eq_ok, Except.ok.injEq, Prod.mk.injEq] at read ⊢
      simp [read]
    · simp only [if_neg matching, pure_eq_ok, Except.ok.injEq, Prod.mk.injEq] at read ⊢
      simp [read]

/-- A frame that is read from the front of a stream is read from every longer one. -/
theorem readFrame_more {crates : Crates} {payload : List UInt8}
    (read : readFrame crates stream = .ok (some payload, rest)) (extra : List UInt8) :
    readFrame crates (stream ++ extra) = .ok (some payload, rest ++ extra) := by
  unfold readFrame at read
  cases readMagic : readExact 4 stream with
  | error failure => simp [readMagic] at read
  | ok first =>
    obtain ⟨magic, afterMagic⟩ := first
    rw [readMagic] at read
    obtain ⟨_, checkedMagic, read⟩ := Library.bind_eq_ok_iff.mp read
    obtain ⟨⟨header, afterHeader⟩, header_read, read⟩ := Library.bind_eq_ok_iff.mp read
    obtain ⟨⟨expected, afterCrcs⟩, crcs_read, read⟩ := Library.bind_eq_ok_iff.mp read
    obtain ⟨⟨shards, corrupted, afterShards⟩, shards_read, read⟩ := Library.bind_eq_ok_iff.mp read
    obtain ⟨recovered, recovers, read⟩ := Library.bind_eq_ok_iff.mp read
    simp only [pure_eq_ok, Except.ok.injEq, Prod.mk.injEq, Option.some.injEq] at read
    rw [readFrame, readExact_more readMagic extra]
    simp only [checkedMagic, readHeader_more header_read extra, readCrcs_more crcs_read extra,
      readShards_more shards_read extra, recovers, ok_bind, pure_eq_ok, read.1, read.2]

end

/-! ## A frame that has been cut -/

section
variable {crates : Crates}

theorem readFrame_end_iff {stream : List UInt8} :
    (∃ rest, readFrame crates stream = .ok (none, rest)) ↔ stream.length < 4 := by
  constructor
  · intro ended
    obtain ⟨rest, ended⟩ := ended
    by_contra enough
    rw [readFrame, readExact, if_pos (Nat.le_of_not_lt enough)] at ended
    obtain ⟨_, _, ended⟩ := Library.bind_eq_ok_iff.mp ended
    obtain ⟨_, _, ended⟩ := Library.bind_eq_ok_iff.mp ended
    obtain ⟨_, _, ended⟩ := Library.bind_eq_ok_iff.mp ended
    obtain ⟨_, _, ended⟩ := Library.bind_eq_ok_iff.mp ended
    obtain ⟨_, _, ended⟩ := Library.bind_eq_ok_iff.mp ended
    simp at ended
  · intro short
    use []
    rw [readFrame, readExact, if_neg (Nat.not_le_of_lt short)]

theorem readFrame_frame {payload frame : List UInt8} (within : payload.length ≤ maxFramePayload)
    (isFrame : IsFrameOf crates payload frame) (rest : List UInt8) :
    readFrame crates (frame ++ rest) = .ok (some payload, rest) := by
  obtain ⟨code, coded, rfl⟩ := isFrame
  have undamaged : DamagedFrame crates payload (frameOf crates (EccLayout.sized payload.length) payload code)
      (frameOf crates (EccLayout.sized payload.length) payload code) := damagedFrame_refl _ _
  obtain ⟨hit, few, damage, detects⟩ := undamaged
  exact readFrame_damaged (fitsFrame_sized within) coded few damage detects rest

/-- No payload comes from a part of a frame. -/
theorem readFrame_cut {payload frame : List UInt8} {cut : Nat} (within : payload.length ≤ maxFramePayload)
    (isFrame : IsFrameOf crates payload frame) (inside : cut < frame.length) (found rest : List UInt8) :
    readFrame crates (frame.take cut) ≠ .ok (some found, rest) := by
  intro read
  have whole : readFrame crates (frame.take cut ++ frame.drop cut) = .ok (some payload, []) := by
    rw [List.take_append_drop]
    simpa using readFrame_frame within isFrame []
  rw [readFrame_more read, Except.ok.injEq, Prod.mk.injEq, List.append_eq_nil_iff, List.drop_eq_nil_iff] at whole
  exact absurd whole.2.2 (Nat.not_le_of_lt inside)

/-! ## A stream that has been cut -/

/-- The reader gives back the payloads and stands before the rest of the stream. -/
inductive ReadsTo (crates : Crates) : List UInt8 → List (List UInt8) → List UInt8 → Prop where
  | here (stream : List UInt8) : ReadsTo crates stream [] stream
  | frame {stream payload next rest : List UInt8} {payloads : List (List UInt8)}
      (read : readFrame crates stream = .ok (some payload, next)) (others : ReadsTo crates next payloads rest) :
      ReadsTo crates stream (payload :: payloads) rest

/-- The reader gives back the payloads and fails, and it reports the end of the stream only where the stream ends. -/
def DetectsCut (crates : Crates) (stream : List UInt8) (payloads : List (List UInt8)) : Prop :=
  (∃ rest failure, ReadsTo crates stream payloads rest ∧ readFrame crates rest = .error failure) ∧
    ∀ before rest left, ReadsTo crates stream before rest → readFrame crates rest = .ok (none, left) → rest = []

theorem readsTo_frames {payloads frames : List (List UInt8)}
    (within : ∀ payload ∈ payloads, payload.length ≤ maxFramePayload)
    (areFrames : List.Forall₂ (IsFrameOf crates) payloads frames) (rest : List UInt8) :
    ReadsTo crates (frames.flatten ++ rest) payloads rest := by
  induction areFrames with
  | nil => exact ReadsTo.here rest
  | cons isFrame _ ih =>
    rename_i payload frame payloads frames _
    have read := readFrame_frame (within payload (by simp)) isFrame (frames.flatten ++ rest)
    rw [List.flatten_cons, List.append_assoc]
    exact ReadsTo.frame read (ih fun other member => within other (by simp [member]))

/-- A reader that is not given a payload any more stands where the frames end. -/
theorem stuck_readsTo {payloads frames : List (List UInt8)} {tail : List UInt8}
    (within : ∀ payload ∈ payloads, payload.length ≤ maxFramePayload)
    (areFrames : List.Forall₂ (IsFrameOf crates) payloads frames)
    (stuck : ∀ found left, readFrame crates tail ≠ .ok (some found, left)) {before : List (List UInt8)}
    {rest : List UInt8} (reads : ReadsTo crates (frames.flatten ++ tail) before rest)
    (none_found : ∀ found left, readFrame crates rest ≠ .ok (some found, left)) : before = payloads ∧ rest = tail := by
  induction areFrames generalizing before with
  | nil =>
    cases reads with
    | here => simp
    | frame read others => exact absurd read (stuck _ _)
  | cons isFrame _ ih =>
    rename_i payload frame payloads frames _
    have whole := readFrame_frame (within payload (by simp)) isFrame (frames.flatten ++ tail)
    rw [List.flatten_cons, List.append_assoc] at reads
    cases reads with
    | here => exact absurd whole (none_found _ _)
    | frame read others =>
      rw [whole, Except.ok.injEq, Prod.mk.injEq, Option.some.injEq] at read
      obtain ⟨same, next⟩ := read
      subst next
      have later := ih (fun other member => within other (by simp [member])) others
      simp [same, later]

theorem within_of_writeFrame {written payload longer : List UInt8}
    (writes : writeFrame crates written payload = .ok longer) : payload.length ≤ maxFramePayload := by
  by_contra large
  simp [writeFrame, forPayload, ensure_of_not large] at writes

theorem within_of_writeFrames {payloads : List (List UInt8)} {written longer : List UInt8}
    (writes : payloads.foldlM (writeFrame crates) written = .ok longer) :
    ∀ payload ∈ payloads, payload.length ≤ maxFramePayload := by
  induction payloads generalizing written with
  | nil => simp
  | cons payload payloads ih =>
    rw [List.foldlM_cons] at writes
    obtain ⟨next, first, others⟩ := Library.bind_eq_ok_iff.mp writes
    intro other member
    cases List.mem_cons.mp member with
    | inl same =>
      rw [same]
      exact within_of_writeFrame first
    | inr later => exact ih others other later

/-- A stream that is cut inside a frame is read up to that frame and is then refused just when the magic of the frame is
left: fewer bytes are taken for the end of the stream. -/
theorem cutFrame_detected_iff {payloads : List (List UInt8)} {torn stream longer : List UInt8} {cut : Nat}
    (corrects : ∀ payload ∈ payloads ++ [torn], Corrects crates (EccLayout.sized payload.length))
    (written : payloads.foldlM (writeFrame crates) [] = .ok stream) (more : writeFrame crates stream torn = .ok longer)
    (after : stream.length < cut) (before : cut < longer.length) :
    DetectsCut crates (longer.take cut) payloads ↔ stream.length + frameMagic.length ≤ cut := by
  have within := within_of_writeFrames written
  have tornWithin := within_of_writeFrame more
  obtain ⟨frames, areFrames, _, all⟩ := writeFrames_eq within fun payload member => corrects payload (by simp [member])
  obtain ⟨code, coded, writes⟩ := writeFrame_coded tornWithin (corrects torn (by simp))
  have isFrame : IsFrameOf crates torn (frameOf crates (EccLayout.sized torn.length) torn code) := ⟨code, coded, rfl⟩
  rw [all, List.nil_append, Except.ok.injEq] at written
  rw [writes, Except.ok.injEq] at more
  generalize frameOf crates (EccLayout.sized torn.length) torn code = frame at isFrame more
  subst written more
  generalize part : cut - frames.flatten.length = kept
  have stream_eq : (frames.flatten ++ frame).take cut = frames.flatten ++ frame.take kept := by
    rw [List.take_append, part, List.take_of_length_le after.le]
  have inside : kept < frame.length := by
    rw [List.length_append] at before
    omega
  have some_kept : 0 < kept := by omega
  have length : (frame.take kept).length = kept := by
    rw [List.length_take]
    omega
  have stuck := readFrame_cut tornWithin isFrame inside
  have condition : frames.flatten.length + frameMagic.length ≤ cut ↔ 4 ≤ kept := by
    rw [frameMagic_length]
    omega
  rw [stream_eq, condition]
  constructor
  · intro detects
    obtain ⟨⟨rest, failure, reads, fails⟩, _⟩ := detects
    have stops : ∀ found left, readFrame crates rest ≠ .ok (some found, left) := by
      simp [fails]
    have here := (stuck_readsTo within areFrames stuck reads stops).2
    by_contra short
    have ends : ∃ left, readFrame crates (frame.take kept) = .ok (none, left) := readFrame_end_iff.mpr (by omega)
    obtain ⟨left, ended⟩ := ends
    rw [here, ended] at fails
    cases fails
  · intro enough
    have no_end : ∀ left, readFrame crates (frame.take kept) ≠ .ok (none, left) := by
      intro left ended
      have short := readFrame_end_iff.mp ⟨left, ended⟩
      omega
    constructor
    · cases outcome : readFrame crates (frame.take kept) with
      | error failure => exact ⟨_, failure, readsTo_frames within areFrames _, outcome⟩
      | ok result =>
        obtain ⟨found, left⟩ := result
        cases found with
        | none => exact absurd outcome (no_end left)
        | some found => exact absurd outcome (stuck found left)
    · intro others rest left reads ended
      have stops : ∀ found left, readFrame crates rest ≠ .ok (some found, left) := by
        simp [ended]
      have here := (stuck_readsTo within areFrames stuck reads stops).2
      rw [here] at ended
      exact absurd ended (no_end left)

end

/-! ## A torn stream of two frames -/

theorem sampleFrames_written : [[42]].foldlM (writeFrame pairCrates) [] = .ok (sampleFrame [42] 42) ∧
    writeFrame pairCrates (sampleFrame [42] 42) [] = .ok (sampleFrame [42] 42 ++ sampleFrame [] 0) := by
  constructor
  · decide +kernel
  · decide +kernel

theorem tornSample_detected : DetectsCut pairCrates ((sampleFrame [42] 42 ++ sampleFrame [] 0).take 44) [[42]] := by
  have corrects : ∀ payload ∈ [[(42 : UInt8)]] ++ [[]], Corrects pairCrates (EccLayout.sized payload.length) := by
    intro payload member
    simp only [List.cons_append, List.nil_append, List.mem_cons, List.not_mem_nil, or_false] at member
    cases member with
    | inl first =>
      subst first
      exact pairCrates_corrects (by decide) (by decide)
    | inr second =>
      subst second
      exact pairCrates_corrects (by decide) (by decide)
  obtain ⟨first, second⟩ := sampleFrames_written
  exact (cutFrame_detected_iff corrects first second (by decide +kernel) (by decide +kernel)).mpr (by decide +kernel)

/-- One byte of the second frame is left, and the reader takes it for the end of the stream. -/
theorem firstByte_undetected : ∃ stream longer, [[42]].foldlM (writeFrame pairCrates) [] = .ok stream ∧
    writeFrame pairCrates stream [] = .ok longer ∧ stream.length + 1 < longer.length ∧
    ¬DetectsCut pairCrates (longer.take (stream.length + 1)) [[42]] := by
  use sampleFrame [42] 42, sampleFrame [42] 42 ++ sampleFrame [] 0
  constructor
  · exact sampleFrames_written.1
  constructor
  · exact sampleFrames_written.2
  constructor
  · decide +kernel
  · intro detects
    obtain ⟨_, only_at_end⟩ := detects
    have read : readFrame pairCrates ((sampleFrame [42] 42 ++ sampleFrame [] 0).take ((sampleFrame [42] 42).length + 1)) =
        .ok (some [42], [77]) := by decide +kernel
    have ended : readFrame pairCrates [77] = .ok (none, []) := by decide +kernel
    have reads := ReadsTo.frame read (ReadsTo.here [77])
    exact absurd (only_at_end _ _ _ reads ended) (by simp)

end MjFormatter.Verified
