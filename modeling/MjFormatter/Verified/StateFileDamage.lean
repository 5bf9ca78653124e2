import MjFormatter.Files.Codec
import MjFormatter.Verified.PairCodec

/-! # Damaged state files

A state file with damage in at most two of its shards is read back exactly when the damage has spared the table of
checksums: the last pass compares the reconstructed shards with the table as it was read. -/

namespace MjFormatter.Verified

open Files Files.StateCodec Library.Bytes Library.Erasures

/-! ## The header -/

theorem binaryMagic_length : binaryMagic.length = 8 := by decide +kernel

theorem headerLen_eq : headerLen = 24 := by
  simp [headerLen, payloadChecksumOffset, shardSizeOffset, parityShardsOffset, dataShardsOffset, payloadLenOffset,
    binaryMagic_length, payloadLenBytes, dataShardsBytes, parityShardsBytes, shardSizeBytes, payloadChecksumBytes]

/-- A number is read at the offset at which its field starts. -/
theorem readUint_field {fields : List (List UInt8)} (k : Nat) {width value offset : Nat}
    (found : fields[k]? = some (toLe width value)) (small : value < 256 ^ width)
    (skipped : (fields.take k).flatten.length = offset) (rest : List UInt8) (name : String) :
    readUint width (fields.flatten ++ rest) offset name = .ok value := by
  subst skipped
  obtain ⟨inside, here⟩ := List.getElem?_eq_some_iff.mp found
  have split : fields.flatten ++ rest =
      (fields.take k).flatten ++ (toLe width value ++ ((fields.drop (k + 1)).flatten ++ rest)) := by
    calc fields.flatten ++ rest = (fields.take k ++ fields.drop k).flatten ++ rest := by rw [List.take_append_drop]
      _ = _ := by simp [List.drop_eq_getElem_cons inside, here]
  have long : (fields.take k).flatten.length + width ≤ (fields.flatten ++ rest).length := by
    rw [split]
    simp only [List.length_append, length_toLe]
    omega
  have field : slice (fields.flatten ++ rest) (fields.take k).flatten.length width = toLe width value := by
    rw [split, slice, List.drop_left, List.take_left' (length_toLe _ _)]
  simp only [readUint, getRange_of_le long, field, context_some, ok_bind, pure_eq_ok, ofLe_toLe small]

def headerFields (layout : EccLayout) (payloadLen : Nat) (checksum : UInt32) : List (List UInt8) :=
  [binaryMagic, toLe payloadLenBytes payloadLen, toLe dataShardsBytes layout.dataShards,
    toLe parityShardsBytes layout.parityShards, toLe shardSizeBytes layout.shardSize,
    toLe payloadChecksumBytes checksum.toNat]

def headerBytes (layout : EccLayout) (payloadLen : Nat) (checksum : UInt32) : List UInt8 :=
  (headerFields layout payloadLen checksum).flatten

theorem length_headerBytes (layout : EccLayout) (payloadLen : Nat) (checksum : UInt32) :
    (headerBytes layout payloadLen checksum).length = headerLen := by
  simp [headerBytes, headerFields, headerLen, payloadChecksumOffset, shardSizeOffset, parityShardsOffset, dataShardsOffset,
    payloadLenOffset, Nat.add_assoc]

/-- The numbers of the layout fit into the fields of a header. -/
structure FitsHeader (layout : EccLayout) (payloadLen : Nat) : Prop where
  sound : EccLayout.Sound layout
  payload : payloadLen ≤ maxPayloadBytes
  size : layout.shardSize ≤ maxPayloadBytes

theorem fitsHeader_sized {payloadLen : Nat} (within : payloadLen ≤ maxPayloadBytes) :
    FitsHeader (EccLayout.sized payloadLen) payloadLen := by
  constructor
  · exact sized_sound payloadLen
  · exact within
  · have small := sized_shardSize_le payloadLen
    simp only [maxPayloadBytes] at *
    omega

section
variable {layout : EccLayout} {payloadLen : Nat}

theorem header_eq (fits : FitsHeader layout payloadLen) (checksum : UInt32) :
    header layout payloadLen checksum = .ok (headerBytes layout payloadLen checksum) := by
  have data : layout.dataShards ≤ u16Max := le_trans fits.sound.maxData (by decide)
  have parity : layout.parityShards ≤ u16Max := by
    rw [fits.sound.parity]
    decide
  have size : layout.shardSize ≤ Files.u32Max := le_trans fits.size (by decide)
  simp [header, tryFrom_of_le data, tryFrom_of_le parity, tryFrom_of_le size, headerBytes, headerFields]

theorem readHeader_eq (fits : FitsHeader layout payloadLen) (checksum : UInt32) (rest : List UInt8) :
    readHeader (headerBytes layout payloadLen checksum ++ rest) =
      .ok { payloadLen, layout, payloadChecksum := checksum } := by
  have magic : binaryMagic.isPrefixOf (headerBytes layout payloadLen checksum ++ rest) = true := by
    simp [headerBytes, headerFields]
  have long : headerLen ≤ (headerBytes layout payloadLen checksum ++ rest).length := by
    simp [length_headerBytes]
  have small : payloadLen < 256 ^ 4 := lt_of_le_of_lt fits.payload (by decide)
  have smallSize : layout.shardSize < 256 ^ 4 := lt_of_le_of_lt fits.size (by decide)
  have smallData : layout.dataShards < 256 ^ 2 := lt_of_le_of_lt fits.sound.maxData (by decide)
  have smallParity : layout.parityShards < 256 ^ 2 := by
    rw [fits.sound.parity]
    decide
  have first : readU32 (headerBytes layout payloadLen checksum ++ rest) payloadLenOffset "payload length" =
      .ok payloadLen := by
    apply readUint_field 1 rfl small
    simp [headerFields, payloadLenOffset]
  have second : readU16 (headerBytes layout payloadLen checksum ++ rest) dataShardsOffset "data_shards" =
      .ok layout.dataShards := by
    apply readUint_field 2 rfl smallData
    simp [headerFields, dataShardsOffset, payloadLenOffset]
  have third : readU16 (headerBytes layout payloadLen checksum ++ rest) parityShardsOffset "parity_shards" =
      .ok layout.parityShards := by
    apply readUint_field 3 rfl smallParity
    simp [headerFields, parityShardsOffset, dataShardsOffset, payloadLenOffset, Nat.add_assoc]
  have fourth : readU32 (headerBytes layout payloadLen checksum ++ rest) shardSizeOffset "shard_size" =
      .ok layout.shardSize := by
    apply readUint_field 4 rfl smallSize
    simp [headerFields, shardSizeOffset, parityShardsOffset, dataShardsOffset, payloadLenOffset, Nat.add_assoc]
  have fifth : readU32 (headerBytes layout payloadLen checksum ++ rest) payloadChecksumOffset "payload_checksum" =
      .ok checksum.toNat := by
    apply readUint_field 5 rfl checksum.toNat_lt
    simp [headerFields, payloadChecksumOffset, shardSizeOffset, parityShardsOffset, dataShardsOffset, payloadLenOffset,
      Nat.add_assoc]
  have dataRange : eccMinDataShards ≤ layout.dataShards ∧ layout.dataShards ≤ eccMaxDataShards :=
    ⟨fits.sound.minData, fits.sound.maxData⟩
  have nonzero : layout.shardSize ≠ 0 := Nat.pos_iff_ne_zero.mp fits.sound.positive
  simp only [readHeader, ensure_of magic, ensure_of long, first, ensure_of fits.payload, second, third, fourth, fifth,
    fromHeader, ensure_of dataRange, ensure_of fits.sound.parity, ensure_of nonzero, ok_bind, pure_eq_ok,
    UInt32.ofNat_toNat]

end

/-! ## The passes over the shards -/

theorem readShardChecksums_eq {bytes : List UInt8} {offset count : Nat} (long : offset + count * 4 ≤ bytes.length) :
    readShardChecksums bytes offset count =
      .ok ((blocks 4 count (bytes.drop offset)).map fun entry => UInt32.ofNat (ofLe entry)) := by
  induction count generalizing offset with
  | zero => simp [readShardChecksums, blocks]
  | succ count ih =>
    have inside : offset + 4 ≤ bytes.length := by omega
    have others := ih (show offset + 4 + count * 4 ≤ bytes.length by omega)
    simp only [readShardChecksums, readU32, readUint, getRange_of_le inside, shardChecksumBytes, others, blocks_succ,
      context_some, ok_bind, pure_eq_ok, List.map_cons, List.drop_drop, slice]

section
variable {crates : Crates} {dataShards : Nat}

/-- The last pass joins the data shards when the table is that of the shards. -/
theorem joinShards_intact (front back : List Shard) (payload : List UInt8) :
    joinShards crates dataShards ((front ++ back).map some) front.length (back.map crates.crc32) payload =
      .ok (payload ++ (back.take (dataShards - front.length)).flatten) := by
  induction back generalizing front payload with
  | nil => simp [joinShards]
  | cons shard back ih =>
    have here : ((front ++ shard :: back).map some)[front.length]?.join = some shard := by simp
    have next := ih (front ++ [shard])
    simp only [List.append_assoc, List.singleton_append, List.length_append, List.length_singleton] at next
    rw [List.map_cons, joinShards, here, context_some, ok_bind]
    dsimp only
    rw [ensure_of rfl, ok_bind, next]
    by_cases data : front.length < dataShards
    · have more : dataShards - front.length = (dataShards - (front.length + 1)) + 1 := by omega
      simp [data, more]
    · have done : dataShards - front.length = 0 := by omega
      have stillDone : dataShards - (front.length + 1) = 0 := by omega
      simp [data, done, stillDone]

/-- The last pass succeeds with no other table. -/
theorem eq_of_joinShards (front back : List Shard) {expected : List UInt32} {payload joined : List UInt8}
    (sameLength : expected.length = back.length)
    (done : joinShards crates dataShards ((front ++ back).map some) front.length expected payload = .ok joined) :
    expected = back.map crates.crc32 := by
  induction back generalizing front expected payload with
  | nil => simpa using sameLength
  | cons shard back ih =>
    cases expected with
    | nil => simp at sameLength
    | cons checksum expected =>
      have here : ((front ++ shard :: back).map some)[front.length]?.join = some shard := by simp
      simp only [joinShards, here, context_some, ok_bind] at done
      by_cases matching : crates.crc32 shard = checksum
      · rw [ensure_of matching, ok_bind] at done
        have shifted : (front ++ shard :: back).map some = ((front ++ [shard]) ++ back).map some := by simp
        rw [shifted, show front.length + 1 = (front ++ [shard]).length by simp] at done
        have others := ih _ (by simpa using sameLength) done
        rw [List.map_cons, matching, others]
      · rw [ensure_of_not matching, error_bind] at done
        simp at done

end

/-! ## Encoding and decoding -/

section
variable {crates : Crates} {layout : EccLayout} {payload damaged : List UInt8} {code : List Shard} {hit : List Nat}

def fileOf (crates : Crates) (layout : EccLayout) (payload : List UInt8) (code : List Shard) : List UInt8 :=
  headerBytes layout payload.length (crates.crc32 payload) ++ frameBody crates code

theorem totalShards_le (sound : EccLayout.Sound layout) : layout.totalShards ≤ 34 := by
  have data := sound.maxData
  have parity := sound.parity
  simp only [eccMaxDataShards, eccParityShards] at data parity
  simp only [EccLayout.totalShards]
  omega

/-- No length overflows on the way to that of the file. -/
theorem lengths_eq (fits : FitsHeader layout payload.length) :
    checksumTableLen layout = .ok (layout.totalShards * 4) ∧
      shardsLen layout = .ok (layout.totalShards * layout.shardSize) ∧
      ((checkedAdd headerLen (layout.totalShards * 4)).bind fun value =>
        checkedAdd value (layout.totalShards * layout.shardSize)) =
          some (shardsStart headerLen layout + layout.totalShards * layout.shardSize) := by
  have few := totalShards_le fits.sound
  have shards : layout.totalShards * layout.shardSize ≤ 34 * maxPayloadBytes := Nat.mul_le_mul few fits.size
  simp only [maxPayloadBytes] at shards
  have table : layout.totalShards * 4 ≤ usizeMax := by
    simp only [usizeMax]
    omega
  have start : headerLen + layout.totalShards * 4 ≤ usizeMax := by
    simp only [usizeMax, headerLen_eq]
    omega
  have whole : headerLen + layout.totalShards * 4 + layout.totalShards * layout.shardSize ≤ usizeMax := by
    simp only [usizeMax, headerLen_eq]
    omega
  have shardsFit : layout.totalShards * layout.shardSize ≤ usizeMax := le_trans (Nat.le_add_left _ _) whole
  simp [checksumTableLen, shardsLen, shardChecksumBytes, checkedMul_of_le table, checkedMul_of_le shardsFit,
    checkedAdd_of_le start, checkedAdd_of_le whole, shardsStart]

theorem encodePayload_coded (within : payload.length ≤ maxPayloadBytes)
    (corrects : Corrects crates (EccLayout.sized payload.length)) :
    ∃ code, Coded crates (EccLayout.sized payload.length) payload code ∧
      encodePayload crates payload = .ok (fileOf crates (EccLayout.sized payload.length) payload code) := by
  have fits := fitsHeader_sized within
  obtain ⟨code, encoded, coded⟩ := encodeShards_coded fits.sound.positive (payloadLen_le_sized payload.length) corrects
    "failed encoding reed-solomon parity shards"
  obtain ⟨table, shards, whole⟩ := lengths_eq fits
  have fitsU32 : payload.length ≤ Files.u32Max := le_trans within (by decide)
  use code, coded
  simp only [encodePayload, forPayloadLen, ensure_of within, tryFrom_of_le fitsU32, encoded, encodedLen, table, shards,
    whole, header_eq fits, context_some, ok_bind, pure_eq_ok, fileOf, frameBody, shardChecksumBytes]

/-- What is left of a damaged file is decided by the last pass over the shards. -/
theorem decodePayload_damaged (fits : FitsHeader layout payload.length) (coded : Coded crates layout payload code)
    (few : hit.length ≤ layout.parityShards)
    (damage : DamagedIn headerLen layout hit (fileOf crates layout payload code) damaged)
    (detects : Detects headerLen layout crates (fileOf crates layout payload code) damaged) :
    decodePayload crates damaged = (do
      let joined ← joinShards crates layout.dataShards (code.map some) 0 (checksumTable headerLen layout damaged) []
      let restored := joined.take payload.length
      ensure (crates.crc32 restored = crates.crc32 payload) ("payload checksum mismatch after reconstruction: expected " ++
        hex08 (crates.crc32 payload) ++ ", got " ++ hex08 (crates.crc32 restored))
      return restored) := by
  have headerLength := length_headerBytes layout payload.length (crates.crc32 payload)
  have front : damaged = headerBytes layout payload.length (crates.crc32 payload) ++ damaged.drop headerLen := by
    have same := damage.header_eq
    rw [fileOf, ← headerLength, List.take_left, headerLength] at same
    rw [← same, List.take_append_drop]
  have read : readHeader damaged =
      .ok { payloadLen := payload.length, layout, payloadChecksum := crates.crc32 payload } := by
    rw [front]
    exact readHeader_eq fits _ _
  obtain ⟨table, shards, whole⟩ := lengths_eq fits
  have length : damaged.length = shardsStart headerLen layout + layout.totalShards * layout.shardSize := by
    rw [damage.length_eq, fileOf, ← headerLength, length_frame coded]
  have tableLong : headerLen + layout.totalShards * 4 ≤ damaged.length := by
    rw [length, shardsStart]
    exact Nat.le_add_right _ _
  rw [fileOf, ← headerLength] at damage detects
  have erased := erased_received coded detects
  have missingFew := le_trans (missing_received_le coded damage) few
  rw [headerLength] at erased missingFew
  simp only [survivors, checksumTable, shardsOf] at erased missingFew
  have recovered := coded.reconstruct_eq _ "failed reconstructing corrupted state shards" erased missingFew
  have start : headerLen + layout.totalShards * 4 = shardsStart headerLen layout := rfl
  simp only [decodePayload, read, table, shards, whole, ensure_of length, readShardChecksums_eq tableLong, start,
    ensure_of missingFew, recovered, context_some, ok_bind, checksumTable]

/-- Decoding succeeds only with the table that was written. -/
theorem intact_of_decodePayload (fits : FitsHeader layout payload.length) (coded : Coded crates layout payload code)
    (few : hit.length ≤ layout.parityShards)
    (damage : DamagedIn headerLen layout hit (fileOf crates layout payload code) damaged)
    (detects : Detects headerLen layout crates (fileOf crates layout payload code) damaged) {restored : List UInt8}
    (decoded : decodePayload crates damaged = .ok restored) :
    checksumTable headerLen layout damaged = code.map crates.crc32 := by
  rw [decodePayload_damaged fits coded few damage detects] at decoded
  cases joined : joinShards crates layout.dataShards (code.map some) 0 (checksumTable headerLen layout damaged) [] with
  | error failure =>
    rw [joined, error_bind] at decoded
    simp at decoded
  | ok value =>
    have sameLength : (checksumTable headerLen layout damaged).length = code.length := by
      rw [length_checksumTable, coded.length_eq]
    exact eq_of_joinShards [] code sameLength joined

theorem decodePayload_of_intact (fits : FitsHeader layout payload.length) (coded : Coded crates layout payload code)
    (few : hit.length ≤ layout.parityShards)
    (damage : DamagedIn headerLen layout hit (fileOf crates layout payload code) damaged)
    (detects : Detects headerLen layout crates (fileOf crates layout payload code) damaged)
    (intact : checksumTable headerLen layout damaged = code.map crates.crc32) :
    decodePayload crates damaged = .ok payload := by
  have joined : joinShards crates layout.dataShards (code.map some) 0 (code.map crates.crc32) [] =
      .ok (code.take layout.dataShards).flatten := joinShards_intact [] code []
  rw [decodePayload_damaged fits coded few damage detects, intact, joined, ok_bind]
  dsimp only
  rw [coded.payload_eq, ensure_of rfl, ok_bind, pure_eq_ok]

end

/-! ## What is read back -/

/-- With at most two damaged shards, the value is read back if and only if the table of checksums is intact. -/
theorem decodeBinary_damaged_iff {T : Type} {crates : Crates} {postcard : Postcard T} {value : T} {payload : List UInt8}
    (serialized : postcard.toAllocvec value = some payload) (deserialized : postcard.fromBytes payload = some value)
    (within : payload.length ≤ maxPayloadBytes) (corrects : Corrects crates (EccLayout.sized payload.length)) :
    ∃ encoded, encodeBinary crates postcard value = .ok encoded ∧
      ∀ (hit : List Nat) (damaged : List UInt8), hit.length ≤ eccParityShards →
        DamagedIn headerLen (EccLayout.sized payload.length) hit encoded damaged →
        Detects headerLen (EccLayout.sized payload.length) crates encoded damaged →
        (decodeBinary crates postcard damaged = .ok value ↔
          checksumTable headerLen (EccLayout.sized payload.length) damaged =
            checksumTable headerLen (EccLayout.sized payload.length) encoded) := by
  have fits := fitsHeader_sized within
  obtain ⟨code, coded, encoded⟩ := encodePayload_coded within corrects
  use fileOf crates (EccLayout.sized payload.length) payload code
  constructor
  · simp [encodeBinary, serialized, encoded]
  intro hit damaged few damage detects
  have original : checksumTable headerLen (EccLayout.sized payload.length)
      (fileOf crates (EccLayout.sized payload.length) payload code) = code.map crates.crc32 := by
    rw [fileOf, ← length_headerBytes (EccLayout.sized payload.length) payload.length (crates.crc32 payload),
      checksumTable_frame coded]
  rw [original]
  constructor
  · intro decoded
    cases restored : decodePayload crates damaged with
    | error failure => simp [decodeBinary, restored] at decoded
    | ok bytes => exact intact_of_decodePayload fits coded few damage detects restored
  · intro intact
    have restored := decodePayload_of_intact fits coded few damage detects intact
    simp [decodeBinary, restored, deserialized]

/-! ## A file of one byte -/

/-- A `u8` is written as it is. -/
def u8Postcard : Postcard UInt8 where
  toAllocvec value := some [value]
  fromBytes := List.head?

def sampleFile : List UInt8 := fileOf pairCrates (EccLayout.sized 1) [42] (pairShards [42] [0])

/-- The first data shard and the last parity shard are overwritten. -/
def shardsLost : List UInt8 := (sampleFile.set 40 7).set 43 9

/-- Two damaged shards are made good. -/
theorem shardsLost_readBack : encodeBinary pairCrates u8Postcard 42 = .ok sampleFile ∧
    decodeBinary pairCrates u8Postcard shardsLost = .ok 42 := by
  have written : encodeBinary pairCrates u8Postcard 42 = .ok sampleFile := by decide +kernel
  have serialized : u8Postcard.toAllocvec 42 = some [42] := rfl
  have deserialized : u8Postcard.fromBytes [42] = some 42 := rfl
  have within : [(42 : UInt8)].length ≤ maxPayloadBytes := by decide
  have corrects : Corrects pairCrates (EccLayout.sized [(42 : UInt8)].length) :=
    pairCrates_corrects (by decide) (by decide)
  obtain ⟨encoded, encodes, iff⟩ := decodeBinary_damaged_iff serialized deserialized within corrects
  have same : encoded = sampleFile := by
    rw [written] at encodes
    exact (Except.ok.inj encodes).symm
  subst same
  have damage : DamagedIn headerLen (EccLayout.sized 1) [0, 3] sampleFile shardsLost := by
    apply damagedIn_of_forall
    · decide +kernel
    · decide +kernel
  have detects : Detects headerLen (EccLayout.sized 1) pairCrates sampleFile shardsLost := by
    apply detects_of_forall
    decide +kernel
  have intact : checksumTable headerLen (EccLayout.sized 1) shardsLost =
      checksumTable headerLen (EccLayout.sized 1) sampleFile := by
    decide +kernel
  exact ⟨written, (iff [0, 3] shardsLost (by decide) damage detects).mpr intact⟩

/-- A bit of the checksum of the first shard is flipped. -/
def checksumLost : List UInt8 := sampleFile.set 24 (sampleFile.getD 24 0 ^^^ 1)

/-- One damaged checksum, and the value is lost with every shard intact. -/
theorem checksumLost_rejected : encodeBinary pairCrates u8Postcard 42 = .ok sampleFile ∧
    Corrects pairCrates (EccLayout.sized 1) ∧
    DamagedIn headerLen (EccLayout.sized 1) [0] sampleFile checksumLost ∧
    Detects headerLen (EccLayout.sized 1) pairCrates sampleFile checksumLost ∧
    shardsOf headerLen (EccLayout.sized 1) checksumLost = shardsOf headerLen (EccLayout.sized 1) sampleFile ∧
    decodeBinary pairCrates u8Postcard checksumLost =
      .error "reconstructed shard checksum mismatch at index 0: expected 09b9265a, got 09b9265b" := by
  have written : encodeBinary pairCrates u8Postcard 42 = .ok sampleFile := by decide +kernel
  have corrects : Corrects pairCrates (EccLayout.sized 1) := pairCrates_corrects (by decide) (by decide)
  have damage : DamagedIn headerLen (EccLayout.sized 1) [0] sampleFile checksumLost := by
    apply damagedIn_of_forall
    · decide +kernel
    · decide +kernel
  have detects : Detects headerLen (EccLayout.sized 1) pairCrates sampleFile checksumLost := by
    apply detects_of_forall
    decide +kernel
  have shards : shardsOf headerLen (EccLayout.sized 1) checksumLost = shardsOf headerLen (EccLayout.sized 1) sampleFile := by
    decide +kernel
  have rejected : decodeBinary pairCrates u8Postcard checksumLost =
      .error "reconstructed shard checksum mismatch at index 0: expected 09b9265a, got 09b9265b" := by
    decide +kernel
  exact ⟨written, corrects, damage, detects, shards, rejected⟩

end MjFormatter.Verified
