import MjFormatter.Graph.Store
import MjFormatter.Verified.StateFileDamage

/-! # Migration of the persisted graph

The store finds out the layout of a file by trying the current one first.  A legacy file whose bytes the current layout
happens to accept is read as another graph. -/

namespace MjFormatter.Verified

open Files Files.StateCodec Files.Wire MjFormatter.Graph Library.Bytes Library.Codecs Library.Erasures Std

/-! ## Files without damage -/

section
variable {crates : Crates} {payload encoded : List UInt8}

theorem maxStateBytes_eq : maxStateBytes = 24 + 34 * 4 + 34 * 8388608 := by decide +kernel

theorem within_of_encodePayload (written : encodePayload crates payload = .ok encoded) :
    payload.length ≤ maxPayloadBytes := by
  by_contra beyond
  simp [encodePayload, forPayloadLen, ensure_of_not beyond] at written

theorem DamagedIn.refl (headerLen : Nat) (layout : EccLayout) (frame : List UInt8) :
    DamagedIn headerLen layout [] frame frame := by
  constructor
  · rfl
  · intro offset differs
    exact absurd rfl differs

theorem Detects.refl (headerLen : Nat) (layout : EccLayout) (frame : List UInt8) :
    Detects headerLen layout crates frame frame := by
  intro k shard expected found entry altered
  exact absurd found altered

/-- No payload needs larger shards than the largest one. -/
theorem sized_shardSize_le_largest {payloadLen : Nat} (within : payloadLen ≤ maxPayloadBytes) :
    (EccLayout.sized payloadLen).shardSize ≤ 8388608 := by
  have effective : max payloadLen 1 ≤ 32 * 8388608 := by
    simp only [maxPayloadBytes] at within
    omega
  by_cases few : max payloadLen 1 ⌈/⌉ eccTargetShardSize ≤ eccMaxDataShards
  · -- At most 32 shards of the target size hold the payload.
    have short := (ceilDiv_le_iff_le_smul (by decide)).mp few
    simp only [eccTargetShardSize, eccMaxDataShards, smul_eq_mul] at short
    have size := sized_shardSize_le payloadLen
    omega
  · have most : (EccLayout.sized payloadLen).dataShards = 32 := by
      have clamped : min (max payloadLen 1 ⌈/⌉ eccTargetShardSize) eccMaxDataShards = eccMaxDataShards :=
        min_eq_right (Nat.le_of_not_le few)
      simp only [EccLayout.sized, clamped]
      rfl
    have size : (EccLayout.sized payloadLen).shardSize =
        max (max payloadLen 1 ⌈/⌉ (EccLayout.sized payloadLen).dataShards) 1 := rfl
    rw [size, most]
    apply max_le
    · exact (ceilDiv_le_iff_le_smul (by decide)).mpr effective
    · decide

theorem length_fileOf (within : payload.length ≤ maxPayloadBytes) {code : List Shard}
    (coded : Coded crates (EccLayout.sized payload.length) payload code) :
    headerLen ≤ (fileOf crates (EccLayout.sized payload.length) payload code).length ∧
      (fileOf crates (EccLayout.sized payload.length) payload code).length ≤ maxStateBytes := by
  have length : (fileOf crates (EccLayout.sized payload.length) payload code).length =
      shardsStart headerLen (EccLayout.sized payload.length) +
        (EccLayout.sized payload.length).totalShards * (EccLayout.sized payload.length).shardSize := by
    rw [fileOf, length_frame coded, length_headerBytes]
  have few := totalShards_le (sized_sound payload.length)
  have shards : (EccLayout.sized payload.length).totalShards * (EccLayout.sized payload.length).shardSize ≤ 34 * 8388608 :=
    Nat.mul_le_mul few (sized_shardSize_le_largest within)
  rw [length, shardsStart, maxStateBytes_eq, headerLen_eq]
  omega

/-- A file that is as it was written is decoded to its payload. -/
theorem decodePayload_written (corrects : Corrects crates (EccLayout.sized payload.length))
    (written : encodePayload crates payload = .ok encoded) : decodePayload crates encoded = .ok payload ∧
      headerLen ≤ encoded.length ∧ encoded.length ≤ maxStateBytes := by
  have within := within_of_encodePayload written
  have fits := fitsHeader_sized within
  obtain ⟨code, coded, encodes⟩ := encodePayload_coded within corrects
  rw [written, Except.ok.injEq] at encodes
  subst encodes
  constructor
  · apply decodePayload_of_intact fits coded (Nat.zero_le _) (DamagedIn.refl _ _ _) (Detects.refl _ _ _)
    rw [fileOf, ← length_headerBytes (EccLayout.sized payload.length) payload.length (crates.crc32 payload),
      checksumTable_frame coded]
  · exact length_fileOf within coded

/-- The store reads the payload of a written file in the first layout that accepts it. -/
theorem readPersisted_written {T : Type} {codec : Codec T} {value : T} (path : String)
    (corrects : Corrects crates (EccLayout.sized (codec.encode value).length))
    (written : encodeBinary crates (postcard codec) value = .ok encoded) :
    readPersisted crates path (some encoded) =
      .ok ((((persistedProjectGraph.decode (codec.encode value)).map Prod.fst).or
        (((persistedProjectGraphV6.decode (codec.encode value)).map Prod.fst).map PersistedProjectGraphV6.migrated))) := by
  have payload : encodePayload crates (codec.encode value) = .ok encoded := by
    simpa [encodeBinary, postcard] using written
  obtain ⟨decoded, long, short⟩ := decodePayload_written corrects payload
  rw [headerLen_eq] at long
  have notEmpty : ¬encoded.length = 0 := by omega
  have read (U : Type) (other : Codec U) : readDecodeBinary crates (postcard other) path encoded =
      context "failed postcard state decoding" ((other.decode (codec.encode value)).map Prod.fst) := by
    simp only [readDecodeBinary, ensure_of short, ok_bind, decodeBinary, decoded, postcard]
  simp only [readPersisted, notEmpty, if_false, ensure_of short, ok_bind, read]
  cases (persistedProjectGraph.decode (codec.encode value)).map Prod.fst with
  | some graph => rfl
  | none =>
    cases (persistedProjectGraphV6.decode (codec.encode value)).map Prod.fst with
    | some legacy => rfl
    | none => rfl

end

/-! ## Legacy payloads under the current layout -/

/-- The fields of a legacy graph in which the layouts differ. -/
def learnedFields (legacy : PersistedProjectGraphV6 F64) :
    StringMap PolicyClusterLearningStatsV6 × StringMap RetryStats × StringMap Nat :=
  (legacy.state.policyClusterLearning, legacy.state.retryStrategyLearning, legacy.state.retryCulpritPairs)

/-- What the current layout makes of the learned fields as the legacy layout writes them. -/
def misread (legacy : PersistedProjectGraphV6 F64) :
    Option ((StringMap PolicyClusterLearningStats × StringMap RetryStats × StringMap Nat) × List UInt8) :=
  (learned policyClusterLearningStats).decode ((learned policyClusterLearningStatsV6).encode (learnedFields legacy))

/-- The migrated graph with other learned fields. -/
def relearned (legacy : PersistedProjectGraphV6 F64)
    (fields : StringMap PolicyClusterLearningStats × StringMap RetryStats × StringMap Nat) : PersistedProjectGraph F64 :=
  { legacy.migrated with
    state := { legacy.migrated.state with
      clusterLearning := fields.1
      retryLearning := fields.2.1
      culpritPairs := fields.2.2 } }

/-- Up to the learned fields the layouts agree. -/
theorem decode_legacy {legacy : PersistedProjectGraphV6 F64} (valid : persistedProjectGraphV6.Valid legacy) :
    persistedProjectGraph.decode (persistedProjectGraphV6.encode legacy) =
      (misread legacy).map fun found => (relearned legacy found.1, found.2) := by
  obtain ⟨generation, state⟩ := legacy
  have generationFits : u64.Valid generation := valid.1
  have observedFits : observed.Valid (state.schemaVersion, state.nodes, state.edges, state.metrics, state.tombstones,
    state.convergencePairs, state.pairLastSeenMs) := valid.2.1
  have split : persistedProjectGraphV6.encode ⟨generation, state⟩ =
      u64.encode generation ++ (observed.encode (state.schemaVersion, state.nodes, state.edges, state.metrics,
        state.tombstones, state.convergencePairs, state.pairLastSeenMs) ++
        (learned policyClusterLearningStatsV6).encode (learnedFields ⟨generation, state⟩)) := rfl
  rw [split, persistedProjectGraph, Codec.record_decode, Codec.pair_decode_append _ _ generationFits, projectGraphState,
    Codec.record_decode, Codec.pair_decode_append _ _ observedFits, Option.map_map, Option.map_map, Option.map_map]
  rfl

theorem length_widen (stats : PolicyClusterLearningStatsV6) :
    (policyClusterLearningStats.encode stats.widen).length = (policyClusterLearningStatsV6.encode stats).length + 4 := by
  have split : policyClusterLearningStats.encode stats.widen = clusterCounters.encode stats ++ [0, 0, 0, 0] := rfl
  rw [split, List.length_append]
  rfl

theorem clusterLearning_into {R : Type} (state : ProjectGraphStateV6 R) :
    state.into.clusterLearning = state.policyClusterLearning.map fun _ stats => stats.widen :=
  collect_map_toList state.policyClusterLearning PolicyClusterLearningStatsV6.widen

theorem length_flatMap_widen (entries : List (String × PolicyClusterLearningStatsV6)) :
    ((entries.map fun entry => (entry.1, entry.2.widen)).flatMap (string.pair policyClusterLearningStats).encode).length =
      (entries.flatMap (string.pair policyClusterLearningStatsV6).encode).length + 4 * entries.length := by
  induction entries with
  | nil => rfl
  | cons entry entries ih =>
    have first : ((string.pair policyClusterLearningStats).encode (entry.1, entry.2.widen)).length =
        ((string.pair policyClusterLearningStatsV6).encode entry).length + 4 := by
      simp only [Codec.pair, List.length_append, length_widen, Nat.add_assoc]
    simp only [List.map_cons, List.flatMap_cons, List.length_append, List.length_cons, ih, first]
    omega

def sharedFront (legacy : PersistedProjectGraphV6 F64) : List UInt8 :=
  u64.encode legacy.generation ++ observed.encode (legacy.state.schemaVersion, legacy.state.nodes, legacy.state.edges,
    legacy.state.metrics, legacy.state.tombstones, legacy.state.convergencePairs, legacy.state.pairLastSeenMs)

def sharedBack (legacy : PersistedProjectGraphV6 F64) : List UInt8 :=
  (btreeMap retryStats).encode legacy.state.retryStrategyLearning ++ (btreeMap u64).encode legacy.state.retryCulpritPairs

theorem encode_legacy (legacy : PersistedProjectGraphV6 F64) : persistedProjectGraphV6.encode legacy =
    sharedFront legacy ++ ((btreeMap policyClusterLearningStatsV6).encode legacy.state.policyClusterLearning ++
      sharedBack legacy) := by
  rw [sharedFront, List.append_assoc]
  rfl

theorem encode_migrated (legacy : PersistedProjectGraphV6 F64) : persistedProjectGraph.encode legacy.migrated =
    sharedFront legacy ++ ((btreeMap policyClusterLearningStats).encode legacy.state.into.clusterLearning ++
      sharedBack legacy) := by
  rw [sharedFront, List.append_assoc]
  rfl

/-- The current layout spends four more bytes on every entry of the migrated map. -/
theorem length_migrated (legacy : PersistedProjectGraphV6 F64) :
    (persistedProjectGraph.encode legacy.migrated).length =
      (persistedProjectGraphV6.encode legacy).length + 4 * legacy.state.policyClusterLearning.size := by
  have clusters : ((btreeMap policyClusterLearningStats).encode legacy.state.into.clusterLearning).length =
      ((btreeMap policyClusterLearningStatsV6).encode legacy.state.policyClusterLearning).length +
        4 * legacy.state.policyClusterLearning.size := by
    have entries := length_flatMap_widen legacy.state.policyClusterLearning.toList
    simp only [btreeMap, Codec.map, Codec.list, clusterLearning_into, ExtTreeMap.toList_map, List.length_append, entries,
      ExtTreeMap.length_toList, ExtTreeMap.size_map]
    omega
  simp only [encode_migrated, encode_legacy, List.length_append, clusters]
  omega

/-- Without entries for clusters the two layouts write the same bytes. -/
theorem decode_legacy_of_empty {legacy : PersistedProjectGraphV6 F64} (valid : persistedProjectGraphV6.Valid legacy)
    (empty : legacy.state.policyClusterLearning = ∅) :
    persistedProjectGraph.decode (persistedProjectGraphV6.encode legacy) = some (legacy.migrated, []) := by
  have none : legacy.state.into.clusterLearning = ∅ := by
    rw [clusterLearning_into, ExtTreeMap.map_eq_empty_iff, empty]
  have noEntries : (btreeMap policyClusterLearningStats).Valid ∅ := by
    simp [btreeMap, Codec.map, Codec.list]
  have migratedFits : persistedProjectGraph.Valid legacy.migrated := by
    apply And.intro valid.1
    apply And.intro valid.2.1
    apply And.intro _ valid.2.2.2
    show (btreeMap policyClusterLearningStats).Valid legacy.state.into.clusterLearning
    rw [none]
    exact noEntries
  have same : persistedProjectGraphV6.encode legacy = persistedProjectGraph.encode legacy.migrated := by
    rw [encode_legacy, encode_migrated, none, empty]
    rfl
  rw [same]
  simpa using persistedProjectGraph.decode_encode legacy.migrated [] migratedFits

/-- A legacy payload with entries for clusters is no encoding of the migrated graph, whatever follows it. -/
theorem ne_migrated_of_decode {legacy : PersistedProjectGraphV6 F64} (filled : legacy.state.policyClusterLearning ≠ ∅)
    {graph : PersistedProjectGraph F64} {rest : List UInt8}
    (decoded : persistedProjectGraph.decode (persistedProjectGraphV6.encode legacy) = some (graph, rest)) :
    graph ≠ legacy.migrated := by
  intro same
  subst same
  have frugal := persistedProjectGraph.frugal _ _ _ decoded
  have positive : 0 < legacy.state.policyClusterLearning.size := by
    apply Nat.pos_of_ne_zero
    intro zero
    exact filled (ExtTreeMap.eq_empty_iff_size_eq_zero.mpr zero)
  rw [length_migrated] at frugal
  omega

/-! ## What the store reads -/

/-- A current file is read as it was written; a legacy file is migrated, and is no current file with other contents, exactly
when it has no entries for clusters or the current layout rejects its learned fields. -/
theorem readPersisted_migrates_iff {crates : Crates} {graph : PersistedProjectGraph F64}
    {legacy : PersistedProjectGraphV6 F64} {file legacyFile : List UInt8} (path : String)
    (fits : persistedProjectGraph.Valid graph) (legacyFits : persistedProjectGraphV6.Valid legacy)
    (corrects : Corrects crates (EccLayout.sized (persistedProjectGraph.encode graph).length))
    (legacyCorrects : Corrects crates (EccLayout.sized (persistedProjectGraphV6.encode legacy).length))
    (written : encodeBinary crates (postcard persistedProjectGraph) graph = .ok file)
    (legacyWritten : encodeBinary crates (postcard persistedProjectGraphV6) legacy = .ok legacyFile) :
    readPersisted crates path (some file) = .ok (some graph) ∧
      ((readPersisted crates path (some legacyFile) = .ok (some legacy.migrated) ∧
          ∀ other, (postcard persistedProjectGraph).fromBytes (persistedProjectGraphV6.encode legacy) = some other →
            other = legacy.migrated) ↔
        legacy.state.policyClusterLearning = ∅ ∨ misread legacy = none) := by
  have roundTrip := persistedProjectGraph.decode_encode graph [] fits
  have legacyRoundTrip := persistedProjectGraphV6.decode_encode legacy [] legacyFits
  rw [List.append_nil] at roundTrip legacyRoundTrip
  have read := readPersisted_written path legacyCorrects legacyWritten
  have layouts := decode_legacy legacyFits
  constructor
  · rw [readPersisted_written path corrects written, roundTrip]
    rfl
  constructor
  · intro ⟨_, faithful⟩
    by_cases filled : legacy.state.policyClusterLearning = ∅
    · exact Or.inl filled
    · right
      cases found : misread legacy with
      | none => rfl
      | some pair =>
        rw [found, Option.map_some] at layouts
        exact absurd (faithful _ (by simp [postcard, layouts])) (ne_migrated_of_decode filled layouts)
  · intro condition
    cases condition with
    | inl empty =>
      have current := decode_legacy_of_empty legacyFits empty
      constructor
      · rw [read, current]
        rfl
      · intro other accepted
        simpa [postcard, current] using accepted.symm
    | inr rejected =>
      rw [rejected, Option.map_none] at layouts
      constructor
      · rw [read, layouts, legacyRoundTrip]
        rfl
      · intro other accepted
        simp [postcard, layouts] at accepted

/-! ## A legacy file with one cluster -/

def clusterCounts : PolicyClusterLearningStatsV6 where
  decisions := 4
  apply := 3
  applyPartial := 0
  advisoryOnly := 0
  block := 0
  accepted := 2
  regressed := 0
  reverted := 0

def oneCluster (retries : StringMap RetryStats) : PersistedProjectGraphV6 F64 where
  generation := 9
  state :=
    { schemaVersion := 6
      nodes := ∅
      edges := []
      metrics := ∅
      tombstones := ∅
      convergencePairs := ∅
      pairLastSeenMs := ∅
      policyClusterLearning := (∅ : StringMap PolicyClusterLearningStatsV6).insert "naming_conventions|42" clusterCounts
      retryStrategyLearning := retries
      retryCulpritPairs := ∅ }

theorem exists_written {crates : Crates} {T : Type} {codec : Codec T} {value : T}
    (within : (codec.encode value).length ≤ maxPayloadBytes)
    (corrects : Corrects crates (EccLayout.sized (codec.encode value).length)) :
    ∃ file, encodeBinary crates (postcard codec) value = .ok file := by
  obtain ⟨code, _, encodes⟩ := encodePayload_coded within corrects
  use fileOf crates (EccLayout.sized (codec.encode value).length) (codec.encode value) code
  simp [encodeBinary, postcard, encodes]

/-- A cluster with nothing learned about retrying is migrated. -/
theorem oneCluster_migrated : ∃ file legacyFile,
    encodeBinary pairCrates (postcard persistedProjectGraph) (oneCluster ∅).migrated = .ok file ∧
      encodeBinary pairCrates (postcard persistedProjectGraphV6) (oneCluster ∅) = .ok legacyFile ∧
      readPersisted pairCrates "graph.bin" (some file) = .ok (some (oneCluster ∅).migrated) ∧
      readPersisted pairCrates "graph.bin" (some legacyFile) = .ok (some (oneCluster ∅).migrated) := by
  have corrects : Corrects pairCrates (EccLayout.sized (persistedProjectGraph.encode (oneCluster ∅).migrated).length) :=
    pairCrates_corrects (by decide +kernel) rfl
  have legacyCorrects : Corrects pairCrates (EccLayout.sized (persistedProjectGraphV6.encode (oneCluster ∅)).length) :=
    pairCrates_corrects (by decide +kernel) rfl
  obtain ⟨file, written⟩ := exists_written (by decide +kernel) corrects
  obtain ⟨legacyFile, legacyWritten⟩ := exists_written (by decide +kernel) legacyCorrects
  obtain ⟨current, migrates⟩ := readPersisted_migrates_iff "graph.bin" (by decide +kernel) (by decide +kernel) corrects
    legacyCorrects written legacyWritten
  have rejected : misread (oneCluster ∅) = none := by decide +kernel
  exact ⟨file, legacyFile, written, legacyWritten, current, (migrates.mpr (Or.inr rejected)).1⟩

/-- A cluster, and a strategy that has been recorded without an attempt. -/
def recorded : PersistedProjectGraphV6 F64 := oneCluster ((∅ : StringMap RetryStats).insert "ab" ⟨0, 0⟩)

/-- The entry for retrying is taken for the four fields that the current layout adds to the cluster. -/
def swallowed : PersistedProjectGraph F64 := relearned recorded
  ((∅ : StringMap PolicyClusterLearningStats).insert "naming_conventions|42"
    { clusterCounts.widen with decisionEmaBp := 1, outcomeEmaBp := 2, decisionEvents := 97, outcomeEvents := 98 }, ∅, ∅)

theorem recorded_swallowed : persistedProjectGraphV6.Valid recorded ∧ swallowed ≠ recorded.migrated ∧
    ∃ file, encodeBinary pairCrates (postcard persistedProjectGraphV6) recorded = .ok file ∧
      readPersisted pairCrates "graph.bin" (some file) = .ok (some swallowed) := by
  have differs : swallowed ≠ recorded.migrated := by
    intro same
    have retries := congrArg (fun graph => graph.state.retryLearning.size) same
    revert retries
    decide +kernel
  have corrects : Corrects pairCrates (EccLayout.sized (persistedProjectGraphV6.encode recorded).length) :=
    pairCrates_corrects (by decide +kernel) rfl
  obtain ⟨file, written⟩ := exists_written (by decide +kernel) corrects
  have bytes : persistedProjectGraphV6.encode recorded = persistedProjectGraph.encode swallowed ++ [0] := by
    decide +kernel
  have read := readPersisted_written "graph.bin" corrects written
  rw [bytes, persistedProjectGraph.decode_encode swallowed [0] (by decide +kernel)] at read
  exact ⟨by decide +kernel, differs, file, written, read⟩

end MjFormatter.Verified
