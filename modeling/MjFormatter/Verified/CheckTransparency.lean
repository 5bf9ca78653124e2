import MjFormatter.Runtime.ResultCache
import MjFormatter.Verified.PairCodec

/-! # Check results from the cache

An entry is found under the file, the checksum and the length of a text.  So the cache gives back what the engine has
said of the text as long as these tell the texts apart. -/

namespace MjFormatter.Verified

open MjFormatter.Runtime Files Library

/-! ## Hexadecimal digits -/

def hexDigits : List Char := "0123456789abcdef".toList

def hexValue (digits : List Char) : Nat := digits.foldl (fun value digit => 16 * value + hexDigits.idxOf digit) 0

theorem idxOf_digitChar {digit : Nat} (small : digit < 16) : hexDigits.idxOf digit.digitChar = digit := by
  revert digit
  decide

theorem digitChar_mem {digit : Nat} (small : digit < 16) : digit.digitChar ∈ hexDigits := by
  revert digit
  decide

theorem hexValue_toDigits (n : Nat) : hexValue (Nat.toDigits 16 n) = n := by
  induction n using Nat.strongRecOn with
  | ind n ih =>
    rw [Nat.toDigits_eq_if (by decide)]
    by_cases small : n < 16
    · rw [if_pos small]
      simp [hexValue, idxOf_digitChar small]
    · have last := idxOf_digitChar (Nat.mod_lt n (by decide : 0 < 16))
      have before : hexValue (Nat.toDigits 16 (n / 16)) = n / 16 := ih (n / 16) (by omega)
      rw [hexValue] at before
      rw [if_neg small, hexValue, List.foldl_append, before, List.foldl_cons, List.foldl_nil, last]
      omega

theorem mem_toDigits {n : Nat} : ∀ digit ∈ Nat.toDigits 16 n, digit ∈ hexDigits := by
  induction n using Nat.strongRecOn with
  | ind n ih =>
    rw [Nat.toDigits_eq_if (by decide)]
    by_cases small : n < 16
    · simpa [small] using digitChar_mem small
    · rw [if_neg small]
      intro digit member
      cases List.mem_append.mp member with
      | inl before => exact ih (n / 16) (by omega) digit before
      | inr last =>
        rw [List.mem_singleton.mp last]
        exact digitChar_mem (Nat.mod_lt n (by decide))

theorem hexValue_zeros (zeros : Nat) (digits : List Char) : hexValue (List.replicate zeros '0' ++ digits) = hexValue digits := by
  induction zeros with
  | zero => rfl
  | succ zeros ih =>
    rw [List.replicate_succ, List.cons_append, ← ih]
    rfl

theorem hex08_inj {left right : UInt32} (same : hex08 left = hex08 right) : left = right := by
  have digits := congrArg (fun text => hexValue text.toList) same
  simp only [hex08, String.toList_ofList, hexValue_zeros, hexValue_toDigits] at digits
  exact UInt32.toNat_inj.mp digits

theorem mem_hex08 {value : UInt32} : ∀ digit ∈ (hex08 value).toList, digit ∈ hexDigits := by
  intro digit member
  simp only [hex08, String.toList_ofList, List.mem_append, List.mem_replicate] at member
  cases member with
  | inl zero =>
    rw [zero.2]
    decide
  | inr own => exact mem_toDigits digit own

/-! ## Keys -/

section
variable {P : Type} {crc32 : List UInt8 → UInt32} {normalizePath : P → String}

theorem contentHash_toList (text : Text) : (contentHash crc32 text).toList =
    (hex08 (crc32 text.asBytes)).toList ++ '-' :: Nat.toDigits 16 text.asBytes.length := by
  simp [contentHash]

theorem eq_of_append_cons_eq {front other back otherBack : List Char} {mark : Char} (frontFree : mark ∉ front)
    (otherFree : mark ∉ other) (same : front ++ mark :: back = other ++ mark :: otherBack) :
    front = other ∧ back = otherBack := by
  induction front generalizing other with
  | nil =>
    cases other with
    | nil => simpa using same
    | cons first others =>
      simp only [List.nil_append, List.cons_append, List.cons.injEq] at same
      simp [same.1] at otherFree
  | cons head front ih =>
    cases other with
    | nil =>
      simp only [List.nil_append, List.cons_append, List.cons.injEq] at same
      simp [same.1] at frontFree
    | cons first others =>
      simp only [List.cons_append, List.cons.injEq] at same
      simp only [List.mem_cons, not_or] at frontFree otherFree
      have rest := ih frontFree.2 otherFree.2 same.2
      simp [same.1, rest]

theorem contentHash_inj {left right : Text} (same : contentHash crc32 left = contentHash crc32 right) :
    crc32 left.asBytes = crc32 right.asBytes ∧ left.asBytes.length = right.asBytes.length := by
  have no_dash : ∀ value, '-' ∉ (hex08 value).toList := by
    intro value member
    exact absurd (mem_hex08 _ member) (by decide)
  have characters := congrArg String.toList same
  rw [contentHash_toList, contentHash_toList] at characters
  obtain ⟨checksums, lengths⟩ := eq_of_append_cons_eq (no_dash _) (no_dash _) characters
  constructor
  · exact hex08_inj (String.toList_inj.mp checksums)
  · rw [← hexValue_toDigits left.asBytes.length, lengths, hexValue_toDigits]

theorem nul_notMem_contentHash (text : Text) : '\x00' ∉ (contentHash crc32 text).toList := by
  intro member
  rw [contentHash_toList, List.mem_append, List.mem_cons] at member
  cases member with
  | inl checksum => exact absurd (mem_hex08 _ checksum) (by decide)
  | inr others =>
    cases others with
    | inl dash => cases dash
    | inr length => exact absurd (mem_toDigits _ length) (by decide)

/-- Two requests share a key when they are for one file and texts of one checksum and one length. -/
def SharesKey (crc32 : List UInt8 → UInt32) (normalizePath : P → String) (path other : P) (text otherText : Text) : Prop :=
  normalizePath path = normalizePath other ∧ crc32 text.asBytes = crc32 otherText.asBytes ∧
    text.asBytes.length = otherText.asBytes.length

theorem makeKey_toList (path : P) (hash fingerprint : String) : (makeKey normalizePath path hash fingerprint).toList.reverse =
    fingerprint.toList.reverse ++ '\x00' :: (hash.toList.reverse ++ '\x00' :: (normalizePath path).toList.reverse) := by
  simp [makeKey]

theorem sharesKey_of_makeKey_eq {path other : P} {text otherText : Text} {fingerprint : String}
    (same : makeKey normalizePath path (contentHash crc32 text) fingerprint =
      makeKey normalizePath other (contentHash crc32 otherText) fingerprint) :
    SharesKey crc32 normalizePath path other text otherText := by
  have fresh : ∀ text : Text, '\x00' ∉ (contentHash crc32 text).toList.reverse := by
    intro text
    rw [List.mem_reverse]
    exact nul_notMem_contentHash text
  have characters := congrArg (fun key => key.toList.reverse) same
  simp only [makeKey_toList, List.append_cancel_left_eq, List.cons.injEq, true_and] at characters
  obtain ⟨hashes, paths⟩ := eq_of_append_cons_eq (fresh text) (fresh otherText) characters
  constructor
  · exact String.toList_inj.mp (List.reverse_inj.mp paths)
  · exact contentHash_inj (String.toList_inj.mp (List.reverse_inj.mp hashes))

end

/-! ## Sessions -/

section
variable {P Gate Trace Clang : Type} (crc32 : List UInt8 → UInt32) (normalizePath : P → String)
  (engine : String → FormatterEngine P Gate Trace Clang) (requests : P → Text → Prop)

/-- The engine's result of a check under a configuration. -/
def checked (fingerprint : String) (path : P) (text : Text) : ProcessedFile P Gate Trace Clang :=
  resultOf (engine fingerprint) true path text

/-- The stores and caches that sessions can come to which only ask for the requests: lookups, entries of the engine's
results and losses of the first level come in any order, and a session may find no store where one was. -/
inductive Sessions : Option (PersistedCheckResultCache Gate Trace) → CheckResultCache Gate Trace → Prop where
  | first (enabled : Bool) (fingerprint : String) : Sessions none (CheckResultCache.openStore none enabled fingerprint)
  | look {file : Option (PersistedCheckResultCache Gate Trace)} {cache : CheckResultCache Gate Trace}
      (before : Sessions file cache) (path : P) (text : Text) :
      Sessions file (cache.get normalizePath path (contentHash crc32 text) :
        Option (ProcessedFile P Gate Trace Clang) × CheckResultCache Gate Trace).2
  | keep {file : Option (PersistedCheckResultCache Gate Trace)} {cache : CheckResultCache Gate Trace} {path : P} {text : Text}
      (before : Sessions file cache) (asked : requests path text) :
      Sessions file (cache.put normalizePath path (contentHash crc32 text) (checked engine cache.fingerprint path text))
  | lose {file : Option (PersistedCheckResultCache Gate Trace)} {cache : CheckResultCache Gate Trace}
      (before : Sessions file cache) (dropped : String → Bool) : Sessions file (cache.evict dropped)
  | save {file : Option (PersistedCheckResultCache Gate Trace)} {cache : CheckResultCache Gate Trace}
      (before : Sessions file cache) : Sessions (cache.flush file).2 (cache.flush file).1
  | next {file : Option (PersistedCheckResultCache Gate Trace)} {cache : CheckResultCache Gate Trace}
      (before : Sessions file cache) (enabled : Bool) (fingerprint : String) :
      Sessions file (CheckResultCache.openStore file enabled fingerprint)
  | remove {file : Option (PersistedCheckResultCache Gate Trace)} {cache : CheckResultCache Gate Trace}
      (before : Sessions file cache) : Sessions none cache

/-- An entry holds what the engine has said of a request. -/
def Provided (fingerprint : String) (entry : String × CachedFileResult Gate Trace) : Prop :=
  ∃ path text, requests path text ∧ (checked engine fingerprint path text).error = none ∧
    entry = (makeKey normalizePath path (contentHash crc32 text) fingerprint,
      fromFileResult (checked engine fingerprint path text))

structure SoundSession (file : Option (PersistedCheckResultCache Gate Trace)) (cache : CheckResultCache Gate Trace) : Prop where
  l1 : ∀ entry ∈ cache.l1, Provided crc32 normalizePath engine requests cache.fingerprint entry
  disk : ∀ entry ∈ cache.diskEntries, Provided crc32 normalizePath engine requests cache.fingerprint entry
  store : ∀ persisted, file = some persisted →
    ∀ entry ∈ persisted.entries, Provided crc32 normalizePath engine requests persisted.fingerprint entry

variable {crc32 normalizePath engine requests}

theorem forall_insertEntry {α : Type} {entries : List (String × α)} {key : String} {value : α} {Holds : String × α → Prop}
    (held : ∀ entry ∈ entries, Holds entry) (new : Holds (key, value)) :
    ∀ entry ∈ insertEntry entries key value, Holds entry := by
  intro entry member
  cases List.mem_cons.mp member with
  | inl isNew => rwa [isNew]
  | inr old => exact held entry (List.mem_filter.mp old).1

theorem mem_of_lookup {α : Type} {entries : List (String × α)} {key : String} {value : α}
    (found : entries.lookup key = some value) : (key, value) ∈ entries := by
  induction entries with
  | nil => simp at found
  | cons entry entries ih =>
    obtain ⟨known, held⟩ := entry
    by_cases same : key = known
    · subst same
      simp only [List.lookup_cons_self, Option.some.injEq] at found
      simp [found]
    · have differs : (key == known) = false := by simpa using same
      rw [List.lookup_cons, differs] at found
      simp [ih found]

section
variable {file : Option (PersistedCheckResultCache Gate Trace)} {cache : CheckResultCache Gate Trace}

theorem forall_loadEntries (sound : SoundSession crc32 normalizePath engine requests file cache) (fingerprint : String) :
    ∀ entry ∈ CheckResultCache.loadEntries file fingerprint,
      Provided crc32 normalizePath engine requests fingerprint entry := by
  unfold CheckResultCache.loadEntries
  cases known : file with
  | none => simp
  | some persisted =>
    by_cases other : persisted.version ≠ cacheVersion ∨ persisted.fingerprint ≠ fingerprint
    · simp [other]
    · simp only [if_neg other]
      simp only [not_or, ne_eq, not_not] at other
      rw [← other.2]
      exact sound.store persisted known

theorem soundSession_open {fingerprint : String} (enabled : Bool)
    (entries : ∀ entry ∈ CheckResultCache.loadEntries file fingerprint,
      Provided crc32 normalizePath engine requests fingerprint entry)
    (store : ∀ persisted, file = some persisted →
      ∀ entry ∈ persisted.entries, Provided crc32 normalizePath engine requests persisted.fingerprint entry) :
    SoundSession crc32 normalizePath engine requests file (CheckResultCache.openStore file enabled fingerprint) := by
  constructor
  · simp [CheckResultCache.openStore]
  · intro entry member
    cases enabled with
    | false => simp [CheckResultCache.openStore] at member
    | true => exact entries entry (by simpa [CheckResultCache.openStore] using member)
  · exact store

theorem soundSession_get (sound : SoundSession crc32 normalizePath engine requests file cache) (path : P) (hash : String) :
    SoundSession crc32 normalizePath engine requests file (cache.get normalizePath path hash :
      Option (ProcessedFile P Gate Trace Clang) × CheckResultCache Gate Trace).2 := by
  unfold CheckResultCache.get
  cases cache.enabled with
  | false => exact sound
  | true =>
    simp only [if_true]
    cases cache.l1.lookup (makeKey normalizePath path hash cache.fingerprint) with
    | some value => exact sound
    | none =>
      cases found : cache.diskEntries.lookup (makeKey normalizePath path hash cache.fingerprint) with
      | none => exact sound
      | some value =>
        constructor
        · exact forall_insertEntry sound.l1 (sound.disk _ (mem_of_lookup found))
        · exact sound.disk
        · exact sound.store

theorem soundSession_put (sound : SoundSession crc32 normalizePath engine requests file cache) {path : P} {text : Text}
    (asked : requests path text) : SoundSession crc32 normalizePath engine requests file
      (cache.put normalizePath path (contentHash crc32 text) (checked engine cache.fingerprint path text)) := by
  unfold CheckResultCache.put
  by_cases kept : cache.enabled = true ∧ (checked engine cache.fingerprint path text).error = none
  · have provided : Provided crc32 normalizePath engine requests cache.fingerprint
        (makeKey normalizePath path (contentHash crc32 text) cache.fingerprint,
          fromFileResult (checked engine cache.fingerprint path text)) := ⟨path, text, asked, kept.2, rfl⟩
    rw [if_pos kept]
    constructor
    · exact forall_insertEntry sound.l1 provided
    · exact forall_insertEntry sound.disk provided
    · exact sound.store
  · rwa [if_neg kept]

theorem soundSession_flush (sound : SoundSession crc32 normalizePath engine requests file cache) :
    SoundSession crc32 normalizePath engine requests (cache.flush file).2 (cache.flush file).1 := by
  unfold CheckResultCache.flush
  by_cases writes : (cache.enabled && cache.dirty) = true
  · rw [if_pos writes]
    constructor
    · exact sound.l1
    · exact sound.disk
    · intro persisted isWritten
      cases isWritten
      exact sound.disk
  · rwa [if_neg writes]

theorem soundSession_of_sessions (sessions : Sessions crc32 normalizePath engine requests file cache) :
    SoundSession crc32 normalizePath engine requests file cache := by
  induction sessions with
  | first enabled fingerprint =>
    apply soundSession_open
    · simp [CheckResultCache.loadEntries]
    · simp
  | look _ path text ih => exact soundSession_get ih path _
  | keep _ asked ih => exact soundSession_put ih asked
  | lose _ dropped ih =>
    constructor
    · exact fun entry member => ih.l1 entry (List.mem_filter.mp member).1
    · exact ih.disk
    · exact ih.store
  | save _ ih => exact soundSession_flush ih
  | next _ enabled fingerprint ih => exact soundSession_open enabled (forall_loadEntries ih fingerprint) ih.store
  | remove _ ih =>
    constructor
    · exact ih.l1
    · exact ih.disk
    · simp

/-! ## What a lookup gives back -/

theorem provided_of_get (sound : SoundSession crc32 normalizePath engine requests file cache) {path : P} {hash : String}
    {result : ProcessedFile P Gate Trace Clang} (hit : (cache.get normalizePath path hash).1 = some result) :
    ∃ value, result = toFileResult path value ∧ Provided crc32 normalizePath engine requests cache.fingerprint
      (makeKey normalizePath path hash cache.fingerprint, value) := by
  unfold CheckResultCache.get at hit
  cases enabled : cache.enabled with
  | false => simp [enabled] at hit
  | true =>
    simp only [enabled, if_true] at hit
    cases first : cache.l1.lookup (makeKey normalizePath path hash cache.fingerprint) with
    | some value =>
      simp only [first, Option.some.injEq] at hit
      exact ⟨value, hit.symm, sound.l1 _ (mem_of_lookup first)⟩
    | none =>
      cases second : cache.diskEntries.lookup (makeKey normalizePath path hash cache.fingerprint) with
      | none => simp [first, second] at hit
      | some value =>
        simp only [first, second, Option.some.injEq] at hit
        exact ⟨value, hit.symm, sound.disk _ (mem_of_lookup second)⟩

/-- A lookup gives back what the engine has said of a request that shares the key. -/
def StoredFor (crc32 : List UInt8 → UInt32) (normalizePath : P → String) (engine : String → FormatterEngine P Gate Trace Clang)
    (requests : P → Text → Prop) (fingerprint : String) (path : P) (text : Text)
    (result : ProcessedFile P Gate Trace Clang) (source : P) (sourceText : Text) : Prop :=
  requests source sourceText ∧ SharesKey crc32 normalizePath path source text sourceText ∧
    (checked engine fingerprint source sourceText).error = none ∧
    result = toFileResult path (fromFileResult (checked engine fingerprint source sourceText))

theorem storedFor_of_get (sessions : Sessions crc32 normalizePath engine requests file cache) {path : P} {text : Text}
    {result : ProcessedFile P Gate Trace Clang}
    (hit : (cache.get normalizePath path (contentHash crc32 text)).1 = some result) :
    ∃ source sourceText,
      StoredFor crc32 normalizePath engine requests cache.fingerprint path text result source sourceText := by
  obtain ⟨value, result_eq, source, sourceText, asked, answered, entry⟩ :=
    provided_of_get (soundSession_of_sessions sessions) hit
  obtain ⟨sameKey, sameValue⟩ := Prod.mk.inj entry
  rw [sameValue] at result_eq
  exact ⟨source, sourceText, asked, sharesKey_of_makeKey_eq sameKey, answered, result_eq⟩

/-! ## Reports -/

/-- What a check reports of a file. -/
structure SameReport (left right : ProcessedFile P Gate Trace Clang) : Prop where
  error : left.error = right.error
  changed : left.changed = right.changed
  violations : left.violations = right.violations
  edits : left.edits = right.edits

/-- Requests that share a key are the same request. -/
def KeysApart (crc32 : List UInt8 → UInt32) (normalizePath : P → String) (requests : P → Text → Prop) : Prop :=
  ∀ path other text otherText, requests path text → requests other otherText →
    SharesKey crc32 normalizePath path other text otherText → path = other ∧ text = otherText

theorem sameReport_fromCache {path : P} {result : ProcessedFile P Gate Trace Clang} (answered : result.error = none) :
    SameReport (toFileResult path (fromFileResult result)) result := by
  constructor
  · exact answered.symm
  · rfl
  · rfl
  · rfl

/-- Processing a file is a lookup, and an entry when nothing is found. -/
theorem sessions_processFile (sessions : Sessions crc32 normalizePath engine requests file cache) {path : P}
    {read : Except String Text} (asked : ∀ text, read = .ok text → requests path text) :
    ∃ after, (processFile crc32 normalizePath (engine cache.fingerprint) true (some cache) path read).2 = some after ∧
      after.fingerprint = cache.fingerprint ∧ Sessions crc32 normalizePath engine requests file after := by
  cases read with
  | error failure => exact ⟨cache, rfl, rfl, sessions⟩
  | ok text =>
    have looked := Sessions.look sessions path text
    have same : (cache.get normalizePath path (contentHash crc32 text) :
        Option (ProcessedFile P Gate Trace Clang) × CheckResultCache Gate Trace).2.fingerprint = cache.fingerprint := by
      unfold CheckResultCache.get
      split
      · dsimp only
        split
        · rfl
        · split
          · rfl
          · rfl
      · rfl
    cases found : (cache.get normalizePath path (contentHash crc32 text) :
        Option (ProcessedFile P Gate Trace Clang) × CheckResultCache Gate Trace) with
    | mk hit opened =>
      rw [found] at looked same
      cases hit with
      | some cached => exact ⟨opened, by simp [processFile, found], same, looked⟩
      | none =>
        have kept := Sessions.keep looked (asked text rfl)
        have fingerprint : (opened.put normalizePath path (contentHash crc32 text)
            (checked engine opened.fingerprint path text)).fingerprint = cache.fingerprint := by
          unfold CheckResultCache.put
          split
          · exact same
          · exact same
        refine ⟨_, ?_, fingerprint, kept⟩
        simp only at same
        simp [processFile, found, checked, same]

/-- With requests apart, a lookup gives back the result of the very text. -/
theorem storedFor_own (sessions : Sessions crc32 normalizePath engine requests file cache)
    (apart : KeysApart crc32 normalizePath requests) {path : P} {text : Text} (asked : requests path text)
    {result : ProcessedFile P Gate Trace Clang}
    (hit : (cache.get normalizePath path (contentHash crc32 text)).1 = some result) :
    StoredFor crc32 normalizePath engine requests cache.fingerprint path text result path text := by
  obtain ⟨source, sourceText, stored⟩ := storedFor_of_get sessions hit
  obtain ⟨samePath, sameText⟩ := apart _ _ _ _ asked stored.1 stored.2.1
  subst samePath sameText
  exact stored

theorem processFile_transparent (sessions : Sessions crc32 normalizePath engine requests file cache)
    (apart : KeysApart crc32 normalizePath requests) {path : P} {read : Except String Text}
    (asked : ∀ text, read = .ok text → requests path text) : SameReport
      (processFile crc32 normalizePath (engine cache.fingerprint) true (some cache) path read).1
      (processFile crc32 normalizePath (engine cache.fingerprint) true none path read).1 := by
  cases read with
  | error failure => exact ⟨rfl, rfl, rfl, rfl⟩
  | ok text =>
    cases found : (cache.get normalizePath path (contentHash crc32 text) :
        Option (ProcessedFile P Gate Trace Clang) × CheckResultCache Gate Trace) with
    | mk hit opened =>
      cases hit with
      | none =>
        simp only [processFile, found, if_true]
        exact ⟨rfl, rfl, rfl, rfl⟩
      | some cached =>
        have hit : (cache.get normalizePath path (contentHash crc32 text)).1 = some cached := by rw [found]
        have stored := storedFor_own sessions apart (asked text rfl) hit
        have report : SameReport (toFileResult path (fromFileResult _)) _ := sameReport_fromCache stored.2.2.1
        rw [← stored.2.2.2] at report
        simp only [processFile, found, if_true]
        exact report

theorem processFiles_transparent (sessions : Sessions crc32 normalizePath engine requests file cache)
    (apart : KeysApart crc32 normalizePath requests) {files : List (P × Except String Text)}
    (asked : ∀ entry ∈ files, ∀ text, entry.2 = .ok text → requests entry.1 text) : List.Forall₂ SameReport
      (processFiles crc32 normalizePath (engine cache.fingerprint) true (some cache) files)
      (processFiles crc32 normalizePath (engine cache.fingerprint) true none files) := by
  induction files generalizing cache with
  | nil => exact List.Forall₂.nil
  | cons entry files ih =>
    have first := processFile_transparent sessions apart (asked entry (by simp))
    obtain ⟨after, opened, fingerprint, later⟩ := sessions_processFile sessions (asked entry (by simp))
    have rest := ih later fun other member => asked other (by simp [member])
    have uncached : (processFile crc32 normalizePath (engine cache.fingerprint) true none entry.1 entry.2).2 = none := by
      cases entry.2 with
      | error failure => rfl
      | ok text => rfl
    rw [fingerprint] at rest
    simp only [processFiles, opened, uncached]
    exact List.Forall₂.cons first rest

/-- Whatever sessions there were: a lookup only gives back a result of the same file and of a text of the same checksum
and length.  Where these tell the requests apart, it is the result of that very text, and a check reports of every file
with the cache what it reports without. -/
theorem cachedCheck_transparent (sessions : Sessions crc32 normalizePath engine requests file cache) :
    (∀ path text result, (cache.get normalizePath path (contentHash crc32 text)).1 = some result →
      ∃ source sourceText,
        StoredFor crc32 normalizePath engine requests cache.fingerprint path text result source sourceText) ∧
    (KeysApart crc32 normalizePath requests →
      (∀ path text result, requests path text →
        (cache.get normalizePath path (contentHash crc32 text)).1 = some result →
          StoredFor crc32 normalizePath engine requests cache.fingerprint path text result path text) ∧
      ∀ files : List (P × Except String Text),
        (∀ entry ∈ files, ∀ text, entry.2 = .ok text → requests entry.1 text) → List.Forall₂ SameReport
          (processFiles crc32 normalizePath (engine cache.fingerprint) true (some cache) files)
          (processFiles crc32 normalizePath (engine cache.fingerprint) true none files)) := by
  constructor
  · intro path text result hit
    exact storedFor_of_get sessions hit
  · intro apart
    constructor
    · intro path text result asked hit
      exact storedFor_own sessions apart asked hit
    · intro files asked
      exact processFiles_transparent sessions apart asked

end

end

/-! ## Two texts of one checksum -/

/-- The file without the directory that says nothing. -/
def withoutDot (path : String) : String :=
  match path.toList with
  | '.' :: '/' :: rest => String.ofList rest
  | _ => path

/-- A violation in one text, as long as the file is named in one way. -/
def namedEngine (text : Text) (path : String) : Except (PassFailure Unit) (PassResult Unit Unit Unit) :=
  .ok
    { policyResult :=
        { text, changed := false
          violations := if text = "plumless".toList ∧ path = "a.cpp" then [⟨.namingConventions, "name", 1, none⟩] else []
          edits := [], warnings := [] }
      convergencePairs := [], accuracyGate := none, clangParse := none, policyTraces := [] }

def openedCache : CheckResultCache Unit Unit := CheckResultCache.openStore none true "check"

/-- The cache after the text has been checked. -/
def filledCache : CheckResultCache Unit Unit :=
  openedCache.put withoutDot "a.cpp" (contentHash crc32 "plumless".toList)
    (checked (fun _ => namedEngine) openedCache.fingerprint "a.cpp" "plumless".toList)

theorem filledCache_sessions : Sessions crc32 withoutDot (fun _ => namedEngine) (fun _ _ => True) none filledCache :=
  Sessions.keep (Sessions.first true "check") trivial

/-- Another text of the checksum and the length gets the violation, and so does the file under another name. -/
theorem sharedKey_misreports :
    Sessions crc32 withoutDot (fun _ => namedEngine) (fun _ _ => True) none filledCache ∧
    ¬SameReport (processFile crc32 withoutDot namedEngine true (some filledCache) "a.cpp" (.ok "buckeroo".toList)).1
      (processFile crc32 withoutDot namedEngine true none "a.cpp" (.ok "buckeroo".toList)).1 ∧
    ¬SameReport (processFile crc32 withoutDot namedEngine true (some filledCache) "./a.cpp" (.ok "plumless".toList)).1
      (processFile crc32 withoutDot namedEngine true none "./a.cpp" (.ok "plumless".toList)).1 := by
  constructor
  · exact filledCache_sessions
  constructor
  · intro same
    have violations := same.violations
    revert violations
    decide +kernel
  · intro same
    have violations := same.violations
    revert violations
    decide +kernel

/-- Only the one text of the file is ever checked. -/
def oneRequest (path : String) (text : Text) : Prop := path = "a.cpp" ∧ text = "plumless".toList

theorem oneRequest_transparent :
    List.Forall₂ SameReport (processFiles crc32 withoutDot namedEngine true (some filledCache) [("a.cpp", .ok "plumless".toList)])
      (processFiles crc32 withoutDot namedEngine true none [("a.cpp", .ok "plumless".toList)]) := by
  have sessions : Sessions crc32 withoutDot (fun _ => namedEngine) oneRequest none filledCache :=
    Sessions.keep (Sessions.first true "check") ⟨rfl, rfl⟩
  have apart : KeysApart crc32 withoutDot oneRequest := by
    intro path other text otherText first second _
    rw [first.1, first.2, second.1, second.2]
    exact ⟨rfl, rfl⟩
  have asked : ∀ entry ∈ [("a.cpp", (Except.ok "plumless".toList : Except String Text))],
      ∀ text, entry.2 = .ok text → oneRequest entry.1 text := by
    intro entry member text read
    rw [List.mem_singleton.mp member] at read ⊢
    cases read
    exact ⟨rfl, rfl⟩
  exact ((cachedCheck_transparent sessions).2 apart).2 _ asked

end MjFormatter.Verified
