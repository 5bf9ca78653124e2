import MjFormatter.Parser.ClangService
import MjFormatter.Verified.PairCodec
import MjFormatter.Verified.JournalFrames

/-! # The lanes of the clang parse service

Handles are told apart by the lanes alone: a response carries nothing that names its request.  It is the response to the right
request because a live helper whose lane is not waiting has empty pipes, and one that a lane gives up on is dead. -/

namespace MjFormatter.Verified

open Files Files.Wire Library.Codecs Library.Bytes MjFormatter.Parser MjFormatter.Parser.ClangParseService EccFrame

/-! ## Payloads -/

section
variable {T : Type} {codec : Codec T}

theorem writePayload_eq {value : T} {bytes : List UInt8} (written : writePayload codec value = .ok bytes) :
    (codec.encode value).length < 2 ^ 64 ∧ bytes = toLe 8 (codec.encode value).length ++ codec.encode value := by
  simp only [writePayload] at written
  split at written
  · rename_i fits
    exact ⟨fits, (Except.ok.inj written).symm⟩
  · simp at written

theorem readPayload_written {value : T} {bytes : List UInt8} (valid : codec.Valid value)
    (written : writePayload codec value = .ok bytes) (closed : Bool) (rest : List UInt8) :
    readPayload codec closed (bytes ++ rest) = .value value rest := by
  obtain ⟨fits, rfl⟩ := writePayload_eq written
  have header : (toLe 8 (codec.encode value).length).length = 8 := length_toLe _ _
  have length : ofLe (toLe 8 (codec.encode value).length) = (codec.encode value).length := ofLe_toLe (by simpa using fits)
  have long : ¬(toLe 8 (codec.encode value).length ++ codec.encode value ++ rest).length < 8 := by
    simp only [List.length_append, header]
    omega
  have decoded := codec.decode_encode value [] valid
  rw [List.append_nil] at decoded
  rw [readPayload, if_neg long]
  simp only [List.append_assoc, List.take_left' header, List.drop_left' header, length, List.length_append,
    List.take_left, List.drop_left, decoded]
  rw [if_neg (by omega)]

/-- Nothing is read before all of a payload is there. -/
theorem length_of_readPayload {value : T} {available rest : List UInt8} {closed : Bool}
    (read : readPayload codec closed available = .value value rest) :
    8 ≤ available.length ∧ 8 + ofLe (available.take 8) ≤ available.length := by
  by_cases header : available.length < 8
  · rw [readPayload, if_pos header] at read
    cases closed with
    | false => simp at read
    | true =>
      by_cases empty : available = []
      · simp [empty] at read
      · simp [empty] at read
  · by_cases body : (available.drop 8).length < ofLe (available.take 8)
    · simp only [readPayload, if_neg header, if_pos body] at read
      cases closed with
      | false => simp at read
      | true => simp at read
    · rw [List.length_drop] at body
      omega

/-- Only the whole of a payload can be read. -/
theorem eq_of_readPayload_prefix {value found : T} {bytes read unread rest : List UInt8} (valid : codec.Valid value)
    (written : writePayload codec value = .ok bytes) (parts : read ++ unread = bytes) {closed : Bool}
    (got : readPayload codec closed read = .value found rest) : found = value ∧ unread = [] ∧ rest = [] := by
  have whole : unread = [] := by
    obtain ⟨fits, rfl⟩ := writePayload_eq written
    have header : (toLe 8 (codec.encode value).length).length = 8 := length_toLe _ _
    obtain ⟨long, enough⟩ := length_of_readPayload got
    have front : read.take 8 = toLe 8 (codec.encode value).length := by
      have same := congrArg (List.take 8) parts
      rwa [List.take_append_of_le_length long, List.take_left' header] at same
    have length : ofLe (read.take 8) = (codec.encode value).length := by
      rw [front]
      exact ofLe_toLe (by simpa using fits)
    have total := congrArg List.length parts
    simp only [List.length_append, header] at total
    exact List.length_eq_zero_iff.mp (by omega)
  subst whole
  rw [List.append_nil] at parts
  subst parts
  have again := readPayload_written valid written closed []
  rw [List.append_nil, got, PayloadRead.value.injEq] at again
  exact ⟨again.1, rfl, again.2⟩

end

/-! ## Translation units -/

/-- A saved unit is loaded as it was saved. -/
theorem unitOf_written {crates : Crates} {unit data : List UInt8} (corrects : Corrects crates (EccLayout.sized unit.length))
    (written : writeFrame crates [] unit = .ok data) : unitOf crates data = .ok unit := by
  have within : unit.length ≤ maxFramePayload := by
    by_contra! large
    rw [writeFrame, forPayload, ensure_of_not (by omega)] at written
    simp at written
  obtain ⟨code, coded, writes⟩ := writeFrame_coded within corrects
  rw [writes, List.nil_append, Except.ok.injEq] at written
  obtain ⟨hit, few, damage, detects⟩ := @damagedFrame_refl crates unit data
  rw [← written] at damage detects
  have read := readFrame_damaged (fitsFrame_sized within) coded few damage detects []
  rw [List.append_nil, written] at read
  rw [unitOf, read]

variable {Details : Type}

/-- The result was made by libclang for the request. -/
def Genuine (libclang : Libclang Details) (request : ClangParseHelperRequest) (result : Parser.ClangParseResult Details) : Prop :=
  ∃ unit extracted,
    libclang.parses request
      (.parsed result.success result.diagnostics result.diagnosticCounts result.diagnosticEntries (.ok unit)) ∧
    libclang.extracts unit request (.ok extracted) ∧ result.symbols = extracted.symbols ∧
    result.renameOffsetsBySymbol = extracted.renameOffsets ∧ result.referenceOffsetsByDecl = extracted.referenceOffsets

theorem withSemanticOffsets_eq {response : ClangParseHelperResponse} {extracted : Extracted Details}
    {result : Parser.ClangParseResult Details} (made : withSemanticOffsets response extracted = some result) :
    result.success = response.success ∧ result.diagnostics = response.diagnostics ∧
      result.diagnosticCounts = response.diagnosticCounts ∧ result.diagnosticEntries = response.diagnosticEntries ∧
      result.symbols = extracted.symbols ∧ result.renameOffsetsBySymbol = extracted.renameOffsets ∧
      result.referenceOffsetsByDecl = extracted.referenceOffsets := by
  simp only [withSemanticOffsets] at made
  split at made
  · split at made
    · rw [Option.some.injEq] at made
      subst made
      exact ⟨rfl, rfl, rfl, rfl, rfl, rfl, rfl⟩
    · simp at made
  · simp at made

/-- The codec of the frames corrects units as large as those that libclang saves. -/
def CorrectsUnits (crates : Crates) (libclang : Libclang Details) : Prop :=
  ∀ request success diagnostics counts entries unit,
    libclang.parses request (.parsed success diagnostics counts entries (.ok unit)) → Corrects crates (EccLayout.sized unit.length)

theorem genuine_of_loads {crates : Crates} {libclang : Libclang Details} (corrects : CorrectsUnits crates libclang)
    {request : ClangParseHelperRequest} {outcome : ClangOutcome} (parsed : libclang.parses request outcome)
    {result : Parser.ClangParseResult Details}
    (loaded : Loads crates libclang.extracts request (runHelperParse crates request outcome) (some (.ok result))) :
    Genuine libclang request result := by
  cases outcome with
  | failed code =>
    generalize answer : (some (.ok result) : Option (Except String (Parser.ClangParseResult Details))) = expected at loaded
    cases loaded with
    | refused => simp at answer
    | bare clean => simp [runHelperParse] at clean
    | damaged carried => simp at answer
    | unloaded carried => simp at answer
    | loaded carried => simp [runHelperParse] at carried
  | parsed success diagnostics counts entries saved =>
    simp only [runHelperParse] at loaded
    generalize answer : (some (.ok result) : Option (Except String (Parser.ClangParseResult Details))) = expected at loaded
    cases framed : saved >>= writeFrame crates [] with
    | error failure =>
      rw [framed] at loaded
      cases loaded with
      | refused => simp at answer
      | bare clean => simp at clean
      | damaged carried => simp at answer
      | unloaded carried => simp at answer
      | loaded carried => simp at carried
    | ok data =>
      rw [framed] at loaded
      cases saved with
      | error failure => simp at framed
      | ok unit =>
        rw [ok_bind] at framed
        have unchanged := unitOf_written (corrects _ _ _ _ _ _ parsed) framed
        cases loaded with
        | refused => simp at answer
        | bare _ bare => simp at bare
        | damaged => simp at answer
        | unloaded => simp at answer
        | loaded carried read extracted =>
          simp only [Option.some.injEq] at carried
          subst carried
          rw [unchanged, Except.ok.injEq] at read
          subst read
          obtain ⟨made, isMade, same⟩ := Option.map_eq_some_iff.mp answer.symm
          rw [Except.ok.injEq] at same
          subst same
          obtain ⟨successEq, diagnosticsEq, countsEq, entriesEq, symbols, renames, references⟩ := withSemanticOffsets_eq isMade
          refine ⟨unit, _, ?_, extracted, symbols, renames, references⟩
          rw [successEq, diagnosticsEq, countsEq, entriesEq]
          exact parsed

/-! ## One lane -/

section
variable (crates : Crates) (libclang : Libclang Details)

/-- The request is on its way to the helper. -/
def Requested (request : ClangParseHelperRequest) (helper : Helper) : Prop :=
  helperRequest.Valid request ∧ writePayload helperRequest request = .ok helper.stdin ∧ helper.writing = [] ∧ helper.stdout = []

/-- The helper has read the request, and its response is partly in the pipe and partly still to be written. -/
def Answering (request : ClangParseHelperRequest) (helper : Helper) : Prop :=
  helper.stdin = [] ∧ ∃ outcome, libclang.parses request outcome ∧ helperResponse.Valid (runHelperParse crates request outcome) ∧
    writePayload helperResponse (runHelperParse crates request outcome) = .ok (helper.stdout ++ helper.writing)

/-- What the pipes of the helper hold.  Nothing is known of a dead helper that was kept, since nothing is read from it. -/
def Wired (lane : Lane Details) : Prop :=
  match lane.phase with
  | .receiving => lane.helper.alive = true → lane.helper = .spawn
  | .executing task => Requested task.request lane.helper ∨ Answering crates libclang task.request lane.helper
  | .panicked => True

/-- The requests that a lane still has to answer, in their order. -/
def pending (lane : Lane Details) : List ClangParseRequest :=
  match lane.phase with
  | .executing task => task :: lane.queue
  | _ => lane.queue

end

section
variable {crates : Crates} {libclang : Libclang Details}

theorem readPayload_nil {T : Type} (codec : Codec T) : readPayload codec false [] = .blocked := rfl

theorem helperStep_asked {request : ClangParseHelperRequest} {helper moved : Helper} (step : HelperStep crates libclang helper moved)
    (asked : Requested request helper) : Requested request moved ∨ Answering crates libclang request moved := by
  obtain ⟨valid, written, writing, stdout⟩ := asked
  cases step with
  | parse alive idle read parsed responseValid responseWritten =>
    have whole := readPayload_written valid written false []
    rw [List.append_nil, read, PayloadRead.value.injEq] at whole
    obtain ⟨rfl, rfl⟩ := whole
    exact .inr ⟨rfl, _, parsed, responseValid, by rwa [stdout]⟩
  | write count alive => exact .inl ⟨valid, written, by simp [writing], by simp [writing, stdout]⟩
  | exit => exact .inl ⟨valid, written, writing, stdout⟩

theorem helperStep_answering {request : ClangParseHelperRequest} {helper moved : Helper}
    (step : HelperStep crates libclang helper moved) (answering : Answering crates libclang request helper) :
    Answering crates libclang request moved := by
  obtain ⟨stdin, outcome, parsed, valid, written⟩ := answering
  cases step with
  | parse alive idle read =>
    rw [stdin, readPayload_nil] at read
    simp at read
  | write count alive => exact ⟨stdin, outcome, parsed, valid, by simpa [List.append_assoc] using written⟩
  | exit => exact ⟨stdin, outcome, parsed, valid, written⟩

/-- A helper that nobody has asked anything does nothing but end. -/
theorem helperStep_spawn {helper moved : Helper} (step : HelperStep crates libclang helper moved)
    (idle : helper.alive = true → helper = .spawn) : moved.alive = true → moved = .spawn := by
  cases step with
  | parse alive _ read =>
    rw [idle alive] at read
    simp [Helper.spawn, readPayload_nil] at read
  | write count alive =>
    have fresh := idle alive
    subst fresh
    simp [Helper.spawn]
  | exit => simp [Helper.kill]

theorem idle_of_replaced {failed helper : Helper} (dead : failed.alive = false) (replaced : Replaced failed helper) :
    helper.alive = true → helper = .spawn := by
  intro alive
  rcases replaced with fresh | rfl
  · exact fresh
  · simp [dead] at alive

/-- A response is read off the pipes as the helper has made it, and leaves them empty. -/
theorem response_read {lane : Lane Details} {task : ClangParseRequest} {response : ClangParseHelperResponse} {rest : List UInt8}
    (wired : Wired crates libclang lane) (executing : lane.phase = .executing task) {closed : Bool}
    (read : readPayload helperResponse closed lane.helper.stdout = .value response rest) :
    (∃ outcome, libclang.parses task.request outcome ∧ response = runHelperParse crates task.request outcome) ∧
      lane.helper.stdin = [] ∧ lane.helper.writing = [] ∧ rest = [] := by
  rw [Wired, executing] at wired
  rcases wired with ⟨_, _, _, stdout⟩ | ⟨stdin, outcome, parsed, valid, written⟩
  · have long := length_of_readPayload read
    simp [stdout] at long
  · obtain ⟨same, writing, rest_nil⟩ := eq_of_readPayload_prefix valid written rfl read
    exact ⟨⟨outcome, parsed, same⟩, stdin, writing, rest_nil⟩

theorem laneAct_wired {lane moved : Lane Details} (act : LaneAct crates libclang lane moved) (wired : Wired crates libclang lane)
    (valid : ∀ task ∈ lane.queue, helperRequest.Valid task.request) : Wired crates libclang moved := by
  cases act with
  | @write task rest bytes receiving first alive written =>
    simp only [Wired, receiving] at wired
    have fresh := wired alive
    refine .inl ⟨valid task (by simp [first]), ?_, ?_, ?_⟩
    · simpa [fresh, Helper.spawn] using written
    · simp [fresh, Helper.spawn]
    · simp [fresh, Helper.spawn]
  | refuse receiving first failed replaced =>
    simp only [Wired, receiving] at wired
    simp only [Wired, Lane.finish]
    rcases replaced with fresh | rfl
    · exact fun _ => fresh
    · exact wired
  | answer executing read loaded =>
    obtain ⟨_, stdin, writing, rest_nil⟩ := response_read wired executing read
    simp only [Wired, Lane.finish]
    intro alive
    simp [Helper.spawn, stdin, writing, rest_nil, alive]
  | panic executing read panicked => trivial
  | fail executing failed replaced => exact idle_of_replaced rfl replaced
  | timeout executing replaced => exact idle_of_replaced rfl replaced

theorem laneStep_wired {lane moved : Lane Details} (step : LaneStep crates libclang lane moved) (wired : Wired crates libclang lane)
    (valid : ∀ task ∈ lane.queue, helperRequest.Valid task.request) : Wired crates libclang moved := by
  cases step with
  | helper step =>
    cases phase : lane.phase with
    | receiving =>
      simp only [Wired, phase] at wired ⊢
      exact helperStep_spawn step wired
    | executing task =>
      simp only [Wired, phase] at wired ⊢
      rcases wired with asked | answering
      · exact helperStep_asked step asked
      · exact .inr (helperStep_answering step answering)
    | panicked => simp only [Wired]
  | act act => exact laneAct_wired act wired valid

/-- A step keeps the requests and the answers of a lane, or answers the first request, or loses all of them in a panic. -/
theorem laneStep_cases {lane moved : Lane Details} (step : LaneStep crates libclang lane moved) :
    (pending moved = pending lane ∧ moved.sent = lane.sent ∧ (lane.phase = .panicked ↔ moved.phase = .panicked)) ∨
    (∃ task result, pending lane = task :: pending moved ∧ moved.sent = lane.sent ++ [(task.handle, result)] ∧
      lane.phase ≠ .panicked ∧
      ∀ parse, result = .ok parse → ∃ response rest, lane.phase = .executing task ∧
        readPayload helperResponse (!lane.helper.alive) lane.helper.stdout = .value response rest ∧
        Loads crates libclang.extracts task.request response (some (.ok parse))) ∨
    (pending moved = [] ∧ moved.sent = lane.sent ∧ lane.phase ≠ .panicked ∧ moved.phase = .panicked) := by
  rcases step with step | act
  · exact .inl ⟨rfl, rfl, Iff.rfl⟩
  cases act with
  | write receiving first alive written =>
    refine .inl ⟨?_, rfl, ?_⟩
    · simp [pending, receiving, first]
    · simp [receiving]
  | @refuse task rest helper message receiving first failed replaced =>
    refine .inr (.inl ⟨task, .error message, ?_, rfl, ?_, ?_⟩)
    · simp [pending, receiving, first, Lane.finish]
    · simp [receiving]
    · simp
  | @answer task response rest result executing read loaded =>
    refine .inr (.inl ⟨task, result, ?_, rfl, ?_, ?_⟩)
    · simp [pending, executing, Lane.finish]
    · simp [executing]
    · rintro parse rfl
      exact ⟨response, rest, executing, read, loaded⟩
  | panic executing read panicked => exact .inr (.inr ⟨rfl, rfl, by simp [executing], rfl⟩)
  | @fail task helper message executing failed replaced =>
    refine .inr (.inl ⟨task, .error message, ?_, rfl, ?_, ?_⟩)
    · simp [pending, executing, Lane.finish]
    · simp [executing]
    · simp
  | @timeout task helper executing replaced =>
    refine .inr (.inl ⟨task, _, ?_, rfl, ?_, ?_⟩)
    · simp [pending, executing, Lane.finish]
    · simp [executing]
    · simp

end

/-! ## The service -/

/-- The handles whose requests were sent to a lane, in the order of the sending. -/
def handlesOf (issued : List (Nat × ClangParseHelperRequest)) (index : Nat) : List Nat :=
  (List.range issued.length).filter fun handle => (issued[handle]?.map Prod.fst) = some index

theorem handlesOf_append (issued : List (Nat × ClangParseHelperRequest)) (entry : Nat × ClangParseHelperRequest) (index : Nat) :
    handlesOf (issued ++ [entry]) index = handlesOf issued index ++ if entry.1 = index then [issued.length] else [] := by
  have before : (List.range issued.length).filter (fun handle => ((issued ++ [entry])[handle]?.map Prod.fst) = some index) =
      handlesOf issued index := by
    apply List.filter_congr
    intro handle member
    rw [List.getElem?_append_left (List.mem_range.mp member)]
  have last : (issued ++ [entry])[issued.length]? = some entry := by simp
  rw [handlesOf, List.length_append, List.length_singleton, List.range_succ, List.filter_append, before]
  by_cases same : entry.1 = index
  · simp [same]
  · simp [same]

theorem issued_append {issued : List (Nat × ClangParseHelperRequest)} {entry found : Nat × ClangParseHelperRequest} {handle : Nat}
    (there : issued[handle]? = some found) : (issued ++ [entry])[handle]? = some found := by
  rw [List.getElem?_append_left (List.getElem?_eq_some_iff.mp there).1]
  exact there

/-- What holds of the lane with an index, whatever the others do. -/
structure LaneSound (crates : Crates) (libclang : Libclang Details) (issued : List (Nat × ClangParseHelperRequest)) (index : Nat)
    (lane : Lane Details) : Prop where
  wired : Wired crates libclang lane
  valid : ∀ task ∈ lane.queue, helperRequest.Valid task.request
  asked : ∀ task ∈ pending lane, issued[task.handle]? = some (index, task.request)
  own : ∀ handle result, (handle, .ok result) ∈ lane.sent →
    ∃ request, issued[handle]? = some (index, request) ∧ Genuine libclang request result
  order : lane.phase ≠ .panicked →
    lane.sent.map Prod.fst ++ (pending lane).map ClangParseRequest.handle = handlesOf issued index
  front : lane.sent.map Prod.fst <+: handlesOf issued index

section
variable {crates : Crates} {libclang : Libclang Details} {issued : List (Nat × ClangParseHelperRequest)} {index : Nat}

theorem queue_subset_of_step {lane moved : Lane Details} (step : LaneStep crates libclang lane moved) : moved.queue ⊆ lane.queue := by
  rcases step with step | act
  · exact fun _ member => member
  cases act with
  | write receiving first =>
    intro task member
    simp [first, member]
  | refuse receiving first =>
    intro task member
    simp only [Lane.finish] at member
    simp [first, member]
  | answer => exact fun _ member => member
  | panic => exact List.nil_subset _
  | fail => exact fun _ member => member
  | timeout => exact fun _ member => member

/-- A lane stays sound by itself. -/
theorem laneSound_step (corrects : CorrectsUnits crates libclang) {lane moved : Lane Details}
    (step : LaneStep crates libclang lane moved) (sound : LaneSound crates libclang issued index lane) :
    LaneSound crates libclang issued index moved := by
  have wired := laneStep_wired step sound.wired sound.valid
  have valid : ∀ task ∈ moved.queue, helperRequest.Valid task.request :=
    fun task member => sound.valid task (queue_subset_of_step step member)
  rcases laneStep_cases step with ⟨same, sent, panicked⟩ | ⟨task, result, first, sent, running, loads⟩ |
      ⟨none_left, sent, running, panicked⟩
  · refine ⟨wired, valid, ?_, ?_, ?_, ?_⟩
    · rw [same]
      exact sound.asked
    · rw [sent]
      exact sound.own
    · intro running
      rw [same, sent]
      exact sound.order fun gone => running (panicked.mp gone)
    · rw [sent]
      exact sound.front
  · have asked := sound.asked
    rw [first] at asked
    have order := sound.order running
    rw [first, List.map_cons] at order
    have next : moved.sent.map Prod.fst ++ (pending moved).map ClangParseRequest.handle = handlesOf issued index := by
      simpa [sent] using order
    refine ⟨wired, valid, fun other member => asked other (by simp [member]), ?_, fun _ => next, ?_⟩
    · intro handle parse member
      rw [sent, List.mem_append, List.mem_singleton] at member
      rcases member with earlier | last
      · exact sound.own handle parse earlier
      · simp only [Prod.mk.injEq] at last
        obtain ⟨rfl, rfl⟩ := last
        obtain ⟨response, rest, executing, read, loaded⟩ := loads parse rfl
        obtain ⟨⟨outcome, parsed, rfl⟩, _⟩ := response_read sound.wired executing read
        exact ⟨task.request, asked task (by simp), genuine_of_loads corrects parsed loaded⟩
    · rw [← next]
      exact List.prefix_append _ _
  · refine ⟨wired, valid, by simp [none_left], ?_, fun absent => absurd panicked absent, ?_⟩
    · rw [sent]
      exact sound.own
    · rw [sent]
      exact sound.front

/-- A request that is sent to another lane leaves a lane sound. -/
theorem laneSound_issue {lane : Lane Details} {entry : Nat × ClangParseHelperRequest}
    (sound : LaneSound crates libclang issued index lane) (other : entry.1 ≠ index) :
    LaneSound crates libclang (issued ++ [entry]) index lane := by
  have same : handlesOf (issued ++ [entry]) index = handlesOf issued index := by simp [handlesOf_append, other]
  refine ⟨sound.wired, sound.valid, fun task member => issued_append (sound.asked task member), ?_, ?_, ?_⟩
  · intro handle result member
    obtain ⟨request, there, genuine⟩ := sound.own handle result member
    exact ⟨request, issued_append there, genuine⟩
  · rw [same]
    exact sound.order
  · rw [same]
    exact sound.front

/-- A lane that a request is sent to stays sound. -/
theorem laneSound_send {lane : Lane Details} {request : ClangParseHelperRequest} (valid : helperRequest.Valid request)
    (sound : LaneSound crates libclang issued index lane) (running : lane.phase ≠ .panicked) :
    LaneSound crates libclang (issued ++ [(index, request)]) index
      { lane with queue := lane.queue ++ [{ handle := issued.length, request }] } := by
  have more : pending { lane with queue := lane.queue ++ [{ handle := issued.length, request }] } =
      pending lane ++ [{ handle := issued.length, request }] := by
    cases phase : lane.phase with
    | receiving => simp [pending, phase]
    | executing task => simp [pending, phase]
    | panicked => exact absurd phase running
  have last : handlesOf (issued ++ [(index, request)]) index = handlesOf issued index ++ [issued.length] := by
    simp [handlesOf_append]
  have order : lane.sent.map Prod.fst ++ ((pending lane).map ClangParseRequest.handle ++ [issued.length]) =
      handlesOf (issued ++ [(index, request)]) index := by
    rw [last, ← sound.order running, List.append_assoc]
  refine ⟨sound.wired, ?_, ?_, ?_, ?_, ?_⟩
  · intro task member
    rcases List.mem_append.mp member with earlier | added
    · exact sound.valid task earlier
    · rw [List.mem_singleton.mp added]
      exact valid
  · intro task member
    rw [more] at member
    rcases List.mem_append.mp member with earlier | added
    · exact issued_append (sound.asked task earlier)
    · rw [List.mem_singleton.mp added]
      simp
  · intro handle result member
    obtain ⟨request, there, genuine⟩ := sound.own handle result member
    exact ⟨request, issued_append there, genuine⟩
  · intro _
    rw [more, List.map_append]
    exact order
  · rw [last]
    exact sound.front.trans (List.prefix_append _ _)

end

/-- All lanes are sound, and every request belongs to one of them. -/
structure ServiceSound (crates : Crates) (libclang : Libclang Details) (service : Service Details) : Prop where
  lanes : ∀ index lane, service.lanes[index]? = some lane → LaneSound crates libclang service.issued index lane
  issued : ∀ entry ∈ service.issued, entry.1 < service.lanes.length
  drawn : ∀ entry ∈ service.drawn, helperRequest.Valid entry.2

section
variable {crates : Crates} {libclang : Libclang Details}

theorem spawnService_sound (helperCount : Nat) : ServiceSound crates libclang (spawnService helperCount : Service Details) := by
  refine ⟨?_, by simp [spawnService], by simp [spawnService]⟩
  intro index lane found
  simp only [spawnService, List.getElem?_replicate] at found
  split at found
  · rw [Option.some.injEq] at found
    subst found
    exact ⟨fun _ => rfl, by simp [Lane.spawn], by simp [pending, Lane.spawn], by simp [Lane.spawn],
      by simp [pending, Lane.spawn, spawnService, handlesOf], by simp [Lane.spawn]⟩
  · simp at found

theorem serviceStep_sound (corrects : CorrectsUnits crates libclang) {service next : Service Details}
    (step : ServiceStep crates libclang service next) (sound : ServiceSound crates libclang service) :
    ServiceSound crates libclang next := by
  cases step with
  | draw request valid =>
    refine ⟨sound.lanes, sound.issued, ?_⟩
    intro entry member
    rcases List.mem_append.mp member with earlier | added
    · exact sound.drawn entry earlier
    · rw [List.mem_singleton.mp added]
      exact valid
  | @send before after index request lane drawn found running =>
    have inside := (List.getElem?_eq_some_iff.mp found).1
    refine ⟨?_, ?_, ?_⟩
    · intro other otherLane otherFound
      simp only at otherFound ⊢
      by_cases same : index = other
      · subst same
        rw [List.getElem?_set_self inside, Option.some.injEq] at otherFound
        subst otherFound
        exact laneSound_send (sound.drawn (index, request) (by simp [drawn])) (sound.lanes index lane found) running
      · rw [List.getElem?_set_ne same] at otherFound
        exact laneSound_issue (sound.lanes other otherLane otherFound) same
    · intro entry member
      simp only [List.length_set]
      rcases List.mem_append.mp member with earlier | added
      · exact sound.issued entry earlier
      · rw [List.mem_singleton.mp added]
        exact inside
    · intro entry member
      apply sound.drawn
      rw [drawn]
      rcases List.mem_append.mp member with front | back
      · simp [front]
      · simp [back]
  | @unavailable before after index request lane drawn found gone =>
    refine ⟨sound.lanes, sound.issued, ?_⟩
    intro entry member
    apply sound.drawn
    rw [drawn]
    rcases List.mem_append.mp member with front | back
    · simp [front]
    · simp [back]
  | @lane index lane moved found step =>
    have inside := (List.getElem?_eq_some_iff.mp found).1
    refine ⟨?_, by simpa using sound.issued, sound.drawn⟩
    intro other otherLane otherFound
    simp only at otherFound ⊢
    by_cases same : index = other
    · subst same
      rw [List.getElem?_set_self inside, Option.some.injEq] at otherFound
      subst otherFound
      exact laneSound_step corrects step (sound.lanes index lane found)
    · rw [List.getElem?_set_ne same] at otherFound
      exact sound.lanes other otherLane otherFound

theorem reachable_sound (corrects : CorrectsUnits crates libclang) {helperCount : Nat} {service : Service Details}
    (reachable : Reachable crates libclang helperCount service) : ServiceSound crates libclang service := by
  induction reachable with
  | start => exact spawnService_sound helperCount
  | step _ moved ih => exact serviceStep_sound corrects moved ih

/-- Under any interleaving, with helpers that crash, hang, are replaced or cannot be, a result comes to the handle of the very
request that libclang made it for. -/
theorem answers_own (corrects : CorrectsUnits crates libclang) {helperCount : Nat} {service : Service Details}
    (reachable : Reachable crates libclang helperCount service) {index : Nat} {lane : Lane Details}
    (found : service.lanes[index]? = some lane) {handle : Nat} {result : Parser.ClangParseResult Details}
    (sent : (handle, .ok result) ∈ lane.sent) :
    ∃ request, service.issued[handle]? = some (index, request) ∧ Genuine libclang request result :=
  ((reachable_sound corrects reachable).lanes index lane found).own handle result sent

theorem nodup_handlesOf (issued : List (Nat × ClangParseHelperRequest)) (index : Nat) : (handlesOf issued index).Nodup :=
  List.nodup_range.filter _

theorem mem_handlesOf {issued : List (Nat × ClangParseHelperRequest)} {index handle : Nat} :
    handle ∈ handlesOf issued index ↔ ∃ request, issued[handle]? = some (index, request) := by
  simp only [handlesOf, List.mem_filter, List.mem_range, Option.map_eq_some_iff, Prod.exists, decide_eq_true_eq]
  constructor
  · rintro ⟨_, _, request, found, rfl⟩
    exact ⟨request, found⟩
  · rintro ⟨request, found⟩
    exact ⟨(List.getElem?_eq_some_iff.mp found).1, _, request, found, rfl⟩

/-- Every request that was sent is with one lane: it is answered or pending there, once, unless the lane has panicked, and no lane
ever answers a request twice.  A lane answers in the order of the sending. -/
theorem handles_once (corrects : CorrectsUnits crates libclang) {helperCount : Nat} {service : Service Details}
    (reachable : Reachable crates libclang helperCount service) :
    (∀ (index : Nat) (lane : Lane Details), service.lanes[index]? = some lane →
      (lane.sent.map Prod.fst).Nodup ∧ lane.sent.map Prod.fst <+: handlesOf service.issued index ∧
      (lane.phase ≠ .panicked →
        lane.sent.map Prod.fst ++ (pending lane).map ClangParseRequest.handle = handlesOf service.issued index)) ∧
    ∀ handle < service.issued.length, ∃ (index : Nat) (lane : Lane Details), service.lanes[index]? = some lane ∧
      (lane.phase ≠ .panicked →
        (lane.sent.map Prod.fst ++ (pending lane).map ClangParseRequest.handle).count handle = 1) ∧
      ∀ (other : Nat) (otherLane : Lane Details), service.lanes[other]? = some otherLane → other ≠ index →
        handle ∉ otherLane.sent.map Prod.fst ++ (pending otherLane).map ClangParseRequest.handle := by
  have sound := reachable_sound corrects reachable
  constructor
  · intro index lane found
    have laneSound := sound.lanes index lane found
    exact ⟨(nodup_handlesOf _ _).sublist laneSound.front.sublist, laneSound.front, laneSound.order⟩
  · intro handle inside
    obtain ⟨index, request, found⟩ : ∃ index request, service.issued[handle]? = some (index, request) :=
      ⟨service.issued[handle].1, service.issued[handle].2, List.getElem?_eq_getElem inside⟩
    have laneInside := sound.issued (index, request) (List.mem_of_getElem? found)
    refine ⟨index, service.lanes[index], List.getElem?_eq_getElem laneInside, ?_, ?_⟩
    · intro running
      rw [(sound.lanes index _ (List.getElem?_eq_getElem laneInside)).order running]
      exact List.count_eq_one_of_mem (nodup_handlesOf _ _) (mem_handlesOf.mpr ⟨request, found⟩)
    · intro other otherLane otherFound different member
      have otherSound := sound.lanes other otherLane otherFound
      have elsewhere : ∃ otherRequest, service.issued[handle]? = some (other, otherRequest) := by
        rcases List.mem_append.mp member with answered | waiting
        · exact mem_handlesOf.mp (otherSound.front.subset answered)
        · obtain ⟨task, inPending, rfl⟩ := List.mem_map.mp waiting
          exact ⟨task.request, otherSound.asked task inPending⟩
      obtain ⟨otherRequest, same⟩ := elsewhere
      rw [found, Option.some.injEq, Prod.mk.injEq] at same
      exact different same.1.symm

/-! ## Settling -/

/-- A run of a lane that nothing is sent to, with the number of steps that the lane itself made. -/
inductive LaneRun (crates : Crates) (libclang : Libclang Details) (lane : Lane Details) : Nat → Lane Details → Prop
  | refl : LaneRun crates libclang lane 0 lane
  | helper {count : Nat} {moved : Lane Details} {helper : Helper} (run : LaneRun crates libclang lane count moved)
      (step : HelperStep crates libclang moved.helper helper) : LaneRun crates libclang lane count { moved with helper }
  | act {count : Nat} {moved next : Lane Details} (run : LaneRun crates libclang lane count moved)
      (act : LaneAct crates libclang moved next) : LaneRun crates libclang lane (count + 1) next

/-- A lane that has something pending can act, whatever its helper does, and even when no new helper can be started. -/
theorem exists_act {lane : Lane Details} (running : lane.phase ≠ .panicked) (waiting : pending lane ≠ []) :
    ∃ next, LaneAct crates libclang lane next := by
  cases phase : lane.phase with
  | executing task => exact ⟨_, .timeout phase (.inr rfl)⟩
  | receiving =>
    simp only [pending, phase] at waiting
    obtain ⟨task, rest, first⟩ := List.exists_cons_of_ne_nil waiting
    have refusal := fun failed => @LaneAct.refuse _ crates libclang lane task rest lane.helper "" phase first failed (.inr rfl)
    cases written : writePayload helperRequest task.request with
    | error failure => exact ⟨_, refusal (.inr ⟨failure, written⟩)⟩
    | ok bytes =>
      by_cases alive : lane.helper.alive = true
      · exact ⟨_, .write phase first alive written⟩
      · exact ⟨_, refusal (.inl (by simpa using alive))⟩
  | panicked => exact absurd phase running

/-- The acts that the pending requests are good for. -/
def actsLeft (lane : Lane Details) : Nat := (pending lane).length + lane.queue.length

theorem laneAct_actsLeft {lane moved : Lane Details} (act : LaneAct crates libclang lane moved) : actsLeft moved < actsLeft lane := by
  cases act with
  | write receiving first => simp [actsLeft, pending, receiving, first]
  | refuse receiving first =>
    simp only [actsLeft, pending, receiving, first, Lane.finish, List.length_cons]
    omega
  | answer executing => simp [actsLeft, pending, executing, Lane.finish]
  | panic executing =>
    simp only [actsLeft, pending, executing, List.length_cons, List.length_nil]
    omega
  | fail executing => simp [actsLeft, pending, executing, Lane.finish]
  | timeout executing => simp [actsLeft, pending, executing, Lane.finish]

theorem laneRun_actsLeft {lane moved : Lane Details} {count : Nat} (run : LaneRun crates libclang lane count moved) :
    count + actsLeft moved ≤ actsLeft lane := by
  induction run with
  | refl => omega
  | helper run step ih => exact ih
  | act run act ih =>
    have lower := laneAct_actsLeft act
    omega

theorem laneRun_keeps {lane moved : Lane Details} {count : Nat} (run : LaneRun crates libclang lane count moved)
    (running : moved.phase ≠ .panicked) : lane.phase ≠ .panicked ∧
      moved.sent.map Prod.fst ++ (pending moved).map ClangParseRequest.handle =
        lane.sent.map Prod.fst ++ (pending lane).map ClangParseRequest.handle := by
  induction run with
  | refl => exact ⟨running, rfl⟩
  | helper run step ih => exact ih running
  | act run act ih =>
    rcases laneStep_cases (.act act) with ⟨same, sent, panicked⟩ | ⟨task, result, first, sent, before, _⟩ | ⟨_, _, _, panicked⟩
    · obtain ⟨start, kept⟩ := ih fun gone => running (panicked.mp gone)
      exact ⟨start, by rw [same, sent, kept]⟩
    · obtain ⟨start, kept⟩ := ih before
      refine ⟨start, ?_⟩
      rw [← kept, sent, first]
      simp
    · exact absurd panicked running

end

/-! ## A request and its answer -/

def sampleRequest : ClangParseHelperRequest := { sourcePath := "a.cpp", text := "int a;", arguments := ["-std=c++20"] }

/-- Every unit is saved as one byte and holds no symbols. -/
def sampleClang : Libclang Unit where
  parses _ outcome := outcome = .parsed true [] {} [] (.ok [42])
  extracts _ _ extraction := extraction = .ok {}

theorem sampleClang_corrects : CorrectsUnits pairCrates sampleClang := by
  rintro request success diagnostics counts entries unit parsed
  simp only [sampleClang, ClangOutcome.parsed.injEq, Except.ok.injEq] at parsed
  obtain ⟨_, _, _, _, rfl⟩ := parsed
  exact pairCrates_corrects (by decide) (by decide)

def sampleResponse : ClangParseHelperResponse :=
  { success := true, diagnostics := [], diagnosticCounts := {}, diagnosticEntries := []
    tuEccData := some (frameOf pairCrates (EccLayout.sized 1) [42] (pairShards [42] [0]))
    tuSourcePath := some "a.cpp", error := none }

theorem written_of_fits {T : Type} {codec : Codec T} {value : T} (fits : (codec.encode value).length < 2 ^ 64) :
    writePayload codec value = .ok (toLe 8 (codec.encode value).length ++ codec.encode value) := if_pos fits

/-- A run in which the request is drawn, sent, written to the helper, parsed, written back and read. -/
theorem sampleRequest_answered : ∃ (service : Service Unit) (lane : Lane Unit) (result : Parser.ClangParseResult Unit),
    Reachable pairCrates sampleClang 1 service ∧ service.lanes[0]? = some lane ∧ (0, .ok result) ∈ lane.sent := by
  have validRequest : helperRequest.Valid sampleRequest := by decide +kernel
  have validResponse : helperResponse.Valid sampleResponse := by decide +kernel
  have response : runHelperParse pairCrates sampleRequest (.parsed true [] {} [] (.ok [42])) = sampleResponse := by decide +kernel
  obtain ⟨request, requestWritten⟩ : ∃ bytes, writePayload helperRequest sampleRequest = .ok bytes :=
    ⟨_, written_of_fits (by decide +kernel)⟩
  obtain ⟨answer, answerWritten⟩ : ∃ bytes, writePayload helperResponse sampleResponse = .ok bytes :=
    ⟨_, written_of_fits (by decide +kernel)⟩
  have requestRead : readPayload helperRequest false request = .value sampleRequest [] := by
    simpa using readPayload_written validRequest requestWritten false []
  have answerRead : readPayload helperResponse false answer = .value sampleResponse [] := by
    simpa using readPayload_written validResponse answerWritten false []
  have unit : unitOf pairCrates (frameOf pairCrates (EccLayout.sized 1) [42] (pairShards [42] [0])) = .ok [42] := by
    decide +kernel
  let task : ClangParseRequest := { handle := 0, request := sampleRequest }
  have drawn := Reachable.step (.start : Reachable pairCrates sampleClang 1 _) (.draw sampleRequest validRequest)
  have sent := drawn.step (@ServiceStep.send _ pairCrates sampleClang _ [] [] 0 sampleRequest .spawn rfl rfl (by simp [Lane.spawn]))
  have asked := sent.step (@ServiceStep.lane _ _ _ _ 0 _ _ rfl
    (.act (@LaneAct.write _ pairCrates sampleClang _ task [] request rfl rfl rfl requestWritten)))
  have parsed := asked.step (@ServiceStep.lane _ _ _ _ 0 _ _ rfl
    (.helper (@HelperStep.parse _ pairCrates sampleClang _ sampleRequest [] answer (.parsed true [] {} [] (.ok [42])) rfl rfl
      requestRead rfl (by rwa [response]) (by rwa [response]))))
  have written := parsed.step (@ServiceStep.lane _ _ _ _ 0 _ _ rfl
    (.helper (@HelperStep.write _ pairCrates sampleClang _ answer.length rfl)))
  have loaded : Loads pairCrates sampleClang.extracts sampleRequest sampleResponse ((withSemanticOffsets sampleResponse {}).map .ok) :=
    .loaded rfl unit rfl
  have read := written.step (@ServiceStep.lane _ _ _ _ 0 _ _ rfl
    (.act (@LaneAct.answer _ pairCrates sampleClang _ task sampleResponse [] _ rfl (by simpa [Lane.spawn, Helper.spawn] using answerRead) loaded)))
  exact ⟨_, _, _, read, rfl, List.mem_singleton.mpr rfl⟩

/-- The answer of the run is the one to its request. -/
theorem sampleRequest_own : ∃ (service : Service Unit) (lane : Lane Unit) (result : Parser.ClangParseResult Unit),
    (0, .ok result) ∈ lane.sent ∧ ∃ request, service.issued[0]? = some (0, request) ∧ Genuine sampleClang request result := by
  obtain ⟨service, lane, result, reachable, found, sent⟩ := sampleRequest_answered
  exact ⟨service, lane, result, sent, answers_own sampleClang_corrects reachable found sent⟩

theorem sampleRequest_once : ∃ (service : Service Unit) (lane : Lane Unit) (result : Parser.ClangParseResult Unit),
    (0, .ok result) ∈ lane.sent ∧ (lane.sent.map Prod.fst).Nodup ∧ lane.sent.map Prod.fst <+: handlesOf service.issued 0 := by
  obtain ⟨service, lane, result, reachable, found, sent⟩ := sampleRequest_answered
  obtain ⟨nodup, front, _⟩ := (handles_once sampleClang_corrects reachable).1 0 lane found
  exact ⟨service, lane, result, sent, nodup, front⟩

end MjFormatter.Verified
