import RexHunter.Proofs.Stream

set_option autoImplicit false

/-! # The two transports

What a response makes of the rest of the brain call. `_drive_stream` is a fold of the assembler over
the frames of the stream (`ending_driveStream`), and what has been assembled crosses the boundary as
any other payload: it can always be read back, and so can its thinking block. -/

namespace RexHunter

/-! ## A brain call in which no await fails -/

/-- How the call ends when the provider gives `answer` and no await fails; the sink stores what has
    no surrogates. -/
def BrainCall.ending (answer : Except (Exn PyExc) Response) :
    BrainCall → Except (Exn PyExc) Decision
  | .ret decision => .ok decision
  | .raise e => .error e
  | .request k => (k answer).ending answer
  | .pause k => (k (.ok ⟨⟩)).ending answer
  | .relay text k =>
      (k (if encodable text then .ok ⟨⟩ else .error (.raised .serializationError))).ending answer

/-- It asks the provider for nothing, and raises what any of its awaits raises. -/
def BrainCall.Strict : BrainCall → Prop
  | .ret _ => True
  | .raise _ => True
  | .request _ => False
  | .pause k => (∀ e, k (.error e) = .raise e) ∧ (k (.ok ⟨⟩)).Strict
  | .relay _ k => (∀ e, k (.error e) = .raise e) ∧ (k (.ok ⟨⟩)).Strict

theorem finish_ending (answer : Except (Exn PyExc) Response) (r : Except PyExc Decision) :
    (finish r).ending answer = r.mapError .raised := by
  cases r <;> rfl

theorem finish_strict (r : Except PyExc Decision) : (finish r).Strict := by
  cases r <;> trivial

/-! ## The frames of a stream -/

theorem afterPrefix_append (p s : PyStr) : afterPrefix p (p ++ s) = some s := by
  induction p with
  | nil => rfl
  | cons c p ih => simp [afterPrefix, ih]

/-- Blanks around the braces of an object go. -/
theorem strip_braces {isSpace : CodePoint → Bool} (hspace : isSpace (Fin.ofNat _ 0x20) = true)
    (hopen : isSpace (Fin.ofNat _ 0x7B) = false) (hclose : isSpace (Fin.ofNat _ 0x7D) = false)
    (text : PyStr) : strip isSpace (py " " ++ (py "\x7b" ++ text ++ py "\x7d"))
      = py "\x7b" ++ text ++ py "\x7d" := by
  have hleft : (py " " ++ (py "\x7b" ++ text ++ py "\x7d")).dropWhile isSpace
      = py "\x7b" ++ text ++ py "\x7d" := by
    show List.dropWhile isSpace (Fin.ofNat _ 0x20 :: Fin.ofNat _ 0x7B :: (text ++ py "\x7d")) = _
    rw [List.dropWhile_cons_of_pos hspace, List.dropWhile_cons_of_neg (by rw [hopen]; exact Bool.false_ne_true)]
    rfl
  have hright : (py "\x7b" ++ text ++ py "\x7d").reverse.dropWhile isSpace
      = (py "\x7b" ++ text ++ py "\x7d").reverse := by
    rw [List.reverse_append]
    have hlast : ¬ isSpace (Fin.ofNat _ 0x7D) = true := by
      rw [hclose]
      exact Bool.false_ne_true
    exact List.dropWhile_cons_of_neg hlast
  unfold strip
  rw [hleft, hright, List.reverse_reverse]

/-- A frame of a stream: its `data:` texts, and whether a blank line closed it. -/
structure SseFrame where
  data : List PyStr
  closed : Bool

section Transports

variable [PyRuntime]

/-- The frames of the lines. The last one may be open; it counts only if the stream is whole. -/
def frames (whole : Bool) (dataBuf : List PyStr) : List PyStr → List SseFrame
  | [] =>
      match dataBuf with
      | [] => []
      | _ => if whole then [⟨dataBuf, false⟩] else []
  | line :: lines =>
      match afterPrefix (py "data:") line with
      | some rest => frames whole (dataBuf ++ [strip PyRuntime.isSpace rest]) lines
      | none =>
          if strip PyRuntime.isSpace line = [] then
            match dataBuf with
            | [] => frames whole [] lines
            | _ => ⟨dataBuf, true⟩ :: frames whole [] lines
          else frames whole dataBuf lines

theorem frames_data (whole : Bool) {line rest : PyStr}
    (h : afterPrefix (py "data:") line = some rest) (dataBuf lines : List PyStr) :
    frames whole dataBuf (line :: lines)
      = frames whole (dataBuf ++ [strip PyRuntime.isSpace rest]) lines := by
  conv_lhs => unfold frames
  rw [h]

/-- A blank line closes what is open. -/
theorem frames_blank (whole : Bool) {line : PyStr} (h : afterPrefix (py "data:") line = none)
    (hblank : strip PyRuntime.isSpace line = []) (dataBuf lines : List PyStr) :
    frames whole dataBuf (line :: lines)
      = (if dataBuf = [] then [] else [⟨dataBuf, true⟩]) ++ frames whole [] lines := by
  conv_lhs => unfold frames
  rw [h]
  cases dataBuf <;> simp [hblank]

theorem frames_other (whole : Bool) {line : PyStr} (h : afterPrefix (py "data:") line = none)
    (hblank : strip PyRuntime.isSpace line ≠ []) (dataBuf lines : List PyStr) :
    frames whole dataBuf (line :: lines) = frames whole dataBuf lines := by
  conv_lhs => unfold frames
  rw [h]
  simp only [if_neg hblank]

/-- The assembler after the frames, up to the first that fails, with the exception of that one. The
    sink fails on a text with a surrogate. -/
def feedFrames (asm : StreamAssembler) : List SseFrame → StreamAssembler × Option PyExc
  | [] => (asm, none)
  | frame :: rest =>
      match feedFrame asm frame.data with
      | .error e => (asm, some e)
      | .ok (text, asm') =>
          if frame.closed = true ∧ encodable (text.getD []) = false then
            (asm', some .serializationError)
          else feedFrames asm' rest

variable [Pydantic]

/-- What a stream makes of the call. -/
def streamed (broken : Option PyExc) (asm : StreamAssembler) (fs : List SseFrame) :
    Except PyExc Decision :=
  match feedFrames asm fs with
  | (_, some e) => .error e
  | (asm', none) =>
      match broken with
      | some e => .error e
      | none =>
          match dumpsBytes asm'.assembled with
          | .error e => .error e
          | .ok raw => parseStreamed raw

/-- **The loop over the lines is a fold over the frames.** -/
theorem ending_driveStream (answer : Except (Exn PyExc) Response) (broken : Option PyExc)
    (lines : List PyStr) : ∀ (asm : StreamAssembler) (dataBuf : List PyStr),
    (driveStream broken asm dataBuf lines).ending answer
      = (streamed broken asm (frames broken.isNone dataBuf lines)).mapError .raised := by
  induction lines with
  | nil =>
      intro asm dataBuf
      cases broken with
      | some e => cases dataBuf <;> rfl
      | none =>
          unfold driveStream
          simp only [BrainCall.ending]
          cases dataBuf with
          | nil =>
              simp only [assembleEnd, frames, streamed, feedFrames]
              cases dumpsBytes asm.assembled with
              | error e => rfl
              | ok raw => exact finish_ending answer _
          | cons text texts =>
              simp only [assembleEnd, frames, streamed, feedFrames, Option.isNone_none, if_true]
              cases feedFrame asm (text :: texts) with
              | error e => rfl
              | ok r =>
                  simp only [bind, Except.bind, Bool.false_eq_true, false_and, if_false]
                  cases dumpsBytes r.2.assembled with
                  | error e => rfl
                  | ok raw => exact finish_ending answer _
  | cons line lines ih =>
      intro asm dataBuf
      unfold driveStream frames
      simp only [BrainCall.ending]
      cases afterPrefix (py "data:") line with
      | some rest => exact ih asm _
      | none =>
          by_cases hblank : strip PyRuntime.isSpace line = []
          · simp only [if_pos hblank]
            cases dataBuf with
            | nil => exact ih asm []
            | cons text texts =>
                simp only [streamed, feedFrames]
                cases feedFrame asm (text :: texts) with
                | error e => rfl
                | ok r =>
                    obtain ⟨relayed, asm'⟩ := r
                    simp only [true_and]
                    cases hrelayed : relayed.getD [] with
                    | nil =>
                        simp only [encodable_nil, Bool.true_eq_false, if_false]
                        exact ih asm' []
                    | cons c cs =>
                        simp only [BrainCall.ending]
                        cases hencodable : encodable (c :: cs) with
                        | true =>
                            simp only [if_true, Bool.true_eq_false, if_false]
                            exact ih asm' []
                        | false => rfl
          · simp only [if_neg hblank]
            exact ih asm dataBuf

theorem driveStream_strict (broken : Option PyExc) (lines : List PyStr) :
    ∀ (asm : StreamAssembler) (dataBuf : List PyStr),
      (driveStream broken asm dataBuf lines).Strict := by
  induction lines with
  | nil =>
      intro asm dataBuf
      refine ⟨fun _ => rfl, ?_⟩
      cases broken with
      | some e => trivial
      | none =>
          cases assembleEnd asm dataBuf with
          | error e => trivial
          | ok raw => exact ⟨fun _ => rfl, finish_strict _⟩
  | cons line lines ih =>
      intro asm dataBuf
      refine ⟨fun _ => rfl, ?_⟩
      show BrainCall.Strict (match afterPrefix (py "data:") line with
        | some rest => _
        | none => _)
      split
      · exact ih _ _
      split
      · split
        · exact ih _ _
        split
        · trivial
        split
        · exact ih _ _
        · exact ⟨fun _ => rfl, ih _ _⟩
      · exact ih _ _

/-! ## What the adapter makes of a response -/

omit [PyRuntime] [Pydantic] in
theorem raiseForStatus_strict {response : Response} {k : BrainCall} (hk : k.Strict) :
    (raiseForStatus response k).Strict := by
  unfold raiseForStatus
  split
  · exact hk
  · trivial

theorem reply_strict (stream : Bool) (response : Response) : (reply stream response).Strict := by
  unfold reply
  split
  · split
    · exact driveStream_strict _ _ _ _
    · exact ⟨fun _ => rfl, raiseForStatus_strict (driveStream_strict _ _ _ _)⟩
  · exact raiseForStatus_strict (finish_strict _)

/-- How the rest of the call ends, once the response is there. -/
def verdict (stream : Bool) (response : Response) : Except (Exn PyExc) Decision :=
  (reply stream response).ending (.ok response)

/-- The frames of a response. -/
def Response.frames (response : Response) : List SseFrame :=
  RexHunter.frames response.broken.isNone [] response.lines

/-- The bytes of the assembled message. -/
def StreamAssembler.written (asm : StreamAssembler) : PyBytes :=
  asm.assembled.write.map (fun c => UInt8.ofNat c.val)

/-- The payload of a response: its body, or the message assembled from its events. -/
def payload (stream : Bool) (response : Response) : PyBytes :=
  if stream then (feedFrames .new response.frames).1.written else response.content

theorem verdict_stream {response : Response} (hstatus : response.isSuccess = true) :
    verdict true response = (streamed response.broken .new response.frames).mapError .raised := by
  unfold verdict reply
  rw [if_pos rfl]
  split
  · exact ending_driveStream _ _ _ _ _
  · simp only [BrainCall.ending, raiseForStatus, hstatus, if_true]
    exact ending_driveStream _ _ _ _ _

theorem verdict_plain {response : Response} (hstatus : response.isSuccess = true) :
    verdict false response = (parseDecision response.content).mapError .raised := by
  unfold verdict reply
  simp only [Bool.false_eq_true, if_false, raiseForStatus, hstatus, if_true]
  exact finish_ending _ _

theorem parseStreamed_ok {raw : PyBytes} {decision : Decision}
    (h : parseStreamed raw = .ok decision) :
    ∃ parsed, parseDecision raw = .ok parsed ∧ decision.usage = parsed.usage := by
  unfold parseStreamed at h
  split at h
  · cases h
  · next parsed hparse =>
      split at h
      · cases h
        exact ⟨_, hparse, rfl⟩
      · cases h
  · next parsed _ hparse =>
      cases h
      exact ⟨_, hparse, rfl⟩

theorem streamed_ok {broken : Option PyExc} {asm : StreamAssembler} {fs : List SseFrame}
    {decision : Decision} (h : streamed broken asm fs = .ok decision) :
    broken = none ∧ (feedFrames asm fs).2 = none ∧
      (feedFrames asm fs).1.assembled.fault PyRuntime.recursionLimit = none ∧
      parseStreamed (feedFrames asm fs).1.written = .ok decision := by
  unfold streamed at h
  split at h
  · cases h
  · next asm' hfeed =>
      split at h
      · cases h
      split at h
      · cases h
      · next raw hdumps =>
          rw [hfeed]
          obtain ⟨hfault, hraw⟩ := dumpsBytes_ok hdumps
          rw [hraw] at h
          exact ⟨rfl, rfl, hfault, h⟩

omit [PyRuntime] [Pydantic] in
theorem mapError_ok {r : Except PyExc Decision} {decision : Decision}
    (h : r.mapError Exn.raised = .ok decision) : r = .ok decision := by
  cases r with
  | ok d =>
      cases h
      rfl
  | error e => cases h

/-- A response that is no success brings an HTTP failure. -/
theorem verdict_failed {stream : Bool} {response : Response} (h : response.isSuccess = false) :
    verdict stream response
      = .error (.raised (.httpStatusError response.status response.content)) := by
  have hstatus : response.status ≠ 200 := by
    rintro hstatus
    simp [Response.isSuccess, hstatus] at h
  unfold verdict reply
  cases stream with
  | true => simp [hstatus, BrainCall.ending, raiseForStatus, h]
  | false => simp [BrainCall.ending, raiseForStatus, h]

/-- **A decision comes from the payload**, and carries its usage. -/
theorem verdict_ok {stream : Bool} {response : Response} {decision : Decision}
    (h : verdict stream response = .ok decision) :
    ∃ parsed, parseDecision (payload stream response) = .ok parsed ∧
      decision.usage = parsed.usage := by
  cases hstatus : response.isSuccess with
  | false =>
      rw [verdict_failed hstatus] at h
      cases h
  | true =>
      cases stream with
      | true =>
          rw [verdict_stream hstatus] at h
          exact parseStreamed_ok (streamed_ok (mapError_ok h)).2.2.2
      | false =>
          rw [verdict_plain hstatus] at h
          exact ⟨decision, mapError_ok h, rfl⟩

end Transports

/-! ## What has been assembled -/

section Assembled

variable [PyRuntime]

/-- The JSON text of an object that is not empty is UTF-8 for `json.detect_encoding`. -/
theorem jsonText_object (e : Key × Json) (entries : List (Key × Json)) :
    jsonText ((Json.obj (e :: entries)).write.map (fun c => UInt8.ofNat c.val))
      = some (Json.obj (e :: entries)).write := by
  have hread := decode_of_isAscii true (isAscii_write (.obj (e :: entries)))
  obtain ⟨rest, hrest⟩ : ∃ rest, (Json.obj (e :: entries)).write.map (fun c => UInt8.ofNat c.val)
      = 0x7B :: 0x22 :: rest := by
    cases entries with
    | nil => exact ⟨_, rfl⟩
    | cons e' entries => exact ⟨_, rfl⟩
  have hutf8 : ∀ rest : PyBytes, isUtf8 (0x7B :: 0x22 :: rest) = true := by
    intro rest
    cases rest with
    | nil => decide
    | cons c rest =>
        cases rest with
        | nil => simp [isUtf8]
        | cons d rest => simp [isUtf8]
  rw [hrest] at hread ⊢
  unfold jsonText
  rw [if_pos (hutf8 rest)]
  exact hread

theorem loadsBytes_object {e : Key × Json} {entries : List (Key × Json)}
    (h : (Json.obj (e :: entries)).fault PyRuntime.recursionLimit = none) :
    loadsBytes ((Json.obj (e :: entries)).write.map (fun c => UInt8.ofNat c.val))
      = .ok (Json.obj (e :: entries)).reread := by
  unfold loadsBytes
  rw [jsonText_object]
  simp only [loads_write h]

theorem loadsBytes_written {asm : StreamAssembler}
    (h : asm.assembled.fault PyRuntime.recursionLimit = none) :
    loadsBytes asm.written = .ok asm.assembled.reread := loadsBytes_object h

/-- The content of the message that is read back. -/
theorem content_reread (asm : StreamAssembler) :
    ∃ d : Dict, asm.assembled.reread = .obj d ∧
      d.get (py "content") = some (.arr (Json.rereadItems (asm.sortedBlocks.map .obj))) :=
  ⟨_, rfl, rfl⟩

theorem faultEntries_mem {entries : List (Key × Json)} {room : Nat} {e : Key × Json}
    (h : Json.faultEntries room entries = none) (he : e ∈ entries) : e.2.fault room = none := by
  induction entries with
  | nil => cases he
  | cons e' es ih =>
      unfold Json.faultEntries at h
      split at h
      · cases h
      split at h
      · cases h
      · next hv =>
          rcases List.mem_cons.1 he with rfl | he
          · exact hv
          · exact ih h he

theorem fault_content {asm : StreamAssembler} {room : Nat} (h : asm.assembled.fault room = none) :
    ∃ n, n ≤ room ∧ Json.faultItems n (asm.sortedBlocks.map .obj) = none := by
  unfold StreamAssembler.assembled Json.fault at h
  split at h
  · cases h
  have hcontent : (Json.arr (asm.sortedBlocks.map .obj)).fault (room - 1) = none :=
    faultEntries_mem (e := (.str (py "content"), _)) h (by simp)
  unfold Json.fault at hcontent
  split at hcontent
  · cases hcontent
  · exact ⟨room - 1 - 1, by omega, hcontent⟩

theorem firstThinking_returns {room : Nat} (hroom : room ≤ PyRuntime.recursionLimit)
    (blocks : List Dict) (h : Json.faultItems room (blocks.map .obj) = none) :
    Returns (firstThinking (Json.rereadItems (blocks.map .obj))) := by
  induction blocks with
  | nil => exact returns_ok _
  | cons block blocks ih =>
      simp only [List.map_cons] at h ⊢
      unfold Json.faultItems at h
      split at h
      · cases h
      next hblock =>
      have hfault := fault_mono hroom (fault_reread _ _ hblock)
      simp only [Json.rereadItems, Json.reread] at hfault ⊢
      unfold firstThinking
      rw [returns_bind]
      refine ⟨_, rfl, ?_⟩
      split
      · exact ⟨_, dumpsBytes_eq hfault⟩
      · exact ih h

/-- **The thinking block of an assembled message can always be taken.** -/
theorem extractThinkingBlock_returns {asm : StreamAssembler}
    (h : asm.assembled.fault PyRuntime.recursionLimit = none) :
    Returns (extractThinkingBlock asm.written) := by
  obtain ⟨d, hd, hcontent⟩ := content_reread asm
  obtain ⟨n, hn, hblocks⟩ := fault_content h
  unfold extractThinkingBlock
  rw [loadsBytes_written h]
  simp only [returns_bind, Except.ok.injEq, exists_eq_left', asDict_ok, hd, Json.obj.injEq,
    hcontent, Option.getD_some, iterate]
  exact firstThinking_returns hn _ hblocks

variable [Pydantic]

theorem parseStreamed_kept_iff {asm : StreamAssembler}
    (h : asm.assembled.fault PyRuntime.recursionLimit = none) :
    Kept asm.written (parseStreamed asm.written) ↔ Kept asm.written (parseDecision asm.written) := by
  obtain ⟨thinking, hthinking⟩ := extractThinkingBlock_returns h
  unfold parseStreamed
  cases parseDecision asm.written with
  | error e => rfl
  | ok decision =>
      cases decision with
      | toolCall decision =>
          simp only [hthinking]
          exact ⟨fun _ => Or.inl ⟨_, rfl⟩, fun _ => Or.inl ⟨_, rfl⟩⟩
      | huntComplete | needsHelp => rfl

/-- Each frame is the JSON text of an event the assembler takes, what it hands to the sink has no
    surrogates, the assembled message is not too deep to be written, and the counts of its usage are
    values `int` takes. -/
def Digestible (asm : StreamAssembler) : List SseFrame → Prop
  | [] => asm.assembled.fault PyRuntime.recursionLimit = none ∧
      ∀ response, readResponse asm.written = .ok response → response.Countable
  | frame :: rest =>
      ∃ event, Json.loads frame.data.flatten = .ok (.obj event) ∧ WellShaped asm event ∧
        ∀ text asm', asm.feed (.obj event) = .ok (text, asm') →
          (frame.closed = true → encodable (text.getD []) = true) ∧ Digestible asm' rest

omit [PyRuntime] [Pydantic] in
theorem kept_error {raw : PyBytes} {e : PyExc} (h : e.Builtin) : ¬ Kept raw (.error e) := by
  rintro (⟨_, ⟨⟩⟩ | ⟨detail, herror⟩)
  exact h.ne_brainParseError raw detail (Except.error.inj herror)

/-- **The streaming path keeps the payload of exactly the digestible streams.** -/
theorem streamed_kept_iff (fs : List SseFrame) : ∀ asm : StreamAssembler,
    Kept (feedFrames asm fs).1.written (streamed none asm fs) ↔ Digestible asm fs := by
  induction fs with
  | nil =>
      intro asm
      simp only [streamed, feedFrames, Digestible]
      cases hfault : asm.assembled.fault PyRuntime.recursionLimit with
      | none =>
          rw [dumpsBytes_eq hfault, ← parseDecision_kept_iff, ← parseStreamed_kept_iff hfault]
          exact ⟨fun h => ⟨rfl, h⟩, fun h => h.2⟩
      | some e =>
          rw [dumpsBytes_error hfault]
          exact ⟨fun h => absurd h (kept_error (jsonExc_builtin e)), fun h => nomatch h.1⟩
  | cons frame fs ih =>
      intro asm
      simp only [streamed, feedFrames, Digestible]
      cases hfeed : feedFrame asm frame.data with
      | error e =>
          refine ⟨fun h => absurd h (kept_error (feedFrame_raises _ _ _ hfeed)), ?_⟩
          rintro ⟨event, hloads, hshape, _⟩
          obtain ⟨r, hr⟩ := (feed_ok_iff asm (.obj event)).2 ⟨event, rfl, hshape⟩
          unfold feedFrame at hfeed
          simp only [hloads, hr] at hfeed
          cases hfeed
      | ok r =>
          obtain ⟨text, asm'⟩ := r
          have hevent : ∃ event, Json.loads frame.data.flatten = .ok (.obj event) ∧
              WellShaped asm event ∧ asm.feed (.obj event) = .ok (text, asm') := by
            unfold feedFrame at hfeed
            cases hloads : Json.loads frame.data.flatten with
            | error e =>
                rw [hloads] at hfeed
                cases hfeed
            | ok v =>
                rw [hloads] at hfeed
                obtain ⟨event, rfl, hshape⟩ := (feed_ok_iff asm v).1 ⟨_, hfeed⟩
                exact ⟨event, rfl, hshape, hfeed⟩
          obtain ⟨event, hloads, hshape, hfed⟩ := hevent
          by_cases hsink : frame.closed = true ∧ encodable (text.getD []) = false
          · simp only [if_pos hsink]
            refine ⟨fun h => absurd h (kept_error trivial), ?_⟩
            rintro ⟨event', hloads', _, hrest⟩
            rw [hloads] at hloads'
            cases hloads'
            have htext := (hrest text asm' hfed).1 hsink.1
            rw [hsink.2] at htext
            cases htext
          · simp only [if_neg hsink]
            refine (ih asm').trans ⟨fun h => ⟨event, hloads, hshape, ?_⟩, ?_⟩
            · intro text' asm'' hfed'
              rw [hfed] at hfed'
              cases hfed'
              refine ⟨fun hclosed => ?_, h⟩
              by_contra htext
              exact hsink ⟨hclosed, by simpa using htext⟩
            · rintro ⟨event', hloads', _, hrest⟩
              rw [hloads] at hloads'
              cases hloads'
              exact (hrest text asm' hfed).2

end Assembled

end RexHunter
