import RexHunter.Lib.EventStream
import RexHunter.Implementation.Frames
import RexHunter.Proofs.Codec
import RexHunter.Proofs.Cursor

set_option autoImplicit false

/-! # Frames survive the event stream

No payload contains a line break, so a frame is the lines that `sse` wrote, and what the browser's
parser does with it depends on the envelope only (`readAll_sse`). Over a sequence of envelopes the
messages are the payloads, and the last event id is that of the last published envelope. -/

namespace RexHunter

open EventStream (Message Source Parser Unbroken isBreak)

/-! ## Payloads -/

/-- Not a control character. -/
def isPrinting (c : CodePoint) : Bool := decide (0x20 ≤ c.val)

/-- A text with no control characters, and not empty. -/
def Printing (s : PyStr) : Prop := s ≠ [] ∧ s.all isPrinting = true

instance (s : PyStr) : Decidable (Printing s) :=
  inferInstanceAs (Decidable (s ≠ [] ∧ s.all isPrinting = true))

/-- A pydantic that escapes control characters in JSON. -/
class PydanticEscapes extends PydanticJson where
  printing_writeJson : ∀ d s, writeJson d = some s → Printing s

theorem isPrinting_of_visible {c : CodePoint} (h : 0x20 ≤ c.val) (_ : c.val ≤ 0x7E) :
    isPrinting c = true := decide_eq_true h

theorem Printing.unbroken {s : PyStr} (h : Printing s) : Unbroken s := by
  refine EventStream.unbroken_iff.2 (fun c hc => decide_eq_false ?_)
  have hprinting := of_decide_eq_true (List.all_eq_true.1 h.2 c hc)
  omega

theorem Printing.append {s t : PyStr} (hs : Printing s) (ht : t.all isPrinting = true) :
    Printing (s ++ t) := by
  refine ⟨List.append_ne_nil_of_left_ne_nil hs.1 t, ?_⟩
  rw [List.all_append, hs.2, ht]
  rfl

/-- `json.dumps` escapes them. -/
theorem printing_quoted (s : PyStr) : (quoted s).all isPrinting = true :=
  all_quoted (fun _ => isPrinting_of_visible) s

theorem printing_compactText (entries : List (PyStr × PyStr)) : Printing (compactText entries) := by
  have hmembers : (List.intercalate (py ",") (entries.map compactMember)).all isPrinting = true := by
    induction entries with
    | nil => rfl
    | cons e entries ih =>
        have hmember : (compactMember e).all isPrinting = true := by
          unfold compactMember
          rw [List.all_append, List.all_append, printing_quoted, printing_quoted]
          decide
        cases entries with
        | nil => simpa [List.intercalate] using hmember
        | cons e' entries =>
            simp only [List.map_cons, List.intercalate, List.intersperse_cons_cons, List.flatten_cons,
              List.all_append] at ih ⊢
            rw [hmember, ih]
            decide
  refine Printing.append (s := _ ++ _) (Printing.append ?_ hmembers) ?_ <;> decide

section

variable [PydanticEscapes]

/-- What is offered is a heartbeat or has a payload of printing characters. -/
theorem Envelope.Offered.payload {env : Envelope} (h : env.Offered) :
    env = heartbeat ∨ Printing env.data := by
  have hwritten : ∀ {E : Type} {c : EventClass E} {values : List FieldValue} {payload : PyStr},
      c.modelDumpJson values = .ok payload → Printing payload := by
    intro E c values payload hpayload
    unfold EventClass.modelDumpJson at hpayload
    split at hpayload
    · next hwrite =>
        cases hpayload
        exact PydanticEscapes.printing_writeJson _ _ hwrite
    · cases hpayload
  cases h with
  | publish id hpayload => exact Or.inr (hwritten hpayload)
  | notifyVerdict hpayload => exact Or.inr (hwritten hpayload)
  | notifyFinished runId outcome => exact Or.inr (printing_compactText _)
  | beat => exact Or.inl rfl

end

/-! ## What the browser does with an envelope -/

/-- The source after an envelope. -/
def sourceAfter (s : Source) (env : Envelope) : Source :=
  match env.id with
  | some id =>
      { s with
        idBuffer := decimalDigits id
        lastEventId := decimalDigits id
        messages := s.messages ++ [⟨py "message", env.data, decimalDigits id⟩] }
  | none =>
      { s with
        lastEventId := s.idBuffer
        messages := s.messages ++
          if env.data = [] then [] else [⟨py "message", env.data, s.idBuffer⟩] }

/-- The id of the last published envelope. -/
def lastPublished (sent : List Envelope) : Option Nat := (sent.filterMap Envelope.id).getLast?

theorem sourceAfter_idle {s : Source} (h : s.Idle) (env : Envelope) : (sourceAfter s env).Idle := by
  unfold sourceAfter
  split <;> exact h

section

variable [PyRuntime] [PydanticEscapes]

/-- **A frame.** -/
theorem readAll_sse {s : Source} (hs : s.Idle) {env : Envelope} (h : env.Offered) {frame : PyStr}
    (hframe : env.sse = .ok frame) :
    (Parser.atLine s).readAll frame = Parser.atLine (sourceAfter s env) := by
  obtain ⟨id, data⟩ := env
  cases id with
  | none =>
      simp only [Envelope.sse] at hframe
      by_cases hdata : data = []
      · rw [if_pos hdata] at hframe
        cases hframe
        have hcomment := EventStream.readAll_comment hs (t := py " keep-alive") (by decide)
        simp only [sourceAfter, if_pos hdata, List.append_nil]
        exact hcomment
      · rw [if_neg hdata] at hframe
        cases hframe
        rcases h.payload with hbeat | hprinting
        · exact absurd (congrArg Envelope.data hbeat) hdata
        · have hmessage := EventStream.readAll_message hs hprinting.unbroken
          simp only [sourceAfter, if_neg hdata]
          rw [List.append_assoc] at hmessage
          exact hmessage
  | some id =>
      simp only [Envelope.sse, formatInt] at hframe
      split at hframe
      · cases hframe
      · cases hframe
        rcases h.payload with hbeat | hprinting
        · cases hbeat
        · have hdigits := decimalDigits_all id
          have hunbroken : Unbroken (decimalDigits id) := by
            refine EventStream.unbroken_iff.2 (fun c hc => decide_eq_false ?_)
            have := of_decide_eq_true (hdigits c hc)
            omega
          have hnull : ∀ c ∈ decimalDigits id, c.val ≠ 0 := by
            intro c hc
            have := of_decide_eq_true (hdigits c hc)
            omega
          have hevent := EventStream.readAll_event hs hunbroken hnull hprinting.unbroken
          have htext : py "id: " ++ decimalDigits id ++ py "\ndata: " ++ data ++ py "\n\n"
              = py "id: " ++ decimalDigits id ++ py "\n" ++
                (py "data: " ++ data ++ py "\n" ++ py "\n") := by
            simp [py]
          rw [htext]
          exact hevent

omit [PydanticEscapes] in
/-- A frame does not start with a byte order mark. -/
theorem head_sse {env : Envelope} {frame : PyStr} (hframe : env.sse = .ok frame) :
    ∃ c rest, frame = c :: rest ∧ c ≠ 0xFEFF := by
  unfold Envelope.sse at hframe
  split at hframe
  · split at hframe
    · cases hframe
      exact ⟨0x3A, _, rfl, by decide⟩
    · cases hframe
      exact ⟨0x64, _, rfl, by decide⟩
  · unfold formatInt at hframe
    split at hframe
    · cases hframe
    · cases hframe
      exact ⟨0x69, _, rfl, by decide⟩

/-- Frames one after the other. -/
theorem readAll_frames {sent : List Envelope} {frames : List PyStr}
    (hframes : List.Forall₂ (fun env frame => env.sse = .ok frame) sent frames)
    (hsent : ∀ env ∈ sent, env.Offered) : ∀ {s : Source}, s.Idle →
    (Parser.atLine s).readAll frames.flatten = Parser.atLine (sent.foldl sourceAfter s) := by
  induction hframes with
  | nil => exact fun _ => rfl
  | cons hframe _ ih =>
      intro s hs
      obtain ⟨henv, hsent⟩ := List.forall_mem_cons.1 hsent
      rw [List.flatten_cons, Parser.readAll_append, readAll_sse hs henv hframe]
      exact ih hsent (sourceAfter_idle hs _)

/-- **What a browser makes of the frames.** -/
theorem parse_frames {sent : List Envelope} {frames : List PyStr}
    (hframes : List.Forall₂ (fun env frame => env.sse = .ok frame) sent frames)
    (hsent : ∀ env ∈ sent, env.Offered) :
    EventStream.parse frames.flatten = sent.foldl sourceAfter Source.new := by
  have hmark : frames.flatten.head? ≠ some 0xFEFF := by
    cases hframes with
    | nil => exact fun h => by cases h
    | cons hframe _ =>
        obtain ⟨c, rest, rfl, hc⟩ := head_sse hframe
        exact fun h => hc (Option.some.inj h)
  unfold EventStream.parse
  rw [if_neg hmark, readAll_frames hframes hsent ⟨rfl, rfl⟩]
  rfl

end

/-! ## What it has then -/

theorem sourceAfter_messages (sent : List Envelope) : ∀ s : Source,
    (sent.foldl sourceAfter s).messages.map Message.data =
      s.messages.map Message.data ++ (sent.filter (· ≠ heartbeat)).map Envelope.data := by
  induction sent with
  | nil => simp
  | cons env sent ih =>
      intro s
      rw [List.foldl_cons, ih]
      obtain ⟨id, data⟩ := env
      cases id with
      | some id => simp [sourceAfter, heartbeat]
      | none => by_cases hdata : data = [] <;> simp [sourceAfter, heartbeat, hdata]

theorem sourceAfter_types (sent : List Envelope) : ∀ s : Source,
    (∀ m ∈ s.messages, m.type = py "message") →
      ∀ m ∈ (sent.foldl sourceAfter s).messages, m.type = py "message" := by
  induction sent with
  | nil => exact fun _ hs => hs
  | cons env sent ih =>
      intro s hs
      refine ih _ (fun m hm => ?_)
      unfold sourceAfter at hm
      split at hm
      · rcases List.mem_append.1 hm with hm | hm
        · exact hs m hm
        · rw [List.mem_singleton.1 hm]
      · rcases List.mem_append.1 hm with hm | hm
        · exact hs m hm
        · split at hm
          · cases hm
          · rw [List.mem_singleton.1 hm]

/-- The cursor is the id of the last published envelope. -/
theorem sourceAfter_cursor (sent : List Envelope) {s : Source} (hs : s.lastEventId = s.idBuffer) :
    (sent.foldl sourceAfter s).lastEventId = (sent.foldl sourceAfter s).idBuffer ∧
    (sent.foldl sourceAfter s).idBuffer =
      match lastPublished sent with
      | none => s.idBuffer
      | some id => decimalDigits id := by
  induction sent using List.reverseRecOn with
  | nil => exact ⟨hs, rfl⟩
  | append_singleton sent env ih =>
      rw [List.foldl_append, List.foldl_cons, List.foldl_nil]
      unfold lastPublished at ih ⊢
      rw [List.filterMap_append]
      cases hid : env.id with
      | some id => simp [sourceAfter, hid]
      | none => simpa [sourceAfter, hid] using ih.2

section

variable [PyRuntime] [PyDigits]

/-- The cursor of a number that is not too long is the number. -/
theorem lastSeenOf_decimalDigits {id : Nat}
    (h : ¬ PyRuntime.maxStrDigits < (decimalDigits id).length) :
    lastSeenOf (decimalDigits id) = .ok (id : Int) := by
  have hne : decimalDigits id ≠ [] := by
    obtain ⟨c, rest, hdigits, _⟩ := decimalDigits_cons id
    rw [hdigits]
    exact List.cons_ne_nil c rest
  have hascii : (decimalDigits id).all isDigit = true := List.all_eq_true.2 (decimalDigits_all id)
  have hnumeral : numeral ((decimalDigits id).map (fun c => c.val - 0x30)) = id := by
    unfold numeral
    rw [List.foldl_map]
    exact foldl_decimalDigits id
  rw [lastSeenOf_of_isdigit (isdigit_of_ascii hne hascii), mapM_decimal_ascii hascii]
  simp only [List.length_map, if_neg h, hnumeral]

omit [PyDigits] in
/-- An id that was rendered is not too long. -/
theorem published_rendered {sent : List Envelope} {frames : List PyStr}
    (hframes : List.Forall₂ (fun env frame => env.sse = .ok frame) sent frames) {id : Nat}
    (hid : lastPublished sent = some id) : ¬ PyRuntime.maxStrDigits < (decimalDigits id).length := by
  obtain ⟨env, henv, hpublished⟩ := List.mem_filterMap.1 (List.mem_of_getLast? hid)
  clear hid
  obtain ⟨frame, -, hframe⟩ : ∃ frame ∈ frames, env.sse = .ok frame := by
    induction hframes with
    | nil => cases henv
    | cons hframe _ ih =>
        rcases List.mem_cons.1 henv with rfl | henv
        · exact ⟨_, List.mem_cons_self, hframe⟩
        · obtain ⟨frame, hmem, hframe⟩ := ih henv
          exact ⟨frame, List.mem_cons_of_mem _ hmem, hframe⟩
  intro hlong
  unfold Envelope.sse formatInt at hframe
  rw [hpublished] at hframe
  simp only [if_pos hlong] at hframe
  cases hframe

variable [PydanticEscapes]

/-- **The framing round trip.** Whatever prefix of the frames a browser has read, its messages are the
    payloads of the envelopes that are no heartbeats, in order; its last event id is that of the last
    published envelope, and sent back it is the cursor. -/
theorem frames_round_trip (sent : List Envelope) (frames : List PyStr)
    (hsent : ∀ env ∈ sent, env.Offered)
    (hframes : List.Forall₂ (fun env frame => env.sse = .ok frame) sent frames) (n : Nat) :
    (EventStream.parse (frames.take n).flatten).messages.map Message.data =
      ((sent.take n).filter (· ≠ heartbeat)).map Envelope.data ∧
    (∀ m ∈ (EventStream.parse (frames.take n).flatten).messages, m.type = py "message") ∧
    (lastPublished (sent.take n) = none →
      (EventStream.parse (frames.take n).flatten).lastEventId = []) ∧
    ∀ id, lastPublished (sent.take n) = some id →
      (EventStream.parse (frames.take n).flatten).lastEventId = decimalDigits id ∧
      ∀ since, lastSeenOf
        (resumeText (EventStream.parse (frames.take n).flatten).lastEventId since) = .ok id := by
  have htake := List.forall₂_take n hframes
  have hparse := parse_frames htake (fun env henv => hsent env (List.mem_of_mem_take henv))
  obtain ⟨hcursor, hbuffer⟩ := sourceAfter_cursor (sent.take n) (s := Source.new) rfl
  rw [hparse]
  refine ⟨sourceAfter_messages _ _, sourceAfter_types _ _ (by simp [Source.new]), fun hnone => ?_,
    fun id hid => ?_⟩
  · rw [hcursor, hbuffer, hnone]
    rfl
  · have hlast : ((sent.take n).foldl sourceAfter Source.new).lastEventId = decimalDigits id := by
      rw [hcursor, hbuffer, hid]
    obtain ⟨c, rest, hdigits, _⟩ := decimalDigits_cons id
    refine ⟨hlast, fun since => ?_⟩
    rw [hlast, resumeText, if_neg (by rw [hdigits]; exact List.cons_ne_nil c rest)]
    exact lastSeenOf_decimalDigits (published_rendered htake hid)

end

/-! ## A stream -/

/-- Compact JSON escapes the control characters. -/
@[reducible] def PydanticEscapes.ascii : PydanticEscapes where
  toPydanticJson := @PydanticJson.plain .ascii
  printing_writeJson := by
    intro d s h
    have hfloat : ∀ x, (@floatText .ascii x).all isPrinting = true := by
      intro x
      cases x with
      | nan => rfl
      | inf negative => cases negative <;> rfl
      | finite negative mantissa exponent => rfl
    change (if _ then some _ else none) = some s at h
    split at h
    · next hd =>
        cases h
        refine ⟨List.cons_ne_nil _ _, ?_⟩
        exact @all_compact _ (fun _ hleast _ => decide_eq_true hleast) .ascii hfloat (.obj d) hd.1
    · cases h

/-- A posting that looks like a frame. -/
def forgedFrame : TrajectoryEvent := .sniff ⟨py "x\n\nid: 99\ndata: y"⟩

/-- Its payload. -/
def forgedPayload : PyStr :=
  py "\x7b\"type\":\"sniff\",\"prey\":\"x\\n\\nid: 99\\ndata: y\"\x7d"

theorem forgedFrame_dumped :
    @TrajectoryEvent.modelDumpJson (@PydanticJson.plain .ascii) forgedFrame = .ok forgedPayload := by
  decide +kernel

/-- The event, a heartbeat and the end of a run. -/
def forgedSent : List Envelope :=
  [⟨some 3, forgedPayload⟩, heartbeat, ⟨none, pulsePayload (py "r") .completed⟩]

def forgedFrames : List PyStr :=
  [py "id: 3\ndata: " ++ forgedPayload ++ py "\n\n", py ": keep-alive\n\n",
    py "data: " ++ pulsePayload (py "r") .completed ++ py "\n\n"]

/-- The posting stays in its message, and the cursor is that of its envelope. -/
theorem forged_frame_is_data :
    (EventStream.parse forgedFrames.flatten).messages.map Message.data =
      [forgedPayload, pulsePayload (py "r") .completed] ∧
    (EventStream.parse forgedFrames.flatten).lastEventId = py "3" := by
  have hoffered : ∀ env ∈ forgedSent, @Envelope.Offered (@PydanticJson.plain .ascii) env := by
    refine List.forall_mem_cons.2 ⟨?_, List.forall_mem_cons.2 ⟨?_, List.forall_mem_singleton.2 ?_⟩⟩
    · exact @Envelope.Offered.publish (@PydanticJson.plain .ascii) 3 _ _ forgedFrame_dumped
    · exact @Envelope.Offered.beat (@PydanticJson.plain .ascii)
    · exact @Envelope.Offered.notifyFinished (@PydanticJson.plain .ascii) (py "r") .completed
  have hframes : List.Forall₂ (fun env frame => @Envelope.sse .ascii env = .ok frame)
      forgedSent forgedFrames :=
    .cons (by decide +kernel) (.cons (by decide +kernel) (.cons (by decide +kernel) .nil))
  obtain ⟨hdata, _, _, hid⟩ :=
    @frames_round_trip .ascii .latin .ascii forgedSent forgedFrames hoffered hframes 3
  exact ⟨hdata, (hid 3 rfl).1⟩

end RexHunter
