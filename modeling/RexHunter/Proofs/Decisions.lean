import RexHunter.Proofs.Assembly
import RexHunter.Proofs.Boundary
import RexHunter.Proofs.Reading

set_option autoImplicit false

/-! # A stream and the message in one piece

`parse_decision` looks at a message through the members of its objects, so neither their order nor
the way the message is spelled matters: what is assembled from a stream and the message in one piece
give the same decision, or neither gives one (`stream_agrees`). -/

namespace RexHunter

/-- What the program relies on of pydantic's reader of JSON: it reads every text of a value, unless
    the value is too deep for it, has an int that is too long for it or holds a surrogate. It counts
    the sign of an int, where `int` counts the digits only. -/
class PydanticReader [PyRuntime] extends Pydantic where
  depth : Nat
  depth_le : depth ≤ PyRuntime.recursionLimit
  intChars_le : intChars ≤ PyRuntime.maxStrDigits
  readJson_spelled : ∀ (v : Json) (s : PyStr) (raw : PyBytes), v.reread = v → v.Spells s →
    encode s = some raw → v.Readable depth intChars → readJson raw = .ok v
  readJson_unreadable : ∀ (v : Json) (s : PyStr) (raw : PyBytes), v.reread = v → v.Spells s →
    encode s = some raw → ¬ v.Readable depth intChars → ∃ detail, readJson raw = .error detail

/-- A reader that takes what `json.loads` takes, up to the surrogates and the signs of ints. -/
@[reducible] def PydanticReader.plain [PyRuntime] : PydanticReader where
  toPydantic := Pydantic.plain
  depth := PyRuntime.recursionLimit
  depth_le := Nat.le_refl _
  intChars_le := Nat.le_refl _
  readJson_spelled := fun _ _ _ => readUtf8_spelled
  readJson_unreadable := fun _ _ _ hreread hs hraw h =>
    ⟨_, readUtf8_unreadable hreread hs hraw h⟩

/-! ## The members of a message -/

section Members

variable {m : Message} {d : Dict}

/-- The envelope of the message. -/
def Message.response (m : Message) (usage : Dict) : ProviderResponse :=
  ⟨m.stopReason, m.content.map Block.dict, m.model, some usage⟩

theorem members_textual (m : Message) (usage : Dict) : (m.members usage).Textual where
  keys := by
    intro e he
    simp only [Message.members, List.mem_cons, List.not_mem_nil, or_false] at he
    rcases he with rfl | rfl | rfl | rfl | rfl | rfl <;> exact ⟨_, rfl⟩
  nodup := by
    show [Key.str (py "type"), .str (py "role"), .str (py "model"), .str (py "stop_reason"),
      .str (py "content"), .str (py "usage")].Nodup
    decide

theorem objects_map (blocks : List Dict) : objects (blocks.map .obj) = some blocks := by
  induction blocks with
  | nil => rfl
  | cons b blocks ih =>
      rw [List.map_cons, objects, ih]
      rfl

/-- However its members are ordered, the message has this envelope. -/
theorem Message.IsObject.validate (h : m.IsObject d) : ∃ usage : Dict, usage.Perm m.usage ∧
    validateResponse (.obj d) = some (m.response usage) := by
  obtain ⟨usage, husage, hperm⟩ := h
  have hget := (members_textual m usage).get_perm hperm.symm
  refine ⟨usage, husage, ?_⟩
  have hstop : optionalStr d (py "stop_reason") = some m.stopReason := by
    unfold optionalStr
    rw [← hget]
    cases hstop : m.stopReason <;> simp [Message.members, hstop] <;> rfl
  have hmodel : optionalStr d (py "model") = some m.model := by
    unfold optionalStr
    rw [← hget]
    cases hmodel : m.model <;> simp [Message.members, hmodel] <;> rfl
  have hcontent : requiredObjects d (py "content") = some (m.content.map Block.dict) := by
    unfold requiredObjects
    rw [← hget, ← objects_map, List.map_map]
    rfl
  have hdict : optionalDict d (py "usage") = some (some usage) := by
    unfold optionalDict
    rw [← hget]
    rfl
  simp only [validateResponse, hstop, hmodel, hcontent, hdict]
  rfl

theorem rereadItems_eq [PyRuntime] {items : List Json} (h : ∀ v ∈ items, v.reread = v) :
    Json.rereadItems items = items := by
  induction items with
  | nil => rfl
  | cons v vs ih =>
      obtain ⟨hv, hvs⟩ := List.forall_mem_cons.1 h
      rw [Json.rereadItems, hv, ih hvs]

theorem Message.IsObject.canonical [PyRuntime] (hm : m.Canonical) (h : m.IsObject d) :
    d.Canonical := by
  obtain ⟨usage, husage, hperm⟩ := h
  have hblocks : Json.rereadItems (m.content.map (fun b => .obj b.dict))
      = m.content.map (fun b => .obj b.dict) :=
    rereadItems_eq (List.forall_mem_map.2 hm.content)
  have husage' : (Json.obj usage).reread = .obj usage := (hm.usage.perm husage.symm).reread
  refine Dict.Canonical.perm ⟨members_textual m usage, ?_, ?_⟩ hperm.symm
  · intro e he
    simp only [Message.members, List.mem_cons, List.not_mem_nil, or_false] at he
    rcases he with rfl | rfl | rfl | rfl | rfl | rfl <;> rfl
  · intro e he
    simp only [Message.members, List.mem_cons, List.not_mem_nil, or_false] at he
    rcases he with rfl | rfl | rfl | rfl | rfl | rfl
    · rfl
    · rfl
    · exact hm.model
    · exact hm.stopReason
    · exact congrArg Json.arr hblocks
    · exact husage'

/-- Whether a reader takes the message does not depend on the order of the members. -/
theorem Message.IsObject.readable_iff [PyRuntime] {depth chars : Nat} (h : m.IsObject d) :
    (Json.obj d).Readable depth chars ↔
      (Json.obj (m.members m.usage)).Readable depth chars := by
  obtain ⟨usage, husage, hperm⟩ := h
  have husages : (Json.obj usage).Readable (depth - 1) chars ↔
      (Json.obj m.usage).Readable (depth - 1) chars :=
    ⟨fun hread => hread.perm husage, fun hread => hread.perm husage.symm⟩
  have hmembers : (Json.obj (m.members usage)).Readable depth chars ↔
      (Json.obj (m.members m.usage)).Readable depth chars := by
    simp only [readable_obj, Message.members, List.forall_mem_cons, husages]
  exact Iff.trans ⟨fun hread => hread.perm hperm, fun hread => hread.perm hperm.symm⟩ hmembers

end Members

/-! ## The decision -/

section Decisions

variable [PyRuntime] {m : Message} {d : Dict}

/-- The envelope of the message leads to the decision. -/
def Message.Gives [Pydantic] (m : Message) (decision : Decision) : Prop :=
  ∃ usage, extractUsage (m.response m.usage) = .ok usage ∧
    decideResponse (m.response m.usage) usage = .ok decision

theorem extractUsage_perm {usage usage' : Dict} (h : usage.Textual) (hperm : usage.Perm usage')
    (m : Message) : extractUsage (m.response usage) = extractUsage (m.response usage') := by
  simp only [extractUsage, Message.response, tokenCount, h.get_perm hperm]

/-- `parse_decision` of bytes that are read as the message. -/
theorem parseDecision_read [Pydantic] (hm : m.Canonical) (h : m.IsObject d) {raw : PyBytes}
    (hread : Pydantic.readJson raw = .ok (.obj d)) {decision : Decision} :
    parseDecision raw = .ok decision ↔ m.Gives decision := by
  obtain ⟨usage, husage, hvalid⟩ := h.validate
  have hextract := extractUsage_perm (hm.usage.perm husage.symm).textual husage m
  have hdecide : ∀ u, decideResponse (m.response usage) u = decideResponse (m.response m.usage) u :=
    fun _ => rfl
  unfold parseDecision readResponse Message.Gives
  simp only [hread, hvalid, hextract, hdecide]
  cases extractUsage (m.response m.usage) with
  | error e => simp
  | ok u =>
      simp only [Except.ok.injEq, exists_eq_left']
      cases decideResponse (m.response m.usage) u <;> simp

variable [PydanticReader]

/-- **However the message is spelled, it gives the same decision.** -/
theorem parseDecision_spelled (hm : m.Canonical) (h : m.IsObject d) {s : PyStr} {raw : PyBytes}
    (hs : (Json.obj d).Spells s) (hraw : encode s = some raw) {decision : Decision} :
    parseDecision raw = .ok decision ↔
      (Json.obj (m.members m.usage)).Readable PydanticReader.depth Pydantic.intChars ∧
        m.Gives decision := by
  have hreread := (h.canonical hm).reread
  rw [← h.readable_iff]
  by_cases hreadable : (Json.obj d).Readable PydanticReader.depth Pydantic.intChars
  · have hread := PydanticReader.readJson_spelled _ s raw hreread hs hraw hreadable
    rw [parseDecision_read hm h hread]
    exact (and_iff_right hreadable).symm
  · obtain ⟨detail, hdetail⟩ :=
      PydanticReader.readJson_unreadable _ s raw hreread hs hraw hreadable
    have herror : parseDecision raw = .error (.brainParseError raw detail) := by
      unfold parseDecision readResponse
      simp only [hdetail]
    rw [herror]
    exact ⟨nofun, fun h => absurd h.1 hreadable⟩

/-- The same for the bytes that `json.dumps` makes of it, if it makes any. -/
theorem parseDecision_dumped (hm : m.Canonical) (h : m.IsObject d) {decision : Decision} :
    (dumpsBytes (.obj d) >>= parseDecision) = .ok decision ↔
      (Json.obj (m.members m.usage)).Readable PydanticReader.depth Pydantic.intChars ∧
        m.Gives decision := by
  cases hfault : (Json.obj d).fault PyRuntime.recursionLimit with
  | none =>
      rw [dumpsBytes_eq hfault]
      exact parseDecision_spelled hm h (spells_write _) (encode_of_isAscii (isAscii_write _))
  | some e =>
      rw [dumpsBytes_error hfault]
      constructor
      · nofun
      · rintro ⟨hreadable, _⟩
        have hnone := fault_mono PydanticReader.depth_le (h.readable_iff.2 hreadable).fault
        rw [hfault] at hnone
        cases hnone

/-- The two calls return the same decision, or none does. -/
def SameDecision (r r' : Except PyExc Decision) : Prop :=
  ∀ decision, r = .ok decision ↔ r' = .ok decision

/-- **Streaming and non-streaming agree.** A stream that encodes a message is assembled to the
    message, the relayed texts of a thinking block are its text, and the decision is that of the
    message in one piece. -/
theorem stream_agrees (hm : m.Canonical) {es : List SentEvent}
    (h : Encodes m (es.map SentEvent.event)) :
    ∃ texts asm, feedEvents .new (es.map (fun e => .obj e.object)) = .ok (texts, asm) ∧
      (∃ usage : Dict, usage.Perm m.usage ∧ asm.assembled = .obj (m.members usage)) ∧
      (∀ (i : Nat) t s, m.content[i]? = some (.thinking t s) →
        relayed (Channels.ownOutputs (fun e => e.event.channel) (.block i) es texts) = t) ∧
      ∀ (d : Dict) s raw, m.IsObject d → (Json.obj d).Spells s → encode s = some raw →
        SameDecision (dumpsBytes asm.assembled >>= parseDecision) (parseDecision raw) := by
  obtain ⟨texts, asm, hfeed, hholds, htexts⟩ := feedEvents_encoded hm.usage.textual h
  refine ⟨texts, asm, hfeed, ⟨_, hholds.usage, hholds.assembled⟩, htexts, ?_⟩
  intro d s raw hobject hs hraw decision
  rw [hholds.assembled, parseDecision_dumped hm hholds.isObject,
    parseDecision_spelled hm hobject hs hraw]

end Decisions

/-! ### A stream with two open blocks -/

def lateBlockMessage : Message where
  model := some (py "m")
  stopReason := some (py "tool_use")
  usage := [(.str (py "input_tokens"), .int 7), (.str (py "output_tokens"), .int 3)]
  content := [.thinking (py "look") (py "s"), .toolUse (py "t") (py "sniff") [(.str (py "n"), .int 1)]]

def sentDelta (index : Int) (delta : Dict) : Dict :=
  [(.str (py "type"), .str (py "content_block_delta")), (.str (py "index"), .int index),
    (.str (py "delta"), .obj delta)]

/-- The deltas of the two blocks alternate. -/
def lateBlockStream : List SentEvent :=
  [⟨.messageStart (some (py "m")) [(.str (py "input_tokens"), .int 7)],
      [(.str (py "type"), .str (py "message_start")), (.str (py "message"),
        .obj [(.str (py "model"), .str (py "m")),
          (.str (py "usage"), .obj [(.str (py "input_tokens"), .int 7)])])],
      ⟨rfl, _, rfl, rfl, rfl⟩⟩,
    ⟨.blockStart 0 (.thinking (py "look") (py "s")),
      [(.str (py "type"), .str (py "content_block_start")), (.str (py "index"), .int 0),
        (.str (py "content_block"), .obj (Block.thinkingDict [] []))], ⟨rfl, rfl, rfl⟩⟩,
    ⟨.delta 0 (.thinking (py "lo")), sentDelta 0 [(.str (py "type"), .str (py "thinking_delta")),
      (.str (py "thinking"), .str (py "lo"))], ⟨rfl, rfl, _, rfl, rfl, rfl⟩⟩,
    ⟨.blockStart 1 (.toolUse (py "t") (py "sniff") [(.str (py "n"), .int 1)]),
      [(.str (py "type"), .str (py "content_block_start")), (.str (py "index"), .int 1),
        (.str (py "content_block"), .obj (Block.toolUseDict (py "t") (py "sniff") (.obj [])))],
      ⟨rfl, rfl, rfl⟩⟩,
    ⟨.delta 1 (.inputJson (py "\x7b\"n\"")), sentDelta 1
      [(.str (py "type"), .str (py "input_json_delta")),
        (.str (py "partial_json"), .str (py "\x7b\"n\""))], ⟨rfl, rfl, _, rfl, rfl, rfl⟩⟩,
    ⟨.delta 0 (.thinking (py "ok")), sentDelta 0 [(.str (py "type"), .str (py "thinking_delta")),
      (.str (py "thinking"), .str (py "ok"))], ⟨rfl, rfl, _, rfl, rfl, rfl⟩⟩,
    ⟨.ping, [(.str (py "type"), .str (py "ping"))], rfl⟩,
    ⟨.delta 1 (.inputJson (py ":1\x7d")), sentDelta 1
      [(.str (py "type"), .str (py "input_json_delta")),
        (.str (py "partial_json"), .str (py ":1\x7d"))], ⟨rfl, rfl, _, rfl, rfl, rfl⟩⟩,
    ⟨.delta 0 (.signature (py "s")), sentDelta 0 [(.str (py "type"), .str (py "signature_delta")),
      (.str (py "signature"), .str (py "s"))], ⟨rfl, rfl, _, rfl, rfl, rfl⟩⟩,
    ⟨.blockStop 1, [(.str (py "type"), .str (py "content_block_stop")),
      (.str (py "index"), .int 1)], ⟨rfl, rfl⟩⟩,
    ⟨.blockStop 0, [(.str (py "type"), .str (py "content_block_stop")),
      (.str (py "index"), .int 0)], ⟨rfl, rfl⟩⟩,
    ⟨.messageDelta (some (py "tool_use")) [(.str (py "output_tokens"), .int 3)],
      [(.str (py "type"), .str (py "message_delta")),
        (.str (py "delta"), .obj [(.str (py "stop_reason"), .str (py "tool_use"))]),
        (.str (py "usage"), .obj [(.str (py "output_tokens"), .int 3)])],
      ⟨rfl, _, rfl, rfl, rfl⟩⟩,
    ⟨.messageStop, [(.str (py "type"), .str (py "message_stop"))], rfl⟩]

theorem lateBlockMessage_canonical : @Message.Canonical .ascii lateBlockMessage := by
  refine @Message.Canonical.mk .ascii _ rfl rfl (@Dict.Canonical.mk .ascii _ ⟨?_, by decide⟩ ?_ ?_)
    ?_
  · intro e he
    simp only [lateBlockMessage, List.mem_cons, List.not_mem_nil, or_false] at he
    rcases he with rfl | rfl <;> exact ⟨_, rfl⟩
  all_goals
    intro e he
    simp only [lateBlockMessage, List.mem_cons, List.not_mem_nil, or_false] at he
    rcases he with rfl | rfl <;> rfl

theorem lateBlockStream_encodes :
    @Encodes .ascii lateBlockMessage (lateBlockStream.map SentEvent.event) := by
  refine @Encodes.mk .ascii _ _ ?message ?block ?other
  case message =>
    refine ⟨_, _, ⟨⟨?_, by decide⟩, ⟨?_, by decide⟩, fun key => ?_⟩, rfl⟩
    · exact List.forall_mem_singleton.2 ⟨_, rfl⟩
    · exact List.forall_mem_singleton.2 ⟨_, rfl⟩
    · by_cases hin : py "input_tokens" = key
      · subst hin
        rfl
      · by_cases hout : py "output_tokens" = key <;>
          simp [lateBlockMessage, Dict.get, hin, hout]
  case block =>
    rintro (_ | _ | i) b hb
    · cases hb
      refine ⟨[.thinking (py "lo"), .thinking (py "ok"), .signature (py "s")], ⟨?_, rfl, rfl⟩, rfl⟩
      simp [Fragment.thinking?, Fragment.signature?]
    · cases hb
      refine ⟨[.inputJson (py "\x7b\"n\""), .inputJson (py ":1\x7d")], ⟨?_, Or.inl ?_⟩, rfl⟩
      · simp [Fragment.inputJson?]
      · rfl
    · cases hb
  case other =>
    intro index hindex
    have hzero : (0 : Int) ≠ index := fun h => hindex 0 (by decide) h.symm
    have hone : (1 : Int) ≠ index := fun h => hindex 1 (by decide) h.symm
    simp [Channels.own, lateBlockStream, StreamEvent.channel, hzero, hone]

set_option maxRecDepth 20000 in
/-- The stream agrees with the compact text of the message. -/
theorem lateBlockStream_agrees : ∃ texts asm,
    @feedEvents .ascii .new (lateBlockStream.map (fun e => .obj e.object)) = .ok (texts, asm) ∧
      SameDecision (@dumpsBytes .ascii asm.assembled >>= @parseDecision .ascii
          (@PydanticReader.plain .ascii).toPydantic)
        (@parseDecision .ascii (@PydanticReader.plain .ascii).toPydantic
          ((py ("\x7b\"type\":\"message\",\"role\":\"assistant\",\"model\":\"m\"," ++
            "\"stop_reason\":\"tool_use\",\"content\":[\x7b\"type\":\"thinking\"," ++
            "\"thinking\":\"look\",\"signature\":\"s\"\x7d,\x7b\"type\":\"tool_use\",\"id\":\"t\"," ++
            "\"name\":\"sniff\",\"input\":\x7b\"n\":1\x7d\x7d],\"usage\":\x7b\"input_tokens\":7," ++
            "\"output_tokens\":3\x7d\x7d")).map (fun c => UInt8.ofNat c.val))) := by
  obtain ⟨texts, asm, hfeed, _, _, hsame⟩ := @stream_agrees .ascii lateBlockMessage
    (@PydanticReader.plain .ascii) lateBlockMessage_canonical lateBlockStream lateBlockStream_encodes
  refine ⟨texts, asm, hfeed, hsame (lateBlockMessage.members lateBlockMessage.usage) _ _
    ⟨_, List.Perm.refl _, List.Perm.refl _⟩ ?_ (encode_of_isAscii ?_)⟩
  · exact @Json.Spells.mk .ascii _ _ (by decide +kernel) (by rfl)
  · decide +kernel

end RexHunter
