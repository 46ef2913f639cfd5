import RexHunter.Proofs.Adapter
import RexHunter.Proofs.Decisions

set_option autoImplicit false

/-! # A stream that is cut off

What the streaming path makes of a stream that ends inside a `tool_use` block. The events of a channel
that are in a prefix of the stream are a prefix of those of the channel, so the assembler has of every
block a beginning (`Block.Begins`). Of the unfinished block that is the opening with its empty input,
and `_drive_stream` takes it to `parse_decision` like a finished one: nothing looks at `complete`. -/

namespace RexHunter

open Channels (own)

/-! ## The beginning of a block -/

/-- What there is of the block when part of it has come. -/
def Block.Begins : Block → Block → Prop
  | .thinking t' s', .thinking t s => t' <+: t ∧ s' <+: s
  | .text t', .text t => t' <+: t
  | .toolUse id' name' input', .toolUse id name input =>
      id' = id ∧ name' = name ∧ (input' = [] ∨ input' = input)
  | _, _ => False

theorem Block.begins_self (b : Block) : b.Begins b := by
  cases b with
  | thinking t s => exact ⟨List.prefix_rfl, List.prefix_rfl⟩
  | text t => exact List.prefix_rfl
  | toolUse id name input => exact ⟨rfl, rfl, Or.inr rfl⟩

/-- The index of the `tool_use` block that the event opens. -/
def StreamEvent.toolStart? : StreamEvent → Option Int
  | .blockStart index (.toolUse _ _ _) => some index
  | _ => none

/-- The `tool_use` blocks that are opened. -/
def toolStarts (sent : List SentEvent) : List Int := sent.filterMap (fun e => e.event.toolStart?)

theorem textOf_initial {fs fragments : List Fragment} (h : fs <+: fragments)
    (kind : Fragment → Option PyStr) : textOf kind fs <+: textOf kind fragments := by
  obtain ⟨rest, rfl⟩ := h
  unfold textOf
  rw [List.filterMap_append, List.flatten_append]
  exact List.prefix_append _ _

theorem blockEvents_initial {index : Int} {b : Block} {fragments : List Fragment}
    {es : List StreamEvent} (h : es <+: blockEvents index b fragments) :
    es = [] ∨ (∃ fs, fs <+: fragments ∧ es = .blockStart index b :: fs.map (.delta index)) ∨
      es = blockEvents index b fragments := by
  cases es with
  | nil => exact Or.inl rfl
  | cons e rest =>
      obtain ⟨rfl, hrest⟩ := List.cons_prefix_cons.1 h
      rcases List.prefix_concat_iff.1 hrest with rfl | hrest
      · exact Or.inr (Or.inr rfl)
      · refine Or.inr (Or.inl ⟨fragments.take rest.length, List.take_prefix _ _, ?_⟩)
        rw [List.map_take, ← List.prefix_iff_eq_take.1 hrest]

section Blocks

variable [PyRuntime]

/-- The pieces that have come are a beginning of the block; of a `tool_use` block it is the opening. -/
theorem addFragments_begins {b : Block} {fragments fs : List Fragment} (hcut : b.Cut fragments)
    (h : fs <+: fragments) : ∃ part : Block, part.Begins b ∧
      (fs.foldl addFragment (b.opened, [])).1 = part.dict ∧
      ∀ id name input, b = .toolUse id name input → part = .toolUse id name [] := by
  cases b with
  | thinking t s =>
      obtain ⟨hkinds, rfl, rfl⟩ := hcut
      refine ⟨.thinking (textOf Fragment.thinking? fs) (textOf Fragment.signature? fs),
        ⟨textOf_initial h _, textOf_initial h _⟩, ?_, fun _ _ _ heq => by cases heq⟩
      rw [Block.opened, addFragments_thinking (fun f hf => hkinds f (h.subset hf))]
      rfl
  | text t =>
      obtain ⟨hkinds, rfl⟩ := hcut
      refine ⟨.text (textOf Fragment.text? fs), textOf_initial h _, ?_,
        fun _ _ _ heq => by cases heq⟩
      rw [Block.opened, addFragments_text (fun f hf => hkinds f (h.subset hf))]
      rfl
  | toolUse id name input =>
      refine ⟨.toolUse id name [], ⟨rfl, rfl, Or.inl rfl⟩, ?_, fun _ _ _ heq => by cases heq; rfl⟩
      rw [Block.opened, addFragments_inputJson (fun f hf => hcut.1 f (h.subset hf))]
      rfl

/-- **A block alone, cut off**: nothing has come of it, or a beginning is there. -/
theorem runLocal_begun {index : Int} {b : Block} {fragments : List Fragment}
    {es : List StreamEvent} (hcut : b.Cut fragments) (h : es <+: blockEvents index b fragments) :
    es = [] ∨ .blockStart index b ∈ es ∧ ∃ (part : Block) (rs : List (Option PyStr)) (buf : PyStr),
      Channels.runLocal (react (.block index)) (none, []) es = some (rs, (some part.dict, buf)) ∧
      part.Begins b ∧ (.blockStop index ∉ es →
        ∀ id name input, b = .toolUse id name input → part = .toolUse id name []) := by
  rcases blockEvents_initial h with rfl | ⟨fs, hfs, rfl⟩ | rfl
  · exact Or.inl rfl
  · obtain ⟨part, hbegins, hdict, htool⟩ := addFragments_begins hcut hfs
    have hstart : react (.block index) (none, []) (.blockStart index b)
        = some (none, (some b.opened, [])) := rfl
    have hrun := Channels.runLocal_cons hstart (fs.map (.delta index))
    rw [runLocal_fragments fs (b.opened, []), hdict] at hrun
    exact Or.inr ⟨List.mem_cons_self, part, _, _, hrun, hbegins, fun _ => htool⟩
  · refine Or.inr ⟨List.mem_cons_self, b, _, _, runLocal_block hcut, b.begins_self,
      fun hstop => absurd ?_ hstop⟩
    simp [blockEvents]

/-! ## What the assembler has -/

/-- A count of tokens, where there is one, is an integer. -/
def Counts (usage : Dict) : Prop :=
  ∀ key ∈ [py "input_tokens", py "output_tokens"], ∀ v, usage.get key = some v → ∃ n, v = .int n

/-- The usage an event brings. -/
def StreamEvent.usage? : StreamEvent → Option Dict
  | .messageStart _ usage => some usage
  | .messageDelta _ usage => some usage
  | _ => none

/-- A usage the program can read, in an object of this depth. -/
structure ReadableUsage (depth chars : Nat) (usage : Dict) : Prop where
  canonical : usage.Canonical
  readable : (Json.obj usage).Readable depth chars
  counts : Counts usage

theorem ReadableUsage.update {depth chars : Nat} {usage usage' : Dict}
    (h : ReadableUsage depth chars usage) (h' : ReadableUsage depth chars usage') :
    ReadableUsage depth chars (Dict.update usage usage') where
  canonical := h.canonical.update h'.canonical
  readable := h.readable.update h'.canonical.textual h'.readable
  counts := by
    intro key hkey v hv
    rw [h'.canonical.textual.get_update] at hv
    cases hget : Dict.get usage' key with
    | none =>
        rw [hget] at hv
        exact h.counts key hkey v hv
    | some v' =>
        rw [hget] at hv
        cases hv
        exact h'.counts key hkey v hget

/-- **The message alone, cut off.** -/
theorem runLocal_envelope {m : Message} {first second : Dict} {depth chars : Nat}
    {es : List StreamEvent} (hdepth : depth ≠ 0)
    (hfirst : ReadableUsage depth chars first) (hsecond : ReadableUsage depth chars second)
    (h : es <+: [.messageStart m.model first, .messageDelta m.stopReason second, .messageStop]) :
    ∃ (rs : List (Option PyStr)) (model stopReason : Option PyStr) (usage : Dict),
      Channels.runLocal (react .message) (.null, .null, []) es
        = some (rs, (optional model, optional stopReason, usage)) ∧
      (model = none ∨ model = m.model) ∧ (stopReason = none ∨ stopReason = m.stopReason) ∧
      ReadableUsage depth chars usage := by
  have hnil : ReadableUsage depth chars [] := ⟨canonical_nil, readable_obj.2 ⟨hdepth, by simp⟩, by
    intro key _ v hv
    cases hv⟩
  have hstop : lastStop .null m.stopReason = optional m.stopReason := by
    cases m.stopReason <;> rfl
  have hone := hnil.update hfirst
  have htwo := hone.update hsecond
  rcases List.prefix_cons_iff.1 h with rfl | ⟨es₁, rfl, h₁⟩
  · exact ⟨_, none, none, [], rfl, Or.inl rfl, Or.inl rfl, hnil⟩
  rcases List.prefix_cons_iff.1 h₁ with rfl | ⟨es₂, rfl, h₂⟩
  · exact ⟨_, m.model, none, _, rfl, Or.inr rfl, Or.inl rfl, hone⟩
  rcases List.prefix_cons_iff.1 h₂ with rfl | ⟨es₃, rfl, h₃⟩
  · refine ⟨[none, none], m.model, m.stopReason, _, ?_, Or.inr rfl, Or.inr rfl, htwo⟩
    rw [← hstop]
    rfl
  · rw [List.prefix_nil.1 h₃]
    refine ⟨[none, none, none], m.model, m.stopReason, _, ?_, Or.inr rfl, Or.inr rfl, htwo⟩
    rw [← hstop]
    rfl

end Blocks

section Cut

variable [PyRuntime]

/-- The assembler has the part of the message that has come. -/
structure StreamAssembler.HoldsPart (asm : StreamAssembler) (depth chars : Nat) (m : Message)
    (cut : List StreamEvent) : Prop where
  one : OneEach asm
  model : ∃ model, asm.model = optional model ∧ (model = none ∨ model = m.model)
  stopReason : ∃ stopReason, asm.stopReason = optional stopReason ∧
    (stopReason = none ∨ stopReason = m.stopReason)
  usage : ReadableUsage (depth - 1) chars asm.usage
  entry : ∀ index block, lookup asm.blocks index = some block → ∃ (i : Nat) (b part : Block),
    index = i ∧ m.content[i]? = some b ∧ block = part.dict ∧ part.Begins b ∧
    .blockStart index b ∈ cut ∧ (.blockStop index ∉ cut →
      ∀ id name input, b = .toolUse id name input → part = .toolUse id name [])
  started : ∀ index b, .blockStart index b ∈ cut → ∃ part : Block,
    lookup asm.blocks index = some part.dict ∧ part.Begins b

/-- The call returns the decision, and the block it is built from is this one: it is the one `tool_use`
    block that has been assembled. -/
def BuiltFrom [Pydantic] (response : Response) (index : Int) (decision : Decision) : Prop :=
  verdict true response = .ok decision ∧ ∃ block,
    (feedFrames .new response.frames).1.blocks.filter (fun e => hasType toolUse e.2)
      = [(index, block)]

variable [PydanticReader]

/-- A stream that a provider sends: it encodes a message, and pydantic can read the message and each
    usage. -/
structure WellFormed (m : Message) (es : List StreamEvent) : Prop where
  encodes : Encodes m es
  readable : (Json.obj (m.members m.usage)).Readable PydanticReader.depth Pydantic.intChars
  usage : ∀ e ∈ es, ∀ usage, e.usage? = some usage →
    ReadableUsage (PydanticReader.depth - 1) Pydantic.intChars usage

variable {m : Message} {sent cut : List SentEvent}

/-- What a channel makes of its part of the cut. -/
theorem runLocal_cut (h : WellFormed m (sent.map SentEvent.event)) (hcut : cut <+: sent)
    (index : Int) :
    own StreamEvent.channel (.block index) (cut.map SentEvent.event) = [] ∨
      ∃ (i : Nat) (b part : Block) (rs : List (Option PyStr)) (buf : PyStr), index = i ∧
        m.content[i]? = some b ∧
        Channels.runLocal (react (.block index)) (none, [])
          (own StreamEvent.channel (.block index) (cut.map SentEvent.event))
          = some (rs, (some part.dict, buf)) ∧
        (∀ b', .blockStart index b' ∈ cut.map SentEvent.event → b' = b) ∧
        part.Begins b ∧ .blockStart index b ∈ cut.map SentEvent.event ∧
        (.blockStop index ∉ cut.map SentEvent.event →
          ∀ id name input, b = .toolUse id name input → part = .toolUse id name []) := by
  have hown : own StreamEvent.channel (.block index) (cut.map SentEvent.event)
      <+: own StreamEvent.channel (.block index) (sent.map SentEvent.event) :=
    (hcut.map _).filter _
  have hmem : ∀ e ∈ own StreamEvent.channel (.block index) (cut.map SentEvent.event),
      e ∈ cut.map SentEvent.event := fun e he => List.mem_of_mem_filter he
  by_cases hindex : ∃ i : Nat, i < m.content.length ∧ index = i
  · obtain ⟨i, hi, rfl⟩ := hindex
    obtain ⟨fragments, hblock, hevents⟩ := h.encodes.block i m.content[i]
      (List.getElem?_eq_getElem hi)
    rw [hevents] at hown
    rcases runLocal_begun hblock hown with hnil | ⟨hstart, part, rs, buf, hrun, hbegins, htool⟩
    · exact Or.inl hnil
    · refine Or.inr ⟨i, m.content[i], part, rs, buf, rfl, List.getElem?_eq_getElem hi, hrun, ?_,
        hbegins, hmem _ hstart, fun hstop => htool (fun he => hstop (hmem _ he))⟩
      intro b' hb'
      have hevent := hown.subset (List.mem_filter.2 ⟨hb', decide_eq_true rfl⟩)
      simpa [blockEvents] using hevent
  · have hother := h.encodes.other index (fun i hi heq => hindex ⟨i, hi, heq⟩)
    rw [hother] at hown
    exact Or.inl (List.prefix_nil.1 hown)

/-- **The assembler after a cut.** -/
theorem run_cut (h : WellFormed m (sent.map SentEvent.event)) (hcut : cut <+: sent) :
    ∃ texts asm, Channels.run (fun asm (e : SentEvent) => StreamAssembler.feed asm (.obj e.object))
        .new cut = .ok (texts, asm) ∧
      asm.HoldsPart PydanticReader.depth Pydantic.intChars m (cut.map SentEvent.event) := by
  have hlocal : ∀ c, Channels.runLocal (react c) (held c .new)
      (own StreamEvent.channel c (cut.map SentEvent.event))
      = Channels.runLocal (fun q e => react c q e.event) (held c .new)
        (own (fun e : SentEvent => e.event.channel) c cut) := by
    intro c
    rw [Channels.own_map, Channels.runLocal_map]
  obtain ⟨first, second, hsplit, hmessage⟩ := h.encodes.message
  have hsent : ∀ e ∈ own StreamEvent.channel .message (sent.map SentEvent.event),
      e ∈ sent.map SentEvent.event := fun e he => List.mem_of_mem_filter he
  rw [hmessage] at hsent
  have hown : own StreamEvent.channel .message (cut.map SentEvent.event)
      <+: own StreamEvent.channel .message (sent.map SentEvent.event) := (hcut.map _).filter _
  rw [hmessage] at hown
  have hfirst := h.usage _ (hsent (.messageStart m.model first) (by simp)) first rfl
  have hsecond := h.usage _ (hsent (.messageDelta m.stopReason second) (by simp)) second rfl
  obtain ⟨rs, model, stopReason, usage, hrun, hmodel, hstop, husage⟩ :=
    runLocal_envelope (readable_obj.1 hfirst.readable).1 hfirst hsecond hown
  have hsome : ∀ c, (Channels.runLocal (react c) (held c .new)
      (own StreamEvent.channel c (cut.map SentEvent.event))).isSome = true := by
    intro c
    cases c with
    | message => exact Option.isSome_of_eq_some hrun
    | idle => exact runLocal_idle _
    | block index =>
        rcases runLocal_cut h hcut index with hnil | ⟨_, _, _, _, _, _, _, hblock, _⟩
        · rw [hnil]
          rfl
        · exact Option.isSome_of_eq_some hblock
  obtain ⟨texts, asm, hfeed, hone, hslots⟩ := separate.run_interleaved (s := .new) List.nodup_nil
    (fun c => (hlocal c) ▸ hsome c)
  have hchannel : ∀ c, Channels.runLocal (react c) (held c .new)
      (own StreamEvent.channel c (cut.map SentEvent.event))
      = some (Channels.ownOutputs (fun e => e.event.channel) c cut texts, held c asm) :=
    fun c => (hlocal c).trans (hslots c)
  have henvelope := congrArg Prod.snd (Option.some.inj (hrun.symm.trans (hchannel .message)))
  refine ⟨texts, asm, hfeed, hone, ⟨model, (congrArg Prod.fst henvelope).symm, hmodel⟩,
    ⟨stopReason, (congrArg (fun q => q.2.1) henvelope).symm, hstop⟩, ?_, ?_, ?_⟩
  · have hasm : usage = asm.usage := congrArg (fun q => q.2.2) henvelope
    exact hasm ▸ husage
  · intro index block hlookup
    have hout := hchannel (.block index)
    rcases runLocal_cut h hcut index with hnil | ⟨i, b, part, _, _, hi, hb, hblock, _, hrest⟩
    · rw [hnil] at hout
      have hnone := congrArg (fun out => out.2.1) (Option.some.inj hout)
      cases hnone.trans hlookup
    · have hdict := congrArg (fun out => out.2.1) (Option.some.inj (hblock.symm.trans hout))
      exact ⟨i, b, part, hi, hb, (Option.some.inj (hdict.trans hlookup)).symm, hrest⟩
  · intro index b hstart
    have hout := hchannel (.block index)
    rcases runLocal_cut h hcut index with hnil | ⟨_, b', part, _, _, _, _, hblock, hunique, hbegins, _⟩
    · have hmem : .blockStart index b ∈
          own StreamEvent.channel (.block index) (cut.map SentEvent.event) :=
        List.mem_filter.2 ⟨hstart, decide_eq_true rfl⟩
      rw [hnil] at hmem
      cases hmem
    · have hdict := congrArg (fun out => out.2.1) (Option.some.inj (hblock.symm.trans hout))
      exact ⟨part, hdict.symm, (hunique b hstart) ▸ hbegins⟩

/-! ## The frames of the stream -/

omit [PydanticReader] in
/-- The data of the frame is a JSON text of the object. -/
def SseFrame.Carries (frame : SseFrame) (d : Dict) : Prop :=
  Json.loads frame.data.flatten = .ok (.obj d)

omit [PydanticReader] in
theorem feed_error {asm : StreamAssembler} {d : Dict} (h : Typed "error" d) :
    asm.feed (.obj d) = .ok (none, asm) := by
  unfold StreamAssembler.feed
  simp only [asDict, bind, Except.bind, hasType_of_typed h]
  rw [if_neg (by decide), if_neg (by decide), if_neg (by decide), if_neg (by decide),
    if_neg (by decide), if_neg (by decide)]
  rfl

omit [PydanticReader] in
/-- What is handed to the sink is the text of a thinking delta. -/
theorem feed_text {asm asm' : StreamAssembler} {e : SentEvent} {r : Option PyStr}
    (h : asm.feed (.obj e.object) = .ok (r, asm')) :
    r = none ∨ ∃ index s, e.event = .delta index (.thinking s) ∧ r = some s := by
  obtain ⟨event, d, hevent⟩ := e
  cases event with
  | messageStart model usage =>
      cases (feed_messageStart hevent).symm.trans h
      exact Or.inl rfl
  | messageDelta stopReason usage =>
      cases (feed_messageDelta hevent).symm.trans h
      exact Or.inl rfl
  | messageStop =>
      cases (feed_messageStop hevent).symm.trans h
      exact Or.inl rfl
  | ping =>
      cases (feed_ping hevent).symm.trans h
      exact Or.inl rfl
  | blockStart index b =>
      cases (feed_blockStart hevent).symm.trans h
      exact Or.inl rfl
  | blockStop index =>
      have hmap := (feed_blockStop hevent).symm.trans h
      cases hfinal : asm.finalize index with
      | error e =>
          rw [hfinal] at hmap
          cases hmap
      | ok asm₁ =>
          rw [hfinal] at hmap
          cases hmap
          exact Or.inl rfl
  | delta index f =>
      cases hblock : lookup asm.blocks index with
      | none =>
          obtain ⟨htype, hindex, delta, hdelta, hfragment⟩ := hevent
          unfold StreamAssembler.feed at h
          simp only [asDict, bind, Except.bind, hasType_of_typed htype] at h
          rw [if_neg (by decide), if_neg (by decide), if_pos (by decide), item_ok.2 hindex,
            item_ok.2 hdelta] at h
          simp only [pyInt, StreamAssembler.applyDelta, hblock] at h
          cases h
          exact Or.inl rfl
      | some block =>
          cases (feed_delta hevent hblock).symm.trans h
          cases f with
          | thinking s => exact Or.inr ⟨index, s, rfl, rfl⟩
          | signature | text | inputJson => exact Or.inl rfl

omit [PydanticReader] in
/-- The events of a run are the first frames. -/
theorem feedFrames_run {cut : List SentEvent} {last : List Dict}
    (hsink : ∀ e ∈ cut, ∀ index s, e.event = .delta index (.thinking s) → encodable s = true) :
    ∀ {asm asm' : StreamAssembler} {texts : List (Option PyStr)} {fs : List SseFrame},
      Channels.run (fun asm (e : SentEvent) => StreamAssembler.feed asm (.obj e.object)) asm cut
        = .ok (texts, asm') →
      List.Forall₂ SseFrame.Carries fs (cut.map SentEvent.object ++ last) →
      ∃ fs', feedFrames asm fs = feedFrames asm' fs' ∧ List.Forall₂ SseFrame.Carries fs' last := by
  induction cut with
  | nil =>
      intro asm asm' texts fs hrun hfs
      cases hrun
      exact ⟨fs, rfl, hfs⟩
  | cons e cut ih =>
      intro asm asm' texts fs hrun hfs
      obtain ⟨hself, hrest⟩ := List.forall_mem_cons.1 hsink
      rw [List.map_cons, List.cons_append] at hfs
      obtain ⟨frame, rest, hframe, hcarried, rfl⟩ := List.forall₂_cons_right_iff.1 hfs
      unfold Channels.run at hrun
      cases hfeed : asm.feed (.obj e.object) with
      | error x =>
          simp only [hfeed] at hrun
          cases hrun
      | ok out =>
          obtain ⟨r, asm₁⟩ := out
          simp only [hfeed] at hrun
          cases htail : Channels.run
              (fun asm (e : SentEvent) => StreamAssembler.feed asm (.obj e.object)) asm₁ cut with
          | error x =>
              simp only [htail] at hrun
              cases hrun
          | ok out =>
              simp only [htail] at hrun
              cases hrun
              obtain ⟨fs', hfed, hlast⟩ := ih hrest htail hcarried
              refine ⟨fs', ?_, hlast⟩
              have hencodable : encodable (r.getD []) = true := by
                rcases feed_text hfeed with rfl | ⟨index, s, hevent, rfl⟩
                · exact encodable_nil
                · exact hself index s hevent
              have hframe' : Json.loads frame.data.flatten = .ok (.obj e.object) := hframe
              rw [feedFrames, feedFrame, hframe']
              simp only [hfeed, hencodable, Bool.true_eq_false, and_false, if_false]
              exact hfed

omit [PyRuntime] [PydanticReader] in
theorem encodable_of_prefix {s t : PyStr} (h : s <+: t) (ht : encodable t = true) :
    encodable s = true := by
  obtain ⟨rest, rfl⟩ := h
  rw [encodable_append, Bool.and_eq_true] at ht
  exact ht.1

omit [PyRuntime] [PydanticReader] in
theorem encodable_of_textOf {kind : Fragment → Option PyStr} {fragments : List Fragment}
    {f : Fragment} {s : PyStr} (hf : f ∈ fragments) (hs : kind f = some s)
    (h : encodable (textOf kind fragments) = true) : encodable s = true := by
  refine List.all_eq_true.2 (fun c hc => List.all_eq_true.1 h c ?_)
  exact List.mem_flatten.2 ⟨s, List.mem_filterMap.2 ⟨f, hf, hs⟩, hc⟩

/-- A block of the message can be read. -/
theorem WellFormed.block {es : List StreamEvent} (h : WellFormed m es) {i : Nat} {b : Block}
    (hb : m.content[i]? = some b) :
    (Json.obj b.dict).Readable (PydanticReader.depth - 2) Pydantic.intChars := by
  have hcontent := (readable_obj.1 h.readable).2
    (.str (py "content"), .arr (m.content.map (fun b => .obj b.dict))) (by simp [Message.members])
  exact (readable_arr.1 hcontent.2.2).2 _ (List.mem_map.2 ⟨b, List.mem_of_getElem? hb, rfl⟩)

/-- The sink takes every text of a thinking block. -/
theorem WellFormed.thinking (h : WellFormed m (sent.map SentEvent.event)) {e : SentEvent}
    (he : e ∈ sent) {index : Int} {s : PyStr} (hevent : e.event = .delta index (.thinking s)) :
    encodable s = true := by
  have hmem : .delta index (.thinking s)
      ∈ own StreamEvent.channel (.block index) (sent.map SentEvent.event) :=
    List.mem_filter.2 ⟨List.mem_map.2 ⟨e, he, hevent⟩, decide_eq_true rfl⟩
  by_cases hindex : ∃ i : Nat, i < m.content.length ∧ index = i
  · obtain ⟨i, hi, rfl⟩ := hindex
    have hb := List.getElem?_eq_getElem hi
    obtain ⟨fragments, hcut, hevents⟩ := h.encodes.block i m.content[i] hb
    rw [hevents] at hmem
    have hfragment : Fragment.thinking s ∈ fragments := by
      simpa [blockEvents] using hmem
    have hread := (h.block hb).surrogateFree
    cases hblock : m.content[i] with
    | thinking t sig =>
        rw [hblock] at hcut hread
        obtain ⟨_, rfl, _⟩ := hcut
        have htext := surrogateFree_of_mem hread
          (.str (py "thinking"), .str (textOf Fragment.thinking? fragments))
          (by simp [Block.dict, Block.thinkingDict])
        exact encodable_of_textOf hfragment rfl htext.2
    | text t =>
        rw [hblock] at hcut
        cases hcut.1 _ hfragment
    | toolUse id name input =>
        rw [hblock] at hcut
        cases hcut.1 _ hfragment
  · rw [h.encodes.other index (fun i hi heq => hindex ⟨i, hi, heq⟩)] at hmem
    cases hmem

/-- **The assembler after the response**, which an error event may end. -/
theorem feedFrames_cut (h : WellFormed m (sent.map SentEvent.event)) (hcut : cut <+: sent)
    {error : Option Dict} (herror : ∀ d ∈ error, Typed "error" d) {fs : List SseFrame}
    (hfs : List.Forall₂ SseFrame.Carries fs (cut.map SentEvent.object ++ error.toList)) :
    ∃ asm, feedFrames .new fs = (asm, none) ∧
      asm.HoldsPart PydanticReader.depth Pydantic.intChars m (cut.map SentEvent.event) := by
  obtain ⟨texts, asm, hrun, hpart⟩ := run_cut h hcut
  refine ⟨asm, ?_, hpart⟩
  obtain ⟨last, hfed, hlast⟩ := feedFrames_run
    (fun e he index s hevent => h.thinking (hcut.subset he) hevent) hrun hfs
  rw [hfed]
  cases error with
  | none =>
      rw [List.forall₂_nil_right_iff.1 hlast]
      rfl
  | some d =>
      obtain ⟨frame, rest, hframe, hnil, rfl⟩ := List.forall₂_cons_right_iff.1 hlast
      rw [List.forall₂_nil_right_iff.1 hnil]
      have hframe' : Json.loads frame.data.flatten = .ok (.obj d) := hframe
      rw [feedFrames, feedFrame, hframe']
      simp only [feed_error (herror d rfl), Option.getD_none, encodable_nil, Bool.true_eq_false,
        and_false, if_false]
      rfl

/-! ## What is read of it -/

omit [PydanticReader] in
theorem readable_str {depth chars : Nat} {s : PyStr} :
    (Json.str s).Readable depth chars ↔ encodable s = true :=
  ⟨fun h => h.surrogateFree, fun h => ⟨h, rfl, rfl⟩⟩

omit [PyRuntime] [PydanticReader] in
theorem Block.textual_dict (b : Block) : b.dict.Textual where
  keys := by
    intro e he
    cases b with
    | thinking t s =>
        simp only [dict, thinkingDict, List.mem_cons, List.not_mem_nil, or_false] at he
        rcases he with rfl | rfl | rfl <;> exact ⟨_, rfl⟩
    | text t =>
        simp only [dict, textDict, List.mem_cons, List.not_mem_nil, or_false] at he
        rcases he with rfl | rfl <;> exact ⟨_, rfl⟩
    | toolUse id name input =>
        simp only [dict, toolUseDict, List.mem_cons, List.not_mem_nil, or_false] at he
        rcases he with rfl | rfl | rfl | rfl <;> exact ⟨_, rfl⟩
  nodup := by
    cases b with
    | thinking t s =>
        show [Key.str (py "type"), .str (py "thinking"), .str (py "signature")].Nodup
        decide
    | text t =>
        show [Key.str (py "type"), .str (py "text")].Nodup
        decide
    | toolUse id name input =>
        show [Key.str (py "type"), .str (py "id"), .str (py "name"), .str (py "input")].Nodup
        decide

omit [PydanticReader] in
/-- The beginning of a block can be read where the block can. -/
theorem Block.Begins.readable {part b : Block} (h : part.Begins b) {depth chars : Nat}
    (hb : (Json.obj b.dict).Readable depth chars) :
    (Json.obj part.dict).Readable depth chars := by
  rw [readable_obj] at hb ⊢
  refine ⟨hb.1, ?_⟩
  have hmembers := hb.2
  cases part with
  | thinking t' s' =>
      cases b with
      | thinking t s =>
          simp only [dict, thinkingDict, List.forall_mem_cons, readable_str] at hmembers ⊢
          obtain ⟨htype, htext, hsignature, hnil⟩ := hmembers
          exact ⟨htype, ⟨htext.1, htext.2.1, encodable_of_prefix h.1 htext.2.2⟩,
            ⟨hsignature.1, hsignature.2.1, encodable_of_prefix h.2 hsignature.2.2⟩, hnil⟩
      | text | toolUse => exact h.elim
  | text t' =>
      cases b with
      | text t =>
          simp only [dict, textDict, List.forall_mem_cons, readable_str] at hmembers ⊢
          obtain ⟨htype, htext, hnil⟩ := hmembers
          exact ⟨htype, ⟨htext.1, htext.2.1, encodable_of_prefix h htext.2.2⟩, hnil⟩
      | thinking | toolUse => exact h.elim
  | toolUse id' name' input' =>
      cases b with
      | toolUse id name input =>
          obtain ⟨rfl, rfl, rfl | rfl⟩ := h
          · simp only [dict, toolUseDict, List.forall_mem_cons] at hmembers ⊢
            obtain ⟨htype, hid, hname, hinput, hnil⟩ := hmembers
            refine ⟨htype, hid, hname, ⟨hinput.1, hinput.2.1, ?_⟩, hnil⟩
            exact readable_obj.2 ⟨(readable_obj.1 hinput.2.2).1, by simp⟩
          · exact hmembers
      | thinking | text => exact h.elim

omit [PydanticReader] in
/-- A block without an input is read back as it is. -/
theorem Block.reread_dict {b : Block} {depth chars : Nat}
    (hread : (Json.obj b.dict).Readable depth chars)
    (hinput : ∀ id name input, b = .toolUse id name input → input = []) :
    (Json.obj b.dict).reread = .obj b.dict := by
  have hfree := surrogateFree_of_mem hread.surrogateFree
  refine Dict.Canonical.reread ⟨b.textual_dict, fun e he => ?_, fun e he => ?_⟩
  · obtain ⟨s, hs⟩ := b.textual_dict.keys e he
    have hkey := (hfree e he).1
    rw [hs] at hkey ⊢
    exact joined_of_encodable hkey
  · have hvalue := (hfree e he).2
    cases b with
    | thinking t s =>
        simp only [dict, thinkingDict, List.mem_cons, List.not_mem_nil, or_false] at he
        rcases he with rfl | rfl | rfl <;> exact reread_scalar rfl hvalue
    | text t =>
        simp only [dict, textDict, List.mem_cons, List.not_mem_nil, or_false] at he
        rcases he with rfl | rfl <;> exact reread_scalar rfl hvalue
    | toolUse id name input =>
        obtain rfl := hinput id name input rfl
        simp only [dict, toolUseDict, List.mem_cons, List.not_mem_nil, or_false] at he
        rcases he with rfl | rfl | rfl | rfl
        · exact reread_scalar rfl hvalue
        · exact reread_scalar rfl hvalue
        · exact reread_scalar rfl hvalue
        · rfl

omit [PydanticReader] in
theorem optional_reread {x : Option PyStr} {depth chars : Nat}
    (h : (optional x).Readable depth chars) : (optional x).reread = optional x := by
  cases x with
  | none => rfl
  | some s => exact reread_scalar rfl h.surrogateFree

omit [PydanticReader] in
theorem Counts.extractUsage {usage : Dict} (h : Counts usage) (m : Message) :
    ∃ u, extractUsage (m.response usage) = .ok u := by
  have hcount : ∀ key ∈ [py "input_tokens", py "output_tokens"], ∃ n, tokenCount usage key = .ok n := by
    intro key hkey
    unfold tokenCount
    cases hget : usage.get key with
    | none => exact ⟨0, rfl⟩
    | some v =>
        obtain ⟨n, rfl⟩ := h key hkey v hget
        exact ⟨n, rfl⟩
  obtain ⟨inputTokens, hinput⟩ := hcount (py "input_tokens") (by simp)
  obtain ⟨outputTokens, houtput⟩ := hcount (py "output_tokens") (by simp)
  simp only [RexHunter.extractUsage, Message.response, hinput, houtput]
  exact ⟨_, rfl⟩

/-- The opening of a `tool_use` block is a valid block, and its empty input is a valid one for every
    decision: the catch of `hunt_complete` has a default. -/
theorem decideBlock_opening (id name : PyStr) (usage : Option UsageEvent) :
    ∃ decision, decideBlock (Block.toolUseDict id name (.obj [])) usage = .ok decision := by
  have hvalid : validateBlock (Block.toolUseDict id name (.obj []))
      = some ⟨toolUse, id, name, []⟩ := rfl
  have hcomplete : validateComplete [] = some [] := rfl
  unfold decideBlock
  rw [hvalid]
  by_cases hhunt : name = huntComplete
  · simp only [if_pos hhunt, hcomplete]
    exact ⟨_, rfl⟩
  by_cases hhelp : name = needsHelp
  · simp only [if_neg hhunt, if_pos hhelp]
    exact ⟨_, rfl⟩
  · simp only [if_neg hhunt, if_neg hhelp]
    exact ⟨_, rfl⟩

/-! ## The unfinished block -/

omit [PyRuntime] [PydanticReader] in
theorem Block.hasType_dict {b : Block} :
    hasType RexHunter.toolUse b.dict = true ↔ ∃ id name input, b = .toolUse id name input := by
  cases b with
  | thinking t s =>
      have hfalse : hasType RexHunter.toolUse (thinkingDict t s) = false := rfl
      simp [dict, hfalse]
  | text t =>
      have hfalse : hasType RexHunter.toolUse (textDict t) = false := rfl
      simp [dict, hfalse]
  | toolUse id name input => exact ⟨fun _ => ⟨id, name, input, rfl⟩, fun _ => rfl⟩

omit [PyRuntime] [PydanticReader] in
theorem Block.Begins.toolUse_iff {part b : Block} (h : part.Begins b) :
    (∃ id name input, part = .toolUse id name input) ↔ ∃ id name input, b = .toolUse id name input := by
  cases part <;> cases b <;> first | exact h.elim | simp

omit [PyRuntime] [PydanticReader] in
theorem mem_toolStarts {index : Int} : index ∈ toolStarts cut ↔
    ∃ id name input, .blockStart index (.toolUse id name input) ∈ cut.map SentEvent.event := by
  simp only [toolStarts, List.mem_filterMap, List.mem_map]
  constructor
  · rintro ⟨e, he, hstart⟩
    unfold StreamEvent.toolStart? at hstart
    split at hstart
    · next id name input hevent =>
        cases hstart
        exact ⟨id, name, input, e, he, hevent⟩
    · cases hstart
  · rintro ⟨id, name, input, e, he, hevent⟩
    refine ⟨e, he, ?_⟩
    rw [hevent]
    rfl

omit [PydanticReader] in
/-- The `tool_use` blocks that are there are those that were opened. -/
theorem StreamAssembler.HoldsPart.tools {asm : StreamAssembler} {depth chars : Nat}
    (h : asm.HoldsPart depth chars m (cut.map SentEvent.event)) {index : Int} :
    index ∈ toolStarts cut ↔ ∃ block, (index, block) ∈ asm.blocks ∧ hasType toolUse block = true := by
  rw [mem_toolStarts]
  constructor
  · rintro ⟨id, name, input, hstart⟩
    obtain ⟨part, hpart, hbegins⟩ := h.started index _ hstart
    exact ⟨part.dict, (lookup_eq_some h.one).1 hpart,
      Block.hasType_dict.2 (hbegins.toolUse_iff.2 ⟨id, name, input, rfl⟩)⟩
  · rintro ⟨block, hblock, htool⟩
    obtain ⟨i, b, part, _, _, rfl, hbegins, hstart, _⟩ :=
      h.entry index block ((lookup_eq_some h.one).2 hblock)
    obtain ⟨id, name, input, rfl⟩ := hbegins.toolUse_iff.1 (Block.hasType_dict.1 htool)
    exact ⟨id, name, input, hstart⟩

omit [PyRuntime] [PydanticReader] in
theorem exists_blocks {P : Block → Prop} {dicts : List Dict}
    (h : ∀ d ∈ dicts, ∃ b : Block, d = b.dict ∧ P b) :
    ∃ bs : List Block, dicts = bs.map Block.dict ∧ ∀ b ∈ bs, P b := by
  induction dicts with
  | nil => exact ⟨[], rfl, fun _ hb => absurd hb List.not_mem_nil⟩
  | cons d dicts ih =>
      obtain ⟨⟨b, rfl, hb⟩, hrest⟩ := List.forall_mem_cons.1 h
      obtain ⟨bs, rfl, hbs⟩ := ih hrest
      exact ⟨b :: bs, rfl, List.forall_mem_cons.2 ⟨hb, hbs⟩⟩

/-- What has come of the model and of the stop reason can be read. -/
theorem WellFormed.optional (h : WellFormed m (sent.map SentEvent.event)) {x : Option PyStr}
    (hx : x = none ∨ x = m.model ∨ x = m.stopReason) :
    (RexHunter.optional x).Readable (PydanticReader.depth - 1) Pydantic.intChars := by
  have hmembers := (readable_obj.1 h.readable).2
  simp only [Message.members, List.forall_mem_cons] at hmembers
  obtain ⟨_, _, hmodel, hstop, _⟩ := hmembers
  rcases hx with rfl | rfl | rfl
  · exact ⟨rfl, rfl, rfl⟩
  · exact hmodel.2.2
  · exact hstop.2.2

/-- **The opening of a `tool_use` block is dispatched** when it is the only one: a decision is made of
    what has been assembled. -/
theorem parseStreamed_opening {asm : StreamAssembler} (h : WellFormed m (sent.map SentEvent.event))
    (hpart : asm.HoldsPart PydanticReader.depth Pydantic.intChars m (cut.map SentEvent.event))
    {index : Int}
    {id name : PyStr}
    (hone : asm.blocks.filter (fun e => hasType toolUse e.2)
      = [(index, Block.toolUseDict id name (.obj []))]) :
    asm.assembled.fault PyRuntime.recursionLimit = none ∧
      ∃ decision, parseStreamed asm.written = .ok decision := by
  obtain ⟨model, hmodel, hmodel'⟩ := hpart.model
  obtain ⟨stopReason, hstop, hstop'⟩ := hpart.stopReason
  have hsorted := List.perm_insertionSort (fun a b : Int × Dict => a.1 ≤ b.1) asm.blocks
  have hblock : ∀ d ∈ asm.sortedBlocks, ∃ b : Block, d = b.dict ∧
      (Json.obj b.dict).Readable (PydanticReader.depth - 2) Pydantic.intChars ∧
      (Json.obj b.dict).reread = .obj b.dict := by
    intro d hd
    obtain ⟨⟨j, block⟩, he, rfl⟩ := List.mem_map.1 hd
    have hmem := hsorted.mem_iff.1 he
    obtain ⟨i, b, part, _, hb, rfl, hbegins, _⟩ :=
      hpart.entry j block ((lookup_eq_some hpart.one).2 hmem)
    have hread := hbegins.readable (h.block hb)
    refine ⟨part, rfl, hread, Block.reread_dict hread ?_⟩
    rintro id' name' input' rfl
    have hfilter : (j, Block.dict (.toolUse id' name' input'))
        ∈ asm.blocks.filter (fun e => hasType toolUse e.2) := List.mem_filter.2 ⟨hmem, rfl⟩
    rw [hone, List.mem_singleton] at hfilter
    have hdict : Block.toolUseDict id' name' (.obj input') = Block.toolUseDict id name (.obj []) :=
      congrArg Prod.snd hfilter
    simp only [Block.toolUseDict, List.cons.injEq, Prod.mk.injEq, Json.obj.injEq] at hdict
    exact hdict.2.2.2.1.2
  obtain ⟨content, hcontent, hblocks⟩ := exists_blocks hblock
  have hreadable := h.optional (x := model) (hmodel'.imp_right Or.inl)
  have hreadable' := h.optional (x := stopReason) (hstop'.imp_right Or.inr)
  have hholds : asm.Holds ⟨model, stopReason, asm.usage, content⟩ :=
    ⟨hmodel, hstop, List.Perm.refl _, hcontent⟩
  have hcanonical : Message.Canonical ⟨model, stopReason, asm.usage, content⟩ :=
    ⟨optional_reread hreadable, optional_reread hreadable', hpart.usage.canonical,
      fun b hb => (hblocks b hb).2⟩
  have hmembers : (Json.obj (Message.members ⟨model, stopReason, asm.usage, content⟩
      asm.usage)).Readable PydanticReader.depth Pydantic.intChars := by
    have hitems : (Json.arr (content.map (fun b => .obj b.dict))).Readable
        (PydanticReader.depth - 1) Pydantic.intChars :=
      readable_arr.2 ⟨(readable_obj.1 hpart.usage.readable).1,
        List.forall_mem_map.2 (fun b hb => (hblocks b hb).1)⟩
    refine readable_obj.2 ⟨(readable_obj.1 h.readable).1, ?_⟩
    simp only [Message.members, List.forall_mem_cons]
    exact ⟨⟨rfl, rfl, ⟨rfl, rfl, rfl⟩⟩, ⟨rfl, rfl, ⟨rfl, rfl, rfl⟩⟩, ⟨rfl, rfl, hreadable⟩,
      ⟨rfl, rfl, hreadable'⟩, ⟨rfl, rfl, hitems⟩, ⟨rfl, rfl, hpart.usage.readable⟩,
      fun _ he => absurd he List.not_mem_nil⟩
  have hfault : asm.assembled.fault PyRuntime.recursionLimit = none := by
    rw [hholds.assembled]
    exact fault_mono PydanticReader.depth_le hmembers.fault
  refine ⟨hfault, ?_⟩
  obtain ⟨usage, hextract⟩ := hpart.usage.counts.extractUsage
    ⟨model, stopReason, asm.usage, content⟩
  obtain ⟨decision, hdecide⟩ := decideBlock_opening id name usage
  have htool : (content.map Block.dict).filter (hasType toolUse)
      = [Block.toolUseDict id name (.obj [])] := by
    rw [← hcontent, StreamAssembler.sortedBlocks, List.filter_map]
    have hperm := (hsorted.filter (fun e => hasType toolUse e.2)).map Prod.snd
    rw [hone] at hperm
    exact List.perm_singleton.1 hperm
  have hgives : Message.Gives ⟨model, stopReason, asm.usage, content⟩ decision := by
    refine ⟨usage, hextract, ?_⟩
    unfold decideResponse Message.response
    rw [htool]
    exact hdecide
  have hparse : parseDecision asm.written = .ok decision := by
    have hdumped := (parseDecision_dumped hcanonical hholds.isObject).2 ⟨hmembers, hgives⟩
    rw [← hholds.assembled, dumpsBytes_eq hfault] at hdumped
    exact hdumped
  obtain ⟨thinking, hthinking⟩ := extractThinkingBlock_returns hfault
  unfold parseStreamed
  rw [hparse]
  cases decision with
  | toolCall decision =>
      simp only [hthinking]
      exact ⟨_, rfl⟩
  | huntComplete catches usage => exact ⟨_, rfl⟩
  | needsHelp usage => exact ⟨_, rfl⟩

/-- The part of a stream that a response brings, up to an error event, ends inside a `tool_use` block. -/
structure Unfinished (m : Message) (sent cut : List SentEvent) (error : Option Dict) (i : Nat)
    (response : Response) : Prop where
  wellFormed : WellFormed m (sent.map SentEvent.event)
  isPrefix : cut <+: sent
  block : ∃ id name input, m.content[i]? = some (.toolUse id name input)
  unended : .blockStop i ∉ cut.map SentEvent.event
  ending : ∀ d ∈ error, Typed "error" d
  frames : List.Forall₂ SseFrame.Carries response.frames
    (cut.map SentEvent.object ++ error.toList)

/-- **An unfinished block is dispatched** if it is the only `tool_use` block that has been opened and the
    transport does not report the break. -/
theorem Unfinished.decided {error : Option Dict} {i : Nat} {response : Response}
    (h : Unfinished m sent cut error i response) (hsuccess : response.isSuccess = true)
    (hbroken : response.broken = none) (hopened : (i : Int) ∈ toolStarts cut)
    (hothers : ∀ index ∈ toolStarts cut, index = i) :
    ∃ decision, BuiltFrom response i decision := by
  obtain ⟨asm, hfeed, hpart⟩ := feedFrames_cut h.wellFormed h.isPrefix h.ending h.frames
  obtain ⟨id, name, input, hblock⟩ := h.block
  obtain ⟨block, hmem, htool⟩ := hpart.tools.1 hopened
  have hdict : block = Block.toolUseDict id name (.obj []) := by
    obtain ⟨i', b, part, hi, hb, rfl, _, _, hunfinished⟩ :=
      hpart.entry i block ((lookup_eq_some hpart.one).2 hmem)
    obtain rfl : i' = i := by omega
    cases hb.symm.trans hblock
    rw [hunfinished h.unended id name input rfl]
    rfl
  subst hdict
  have hone : asm.blocks.filter (fun e => hasType toolUse e.2)
      = [((i : Int), Block.toolUseDict id name (.obj []))] := by
    refine List.perm_singleton.1 ((List.perm_ext_iff_of_nodup
      ((List.Nodup.of_map _ hpart.one).filter _) (List.nodup_singleton _)).2 ?_)
    rintro ⟨index, block⟩
    rw [List.mem_filter, List.mem_singleton]
    constructor
    · rintro ⟨hmem', htool'⟩
      obtain rfl := hothers index (hpart.tools.2 ⟨block, hmem', htool'⟩)
      have hlookup := (lookup_eq_some hpart.one).2 hmem
      rw [(lookup_eq_some hpart.one).2 hmem'] at hlookup
      rw [Option.some.inj hlookup]
    · rintro heq
      cases heq
      exact ⟨hmem, htool⟩
  obtain ⟨hfault, decision, hparse⟩ := parseStreamed_opening h.wellFormed hpart hone
  refine ⟨decision, ?_, Block.toolUseDict id name (.obj []), ?_⟩
  · rw [verdict_stream hsuccess, streamed, hfeed, hbroken]
    simp only [dumpsBytes_eq hfault]
    show (parseStreamed asm.written).mapError _ = _
    rw [hparse]
    rfl
  · rw [hfeed]
    exact hone

/-- **When an unfinished block leads to no decision.** No decision is built from the block if and only
    if the response is no success, the transport reports the break, the block has not been opened, or
    another `tool_use` block has. -/
theorem unfinished_undecided_iff {error : Option Dict} {i : Nat} {response : Response}
    (h : Unfinished m sent cut error i response) :
    (∀ decision, ¬ BuiltFrom response i decision) ↔
      response.isSuccess = false ∨ response.broken ≠ none ∨ (i : Int) ∉ toolStarts cut ∨
        ∃ index ∈ toolStarts cut, index ≠ i := by
  constructor
  · intro hnever
    by_contra hcond
    simp only [not_or, not_exists, not_and, not_not, Bool.not_eq_false] at hcond
    obtain ⟨hsuccess, hbroken, hopened, hothers⟩ := hcond
    obtain ⟨decision, hbuilt⟩ := h.decided hsuccess hbroken hopened hothers
    exact hnever decision hbuilt
  · rintro hcond decision ⟨hverdict, block, hone⟩
    obtain ⟨asm, hfeed, hpart⟩ := feedFrames_cut h.wellFormed h.isPrefix h.ending h.frames
    simp only [hfeed] at hone
    cases hsuccess : response.isSuccess with
    | false =>
        rw [verdict_failed hsuccess] at hverdict
        cases hverdict
    | true =>
        rw [verdict_stream hsuccess] at hverdict
        have hwhole := (streamed_ok (mapError_ok hverdict)).1
        have hmem : ∀ e : Int × Dict, e ∈ asm.blocks ∧ hasType toolUse e.2 = true ↔ e = (↑i, block) := by
          intro e
          have hfilter : e ∈ asm.blocks.filter (fun e => hasType toolUse e.2) ↔ _ := List.mem_filter
          rw [hone, List.mem_singleton] at hfilter
          exact hfilter.symm
        rcases hcond with hfalse | hbroken | hclosed | ⟨index, hindex, hne⟩
        · rw [hsuccess] at hfalse
          cases hfalse
        · exact hbroken hwhole
        · exact hclosed (hpart.tools.2 ⟨block, (hmem (↑i, block)).2 rfl⟩)
        · obtain ⟨block', hblock'⟩ := hpart.tools.1 hindex
          exact hne (congrArg Prod.fst ((hmem (index, block')).1 hblock'))

end Cut

/-! ### A hunt that is closed without its catch -/

def closingMessage : Message where
  model := some (py "m")
  stopReason := some (py "tool_use")
  usage := [(.str (py "input_tokens"), .int 7), (.str (py "output_tokens"), .int 3)]
  content := [.toolUse (py "t") huntComplete [(.str (py "catch"), .arr [.str (py "job")])]]

theorem closing_messageStart : (StreamEvent.messageStart (some (py "m"))
      [(.str (py "input_tokens"), .int 7)]).IsEvent
    [(.str (py "type"), .str (py "message_start")), (.str (py "message"),
      .obj [(.str (py "model"), .str (py "m")),
        (.str (py "usage"), .obj [(.str (py "input_tokens"), .int 7)])])] :=
  ⟨rfl, _, rfl, rfl, rfl⟩

theorem closing_lastInput : (StreamEvent.delta 0 (.inputJson (py "\"job\"]\x7d"))).IsEvent
    (sentDelta 0 [(.str (py "type"), .str (py "input_json_delta")),
      (.str (py "partial_json"), .str (py "\"job\"]\x7d"))]) := ⟨rfl, rfl, _, rfl, rfl, rfl⟩

theorem closing_blockStop : (StreamEvent.blockStop 0).IsEvent
    [(.str (py "type"), .str (py "content_block_stop")), (.str (py "index"), .int 0)] := ⟨rfl, rfl⟩

theorem closing_messageDelta : (StreamEvent.messageDelta (some (py "tool_use"))
      [(.str (py "output_tokens"), .int 3)]).IsEvent
    [(.str (py "type"), .str (py "message_delta")),
      (.str (py "delta"), .obj [(.str (py "stop_reason"), .str (py "tool_use"))]),
      (.str (py "usage"), .obj [(.str (py "output_tokens"), .int 3)])] := ⟨rfl, _, rfl, rfl, rfl⟩

theorem closing_messageStop : StreamEvent.messageStop.IsEvent
    [(.str (py "type"), .str (py "message_stop"))] := rfl

def closingStream : List SentEvent :=
  [⟨.messageStart (some (py "m")) [(.str (py "input_tokens"), .int 7)],
      [(.str (py "type"), .str (py "message_start")), (.str (py "message"),
        .obj [(.str (py "model"), .str (py "m")),
          (.str (py "usage"), .obj [(.str (py "input_tokens"), .int 7)])])],
      closing_messageStart⟩,
    ⟨.blockStart 0 (.toolUse (py "t") huntComplete [(.str (py "catch"), .arr [.str (py "job")])]),
      [(.str (py "type"), .str (py "content_block_start")), (.str (py "index"), .int 0),
        (.str (py "content_block"), .obj (Block.toolUseDict (py "t") huntComplete (.obj [])))],
      ⟨rfl, rfl, rfl⟩⟩,
    ⟨.delta 0 (.inputJson (py "\x7b\"catch\":[")), sentDelta 0
      [(.str (py "type"), .str (py "input_json_delta")),
        (.str (py "partial_json"), .str (py "\x7b\"catch\":["))], ⟨rfl, rfl, _, rfl, rfl, rfl⟩⟩,
    ⟨.delta 0 (.inputJson (py "\"job\"]\x7d")), sentDelta 0
      [(.str (py "type"), .str (py "input_json_delta")),
        (.str (py "partial_json"), .str (py "\"job\"]\x7d"))], closing_lastInput⟩,
    ⟨.blockStop 0, [(.str (py "type"), .str (py "content_block_stop")),
      (.str (py "index"), .int 0)], closing_blockStop⟩,
    ⟨.messageDelta (some (py "tool_use")) [(.str (py "output_tokens"), .int 3)],
      [(.str (py "type"), .str (py "message_delta")),
        (.str (py "delta"), .obj [(.str (py "stop_reason"), .str (py "tool_use"))]),
        (.str (py "usage"), .obj [(.str (py "output_tokens"), .int 3)])], closing_messageDelta⟩,
    ⟨.messageStop, [(.str (py "type"), .str (py "message_stop"))], closing_messageStop⟩]

/-- The provider fails after the first piece of the input. -/
def overloaded : Dict :=
  [(.str (py "type"), .str (py "error")),
    (.str (py "error"), .obj [(.str (py "type"), .str (py "overloaded_error"))])]

/-- The lines of the objects, each in a frame of its own. -/
def sseLines [PyRuntime] (objects : List Dict) : List PyStr :=
  objects.flatMap (fun d => [py "data: " ++ (Json.obj d).write, []])

/-- Each object is a frame. -/
theorem frames_sseLines (whole : Bool) (objects : List Dict) :
    @frames .ascii whole [] (@sseLines .ascii objects)
      = objects.map (fun d => ⟨[@Json.write .ascii (.obj d)], true⟩) := by
  induction objects with
  | nil => rfl
  | cons d objects ih =>
      have hprefix : afterPrefix (py "data:") (py "data: " ++ @Json.write .ascii (.obj d))
          = some (py " " ++ @Json.write .ascii (.obj d)) :=
        afterPrefix_append (py "data:") (py " " ++ @Json.write .ascii (.obj d))
      have hstrip : strip PyRuntime.ascii.isSpace (py " " ++ @Json.write .ascii (.obj d))
          = @Json.write .ascii (.obj d) :=
        strip_braces (by decide) (by decide) (by decide) (@Json.writeEntries .ascii d)
      show @frames .ascii whole [] (_ :: [] :: @sseLines .ascii objects) = _
      rw [@frames_data .ascii _ _ _ hprefix, hstrip, List.map_cons, ← ih]
      rfl

/-- The response with the first three events and the error. -/
def cutResponse (broken : Option PyExc) : Response where
  status := 200
  content := []
  lines := @sseLines .ascii ((closingStream.take 3).map SentEvent.object ++ [overloaded])
  broken := broken

theorem closingUsage_readable {key : PyStr} {n : Int} (hkey : encodable key = true)
    (hn : (intRepr n).length ≤ 4300) :
    @ReadableUsage .ascii ((@PydanticReader.plain .ascii).depth - 1)
      (@PydanticReader.plain .ascii).intChars [(.str key, .int n)] := by
  refine @ReadableUsage.mk .ascii _ _ _ (@Dict.Canonical.mk .ascii _ ⟨?_, ?_⟩ ?_ ?_)
    ((@readable_obj _ .ascii _).2 ⟨by decide, ?_⟩) ?_
  · exact List.forall_mem_singleton.2 ⟨key, rfl⟩
  · exact List.nodup_singleton _
  · exact List.forall_mem_singleton.2 (joined_of_encodable hkey)
  · exact List.forall_mem_singleton.2 rfl
  · exact List.forall_mem_singleton.2 ⟨hkey, rfl, @Json.Readable.mk .ascii _ _ _ rfl
      (@intFault_of_length .ascii n hn) (decide_eq_true hn)⟩
  · intro key' _ v hv
    rw [Dict.get] at hv
    by_cases heq : key = key' <;> simp [heq] at hv
    exact ⟨n, hv.symm⟩

theorem closingStream_wellFormed : @WellFormed .ascii (@PydanticReader.plain .ascii) closingMessage
    (closingStream.map SentEvent.event) := by
  refine @WellFormed.mk .ascii (@PydanticReader.plain .ascii) _ _ (@Encodes.mk .ascii _ _ ?message ?block ?other)
    (@Json.Readable.mk .ascii _ _ _ (by decide) (by decide +kernel) (by decide +kernel)) ?usage
  case message =>
    refine ⟨_, _, ⟨⟨?_, by decide⟩, ⟨?_, by decide⟩, fun key => ?_⟩, rfl⟩
    · exact List.forall_mem_singleton.2 ⟨_, rfl⟩
    · exact List.forall_mem_singleton.2 ⟨_, rfl⟩
    · by_cases hin : py "input_tokens" = key
      · subst hin
        rfl
      · by_cases hout : py "output_tokens" = key <;>
          simp [closingMessage, Dict.get, hin, hout]
  case block =>
    rintro (_ | i) b hb
    · cases hb
      refine ⟨[.inputJson (py "\x7b\"catch\":["), .inputJson (py "\"job\"]\x7d")],
        ⟨?_, Or.inl ?_⟩, rfl⟩
      · simp [Fragment.inputJson?]
      · rfl
    · cases hb
  case other =>
    intro index hindex
    have hzero : (0 : Int) ≠ index := fun h => hindex 0 (by decide) h.symm
    simp [Channels.own, closingStream, StreamEvent.channel, hzero]
  case usage =>
    intro e he usage husage
    simp only [closingStream, List.map_cons, List.map_nil, List.mem_cons, List.not_mem_nil,
      or_false] at he
    rcases he with rfl | rfl | rfl | rfl | rfl | rfl | rfl <;> cases husage
    · exact closingUsage_readable (by decide) (by decide)
    · exact closingUsage_readable (by decide) (by decide)

theorem cutResponse_unfinished (broken : Option PyExc) :
    @Unfinished .ascii (@PydanticReader.plain .ascii) closingMessage closingStream
      (closingStream.take 3) (some overloaded) 0 (cutResponse broken) := by
  refine @Unfinished.mk .ascii (@PydanticReader.plain .ascii) _ _ _ _ _ _ closingStream_wellFormed (List.take_prefix _ _)
    ⟨_, _, _, rfl⟩ ?_ ?_ ?_
  · simp [closingStream]
  · intro d hd
    cases hd
    rfl
  · have hframes : @Response.frames .ascii (cutResponse broken) = _ := frames_sseLines broken.isNone _
    have hloads : ∀ d ∈ (closingStream.take 3).map SentEvent.object ++ [overloaded],
        @Json.loads .ascii ([@Json.write .ascii (.obj d)].flatten) = .ok (.obj d) := by
      simp only [closingStream, List.take_succ_cons, List.take_zero, List.map_cons, List.map_nil,
        List.cons_append, List.nil_append, List.forall_mem_cons, List.flatten_singleton]
      exact ⟨@loads_write .ascii _ (by decide), @loads_write .ascii _ (by decide),
        @loads_write .ascii _ (by decide), @loads_write .ascii _ (by decide),
        fun _ hd => absurd hd List.not_mem_nil⟩
    rw [hframes, List.forall₂_map_left_iff]
    exact List.forall₂_same.2 hloads

/-- The hunt is completed with an empty catch. -/
theorem unfinished_block_closes_hunt :
    @Unfinished .ascii (@PydanticReader.plain .ascii) closingMessage closingStream
      (closingStream.take 3) (some overloaded) 0 (cutResponse none) ∧
    (∃ decision, @BuiltFrom .ascii (@PydanticReader.plain .ascii).toPydantic (cutResponse none) 0
      decision) ∧
    ∃ usage, @verdict .ascii (@PydanticReader.plain .ascii).toPydantic true (cutResponse none)
      = .ok (.huntComplete [] usage) := by
  refine ⟨cutResponse_unfinished none, ?_, ?_⟩
  · exact @Unfinished.decided .ascii (@PydanticReader.plain .ascii) _ _ _ _ _ _
      (cutResponse_unfinished none) rfl rfl (by decide) (by decide)
  · have hcomplete : (match @verdict .ascii (@PydanticReader.plain .ascii).toPydantic true
          (cutResponse none) with
        | .error _ => false
        | .ok (.toolCall _) => false
        | .ok (.huntComplete catches _) => decide (catches = [])
        | .ok (.needsHelp _) => false) = true := by
      decide +kernel
    split at hcomplete
    · cases hcomplete
    · cases hcomplete
    · next catches usage heq =>
        rw [of_decide_eq_true hcomplete] at heq
        exact ⟨usage, heq⟩
    · cases hcomplete

/-- When the transport reports the break, nothing is decided. -/
theorem broken_cut_undecided : ¬ ∃ decision,
    @BuiltFrom .ascii (@PydanticReader.plain .ascii).toPydantic
      (cutResponse (some (.transportError (py "peer closed connection")))) 0 decision := by
  rintro ⟨decision, hbuilt⟩
  exact (@unfinished_undecided_iff .ascii (@PydanticReader.plain .ascii) _ _ _ _ _ _
    (cutResponse_unfinished _)).2 (Or.inr (Or.inl (by decide))) decision hbuilt

end RexHunter
