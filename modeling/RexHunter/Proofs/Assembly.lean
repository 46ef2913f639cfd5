import RexHunter.Lib.JsonSpelling
import RexHunter.Proofs.Encoding
import RexHunter.Proofs.Stream

set_option autoImplicit false

/-! # What is assembled from a stream

To the assembler the channels of a stream are separate: an event of a block changes the entry of the
block and its buffer, an event of the message the three fields of the envelope. So it is enough to
follow each channel alone, and there the assembler adds up the pieces (`runLocal_block`). -/

namespace RexHunter

/-! ## Entries by index -/

section Entries

variable {α : Type}

theorem lookup_assign_self (m : List (Int × α)) (index : Int) (value : α) :
    lookup (assign m index value) index = some value := by
  induction m with
  | nil => simp [assign, lookup]
  | cons e m ih =>
      unfold assign
      by_cases h : e.1 = index
      · simp [h, lookup]
      · rw [if_neg h]
        simpa [lookup, h] using ih

theorem lookup_assign_other {index index' : Int} (h : index' ≠ index) (m : List (Int × α))
    (value : α) : lookup (assign m index value) index' = lookup m index' := by
  induction m with
  | nil => simp [assign, lookup, h.symm]
  | cons e m ih =>
      unfold assign
      by_cases he : e.1 = index
      · rw [if_pos he]
        simp [lookup, he, h.symm]
      · rw [if_neg he]
        by_cases he' : e.1 = index'
        · simp [lookup, he']
        · simpa [lookup, he'] using ih

theorem nodup_assign {m : List (Int × α)} (h : (m.map Prod.fst).Nodup) (index : Int) (value : α) :
    ((assign m index value).map Prod.fst).Nodup := by
  have hkeys : ∀ m : List (Int × α), (assign m index value).map Prod.fst = m.map Prod.fst ∨
      index ∉ m.map Prod.fst ∧ (assign m index value).map Prod.fst = m.map Prod.fst ++ [index] := by
    intro m
    induction m with
    | nil => exact Or.inr ⟨List.not_mem_nil, rfl⟩
    | cons e m ih =>
        unfold assign
        by_cases he : e.1 = index
        · rw [if_pos he]
          exact Or.inl (congrArg (· :: m.map Prod.fst) he.symm)
        · rw [if_neg he]
          rcases ih with heq | ⟨hnew, heq⟩
          · exact Or.inl (congrArg (e.1 :: ·) heq)
          · exact Or.inr ⟨by simpa [Ne.symm he] using hnew, congrArg (e.1 :: ·) heq⟩
  rcases hkeys m with heq | ⟨hnew, heq⟩
  · rw [heq]
    exact h
  · rw [heq]
    exact List.nodup_append.2 ⟨h, List.nodup_singleton _, by
      rintro a ha b hb rfl
      exact hnew (List.mem_singleton.1 hb ▸ ha)⟩

theorem lookup_eq_some {m : List (Int × α)} (h : (m.map Prod.fst).Nodup) {index : Int}
    {value : α} : lookup m index = some value ↔ (index, value) ∈ m := by
  have hfind := fun e => Table.find_key_eq_some (k := index) (a := e) h
  unfold lookup
  constructor
  · intro hlookup
    obtain ⟨e, he, rfl⟩ := Option.map_eq_some_iff.1 hlookup
    obtain ⟨hmem, hkey⟩ := (hfind e).1 he
    rwa [← hkey]
  · intro hmem
    rw [(hfind _).2 ⟨hmem, rfl⟩]
    rfl

/-- Entries with the indices `0, 1, …` are sorted into the order of these. -/
theorem sorted_entries {m : List (Int × α)} (h : (m.map Prod.fst).Nodup) {values : List α}
    (hvalues : ∀ (i : Nat) value, values[i]? = some value → lookup m i = some value)
    (hother : ∀ index : Int, (∀ i : Nat, i < values.length → index ≠ i) → lookup m index = none) :
    (m.insertionSort (fun a b => a.1 ≤ b.1)).map Prod.snd = values := by
  let indexed : List (Int × α) := values.zipIdx.map (fun e => ((e.2 : Int), e.1))
  have hkeys : indexed.map Prod.fst = (List.range values.length).map Nat.cast := by
    simp only [indexed, List.map_map, List.range_eq_range', ← List.zipIdx_map_snd 0 values]
    rfl
  have hnodup : indexed.Nodup := by
    refine List.Nodup.of_map Prod.fst ?_
    rw [hkeys]
    exact List.nodup_range.map Nat.cast_injective
  have hperm : m.Perm indexed := by
    refine (List.perm_ext_iff_of_nodup (List.Nodup.of_map _ h) hnodup).2 (fun e => ?_)
    obtain ⟨index, value⟩ := e
    have hmem : (index, value) ∈ indexed ↔ ∃ i : Nat, values[i]? = some value ∧ index = i := by
      simp only [indexed, List.mem_map, Prod.mk.injEq, Prod.exists, List.mk_mem_zipIdx_iff_getElem?]
      constructor
      · rintro ⟨v, i, hv, rfl, rfl⟩
        exact ⟨i, hv, rfl⟩
      · rintro ⟨i, hv, rfl⟩
        exact ⟨value, i, hv, rfl, rfl⟩
    rw [hmem, ← lookup_eq_some h]
    constructor
    · intro hlookup
      by_contra hnot
      have hnone : lookup m index = none := by
        refine hother index (fun i hi hindex => hnot ⟨i, ?_, hindex⟩)
        have hi' := hvalues i values[i] (List.getElem?_eq_getElem hi)
        rw [hindex, hi'] at hlookup
        rw [List.getElem?_eq_getElem hi, hlookup]
      rw [hnone] at hlookup
      cases hlookup
    · rintro ⟨i, hi, rfl⟩
      exact hvalues i value hi
  have hsorted : indexed.Pairwise (fun a b => a.1 ≤ b.1) := by
    have hlt : (indexed.map Prod.fst).Pairwise (fun i j => i ≤ j) := by
      rw [hkeys, List.pairwise_map]
      exact List.pairwise_lt_range.imp (fun hlt => by omega)
    exact List.pairwise_map.1 hlt
  have heq : m.insertionSort (fun a b => a.1 ≤ b.1) = indexed := by
    refine List.Perm.eq_of_pairwise ?_ (List.pairwise_insertionSort _ m) hsorted
      ((List.perm_insertionSort _ m).trans hperm)
    -- an index has only one entry
    intro a b ha hb hab hba
    have ha' := (lookup_eq_some h).2 ((List.mem_insertionSort _).1 ha)
    have hb' := (lookup_eq_some h).2 (hperm.mem_iff.2 hb)
    have hindex : a.1 = b.1 := by omega
    rw [hindex, hb'] at ha'
    exact Prod.ext hindex (Option.some.inj ha').symm
  rw [heq]
  simp only [indexed, List.map_map]
  exact List.zipIdx_map_fst 0 values

end Entries

/-! ## The channels -/

/-- What the assembler holds of a channel. -/
abbrev Held : Channel → Type
  | .message => Json × Json × Dict
  | .block _ => Option Dict × PyStr
  | .idle => PUnit

def held : (c : Channel) → StreamAssembler → Held c
  | .message, asm => (asm.model, asm.stopReason, asm.usage)
  | .block index, asm => (lookup asm.blocks index, (lookup asm.jsonBuf index).getD [])
  | .idle, _ => ⟨⟩

section Reaction

variable [PyRuntime]

/-- A fragment is added to the entry of its block, or to its buffer. -/
def addFragment (q : Dict × PyStr) : Fragment → Dict × PyStr
  | .thinking s => (StreamAssembler.extend q.1 (py "thinking") s, q.2)
  | .signature s => (StreamAssembler.extend q.1 (py "signature") s, q.2)
  | .text s => (StreamAssembler.extend q.1 (py "text") s, q.2)
  | .inputJson s => (q.1, q.2 ++ s)

/-- The entry of a block at its end. -/
def closeBlock (block : Dict) (buf : PyStr) : Option Dict :=
  if hasType toolUse block then
    match StreamAssembler.parsedInput buf with
    | .ok input => some (block.set (.str (py "input")) input)
    | .error _ => none
  else some block

/-- The stop reason, unless there is none. -/
def lastStop (stopReason : Json) : Option PyStr → Json
  | some s => .str s
  | none => stopReason

/-- What the assembler makes of an event of the channel. -/
def react : (c : Channel) → Held c → StreamEvent → Option (Option PyStr × Held c)
  | .message, (model, stopReason, usage), e =>
      match e with
      | .messageStart model' usage' => some (none, (optional model', stopReason, usage.update usage'))
      | .messageDelta stopReason' usage' =>
          some (none, (model, lastStop stopReason stopReason', usage.update usage'))
      | .messageStop => some (none, (model, stopReason, usage))
      | _ => none
  | .block _, (block, buf), e =>
      match e, block with
      | .blockStart _ b, _ => some (none, (some b.opened, buf))
      | .delta _ f, some block =>
          some (f.thinking?, (some (addFragment (block, buf) f).1, (addFragment (block, buf) f).2))
      | .blockStop _, some block =>
          match closeBlock block buf with
          | some block => some (none, (some block, buf))
          | none => none
      | _, _ => none
  | .idle, _, _ => some (none, ⟨⟩)

omit [PyRuntime] in
theorem hasType_of_typed {type : String} {d : Dict} (h : Typed type d) (type' : String) :
    hasType (py type') d = decide (py type = py type') := by
  unfold hasType
  rw [h]

omit [PyRuntime] in
theorem update_opened (b : Block) : Dict.update [] b.opened = b.opened := by
  cases b <;> rfl

variable {asm : StreamAssembler} {d : Dict} {index : Int}

/-! ### `feed` on the events -/

theorem feed_messageStart {model : Option PyStr} {usage : Dict}
    (h : (StreamEvent.messageStart model usage).IsEvent d) :
    asm.feed (.obj d) = .ok (none, { asm with
      model := optional model
      usage := asm.usage.update usage }) := by
  obtain ⟨htype, message, hmessage, hmodel, husage⟩ := h
  simp only [StreamAssembler.feed, asDict, bind, Except.bind, hasType_of_typed htype, decide_true,
    if_true, hmessage, Option.getD_some, husage, entriesOf, hmodel]
  rfl

theorem feed_blockStart {b : Block} (h : (StreamEvent.blockStart index b).IsEvent d) :
    asm.feed (.obj d)
      = .ok (none, { asm with blocks := assign asm.blocks index b.opened }) := by
  obtain ⟨htype, hindex, hblock⟩ := h
  unfold StreamAssembler.feed
  simp only [asDict, bind, Except.bind, hasType_of_typed htype]
  rw [if_neg (by decide), if_pos (by decide), item_ok.2 hblock, item_ok.2 hindex]
  simp only [entriesOf, pyInt, update_opened]
  rfl

theorem feed_blockStop (h : (StreamEvent.blockStop index).IsEvent d) :
    asm.feed (.obj d) = (asm.finalize index).map (fun asm => (none, asm)) := by
  obtain ⟨htype, hindex⟩ := h
  unfold StreamAssembler.feed
  simp only [asDict, bind, Except.bind, hasType_of_typed htype]
  rw [if_neg (by decide), if_neg (by decide), if_neg (by decide), if_pos (by decide),
    item_ok.2 hindex]
  simp only [pyInt]
  cases asm.finalize index <;> rfl

/-- The assembler after a fragment. -/
def withFragment (asm : StreamAssembler) (index : Int) (block : Dict) : Fragment → StreamAssembler
  | .inputJson s => { asm with
      jsonBuf := assign asm.jsonBuf index ((lookup asm.jsonBuf index).getD [] ++ s) }
  | f => { asm with
      blocks := assign asm.blocks index (addFragment (block, []) f).1 }

theorem feed_delta {f : Fragment} {block : Dict} (h : (StreamEvent.delta index f).IsEvent d)
    (hblock : lookup asm.blocks index = some block) :
    asm.feed (.obj d) = .ok (f.thinking?, withFragment asm index block f) := by
  obtain ⟨htype, hindex, delta, hdelta, hfragment⟩ := h
  unfold StreamAssembler.feed
  simp only [asDict, bind, Except.bind, hasType_of_typed htype]
  rw [if_neg (by decide), if_neg (by decide), if_pos (by decide), item_ok.2 hindex,
    item_ok.2 hdelta]
  simp only [pyInt, StreamAssembler.applyDelta, hblock, asDict, bind, Except.bind]
  cases f with
  | thinking s =>
      obtain ⟨htype, htext⟩ := hfragment
      simp only [hasType_of_typed htype, StreamAssembler.fieldText, htext]
      rfl
  | signature s =>
      obtain ⟨htype, htext⟩ := hfragment
      simp only [hasType_of_typed htype, StreamAssembler.fieldText, htext]
      rfl
  | text s =>
      obtain ⟨htype, htext⟩ := hfragment
      simp only [hasType_of_typed htype, StreamAssembler.fieldText, htext]
      rfl
  | inputJson s =>
      obtain ⟨htype, htext⟩ := hfragment
      simp only [hasType_of_typed htype, StreamAssembler.fieldText, htext]
      rfl

theorem held_withFragment (block : Dict) (f : Fragment)
    (hblock : lookup asm.blocks index = some block) :
    held (.block index) (withFragment asm index block f)
      = (some (addFragment (block, (lookup asm.jsonBuf index).getD []) f).1,
        (addFragment (block, (lookup asm.jsonBuf index).getD []) f).2) := by
  cases f with
  | inputJson s => simp only [held, withFragment, lookup_assign_self, hblock]; rfl
  | _ => simp only [held, withFragment, lookup_assign_self]; rfl

theorem feed_messageDelta {stopReason : Option PyStr} {usage : Dict}
    (h : (StreamEvent.messageDelta stopReason usage).IsEvent d) :
    asm.feed (.obj d) = .ok (none, { asm with
      stopReason := lastStop asm.stopReason stopReason
      complete := asm.complete || stopReason.isSome
      usage := asm.usage.update usage }) := by
  obtain ⟨htype, delta, hdelta, hstop, husage⟩ := h
  unfold StreamAssembler.feed
  simp only [asDict, bind, Except.bind, hasType_of_typed htype]
  rw [if_neg (by decide), if_neg (by decide), if_neg (by decide), if_neg (by decide),
    if_pos (by decide)]
  simp only [hdelta, Option.getD_some, husage, entriesOf, hstop]
  cases stopReason with
  | some s =>
      simp only [optional, Option.isSome_some, Bool.or_true]
      rfl
  | none =>
      simp only [optional, Option.isSome_none, Bool.or_false]
      rfl

theorem feed_messageStop (h : StreamEvent.messageStop.IsEvent d) :
    asm.feed (.obj d) = .ok (none, { asm with complete := true }) := by
  unfold StreamAssembler.feed
  simp only [asDict, bind, Except.bind, hasType_of_typed h]
  rw [if_neg (by decide), if_neg (by decide), if_neg (by decide), if_neg (by decide),
    if_neg (by decide), if_pos (by decide)]
  rfl

theorem feed_ping (h : StreamEvent.ping.IsEvent d) : asm.feed (.obj d) = .ok (none, asm) := by
  unfold StreamAssembler.feed
  simp only [asDict, bind, Except.bind, hasType_of_typed h]
  rw [if_neg (by decide), if_neg (by decide), if_neg (by decide), if_neg (by decide),
    if_neg (by decide), if_neg (by decide)]
  rfl

/-! ### The channels are separate -/

omit [PyRuntime] in
theorem held_withBlocks {c : Channel} (h : c ≠ .block index) (asm : StreamAssembler) (block : Dict) :
    held c { asm with blocks := assign asm.blocks index block } = held c asm := by
  cases c with
  | message | idle => rfl
  | block index' =>
      have hne : index' ≠ index := fun heq => h (congrArg Channel.block heq)
      simp only [held, lookup_assign_other hne]

omit [PyRuntime] in
theorem held_withBuffer {c : Channel} (h : c ≠ .block index) (asm : StreamAssembler) (buf : PyStr) :
    held c { asm with jsonBuf := assign asm.jsonBuf index buf } = held c asm := by
  cases c with
  | message | idle => rfl
  | block index' =>
      have hne : index' ≠ index := fun heq => h (congrArg Channel.block heq)
      simp only [held, lookup_assign_other hne]

omit [PyRuntime] in
theorem held_withEnvelope {c : Channel} (h : c ≠ .message) (asm : StreamAssembler)
    (model stopReason : Json) (usage : Dict) (complete : Bool) :
    held c ⟨asm.blocks, asm.jsonBuf, model, stopReason, usage, complete⟩ = held c asm := by
  cases c with
  | message => exact absurd rfl h
  | block | idle => rfl

/-- Every entry has an index of its own. -/
def OneEach (asm : StreamAssembler) : Prop := (asm.blocks.map Prod.fst).Nodup

theorem finalize_block {asm : StreamAssembler} {index : Int} {block block' : Dict}
    (hblock : lookup asm.blocks index = some block)
    (hclose : closeBlock block ((lookup asm.jsonBuf index).getD []) = some block') :
    asm.finalize index = .ok { asm with blocks := assign asm.blocks index block' } ∨
      asm.finalize index = .ok asm ∧ block' = block := by
  unfold closeBlock at hclose
  unfold StreamAssembler.finalize
  rw [hblock]
  split at hclose
  · next htool =>
      split at hclose
      · next input hinput =>
          cases hclose
          simp only [if_pos htool, hinput, bind, Except.bind]
          exact Or.inl rfl
      · cases hclose
  · next htool =>
      cases hclose
      refine Or.inr ⟨?_, rfl⟩
      simp only [if_neg htool]

/-- What the assembler does with an event is what it makes of it for the channel alone. -/
theorem separate : Channels.Separate
    (fun asm (e : SentEvent) => StreamAssembler.feed asm (.obj e.object))
    (fun e => e.event.channel) held (fun c q e => react c q e.event) OneEach := by
  refine ⟨fun asm e r q hnodup hreact => ?_⟩
  obtain ⟨event, d, hevent⟩ := e
  cases event with
  | messageStart model usage =>
      cases hreact
      exact ⟨_, feed_messageStart hevent, hnodup, rfl, fun c hc => held_withEnvelope hc asm _ _ _ _⟩
  | messageDelta stopReason usage =>
      cases hreact
      exact ⟨_, feed_messageDelta hevent, hnodup, rfl, fun c hc => held_withEnvelope hc asm _ _ _ _⟩
  | messageStop =>
      cases hreact
      exact ⟨_, feed_messageStop hevent, hnodup, rfl, fun c hc => held_withEnvelope hc asm _ _ _ _⟩
  | ping =>
      cases hreact
      exact ⟨asm, feed_ping hevent, hnodup, rfl, fun _ _ => rfl⟩
  | blockStart index b =>
      cases hreact
      refine ⟨_, feed_blockStart hevent, nodup_assign hnodup _ _, ?_,
        fun c hc => held_withBlocks hc asm _⟩
      simp only [StreamEvent.channel, held, lookup_assign_self]
  | delta index f =>
      cases hblock : lookup asm.blocks index with
      | none =>
          have hnone : react (.block index) (held (.block index) asm) (.delta index f) = none := by
            simp only [held, hblock]
            rfl
          cases hnone.symm.trans hreact
      | some block =>
          have hsome : react (.block index) (held (.block index) asm) (.delta index f)
              = some (f.thinking?, (some (addFragment (block, (lookup asm.jsonBuf index).getD []) f).1,
                (addFragment (block, (lookup asm.jsonBuf index).getD []) f).2)) := by
            simp only [held, hblock]
            rfl
          cases hsome.symm.trans hreact
          refine ⟨_, feed_delta hevent hblock, ?_, held_withFragment block f hblock, ?_⟩
          · cases f with
            | inputJson s => exact hnodup
            | _ => exact nodup_assign hnodup _ _
          · intro c hc
            cases f with
            | inputJson s => exact held_withBuffer hc asm _
            | _ => exact held_withBlocks hc asm _
  | blockStop index =>
      cases hblock : lookup asm.blocks index with
      | none =>
          have hnone : react (.block index) (held (.block index) asm) (.blockStop index) = none := by
            simp only [held, hblock]
            rfl
          cases hnone.symm.trans hreact
      | some block =>
          cases hclose : closeBlock block ((lookup asm.jsonBuf index).getD []) with
          | none =>
              have hnone : react (.block index) (held (.block index) asm) (.blockStop index)
                  = none := by
                simp only [held, hblock, react, hclose]
              cases hnone.symm.trans hreact
          | some block' =>
              have hsome : react (.block index) (held (.block index) asm) (.blockStop index)
                  = some (none, (some block', (lookup asm.jsonBuf index).getD [])) := by
                simp only [held, hblock, react, hclose]
              cases hsome.symm.trans hreact
              rcases finalize_block hblock hclose with hfinal | ⟨hfinal, rfl⟩
              · refine ⟨{ asm with blocks := assign asm.blocks index block' }, ?_,
                  nodup_assign hnodup _ _, ?_, fun c hc => held_withBlocks hc asm _⟩
                · rw [feed_blockStop hevent, hfinal]
                  rfl
                · simp only [StreamEvent.channel, held, lookup_assign_self]
              · refine ⟨asm, ?_, hnodup, ?_, fun _ _ => rfl⟩
                · rw [feed_blockStop hevent, hfinal]
                  rfl
                · simp only [StreamEvent.channel, held, hblock]

/-! ### A channel alone -/

theorem runLocal_fragments (fragments : List Fragment) : ∀ q : Dict × PyStr,
    Channels.runLocal (react (.block index)) (some q.1, q.2) (fragments.map (.delta index))
      = some (fragments.map Fragment.thinking?,
          (some (fragments.foldl addFragment q).1, (fragments.foldl addFragment q).2)) := by
  induction fragments with
  | nil => exact fun _ => rfl
  | cons f fs ih =>
      intro q
      have hreact : react (.block index) (some q.1, q.2) (.delta index f)
          = some (f.thinking?, (some (addFragment q f).1, (addFragment q f).2)) := rfl
      rw [List.map_cons, Channels.runLocal_cons hreact, ih (addFragment q f)]
      rfl

omit [PyRuntime] in
theorem textOf_cons (kind : Fragment → Option PyStr) (f : Fragment) (fs : List Fragment) :
    textOf kind (f :: fs) = (kind f).getD [] ++ textOf kind fs := by
  unfold textOf
  cases h : kind f with
  | none => rw [List.filterMap_cons_none h]; rfl
  | some s => rw [List.filterMap_cons_some h]; rfl

theorem addFragments_thinking {fragments : List Fragment} : ∀ {t s buf : PyStr},
    (∀ f ∈ fragments, f.thinking?.isSome ∨ f.signature?.isSome) →
      fragments.foldl addFragment (Block.thinkingDict t s, buf)
        = (Block.thinkingDict (t ++ textOf Fragment.thinking? fragments)
            (s ++ textOf Fragment.signature? fragments), buf) := by
  induction fragments with
  | nil =>
      intro t s buf _
      show (Block.thinkingDict t s, buf) = (Block.thinkingDict (t ++ []) (s ++ []), buf)
      rw [List.append_nil, List.append_nil]
  | cons f fs ih =>
      intro t s buf h
      obtain ⟨hf, hfs⟩ := List.forall_mem_cons.1 h
      rw [textOf_cons, textOf_cons, List.foldl_cons]
      cases f with
      | thinking x =>
          have hadd : addFragment (Block.thinkingDict t s, buf) (.thinking x)
              = (Block.thinkingDict (t ++ x) s, buf) := rfl
          rw [hadd, ih hfs, List.append_assoc]
          rfl
      | signature x =>
          have hadd : addFragment (Block.thinkingDict t s, buf) (.signature x)
              = (Block.thinkingDict t (s ++ x), buf) := rfl
          rw [hadd, ih hfs, List.append_assoc]
          rfl
      | text x | inputJson x => rcases hf with hf | hf <;> cases hf

theorem addFragments_text {fragments : List Fragment} : ∀ {t buf : PyStr},
    (∀ f ∈ fragments, f.text?.isSome) →
      fragments.foldl addFragment (Block.textDict t, buf)
        = (Block.textDict (t ++ textOf Fragment.text? fragments), buf) := by
  induction fragments with
  | nil =>
      intro t buf _
      show (Block.textDict t, buf) = (Block.textDict (t ++ []), buf)
      rw [List.append_nil]
  | cons f fs ih =>
      intro t buf h
      obtain ⟨hf, hfs⟩ := List.forall_mem_cons.1 h
      rw [textOf_cons, List.foldl_cons]
      cases f with
      | text x =>
          have hadd : addFragment (Block.textDict t, buf) (.text x)
              = (Block.textDict (t ++ x), buf) := rfl
          rw [hadd, ih hfs, List.append_assoc]
          rfl
      | thinking x | signature x | inputJson x => cases hf

theorem addFragments_inputJson {fragments : List Fragment} : ∀ {block : Dict} {buf : PyStr},
    (∀ f ∈ fragments, f.inputJson?.isSome) →
      fragments.foldl addFragment (block, buf)
        = (block, buf ++ textOf Fragment.inputJson? fragments) := by
  induction fragments with
  | nil =>
      intro block buf _
      show (block, buf) = (block, buf ++ [])
      rw [List.append_nil]
  | cons f fs ih =>
      intro block buf h
      obtain ⟨hf, hfs⟩ := List.forall_mem_cons.1 h
      rw [textOf_cons, List.foldl_cons]
      cases f with
      | inputJson x =>
          show fs.foldl addFragment (block, buf ++ x) = _
          rw [ih hfs, List.append_assoc]
          rfl
      | thinking x | signature x | text x => cases hf

theorem parsedInput_serialises {s : PyStr} {input : Dict} (h : Serialises s input) :
    StreamAssembler.parsedInput s = .ok (.obj input) := by
  unfold StreamAssembler.parsedInput
  rcases h with h | ⟨rfl, rfl⟩
  · by_cases hs : s = []
    · subst hs
      cases h
    · rw [if_neg hs, h]
  · rfl

/-- The pieces of a block are added up to the block, and closing it parses its input. -/
theorem closeBlock_fragments {b : Block} {fragments : List Fragment} (h : b.Cut fragments) :
    closeBlock (fragments.foldl addFragment (b.opened, [])).1
      (fragments.foldl addFragment (b.opened, [])).2 = some b.dict := by
  cases b with
  | thinking t s =>
      obtain ⟨hkinds, rfl, rfl⟩ := h
      rw [Block.opened, addFragments_thinking hkinds]
      rfl
  | text t =>
      obtain ⟨hkinds, rfl⟩ := h
      rw [Block.opened, addFragments_text hkinds]
      rfl
  | toolUse id name input =>
      obtain ⟨hkinds, hserialises⟩ := h
      have htool : hasType toolUse (Block.toolUseDict id name (.obj [])) = true := rfl
      rw [Block.opened, addFragments_inputJson hkinds, closeBlock, if_pos htool, List.nil_append,
        parsedInput_serialises hserialises]
      rfl

/-- **A block alone**: its pieces are relayed and added up, and at the end the block is there. -/
theorem runLocal_block {b : Block} {fragments : List Fragment} (h : b.Cut fragments) :
    Channels.runLocal (react (.block index)) (none, []) (blockEvents index b fragments)
      = some (none :: (fragments.map Fragment.thinking? ++ [none]),
          (some b.dict, (fragments.foldl addFragment (b.opened, [])).2)) := by
  have hstart : react (.block index) (none, []) (.blockStart index b)
      = some (none, (some b.opened, [])) := rfl
  have hstop : Channels.runLocal (react (.block index))
      (some (fragments.foldl addFragment (b.opened, [])).1,
        (fragments.foldl addFragment (b.opened, [])).2) [.blockStop index]
      = some ([none], (some b.dict, (fragments.foldl addFragment (b.opened, [])).2)) := by
    simp only [Channels.runLocal, react, closeBlock_fragments h]
    rfl
  unfold blockEvents
  rw [Channels.runLocal_cons hstart,
    Channels.runLocal_append (runLocal_fragments fragments (b.opened, [])), hstop]
  rfl

theorem runLocal_message (m : Message) (first second : Dict) :
    Channels.runLocal (react .message) (.null, .null, [])
      [.messageStart m.model first, .messageDelta m.stopReason second, .messageStop]
      = some ([none, none, none], (optional m.model, optional m.stopReason,
          Dict.update (Dict.update [] first) second)) := by
  cases hstop : m.stopReason <;> rfl

theorem runLocal_idle (es : List StreamEvent) :
    (Channels.runLocal (react .idle) ⟨⟩ es).isSome = true := by
  induction es with
  | nil => rfl
  | cons e es ih =>
      have hreact : react .idle ⟨⟩ e = some (none, ⟨⟩) := rfl
      rw [Channels.runLocal_cons hreact, Option.isSome_map]
      exact ih

/-! ## The message -/

omit [PyRuntime] in
/-- A split usage is put together again. -/
theorem usage_of_split {usage first second : Dict} (h : UsageSplit usage first second)
    (husage : usage.Textual) : (Dict.update (Dict.update [] first) second).Perm usage := by
  have hfirst : (Dict.update [] first).Textual := textual_nil.update h.firstTextual.keys
  refine (hfirst.update h.secondTextual.keys).perm_of_get husage (fun key => ?_)
  rw [h.secondTextual.get_update, h.firstTextual.get_update, h.get]
  cases Dict.get second key <;> cases Dict.get first key <;> rfl

/-- The texts that were relayed, one after the other. -/
def relayed (texts : List (Option PyStr)) : PyStr := (texts.filterMap id).flatten

omit [PyRuntime] in
theorem relayed_block (fragments : List Fragment) :
    relayed (none :: (fragments.map Fragment.thinking? ++ [none]))
      = textOf Fragment.thinking? fragments := by
  unfold relayed textOf
  rw [List.filterMap_cons_none rfl, List.filterMap_append, List.filterMap_map]
  exact congrArg List.flatten (List.append_nil _)

/-- What the assembler holds of a message. -/
structure StreamAssembler.Holds (asm : StreamAssembler) (m : Message) : Prop where
  model : asm.model = optional m.model
  stopReason : asm.stopReason = optional m.stopReason
  usage : asm.usage.Perm m.usage
  blocks : asm.sortedBlocks = m.content.map Block.dict

omit [PyRuntime] in
theorem StreamAssembler.Holds.assembled {m : Message} (h : asm.Holds m) :
    asm.assembled = .obj (m.members asm.usage) := by
  unfold StreamAssembler.assembled Message.members
  rw [h.model, h.stopReason, h.blocks, List.map_map]
  rfl

omit [PyRuntime] in
theorem StreamAssembler.Holds.isObject {m : Message} (h : asm.Holds m) :
    m.IsObject (m.members asm.usage) := ⟨asm.usage, h.usage, List.Perm.refl _⟩

/-- Every channel of a stream that encodes a message can be taken. -/
theorem runLocal_encoded {m : Message} {es : List StreamEvent} (h : Encodes m es) (c : Channel) :
    (Channels.runLocal (react c) (held c .new) (Channels.own StreamEvent.channel c es)).isSome
      = true := by
  cases c with
  | message =>
      obtain ⟨first, second, _, hown⟩ := h.message
      rw [hown]
      exact Option.isSome_of_eq_some (runLocal_message m first second)
  | idle => exact runLocal_idle _
  | block index =>
      by_cases hindex : ∃ i : Nat, i < m.content.length ∧ index = i
      · obtain ⟨i, hi, rfl⟩ := hindex
        obtain ⟨fragments, hcut, hown⟩ := h.block i m.content[i] (List.getElem?_eq_getElem hi)
        rw [hown]
        exact Option.isSome_of_eq_some (runLocal_block hcut)
      · have hown := h.other index (fun i hi heq => hindex ⟨i, hi, heq⟩)
        rw [hown]
        rfl

/-- **The stream of a message is assembled to the message**, and the relayed texts of a thinking
    block are its text. -/
theorem feedEvents_encoded {m : Message} {es : List SentEvent} (husage : m.usage.Textual)
    (h : Encodes m (es.map SentEvent.event)) :
    ∃ texts asm, feedEvents .new (es.map (fun e => .obj e.object)) = .ok (texts, asm) ∧
      asm.Holds m ∧ ∀ (i : Nat) t s, m.content[i]? = some (.thinking t s) →
        relayed (Channels.ownOutputs (fun e => e.event.channel) (.block i) es texts) = t := by
  have hlocal : ∀ c, Channels.runLocal (react c) (held c .new)
      (Channels.own StreamEvent.channel c (es.map SentEvent.event))
      = Channels.runLocal (fun q e => react c q e.event) (held c .new)
        (Channels.own (fun e : SentEvent => e.event.channel) c es) := by
    intro c
    rw [Channels.own_map, Channels.runLocal_map]
  obtain ⟨texts, asm, hrun, hone, hslots⟩ := separate.run_interleaved (s := .new) List.nodup_nil
    (fun c => (hlocal c) ▸ runLocal_encoded h c)
  have hchannel : ∀ c, Channels.runLocal (react c) (held c .new)
      (Channels.own StreamEvent.channel c (es.map SentEvent.event))
      = some (Channels.ownOutputs (fun e => e.event.channel) c es texts, held c asm) :=
    fun c => (hlocal c).trans (hslots c)
  have hblock : ∀ (i : Nat) b, m.content[i]? = some b → ∃ fragments, b.Cut fragments ∧
      Channels.ownOutputs (fun e => e.event.channel) (.block i) es texts
        = none :: (fragments.map Fragment.thinking? ++ [none]) ∧
      lookup asm.blocks i = some b.dict := by
    intro i b hb
    obtain ⟨fragments, hcut, hown⟩ := h.block i b hb
    have hout := hchannel (.block i)
    rw [hown] at hout
    have heq := Option.some.inj ((runLocal_block hcut).symm.trans hout)
    exact ⟨fragments, hcut, (congrArg Prod.fst heq).symm,
      (congrArg (fun out => out.2.1) heq).symm⟩
  have hother : ∀ index : Int, (∀ i : Nat, i < (m.content.map Block.dict).length → index ≠ i) →
      lookup asm.blocks index = none := by
    intro index hindex
    rw [List.length_map] at hindex
    have hout := hchannel (.block index)
    rw [h.other index hindex] at hout
    exact (congrArg (fun out => out.2.1) (Option.some.inj hout)).symm
  obtain ⟨first, second, hsplit, hown⟩ := h.message
  have hmessage := hchannel .message
  rw [hown] at hmessage
  have heq := congrArg Prod.snd
    (Option.some.inj ((runLocal_message m first second).symm.trans hmessage))
  refine ⟨texts, asm, ?_, ⟨?_, ?_, ?_, ?_⟩, ?_⟩
  · unfold feedEvents
    rw [Channels.run_map]
    exact hrun
  · exact (congrArg Prod.fst heq).symm
  · exact (congrArg (fun q => q.2.1) heq).symm
  · have hasm : asm.usage = Dict.update (Dict.update [] first) second :=
      (congrArg (fun q => q.2.2) heq).symm
    rw [hasm]
    exact usage_of_split hsplit husage
  · refine sorted_entries hone (fun i value hvalue => ?_) hother
    rw [List.getElem?_map] at hvalue
    obtain ⟨b, hb, rfl⟩ := Option.map_eq_some_iff.1 hvalue
    obtain ⟨_, _, _, hlookup⟩ := hblock i b hb
    exact hlookup
  · intro i t s hb
    obtain ⟨fragments, hcut, hout, _⟩ := hblock i _ hb
    rw [hout, relayed_block]
    exact hcut.2.1

end Reaction

end RexHunter
