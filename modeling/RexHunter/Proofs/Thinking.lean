import RexHunter.Proofs.Adapter

set_option autoImplicit false

/-! # The thinking block of a decision

Only a streamed tool call carries thinking: the bytes of the first `thinking` block of the message
that was assembled. The message is written and read back on the way, so the block is one that
`json.loads` has built, and it can be read from its bytes again. -/

namespace RexHunter

/-- `block.get("type") == "thinking"`. -/
def isThinking : Json → Bool
  | .obj block => hasType (py "thinking") block
  | _ => false

section Reading

variable [PyRuntime]

/-- The content blocks of a message, as `_extract_thinking_block` goes through them. -/
def contentBlocks (raw : PyBytes) : Except PyExc (List Json) := do
  let v ← loadsBytes raw
  let response ← asDict v
  iterate ((response.get (py "content")).getD (.arr []))

/-- The bytes of the first of these blocks, if there is one. -/
def Leads (thinking : PyBytes) : List Json → Prop
  | [] => thinking = []
  | block :: _ => dumpsBytes block = .ok thinking

theorem extractThinkingBlock_eq (raw : PyBytes) :
    extractThinkingBlock raw = contentBlocks raw >>= firstThinking := by
  unfold extractThinkingBlock contentBlocks
  simp only [bind_assoc]

theorem firstThinking_leads {items : List Json} {thinking : PyBytes}
    (h : firstThinking items = .ok thinking) : Leads thinking (items.filter isThinking) := by
  induction items with
  | nil =>
      cases h
      rfl
  | cons v items ih =>
      cases v with
      | obj block =>
          have hstep : (if hasType (py "thinking") block then dumpsBytes (.obj block)
            else firstThinking items) = .ok thinking := h
          by_cases htype : hasType (py "thinking") block = true
          · rw [if_pos htype] at hstep
            rw [List.filter_cons_of_pos (by exact htype)]
            exact hstep
          · rw [if_neg htype] at hstep
            rw [List.filter_cons_of_neg (by exact htype)]
            exact ih hstep
      | null | bool | int | float | str | arr => cases h

/-- The content of an assembled message was written and read back. -/
theorem contentBlocks_written {asm : StreamAssembler}
    (hfault : asm.assembled.fault PyRuntime.recursionLimit = none) :
    contentBlocks asm.written = .ok (Json.rereadItems (asm.sortedBlocks.map .obj)) := by
  obtain ⟨d, hd, hcontent⟩ := content_reread asm
  unfold contentBlocks
  rw [loadsBytes_written hfault, hd]
  change iterate ((d.get (py "content")).getD (.arr [])) = _
  rw [hcontent]
  rfl

theorem mem_rereadItems {blocks : List Dict} {v : Json}
    (h : v ∈ Json.rereadItems (blocks.map .obj)) :
    ∃ block : Dict, v = .obj (Json.rereadEntries [] block) := by
  induction blocks with
  | nil => cases h
  | cons block blocks ih =>
      rcases List.mem_cons.1 h with rfl | h
      · exact ⟨block, rfl⟩
      · exact ih h

/-- A thinking block that was read can be read again from what is written for it. -/
theorem loadsBytes_thinking {v : Json} {thinking : PyBytes} (htype : isThinking v = true)
    (h : dumpsBytes v = .ok thinking) : loadsBytes thinking = .ok v.reread := by
  obtain ⟨hfault, rfl⟩ := dumpsBytes_ok h
  cases v with
  | obj block =>
      cases block with
      | nil => cases htype
      | cons e entries => exact loadsBytes_object hfault
  | null | bool | int | float | str | arr => cases htype

theorem thinking_ne_nil {v : Json} {thinking : PyBytes} (htype : isThinking v = true)
    (h : dumpsBytes v = .ok thinking) : thinking ≠ [] := by
  obtain ⟨-, rfl⟩ := dumpsBytes_ok h
  cases v with
  | obj block =>
      cases block with
      | nil => cases htype
      | cons e entries => cases entries <;> exact nofun
  | null | bool | int | float | str | arr => cases htype

variable [Pydantic]

/-- The boundary itself sets no thinking. -/
theorem parseDecision_thinking {raw : PyBytes} {d : ToolCallDecision}
    (h : parseDecision raw = .ok (.toolCall d)) : d.thinking = [] := by
  unfold parseDecision at h
  split at h
  · cases h
  split at h
  · cases h
  split at h
  · next hdecide =>
      cases h
      unfold decideResponse at hdecide
      split at hdecide
      · unfold decideBlock at hdecide
        split at hdecide
        · cases hdecide
        split at hdecide
        · split at hdecide <;> cases hdecide
        split at hdecide
        · cases hdecide
        · cases hdecide
          rfl
      · cases hdecide
  · cases h

/-- **The thinking of a tool call** is that of the assembled message, and there is none without a
    stream. -/
theorem verdict_thinking {stream : Bool} {response : Response} {d : ToolCallDecision}
    (h : verdict stream response = .ok (.toolCall d)) :
    (stream = false ∧ d.thinking = []) ∨ (stream = true ∧ ∃ blocks : List Dict,
      contentBlocks (payload true response) = .ok (Json.rereadItems (blocks.map .obj)) ∧
      Leads d.thinking ((Json.rereadItems (blocks.map .obj)).filter isThinking)) := by
  cases hstatus : response.isSuccess with
  | false =>
      rw [verdict_failed hstatus] at h
      cases h
  | true =>
      cases stream with
      | false =>
          rw [verdict_plain hstatus] at h
          exact Or.inl ⟨rfl, parseDecision_thinking (mapError_ok h)⟩
      | true =>
          rw [verdict_stream hstatus] at h
          obtain ⟨-, -, hfault, hparse⟩ := streamed_ok (mapError_ok h)
          have hcontent := contentBlocks_written hfault
          refine Or.inr ⟨rfl, _, hcontent, ?_⟩
          unfold parseStreamed at hparse
          split at hparse
          · cases hparse
          · split at hparse
            · next hthinking =>
                cases hparse
                rw [extractThinkingBlock_eq, hcontent] at hthinking
                exact firstThinking_leads hthinking
            · cases hparse
          · next hnot hdecision =>
              cases hparse
              exact absurd rfl (hnot _)

/-- The thinking of a decision is empty, or a thinking block is read from it. -/
theorem verdict_block {stream : Bool} {response : Response} {d : ToolCallDecision}
    (h : verdict stream response = .ok (.toolCall d)) :
    d.thinking = [] ∨ ∃ block : Dict, block.Textual ∧ hasType (py "thinking") block = true ∧
      loadsBytes d.thinking = .ok (Json.obj block).reread := by
  rcases verdict_thinking h with ⟨-, hnone⟩ | ⟨-, blocks, -, hleads⟩
  · exact Or.inl hnone
  · cases hfilter : (Json.rereadItems (blocks.map .obj)).filter isThinking with
    | nil =>
        rw [hfilter] at hleads
        exact Or.inl hleads
    | cons v rest =>
        rw [hfilter] at hleads
        have hv : v ∈ (Json.rereadItems (blocks.map .obj)).filter isThinking := by
          rw [hfilter]
          exact List.mem_cons_self
        obtain ⟨hmem, htype⟩ := List.mem_filter.1 hv
        obtain ⟨block, rfl⟩ := mem_rereadItems hmem
        exact Or.inr ⟨_, textual_rereadEntries block textual_nil, htype,
          loadsBytes_thinking htype hleads⟩

end Reading

end RexHunter
