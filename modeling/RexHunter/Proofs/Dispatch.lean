import RexHunter.Implementation.Brain
import RexHunter.Proofs.Adapter
import RexHunter.Proofs.Tools

set_option autoImplicit false

/-! # Where a presented name leads

A name is presented by `build_tools`, then resolved twice: `parse_decision` compares it with the two
reserved names, `_run_tool` looks it up in the registry. The registry refuses a name it has already,
but not a reserved one. The theorem says that this is all that can go wrong. -/

namespace RexHunter

/-! ## The registry -/

section Registry

variable [PydanticModels]

/-- The registries that `ToolRegistry.tool` builds; a call that raises registers nothing. -/
inductive Built : List Tool → Prop where
  | empty : Built []
  | tool {tools tools' : List Tool} (fn : ToolFn) :
      Built tools → registerTool tools fn = .ok tools' → Built tools'

/-- What a registration adds. -/
theorem registerTool_ok {tools tools' : List Tool} {fn : ToolFn}
    (h : registerTool tools fn = .ok tools') :
    ∃ t, tools' = tools ++ [t] ∧ t.name ∉ tools.map Tool.name := by
  unfold registerTool at h
  cases hregistered : fromFunction fn with
  | error e =>
      rw [hregistered] at h
      cases h
  | ok t =>
      rw [hregistered] at h
      change (if _ then _ else _) = _ at h
      split at h
      · cases h
      · next hnew =>
          cases h
          refine ⟨t, rfl, fun hmem => hnew ?_⟩
          obtain ⟨other, hother, hname⟩ := List.mem_map.1 hmem
          exact List.any_eq_true.2 ⟨other, hother, decide_eq_true hname⟩

/-- The registered names are distinct. -/
theorem Built.nodup {tools : List Tool} (h : Built tools) : (tools.map Tool.name).Nodup := by
  induction h with
  | empty => exact List.nodup_nil
  | tool fn hbuilt htool ih =>
      obtain ⟨t, rfl, hnew⟩ := registerTool_ok htool
      rw [List.map_append, List.map_singleton, List.nodup_append]
      refine ⟨ih, List.nodup_singleton _, ?_⟩
      rintro name hname _ hlast rfl
      rw [List.mem_singleton.1 hlast] at hname
      exact hnew hname

/-- A registered name finds its tool. -/
theorem get_registered {tools : List Tool} (hnodup : (tools.map Tool.name).Nodup) {t : Tool}
    (ht : t ∈ tools) : ToolRegistry.get (tools.map Tool.registered) t.name = some t.registered := by
  induction tools with
  | nil => cases ht
  | cons other tools ih =>
      rw [List.map_cons, List.nodup_cons] at hnodup
      unfold ToolRegistry.get at ih ⊢
      rw [List.map_cons]
      rcases List.mem_cons.1 ht with rfl | ht
      · exact List.find?_cons_of_pos (decide_eq_true rfl)
      · have hne : other.name ≠ t.name :=
          fun heq => hnodup.1 (heq ▸ List.mem_map_of_mem ht)
        rw [List.find?_cons_of_neg (p := fun tool : RegisteredTool => decide (tool.name = t.name))
          (fun heq => hne (of_decide_eq_true heq))]
        exact ih hnodup.2 ht

end Registry

/-! ## The presented names -/

/-- The `name` of an entry. -/
def entryName (entry : Json) : Option PyStr :=
  match member entry "name" with
  | some (.str name) => some name
  | _ => none

/-- The names in a `tools` array. -/
def entryNames (entries : List Json) : List PyStr := entries.filterMap entryName

theorem entryName_toolEntry (name description : PyStr) (inputSchema : Json) :
    entryName (toolEntry name description inputSchema) = some name := by
  simp [entryName, member, toolEntry, object, Dict.get]

theorem entryNames_mapM {tools : List Tool} : ∀ {entries : List Json},
    tools.mapM (fun t => do
      let inputSchema ← t.inputSchema
      return toolEntry t.name t.fn.doc inputSchema) = .ok entries →
    entryNames entries = tools.map Tool.name := by
  induction tools with
  | nil =>
      intro entries h
      cases h
      rfl
  | cons t tools ih =>
      intro entries h
      rw [List.mapM_cons] at h
      cases hschema : t.inputSchema with
      | error e =>
          rw [hschema] at h
          cases h
      | ok schema =>
          cases hrest : tools.mapM (fun t => do
              let inputSchema ← t.inputSchema
              return toolEntry t.name t.fn.doc inputSchema) with
          | error e =>
              rw [hschema, hrest] at h
              cases h
          | ok rest =>
              rw [hschema, hrest] at h
              cases h
              unfold entryNames
              rw [List.filterMap_cons_some (entryName_toolEntry _ _ _), List.map_cons, ← ih hrest]
              rfl

/-- **The names that `build_tools` presents.** -/
theorem entryNames_buildTools [PydanticModels] {tools : List Tool} {entries : List Json}
    (h : buildTools tools = .ok entries) :
    entryNames entries = tools.map Tool.name ++ [huntComplete, needsHelp] := by
  unfold buildTools at h
  cases hmap : tools.mapM (fun t => do
      let inputSchema ← t.inputSchema
      return toolEntry t.name t.fn.doc inputSchema) with
  | error e =>
      rw [hmap] at h
      cases h
  | ok presented =>
      rw [hmap] at h
      cases h
      have hterminal : entryNames (terminalTools.map (fun t =>
          toolEntry t.1 t.2 (stripTitles (PydanticModels.terminalSchema t.1))))
          = [huntComplete, needsHelp] := by
        simp [entryNames, terminalTools, entryName_toolEntry]
      rw [← entryNames_mapM hmap, ← hterminal]
      exact List.filterMap_append

/-! ## Routing -/

section Routing

variable [PyRuntime] [PydanticModels]

/-- A response of the provider that calls a tool: a valid envelope with counts that are numbers and
    exactly one `tool_use` block. -/
structure CallsByName (raw : PyBytes) (name : PyStr) (args : Dict) (id : PyStr)
    (usage : Option UsageEvent) : Prop where
  read : ∃ response block type, readResponse raw = .ok response ∧
    extractUsage response = .ok usage ∧ response.content.filter (hasType toolUse) = [block] ∧
    validateBlock block = some ⟨type, id, name, args⟩

/-- What `parse_decision` makes of a call. -/
theorem CallsByName.parsed {raw : PyBytes} {name : PyStr} {args : Dict} {id : PyStr}
    {usage : Option UsageEvent} (h : CallsByName raw name args id usage) {decision : Decision}
    (hdecide : ∀ block type, validateBlock block = some ⟨type, id, name, args⟩ →
      decideBlock block usage = .ok decision) : parseDecision raw = .ok decision := by
  obtain ⟨response, block, type, hread, husage, hblocks, hblock⟩ := h.read
  simp only [parseDecision, hread, husage, decideResponse, hblocks, hdecide block type hblock]

/-- `_run_tool` once it has this tool and the values of its arguments. -/
def runHandler (h : Hunt) (runId : PyStr) (decision : ToolCallDecision) (t : Tool)
    (values : List Json) : Prog Bool := do
  let kwargs := t.argsModel.modelDump values
  let rawRequest ← attempt (t.registered.dumpJson kwargs)
  append h runId (.toolCall ⟨decision.tool, rawRequest, decision.toolUseId, decision.thinking⟩)
  attemptTool h runId decision t.registered kwargs rawRequest h.attempts

/-- A call of any presented name reaches the source of its entry. -/
structure Routes (tools : List Tool) : Prop where
  handler : ∀ t ∈ tools, ∀ raw args id usage values, CallsByName raw t.name args id usage →
    t.argsModel.modelValidate args = .ok values →
      parseDecision raw = .ok (.toolCall ⟨t.name, args, id, usage, []⟩) ∧
      ∀ (h : Hunt) (runId thinking), h.registry = tools.map Tool.registered →
        runTool h runId ⟨t.name, args, id, usage, thinking⟩ =
          runHandler h runId ⟨t.name, args, id, usage, thinking⟩ t values
  complete : ∀ raw args id usage catches, CallsByName raw huntComplete args id usage →
    validateComplete args = some catches → parseDecision raw = .ok (.huntComplete catches usage)
  help : ∀ raw args id usage, CallsByName raw needsHelp args id usage →
    parseDecision raw = .ok (.needsHelp usage)

theorem runTool_registered {tools : List Tool} (hnodup : (tools.map Tool.name).Nodup) {t : Tool}
    (ht : t ∈ tools) {args : Dict} {values : List Json}
    (hvalid : t.argsModel.modelValidate args = .ok values) (h : Hunt)
    (hregistry : h.registry = tools.map Tool.registered) (runId : PyStr) {decision : ToolCallDecision}
    (hname : decision.tool = t.name) (hargs : decision.args = args) :
    runTool h runId decision = runHandler h runId decision t values := by
  have hvalidate : t.registered.validate args = .ok (t.argsModel.modelDump values) :=
    congrArg (Except.map t.argsModel.modelDump) hvalid
  unfold runTool runHandler
  rw [hregistry, hname, get_registered hnodup ht, hargs]
  simp only [hvalidate]

omit [PyRuntime] in
/-- A terminal decision is found whatever is registered. -/
theorem decideBlock_terminal {block : Dict} {type id name : PyStr} {args : Dict}
    (usage : Option UsageEvent) (hblock : validateBlock block = some ⟨type, id, name, args⟩) :
    (name = huntComplete → ∀ catches, validateComplete args = some catches →
      decideBlock block usage = .ok (.huntComplete catches usage)) ∧
    (name = needsHelp → decideBlock block usage = .ok (.needsHelp usage)) := by
  constructor
  · rintro rfl catches hcatches
    simp only [decideBlock, hblock, if_pos, hcatches]
  · rintro rfl
    have hne : needsHelp ≠ huntComplete := by decide
    simp only [decideBlock, hblock, if_neg hne, if_pos]

/-- **When presented names are routed to what was presented.** Of a registry whose `tools` array can
    be built, the names are distinct and lead to their sources if and only if no registered tool has
    a reserved name. -/
theorem routes_iff {tools : List Tool} {entries : List Json} (hbuilt : Built tools)
    (hpresented : buildTools tools = .ok entries) :
    ((entryNames entries).Nodup ∧ Routes tools) ↔
      ∀ t ∈ tools, t.name ≠ huntComplete ∧ t.name ≠ needsHelp := by
  rw [entryNames_buildTools hpresented, List.nodup_append]
  constructor
  · rintro ⟨⟨_, _, hapart⟩, _⟩ t ht
    have hname := List.mem_map_of_mem (f := Tool.name) ht
    exact ⟨hapart _ hname _ (by simp), hapart _ hname _ (by simp)⟩
  · intro hfree
    refine ⟨⟨hbuilt.nodup, by decide, ?_⟩, ?_, ?_, ?_⟩
    · intro name hname reserved hreserved heq
      obtain ⟨t, ht, rfl⟩ := List.mem_map.1 hname
      rcases List.mem_cons.1 hreserved with h | h
      · exact (hfree t ht).1 (heq.trans h)
      · exact (hfree t ht).2 (heq.trans (List.mem_singleton.1 h))
    · intro t ht raw args id usage values hcalls hvalid
      refine ⟨hcalls.parsed (fun block type hblock => ?_), fun h runId thinking hregistry =>
        runTool_registered hbuilt.nodup ht hvalid h hregistry runId rfl rfl⟩
      simp only [decideBlock, hblock, if_neg (hfree t ht).1, if_neg (hfree t ht).2]
    · intro raw args id usage catches hcalls hcatches
      exact hcalls.parsed (fun block type hblock =>
        (decideBlock_terminal usage hblock).1 rfl catches hcatches)
    · intro raw args id usage hcalls
      exact hcalls.parsed (fun block type hblock => (decideBlock_terminal usage hblock).2 rfl)

end Routing

/-! ## Two registries -/

/-- The registry with the tool that fetches a posting. -/
theorem fetchPosting_routes : ∃ tools entries,
    @registerTool (@PydanticModels.plain .ascii) [] fetchPosting = .ok tools ∧
    @buildTools (@PydanticModels.plain .ascii) tools = .ok entries ∧
    (entryNames entries).Nodup ∧ @Routes .ascii (@PydanticModels.plain .ascii) tools := by
  have hregistered : @registerTool (@PydanticModels.plain .ascii) [] fetchPosting = .ok
      [⟨fetchPosting.name, fetchPosting, ⟨fetchPosting.name ++ py "_Args",
        [⟨py "board", strHint, ⟨none, none, false⟩⟩,
          ⟨py "page", strHint, ⟨some (.str (py "1")), none, false⟩⟩]⟩⟩] := rfl
  refine ⟨_, _, hregistered, rfl, ?_⟩
  exact (@routes_iff .ascii (@PydanticModels.plain .ascii) _ _
    (@Built.tool (@PydanticModels.plain .ascii) _ _ fetchPosting
      (@Built.empty (@PydanticModels.plain .ascii)) hregistered) rfl).2
    (List.forall_mem_singleton.2 ⟨by decide, by decide⟩)

/-- `async def needs_help(question: str)`. -/
def askForHelp : ToolFn where
  name := py "needs_help"
  isCoroutineFunction := true
  parameters := [⟨py "question", .positionalOrKeyword, some strHint, .empty⟩]
  doc := []
  body := fun _ _ => .ok (.value .null)
  names_nodup := List.nodup_singleton _

def askForHelpTool : Tool :=
  ⟨askForHelp.name, askForHelp,
    ⟨askForHelp.name ++ py "_Args", [⟨py "question", strHint, ⟨none, none, false⟩⟩]⟩⟩

/-- The arguments of a question. -/
def question : Dict := [(.str (py "question"), .str (py "which board?"))]

/-- The block of a response that calls the tool. -/
def questionBlock : Dict :=
  [(.str (py "type"), .str (py "tool_use")), (.str (py "id"), .str (py "t")),
    (.str (py "name"), .str (py "needs_help")), (.str (py "input"), .obj question)]

/-- The envelope of the response. -/
def questionEnvelope : Dict := [(.str (py "content"), .arr [.obj questionBlock])]

/-- `{"content": [{"type": "tool_use", "id": "t", "name": "needs_help", "input": {"question":
    "which board?"}}]}`. -/
def questionResponse : PyBytes :=
  (@Json.write .ascii (.obj questionEnvelope)).map (fun c => UInt8.ofNat c.val)

theorem questionResponse_calls : @CallsByName .ascii (@PydanticModels.plain .ascii) questionResponse
    needsHelp question (py "t") none := by
  have hreadable : @Json.Readable .ascii (@PyRuntime.recursionLimit .ascii)
      (@PyRuntime.maxStrDigits .ascii) (.obj questionEnvelope) :=
    @Json.Readable.mk .ascii _ _ _ (by decide +kernel) (by decide +kernel) (by decide +kernel)
  have hread : @Pydantic.readJson (@PydanticModels.plain .ascii).toPydantic questionResponse
      = .ok (.obj questionEnvelope) :=
    @readUtf8_spelled .ascii _ _ _ rfl (@spells_write .ascii _)
      (encode_of_isAscii (@isAscii_write .ascii _)) hreadable
  have hvalid : validateResponse (.obj questionEnvelope)
      = some ⟨none, [questionBlock], none, none⟩ := rfl
  have hresponse : @readResponse (@PydanticModels.plain .ascii).toPydantic questionResponse
      = .ok ⟨none, [questionBlock], none, none⟩ := by
    simp only [readResponse, hread, hvalid]
  exact @CallsByName.mk .ascii (@PydanticModels.plain .ascii) _ _ _ _ _
    ⟨_, _, _, hresponse, rfl, rfl, rfl⟩

/-- The registry accepts the tool and `build_tools` presents its name twice; a response that calls it
    with arguments it accepts is a request for help. -/
theorem needsHelp_shadows :
    @registerTool (@PydanticModels.plain .ascii) [] askForHelp = .ok [askForHelpTool] ∧
    (∃ entries, @buildTools (@PydanticModels.plain .ascii) [askForHelpTool] = .ok entries ∧
      entryNames entries = [needsHelp, huntComplete, needsHelp]) ∧
    @ArgsModel.modelValidate (@PydanticModels.plain .ascii) askForHelpTool.argsModel question
      = .ok [.str (py "which board?")] ∧
    @CallsByName .ascii (@PydanticModels.plain .ascii) questionResponse askForHelpTool.name question
      (py "t") none ∧
    @parseDecision .ascii (@PydanticModels.plain .ascii).toPydantic questionResponse
      = .ok (.needsHelp none) := by
  refine ⟨rfl, ?_, rfl, questionResponse_calls, ?_⟩
  · refine ⟨_, rfl, ?_⟩
    exact @entryNames_buildTools (@PydanticModels.plain .ascii) [askForHelpTool] _ rfl
  · exact @CallsByName.parsed .ascii (@PydanticModels.plain .ascii) _ _ _ _ _ questionResponse_calls _
      (fun _ _ hblock => (@decideBlock_terminal (@PydanticModels.plain .ascii) _ _ _ _ _ _ hblock).2 rfl)

end RexHunter
