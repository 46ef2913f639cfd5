import RexHunter.Implementation.Codec
import RexHunter.Lib.CompactJson
import RexHunter.Proofs.Adapter
import RexHunter.Proofs.Reading

set_option autoImplicit false

/-! # The codec of the events

Every class of events is a record whose fields are read back from what is written for them, so an
event is read back from its text by its own class; the tag in the text leads the union to it. Only an
int can be written and then not read: a usage takes whatever `int` makes of a count, and pydantic
writes it at any length but reads it up to a limit. In the other direction the class of what was
read, its required fields and the absence of others are read off the record that was validated. -/

namespace RexHunter

/-! ## Fields -/

theorem bytesOfText_encode (b : PyBytes) :
    bytesOfText (Base64.encode Base64.urlSafe b) = some b := by
  unfold bytesOfText
  rw [Base64.decode_encode]

theorem ofValue_value (v : Verdict) : Verdict.ofValue v.value = some v := by
  cases v with
  | feast | release | amber | reenter => rfl

theorem isScalar_write (v : FieldValue) : v.write.isScalar = true := by
  cases v with
  | none | str | bytes | bool | int | verdict => rfl

section Fields

variable [PydanticJson]

theorem read_str (s : PyStr) :
    fieldCodec.read .str (fieldCodec.write (.str s)) = some (.str s) := rfl

theorem read_bytes (b : PyBytes) :
    fieldCodec.read .bytes (fieldCodec.write (.bytes b)) = some (.bytes b) := by
  show (bytesOfText (Base64.encode Base64.urlSafe b)).map FieldValue.bytes = _
  rw [bytesOfText_encode]
  rfl

theorem read_bool (b : Bool) :
    fieldCodec.read .bool (fieldCodec.write (.bool b)) = some (.bool b) := by
  show (PydanticJson.readBool (.bool b)).map FieldValue.bool = _
  rw [PydanticJson.readBool_bool]
  rfl

theorem read_int (i : Int) :
    fieldCodec.read .int (fieldCodec.write (.int i)) = some (.int i) := by
  show (PydanticJson.readInt (.int i)).map FieldValue.int = _
  rw [PydanticJson.readInt_int]
  rfl

theorem read_verdict (v : Verdict) :
    fieldCodec.read .verdict (fieldCodec.write (.verdict v)) = some (.verdict v) := by
  show (Verdict.ofValue v.value).map FieldValue.verdict = _
  rw [ofValue_value]
  rfl

theorem read_ofStr (s : Option PyStr) :
    fieldCodec.read (.optional .str) (fieldCodec.write (.ofStr s)) = some (.ofStr s) := by
  cases s with
  | none | some => rfl

theorem read_ofBytes (b : Option PyBytes) :
    fieldCodec.read (.optional .bytes) (fieldCodec.write (.ofBytes b)) = some (.ofBytes b) := by
  cases b with
  | none => rfl
  | some b => exact read_bytes b

theorem read_literal (s : PyStr) :
    fieldCodec.read (.literal s) (fieldCodec.write (.str s)) = some (.str s) := by
  show (if s = s then some (FieldValue.str s) else none) = _
  rw [if_pos rfl]

/-! ## Classes -/

/-- The values are those of an event of the class. -/
def EventClass.Fits {E : Type} (c : EventClass E) (values : List FieldValue) : Prop :=
  RecordType.Fits fieldCodec c.fields values

theorem TrajectoryEvent.fits (e : TrajectoryEvent) : e.eventClass.Fits e.values := by
  cases e with
  | sniff e => exact .cons (read_str _) .nil
  | toolCall e =>
      exact .cons (read_str _) (.cons (read_bytes _) (.cons (read_str _) (.cons (read_bytes _) .nil)))
  | toolResult e =>
      exact .cons (read_str _) (.cons (read_bytes _) (.cons (read_bytes _) (.cons (read_str _) .nil)))
  | error e =>
      exact .cons (read_str _) (.cons (read_bool _) (.cons (read_str _) (.cons (read_bytes _)
        (.cons (read_ofBytes _) (.cons (read_ofStr _) .nil)))))
  | preyCaptured e => exact .cons (read_str _) (.cons (read_str _) (.cons (read_bytes _) .nil))
  | usage e => exact .cons (read_str _) (.cons (read_int _) (.cons (read_int _) .nil))
  | thinkingDelta e => exact .cons (read_str _) .nil

theorem VerdictEvent.fits (e : VerdictEvent) : verdictEvent.Fits e.values :=
  .cons (read_str _) (.cons (read_verdict _) (.cons (read_ofStr _) (.cons (read_ofStr _) .nil)))

end Fields

theorem optionalBytes_ofBytes (b : Option PyBytes) :
    (FieldValue.ofBytes b).optionalBytes = some b := by
  cases b with
  | none | some => rfl

theorem optionalStr_ofStr (s : Option PyStr) : (FieldValue.ofStr s).optionalStr = some s := by
  cases s with
  | none | some => rfl

/-- The event with the values of the event. -/
theorem TrajectoryEvent.construct_values (e : TrajectoryEvent) :
    e.eventClass.construct e.values = some e := by
  cases e with
  | error e =>
      simp only [eventClass, errorEvent, values, optionalBytes_ofBytes, optionalStr_ofStr,
        Option.bind_eq_bind, Option.bind_some, Option.pure_def]
  | _ => rfl

theorem VerdictEvent.construct_values (e : VerdictEvent) :
    verdictEvent.construct e.values = some e := by
  simp only [verdictEvent, values, optionalStr_ofStr, Option.bind_eq_bind, Option.bind_some,
    Option.pure_def]

/-- A class of the union constructs its own events only. -/
theorem eventClass_of_construct {c : EventClass TrajectoryEvent} (hc : c ∈ trajectoryEvents)
    {values : List FieldValue} {e : TrajectoryEvent} (h : c.construct values = some e) :
    e.eventClass = c := by
  simp only [trajectoryEvents, List.mem_cons, List.not_mem_nil, or_false] at hc
  rcases hc with rfl | rfl | rfl | rfl | rfl | rfl | rfl
  case inr.inr.inr.inl =>
    simp only [errorEvent] at h
    split at h
    · obtain ⟨rawResponse, _, h⟩ := Option.bind_eq_some_iff.1 h
      obtain ⟨detail, _, h⟩ := Option.bind_eq_some_iff.1 h
      cases h
      rfl
    · cases h
  all_goals
    simp only [sniffEvent, toolCallEvent, toolResultEvent, preyCapturedEvent, usageEvent,
      thinkingDelta] at h
    split at h
    · cases h
      rfl
    · cases h

theorem names_nodup : ∀ c ∈ trajectoryEvents, (c.model.map RecordField.name).Nodup := by
  decide +kernel

theorem verdictEvent_names_nodup : (verdictEvent.model.map RecordField.name).Nodup := by
  decide +kernel

theorem TrajectoryEvent.eventClass_mem (e : TrajectoryEvent) : e.eventClass ∈ trajectoryEvents := by
  cases e <;> simp [trajectoryEvents, eventClass]

/-- The tags of the union are different. -/
theorem find_eventClass (e : TrajectoryEvent) :
    trajectoryEvents.find? (fun c => decide (c.type = e.eventClass.type)) = some e.eventClass := by
  cases e with
  | sniff | toolCall | toolResult | error | preyCaptured | usage | thinkingDelta => rfl

section Boundary

variable [PydanticJson] {E : Type} {c : EventClass E} {values : List FieldValue} {payload : PyStr}

theorem EventClass.Fits.model (h : c.Fits values) :
    RecordType.Fits fieldCodec c.model (.str c.type :: values) :=
  .cons (read_literal c.type) h

/-! ## Round trip -/

theorem EventClass.validate_dict (hnames : (c.model.map RecordField.name).Nodup)
    (h : c.Fits values) : c.validate (c.dict values) = c.construct values := by
  unfold EventClass.validate EventClass.dict
  rw [RecordType.validate_dump hnames h.model]

theorem get_type_dict (hnames : (c.model.map RecordField.name).Nodup) (values : List FieldValue) :
    Dict.get (c.dict values) (py "type") = some (.str c.type) := by
  have htag : (⟨py "type", .literal c.type, some (.str c.type)⟩, .str c.type)
      ∈ c.model.zip (FieldValue.str c.type :: values) := List.mem_cons_self
  exact RecordType.get_dump hnames htag

theorem written_of_modelDumpJson (h : c.modelDumpJson values = .ok payload) :
    PydanticJson.writeJson (c.dict values) = some payload := by
  unfold EventClass.modelDumpJson at h
  split at h
  · next hwrite =>
      cases h
      exact hwrite
  · cases h

/-- The text of an event is that of its object, if the reader takes its ints. -/
theorem readPayload_modelDumpJson (hnames : (c.model.map RecordField.name).Nodup)
    (h : c.modelDumpJson values = .ok payload)
    (hints : (Json.obj (c.dict values)).intsWithin Pydantic.intChars = true) :
    readPayload payload = some (.obj (c.dict values)) := by
  have hflat : Dict.Flat (c.dict values) := RecordType.flat_dump hnames isScalar_write
  obtain ⟨raw, hencode, hread⟩ :=
    PydanticJson.read_writeJson _ _ hflat (written_of_modelDumpJson h) hints
  unfold readPayload
  rw [hencode]
  simp only [hread]

/-- Otherwise it is the text of nothing. -/
theorem readPayload_unread (hnames : (c.model.map RecordField.name).Nodup)
    (h : c.modelDumpJson values = .ok payload)
    (hints : (Json.obj (c.dict values)).intsWithin Pydantic.intChars = false) :
    readPayload payload = none := by
  have hflat : Dict.Flat (c.dict values) := RecordType.flat_dump hnames isScalar_write
  obtain ⟨raw, detail, hencode, hread⟩ :=
    PydanticJson.unread_writeJson _ _ hflat (written_of_modelDumpJson h) hints
  unfold readPayload
  rw [hencode]
  simp only [hread]

/-- Written out, the counts of the event have no more characters than the reader takes. Only a usage
    has counts. -/
def TrajectoryEvent.CountsRead (e : TrajectoryEvent) : Prop :=
  ∀ usage, e.usage? = some usage →
    (intRepr usage.inputTokens).length ≤ Pydantic.intChars ∧
      (intRepr usage.outputTokens).length ≤ Pydantic.intChars

/-- The counts are the only ints in the object of an event. -/
theorem TrajectoryEvent.intsWithin_dict (e : TrajectoryEvent) :
    (Json.obj (e.eventClass.dict e.values)).intsWithin Pydantic.intChars = true ↔
      e.CountsRead := by
  cases e with
  | usage u =>
      show (true && (true && (decide ((intRepr u.inputTokens).length ≤ Pydantic.intChars) &&
        (decide ((intRepr u.outputTokens).length ≤ Pydantic.intChars) && true)))) = true ↔ _
      simp [CountsRead, usage?]
  | error e =>
      obtain ⟨tool, retryable, error, rawRequest, rawResponse, detail⟩ := e
      refine iff_of_true ?_ (fun _ => nofun)
      cases rawResponse <;> cases detail <;> rfl
  | sniff | toolCall | toolResult | preyCaptured | thinkingDelta =>
      exact iff_of_true rfl (fun _ => nofun)

theorem VerdictEvent.intsWithin_dict (e : VerdictEvent) :
    (Json.obj (verdictEvent.dict e.values)).intsWithin Pydantic.intChars = true := by
  obtain ⟨preyId, verdict, reason, provenance⟩ := e
  cases reason <;> cases provenance <;> rfl

/-- **What was written of an event is the event to `decode_event`, if it reads the counts.** -/
theorem decodeEvent_modelDumpJson {e : TrajectoryEvent} (h : e.modelDumpJson = .ok payload)
    (hcounts : e.CountsRead) : decodeEvent payload = .ok e := by
  have hnames := names_nodup e.eventClass e.eventClass_mem
  have hvalidate : validateEvent (.obj (e.eventClass.dict e.values)) = some e := by
    unfold validateEvent
    simp only [get_type_dict hnames e.values, find_eventClass e]
    rw [EventClass.validate_dict hnames e.fits, e.construct_values]
  unfold decodeEvent
  rw [readPayload_modelDumpJson hnames h (e.intsWithin_dict.2 hcounts), Option.bind_some, hvalidate]

/-- What was written of any other event is not decoded. -/
theorem decodeEvent_unread {e : TrajectoryEvent} (h : e.modelDumpJson = .ok payload)
    (hcounts : ¬ e.CountsRead) :
    decodeEvent payload = .error (.validationError (PydanticJson.eventError payload)) := by
  have hnames := names_nodup e.eventClass e.eventClass_mem
  have hints := Bool.eq_false_iff.2 (fun hints => hcounts (e.intsWithin_dict.1 hints))
  unfold decodeEvent
  rw [readPayload_unread hnames h hints]
  rfl

theorem decodeEvent_iff {e : TrajectoryEvent} (h : e.modelDumpJson = .ok payload) :
    decodeEvent payload = .ok e ↔ e.CountsRead := by
  refine ⟨fun hdecode => ?_, decodeEvent_modelDumpJson h⟩
  by_contra hcounts
  rw [decodeEvent_unread h hcounts] at hdecode
  cases hdecode

theorem decodeVerdictEvent_modelDumpJson {e : VerdictEvent} (h : e.modelDumpJson = .ok payload) :
    decodeVerdictEvent payload = .ok e := by
  have hvalidate : validateVerdictEvent (.obj (verdictEvent.dict e.values)) = some e := by
    unfold validateVerdictEvent
    exact (EventClass.validate_dict verdictEvent_names_nodup e.fits).trans e.construct_values
  unfold decodeVerdictEvent
  rw [readPayload_modelDumpJson verdictEvent_names_nodup h e.intsWithin_dict, Option.bind_some,
    hvalidate]

theorem encodable_of_modelDumpJson (hfits : c.Fits values)
    (h : c.modelDumpJson values = .ok payload) {s : PyStr} (hs : .str s ∈ values) :
    encodable s = true :=
  RecordType.surrogateFree_values hfits.model
    (PydanticJson.surrogateFree_writeJson _ _ (written_of_modelDumpJson h)) (.str s)
    (List.mem_cons_of_mem _ hs)

/-- Only an event with Unicode text has a text, as the writer of the log assumes. -/
theorem TrajectoryEvent.dumpable_of_modelDumpJson {e : TrajectoryEvent}
    (h : e.modelDumpJson = .ok payload) : e.dumpable = true := by
  have htexts : ∀ s ∈ e.texts, FieldValue.str s ∈ e.values := by
    cases e with
    | error e =>
        obtain ⟨tool, retryable, error, rawRequest, rawResponse, detail⟩ := e
        cases detail <;> simp [texts, values, FieldValue.ofStr]
    | _ => simp [texts, values]
  exact List.all_eq_true.2 (fun s hs => encodable_of_modelDumpJson e.fits h (htexts s hs))

/-! ## What is accepted -/

/-- The object has the tag of the class, all its required fields, and no field that the class does
    not have. -/
structure EventClass.Admits (c : EventClass E) (d : Dict) : Prop where
  type : Dict.get d (py "type") = some (.str c.type)
  required : ∀ f ∈ c.fields, f.default = none → (Dict.get d f.name).isSome = true
  known : ∀ entry ∈ d, ∃ f ∈ c.model, entry.1 = .str f.name

/-- The object that the union accepts is one of the class of the event. -/
theorem admits_of_validateEvent {v : Json} {e : TrajectoryEvent} (h : validateEvent v = some e) :
    ∃ d, v = .obj d ∧ e.eventClass.Admits d := by
  unfold validateEvent at h
  split at h
  · next d =>
      split at h
      · next type htype =>
          split at h
          · next c hfind =>
              have hc := List.mem_of_find?_eq_some hfind
              have hctype := List.find?_some hfind
              rw [decide_eq_true_eq] at hctype
              unfold EventClass.validate at h
              split at h
              · next first values hvalidate =>
                  refine ⟨d, rfl, ?_⟩
                  rw [eventClass_of_construct hc h]
                  refine ⟨by rw [htype, hctype], fun f hf => ?_, RecordType.validate_known hvalidate⟩
                  exact RecordType.validate_required hvalidate f (List.mem_cons_of_mem _ hf)
              · cases h
          · cases h
      · cases h
  · cases h

theorem admits_of_decodeEvent {e : TrajectoryEvent} (h : decodeEvent payload = .ok e) :
    ∃ d, readPayload payload = some (.obj d) ∧ e.eventClass.Admits d := by
  unfold decodeEvent at h
  split at h
  · next e' hvalidate =>
      cases h
      obtain ⟨v, hread, hv⟩ := Option.bind_eq_some_iff.1 hvalidate
      obtain ⟨d, rfl, hadmits⟩ := admits_of_validateEvent hv
      exact ⟨d, hread, hadmits⟩
  · cases h

theorem decodeEvent_total (payload : PyStr) : (∃ e, decodeEvent payload = .ok e) ∨
    ∃ detail, decodeEvent payload = .error (.validationError detail) := by
  unfold decodeEvent
  split
  · exact Or.inl ⟨_, rfl⟩
  · exact Or.inr ⟨_, rfl⟩

/-- **The event codec.** An event that has a text is decoded from it if and only if the reader takes
    its counts, and a verdict always; a payload is decoded only to the class its tag names, from an
    object with all required fields and no others, and raises otherwise. -/
theorem events_round_trip :
    (∀ (e : TrajectoryEvent) (payload : PyStr), e.modelDumpJson = .ok payload →
      (decodeEvent payload = .ok e ↔ e.CountsRead)) ∧
    (∀ (e : VerdictEvent) (payload : PyStr),
      e.modelDumpJson = .ok payload → decodeVerdictEvent payload = .ok e) ∧
    ∀ payload : PyStr,
      (∀ e, decodeEvent payload = .ok e →
        ∃ d, readPayload payload = some (.obj d) ∧ e.eventClass.Admits d) ∧
      ((∀ d, readPayload payload = some (.obj d) → ∀ c ∈ trajectoryEvents, ¬ c.Admits d) →
        ∃ detail, decodeEvent payload = .error (.validationError detail)) := by
  refine ⟨fun _ _ => decodeEvent_iff, fun _ _ => decodeVerdictEvent_modelDumpJson,
    fun payload => ⟨fun _ => admits_of_decodeEvent, fun hnone => ?_⟩⟩
  rcases decodeEvent_total payload with ⟨e, he⟩ | hraises
  · obtain ⟨d, hread, hadmits⟩ := admits_of_decodeEvent he
    exact absurd hadmits (hnone d hread e.eventClass e.eventClass_mem)
  · exact hraises

end Boundary

/-! ## A pydantic to write with -/

section Plain

variable [PyRuntime] {d : Dict}

theorem recursionLimit_ne_zero
    (h : (Json.obj d).fault PyRuntime.recursionLimit ≠ some .recursionError) :
    PyRuntime.recursionLimit ≠ 0 := by
  intro hzero
  rw [hzero] at h
  exact h rfl

/-- The compact text of a flat object is read if its ints are not too long. -/
theorem readUtf8_compact (hflat : d.Flat) (hfree : Json.surrogateFreeEntries d = true)
    (h : (Json.obj d).fault PyRuntime.recursionLimit ≠ some .recursionError) :
    ∃ raw, encode (Json.obj d).compact = some raw ∧
      ((Json.obj d).intsWithin PyRuntime.maxStrDigits = true → readUtf8 raw = .ok (.obj d)) ∧
      ((Json.obj d).intsWithin PyRuntime.maxStrDigits = false →
        readUtf8 raw = .error (py "Invalid JSON")) := by
  have hencode : encode (Json.obj d).compact = some ((Json.obj d).compact.flatMap CodePoint.utf8) :=
    if_pos (encodable_compact (v := .obj d) hfree)
  have hreadable := hflat.readable_iff hfree (recursionLimit_ne_zero h)
  have hspells := spells_compact hflat hfree
  have hreread := hflat.reread hfree
  refine ⟨_, hencode, fun hints => ?_, fun hints => ?_⟩
  · exact readUtf8_spelled hreread hspells hencode (hreadable.2 hints)
  · refine readUtf8_unreadable hreread hspells hencode (fun hread => ?_)
    exact Bool.eq_false_iff.1 hints (hreadable.1 hread)

end Plain

/-- A pydantic that writes compact JSON, and converts nothing. -/
@[reducible] def PydanticJson.plain [PyRuntime] : PydanticJson where
  toPydantic := Pydantic.plain
  writeJson := fun d =>
    if Json.surrogateFreeEntries d = true ∧
        (Json.obj d).fault PyRuntime.recursionLimit ≠ some .recursionError then
      some (Json.obj d).compact
    else none
  readBool := fun v => match v with
    | .bool b => some b
    | _ => none
  readInt := fun v => match v with
    | .int i => some i
    | _ => none
  eventError := fun _ => py "validation error for tagged-union"
  verdictEventError := fun _ => py "validation error for VerdictEvent"
  surrogateFree_writeJson := by
    intro d s h
    split at h
    · next hd => exact hd.1
    · cases h
  read_writeJson := by
    intro d s hflat h hints
    split at h
    · next hd =>
        cases h
        obtain ⟨raw, hencode, hread, _⟩ := readUtf8_compact hflat hd.1 hd.2
        exact ⟨raw, hencode, hread hints⟩
    · cases h
  unread_writeJson := by
    intro d s hflat h hints
    split at h
    · next hd =>
        cases h
        obtain ⟨raw, hencode, _, hread⟩ := readUtf8_compact hflat hd.1 hd.2
        exact ⟨raw, _, hencode, hread hints⟩
    · cases h
  readBool_bool := fun _ => rfl
  readInt_int := fun _ => rfl

/-- Every event of Unicode text has a text. -/
theorem plain_modelDumpJson [PyRuntime] {E : Type} {c : EventClass E} {values : List FieldValue}
    (hnames : (c.model.map RecordField.name).Nodup)
    (hfree : Json.surrogateFreeEntries (@EventClass.dict PydanticJson.plain E c values) = true)
    (hlimit : PyRuntime.recursionLimit ≠ 0) :
    @EventClass.modelDumpJson PydanticJson.plain E c values
      = .ok (Json.obj (@EventClass.dict PydanticJson.plain E c values)).compact := by
  have hflat : Dict.Flat (@EventClass.dict PydanticJson.plain E c values) :=
    RecordType.flat_dump hnames isScalar_write
  have hwrite : PydanticJson.plain.writeJson (@EventClass.dict PydanticJson.plain E c values)
      = some (Json.obj (@EventClass.dict PydanticJson.plain E c values)).compact :=
    if_pos ⟨hfree, hflat.fault_ne hlimit⟩
  unfold EventClass.modelDumpJson
  rw [hwrite]

/-- A tool result whose response is no UTF-8. -/
def binaryResult : TrajectoryEvent :=
  .toolResult ⟨py "f", [0x7B, 0x7D], [0x00, 0xFF, 0xFE], []⟩

/-- A release, with its reason. -/
def releaseVerdict : VerdictEvent := ⟨py "p", .release, some (py "too far"), none⟩

theorem binaryResult_round_trip :
    (∃ payload, @TrajectoryEvent.modelDumpJson (@PydanticJson.plain .ascii) binaryResult
      = .ok payload ∧ @decodeEvent (@PydanticJson.plain .ascii) payload = .ok binaryResult) ∧
    (∃ payload, @VerdictEvent.modelDumpJson (@PydanticJson.plain .ascii) releaseVerdict
      = .ok payload ∧
      @decodeVerdictEvent (@PydanticJson.plain .ascii) payload = .ok releaseVerdict) := by
  have hevent : (@TrajectoryEvent.modelDumpJson (@PydanticJson.plain .ascii) binaryResult).isOk
      = true := by
    decide +kernel
  have hverdict : (@VerdictEvent.modelDumpJson (@PydanticJson.plain .ascii) releaseVerdict).isOk
      = true := by
    decide +kernel
  have htrip := @events_round_trip (@PydanticJson.plain .ascii)
  constructor
  · cases h : @TrajectoryEvent.modelDumpJson (@PydanticJson.plain .ascii) binaryResult with
    | ok payload => exact ⟨payload, rfl, (htrip.1 _ _ h).2 (fun _ => nofun)⟩
    | error e =>
        rw [h] at hevent
        cases hevent
  · cases h : @VerdictEvent.modelDumpJson (@PydanticJson.plain .ascii) releaseVerdict with
    | ok payload => exact ⟨payload, rfl, htrip.2.1 _ _ h⟩
    | error e =>
        rw [h] at hverdict
        cases hverdict

/-! ### A count that is too long to be read -/

theorem intDigits_ascii {s : PyStr} (hne : s ≠ []) (h : ∀ c ∈ s, isDigit c = true) :
    @intDigits .ascii s = some (s.map (fun c => c.val - 0x30)) := by
  induction s with
  | nil => exact absurd rfl hne
  | cons c s ih =>
      obtain ⟨hc, hs⟩ := List.forall_mem_cons.1 h
      have hdecimal : PyRuntime.ascii.decimal c = some (c.val - 0x30) := if_pos hc
      cases s with
      | nil => simp [intDigits, hdecimal]
      | cons u s =>
          have hu : u.val ≠ 0x5F := by
            have hrange := of_decide_eq_true (hs u List.mem_cons_self)
            omega
          simp [intDigits, hdecimal, hu, ih (by simp) hs]

/-- `int` reads the digits after a minus sign, as many as it converts. -/
theorem intOfText_negative [PyRuntime] {s rest : PyStr} {c : CodePoint} {digits : List Nat}
    (hs : strip PyRuntime.isSpace s = c :: rest) (hc : c.val = 0x2D)
    (hdigits : intDigits rest = some digits) (hsize : digits.length ≤ PyRuntime.maxStrDigits) :
    intOfText s = some (-((digits.foldl (fun n d => n * 10 + d) 0 : Nat) : Int)) := by
  unfold intOfText
  simp only [hs, hc, or_true, if_true, List.drop_succ_cons, List.drop_zero, hdigits,
    if_neg (Nat.not_lt.2 hsize)]

theorem pyInt_str [PyRuntime] {s : PyStr} {i : Int} (h : intOfText s = some i) :
    pyInt (.str s) = .ok i := by
  simp only [pyInt, h]

/-- `int` takes a sign and as many digits as it converts. -/
theorem intOfText_minus {n : Nat} (h : (decimalDigits n).length ≤ 4300) :
    @intOfText .ascii (py "-" ++ decimalDigits n) = some (-(n : Int)) := by
  have hdigits := decimalDigits_all n
  have hspace : ∀ c : CodePoint, isDigit c = true ∨ c.val = 0x2D →
      PyRuntime.ascii.isSpace c = false := by
    intro c hc
    have hrange : (0x30 ≤ c.val ∧ c.val ≤ 0x39) ∨ c.val = 0x2D := hc.imp_left of_decide_eq_true
    exact decide_eq_false (by omega)
  obtain ⟨c, rest, hcons, _⟩ := decimalDigits_cons n
  have hne : decimalDigits n ≠ [] := by simp [hcons]
  -- neither the sign nor the last digit is a blank
  have hstrip : strip PyRuntime.ascii.isSpace (py "-" ++ decimalDigits n)
      = py "-" ++ decimalDigits n := by
    have hfirst : (py "-" ++ decimalDigits n).dropWhile PyRuntime.ascii.isSpace
        = py "-" ++ decimalDigits n :=
      List.dropWhile_cons_of_neg (by rw [hspace _ (Or.inr rfl)]; decide)
    have hlast : (py "-" ++ decimalDigits n).reverse.dropWhile PyRuntime.ascii.isSpace
        = (py "-" ++ decimalDigits n).reverse := by
      rw [List.reverse_append]
      obtain ⟨d, ds, hreverse⟩ := List.exists_cons_of_ne_nil (List.reverse_ne_nil_iff.2 hne)
      have hd : isDigit d = true := by
        refine hdigits d (List.mem_reverse.1 ?_)
        rw [hreverse]
        exact List.mem_cons_self
      rw [hreverse, List.cons_append]
      exact List.dropWhile_cons_of_neg (by rw [hspace d (Or.inl hd)]; decide)
    unfold strip
    rw [hfirst, hlast, List.reverse_reverse]
  have hsize : ((decimalDigits n).map (fun c => c.val - 0x30)).length ≤ 4300 := by
    rwa [List.length_map]
  rw [@intOfText_negative .ascii _ (decimalDigits n) _ _ hstrip rfl (intDigits_ascii hne hdigits)
    hsize, List.foldl_map, foldl_decimalDigits]

/-- The number of `k` nines. -/
def nines (k : Nat) : Nat := 10 ^ k - 1

theorem length_nines {k : Nat} (hk : 0 < k) : (decimalDigits (nines k)).length = k := by
  have hpos : 0 < 10 ^ k := Nat.pow_pos (by decide)
  have hle : (Nat.toDigits 10 (nines k)).length ≤ k :=
    (Nat.length_toDigits_le_iff (by decide) hk).2 (Nat.sub_lt hpos (by decide))
  have hlt : ¬ (Nat.toDigits 10 (nines k)).length < k := by
    intro hlt
    have hle' := Nat.le_sub_one_of_lt hlt
    by_cases hone : k = 1
    · subst hone
      revert hlt
      decide
    · rw [Nat.length_toDigits_le_iff (by decide) (by omega)] at hle'
      have hpow : 10 ^ (k - 1) < 10 ^ k := Nat.pow_lt_pow_right (by decide) (by omega)
      unfold nines at hle'
      omega
  unfold decimalDigits
  rw [List.length_map]
  omega

/-- What `_extract_usage` makes of a count with a sign and all the digits that `int` converts can be
    written, and cannot be decoded. -/
theorem count_is_not_decoded {n : Nat} (hn : (decimalDigits n).length = 4300) (hpos : 0 < n) :
    @extractUsage .ascii ⟨none, [], some (py "m"), some [(.str (py "input_tokens"),
        .str (py "-" ++ decimalDigits n))]⟩ = .ok (some ⟨py "m", -(n : Int), 0⟩) ∧
      ∃ payload, @TrajectoryEvent.modelDumpJson (@PydanticJson.plain .ascii)
          (.usage ⟨py "m", -(n : Int), 0⟩) = .ok payload ∧
        ∀ e, @decodeEvent (@PydanticJson.plain .ascii) payload ≠ .ok e := by
  constructor
  · have hcount : @tokenCount .ascii [(.str (py "input_tokens"),
        .str (py "-" ++ decimalDigits n))] (py "input_tokens") = .ok (-(n : Int)) :=
      @pyInt_str .ascii _ _ (intOfText_minus hn.le)
    have hother : @tokenCount .ascii [(.str (py "input_tokens"),
        .str (py "-" ++ decimalDigits n))] (py "output_tokens") = .ok 0 := rfl
    unfold extractUsage
    simp only [hcount, hother]
    rfl
  -- the sign makes it one character more than the reader takes
  · have hunread : ¬ @TrajectoryEvent.CountsRead (@PydanticJson.plain .ascii)
        (.usage ⟨py "m", -(n : Int), 0⟩) := by
      intro hread
      have hlength : (intRepr (-(n : Int))).length ≤ 4300 := (hread _ rfl).1
      rw [intRepr, if_pos (by omega), List.length_append, Int.natAbs_neg, Int.natAbs_natCast,
        hn] at hlength
      exact absurd hlength (by decide)
    have hdump := @plain_modelDumpJson .ascii _ usageEvent
      (TrajectoryEvent.values (.usage ⟨py "m", -(n : Int), 0⟩))
      (names_nodup _ (TrajectoryEvent.eventClass_mem (.usage ⟨[], 0, 0⟩))) rfl (by decide)
    refine ⟨_, hdump, fun e => ?_⟩
    rw [@decodeEvent_unread (@PydanticJson.plain .ascii) _ (.usage ⟨py "m", -(n : Int), 0⟩) hdump
      hunread]
    exact nofun

/-- The count is a minus sign and 4300 nines. -/
theorem long_count_is_not_decoded :
    @extractUsage .ascii ⟨none, [], some (py "m"), some [(.str (py "input_tokens"),
        .str (py "-" ++ decimalDigits (nines 4300)))]⟩
          = .ok (some ⟨py "m", -(nines 4300 : Int), 0⟩) ∧
      ∃ payload, @TrajectoryEvent.modelDumpJson (@PydanticJson.plain .ascii)
          (.usage ⟨py "m", -(nines 4300 : Int), 0⟩) = .ok payload ∧
        ∀ e, @decodeEvent (@PydanticJson.plain .ascii) payload ≠ .ok e := by
  have hlength := @length_nines 4300 (by decide)
  refine count_is_not_decoded hlength (Nat.pos_of_ne_zero (fun hzero => ?_))
  rw [hzero] at hlength
  exact absurd hlength (by decide)

end RexHunter
