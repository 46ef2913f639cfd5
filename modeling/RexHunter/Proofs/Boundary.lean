import RexHunter.Implementation.Brain
import RexHunter.Lib.JsonRoundTrip

set_option autoImplicit false

/-! # The boundary

What can come out of `parse_decision`: a `Decision` with the usage of the envelope, the
`BrainParseError` that carries the bytes, or, from `_extract_usage`, whatever `int` raises. -/

namespace RexHunter

/-! ## The exceptions of Python itself -/

/-- An exception that neither the boundary nor the transport raises. -/
def PyExc.Builtin : PyExc → Prop
  | .serializationError => True
  | .unicodeEncodeError => True
  | .unicodeDecodeError => True
  | .jsonDecodeError => True
  | .recursionError => True
  | .keyError _ => True
  | .typeError => True
  | .attributeError => True
  | .valueError _ => True
  | .overflowError => True
  | _ => False

theorem PyExc.Builtin.ne_brainParseError {e : PyExc} (h : e.Builtin) (raw : PyBytes)
    (detail : PyStr) : e ≠ .brainParseError raw detail := by
  rintro rfl
  exact h

theorem PyExc.Builtin.httpFailure {e : PyExc} (h : e.Builtin) : httpFailure e = none := by
  cases e with
  | httpStatusError => exact h.elim
  | transportError => exact h.elim
  | _ => rfl

/-- Whatever the computation raises is such an exception. -/
def RaisesBuiltin {α : Type} (x : Except PyExc α) : Prop := ∀ e, x = .error e → e.Builtin

section Raises

variable {α β : Type}

theorem RaisesBuiltin.ok (a : α) : RaisesBuiltin (.ok a : Except PyExc α) := nofun

theorem RaisesBuiltin.error {e : PyExc} (h : e.Builtin) :
    RaisesBuiltin (.error e : Except PyExc α) := by
  rintro _ ⟨⟩
  exact h

theorem RaisesBuiltin.bind {x : Except PyExc α} {f : α → Except PyExc β} (hx : RaisesBuiltin x)
    (hf : ∀ a, RaisesBuiltin (f a)) : RaisesBuiltin (x >>= f) := by
  cases x with
  | ok a => exact hf a
  | error e => exact RaisesBuiltin.error (hx e rfl)

theorem jsonExc_builtin (e : JsonError) : (jsonExc e).Builtin := by
  cases e <;> trivial

end Raises

/-! ## The texts of the rejections -/

theorem encodable_decimalDigits (n : Nat) : encodable (decimalDigits n) = true := by
  refine List.all_eq_true.2 (fun c hc => ?_)
  have hdigit := decimalDigits_all n c hc
  simp only [isDigit, decide_eq_true_eq] at hdigit
  simp only [CodePoint.isSurrogate, Bool.not_eq_true', decide_eq_false_iff_not]
  omega

theorem encodable_blockCountDetail (n : Nat) : encodable (blockCountDetail n) = true := by
  unfold blockCountDetail
  rw [encodable_append, encodable_append, encodable_decimalDigits]
  decide

section Rejections

variable [Pydantic]

theorem readResponse_encodable {raw : PyBytes} {detail : PyStr}
    (h : readResponse raw = .error detail) : encodable detail = true := by
  unfold readResponse at h
  split at h
  · next hread =>
      cases h
      exact Pydantic.encodable_readJson _ _ hread
  · split at h
    · cases h
    · cases h
      exact Pydantic.encodable_responseError _

omit [Pydantic] in
theorem optionalStr_encodable {d : Dict} {key s : PyStr}
    (hd : Json.surrogateFreeEntries d = true) (h : optionalStr d key = some (some s)) :
    encodable s = true := by
  unfold optionalStr at h
  split at h
  · cases h
  · cases h
  · next hget =>
      cases h
      exact Dict.get_surrogateFree hd hget
  · cases h

/-- The model name of an envelope has no surrogates. -/
theorem readResponse_model {raw : PyBytes} {response : ProviderResponse} {model : PyStr}
    (h : readResponse raw = .ok response) (hmodel : response.model = some model) :
    encodable model = true := by
  unfold readResponse at h
  split at h
  · cases h
  · next v hread =>
      split at h
      · next hvalid =>
          cases h
          unfold validateResponse at hvalid
          split at hvalid
          · split at hvalid
            · next hname _ =>
                cases hvalid
                subst hmodel
                exact optionalStr_encodable (Pydantic.surrogateFree_readJson _ _ hread) hname
            · cases hvalid
          · cases hvalid
      · cases h

theorem decideBlock_encodable {block : Dict} {usage : Option UsageEvent} {detail : PyStr}
    (h : decideBlock block usage = .error detail) : encodable detail = true := by
  unfold decideBlock at h
  split at h
  · cases h
    exact Pydantic.encodable_blockError _
  · split at h
    · split at h
      · cases h
      · cases h
        exact Pydantic.encodable_catchError _
    · split at h
      · cases h
      · cases h

theorem decideBlock_usage {block : Dict} {usage : Option UsageEvent} {decision : Decision}
    (h : decideBlock block usage = .ok decision) : decision.usage = usage := by
  unfold decideBlock at h
  split at h
  · cases h
  · split at h
    · split at h
      · cases h
        rfl
      · cases h
    · split at h
      · cases h
        rfl
      · cases h
        rfl

theorem decideResponse_encodable {response : ProviderResponse} {usage : Option UsageEvent}
    {detail : PyStr} (h : decideResponse response usage = .error detail) :
    encodable detail = true := by
  unfold decideResponse at h
  split at h
  · exact decideBlock_encodable h
  · cases h
    exact encodable_blockCountDetail _

theorem decideResponse_usage {response : ProviderResponse} {usage : Option UsageEvent}
    {decision : Decision} (h : decideResponse response usage = .ok decision) :
    decision.usage = usage := by
  unfold decideResponse at h
  split at h
  · exact decideBlock_usage h
  · cases h

end Rejections

/-! ## Token counts -/

section Boundary

variable [PyRuntime]

theorem dumpsBytes_raises (v : Json) : RaisesBuiltin (dumpsBytes v) := by
  unfold dumpsBytes
  split
  · exact RaisesBuiltin.error (jsonExc_builtin _)
  · split
    · exact RaisesBuiltin.ok _
    · exact RaisesBuiltin.error trivial

theorem dumpsBytes_eq {v : Json} (h : v.fault PyRuntime.recursionLimit = none) :
    dumpsBytes v = .ok (v.write.map (fun c => UInt8.ofNat c.val)) := by
  unfold dumpsBytes Json.dumps
  rw [h]
  simp only [encode_of_isAscii (isAscii_write v)]

theorem dumpsBytes_error {v : Json} {e : JsonError} (h : v.fault PyRuntime.recursionLimit = some e) :
    dumpsBytes v = .error (jsonExc e) := by
  unfold dumpsBytes Json.dumps
  rw [h]

theorem dumpsBytes_ok {v : Json} {raw : PyBytes} (h : dumpsBytes v = .ok raw) :
    v.fault PyRuntime.recursionLimit = none ∧ raw = v.write.map (fun c => UInt8.ofNat c.val) := by
  cases hfault : v.fault PyRuntime.recursionLimit with
  | none =>
      rw [dumpsBytes_eq hfault] at h
      exact ⟨rfl, (Except.ok.inj h).symm⟩
  | some e =>
      rw [dumpsBytes_error hfault] at h
      cases h

/-- `int` takes the value. -/
def convertible : Json → Bool
  | .bool _ => true
  | .int _ => true
  | .float (.finite _ _ _) => true
  | .str s => (intOfText s).isSome
  | _ => false

theorem pyInt_ok_iff (v : Json) : (∃ i, pyInt v = .ok i) ↔ convertible v = true := by
  cases v with
  | bool b => exact ⟨fun _ => rfl, fun _ => ⟨_, rfl⟩⟩
  | int i => exact ⟨fun _ => rfl, fun _ => ⟨_, rfl⟩⟩
  | float x =>
      cases x with
      | finite negative mantissa exponent => exact ⟨fun _ => rfl, fun _ => ⟨_, rfl⟩⟩
      | nan | inf => simp [pyInt, convertible]
  | str s => cases h : intOfText s <;> simp [pyInt, convertible, h]
  | null | arr | obj => simp [pyInt, convertible]

theorem pyInt_raises (v : Json) : RaisesBuiltin (pyInt v) := by
  cases v with
  | bool | int => exact RaisesBuiltin.ok _
  | null | arr | obj => exact RaisesBuiltin.error trivial
  | float x =>
      cases x with
      | finite => exact RaisesBuiltin.ok _
      | nan | inf => exact RaisesBuiltin.error trivial
  | str s =>
      simp only [pyInt]
      split
      · exact RaisesBuiltin.ok _
      · exact RaisesBuiltin.error trivial

/-- Both token counts of the usage, if there is one, are values `int` takes. -/
def ProviderResponse.Countable (response : ProviderResponse) : Prop :=
  ∀ usage, response.usage = some usage →
    convertible ((usage.get (py "input_tokens")).getD (.int 0)) = true ∧
    convertible ((usage.get (py "output_tokens")).getD (.int 0)) = true

theorem extractUsage_ok_iff (response : ProviderResponse) :
    (∃ usage, extractUsage response = .ok usage) ↔ response.Countable := by
  unfold extractUsage ProviderResponse.Countable
  cases response.usage with
  | none => simp
  | some usage =>
      simp only [Option.some.injEq, forall_eq', ← pyInt_ok_iff, tokenCount]
      cases pyInt ((usage.get (py "input_tokens")).getD (.int 0)) with
      | error e => simp
      | ok i => cases pyInt ((usage.get (py "output_tokens")).getD (.int 0)) <;> simp

theorem extractUsage_raises (response : ProviderResponse) :
    RaisesBuiltin (extractUsage response) := by
  unfold extractUsage
  split
  · exact RaisesBuiltin.ok _
  · split
    · next h => exact RaisesBuiltin.error (pyInt_raises _ _ h)
    · split
      · next h => exact RaisesBuiltin.error (pyInt_raises _ _ h)
      · exact RaisesBuiltin.ok _

/-! ## `parse_decision` -/

variable [Pydantic]

/-- **A decision carries the usage of the envelope it was read from.** -/
theorem parseDecision_usage {raw : PyBytes} {decision : Decision}
    (h : parseDecision raw = .ok decision) :
    ∃ response, readResponse raw = .ok response ∧ extractUsage response = .ok decision.usage := by
  unfold parseDecision at h
  split at h
  · cases h
  · next response hread =>
      split at h
      · cases h
      · next usage husage =>
          split at h
          · next hdecide =>
              cases h
              rw [← decideResponse_usage hdecide] at husage
              exact ⟨response, hread, husage⟩
          · cases h

/-- The usage of a decision has a storable model name: the reader yields no surrogates. -/
theorem parseDecision_usage_encodable {raw : PyBytes} {decision : Decision} {usage : UsageEvent}
    (h : parseDecision raw = .ok decision) (husage : decision.usage = some usage) :
    encodable usage.model = true := by
  obtain ⟨response, hread, hextract⟩ := parseDecision_usage h
  have hmodel : usage.model = response.model.getD [] := by
    rw [husage] at hextract
    unfold extractUsage at hextract
    split at hextract
    · cases hextract
    split at hextract
    · cases hextract
    split at hextract
    · cases hextract
    · cases hextract
      rfl
  rw [hmodel]
  cases hname : response.model with
  | none => rfl
  | some name => exact readResponse_model hread hname

/-- A decision, or the rejection that carries the payload. -/
def Kept (raw : PyBytes) (r : Except PyExc Decision) : Prop :=
  (∃ decision, r = .ok decision) ∨ ∃ detail, r = .error (.brainParseError raw detail)

theorem parseDecision_error {raw : PyBytes} {e : PyExc} (h : parseDecision raw = .error e) :
    e.Builtin ∨ ∃ detail, encodable detail = true ∧ e = .brainParseError raw detail := by
  unfold parseDecision at h
  split at h
  · next hread =>
      cases h
      exact Or.inr ⟨_, readResponse_encodable hread, rfl⟩
  · split at h
    · next husage =>
        cases h
        exact Or.inl (extractUsage_raises _ _ husage)
    · split at h
      · cases h
      · next hdecide =>
          cases h
          exact Or.inr ⟨_, decideResponse_encodable hdecide, rfl⟩

/-- **The boundary keeps the bytes**, unless it reads a usage with a count that is no number. -/
theorem parseDecision_kept_iff (raw : PyBytes) : Kept raw (parseDecision raw) ↔
    ∀ response, readResponse raw = .ok response → response.Countable := by
  constructor
  · intro hkept response hread
    rw [← extractUsage_ok_iff]
    cases husage : extractUsage response with
    | ok usage => exact ⟨usage, rfl⟩
    | error e =>
        have hparse : parseDecision raw = .error e := by
          unfold parseDecision
          simp only [hread, husage]
        rw [hparse] at hkept
        obtain ⟨_, hok⟩ | ⟨detail, herror⟩ := hkept
        · cases hok
        · exact absurd (Except.error.inj herror)
            ((extractUsage_raises _ _ husage).ne_brainParseError raw detail)
  · intro hcount
    unfold parseDecision
    cases hread : readResponse raw with
    | error detail => exact Or.inr ⟨detail, rfl⟩
    | ok response =>
        obtain ⟨usage, husage⟩ := (extractUsage_ok_iff response).2 (hcount response hread)
        simp only [husage]
        cases decideResponse response usage with
        | ok decision => exact Or.inl ⟨decision, rfl⟩
        | error detail => exact Or.inr ⟨detail, rfl⟩

end Boundary

end RexHunter
