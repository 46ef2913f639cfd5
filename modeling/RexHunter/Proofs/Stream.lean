import RexHunter.Proofs.Boundary

set_option autoImplicit false

/-! # The stream assembler

Which events the assembler takes is a question of their shape (`feed_ok_iff`), and on the others it
raises an exception of Python itself (`feed_raises`). -/

namespace RexHunter

/-- The computation returns. -/
def Returns {α : Type} (x : Except PyExc α) : Prop := ∃ a, x = .ok a

section Returns

variable {α β : Type}

@[simp] theorem returns_ok (a : α) : Returns (.ok a : Except PyExc α) := ⟨a, rfl⟩

@[simp] theorem returns_pure (a : α) : Returns (pure a : Except PyExc α) := ⟨a, rfl⟩

@[simp] theorem not_returns_error (e : PyExc) : ¬ Returns (.error e : Except PyExc α) := by
  rintro ⟨_, ⟨⟩⟩

theorem returns_bind {x : Except PyExc α} {f : α → Except PyExc β} :
    Returns (x >>= f) ↔ ∃ a, x = .ok a ∧ Returns (f a) := by
  cases x with
  | ok a =>
      constructor
      · exact fun h => ⟨a, rfl, h⟩
      · rintro ⟨_, ⟨⟩, h⟩
        exact h
  | error e =>
      constructor
      · rintro ⟨_, ⟨⟩⟩
      · rintro ⟨_, ⟨⟩, _⟩

end Returns

section Assembler

variable [PyRuntime]

/-! ## The shape of the events -/

/-- `dict` takes the value. -/
def Dictable (v : Json) : Prop := Returns (entriesOf v)

/-- The content index of the event is one `int` takes. -/
def HasIndex (event : Dict) (index : Int) : Prop :=
  ∃ v, event.get (py "index") = some v ∧ pyInt v = .ok index

/-- The event has the fields its type needs, in the state the assembler is in. -/
def WellShaped (asm : StreamAssembler) (event : Dict) : Prop :=
  if hasType (py "message_start") event then
    ∃ message : Dict, (event.get (py "message")).getD (.obj []) = .obj message ∧
      Dictable ((message.get (py "usage")).getD (.obj []))
  else if hasType (py "content_block_start") event then
    (∃ block, event.get (py "content_block") = some block ∧ Dictable block) ∧
      ∃ index, HasIndex event index
  else if hasType (py "content_block_delta") event then
    ∃ index, HasIndex event index ∧ ∃ delta, event.get (py "delta") = some delta ∧
      ((lookup asm.blocks index).isSome = true → ∃ entries, delta = .obj entries)
  else if hasType (py "content_block_stop") event then
    ∃ index, HasIndex event index ∧ ∀ block, lookup asm.blocks index = some block →
      hasType toolUse block = true →
        (lookup asm.jsonBuf index).getD [] = [] ∨
          ∃ input, Json.loads ((lookup asm.jsonBuf index).getD []) = .ok input
  else if hasType (py "message_delta") event then
    (∃ delta, (event.get (py "delta")).getD (.obj []) = .obj delta) ∧
      Dictable ((event.get (py "usage")).getD (.obj []))
  else True

omit [PyRuntime] in
theorem asDict_ok {v : Json} {d : Dict} : asDict v = .ok d ↔ v = .obj d := by
  cases v <;> simp [asDict]

omit [PyRuntime] in
theorem item_ok {d : Dict} {key : PyStr} {v : Json} : item d key = .ok v ↔ d.get key = some v := by
  unfold item
  cases d.get key <;> simp

theorem parsedInput_returns {buf : PyStr} :
    Returns (StreamAssembler.parsedInput buf) ↔ buf = [] ∨ ∃ input, Json.loads buf = .ok input := by
  unfold StreamAssembler.parsedInput
  by_cases h : buf = []
  · simp [h]
  · rw [if_neg h]
    cases Json.loads buf <;> simp [h]

theorem finalize_returns {asm : StreamAssembler} {index : Int} :
    Returns (asm.finalize index) ↔ ∀ block, lookup asm.blocks index = some block →
      hasType toolUse block = true →
        (lookup asm.jsonBuf index).getD [] = [] ∨
          ∃ input, Json.loads ((lookup asm.jsonBuf index).getD []) = .ok input := by
  unfold StreamAssembler.finalize
  cases hblock : lookup asm.blocks index with
  | none => simp
  | some block =>
      by_cases htool : hasType toolUse block = true
      · simp only [htool, if_true, returns_bind, returns_pure, and_true, Option.some.injEq,
          forall_eq', forall_const]
        exact parsedInput_returns
      · simp [htool]

theorem applyDelta_returns {asm : StreamAssembler} {index : Int} {delta : Json} :
    Returns (asm.applyDelta index delta) ↔
      ((lookup asm.blocks index).isSome = true → ∃ entries, delta = .obj entries) := by
  unfold StreamAssembler.applyDelta
  cases lookup asm.blocks index with
  | none => simp
  | some block =>
      simp only [returns_bind, asDict_ok, Option.isSome_some, forall_const]
      refine exists_congr (fun entries => and_iff_left ?_)
      split
      · exact returns_pure _
      split
      · exact returns_pure _
      split
      · exact returns_pure _
      split <;> exact returns_pure _

/-- **The assembler takes exactly the events that are well shaped.** -/
theorem feed_ok_iff (asm : StreamAssembler) (v : Json) :
    Returns (asm.feed v) ↔ ∃ event, v = .obj event ∧ WellShaped asm event := by
  unfold StreamAssembler.feed
  rw [returns_bind]
  refine exists_congr (fun event => ?_)
  rw [asDict_ok]
  refine and_congr_right (fun _ => ?_)
  unfold WellShaped
  split
  · simp only [returns_bind, asDict_ok, returns_pure, and_true]
    rfl
  split
  · simp only [returns_bind, item_ok, returns_pure, and_true]
    constructor
    · rintro ⟨block, hblock, entries, hentries, v, hv, index, hindex⟩
      exact ⟨⟨block, hblock, entries, hentries⟩, index, v, hv, hindex⟩
    · rintro ⟨⟨block, hblock, entries, hentries⟩, index, v, hv, hindex⟩
      exact ⟨block, hblock, entries, hentries, v, hv, index, hindex⟩
  split
  · simp only [returns_bind, item_ok, applyDelta_returns]
    constructor
    · rintro ⟨v, hv, index, hindex, h⟩
      exact ⟨index, ⟨v, hv, hindex⟩, h⟩
    · rintro ⟨index, ⟨v, hv, hindex⟩, h⟩
      exact ⟨v, hv, index, hindex, h⟩
  split
  · simp only [returns_bind, item_ok, returns_pure, and_true]
    constructor
    · rintro ⟨v, hv, index, hindex, h⟩
      exact ⟨index, ⟨v, hv, hindex⟩, finalize_returns.1 h⟩
    · rintro ⟨index, ⟨v, hv, hindex⟩, h⟩
      exact ⟨v, hv, index, hindex, finalize_returns.2 h⟩
  split
  · simp only [returns_bind, asDict_ok]
    constructor
    · rintro ⟨delta, hdelta, entries, hentries, _⟩
      exact ⟨⟨delta, hdelta⟩, entries, hentries⟩
    · rintro ⟨⟨delta, hdelta⟩, entries, hentries⟩
      refine ⟨delta, hdelta, entries, hentries, ?_⟩
      split <;> exact returns_pure _
  split <;> simp

/-! ## The exceptions of the readers -/

omit [PyRuntime] in
theorem asDict_raises (v : Json) : RaisesBuiltin (asDict v) := by
  cases v with
  | obj entries => exact RaisesBuiltin.ok _
  | _ => exact RaisesBuiltin.error trivial

omit [PyRuntime] in
theorem item_raises (d : Dict) (key : PyStr) : RaisesBuiltin (item d key) := by
  unfold item
  split
  · exact RaisesBuiltin.ok _
  · exact RaisesBuiltin.error trivial

omit [PyRuntime] in
theorem iterate_raises (v : Json) : RaisesBuiltin (iterate v) := by
  cases v with
  | arr | str | obj => exact RaisesBuiltin.ok _
  | _ => exact RaisesBuiltin.error trivial

omit [PyRuntime] in
theorem asKey_raises (v : Json) : RaisesBuiltin (asKey v) := by
  cases v with
  | arr | obj => exact RaisesBuiltin.error trivial
  | _ => exact RaisesBuiltin.ok _

omit [PyRuntime] in
theorem pairs_raises (items : List Json) : RaisesBuiltin (pairs items) := by
  induction items with
  | nil => exact RaisesBuiltin.ok _
  | cons v vs ih =>
      refine (iterate_raises v).bind (fun elements => ?_)
      split
      · refine (asKey_raises _).bind (fun key => ?_)
        exact ih.bind (fun rest => RaisesBuiltin.ok _)
      · exact RaisesBuiltin.error trivial

omit [PyRuntime] in
theorem entriesOf_raises (v : Json) : RaisesBuiltin (entriesOf v) := by
  cases v with
  | obj entries => exact RaisesBuiltin.ok _
  | _ => exact (iterate_raises _).bind (fun items => pairs_raises items)

theorem finalize_raises (asm : StreamAssembler) (index : Int) :
    RaisesBuiltin (asm.finalize index) := by
  unfold StreamAssembler.finalize
  split
  · exact RaisesBuiltin.ok _
  split
  · refine RaisesBuiltin.bind ?_ (fun input => RaisesBuiltin.ok _)
    unfold StreamAssembler.parsedInput
    split
    · exact RaisesBuiltin.ok _
    split
    · exact RaisesBuiltin.ok _
    · exact RaisesBuiltin.error (jsonExc_builtin _)
  · exact RaisesBuiltin.ok _

theorem applyDelta_raises (asm : StreamAssembler) (index : Int) (delta : Json) :
    RaisesBuiltin (asm.applyDelta index delta) := by
  unfold StreamAssembler.applyDelta
  split
  · exact RaisesBuiltin.ok _
  refine (asDict_raises _).bind (fun delta => ?_)
  split
  · exact RaisesBuiltin.ok _
  split
  · exact RaisesBuiltin.ok _
  split
  · exact RaisesBuiltin.ok _
  split <;> exact RaisesBuiltin.ok _

theorem feed_raises (asm : StreamAssembler) (v : Json) : RaisesBuiltin (asm.feed v) := by
  refine (asDict_raises v).bind (fun event => ?_)
  split
  · refine (asDict_raises _).bind (fun message => ?_)
    exact (entriesOf_raises _).bind (fun usage => RaisesBuiltin.ok _)
  split
  · refine (item_raises _ _).bind (fun block => (entriesOf_raises _).bind (fun entries => ?_))
    refine (item_raises _ _).bind (fun v => (pyInt_raises _).bind (fun index => ?_))
    exact RaisesBuiltin.ok _
  split
  · refine (item_raises _ _).bind (fun v => (pyInt_raises _).bind (fun index => ?_))
    exact (item_raises _ _).bind (fun delta => applyDelta_raises asm index delta)
  split
  · refine (item_raises _ _).bind (fun v => (pyInt_raises _).bind (fun index => ?_))
    exact (finalize_raises asm index).bind (fun asm => RaisesBuiltin.ok _)
  split
  · refine (asDict_raises _).bind (fun delta => (entriesOf_raises _).bind (fun usage => ?_))
    split <;> exact RaisesBuiltin.ok _
  split <;> exact RaisesBuiltin.ok _

theorem feedFrame_raises (asm : StreamAssembler) (dataBuf : List PyStr) :
    RaisesBuiltin (feedFrame asm dataBuf) := by
  unfold feedFrame
  split
  · exact RaisesBuiltin.error (jsonExc_builtin _)
  · exact feed_raises asm _

end Assembler

end RexHunter
