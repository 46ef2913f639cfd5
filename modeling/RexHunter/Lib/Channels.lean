import Mathlib.Data.List.Basic

set_option autoImplicit false

/-! # Interleaved channels

A machine whose events belong to channels, and whose state has a slot for each channel that only the
events of the channel touch. Then every interleaving of the channels comes to the same: if the
events of each channel alone go through, so does the whole stream, each slot ends as its channel
left it, and the outputs of a channel are those it has alone. An invariant of the whole state may be
kept on the way. -/

namespace Channels

variable {S E R ε : Type} {I : Type} [DecidableEq I] {Q : I → Type}

/-- The outputs of the events, and the state after them. -/
def run (step : S → E → Except ε (R × S)) (s : S) : List E → Except ε (List R × S)
  | [] => .ok ([], s)
  | e :: es =>
      match step s e with
      | .error x => .error x
      | .ok (r, s') =>
          match run step s' es with
          | .error x => .error x
          | .ok (rs, s'') => .ok (r :: rs, s'')

/-- The same for one channel; `none` is an event the channel cannot take. -/
def runLocal {T : Type} (react : T → E → Option (R × T)) (q : T) : List E → Option (List R × T)
  | [] => some ([], q)
  | e :: es =>
      match react q e with
      | none => none
      | some (r, q') => (runLocal react q' es).map (fun out => (r :: out.1, out.2))

/-- The events of a channel. -/
def own (channel : E → I) (i : I) (es : List E) : List E :=
  es.filter (fun e => decide (channel e = i))

/-- The outputs of the events of a channel. -/
def ownOutputs (channel : E → I) (i : I) (es : List E) (rs : List R) : List R :=
  ((es.zip rs).filter (fun p => decide (channel p.1 = i))).map Prod.snd

/-- An event that its channel can take goes through, keeps the invariant, changes the slot of its
    channel as the channel says, and no other. -/
structure Separate (step : S → E → Except ε (R × S)) (channel : E → I) (slot : ∀ i, S → Q i)
    (react : ∀ i, Q i → E → Option (R × Q i)) (Inv : S → Prop) : Prop where
  goes : ∀ s e r q, Inv s → react (channel e) (slot (channel e) s) e = some (r, q) →
    ∃ s', step s e = .ok (r, s') ∧ Inv s' ∧ slot (channel e) s' = q ∧
      ∀ j, j ≠ channel e → slot j s' = slot j s

variable {step : S → E → Except ε (R × S)} {channel : E → I} {slot : ∀ i, S → Q i}
  {react : ∀ i, Q i → E → Option (R × Q i)} {Inv : S → Prop}

theorem own_cons_self (e : E) (es : List E) :
    own channel (channel e) (e :: es) = e :: own channel (channel e) es :=
  List.filter_cons_of_pos (decide_eq_true rfl)

theorem own_cons_other {i : I} {e : E} (h : i ≠ channel e) (es : List E) :
    own channel i (e :: es) = own channel i es :=
  List.filter_cons_of_neg (by simpa using h.symm)

theorem ownOutputs_cons_self (e : E) (es : List E) (r : R) (rs : List R) :
    ownOutputs channel (channel e) (e :: es) (r :: rs)
      = r :: ownOutputs channel (channel e) es rs := by
  unfold ownOutputs
  rw [List.zip_cons_cons, List.filter_cons_of_pos (by simp)]
  rfl

theorem ownOutputs_cons_other {i : I} {e : E} (h : i ≠ channel e) (es : List E) (r : R)
    (rs : List R) : ownOutputs channel i (e :: es) (r :: rs) = ownOutputs channel i es rs := by
  unfold ownOutputs
  rw [List.zip_cons_cons, List.filter_cons_of_neg (by simpa using h.symm)]

theorem run_map {D : Type} (f : D → E) (ds : List D) : ∀ s : S,
    run step s (ds.map f) = run (fun s d => step s (f d)) s ds := by
  induction ds with
  | nil => exact fun _ => rfl
  | cons d ds ih =>
      intro s
      unfold run
      rw [List.map_cons]
      simp only [ih]

theorem runLocal_map {D T : Type} (react : T → E → Option (R × T)) (f : D → E) (ds : List D) :
    ∀ q : T, runLocal react q (ds.map f) = runLocal (fun q d => react q (f d)) q ds := by
  induction ds with
  | nil => exact fun _ => rfl
  | cons d ds ih =>
      intro q
      unfold runLocal
      rw [List.map_cons]
      simp only [ih]

theorem own_map {D : Type} (f : D → E) (i : I) (ds : List D) :
    own channel i (ds.map f) = (own (fun d => channel (f d)) i ds).map f :=
  List.filter_map

theorem runLocal_cons {T : Type} {react : T → E → Option (R × T)} {q q' : T} {e : E} {r : R}
    (h : react q e = some (r, q')) (es : List E) :
    runLocal react q (e :: es) = (runLocal react q' es).map (fun out => (r :: out.1, out.2)) := by
  rw [runLocal, h]

/-- A run of one stretch of events after another. -/
theorem runLocal_append {T : Type} {react : T → E → Option (R × T)} {es es' : List E} :
    ∀ {q q' : T} {rs : List R}, runLocal react q es = some (rs, q') →
      runLocal react q (es ++ es') = (runLocal react q' es').map (fun out => (rs ++ out.1, out.2)) := by
  induction es with
  | nil =>
      intro q q' rs h
      cases h
      rw [List.nil_append]
      cases runLocal react q es' <;> rfl
  | cons e es ih =>
      intro q q' rs h
      unfold runLocal at h
      cases hreact : react q e with
      | none =>
          rw [hreact] at h
          cases h
      | some out =>
          obtain ⟨r, q₁⟩ := out
          rw [hreact] at h
          obtain ⟨⟨rs', q₂⟩, hrest, heq⟩ := Option.map_eq_some_iff.1 h
          cases heq
          rw [List.cons_append, runLocal_cons hreact, ih hrest, Option.map_map]
          rfl

/-- **Every interleaving comes to the same.** -/
theorem Separate.run_interleaved (h : Separate step channel slot react Inv) {es : List E} :
    ∀ {s : S}, Inv s →
      (∀ i, (runLocal (react i) (slot i s) (own channel i es)).isSome = true) →
      ∃ rs s', run step s es = .ok (rs, s') ∧ Inv s' ∧
        ∀ i, runLocal (react i) (slot i s) (own channel i es)
          = some (ownOutputs channel i es rs, slot i s') := by
  induction es with
  | nil => exact fun {s} hs _ => ⟨[], s, rfl, hs, fun _ => rfl⟩
  | cons e es ih =>
      intro s hs hlocal
      have hself := hlocal (channel e)
      rw [own_cons_self] at hself
      cases hreact : react (channel e) (slot (channel e) s) e with
      | none =>
          rw [runLocal, hreact] at hself
          cases hself
      | some out =>
          obtain ⟨r, q⟩ := out
          obtain ⟨s', hstep, hs', hslot, hothers⟩ := h.goes s e r q hs hreact
          rw [runLocal_cons hreact, Option.isSome_map, ← hslot] at hself
          have hrest : ∀ i, (runLocal (react i) (slot i s') (own channel i es)).isSome = true := by
            intro i
            by_cases hi : i = channel e
            · rw [hi]
              exact hself
            · have hother := hlocal i
              rw [own_cons_other hi, ← hothers i hi] at hother
              exact hother
          obtain ⟨rs, s'', hrun, hs'', hout⟩ := ih hs' hrest
          refine ⟨r :: rs, s'', ?_, hs'', fun i => ?_⟩
          · unfold run
            rw [hstep]
            simp only [hrun]
          · by_cases hi : i = channel e
            · subst hi
              rw [own_cons_self, ownOutputs_cons_self, runLocal_cons hreact, ← hslot, hout]
              rfl
            · rw [own_cons_other hi, ownOutputs_cons_other hi, ← hothers i hi]
              exact hout i

end Channels
