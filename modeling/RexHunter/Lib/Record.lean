import RexHunter.Lib.JsonRoundTrip

set_option autoImplicit false

/-! # Records in JSON objects

A record type is a list of fields, each with a name, a kind that says which JSON values it accepts,
and perhaps a default. A record is written as an object with all its fields, and read from an object
that has no others; a field with a default may be missing. The kinds and their values are a
parameter. -/

/-- How the values of the kinds are read and written. -/
structure ValueCodec (K V : Type) where
  read : K → Json → Option V
  write : V → Json

structure RecordField (K V : Type) where
  name : PyStr
  kind : K
  default : Option V

/-- A record type. -/
abbrev RecordType (K V : Type) : Type := List (RecordField K V)

namespace RecordType

variable {K V : Type}

/-- The value of a field of the object. -/
def readField (c : ValueCodec K V) (d : Dict) (f : RecordField K V) : Option V :=
  match d.get f.name with
  | some v => c.read f.kind v
  | none => f.default

def readFields (c : ValueCodec K V) (d : Dict) : RecordType K V → Option (List V)
  | [] => some []
  | f :: fs => do
      let v ← readField c d f
      let vs ← readFields c d fs
      return v :: vs

/-- The key of the object is the name of a field. -/
def knows (r : RecordType K V) (key : Key) : Bool := r.any (fun f => decide (key = .str f.name))

/-- The values of the record in the object; a field it does not know makes the object invalid. -/
def validate (c : ValueCodec K V) (r : RecordType K V) (d : Dict) : Option (List V) :=
  if d.all (fun e => r.knows e.1) then readFields c d r else none

/-- The object of the record with these values. -/
def dump (c : ValueCodec K V) : RecordType K V → List V → Dict
  | f :: fs, v :: vs => (.str f.name, c.write v) :: dump c fs vs
  | _, _ => []

/-- The values are those of the fields: each is read back from what is written for it. -/
def Fits (c : ValueCodec K V) : RecordType K V → List V → Prop :=
  List.Forall₂ (fun f v => c.read f.kind (c.write v) = some v)

variable {c : ValueCodec K V} {r : RecordType K V} {vs : List V} {d : Dict}

/-! ## What a valid object is like -/

theorem readFields_required (h : readFields c d r = some vs) :
    ∀ f ∈ r, f.default = none → (d.get f.name).isSome = true := by
  induction r generalizing vs with
  | nil => exact fun _ hf => nomatch hf
  | cons f fs ih =>
      unfold readFields at h
      obtain ⟨v, hv, h⟩ := Option.bind_eq_some_iff.1 h
      obtain ⟨vs', hvs, h⟩ := Option.bind_eq_some_iff.1 h
      intro g hg hdefault
      rcases List.mem_cons.1 hg with rfl | hg
      · unfold readField at hv
        cases hget : d.get g.name with
        | some x => rfl
        | none =>
            rw [hget] at hv
            exact absurd (hdefault.symm.trans hv) (by simp)
      · exact ih hvs g hg hdefault

/-- No required field of a valid object is missing. -/
theorem validate_required (h : validate c r d = some vs) :
    ∀ f ∈ r, f.default = none → (d.get f.name).isSome = true := by
  unfold validate at h
  split at h
  · exact readFields_required h
  · cases h

/-- A valid object has no other fields. -/
theorem validate_known (h : validate c r d = some vs) :
    ∀ e ∈ d, ∃ f ∈ r, e.1 = .str f.name := by
  unfold validate at h
  split at h
  · next hall =>
      intro e he
      obtain ⟨f, hf, hkey⟩ := List.any_eq_true.1 (List.all_eq_true.1 hall e he)
      exact ⟨f, hf, of_decide_eq_true hkey⟩
  · cases h

theorem readFields_length (h : readFields c d r = some vs) : vs.length = r.length := by
  induction r generalizing vs with
  | nil =>
      cases h
      rfl
  | cons f fs ih =>
      unfold readFields at h
      obtain ⟨v, _, h⟩ := Option.bind_eq_some_iff.1 h
      obtain ⟨vs', hvs, h⟩ := Option.bind_eq_some_iff.1 h
      cases h
      exact congrArg (· + 1) (ih hvs)

theorem validate_length (h : validate c r d = some vs) : vs.length = r.length := by
  unfold validate at h
  split at h
  · exact readFields_length h
  · cases h

theorem readFields_isSome :
    (∃ vs, readFields c d r = some vs) ↔ ∀ f ∈ r, ∃ v, readField c d f = some v := by
  induction r with
  | nil => exact ⟨fun _ _ hf => (nomatch hf), fun _ => ⟨[], rfl⟩⟩
  | cons f fs ih =>
      rw [List.forall_mem_cons, ← ih]
      constructor
      · rintro ⟨vs, h⟩
        unfold readFields at h
        obtain ⟨v, hv, h⟩ := Option.bind_eq_some_iff.1 h
        obtain ⟨vs', hvs, h⟩ := Option.bind_eq_some_iff.1 h
        exact ⟨⟨v, hv⟩, vs', hvs⟩
      · rintro ⟨⟨v, hv⟩, vs, hvs⟩
        refine ⟨v :: vs, ?_⟩
        unfold readFields
        rw [hv, hvs]
        rfl

/-- The valid objects: no unknown field, and every field has a value. -/
theorem validate_isSome : (∃ vs, validate c r d = some vs) ↔
    (∀ e ∈ d, ∃ f ∈ r, e.1 = .str f.name) ∧ ∀ f ∈ r, ∃ v, readField c d f = some v := by
  rw [← readFields_isSome]
  constructor
  · rintro ⟨vs, h⟩
    refine ⟨validate_known h, vs, ?_⟩
    unfold validate at h
    split at h
    · exact h
    · cases h
  · rintro ⟨hknown, vs, h⟩
    refine ⟨vs, ?_⟩
    have hall : d.all (fun e => r.knows e.1) = true := by
      refine List.all_eq_true.2 (fun e he => ?_)
      obtain ⟨f, hf, hkey⟩ := hknown e he
      exact List.any_eq_true.2 ⟨f, hf, decide_eq_true hkey⟩
    unfold validate
    rw [if_pos hall]
    exact h

/-! ## Round trip -/

theorem mem_dump {e : Key × Json} (h : e ∈ dump c r vs) : ∃ f ∈ r, e.1 = .str f.name := by
  induction r generalizing vs with
  | nil => cases h
  | cons f fs ih =>
      cases vs with
      | nil => cases h
      | cons v vs =>
          rcases List.mem_cons.1 h with rfl | h
          · exact ⟨f, List.mem_cons_self, rfl⟩
          · obtain ⟨g, hg, hkey⟩ := ih h
            exact ⟨g, List.mem_cons_of_mem _ hg, hkey⟩

theorem get_cons (s key : PyStr) (v : Json) (d : Dict) :
    Dict.get ((.str s, v) :: d) key = if s = key then some v else d.get key := by
  unfold Dict.get
  by_cases h : s = key
  · simp [h]
  · simp [h]

/-- The fields are read from any object in which they have these values. -/
theorem readFields_of_get (h : Fits c r vs)
    (hget : ∀ f v, (f, v) ∈ r.zip vs → d.get f.name = some (c.write v)) :
    readFields c d r = some vs := by
  induction h with
  | nil => rfl
  | @cons f v fs vs hread _ ih =>
      have hfirst : readField c d f = some v := by
        unfold readField
        rw [hget f v List.mem_cons_self]
        exact hread
      unfold readFields
      rw [hfirst, ih (fun g w hg => hget g w (List.mem_cons_of_mem _ hg))]
      rfl

theorem get_dump (hnames : (r.map RecordField.name).Nodup) {f : RecordField K V} {v : V}
    (h : (f, v) ∈ r.zip vs) : (dump c r vs).get f.name = some (c.write v) := by
  induction r generalizing vs with
  | nil => cases h
  | cons g gs ih =>
      cases vs with
      | nil => cases h
      | cons w ws =>
          obtain ⟨hnew, hrest⟩ := List.nodup_cons.1 hnames
          unfold dump
          rw [get_cons]
          rcases List.mem_cons.1 h with heq | h
          · cases heq
            rw [if_pos rfl]
          · have hother : g.name ≠ f.name := by
              intro heq
              exact hnew (heq ▸ List.mem_map_of_mem (List.of_mem_zip h).1)
            rw [if_neg hother]
            exact ih hrest h

/-- **A record is read back from the object it is written as.** -/
theorem validate_dump (hnames : (r.map RecordField.name).Nodup) (h : Fits c r vs) :
    validate c r (dump c r vs) = some vs := by
  have hknown : (dump c r vs).all (fun e => r.knows e.1) = true := by
    refine List.all_eq_true.2 (fun e he => ?_)
    obtain ⟨f, hf, hkey⟩ := mem_dump he
    exact List.any_eq_true.2 ⟨f, hf, decide_eq_true hkey⟩
  unfold validate
  rw [if_pos hknown]
  exact readFields_of_get h (fun f v hf => get_dump hnames hf)

/-! ## The object of a record -/

theorem keys_dump : ∀ (r : RecordType K V) (vs : List V),
    List.Sublist ((dump c r vs).map Prod.fst) (r.map (fun f => Key.str f.name))
  | [], _ => List.nil_sublist _
  | _ :: _, [] => List.nil_sublist _
  | _ :: fs, _ :: vs => (keys_dump fs vs).cons_cons _

theorem mem_values_dump {e : Key × Json} (h : e ∈ dump c r vs) : ∃ v ∈ vs, e.2 = c.write v := by
  induction r generalizing vs with
  | nil => cases h
  | cons f fs ih =>
      cases vs with
      | nil => cases h
      | cons v vs =>
          rcases List.mem_cons.1 h with rfl | h
          · exact ⟨v, List.mem_cons_self, rfl⟩
          · obtain ⟨w, hw, hvalue⟩ := ih h
            exact ⟨w, List.mem_cons_of_mem _ hw, hvalue⟩

/-- A record of scalars is a flat object. -/
theorem flat_dump (hnames : (r.map RecordField.name).Nodup)
    (hscalar : ∀ v, (c.write v).isScalar = true) : (dump c r vs).Flat := by
  refine ⟨⟨fun e he => ?_, ?_⟩, fun e he => ?_⟩
  · obtain ⟨f, _, hkey⟩ := mem_dump he
    exact ⟨f.name, hkey⟩
  · have hkeys : (r.map (fun f => Key.str f.name)).Nodup := by
      have hmap := hnames.map (f := Key.str) (fun _ _ h => Key.str.inj h)
      rwa [List.map_map] at hmap
    exact hkeys.sublist (keys_dump r vs)
  · obtain ⟨v, _, hvalue⟩ := mem_values_dump he
    rw [hvalue]
    exact hscalar v

theorem surrogateFree_values (h : Fits c r vs)
    (hfree : Json.surrogateFreeEntries (dump c r vs) = true) :
    ∀ v ∈ vs, (c.write v).surrogateFree = true := by
  induction h with
  | nil => exact fun _ hv => nomatch hv
  | cons _ _ ih =>
      simp only [dump, Json.surrogateFreeEntries, Bool.and_eq_true] at hfree
      exact List.forall_mem_cons.2 ⟨hfree.1.2, ih hfree.2⟩

end RecordType
