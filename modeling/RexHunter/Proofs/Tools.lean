import RexHunter.Implementation.Tools
import RexHunter.Proofs.Codec

set_option autoImplicit false

/-! # One signature, three artifacts

The schema a tool is presented with, the arguments its validator accepts and the call it receives
are derived from one args-model, but `_strip_titles` also drops a property that is called `title`,
the model has no field for some parameters, and the call is by keyword. The theorem says for which
signatures the three agree: in a signature that they agree on, every parameter is a field under its
own name, and a keyword call binds. -/

namespace RexHunter

/-! ## The names in a schema -/

/-- The texts among the keys. -/
def textKeys (d : Dict) : List PyStr :=
  d.filterMap (fun e => match e.1 with
    | .str s => some s
    | _ => none)

/-- The texts among the values. -/
def textItems (items : List Json) : List PyStr :=
  items.filterMap (fun v => match v with
    | .str s => some s
    | _ => none)

/-- A member of the schema. -/
def member (schema : Json) (key : String) : Option Json :=
  match schema with
  | .obj d => Dict.get d (py key)
  | _ => none

/-- The names that the schema presents. -/
def propertyNames (schema : Json) : List PyStr :=
  match member schema "properties" with
  | some (.obj properties) => textKeys properties
  | _ => []

/-- The names that the schema requires. -/
def requiredNames (schema : Json) : List PyStr :=
  match member schema "required" with
  | some (.arr items) => textItems items
  | _ => []

theorem textItems_map (l : List PyStr) : textItems (l.map .str) = l := by
  induction l with
  | nil => rfl
  | cons s l ih => exact congrArg (s :: ·) ih

/-! ## `_strip_titles` -/

theorem stripItems_texts (l : List PyStr) : stripItems (l.map .str) = l.map .str := by
  induction l with
  | nil => rfl
  | cons s l ih => exact congrArg (Json.str s :: ·) ih

/-- Only the entries called `title` go. -/
theorem textKeys_stripEntries (d : Dict) :
    textKeys (stripEntries d) = (textKeys d).filter (fun s => decide (s ≠ py "title")) := by
  induction d with
  | nil => rfl
  | cons e d ih =>
      obtain ⟨k, v⟩ := e
      by_cases hk : k = titleKey
      · subst hk
        have hstrip : stripEntries ((titleKey, v) :: d) = stripEntries d := if_pos rfl
        have hkeys : textKeys ((titleKey, v) :: d) = py "title" :: textKeys d := rfl
        rw [hstrip, hkeys, ih, List.filter_cons_of_neg (by simp)]
      · have hstrip : stripEntries ((k, v) :: d) = (k, stripTitles v) :: stripEntries d := if_neg hk
        rw [hstrip]
        cases k with
        | str s =>
            have hs : s ≠ py "title" := fun heq => hk (congrArg Key.str heq)
            have hkeys : textKeys ((.str s, v) :: d) = s :: textKeys d := rfl
            have hkeys' : textKeys ((.str s, stripTitles v) :: stripEntries d)
                = s :: textKeys (stripEntries d) := rfl
            rw [hkeys, hkeys', ih, List.filter_cons_of_pos (by simpa using hs)]
        | int | float | bool | null => exact ih

theorem get_stripEntries {key : PyStr} (hkey : key ≠ py "title") (d : Dict) :
    Dict.get (stripEntries d) key = (Dict.get d key).map stripTitles := by
  induction d with
  | nil => rfl
  | cons e d ih =>
      obtain ⟨k, v⟩ := e
      by_cases hk : k = titleKey
      · have hstrip : stripEntries ((k, v) :: d) = stripEntries d := if_pos hk
        have hne : k ≠ .str key := fun heq => hkey (Key.str.inj (heq.symm.trans hk))
        have hget : Dict.get ((k, v) :: d) key = Dict.get d key := by simp [Dict.get, hne]
        rw [hstrip, hget, ih]
      · have hstrip : stripEntries ((k, v) :: d) = (k, stripTitles v) :: stripEntries d := if_neg hk
        rw [hstrip]
        by_cases heq : k = .str key
        · simp [Dict.get, heq]
        · have hget : Dict.get ((k, v) :: d) key = Dict.get d key := by simp [Dict.get, heq]
          have hget' : Dict.get ((k, stripTitles v) :: stripEntries d) key
              = Dict.get (stripEntries d) key := by simp [Dict.get, heq]
          rw [hget, hget', ih]

/-! ## The properties -/

namespace ArgsModel

theorem textKeys_set (d : Dict) (key : PyStr) (v : Json) :
    List.Sublist (textKeys (Dict.set d (.str key) v)) (textKeys d ++ [key]) := by
  induction d with
  | nil => exact List.Sublist.refl _
  | cons e d ih =>
      unfold Dict.set
      split
      · have hkeys : textKeys ((e.1, v) :: d) = textKeys (e :: d) := rfl
        rw [hkeys]
        exact List.sublist_append_left _ _
      · obtain ⟨k, w⟩ := e
        cases k with
        | str s => exact ih.cons_cons s
        | int | float | bool | null => exact ih

/-- The names of the properties are among the keys of the fields, in this order. -/
theorem properties_sublist {fields : List ModelField} : ∀ {d d' : Dict},
    properties fields d = some d' →
      List.Sublist (textKeys d') (textKeys d ++ fields.map ModelField.key) := by
  induction fields with
  | nil =>
      intro d d' h
      cases h
      rw [List.map_nil, List.append_nil]
  | cons f fs ih =>
      intro d d' h
      unfold properties at h
      split at h
      · have hrest := ih h
        rw [List.map_cons, List.append_cons]
        exact hrest.trans ((textKeys_set d f.key _).append (List.Sublist.refl _))
      · cases h

/-- Every field has a schema. -/
theorem properties_schema {fields : List ModelField} : ∀ {d d' : Dict},
    properties fields d = some d' →
      ∀ f ∈ fields, ∃ s, f.hint.schema f.name f.info = some s := by
  induction fields with
  | nil => exact fun _ _ hf => nomatch hf
  | cons f fs ih =>
      intro d d' h
      unfold properties at h
      split at h
      · next s hs => exact List.forall_mem_cons.2 ⟨⟨s, hs⟩, ih h⟩
      · cases h

/-- With different keys, the properties are the fields. -/
theorem properties_of_nodup {fields : List ModelField} : ∀ {d : Dict},
    (∀ f ∈ fields, ∃ s, f.hint.schema f.name f.info = some s) →
    (d.map Prod.fst ++ fields.map (fun f => Key.str f.key)).Nodup →
      ∃ d', properties fields d = some d' ∧
        textKeys d' = textKeys d ++ fields.map ModelField.key := by
  induction fields with
  | nil => exact fun {d} _ _ => ⟨d, rfl, by rw [List.map_nil, List.append_nil]⟩
  | cons f fs ih =>
      intro d hschema hnodup
      obtain ⟨⟨s, hs⟩, hrest⟩ := List.forall_mem_cons.1 hschema
      rw [List.map_cons] at hnodup
      have hnew : ∀ e ∈ d, e.1 ≠ Key.str f.key := by
        intro e he heq
        refine List.disjoint_of_nodup_append hnodup (List.mem_map_of_mem he) ?_
        rw [heq]
        exact List.mem_cons_self
      have hset : Dict.set d (.str f.key) s = d ++ [(.str f.key, s)] := Dict.set_new hnew s
      have hkeys : textKeys (d ++ [(.str f.key, s)]) = textKeys d ++ [f.key] :=
        List.filterMap_append
      obtain ⟨d', hd', hkeys'⟩ := @ih (d ++ [(.str f.key, s)]) hrest (by
        rw [List.map_append, List.append_assoc]
        exact hnodup)
      refine ⟨d', ?_, ?_⟩
      · unfold properties
        rw [hs]
        simp only [hset]
        exact hd'
      · rw [hkeys', hkeys, List.append_assoc]
        rfl

/-- The two members of the schema that name fields. -/
theorem modelJsonSchema_members {m : ArgsModel} {schema : Json}
    (h : m.modelJsonSchema = some schema) :
    ∃ d properties, schema = .obj d ∧ ArgsModel.properties m.fields [] = some properties ∧
      Dict.get d (py "properties") = some (.obj properties) ∧
      Dict.get d (py "required") =
        if m.requiredKeys = [] then none else some (.arr (m.requiredKeys.map .str)) := by
  unfold modelJsonSchema at h
  split at h
  · cases h
  · next properties hproperties =>
      cases h
      refine ⟨_, properties, rfl, hproperties, ?_, ?_⟩
      all_goals
        by_cases hdefs : m.defs = []
        all_goals by_cases hkeys : m.requiredKeys = []
        all_goals
          simp only [hdefs, hkeys, if_true, if_false, List.nil_append, List.cons_append,
            List.append_nil, List.map_cons, List.map_nil]
          repeat rw [RecordType.get_cons, if_neg (by decide)]
          rfl

theorem modelJsonSchema_of_properties {m : ArgsModel} {d : Dict}
    (h : ArgsModel.properties m.fields [] = some d) : ∃ schema, m.modelJsonSchema = some schema := by
  unfold modelJsonSchema
  rw [h]
  exact ⟨_, rfl⟩

end ArgsModel

section Presented

variable {m : ArgsModel} {schema : Json}

/-- What the presented schema names. -/
theorem names_stripTitles (h : m.modelJsonSchema = some schema) :
    ∃ properties, ArgsModel.properties m.fields [] = some properties ∧
      propertyNames (stripTitles schema)
        = (textKeys properties).filter (fun s => decide (s ≠ py "title")) ∧
      requiredNames (stripTitles schema) = m.requiredKeys := by
  obtain ⟨d, properties, rfl, hproperties, hget, hget'⟩ := ArgsModel.modelJsonSchema_members h
  have hstrip : stripTitles (.obj d) = .obj (stripEntries d) := rfl
  refine ⟨properties, hproperties, ?_, ?_⟩
  · have hmember : member (.obj (stripEntries d)) "properties"
        = some (.obj (stripEntries properties)) := by
      show Dict.get (stripEntries d) (py "properties") = _
      rw [get_stripEntries (by decide), hget]
      rfl
    unfold propertyNames
    rw [hstrip, hmember]
    exact textKeys_stripEntries properties
  · have hmember : member (.obj (stripEntries d)) "required"
        = if m.requiredKeys = [] then none else some (.arr (m.requiredKeys.map .str)) := by
      show Dict.get (stripEntries d) (py "required") = _
      rw [get_stripEntries (by decide), hget']
      by_cases hkeys : m.requiredKeys = []
      · rw [if_pos hkeys]
        rfl
      · rw [if_neg hkeys]
        exact congrArg (fun items => some (Json.arr items)) (stripItems_texts _)
    unfold requiredNames
    rw [hstrip, hmember]
    by_cases hkeys : m.requiredKeys = []
    · rw [if_pos hkeys, hkeys]
    · rw [if_neg hkeys]
      exact textItems_map _

end Presented

/-! ## Parameters and fields -/

/-- The field of the parameter. -/
structure Describes (p : Parameter) (f : ModelField) : Prop where
  name : f.name = p.name
  hint : p.hint = some f.hint
  info : f.info = p.default.info

theorem fieldsOf_describes : ∀ {ps : List Parameter} {fields : List ModelField},
    fieldsOf ps = .ok fields → List.Forall₂ Describes ps fields
  | [], _, h => by
      cases h
      exact .nil
  | p :: ps, _, h => by
      unfold fieldsOf at h
      split at h
      · cases h
      · next hint hhint =>
          cases hrest : fieldsOf ps with
          | error e =>
              rw [hrest] at h
              cases h
          | ok fields =>
              rw [hrest] at h
              cases h
              exact .cons ⟨rfl, hhint, rfl⟩ (fieldsOf_describes hrest)

theorem names_of_describes {ps : List Parameter} {fields : List ModelField}
    (h : List.Forall₂ Describes ps fields) :
    fields.map ModelField.name = ps.map Parameter.name := by
  induction h with
  | nil => rfl
  | cons hfield _ ih => exact congrArg₂ List.cons hfield.name ih

/-- What is true of every field is true of the fields of the parameters, and conversely. -/
theorem forall_describes {ps : List Parameter} {fields : List ModelField}
    (h : List.Forall₂ Describes ps fields) {P : Parameter → Prop} {Q : ModelField → Prop}
    (hiff : ∀ p f, Describes p f → (P p ↔ Q f)) : (∀ p ∈ ps, P p) ↔ ∀ f ∈ fields, Q f := by
  induction h with
  | nil => exact ⟨fun _ _ hf => (nomatch hf), fun _ _ hp => (nomatch hp)⟩
  | cons hfield _ ih => rw [List.forall_mem_cons, List.forall_mem_cons, hiff _ _ hfield, ih]

/-- The validator insists on the parameter. -/
def Parameter.required (p : Parameter) : Bool := p.default.info.default.isNone

/-- The parameter is a field under its own name, which is not `title`, and has a schema. -/
structure Parameter.Presentable [PydanticModels] (p : Parameter) : Prop where
  name : p.name ≠ py "title"
  isField : ∀ hint, p.hint = some hint →
    PydanticModels.isField ⟨p.name, hint, p.default.info⟩ = true
  aliasName : p.default.info.aliasName.getD p.name = p.name
  schema : ∃ hint s, p.hint = some hint ∧
    hint.schema p.name p.default.info = some s

/-- No argument is valid for the parameter. -/
def Parameter.Closed (p : Parameter) : Prop :=
  ∀ hint, p.hint = some hint → ∀ v, hint.validate v = none

/-- A call that gives every parameter a keyword argument binds: every positional-only parameter has
    a default, and without a `**kwargs` there are only parameters that take keywords. -/
def KeywordCallable (ps : List Parameter) : Prop :=
  (∀ p ∈ ps, p.kind = .positionalOnly → p.hasDefault = true) ∧
    ((∃ p ∈ ps, p.kind = .varKeyword) ∨ ∀ p ∈ ps, p.byKeyword = true)

/-- The signatures on which the three artifacts agree. -/
def Coherent [PydanticModels] (ps : List Parameter) : Prop :=
  (∀ p ∈ ps, p.Presentable) ∧
    ((KeywordCallable ps ∧ ∀ p ∈ ps, p.default.info.exclude = false) ∨
      ∃ p ∈ ps, p.required = true ∧ p.Closed)

section Agreement

variable [PydanticModels]

/-- The three artifacts agree on the parameters of the handler, and on which are required. -/
structure Tool.Agrees (t : Tool) : Prop where
  presented : ∃ schema, t.inputSchema = .ok schema ∧
    propertyNames schema = t.fn.parameters.map Parameter.name ∧
    requiredNames schema = (t.fn.parameters.filter Parameter.required).map Parameter.name
  accepted : ∀ args, (∃ values, t.argsModel.modelValidate args = .ok values) ↔
    (∀ e ∈ args, ∃ p ∈ t.fn.parameters, e.1 = .str p.name) ∧
      ∀ p ∈ t.fn.parameters, ∀ hint, p.hint = some hint →
        match Dict.get args p.name with
        | some v => (hint.validate v).isSome = true
        | none => p.required = false
  bound : ∀ args values, t.argsModel.modelValidate args = .ok values →
    (t.argsModel.modelDump values).map Prod.fst
        = t.fn.parameters.map (fun p => Key.str p.name) ∧
      binds t.fn.parameters (t.argsModel.modelDump values) = true

/-! ### What is presented -/

/-- The field is presented under its own name. -/
structure ModelField.Presentable (f : ModelField) : Prop where
  name : f.name ≠ py "title"
  isField : PydanticModels.isField f = true
  key : f.key = f.name
  schema : ∃ s, f.hint.schema f.name f.info = some s

/-- What is presented has an ordinary name. -/
theorem Parameter.Presentable.ordinary {p : Parameter} (h : p.Presentable) :
    isPrivate p.name = false ∧ p.name ≠ py "model_config" := by
  obtain ⟨hint, _, hhint, _⟩ := h.schema
  have hfield := h.isField hint hhint
  refine ⟨Bool.eq_false_iff.2 (fun hprivate => ?_), fun hconfig => ?_⟩
  · rw [PydanticModels.isField_private _ hprivate] at hfield
    cases hfield
  · rw [PydanticModels.isField_modelConfig _ hconfig] at hfield
    cases hfield

theorem Describes.presentable {p : Parameter} {f : ModelField} (h : Describes p f) :
    p.Presentable ↔ f.Presentable := by
  have hf : (⟨p.name, f.hint, p.default.info⟩ : ModelField) = f := by
    rw [← h.name, ← h.info]
  constructor
  · rintro ⟨hname, hfield, halias, hint, s, hhint, hs⟩
    have heq : hint = f.hint := Option.some.inj (hhint.symm.trans h.hint)
    subst heq
    have hfield' := hfield f.hint h.hint
    rw [hf] at hfield'
    rw [← h.name] at hname halias hs
    rw [← h.info] at halias hs
    exact ⟨hname, hfield', halias, s, hs⟩
  · rintro ⟨hname, hfield, hkey, s, hs⟩
    unfold ModelField.key at hkey
    rw [h.name] at hname hkey hs
    rw [h.info] at hkey hs
    refine ⟨hname, fun hint hhint => ?_, hkey, f.hint, s, h.hint, hs⟩
    cases hhint.symm.trans h.hint
    rwa [hf]

variable {fields : List ModelField} {name : PyStr}

theorem filter_presentable (h : ∀ f ∈ fields, f.Presentable) :
    fields.filter PydanticModels.isField = fields :=
  List.filter_eq_self.2 (fun f hf => (h f hf).isField)

theorem keys_presentable (h : ∀ f ∈ fields, f.Presentable) :
    fields.map ModelField.key = fields.map ModelField.name :=
  List.map_congr_left (fun f hf => (h f hf).key)

/-- The schema presents the fields, one for one, exactly when each is presentable. -/
theorem presents_iff (hnodup : (fields.map ModelField.name).Nodup) :
    (∃ schema, (ArgsModel.mk name (fields.filter PydanticModels.isField)).modelJsonSchema
        = some schema ∧ propertyNames (stripTitles schema) = fields.map ModelField.name) ↔
      ∀ f ∈ fields, f.Presentable := by
  constructor
  · rintro ⟨schema, hschema, hnames⟩
    obtain ⟨properties, hproperties, hpresented, _⟩ := names_stripTitles hschema
    have hkeys : List.Sublist (textKeys properties)
        ((fields.filter PydanticModels.isField).map ModelField.key) :=
      ArgsModel.properties_sublist hproperties
    rw [hpresented] at hnames
    -- nothing can be lost on the way from the fields to the names
    have hlength : fields.length ≤ ((textKeys properties).filter
        (fun s => decide (s ≠ py "title"))).length := by
      rw [hnames, List.length_map]
    have htitle := List.filter_sublist (p := fun s => decide (s ≠ py "title"))
      (l := textKeys properties)
    have hfields := List.filter_sublist (p := PydanticModels.isField) (l := fields)
    have hbounds : (textKeys properties).length ≤ fields.length :=
      hkeys.length_le.trans ((List.length_map _).le.trans hfields.length_le)
    have hkept : fields.filter PydanticModels.isField = fields := by
      refine hfields.eq_of_length_le (hlength.trans (htitle.length_le.trans ?_))
      exact hkeys.length_le.trans (List.length_map _).le
    have huntitled := htitle.eq_of_length_le (hbounds.trans hlength)
    have hall : textKeys properties = fields.map ModelField.key := by
      rw [hkept] at hkeys
      refine hkeys.eq_of_length_le ?_
      rw [List.length_map]
      exact hlength.trans htitle.length_le
    rw [huntitled, hall] at hnames
    intro f hf
    have hkey : f.key = f.name := List.map_inj_left.1 hnames f hf
    refine ⟨fun heq => ?_, ?_, hkey, ?_⟩
    · have hmem : f.key ∈ textKeys properties := by
        rw [hall]
        exact List.mem_map_of_mem hf
      have hne := List.filter_eq_self.1 huntitled f.key hmem
      rw [decide_eq_true_eq] at hne
      exact hne (hkey.trans heq)
    · exact List.filter_eq_self.1 hkept f hf
    · rw [← hkept] at hf
      exact ArgsModel.properties_schema hproperties f hf
  · intro h
    have hnames := keys_presentable h
    have hstrs : (fields.map (fun f => Key.str f.key)).Nodup := by
      have hmap := hnodup.map (f := Key.str) (fun _ _ heq => Key.str.inj heq)
      rw [← hnames, List.map_map] at hmap
      exact hmap
    obtain ⟨d, hd, hkeys⟩ := @ArgsModel.properties_of_nodup fields [] (fun f hf => (h f hf).schema)
      hstrs
    obtain ⟨schema, hschema⟩ := ArgsModel.modelJsonSchema_of_properties
      (m := ⟨name, fields⟩) hd
    obtain ⟨properties, hproperties, hpresented, _⟩ := names_stripTitles hschema
    cases hd.symm.trans hproperties
    rw [filter_presentable h]
    refine ⟨schema, hschema, ?_⟩
    rw [hpresented, hkeys, List.filter_eq_self.2]
    · exact hnames
    · intro s hs
      obtain ⟨f, hf, rfl⟩ := List.mem_map.1 hs
      rw [decide_eq_true_eq, (h f hf).key]
      exact (h f hf).name

/-! ### What is accepted -/

/-- The argument of the field, or that it can do without. -/
def ModelField.Takes (f : ModelField) (args : Dict) : Prop :=
  match Dict.get args f.name with
  | some v => (f.hint.validate v).isSome = true
  | none => f.info.default.isNone = false

theorem values_isSome (h : ∀ f ∈ fields, f.Presentable) (args : Dict) :
    (∃ values, (ArgsModel.mk name fields).values args = some values) ↔
      (∀ e ∈ args, ∃ f ∈ fields, e.1 = .str f.name) ∧ ∀ f ∈ fields, f.Takes args := by
  unfold ArgsModel.values ArgsModel.record
  rw [RecordType.validate_isSome]
  refine and_congr ⟨fun hknown e he => ?_, fun hknown e he => ?_⟩
    ⟨fun hread f hf => ?_, fun htakes g hg => ?_⟩
  · obtain ⟨g, hg, hkey⟩ := hknown e he
    obtain ⟨f, hf, rfl⟩ := List.mem_map.1 hg
    exact ⟨f, hf, hkey.trans (congrArg Key.str (h f hf).key)⟩
  · obtain ⟨f, hf, hkey⟩ := hknown e he
    exact ⟨_, List.mem_map_of_mem hf, hkey.trans (congrArg Key.str (h f hf).key.symm)⟩
  · obtain ⟨v, hv⟩ := hread _ (List.mem_map_of_mem hf)
    unfold RecordType.readField at hv
    simp only [(h f hf).key] at hv
    unfold ModelField.Takes
    cases hget : Dict.get args f.name with
    | some w =>
        rw [hget] at hv
        exact Option.isSome_iff_exists.2 ⟨v, hv⟩
    | none =>
        rw [hget] at hv
        simp only at hv ⊢
        rw [hv]
        rfl
  · obtain ⟨f, hf, rfl⟩ := List.mem_map.1 hg
    have htake := htakes f hf
    unfold ModelField.Takes at htake
    unfold RecordType.readField
    simp only [(h f hf).key]
    cases hget : Dict.get args f.name with
    | some w =>
        rw [hget] at htake
        exact Option.isSome_iff_exists.1 htake
    | none =>
        rw [hget] at htake
        exact Option.isSome_iff_exists.1 (by simpa [← Option.not_isSome] using htake)

omit [PydanticModels] in
/-- Arguments for the required fields, if each has a valid one. -/
theorem exists_args (hnodup : (fields.map ModelField.name).Nodup)
    (h : ∀ f ∈ fields, f.info.default.isNone = true → ∃ v, (f.hint.validate v).isSome = true) :
    ∃ args : Dict, (∀ e ∈ args, ∃ f ∈ fields, e.1 = .str f.name) ∧ ∀ f ∈ fields, f.Takes args := by
  induction fields with
  | nil => exact ⟨[], fun _ he => (nomatch he), fun _ hf => (nomatch hf)⟩
  | cons f fs ih =>
      obtain ⟨hnew, hrest⟩ := List.nodup_cons.1 hnodup
      obtain ⟨hf, hfs⟩ := List.forall_mem_cons.1 h
      obtain ⟨args, hknown, htakes⟩ := ih hrest hfs
      -- the name is new to the arguments of the other fields
      have hget : Dict.get args f.name = none := by
        unfold Dict.get
        rw [List.find?_eq_none.2]
        intro e he heq
        obtain ⟨g, hg, hkey⟩ := hknown e he
        rw [decide_eq_true_eq, hkey] at heq
        exact hnew (Key.str.inj heq ▸ List.mem_map_of_mem hg)
      have hknown' : ∀ e ∈ args, ∃ g ∈ f :: fs, e.1 = .str g.name := by
        intro e he
        obtain ⟨g, hg, hkey⟩ := hknown e he
        exact ⟨g, List.mem_cons_of_mem _ hg, hkey⟩
      cases hdefault : f.info.default.isNone with
      | false =>
          refine ⟨args, hknown', List.forall_mem_cons.2 ⟨?_, htakes⟩⟩
          unfold ModelField.Takes
          rw [hget]
          exact hdefault
      | true =>
          obtain ⟨v, hv⟩ := hf hdefault
          refine ⟨(.str f.name, v) :: args,
            List.forall_mem_cons.2 ⟨⟨f, List.mem_cons_self, rfl⟩, hknown'⟩,
            List.forall_mem_cons.2 ⟨?_, fun g hg => ?_⟩⟩
          · unfold ModelField.Takes
            rw [RecordType.get_cons, if_pos rfl]
            exact hv
          · have hne : f.name ≠ g.name := fun heq => hnew (heq ▸ List.mem_map_of_mem hg)
            unfold ModelField.Takes
            rw [RecordType.get_cons, if_neg hne]
            exact htakes g hg

/-! ### The call -/

omit [PydanticModels] in
theorem modelDump_names {values : List Json} {args : Dict}
    (h : (ArgsModel.mk name fields).values args = some values) :
    ((ArgsModel.mk name fields).modelDump values).map Prod.fst
      = (fields.filter (fun f => !f.info.exclude)).map (fun f => Key.str f.name) := by
  have hlength : fields.length ≤ values.length := by
    have hvalues := RecordType.validate_length h
    rw [ArgsModel.record, List.length_map] at hvalues
    exact hvalues.ge
  have hzip : (fields.zip values).map Prod.fst = fields := List.map_fst_zip hlength
  unfold ArgsModel.modelDump
  rw [List.map_map]
  calc ((fields.zip values).filter (fun e => !e.1.info.exclude)).map
        (Prod.fst ∘ fun e => (Key.str e.1.name, e.2))
      = (((fields.zip values).filter (fun e => !e.1.info.exclude)).map Prod.fst).map
          (fun f => Key.str f.name) := by rw [List.map_map]; rfl
    _ = (((fields.zip values).map Prod.fst).filter (fun f => !f.info.exclude)).map
          (fun f => Key.str f.name) := by rw [List.filter_map]; rfl
    _ = _ := by rw [hzip]

omit [PydanticModels] in
/-- The names of all fields are passed exactly when no field is excluded. -/
theorem modelDump_names_iff {values : List Json} {args : Dict}
    (h : (ArgsModel.mk name fields).values args = some values) :
    ((ArgsModel.mk name fields).modelDump values).map Prod.fst
        = fields.map (fun f => Key.str f.name) ↔ ∀ f ∈ fields, f.info.exclude = false := by
  rw [modelDump_names h]
  constructor
  · intro heq f hf
    have hsub := List.filter_sublist (p := fun f => !f.info.exclude) (l := fields)
    have hlength := congrArg List.length heq
    rw [List.length_map, List.length_map] at hlength
    have hself := List.filter_eq_self.1 (hsub.eq_of_length hlength) f hf
    simpa using hself
  · intro hall
    rw [List.filter_eq_self.2]
    intro f hf
    rw [hall f hf]
    rfl

omit [PydanticModels] in
theorem binds_iff {ps : List Parameter} (hnodup : (ps.map Parameter.name).Nodup) {kwargs : Dict}
    (h : kwargs.map Prod.fst = ps.map (fun p => Key.str p.name)) :
    binds ps kwargs = true ↔ KeywordCallable ps := by
  have hget : ∀ p ∈ ps, (Dict.get kwargs p.name).isSome = true := by
    intro p hp
    have hmem : Key.str p.name ∈ kwargs.map Prod.fst := by
      rw [h]
      exact List.mem_map_of_mem hp
    obtain ⟨e, he, hkey⟩ := List.mem_map.1 hmem
    unfold Dict.get
    cases hfind : kwargs.find? (fun e => decide (e.1 = .str p.name)) with
    | some e' => rfl
    | none => exact absurd (decide_eq_true hkey) (by simpa using List.find?_eq_none.1 hfind e he)
  unfold binds KeywordCallable
  rw [Bool.and_eq_true, List.all_eq_true, Bool.or_eq_true, List.any_eq_true, List.all_eq_true]
  refine and_congr ⟨fun hall p hp hkind => ?_, fun hpos p hp => ?_⟩ (or_congr ?_ ?_)
  · have hp' := hall p hp
    rw [hkind] at hp'
    exact hp'
  · cases hkind : p.kind with
    | positionalOnly => exact hpos p hp hkind
    | positionalOrKeyword | keywordOnly => simp [hget p hp]
    | varPositional | varKeyword => rfl
  · simp only [decide_eq_true_eq]
  · constructor
    · intro hall p hp
      have hmem : Key.str p.name ∈ kwargs.map Prod.fst := by
        rw [h]
        exact List.mem_map_of_mem hp
      obtain ⟨e, he, hkey⟩ := List.mem_map.1 hmem
      obtain ⟨q, hq, hboth⟩ := List.any_eq_true.1 (hall e he)
      rw [Bool.and_eq_true, decide_eq_true_eq, hkey] at hboth
      -- the names of the parameters differ, so the parameter that takes the keyword is this one
      have hsame : p = q := List.inj_on_of_nodup_map hnodup hp hq (Key.str.inj hboth.2)
      rw [hsame]
      exact hboth.1
    · intro hall e he
      have hmem : e.1 ∈ ps.map (fun p => Key.str p.name) := by
        rw [← h]
        exact List.mem_map_of_mem he
      obtain ⟨p, hp, hkey⟩ := List.mem_map.1 hmem
      refine List.any_eq_true.2 ⟨p, hp, ?_⟩
      rw [hall p hp, hkey]
      simp

/-- The field is required, and no argument is valid for it. -/
def ModelField.Unfillable (f : ModelField) : Prop :=
  f.info.default.isNone = true ∧ ∀ v, f.hint.validate v = none

omit [PydanticModels] in
theorem Describes.unfillable {p : Parameter} {f : ModelField} (h : Describes p f) :
    ¬ (p.required = true ∧ p.Closed) ↔ ¬ f.Unfillable := by
  unfold Parameter.required Parameter.Closed ModelField.Unfillable
  rw [h.info, h.hint]
  refine not_congr (and_congr_right (fun _ => ⟨fun hclosed => hclosed _ rfl, ?_⟩))
  rintro hclosed _ ⟨⟩
  exact hclosed

omit [PydanticModels] in
theorem ModelField.Takes.fillable {f : ModelField} {args : Dict} (h : f.Takes args) :
    ¬ f.Unfillable := by
  rintro ⟨hrequired, hclosed⟩
  unfold ModelField.Takes at h
  split at h
  · rw [hclosed] at h
    cases h
  · rw [hrequired] at h
    cases h

/-! ### Agreement -/

theorem createModel_ok {m : ArgsModel} (h : createModel name fields = .ok m) :
    m = ⟨name, fields.filter PydanticModels.isField⟩ := by
  unfold createModel at h
  split at h
  · cases h
  · cases h
    rfl

theorem fromFunction_ok {fn : ToolFn} {t : Tool} (h : fromFunction fn = .ok t) :
    ∃ fields, List.Forall₂ Describes fn.parameters fields ∧
      t = ⟨fn.name, fn, ⟨fn.name ++ py "_Args", fields.filter PydanticModels.isField⟩⟩ := by
  unfold fromFunction at h
  split at h
  · cases h
  · cases hfields : fieldsOf fn.parameters with
    | error e =>
        rw [hfields] at h
        cases h
    | ok fields =>
        rw [hfields] at h
        refine ⟨fields, fieldsOf_describes hfields, ?_⟩
        cases hmodel : createModel (fn.name ++ py "_Args") fields with
        | error e =>
            change (createModel (fn.name ++ py "_Args") fields >>= _) = _ at h
            rw [hmodel] at h
            cases h
        | ok m =>
            change (createModel (fn.name ++ py "_Args") fields >>= _) = _ at h
            rw [hmodel] at h
            cases h
            rw [createModel_ok hmodel]

omit [PydanticModels] in
theorem inputSchema_ok {t : Tool} {schema : Json} :
    t.inputSchema = .ok schema ↔
      ∃ titled, t.argsModel.modelJsonSchema = some titled ∧ stripTitles titled = schema := by
  unfold Tool.inputSchema
  cases t.argsModel.modelJsonSchema with
  | none => exact ⟨fun h => (nomatch h), fun ⟨_, h, _⟩ => (nomatch h)⟩
  | some titled =>
      exact ⟨fun h => ⟨titled, rfl, Except.ok.inj h⟩,
        fun ⟨_, htitled, h⟩ => congrArg Except.ok (Option.some.inj htitled ▸ h)⟩

theorem modelValidate_ok {m : ArgsModel} {args : Dict} {values : List Json} :
    m.modelValidate args = .ok values ↔ m.values args = some values := by
  unfold ArgsModel.modelValidate
  cases m.values args with
  | none => exact ⟨fun h => (nomatch h), fun h => (nomatch h)⟩
  | some vs =>
      exact ⟨fun h => congrArg some (Except.ok.inj h),
        fun h => congrArg Except.ok (Option.some.inj h)⟩

omit [PydanticModels] in
theorem Describes.takes {p : Parameter} {f : ModelField} (h : Describes p f) (args : Dict) :
    (∀ hint, p.hint = some hint →
      match Dict.get args p.name with
      | some v => (hint.validate v).isSome = true
      | none => p.required = false) ↔ f.Takes args := by
  unfold ModelField.Takes Parameter.required
  rw [h.name, h.info]
  constructor
  · exact fun hall => hall f.hint h.hint
  · intro htakes hint hhint
    cases hhint.symm.trans h.hint
    exact htakes

theorem requiredKeys_eq {ps : List Parameter} (hdescribes : List.Forall₂ Describes ps fields)
    (h : ∀ f ∈ fields, f.Presentable) :
    (ArgsModel.mk name fields).requiredKeys
      = (ps.filter Parameter.required).map Parameter.name := by
  unfold ArgsModel.requiredKeys
  induction hdescribes with
  | nil => rfl
  | @cons p f ps fs hfield _ ih =>
      obtain ⟨hf, hfs⟩ := List.forall_mem_cons.1 h
      have hrequired : f.info.default.isNone = p.required := by
        unfold Parameter.required
        rw [hfield.info]
      have hkey : f.key = p.name := hf.key.trans hfield.name
      rw [List.filter_cons, List.filter_cons, hrequired]
      split
      · rw [List.map_cons, List.map_cons, hkey, ih hfs]
      · exact ih hfs

omit [PydanticModels] in
theorem strs_of_describes {ps : List Parameter} (h : List.Forall₂ Describes ps fields) :
    fields.map (fun f => Key.str f.name) = ps.map (fun p => Key.str p.name) := by
  have hmap := congrArg (List.map Key.str) (names_of_describes h)
  rwa [List.map_map, List.map_map] at hmap

omit [PydanticModels] in
theorem known_describes {ps : List Parameter} (h : List.Forall₂ Describes ps fields) (args : Dict) :
    (∀ e ∈ args, ∃ p ∈ ps, e.1 = .str p.name) ↔ ∀ e ∈ args, ∃ f ∈ fields, e.1 = .str f.name := by
  have hmem : ∀ key : Key, (∃ p ∈ ps, key = .str p.name) ↔ ∃ f ∈ fields, key = .str f.name := by
    intro key
    have hmap := congrArg (key ∈ ·) (strs_of_describes h)
    rw [eq_iff_iff, List.mem_map, List.mem_map] at hmap
    simpa only [eq_comm] using hmap.symm
  exact forall₂_congr (fun e _ => hmem e.1)

section Directions

variable {fn : ToolFn} {toolName : PyStr} (hdescribes : List.Forall₂ Describes fn.parameters fields)

include hdescribes

omit [PydanticModels] in
theorem nodup_of_describes : (fields.map ModelField.name).Nodup := by
  rw [names_of_describes hdescribes]
  exact fn.names_nodup

omit [PydanticModels] in
theorem excluded_describes : (∀ p ∈ fn.parameters, p.default.info.exclude = false) ↔
    ∀ f ∈ fields, f.info.exclude = false :=
  forall_describes hdescribes (fun p f hfield => by rw [hfield.info])

/-- A tool whose artifacts agree has a coherent signature. -/
theorem coherent_of_agrees
    (h : (Tool.mk toolName fn ⟨name, fields.filter PydanticModels.isField⟩).Agrees) :
    Coherent fn.parameters := by
  have hnodup := nodup_of_describes hdescribes
  obtain ⟨schema, hschema, hpresented, _⟩ := h.presented
  obtain ⟨titled, htitled, rfl⟩ := inputSchema_ok.1 hschema
  have hall : ∀ f ∈ fields, f.Presentable :=
    (presents_iff hnodup).1
      ⟨titled, htitled, hpresented.trans (names_of_describes hdescribes).symm⟩
  refine ⟨(forall_describes hdescribes (fun p f hfield => hfield.presentable)).2 hall,
    or_iff_not_imp_right.2 (fun hopen => ?_)⟩
  have hfillable := (forall_describes hdescribes (fun p f hfield => hfield.unfillable)).1
    (fun p hp hboth => hopen ⟨p, hp, hboth⟩)
  have hsome : ∀ f ∈ fields, f.info.default.isNone = true →
      ∃ v, (f.hint.validate v).isSome = true := by
    intro f hf hrequired
    by_contra hnone
    refine hfillable f hf ⟨hrequired, fun v => ?_⟩
    rw [← Option.not_isSome_iff_eq_none]
    exact fun hv => hnone ⟨v, hv⟩
  -- some arguments are valid, and the call they make is what the agreement is about
  obtain ⟨args, hargs⟩ := exists_args hnodup hsome
  obtain ⟨values, hvalues⟩ := (@values_isSome _ fields name hall args).2 hargs
  have hbound := h.bound args values
  simp only [filter_presentable hall] at hbound
  obtain ⟨hpassed, hbinds⟩ := hbound (modelValidate_ok.2 hvalues)
  have hall' := (modelDump_names_iff hvalues).1
    (hpassed.trans (strs_of_describes hdescribes).symm)
  exact ⟨(binds_iff fn.names_nodup hpassed).1 hbinds, (excluded_describes hdescribes).2 hall'⟩

/-- The artifacts of a tool with a coherent signature agree. -/
theorem agrees_of_coherent (h : Coherent fn.parameters) :
    (Tool.mk toolName fn ⟨name, fields.filter PydanticModels.isField⟩).Agrees := by
  obtain ⟨hps, hcall⟩ := h
  have hnames := names_of_describes hdescribes
  have hall := (forall_describes hdescribes (fun p f hfield => hfield.presentable)).1 hps
  obtain ⟨titled, htitled, hpresented⟩ :=
    (@presents_iff _ fields name (nodup_of_describes hdescribes)).2 hall
  refine ⟨⟨_, inputSchema_ok.2 ⟨titled, htitled, rfl⟩, hpresented.trans hnames, ?_⟩, ?_, ?_⟩
  · obtain ⟨_, _, _, hrequired⟩ := names_stripTitles htitled
    rw [filter_presentable hall] at hrequired
    rw [hrequired, requiredKeys_eq hdescribes hall]
  · intro args
    have htakes := forall_describes hdescribes (fun p f hfield => hfield.takes args)
    simp only [filter_presentable hall, modelValidate_ok]
    rw [values_isSome hall, known_describes hdescribes, htakes]
  · intro args values hvalid
    simp only [filter_presentable hall] at hvalid ⊢
    rw [modelValidate_ok] at hvalid
    rcases hcall with ⟨hcallable, hexclude⟩ | ⟨p, hp, hrequired, hclosed⟩
    · have hpassed := (modelDump_names_iff hvalid).2 ((excluded_describes hdescribes).1 hexclude)
      rw [strs_of_describes hdescribes] at hpassed
      exact ⟨hpassed, (binds_iff fn.names_nodup hpassed).2 hcallable⟩
    · have hargs := (values_isSome hall args).1 ⟨values, hvalid⟩
      have hfillable := (forall_describes hdescribes (fun p f hfield => hfield.unfillable)).2
        (fun f hf => (hargs.2 f hf).fillable)
      exact absurd ⟨hrequired, hclosed⟩ (hfillable p hp)

end Directions

omit [PydanticModels] in
theorem mem_of_mapM_ok {α β : Type} {f : α → Except PyExc β} {l : List α} : ∀ {bs : List β},
    l.mapM f = .ok bs → ∀ a ∈ l, ∃ b ∈ bs, f a = .ok b := by
  induction l with
  | nil => exact fun _ _ ha => nomatch ha
  | cons a l ih =>
      intro bs h
      rw [List.mapM_cons] at h
      cases ha : f a with
      | error e =>
          rw [ha] at h
          cases h
      | ok b =>
          cases hl : l.mapM f with
          | error e =>
              rw [ha, hl] at h
              cases h
          | ok bs' =>
              rw [ha, hl] at h
              cases h
              refine List.forall_mem_cons.2 ⟨⟨b, List.mem_cons_self, ha⟩, fun a' ha' => ?_⟩
              obtain ⟨b', hb', hfa⟩ := ih hl a' ha'
              exact ⟨b', List.mem_cons_of_mem _ hb', hfa⟩

/-- In the `tools` array every tool is presented with its schema. -/
theorem mem_buildTools {tools : List Tool} {entries : List Json}
    (h : buildTools tools = .ok entries) : ∀ t ∈ tools, ∃ schema,
      t.inputSchema = .ok schema ∧ toolEntry t.name t.fn.doc schema ∈ entries := by
  unfold buildTools at h
  cases hmap : tools.mapM (fun t => do
      let inputSchema ← t.inputSchema
      return toolEntry t.name t.fn.doc inputSchema) with
  | error e =>
      rw [hmap] at h
      cases h
  | ok presented =>
      rw [hmap] at h
      cases h
      intro t ht
      obtain ⟨entry, hentry, hpresent⟩ := mem_of_mapM_ok hmap t ht
      cases hschema : t.inputSchema with
      | error e =>
          rw [hschema] at hpresent
          cases hpresent
      | ok schema =>
          rw [hschema] at hpresent
          cases hpresent
          exact ⟨schema, rfl, List.mem_append_left _ hentry⟩

/-- Where the artifacts agree, the handler runs on whatever was validated. -/
theorem Tool.Agrees.runs {t : Tool} (h : t.Agrees) {args kwargs : Dict}
    (hvalid : t.registered.validate args = .ok kwargs) (n : Nat) :
    t.registered.fn n kwargs = t.fn.body n kwargs := by
  have hvalid' : (t.argsModel.modelValidate args).map t.argsModel.modelDump = .ok kwargs := hvalid
  cases hvalues : t.argsModel.modelValidate args with
  | error e =>
      rw [hvalues] at hvalid'
      cases hvalid'
  | ok values =>
      rw [hvalues] at hvalid'
      cases hvalid'
      exact if_pos (h.bound args values hvalues).2

/-- **When one signature makes three agreeing artifacts.** Of a tool that the registry accepts, the
    presented schema, the accepted arguments and the keyword call agree exactly if every parameter
    is a field that is presented under its own name, and the keyword call binds or no arguments
    are valid at all. -/
theorem artifacts_agree_iff {tools tools' : List Tool} {fn : ToolFn}
    (h : registerTool tools fn = .ok tools') :
    ∃ t, tools' = tools ++ [t] ∧ t.fn = fn ∧ (t.Agrees ↔ Coherent fn.parameters) := by
  unfold registerTool at h
  cases hregistered : fromFunction fn with
  | error e =>
      rw [hregistered] at h
      cases h
  | ok t =>
      rw [hregistered] at h
      change (if _ then _ else _) = _ at h
      split at h
      · cases h
      · cases h
        obtain ⟨fields, hdescribes, rfl⟩ := fromFunction_ok hregistered
        exact ⟨_, rfl, rfl, coherent_of_agrees hdescribes, agrees_of_coherent hdescribes⟩

end Agreement

/-! ## Two signatures -/

/-- A pydantic that refuses no field, for annotations that are plain types. -/
@[reducible] def PydanticModels.plain [PyRuntime] : PydanticModels where
  toPydanticJson := PydanticJson.plain
  fault := fun _ => none
  isField := fun f => !isPrivate f.name && decide (f.name ≠ py "model_config")
  argsError := fun _ _ => py "validation error"
  terminalSchema := fun _ => object [("type", .str (py "object"))]
  isField_private := fun f hprivate => by simp [hprivate]
  isField_modelConfig := fun f hconfig => by simp [hconfig]

/-- `str`. -/
def strHint : TypeHint where
  validate
    | .str s => some (.str s)
    | _ => none
  schema name _ := some (object [("title", .str name), ("type", .str (py "string"))])
  defs := []

/-- `async def draft(title: str)`. -/
def draft : ToolFn where
  name := py "draft"
  isCoroutineFunction := true
  parameters := [⟨py "title", .positionalOrKeyword, some strHint, .empty⟩]
  doc := []
  body := fun _ _ => .ok (.value .null)
  names_nodup := List.nodup_singleton _

def draftTool : Tool :=
  ⟨draft.name, draft, ⟨draft.name ++ py "_Args", [⟨py "title", strHint, ⟨none, none, false⟩⟩]⟩⟩

/-- The registry accepts the tool; its only parameter is required and not presented. -/
theorem title_is_required_and_not_presented :
    @registerTool (@PydanticModels.plain .ascii) [] draft = .ok [draftTool] ∧
      (∃ schema, @Tool.inputSchema draftTool = .ok schema ∧ propertyNames schema = [] ∧
        requiredNames schema = [py "title"]) ∧
      ¬ @Tool.Agrees (@PydanticModels.plain .ascii) draftTool := by
  have hnames : ∃ schema, Tool.inputSchema draftTool = .ok schema ∧ propertyNames schema = [] ∧
      requiredNames schema = [py "title"] := ⟨_, rfl, by decide +kernel, by decide +kernel⟩
  refine ⟨rfl, hnames, fun hagrees => ?_⟩
  obtain ⟨schema, hschema, hpresented, _⟩ := hnames
  obtain ⟨schema', hschema', hpresented', _⟩ :=
    @Tool.Agrees.presented (@PydanticModels.plain .ascii) _ hagrees
  cases hschema.symm.trans hschema'
  exact absurd (hpresented.symm.trans hpresented') (by decide +kernel)

/-- `async def fetch_posting(board: str, page: str = "1")`. -/
def fetchPosting : ToolFn where
  name := py "fetch_posting"
  isCoroutineFunction := true
  parameters := [⟨py "board", .positionalOrKeyword, some strHint, .empty⟩,
    ⟨py "page", .positionalOrKeyword, some strHint, .value (.str (py "1"))⟩]
  doc := []
  body := fun _ _ => .ok (.value .null)
  names_nodup := by decide +kernel

theorem fetchPosting_agrees : ∃ t, @registerTool (@PydanticModels.plain .ascii) [] fetchPosting
    = .ok [t] ∧ @Tool.Agrees (@PydanticModels.plain .ascii) t := by
  have hregistered : @registerTool (@PydanticModels.plain .ascii) [] fetchPosting = .ok
      [⟨fetchPosting.name, fetchPosting, ⟨fetchPosting.name ++ py "_Args",
        [⟨py "board", strHint, ⟨none, none, false⟩⟩,
          ⟨py "page", strHint, ⟨some (.str (py "1")), none, false⟩⟩]⟩⟩] := rfl
  obtain ⟨t, ht, _, hagrees⟩ :=
    @artifacts_agree_iff (@PydanticModels.plain .ascii) _ _ _ hregistered
  have hpresentable : ∀ p ∈ fetchPosting.parameters,
      @Parameter.Presentable (@PydanticModels.plain .ascii) p := by
    refine List.forall_mem_cons.2 ⟨?_, List.forall_mem_singleton.2 ?_⟩
    · exact @Parameter.Presentable.mk (@PydanticModels.plain .ascii) _ (by decide +kernel)
        (fun _ _ => rfl) rfl ⟨strHint, _, rfl, rfl⟩
    · exact @Parameter.Presentable.mk (@PydanticModels.plain .ascii) _ (by decide +kernel)
        (fun _ _ => rfl) rfl ⟨strHint, _, rfl, rfl⟩
  have hcallable : KeywordCallable fetchPosting.parameters :=
    ⟨List.forall_mem_cons.2 ⟨nofun, List.forall_mem_singleton.2 nofun⟩,
      Or.inr (List.forall_mem_cons.2 ⟨rfl, List.forall_mem_singleton.2 rfl⟩)⟩
  have hexclude : ∀ p ∈ fetchPosting.parameters, p.default.info.exclude = false :=
    List.forall_mem_cons.2 ⟨rfl, List.forall_mem_singleton.2 rfl⟩
  exact ⟨t, hregistered.trans (congrArg Except.ok ht),
    hagrees.2 ⟨hpresentable, Or.inl ⟨hcallable, hexclude⟩⟩⟩

end RexHunter
