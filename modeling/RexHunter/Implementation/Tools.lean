import RexHunter.Implementation.Codec

set_option autoImplicit false

/-! # The tool registry (`tools/__init__.py`, and the `tools` array of `brain.py`)

A tool is a coroutine function. From its signature `from_function` builds one args-model, and from
the model come the schema that the brain presents, the validator, and the keyword arguments of the
call. What `create_model`, `model_json_schema`, `model_validate` and `model_dump` do with the fields
is written out; what pydantic makes of one annotation is part of its hint. -/

namespace RexHunter

/-! ## Signatures -/

/-- `pydantic.Field(...)`, as far as names depend on it. -/
structure FieldInfo where
  default : Option Json
  aliasName : Option PyStr
  exclude : Bool

/-- An annotation: the value it makes of an argument, as `model_dump` gives it, the schema of a
    field that has it, and the definitions this schema refers to. -/
structure TypeHint where
  validate : Json → Option Json
  /-- `none` is `PydanticInvalidForJsonSchema`. -/
  schema : PyStr → FieldInfo → Option Json
  defs : Dict

/-- `inspect.Parameter.kind`. -/
inductive ParameterKind where
  | positionalOnly
  | positionalOrKeyword
  | varPositional
  | keywordOnly
  | varKeyword
deriving DecidableEq

/-- `param.default`; the value `...` counts as a `Field()`. -/
inductive Default where
  | empty
  | value (v : Json)
  | field (info : FieldInfo)

/-- What `create_model` is given of the default. -/
def Default.info : Default → FieldInfo
  | empty => ⟨none, none, false⟩
  | value v => ⟨some v, none, false⟩
  | field info => info

structure Parameter where
  name : PyStr
  kind : ParameterKind
  hint : Option TypeHint
  default : Default

/-- A function; `body` is one attempt with these keyword arguments, where the number tells attempts
    apart. Python has no two parameters of one name. -/
structure ToolFn where
  name : PyStr
  isCoroutineFunction : Bool
  parameters : List Parameter
  doc : PyStr
  body : Nat → Dict → Except PyExc ToolResult
  names_nodup : (parameters.map Parameter.name).Nodup

/-- Python has a default for the parameter. -/
def Parameter.hasDefault (p : Parameter) : Bool :=
  match p.default with
  | .empty => false
  | _ => true

/-- The parameter takes a keyword argument of its name. -/
def Parameter.byKeyword (p : Parameter) : Bool :=
  decide (p.kind = .positionalOrKeyword ∨ p.kind = .keywordOnly)

/-- `fn(**kwargs)` finds an argument for every parameter and a parameter for every argument. -/
def binds (parameters : List Parameter) (kwargs : Dict) : Bool :=
  parameters.all (fun p =>
    match p.kind with
    | .positionalOnly => p.hasDefault
    | .varPositional => true
    | .varKeyword => true
    | _ => (kwargs.get p.name).isSome || p.hasDefault) &&
  (parameters.any (fun p => decide (p.kind = .varKeyword)) ||
    kwargs.all (fun e => parameters.any (fun p => p.byKeyword && decide (e.1 = .str p.name))))

/-- `fn(**kwargs)`. -/
def ToolFn.call (fn : ToolFn) (n : Nat) (kwargs : Dict) : Except PyExc ToolResult :=
  if binds fn.parameters kwargs then fn.body n kwargs else .error .typeError

/-! ## The args-model -/

structure ModelField where
  name : PyStr
  hint : TypeHint
  info : FieldInfo

/-- The name of the field outside the model. -/
def ModelField.key (f : ModelField) : PyStr := f.info.aliasName.getD f.name

/-- To pydantic a name with a leading underscore is a private attribute. -/
def isPrivate (name : PyStr) : Bool := decide (name.head? = some 0x5F)

structure ArgsModel where
  name : PyStr
  fields : List ModelField

/-- What the registry relies on of pydantic: which fields `create_model` refuses, which of the others
    it makes fields of the model, the text of a validation error, and the schemas of the two terminal
    decisions. A private attribute is no field, nor is the configuration of the model; a `ClassVar`,
    and a `Final` with a default, are others that a model may leave out. -/
class PydanticModels extends PydanticJson where
  fault : List ModelField → Option PyExc
  isField : ModelField → Bool
  argsError : ArgsModel → Dict → PyStr
  terminalSchema : PyStr → Json
  isField_private : ∀ f : ModelField, isPrivate f.name = true → isField f = false
  isField_modelConfig : ∀ f : ModelField, f.name = py "model_config" → isField f = false

section Models

variable [PydanticModels]

/-- `create_model`, with `extra="forbid"`: what it makes no field of, it leaves out without a word. -/
def createModel (name : PyStr) (fields : List ModelField) : Except PyExc ArgsModel :=
  match PydanticModels.fault fields with
  | some e => .error e
  | none => .ok ⟨name, fields.filter PydanticModels.isField⟩

namespace ArgsModel

/-- The fields, as a record. -/
def record (m : ArgsModel) : RecordType TypeHint Json :=
  m.fields.map (fun f => ⟨f.key, f.hint, f.info.default⟩)

/-- The values of the arguments. -/
def values (m : ArgsModel) (args : Dict) : Option (List Json) :=
  m.record.validate ⟨TypeHint.validate, id⟩ args

/-- `model_validate`. -/
def modelValidate (m : ArgsModel) (args : Dict) : Except PyExc (List Json) :=
  match m.values args with
  | some values => .ok values
  | none => .error (.validationError (PydanticModels.argsError m args))

/-- `model_dump`. -/
def modelDump (m : ArgsModel) (values : List Json) : Dict :=
  ((m.fields.zip values).filter (fun e => !e.1.info.exclude)).map (fun e => (.str e.1.name, e.2))

/-- The `properties` of the schema. -/
def properties (fields : List ModelField) (d : Dict) : Option Dict :=
  match fields with
  | [] => some d
  | f :: fs =>
      match f.hint.schema f.name f.info with
      | some schema => properties fs (Dict.set d (.str f.key) schema)
      | none => none

/-- The names the schema requires. -/
def requiredKeys (m : ArgsModel) : List PyStr :=
  (m.fields.filter (fun f => f.info.default.isNone)).map ModelField.key

def defs (m : ArgsModel) : Dict := m.fields.foldl (fun d f => d.update f.hint.defs) []

/-- `model_json_schema`. -/
def modelJsonSchema (m : ArgsModel) : Option Json :=
  match properties m.fields [] with
  | none => none
  | some properties =>
      some (object ((if m.defs = [] then [] else [("$defs", .obj m.defs)]) ++
        [("additionalProperties", .bool false), ("properties", .obj properties)] ++
        (if m.requiredKeys = [] then [] else [("required", .arr (m.requiredKeys.map .str))]) ++
        [("title", .str m.name), ("type", .str (py "object"))]))

end ArgsModel

/-! ## The registry -/

/-- `RegisteredTool`. -/
structure Tool where
  name : PyStr
  fn : ToolFn
  argsModel : ArgsModel

/-- The fields of the args-model; a parameter without an annotation is an error. -/
def fieldsOf : List Parameter → Except PyExc (List ModelField)
  | [] => .ok []
  | p :: ps =>
      match p.hint with
      | none => .error .typeError
      | some hint => do
          let fields ← fieldsOf ps
          return ⟨p.name, hint, p.default.info⟩ :: fields

/-- `RegisteredTool.from_function`. -/
def fromFunction (fn : ToolFn) : Except PyExc Tool :=
  if fn.isCoroutineFunction = false then .error .typeError
  else do
    let fields ← fieldsOf fn.parameters
    let argsModel ← createModel (fn.name ++ py "_Args") fields
    return ⟨fn.name, fn, argsModel⟩

/-- `ToolRegistry.tool`. -/
def registerTool (tools : List Tool) (fn : ToolFn) : Except PyExc (List Tool) := do
  let registered ← fromFunction fn
  if tools.any (fun t => decide (t.name = registered.name)) then
    .error (.valueError (py "tool already registered"))
  else return tools ++ [registered]

/-- The tool as the loop runs it: `validate`, `model_dump`, `model_dump_json().encode()` and
    `fn(**kwargs)`. -/
def Tool.registered (t : Tool) : RegisteredTool where
  name := t.name
  validate := fun args => (t.argsModel.modelValidate args).map t.argsModel.modelDump
  dumpJson := fun kwargs =>
    match PydanticJson.writeJson kwargs with
    | none => .error .serializationError
    | some payload =>
        match encode payload with
        | some raw => .ok raw
        | none => .error .unicodeEncodeError
  fn := t.fn.call

end Models

/-! ## What the brain presents -/

def titleKey : Key := .str (py "title")

mutual

/-- `_strip_titles`. -/
def stripTitles : Json → Json
  | .obj entries => .obj (stripEntries entries)
  | .arr items => .arr (stripItems items)
  | v => v
termination_by structural v => v

def stripItems : List Json → List Json
  | [] => []
  | v :: vs => stripTitles v :: stripItems vs
termination_by structural vs => vs

def stripEntries : List (Key × Json) → List (Key × Json)
  | [] => []
  | (k, v) :: es => if k = titleKey then stripEntries es else (k, stripTitles v) :: stripEntries es
termination_by structural es => es

end

section Presented

variable [PydanticModels]

/-- The `input_schema` of a tool. -/
def Tool.inputSchema (t : Tool) : Except PyExc Json :=
  match t.argsModel.modelJsonSchema with
  | some schema => .ok (stripTitles schema)
  | none => .error (.other (py "PydanticInvalidForJsonSchema"))

/-- `_TERMINAL_TOOLS`. -/
def terminalTools : List (PyStr × PyStr) :=
  [(huntComplete,
      py "End the hunt. `catch` is the list of postings worth a verdict."),
    (needsHelp, py "End the hunt and hand off to a human — Rex is stuck.")]

/-- The entry of a tool in the `tools` array. -/
def toolEntry (name description : PyStr) (inputSchema : Json) : Json :=
  object [("name", .str name), ("description", .str description), ("input_schema", inputSchema)]

/-- `build_tools`. -/
def buildTools (tools : List Tool) : Except PyExc (List Json) := do
  let entries ← tools.mapM (fun t => do
    let inputSchema ← t.inputSchema
    return toolEntry t.name t.fn.doc inputSchema)
  return entries ++ terminalTools.map (fun t =>
    toolEntry t.1 t.2 (stripTitles (PydanticModels.terminalSchema t.1)))

end Presented

end RexHunter
