import RexHunter.Implementation.Sse
import RexHunter.Lib.JsonRoundTrip

set_option autoImplicit false

/-! # Messages and the streams that encode them

What a provider sends, independently of how the program reads it: a message, in one piece or as a
stream of events. Every event belongs to a channel, the message's own or that of one of its blocks,
and a stream encodes a message if the events of each channel, in their order, do; how the channels
interleave is free. -/

namespace RexHunter

/-! ## Messages -/

/-- A block of the content. -/
inductive Block where
  | thinking (thinking signature : PyStr)
  | text (text : PyStr)
  | toolUse (id name : PyStr) (input : Dict)

structure Message where
  model : Option PyStr
  stopReason : Option PyStr
  usage : Dict
  content : List Block

/-- A field `str | null`. -/
def optional : Option PyStr → Json
  | some s => .str s
  | none => .null

namespace Block

def thinkingDict (thinking signature : PyStr) : Dict :=
  [(.str (py "type"), .str (py "thinking")), (.str (py "thinking"), .str thinking),
    (.str (py "signature"), .str signature)]

def textDict (text : PyStr) : Dict :=
  [(.str (py "type"), .str (py "text")), (.str (py "text"), .str text)]

def toolUseDict (id name : PyStr) (input : Json) : Dict :=
  [(.str (py "type"), .str RexHunter.toolUse), (.str (py "id"), .str id), (.str (py "name"), .str name),
    (.str (py "input"), input)]

/-- The block as an object. -/
def dict : Block → Dict
  | thinking t s => thinkingDict t s
  | text t => textDict t
  | toolUse id name input => toolUseDict id name (.obj input)

/-- The block with empty contents, as it is opened. -/
def opened : Block → Dict
  | thinking _ _ => thinkingDict [] []
  | text _ => textDict []
  | toolUse id name _ => toolUseDict id name (.obj [])

end Block

/-- The members of the message in one piece, the usage in this order. -/
def Message.members (m : Message) (usage : Dict) : Dict :=
  [(.str (py "type"), .str (py "message")), (.str (py "role"), .str (py "assistant")),
    (.str (py "model"), optional m.model), (.str (py "stop_reason"), optional m.stopReason),
    (.str (py "content"), .arr (m.content.map (fun b => .obj b.dict))),
    (.str (py "usage"), .obj usage)]

/-- The object is the message in one piece; the members of an object have no order. -/
def Message.IsObject (m : Message) (d : Dict) : Prop :=
  ∃ usage : Dict, usage.Perm m.usage ∧ d.Perm (m.members usage)

/-! ## Streams -/

/-- A piece of a block. -/
inductive Fragment where
  | thinking (s : PyStr)
  | signature (s : PyStr)
  | text (s : PyStr)
  | inputJson (s : PyStr)

inductive StreamEvent where
  | messageStart (model : Option PyStr) (usage : Dict)
  | blockStart (index : Int) (block : Block)
  | delta (index : Int) (fragment : Fragment)
  | blockStop (index : Int)
  | messageDelta (stopReason : Option PyStr) (usage : Dict)
  | messageStop
  | ping

/-- What an event belongs to. -/
inductive Channel where
  | message
  | block (index : Int)
  | idle
deriving DecidableEq

def StreamEvent.channel : StreamEvent → Channel
  | messageStart _ _ => .message
  | blockStart index _ => .block index
  | delta index _ => .block index
  | blockStop index => .block index
  | messageDelta _ _ => .message
  | messageStop => .message
  | ping => .idle

/-! ### The pieces of a block -/

/-- The text of the fragments of one kind. -/
def textOf (kind : Fragment → Option PyStr) (fragments : List Fragment) : PyStr :=
  (fragments.filterMap kind).flatten

namespace Fragment

def thinking? : Fragment → Option PyStr
  | thinking s => some s
  | _ => none

def signature? : Fragment → Option PyStr
  | signature s => some s
  | _ => none

def text? : Fragment → Option PyStr
  | text s => some s
  | _ => none

def inputJson? : Fragment → Option PyStr
  | inputJson s => some s
  | _ => none

end Fragment

section Streams

variable [PyRuntime]

/-- The message is JSON data: Python reads its texts, its keys and its numbers back as they are. -/
structure Message.Canonical (m : Message) : Prop where
  model : (optional m.model).reread = optional m.model
  stopReason : (optional m.stopReason).reread = optional m.stopReason
  usage : m.usage.Canonical
  content : ∀ b ∈ m.content, (Json.obj b.dict).reread = .obj b.dict

/-- The text is a serialisation of the object; the empty object may be left out. -/
def Serialises (s : PyStr) (input : Dict) : Prop :=
  Json.loads s = .ok (.obj input) ∨ s = [] ∧ input = []

/-- The fragments are the block, cut into pieces. -/
def Block.Cut : Block → List Fragment → Prop
  | thinking t s, fragments =>
      (∀ f ∈ fragments, f.thinking?.isSome ∨ f.signature?.isSome) ∧
        textOf Fragment.thinking? fragments = t ∧ textOf Fragment.signature? fragments = s
  | text t, fragments =>
      (∀ f ∈ fragments, f.text?.isSome) ∧ textOf Fragment.text? fragments = t
  | toolUse _ _ input, fragments =>
      (∀ f ∈ fragments, f.inputJson?.isSome) ∧
        Serialises (textOf Fragment.inputJson? fragments) input

/-- The events of a block, from its opening to its end. -/
def blockEvents (index : Int) (b : Block) (fragments : List Fragment) : List StreamEvent :=
  .blockStart index b :: (fragments.map (.delta index) ++ [.blockStop index])

/-- The usage is split between two objects; the second has the last word. -/
structure UsageSplit (usage first second : Dict) : Prop where
  firstTextual : first.Textual
  secondTextual : second.Textual
  get : ∀ key, usage.get key = (second.get key).or (first.get key)

/-- The stream encodes the message. -/
structure Encodes (m : Message) (es : List StreamEvent) : Prop where
  message : ∃ first second, UsageSplit m.usage first second ∧
    Channels.own StreamEvent.channel .message es
      = [.messageStart m.model first, .messageDelta m.stopReason second, .messageStop]
  block : ∀ (i : Nat) (b : Block), m.content[i]? = some b → ∃ fragments, b.Cut fragments ∧
    Channels.own StreamEvent.channel (.block i) es = blockEvents i b fragments
  other : ∀ index : Int, (∀ i : Nat, i < m.content.length → index ≠ i) →
    Channels.own StreamEvent.channel (.block index) es = []

end Streams

/-! ### Events as JSON -/

/-- The object says that it is of the type. -/
def Typed (type : String) (d : Dict) : Prop := d.get (py "type") = some (.str (py type))

/-- The delta object of a fragment. -/
def Fragment.IsDelta : Fragment → Dict → Prop
  | thinking s, d => Typed "thinking_delta" d ∧ d.get (py "thinking") = some (.str s)
  | signature s, d => Typed "signature_delta" d ∧ d.get (py "signature") = some (.str s)
  | text s, d => Typed "text_delta" d ∧ d.get (py "text") = some (.str s)
  | inputJson s, d => Typed "input_json_delta" d ∧ d.get (py "partial_json") = some (.str s)

/-- The object is the event; what else is in it does not matter. -/
def StreamEvent.IsEvent : StreamEvent → Dict → Prop
  | messageStart model usage, d => Typed "message_start" d ∧
      ∃ message : Dict, d.get (py "message") = some (.obj message) ∧
        (message.get (py "model")).getD .null = optional model ∧
        (message.get (py "usage")).getD (.obj []) = .obj usage
  | blockStart index b, d => Typed "content_block_start" d ∧
      d.get (py "index") = some (.int index) ∧ d.get (py "content_block") = some (.obj b.opened)
  | delta index f, d => Typed "content_block_delta" d ∧ d.get (py "index") = some (.int index) ∧
      ∃ delta : Dict, d.get (py "delta") = some (.obj delta) ∧ f.IsDelta delta
  | blockStop index, d => Typed "content_block_stop" d ∧ d.get (py "index") = some (.int index)
  | messageDelta stopReason usage, d => Typed "message_delta" d ∧
      ∃ delta : Dict, d.get (py "delta") = some (.obj delta) ∧
        (delta.get (py "stop_reason")).getD .null = optional stopReason ∧
        (d.get (py "usage")).getD (.obj []) = .obj usage
  | messageStop, d => Typed "message_stop" d
  | ping, d => Typed "ping" d

/-- An event, and the object it is sent as. -/
structure SentEvent where
  event : StreamEvent
  object : Dict
  isEvent : event.IsEvent object

end RexHunter
