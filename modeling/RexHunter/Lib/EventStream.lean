import RexHunter.Lib.Text

set_option autoImplicit false

/-! # The event stream of a browser

The parser of `text/event-stream`: the text is read by character, a line ends at CRLF, LF or CR, and
an empty line dispatches the message that the lines before it have collected. A text without line
breaks and a line break after it are one line (`readAll_line`), whatever the text contains, so what a
frame does is what its lines do. -/

namespace EventStream

/-- A dispatched message. -/
structure Message where
  type : PyStr
  data : PyStr
  lastEventId : PyStr
deriving DecidableEq, Repr

/-! ## Lines -/

/-- The buffers of a source, its last event id, and the messages dispatched. -/
structure Source where
  data : PyStr
  type : PyStr
  idBuffer : PyStr
  lastEventId : PyStr
  messages : List Message
deriving DecidableEq, Repr

/-- One space after the colon does not belong to the value. -/
def dropSpace : PyStr → PyStr
  | [] => []
  | c :: s => if c.val = 0x20 then s else c :: s

/-- The field of a line, and its value. -/
def splitField : PyStr → PyStr × PyStr
  | [] => ([], [])
  | c :: s =>
      if c.val = 0x3A then ([], dropSpace s)
      else (c :: (splitField s).1, (splitField s).2)

namespace Source

/-- A new source. -/
def new : Source := ⟨[], [], [], [], []⟩

/-- Dispatch what was collected; without data there is no message. -/
def dispatch (s : Source) : Source :=
  if s.data = [] then { s with type := [], lastEventId := s.idBuffer }
  else
    { s with
      data := []
      type := []
      lastEventId := s.idBuffer
      messages := s.messages ++ [⟨if s.type = [] then py "message" else s.type, s.data.dropLast,
        s.idBuffer⟩] }

/-- Process a field; unknown ones, and `retry`, leave the buffers alone. -/
def field (s : Source) (name value : PyStr) : Source :=
  if name = py "event" then { s with type := value }
  else if name = py "data" then { s with data := s.data ++ value ++ py "\n" }
  else if name = py "id" then
    if value.any (fun c => decide (c.val = 0)) then s else { s with idBuffer := value }
  else s

/-- Process a line; one that starts with a colon is a comment. -/
def endLine (s : Source) : PyStr → Source
  | [] => s.dispatch
  | c :: line =>
      if c.val = 0x3A then s
      else s.field (splitField (c :: line)).1 (splitField (c :: line)).2

@[simp] theorem endLine_nil (s : Source) : s.endLine [] = s.dispatch := rfl

theorem endLine_comment (s : Source) (line : PyStr) : s.endLine (py ":" ++ line) = s := rfl

theorem endLine_data (s : Source) (value : PyStr) :
    s.endLine (py "data: " ++ value) = { s with data := s.data ++ value ++ py "\n" } := rfl

theorem endLine_id (s : Source) {value : PyStr} (h : ∀ c ∈ value, c.val ≠ 0) :
    s.endLine (py "id: " ++ value) = { s with idBuffer := value } := by
  have hnull : value.any (fun c => decide (c.val = 0)) = false := by
    simpa using h
  change (if value.any (fun c => decide (c.val = 0)) then s else { s with idBuffer := value }) = _
  rw [hnull]
  rfl

/-- A source between events: nothing is collected. -/
def Idle (s : Source) : Prop := s.data = [] ∧ s.type = []

end Source

/-! ## Characters -/

/-- The parser: the line that is being read, and whether the last character was a CR. -/
structure Parser where
  line : PyStr
  cr : Bool
  source : Source
deriving DecidableEq, Repr

/-- The characters that end lines. -/
def isBreak (c : CodePoint) : Bool := decide (c.val = 0x0A ∨ c.val = 0x0D)

/-- A text without line breaks. -/
def Unbroken (s : PyStr) : Prop := s.any isBreak = false

instance (s : PyStr) : Decidable (Unbroken s) := inferInstanceAs (Decidable (s.any isBreak = false))

theorem unbroken_iff {s : PyStr} : Unbroken s ↔ ∀ c ∈ s, isBreak c = false := by
  simp only [Unbroken, List.any_eq_false, Bool.not_eq_true]

theorem Unbroken.append {s t : PyStr} (hs : Unbroken s) (ht : Unbroken t) : Unbroken (s ++ t) := by
  unfold Unbroken at *
  rw [List.any_append, hs, ht]
  rfl

namespace Parser

/-- The parser at the start of a line. -/
def atLine (s : Source) : Parser := ⟨[], false, s⟩

/-- Read a character. -/
def read (p : Parser) (c : CodePoint) : Parser :=
  if c.val = 0x0A then
    if p.cr then { p with cr := false } else ⟨[], false, p.source.endLine p.line⟩
  else if c.val = 0x0D then ⟨[], true, p.source.endLine p.line⟩
  else ⟨p.line ++ [c], false, p.source⟩

/-- Read a text. -/
def readAll (p : Parser) (text : PyStr) : Parser := text.foldl read p

theorem readAll_append (p : Parser) (s t : PyStr) : p.readAll (s ++ t) = (p.readAll s).readAll t :=
  List.foldl_append

/-- Reading within a line. -/
theorem readAll_unbroken {text : PyStr} (h : Unbroken text) : ∀ (line : PyStr) (s : Source),
    readAll ⟨line, false, s⟩ text = ⟨line ++ text, false, s⟩ := by
  induction text with
  | nil =>
      intro line s
      rw [List.append_nil]
      rfl
  | cons c text ih =>
      intro line s
      obtain ⟨hc, htext⟩ := List.forall_mem_cons.1 (unbroken_iff.1 h)
      simp only [isBreak, decide_eq_false_iff_not, not_or] at hc
      have hread : read ⟨line, false, s⟩ c = ⟨line ++ [c], false, s⟩ := by
        rw [read, if_neg hc.1, if_neg hc.2]
      have hrest := ih (unbroken_iff.2 htext) (line ++ [c]) s
      rw [List.append_assoc] at hrest
      rw [← List.singleton_append, readAll_append]
      change readAll (read _ c) text = _
      rw [hread, hrest]

/-- **A line.** -/
theorem readAll_line {t : PyStr} (h : Unbroken t) (s : Source) :
    (Parser.atLine s).readAll (t ++ py "\n") = Parser.atLine (s.endLine t) := by
  rw [readAll_append, Parser.atLine, readAll_unbroken h]
  rfl

end Parser

/-- What a browser makes of a text; a byte order mark at its start is not part of the stream. -/
def parse (text : PyStr) : Source :=
  ((Parser.atLine .new).readAll (if text.head? = some 0xFEFF then text.tail else text)).source

/-! ## Frames -/

/-- An empty line. -/
theorem readAll_break (s : Source) : (Parser.atLine s).readAll (py "\n") = Parser.atLine s.dispatch :=
  Parser.readAll_line (t := []) rfl s

/-- **A comment, and an empty line**: nothing happens. -/
theorem readAll_comment {s : Source} (hs : s.Idle) {t : PyStr} (ht : Unbroken t) :
    (Parser.atLine s).readAll (py ":" ++ t ++ py "\n" ++ py "\n") =
      Parser.atLine { s with lastEventId := s.idBuffer } := by
  have hline : Unbroken (py ":" ++ t) := Unbroken.append (by decide) ht
  rw [Parser.readAll_append, Parser.readAll_line hline, Source.endLine_comment, readAll_break,
    Source.dispatch, if_pos hs.1, ← hs.2]

/-- **A data line, and an empty line**: a message. -/
theorem readAll_message {s : Source} (hs : s.Idle) {data : PyStr} (hdata : Unbroken data) :
    (Parser.atLine s).readAll (py "data: " ++ data ++ py "\n" ++ py "\n") =
      Parser.atLine { s with
        lastEventId := s.idBuffer
        messages := s.messages ++ [⟨py "message", data, s.idBuffer⟩] } := by
  have hline : Unbroken (py "data: " ++ data) := Unbroken.append (by decide) hdata
  have hbuffer : s.data ++ data ++ py "\n" = data ++ [0x0A] := by
    rw [hs.1, List.nil_append]
    rfl
  rw [Parser.readAll_append, Parser.readAll_line hline, Source.endLine_data, readAll_break,
    Source.dispatch, hbuffer, if_neg (by simp)]
  simp only [List.dropLast_concat, hs.1, hs.2, if_true]

/-- **An id line before them**: a message, and a new cursor. -/
theorem readAll_event {s : Source} (hs : s.Idle) {id data : PyStr} (hid : Unbroken id)
    (hnull : ∀ c ∈ id, c.val ≠ 0) (hdata : Unbroken data) :
    (Parser.atLine s).readAll
        (py "id: " ++ id ++ py "\n" ++ (py "data: " ++ data ++ py "\n" ++ py "\n")) =
      Parser.atLine { s with
        idBuffer := id
        lastEventId := id
        messages := s.messages ++ [⟨py "message", data, id⟩] } := by
  have hline : Unbroken (py "id: " ++ id) := Unbroken.append (by decide) hid
  rw [Parser.readAll_append, Parser.readAll_line hline, Source.endLine_id s hnull]
  exact readAll_message (s := { s with idBuffer := id }) hs hdata

end EventStream
