import RexHunter.Lib.Channels
import RexHunter.Implementation.Brain

set_option autoImplicit false

/-! # The two readers of a stream (`brain.py`)

`iter_sse_events` over the bytes of a whole body, and the loop that feeds an assembler; `_drive_stream`
over the lines of a response, when no await fails. -/

namespace RexHunter

/-! ## Methods of `bytes` -/

/-- `raw.split(b"\n\n")`; `frame` is what has been read of the current part. -/
def splitFrames (frame : PyBytes) : PyBytes → List PyBytes
  | [] => [frame]
  | [b] => [frame ++ [b]]
  | a :: b :: rest =>
      if a = 0x0A ∧ b = 0x0A then frame :: splitFrames [] rest
      else splitFrames (frame ++ [a]) (b :: rest)

/-- `frame.splitlines()`: a line ends with `\n`, `\r` or `\r\n`. -/
def byteLines (line : PyBytes) : PyBytes → List PyBytes
  | [] => if line = [] then [] else [line]
  | [b] => if b = 0x0A ∨ b = 0x0D then [line] else [line ++ [b]]
  | a :: b :: rest =>
      if a = 0x0A then line :: byteLines [] (b :: rest)
      else if a = 0x0D then
        if b = 0x0A then line :: byteLines [] rest else line :: byteLines [] (b :: rest)
      else byteLines (line ++ [a]) (b :: rest)

/-- The bytes `bytes.strip()` removes. -/
def isByteSpace (b : UInt8) : Bool := decide (b = 0x20 ∨ (0x09 ≤ b ∧ b ≤ 0x0D))

/-- `line.strip()`. -/
def stripBytes (line : PyBytes) : PyBytes :=
  ((line.dropWhile isByteSpace).reverse.dropWhile isByteSpace).reverse

/-- `b"data:"`. -/
def dataBytes : PyBytes := [0x64, 0x61, 0x74, 0x61, 0x3A]

/-- What a line adds to the data of its frame. -/
def dataOfLine (line : PyBytes) : PyBytes :=
  match line.dropPrefix? dataBytes with
  | some rest => stripBytes rest
  | none => []

/-- The data of a frame. -/
def frameData (frame : PyBytes) : PyBytes := (byteLines [] frame).flatMap dataOfLine

/-! ## `str.splitlines` -/

/-- The characters that end a line of a `str`. -/
def isLineEnd (c : CodePoint) : Bool :=
  decide ((0x0A ≤ c.val ∧ c.val ≤ 0x0D) ∨ (0x1C ≤ c.val ∧ c.val ≤ 0x1E) ∨ c.val = 0x85 ∨
    c.val = 0x2028 ∨ c.val = 0x2029)

/-- `text.splitlines()`: `\r\n` ends one line; `line` is what has been read of the current one. -/
def strLines (line : PyStr) : PyStr → List PyStr
  | [] => if line = [] then [] else [line]
  | [c] => if isLineEnd c then [line] else [line ++ [c]]
  | a :: b :: rest =>
      if isLineEnd a then
        if a.val = 0x0D ∧ b.val = 0x0A then line :: strLines [] rest
        else line :: strLines [] (b :: rest)
      else strLines (line ++ [a]) (b :: rest)

section Reader

variable [PyRuntime]

/-- The events of the frames. -/
def readFrames : List PyBytes → Except PyExc (List Json)
  | [] => .ok []
  | frame :: frames =>
      if frameData frame = [] then readFrames frames
      else do
        let event ← loadsBytes (frameData frame)
        let events ← readFrames frames
        return event :: events

/-- `list(iter_sse_events(raw))`. -/
def iterSseEvents (raw : PyBytes) : Except PyExc (List Json) := readFrames (splitFrames [] raw)

/-- `for event in events: assembler.feed(event)`: what the calls return, and the assembler. -/
def feedEvents (asm : StreamAssembler) (events : List Json) :
    Except PyExc (List (Option PyStr) × StreamAssembler) :=
  Channels.run StreamAssembler.feed asm events

/-! ## The reader of the lines -/

/-- What a reader does: the events it feeds, the texts it hands to the sink, and what it returns. -/
structure Reading where
  fed : List Json
  sunk : List PyStr
  returned : Except PyExc PyBytes

/-- `if text: await sink(text)`. -/
def sunkText (text : Option PyStr) : List PyStr :=
  match text.getD [] with
  | [] => []
  | text => [text]

/-- `_drive_stream` of a 200 response, over `response.aiter_lines()`. -/
def driveLines (asm : StreamAssembler) (dataBuf : List PyStr) : List PyStr → Reading
  | [] =>
      match dataBuf with
      | [] => ⟨[], [], dumpsBytes asm.assembled⟩
      | _ =>
          match Json.loads dataBuf.flatten with
          | .error e => ⟨[], [], .error (jsonExc e)⟩
          | .ok event =>
              match asm.feed event with
              | .error e => ⟨[event], [], .error e⟩
              | .ok (_, asm') => ⟨[event], [], dumpsBytes asm'.assembled⟩
  | line :: lines =>
      match afterPrefix (py "data:") line with
      | some rest => driveLines asm (dataBuf ++ [strip PyRuntime.isSpace rest]) lines
      | none =>
          if strip PyRuntime.isSpace line = [] then
            match dataBuf with
            | [] => driveLines asm [] lines
            | _ =>
                match Json.loads dataBuf.flatten with
                | .error e => ⟨[], [], .error (jsonExc e)⟩
                | .ok event =>
                    match asm.feed event with
                    | .error e => ⟨[event], [], .error e⟩
                    | .ok (text, asm') =>
                        let rest := driveLines asm' [] lines
                        ⟨event :: rest.fed, sunkText text ++ rest.sunk, rest.returned⟩
          else driveLines asm dataBuf lines

/-- The events fed one after the other, every text that is not empty handed on, and the assembled
    message at the end. -/
def driveEvents (asm : StreamAssembler) : List Json → Reading
  | [] => ⟨[], [], dumpsBytes asm.assembled⟩
  | event :: events =>
      match asm.feed event with
      | .error e => ⟨[event], [], .error e⟩
      | .ok (text, asm') =>
          let rest := driveEvents asm' events
          ⟨event :: rest.fed, sunkText text ++ rest.sunk, rest.returned⟩

end Reader

end RexHunter
