import RexHunter.Lib.Json

set_option autoImplicit false

/-! # `json.loads`

The reader is a lexer and a machine over the tokens. The machine keeps the containers it is inside
of on a stack, whose height is what the recursion limit bounds; a lexical error is a token, so the
errors come in the order the C scanner meets them. -/

/-! ## Tokens -/

inductive Token where
  | lbrace
  | rbrace
  | lbracket
  | rbracket
  | colon
  | comma
  | str (s : PyStr)
  | int (text : PyStr)
  | float (text : PyStr)
  | const (v : Json)
  | bad

/-- `[ \t\n\r]`. -/
def isJsonSpace (c : CodePoint) : Bool :=
  decide (c.val = 0x20 ∨ c.val = 0x09 ∨ c.val = 0x0A ∨ c.val = 0x0D)

/-- The value of a hexadecimal digit. -/
def hexValue (c : CodePoint) : Option Nat :=
  if 0x30 ≤ c.val ∧ c.val ≤ 0x39 then some (c.val - 0x30)
  else if 0x61 ≤ c.val ∧ c.val ≤ 0x66 then some (c.val - 0x57)
  else if 0x41 ≤ c.val ∧ c.val ≤ 0x46 then some (c.val - 0x37)
  else none

/-- The number of a `\uXXXX` escape. -/
def hex4Value (a b c d : CodePoint) : Option Nat :=
  match hexValue a, hexValue b, hexValue c, hexValue d with
  | some w, some x, some y, some z => some (w * 0x1000 + x * 0x100 + y * 0x10 + z)
  | _, _, _, _ => none

/-- The character of a two-character escape. -/
def simpleEscape (c : CodePoint) : Option CodePoint :=
  if c.val = 0x22 ∨ c.val = 0x5C ∨ c.val = 0x2F then some c
  else if c.val = 0x62 then some (Fin.ofNat _ 0x08)
  else if c.val = 0x66 then some (Fin.ofNat _ 0x0C)
  else if c.val = 0x6E then some (Fin.ofNat _ 0x0A)
  else if c.val = 0x72 then some (Fin.ofNat _ 0x0D)
  else if c.val = 0x74 then some (Fin.ofNat _ 0x09)
  else none

def isHigh (n : Nat) : Bool := decide (0xD800 ≤ n ∧ n ≤ 0xDBFF)

def isLow (n : Nat) : Bool := decide (0xDC00 ≤ n ∧ n ≤ 0xDFFF)

/-- The character of a surrogate pair. -/
def joinPair (high low : Nat) : CodePoint :=
  Fin.ofNat _ (0x10000 + (high - 0xD800) * 0x400 + (low - 0xDC00))

/-- The low surrogate the text escapes next, if it does. -/
def nextLow : PyStr → Option Nat
  | a :: b :: w :: x :: y :: z :: _ =>
      if a.val = 0x5C ∧ b.val = 0x75 then
        match hex4Value w x y z with
        | some n => if isLow n then some n else none
        | none => none
      else none
  | _ => none

/-- The string literal whose opening quote has been read: its text, and how many characters it is
    long, the closing quote included. `skip` characters are part of an escape already read. -/
def scanString (skip : Nat) : PyStr → Option (PyStr × Nat)
  | [] => none
  | c :: rest =>
      match skip with
      | k + 1 => (scanString k rest).map (fun r => (r.1, r.2 + 1))
      | 0 =>
          if c.val = 0x22 then some ([], 1)
          else if c.val = 0x5C then
            match rest with
            | [] => none
            | e :: _ =>
                if e.val = 0x75 then
                  match rest.drop 1 with
                  | w :: x :: y :: z :: rest' =>
                      match hex4Value w x y z with
                      | none => none
                      | some n =>
                          match (if isHigh n then nextLow rest' else none) with
                          | some low =>
                              (scanString 11 rest).map (fun r => (joinPair n low :: r.1, r.2 + 1))
                          | none => (scanString 5 rest).map (fun r => (Fin.ofNat _ n :: r.1, r.2 + 1))
                  | _ => none
                else
                  match simpleEscape e with
                  | some x => (scanString 1 rest).map (fun r => (x :: r.1, r.2 + 1))
                  | none => none
          else if c.val < 0x20 then none
          else (scanString 0 rest).map (fun r => (c :: r.1, r.2 + 1))
termination_by structural s => s

/-- The constants, and the punctuation. -/
def literals : List (PyStr × Token) :=
  [(py "\x7b", .lbrace), (py "\x7d", .rbrace), (py "[", .lbracket), (py "]", .rbracket),
    (py ":", .colon), (py ",", .comma), (py "null", .const .null), (py "true", .const (.bool true)),
    (py "false", .const (.bool false)), (py "NaN", .const (.float .nan)),
    (py "Infinity", .const (.float (.inf false))), (py "-Infinity", .const (.float (.inf true)))]

/-- The token at the start of the text, and its length; `none` is a lexical error. -/
def scanToken (s : PyStr) : Option (Token × Nat) :=
  match scanNumber s with
  | some (n, isInt) => some (if isInt then .int (s.take n) else .float (s.take n), n)
  | none =>
      match s with
      | [] => none
      | c :: rest =>
          if c.val = 0x22 then (scanString 0 rest).map (fun r => (.str r.1, r.2 + 1))
          else
            match literals.find? (fun l => l.1.isPrefixOf s) with
            | some l => some (l.2, l.1.length)
            | none => none

/-- The tokens of a text, of which `skip` characters belong to a token already read. -/
def lex (skip : Nat) : PyStr → List Token
  | [] => []
  | c :: rest =>
      match skip with
      | k + 1 => lex k rest
      | 0 =>
          if isJsonSpace c then lex 0 rest
          else
            match scanToken (c :: rest) with
            | some (t, n) => t :: lex (n - 1) rest
            | none => [.bad]
termination_by structural s => s

/-! ## The machine -/

/-- A container the reader is inside of. -/
inductive Ctx where
  | item (items : List Json)
  | entry (entries : Dict) (key : PyStr)

/-- What the reader expects, and the containers around it. -/
inductive ReadState where
  | value (stack : List Ctx)
  | firstItem (stack : List Ctx)
  | afterItem (items : List Json) (stack : List Ctx)
  | firstKey (stack : List Ctx)
  | nextKey (entries : Dict) (stack : List Ctx)
  | afterKey (entries : Dict) (key : PyStr) (stack : List Ctx)
  | afterEntry (entries : Dict) (stack : List Ctx)
  | done (v : Json)

/-- A value is complete. -/
def close (v : Json) : List Ctx → ReadState
  | [] => .done v
  | .item items :: stack => .afterItem (items ++ [v]) stack
  | .entry entries key :: stack => .afterEntry (Dict.set entries (.str key) v) stack

section Reader

variable [PyRuntime]

/-- `int(text)` of an integer literal. -/
def intOfLiteral (s : PyStr) : Except JsonError Int :=
  let digits := s.filter isDigit
  if PyRuntime.maxStrDigits < digits.length then .error .valueError
  else
    let n : Nat := digits.foldl (fun n c => n * 10 + (c.val - 0x30)) 0
    .ok (if s.head? = some (Fin.ofNat _ 0x2D) then -(n : Int) else n)

/-- A container opens. -/
def enter (stack : List Ctx) (st : ReadState) : Except JsonError ReadState :=
  if stack.length < PyRuntime.recursionLimit then .ok st else .error .recursionError

/-- The first token of a value. -/
def startValue (stack : List Ctx) : Token → Except JsonError ReadState
  | .lbracket => enter stack (.firstItem stack)
  | .lbrace => enter stack (.firstKey stack)
  | .str s => .ok (close (.str s) stack)
  | .int text =>
      match intOfLiteral text with
      | .ok i => .ok (close (.int i) stack)
      | .error e => .error e
  | .float text => .ok (close (.float (PyRuntime.floatOfText text)) stack)
  | .const v => .ok (close v stack)
  | _ => .error .decodeError

/-- One token. -/
def readToken (st : ReadState) (t : Token) : Except JsonError ReadState :=
  match st, t with
  | .value stack, t => startValue stack t
  | .firstItem stack, .rbracket => .ok (close (.arr []) stack)
  | .firstItem stack, t => startValue (.item [] :: stack) t
  | .afterItem items stack, .comma => .ok (.value (.item items :: stack))
  | .afterItem items stack, .rbracket => .ok (close (.arr items) stack)
  | .firstKey stack, .rbrace => .ok (close (.obj []) stack)
  | .firstKey stack, .str key => .ok (.afterKey [] key stack)
  | .nextKey entries stack, .str key => .ok (.afterKey entries key stack)
  | .afterKey entries key stack, .colon => .ok (.value (.entry entries key :: stack))
  | .afterEntry entries stack, .comma => .ok (.nextKey entries stack)
  | .afterEntry entries stack, .rbrace => .ok (close (.obj entries) stack)
  | _, _ => .error .decodeError

/-- The tokens of a value, one after the other. -/
def readTokens (st : ReadState) : List Token → Except JsonError ReadState
  | [] => .ok st
  | t :: ts =>
      match readToken st t with
      | .ok st' => readTokens st' ts
      | .error e => .error e

/-- `json.loads` of a `str`. -/
def Json.loads (s : PyStr) : Except JsonError Json :=
  -- the reader refuses a byte order mark
  if s.head? = some (Fin.ofNat _ 0xFEFF) then .error .decodeError
  else
    match readTokens (.value []) (lex 0 s) with
    | .ok (.done v) => .ok v
    | .ok _ => .error .decodeError
    | .error e => .error e

/-- `json.detect_encoding` answers UTF-8. -/
def isUtf8 : PyBytes → Bool
  | a :: b :: c :: d :: _ => decide (¬ (a = 0 ∨ b = 0 ∨ (a = 0xFF ∧ b = 0xFE) ∨ (a = 0xFE ∧ b = 0xFF) ∨
      (a = 0 ∧ b = 0 ∧ c = 0xFE ∧ d = 0xFF)))
  | [a, b] => decide (¬ (a = 0 ∨ b = 0 ∨ (a = 0xFF ∧ b = 0xFE) ∨ (a = 0xFE ∧ b = 0xFF)))
  | a :: b :: _ => decide (¬ ((a = 0xFF ∧ b = 0xFE) ∨ (a = 0xFE ∧ b = 0xFF)))
  | _ => true

/-- The text of JSON bytes; a UTF-8 byte order mark is dropped. -/
def jsonText (b : PyBytes) : Option PyStr :=
  if isUtf8 b then
    match b with
    | 0xEF :: 0xBB :: 0xBF :: rest => decode true rest
    | _ => decode true b
  else PyRuntime.decodeWide b

end Reader
