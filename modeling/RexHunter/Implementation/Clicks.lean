import RexHunter.Lib.TagReader
import RexHunter.Implementation.Codec
import RexHunter.Implementation.Store

set_option autoImplicit false

/-! # A click on the board (`static/board.js`, `post_verdict` of `server.py`)

The listener of the board finds the button, reads its `dataset` and the note next to it, and posts a
verdict; the endpoint submits it on a connection of its own. Of the page the browser reads the tags
and the values of their attributes (`Markup.TagReader`). -/

namespace RexHunter

open Markup

/-! ## The listener -/

/-- The `dataset` of a `button[data-verdict]`. -/
structure VerdictButton where
  preyId : Option PyStr
  verdict : PyStr
deriving DecidableEq, Repr

/-- The tag as a `button[data-verdict]`. -/
def verdictButton (tag : Tag) : Option VerdictButton :=
  if tag.name = py "button" then
    (tag.value (py "data-verdict")).map (fun verdict => ⟨tag.value (py "data-prey-id"), verdict⟩)
  else none

/-- What `closest('button[data-verdict]')` can find in a page. -/
def verdictButtons (html : PyStr) : List VerdictButton :=
  (TagReader.outside.tags html).filterMap verdictButton

/-- The listener, with the trimmed text of the note: the request it posts, as `VerdictRequest` lets
    it through. Nothing comes of a release without a note, and a body that is no `VerdictRequest` is
    answered 422. -/
def VerdictButton.click (button : VerdictButton) (note : PyStr) : Option VerdictEvent :=
  if button.verdict = py "release" ∧ note = [] then none
  else
    match button.preyId, Verdict.ofValue button.verdict with
    | some preyId, some verdict =>
        some ⟨preyId, verdict, if button.verdict = py "release" then some note else none,
          if button.verdict = py "amber" ∧ note ≠ [] then some note else none⟩
    | _, _ => none

/-! ## The endpoint -/

/-- `isinstance(exc, ValueError)`. -/
def PyExc.isValueError : PyExc → Bool
  | validationError _ | serializationError | unicodeEncodeError | unicodeDecodeError
  | jsonDecodeError | valueError _ => true
  | _ => false

/-- The response: `{"applied": …}`, or a 400 whose detail is the text of the exception. -/
inductive VerdictReply where
  | applied (applied : Bool)
  | badRequest (exc : PyExc)
deriving DecidableEq, Repr

/-- `post_verdict`, with what it hands to `hub.notify`. -/
def postVerdict [PydanticJson] (columns : List PyStr) (request : VerdictEvent) :
    Prog (VerdictReply × List PyStr) := do
  connect columns
  let result ← Coro.observe (submitVerdict request)
  close
  match result with
  | .ok true => do
      let payload ← Session.attempt (.other .dump) request.modelDumpJson
      return (.applied true, [payload])
  | .ok false => return (.applied false, [])
  | .error (.raised exc) =>
      if exc.isValueError then return (.badRequest exc, []) else Coro.raise exc
  | .error .cancelled => throw .cancelled

end RexHunter
