import RexHunter.Lib.Json
import RexHunter.Lib.Markup
import RexHunter.Lib.Timeline
import RexHunter.Implementation.View

set_option autoImplicit false

/-! # The renderer (`render.py`)

A board is a sequence of pieces: markup the program writes, figures it computes, and holes, the
strings of the `ViewState` that cross `html.escape` on their way in. `render` outputs their texts. The
dollar figures and the widths of the bars are rounded exactly. -/

namespace RexHunter

open Markup

/-! ## Strings and numbers -/

/-- `s[-n:]`, for a positive `n`. -/
def lastChars (n : Nat) (s : PyStr) : PyStr := s.drop (s.length - n)

/-- The absolute value in units of `10 ^ -places`, rounded half to even. -/
def roundedUnits (places : Nat) (q : ℚ) : Nat :=
  let n := q.num.natAbs * 10 ^ places
  let k := n / q.den
  let r := n % q.den
  if 2 * r < q.den ∨ (2 * r = q.den ∧ k % 2 = 0) then k else k + 1

/-- `f"{q:.4f}"`. -/
def fixedFour (q : ℚ) : PyStr :=
  let n := roundedUnits 4 q
  (if q < 0 then py "-" else []) ++ decimalDigits (n / 10000) ++ py "." ++ Timeline.padded 4 (n % 10000)

/-- `f"{q:.0%}"`. -/
def percent (q : ℚ) : PyStr :=
  (if q < 0 then py "-" else []) ++ decimalDigits (roundedUnits 0 (q * 100)) ++ py "%"

/-! ## Pieces -/

/-- A literal of the source. -/
def lit (s : String) : Html := [.markup (py s)]

/-- `_esc`. -/
def esc (value : PyStr) : Html := [.hole value]

/-- Computed text that needs no escaping. -/
def plain (s : PyStr) : Html := [.computed s]

/-- `"".join(parts) or default`. -/
def joinOr (parts : List Html) (default : Html) : Html :=
  if htmlText parts.flatten = [] then default else parts.flatten

/-! ## Runs -/

/-- `_THINKING_TAIL_CHARS`. -/
def thinkingTailChars : Nat := 280

/-- `_remaining`. -/
def remaining (spent : ℚ) (ceiling : Option ℚ) : Option ℚ :=
  match ceiling with
  | none => none
  | some c => if c ≤ 0 then none else some (max 0 (min 1 (1 - spent / c)))

/-- `_bar`. -/
def bar (kind : String) (remaining : ℚ) : Html :=
  lit "<div class=\"bar " ++ lit kind ++ lit "\"><div class=\"fill\" style=\"width:" ++
    plain (percent remaining) ++ lit "\"></div></div>"

/-- A bar, if there is one to draw. -/
def barIf (kind : String) (fraction : Option ℚ) : Html :=
  match fraction with
  | none => []
  | some q => bar kind q

/-- `_run_card`. -/
def runCard (run : RunView) : Html :=
  let tool := match run.currentTool with
    | some name => esc name
    | none => lit "idle"
  let rex := if run.currentTool.isSome then lit "hunting" else lit "idle"
  let hp := remaining run.spentUsd run.costCeilingUsd
  let stamina := remaining run.turns (run.maxIterations.map (fun (n : Int) => (n : ℚ)))
  lit "<article class=\"run\" data-rex=\"" ++ rex ++ lit "\"><h3>" ++ esc run.runId ++
    lit "</h3>" ++
    lit "<div class=\"tool\">🔧 " ++ tool ++ lit "</div>" ++
    lit "<div class=\"thinking\">" ++ esc (lastChars thinkingTailChars run.thinking) ++
    lit "</div>" ++
    (barIf "hp" hp ++ barIf "stamina" stamina) ++
    lit "<div class=\"stats\">🎯 " ++ plain (decimalDigits run.preyCount) ++ lit " · ⚠️ " ++
    plain (decimalDigits run.errorCount) ++ lit " " ++
    lit "· $" ++ plain (fixedFour run.spentUsd) ++ lit "</div></article>"

/-! ## Territories -/

/-- `_tile_state`. -/
def tileState (tile : TerritoryView) : String :=
  match tile.latestOutcome with
  | none => if tile.lastStartedAt.isSome then "hunting" else "dormant"
  | some .completed => "fresh-kill"
  | some _ => "cracked-earth"

/-- `_territory_tile`. -/
def territoryTile (tile : TerritoryView) : Html :=
  lit "<article class=\"tile\" data-tile=\"" ++ lit (tileState tile) ++ lit "\">" ++
    lit "<span class=\"territory\">" ++ esc tile.territory ++ lit "</span></article>"

/-! ## The pen -/

/-- The text of a status. -/
def PreyStatus.value : PreyStatus → PyStr
  | awaitingVerdict => py "awaiting_verdict"
  | feasted => py "feasted"
  | released => py "released"
  | ambered => py "ambered"

/-- `upper` of a text of ASCII letters. -/
def asciiUpper (s : PyStr) : PyStr :=
  s.map (fun c => if 0x61 ≤ c.val ∧ c.val ≤ 0x7A then Fin.ofNat _ (c.val - 0x20) else c)

/-- `_button`. -/
def button (preyId : PyStr) (verdict label : String) : Html :=
  lit "<button data-prey-id=\"" ++ esc preyId ++ lit "\" data-verdict=\"" ++ lit verdict ++
    lit "\">" ++ lit label ++ lit "</button>"

/-- `_actions`. -/
def actions (card : PreyCard) : Html :=
  match card.status with
  | .awaitingVerdict =>
      lit "<span class=\"actions\"><input class=\"reason\" placeholder=\"reason…\">" ++
        button card.preyId "feast" "Feast" ++
        button card.preyId "release" "Release" ++
        button card.preyId "amber" "Amber" ++ lit "</span>"
  | .ambered =>
      lit "<span class=\"actions\">" ++ button card.preyId "reenter" "Reenter" ++ lit "</span>"
  | _ => []

/-- `_prey_row`; the statuses are the program's own, no holes. -/
def preyRow (card : PreyCard) : Html :=
  let badge := htmlEscape (asciiUpper
    (card.status.value.map (fun c => if c.val = 0x5F then Fin.ofNat _ 0x20 else c)))
  lit "<article class=\"prey status-" ++ plain (htmlEscape card.status.value) ++ lit "\">" ++
    lit "<span class=\"territory\">" ++ esc card.territory ++ lit "</span>" ++
    lit "<span class=\"posting\">" ++ esc card.posting ++ lit "</span>" ++
    lit "<span class=\"badge\">" ++ plain badge ++ lit "</span>" ++ actions card ++ lit "</article>"

/-! ## The board -/

/-- `Phase.value`. -/
def DayPhase.value : DayPhase → String
  | day => "day"
  | night => "night"

/-- The pieces of `render`. -/
def board (state : ViewState) : Html :=
  let icon := match state.phase with
    | .day => lit "☀️"
    | .night => lit "🌙"
  let runs := joinOr ((state.runs.filter (fun run => run.outcome = none)).map runCard)
    (lit "<p class=\"empty\">no active hunts</p>")
  let tiles := (state.territories.map territoryTile).flatten
  let pen := joinOr (state.pen.map preyRow) (lit "<p class=\"empty\">pen empty</p>")
  let hudBar := barIf "hp" (remaining state.spentUsd state.daemonSpendCeilingUsd)
  lit "<div class=\"board\" data-phase=\"" ++ lit state.phase.value ++ lit "\">" ++
    lit "<header class=\"hud\"><span class=\"phase\">" ++ icon ++ lit " " ++
    plain (asciiUpper (py state.phase.value)) ++ lit "</span>" ++
    hudBar ++ lit "<span class=\"spend\">$" ++ plain (fixedFour state.spentUsd) ++
    lit "</span></header>" ++
    lit "<section class=\"territories\">" ++ tiles ++ lit "</section>" ++
    lit "<section class=\"runs\">" ++ runs ++ lit "</section>" ++
    lit "<section class=\"pen\"><h2>Prey Pen</h2>" ++ pen ++ lit "</section>" ++
    lit "</div>"

/-- `render`. -/
def render (state : ViewState) : PyStr := htmlText (board state)

end RexHunter
