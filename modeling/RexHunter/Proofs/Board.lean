import RexHunter.Lib.JsonRoundTrip
import RexHunter.Implementation.Render

set_option autoImplicit false

/-! # The markup of the board does not depend on untrusted text

Three facts about the pieces of a board, each proved component by component: its skeleton is that of
the board of the redacted state, its holes hold exactly the strings of the state (`holesOf`), and no
hole stands in a tag. The output then has the same tags for all states that differ in the redacted
strings only. -/

namespace RexHunter

open Markup

/-! ## The untrusted strings -/

def RunView.redact (run : RunView) : RunView :=
  { run with
    runId := []
    currentTool := run.currentTool.map (fun _ => [])
    thinking := []
    territory := run.territory.map (fun _ => []) }

def TerritoryView.redact (tile : TerritoryView) : TerritoryView := { tile with territory := [] }

def PreyCard.redact (card : PreyCard) : PreyCard :=
  { card with preyId := [], territory := [], posting := [] }

/-- The state with the contents of its run ids, present tool names, thinking, territories, postings
    and prey ids removed. -/
def ViewState.redact (state : ViewState) : ViewState :=
  { state with
    runs := state.runs.map RunView.redact
    territories := state.territories.map TerritoryView.redact
    pen := state.pen.map PreyCard.redact }

/-! ## The skeleton -/

@[simp] theorem skeleton_lit (s : String) : skeleton (lit s) = lit s := rfl

@[simp] theorem skeleton_plain (s : PyStr) : skeleton (plain s) = plain s := rfl

@[simp] theorem skeleton_esc (value : PyStr) : skeleton (esc value) = [.hole []] := rfl

@[simp] theorem htmlText_lit (s : String) : htmlText (lit s) = py s := by
  simp [htmlText, lit, Piece.text]

theorem skeleton_runCard (run : RunView) : skeleton (runCard run) = skeleton (runCard run.redact) := by
  unfold runCard RunView.redact
  cases run.currentTool <;> simp

theorem skeleton_territoryTile (tile : TerritoryView) :
    skeleton (territoryTile tile) = skeleton (territoryTile tile.redact) := by
  have hstate : tileState tile.redact = tileState tile := rfl
  unfold territoryTile
  simp [hstate]

theorem skeleton_preyRow (card : PreyCard) :
    skeleton (preyRow card) = skeleton (preyRow card.redact) := by
  unfold preyRow PreyCard.redact actions button
  cases card.status <;> simp

/-- Parts that output something are joined, if there are any. -/
theorem joinOr_eq {parts : List Html} (h : ∀ part ∈ parts, htmlText part ≠ []) (default : Html) :
    joinOr parts default = if parts = [] then default else parts.flatten := by
  unfold joinOr
  cases parts with
  | nil => rfl
  | cons part parts =>
      have hjoined : htmlText (part :: parts).flatten ≠ [] := by
        intro hnil
        rw [List.flatten_cons, htmlText_append, List.append_eq_nil_iff] at hnil
        exact h part List.mem_cons_self hnil.1
      rw [if_neg hjoined, if_neg (by simp)]

theorem htmlText_runCard (run : RunView) : htmlText (runCard run) ≠ [] := by
  unfold runCard
  simp only [htmlText_append, htmlText_lit, List.append_assoc]
  exact List.append_ne_nil_of_left_ne_nil (by decide) _

theorem htmlText_preyRow (card : PreyCard) : htmlText (preyRow card) ≠ [] := by
  unfold preyRow
  simp only [htmlText_append, htmlText_lit, List.append_assoc]
  exact List.append_ne_nil_of_left_ne_nil (by decide) _

/-- The live runs of the redacted state are the redacted live runs. -/
theorem live_redact (state : ViewState) :
    (state.redact.runs.filter (fun run => run.outcome = none))
      = (state.runs.filter (fun run => run.outcome = none)).map RunView.redact := by
  unfold ViewState.redact
  rw [List.filter_map]
  rfl

/-- **The skeleton of a board.** -/
theorem skeleton_board (state : ViewState) : skeleton (board state) = skeleton (board state.redact) := by
  have hruns : ∀ parts : List RunView, skeleton (joinOr (parts.map runCard)
      (lit "<p class=\"empty\">no active hunts</p>"))
      = skeleton (joinOr ((parts.map RunView.redact).map runCard)
        (lit "<p class=\"empty\">no active hunts</p>")) := by
    intro parts
    rw [joinOr_eq (by simp [htmlText_runCard]), joinOr_eq (by simp [htmlText_runCard])]
    cases parts with
    | nil => rfl
    | cons run parts =>
        simp [skeleton_flatten, Function.comp_def, ← skeleton_runCard]
  have hpen : ∀ parts : List PreyCard, skeleton (joinOr (parts.map preyRow)
      (lit "<p class=\"empty\">pen empty</p>"))
      = skeleton (joinOr ((parts.map PreyCard.redact).map preyRow)
        (lit "<p class=\"empty\">pen empty</p>")) := by
    intro parts
    rw [joinOr_eq (by simp [htmlText_preyRow]), joinOr_eq (by simp [htmlText_preyRow])]
    cases parts with
    | nil => rfl
    | cons card parts =>
        simp [skeleton_flatten, Function.comp_def, ← skeleton_preyRow]
  have htiles : skeleton (state.territories.map territoryTile).flatten
      = skeleton ((state.territories.map TerritoryView.redact).map territoryTile).flatten := by
    simp [skeleton_flatten, Function.comp_def, ← skeleton_territoryTile]
  unfold board
  simp only [skeleton_append, live_redact, ← hruns]
  simp only [ViewState.redact, ← hpen, ← htiles]

/-! ## The holes -/

/-- How many buttons a status offers. -/
def buttonCount : PreyStatus → Nat
  | .awaitingVerdict => 3
  | .ambered => 1
  | _ => 0

/-- The strings of a state that its board shows, in order of appearance. -/
def holesOf (state : ViewState) : List PyStr :=
  state.territories.map TerritoryView.territory ++
  (state.runs.filter (fun run => run.outcome = none)).flatMap (fun run =>
    [run.runId] ++ run.currentTool.toList ++ [lastChars thinkingTailChars run.thinking]) ++
  state.pen.flatMap (fun card =>
    [card.territory, card.posting] ++ List.replicate (buttonCount card.status) card.preyId)

@[simp] theorem holes_nil : holes [] = [] := rfl

@[simp] theorem holes_lit (s : String) : holes (lit s) = [] := rfl

@[simp] theorem holes_plain (s : PyStr) : holes (plain s) = [] := rfl

@[simp] theorem holes_esc (value : PyStr) : holes (esc value) = [value] := rfl

@[simp] theorem holes_barIf (kind : String) (fraction : Option ℚ) :
    holes (barIf kind fraction) = [] := by
  cases fraction <;> simp [barIf, bar]

theorem holes_runCard (run : RunView) : holes (runCard run) =
    [run.runId] ++ run.currentTool.toList ++ [lastChars thinkingTailChars run.thinking] := by
  unfold runCard
  cases run.currentTool <;> simp

theorem holes_territoryTile (tile : TerritoryView) : holes (territoryTile tile) = [tile.territory] := by
  simp [territoryTile]

theorem holes_preyRow (card : PreyCard) : holes (preyRow card) =
    [card.territory, card.posting] ++ List.replicate (buttonCount card.status) card.preyId := by
  unfold preyRow actions button buttonCount
  cases card.status <;> simp [List.replicate]

/-- **The holes of a board.** -/
theorem holes_board (state : ViewState) : holes (board state) = holesOf state := by
  have hruns : ∀ parts : List RunView, holes (joinOr (parts.map runCard)
      (lit "<p class=\"empty\">no active hunts</p>")) = parts.flatMap (fun run =>
        [run.runId] ++ run.currentTool.toList ++ [lastChars thinkingTailChars run.thinking]) := by
    intro parts
    rw [joinOr_eq (by simp [htmlText_runCard])]
    cases parts with
    | nil => rfl
    | cons run parts =>
        simp [holes_flatten, Function.comp_def, holes_runCard, List.flatMap_def]
  have hpen : holes (joinOr (state.pen.map preyRow) (lit "<p class=\"empty\">pen empty</p>"))
      = state.pen.flatMap (fun card =>
        [card.territory, card.posting] ++ List.replicate (buttonCount card.status) card.preyId) := by
    rw [joinOr_eq (by simp [htmlText_preyRow])]
    cases state.pen with
    | nil => rfl
    | cons card parts =>
        simp [holes_flatten, Function.comp_def, holes_preyRow, List.flatMap_def]
  have htiles : holes (state.territories.map territoryTile).flatten
      = state.territories.map TerritoryView.territory := by
    rw [holes_flatten, List.map_map, ← List.flatMap_def, List.map_eq_flatMap]
    simp only [Function.comp_def, holes_territoryTile]
  unfold board holesOf
  simp only [holes_append, hruns, hpen, htiles, holes_lit, holes_plain, holes_barIf]
  cases state.phase <;> simp

/-! ## The tags -/

theorem guarded_barIf {kind : String} (h : kind = "hp" ∨ kind = "stamina") (fraction : Option ℚ) :
    guarded .text (barIf kind fraction) = some .text := by
  cases fraction with
  | none => rfl
  | some q => rcases h with rfl | rfl <;> rfl

theorem guarded_runCard (run : RunView) : guarded .text (runCard run) = some .text := by
  unfold runCard
  cases run.currentTool with
  | none =>
      repeat' apply guarded_trans
      all_goals first | exact guarded_barIf (Or.inl rfl) _ | exact guarded_barIf (Or.inr rfl) _ | rfl
  | some name =>
      repeat' apply guarded_trans
      all_goals first | exact guarded_barIf (Or.inl rfl) _ | exact guarded_barIf (Or.inr rfl) _ | rfl

theorem guarded_tileState (tile : TerritoryView) :
    guarded .quoted (lit (tileState tile)) = some .quoted := by
  have hstate : tileState tile ∈ ["hunting", "dormant", "fresh-kill", "cracked-earth"] := by
    unfold tileState
    split
    · split <;> simp
    · simp
    · simp
  simp only [List.mem_cons, List.not_mem_nil, or_false] at hstate
  rcases hstate with h | h | h | h <;> rw [h] <;> rfl

theorem guarded_territoryTile (tile : TerritoryView) :
    guarded .text (territoryTile tile) = some .text := by
  unfold territoryTile
  repeat' apply guarded_trans
  all_goals first | exact guarded_tileState tile | rfl

theorem guarded_preyRow (card : PreyCard) : guarded .text (preyRow card) = some .text := by
  unfold preyRow actions
  cases card.status <;> rfl

theorem guarded_joinOr {parts : List Html} {default : Html}
    (h : ∀ part ∈ parts, guarded .text part = some .text)
    (hdefault : guarded .text default = some .text) :
    guarded .text (joinOr parts default) = some .text := by
  unfold joinOr
  split
  · exact hdefault
  · exact guarded_flatten h

/-- **No hole of a board stands in a tag.** -/
theorem guarded_board (state : ViewState) : guarded .text (board state) = some .text := by
  have hruns : guarded .text (joinOr
      ((state.runs.filter (fun run => run.outcome = none)).map runCard)
      (lit "<p class=\"empty\">no active hunts</p>")) = some .text :=
    guarded_joinOr (List.forall_mem_map.2 (fun run _ => guarded_runCard run)) rfl
  have hpen : guarded .text (joinOr (state.pen.map preyRow)
      (lit "<p class=\"empty\">pen empty</p>")) = some .text :=
    guarded_joinOr (List.forall_mem_map.2 (fun card _ => guarded_preyRow card)) rfl
  have htiles : guarded .text (state.territories.map territoryTile).flatten = some .text :=
    guarded_flatten (List.forall_mem_map.2 (fun tile _ => guarded_territoryTile tile))
  have hbar := guarded_barIf (Or.inl rfl) (remaining state.spentUsd state.daemonSpendCeilingUsd)
  unfold board
  cases state.phase with
  | day =>
      repeat' apply guarded_trans
      all_goals first | exact hruns | exact hpen | exact htiles | exact hbar | rfl
  | night =>
      repeat' apply guarded_trans
      all_goals first | exact hruns | exact hpen | exact htiles | exact hbar | rfl

/-! ## The computed texts -/

theorem inert_digit {c : CodePoint} (h : isDigit c = true) : isInert c = true := by
  simp only [isDigit, decide_eq_true_eq] at h
  simp only [isInert, decide_eq_true_eq]
  omega

theorem inert_decimalDigits (n : Nat) : Inert (decimalDigits n) :=
  inert_iff.2 (fun c hc => inert_digit (decimalDigits_all n c hc))

theorem inert_padded (width n : Nat) : Inert (Timeline.padded width n) := by
  induction width generalizing n with
  | zero => rfl
  | succ width ih =>
      refine (ih (n / 10)).append (inert_iff.2 (fun c hc => ?_))
      rw [List.mem_singleton.1 hc]
      have hval := Timeline.digit_val (Nat.mod_lt n (by omega : 10 > 0))
      simp only [isInert, hval, decide_eq_true_eq]
      omega

theorem inert_fixedFour (q : ℚ) : Inert (fixedFour q) := by
  unfold fixedFour
  refine ((Inert.append ?_ (inert_decimalDigits _)).append (by decide)).append (inert_padded _ _)
  split <;> decide

theorem inert_percent (q : ℚ) : Inert (percent q) := by
  unfold percent
  refine (Inert.append ?_ (inert_decimalDigits _)).append (by decide)
  split <;> decide

theorem inert_upper (phase : DayPhase) : Inert (asciiUpper (py phase.value)) := by
  cases phase <;> decide

@[simp] theorem plain_nil : Plain [] := fun _ hs => absurd hs List.not_mem_nil

@[simp] theorem plain_lit (s : String) : Plain (lit s) := by
  intro t ht
  simp [lit] at ht

@[simp] theorem plain_esc (value : PyStr) : Plain (esc value) := by
  intro t ht
  simp [esc] at ht

@[simp] theorem plain_plain {s : PyStr} : Plain (plain s) ↔ Inert s := by
  simp [Plain, plain]

@[simp] theorem plain_barIf (kind : String) (fraction : Option ℚ) : Plain (barIf kind fraction) := by
  cases fraction <;> simp [barIf, bar, inert_percent]

theorem plain_runCard (run : RunView) : Plain (runCard run) := by
  unfold runCard
  cases run.currentTool <;> simp [inert_decimalDigits, inert_fixedFour]

theorem plain_territoryTile (tile : TerritoryView) : Plain (territoryTile tile) := by
  simp [territoryTile]

theorem plain_preyRow (card : PreyCard) : Plain (preyRow card) := by
  unfold preyRow actions button
  cases card.status <;> simp [inert_htmlEscape]

theorem plain_joinOr {parts : List Html} {default : Html} (h : ∀ part ∈ parts, Plain part)
    (hdefault : Plain default) : Plain (joinOr parts default) := by
  unfold joinOr
  split
  · exact hdefault
  · exact plain_flatten h

/-- **What a board computes delimits nothing.** -/
theorem plain_board (state : ViewState) : Plain (board state) := by
  have hruns : Plain (joinOr ((state.runs.filter (fun run => run.outcome = none)).map runCard)
      (lit "<p class=\"empty\">no active hunts</p>")) :=
    plain_joinOr (List.forall_mem_map.2 (fun run _ => plain_runCard run)) (plain_lit _)
  have hpen : Plain (joinOr (state.pen.map preyRow) (lit "<p class=\"empty\">pen empty</p>")) :=
    plain_joinOr (List.forall_mem_map.2 (fun card _ => plain_preyRow card)) (plain_lit _)
  have htiles : Plain (state.territories.map territoryTile).flatten :=
    plain_flatten (List.forall_mem_map.2 (fun tile _ => plain_territoryTile tile))
  unfold board
  cases state.phase <;>
    simp [hruns, hpen, htiles, inert_upper, inert_fixedFour]

/-! ## The law -/

/-- **Markup is independent of untrusted text.** States that differ in the redacted strings only
    give boards of one skeleton and outputs with the same tags; the holes are the strings of the
    state, and none of them delimits anything once escaped. -/
theorem markup_independent (state other : ViewState) (h : state.redact = other.redact) :
    skeleton (board state) = skeleton (board other) ∧
    tags .text (render state) = tags .text (render other) ∧
    holes (board state) = holesOf state ∧
    holes (board other) = holesOf other ∧
    ∀ value ∈ holesOf state ++ holesOf other, Inert (htmlEscape value) := by
  have hskeleton : skeleton (board state) = skeleton (board other) := by
    rw [skeleton_board state, skeleton_board other, h]
  have htags := tags_eq_of_skeleton (plain_board state) (plain_board other)
    (guarded_board state) hskeleton
  exact ⟨hskeleton, htags, holes_board state, holes_board other,
    fun value _ => inert_htmlEscape value⟩

/-- A pen with one prey of this posting. -/
def onePosting (posting : PyStr) : ViewState where
  highWater := 1
  runs := []
  pen := [⟨py "p", py "t", posting, .awaitingVerdict, none, none⟩]
  spentUsd := 0
  phase := .day
  territories := []
  daemonSpendCeilingUsd := none

/-- A posting that is a script. -/
theorem script_inert :
    tags .text (render (onePosting (py "<script>alert('x')</script>")))
      = tags .text (render (onePosting (py "Data Engineer"))) :=
  (markup_independent (onePosting (py "<script>alert('x')</script>"))
    (onePosting (py "Data Engineer")) rfl).2.1

end RexHunter
