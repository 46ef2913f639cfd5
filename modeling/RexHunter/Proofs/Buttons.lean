import RexHunter.Implementation.Clicks
import RexHunter.Proofs.Board

set_option autoImplicit false

/-! # The buttons of a page

The tags of a board other than those of the cards of the pen are no buttons, whatever the strings of
its state hold, because the names of tags stand in the markup. The card of a prey has one button for
each verdict that leads on from its status (`verdictButtons_render`). -/

namespace RexHunter

open Markup
open Markup.TagReader (outside Reads)

/-- Read from outside of tags, the pieces lead back there, and have these buttons. -/
structure Shows (h : Html) (buttons : List VerdictButton) : Prop where
  after : outside.after (htmlText h) = outside
  buttons : verdictButtons (htmlText h) = buttons

theorem Shows.append {h h' : Html} {buttons buttons' : List VerdictButton} (hh : Shows h buttons)
    (hh' : Shows h' buttons') : Shows (h ++ h') (buttons ++ buttons') := by
  refine ⟨?_, ?_⟩
  · rw [htmlText_append, TagReader.after_append, hh.after, hh'.after]
  · have hbuttons := hh.buttons
    have hbuttons' := hh'.buttons
    unfold verdictButtons at *
    rw [htmlText_append, TagReader.tags_append, hh.after, List.filterMap_append, hbuttons,
      hbuttons']

theorem Shows.nil : Shows [] [] := ⟨rfl, rfl⟩

theorem Shows.flatten {α : Type} {f : α → Html} {g : α → List VerdictButton} {l : List α}
    (h : ∀ a ∈ l, Shows (f a) (g a)) : Shows (l.map f).flatten (l.flatMap g) := by
  induction l with
  | nil => exact .nil
  | cons a l ih =>
      rw [List.map_cons, List.flatten_cons, List.flatMap_cons]
      exact (h a List.mem_cons_self).append (ih (fun b hb => h b (List.mem_cons_of_mem _ hb)))

theorem Shows.joinOr {α : Type} {f : α → Html} {g : α → List VerdictButton} {l : List α}
    {default : Html} (h : ∀ a ∈ l, Shows (f a) (g a)) (hdefault : Shows default []) :
    Shows (joinOr (l.map f) default) (l.flatMap g) := by
  have hflat := Shows.flatten h
  unfold RexHunter.joinOr
  split
  · next hempty =>
      have hnone : verdictButtons [] = l.flatMap g := by rw [← hempty, hflat.buttons]
      rw [← hnone]
      exact hdefault
  · exact hflat

/-- No tag of the markup is a button. -/
def Buttonless (h : Html) : Prop :=
  ∀ tag ∈ outside.tags (markupText h), tag.name ≠ py "button"

instance (h : Html) : Decidable (Buttonless h) :=
  inferInstanceAs (Decidable (∀ tag ∈ outside.tags (markupText h), tag.name ≠ py "button"))

/-- Pieces whose markup has no button show none. -/
theorem Shows.of_markup {h : Html} (hplain : Plain h) (hguarded : guarded .text h = some .text)
    (hnone : Buttonless h) : Shows h [] := by
  obtain ⟨hlabels, -, hplace⟩ := labels_htmlText hplain (.refl outside) hguarded
  refine ⟨TagReader.after_eq_outside _ (fun _ => rfl) hplace, ?_⟩
  refine List.filterMap_eq_nil_iff.2 (fun tag htag => ?_)
  have hmem : tag.labels ∈ (outside.tags (markupText h)).map Tag.labels := by
    rw [← hlabels]
    exact List.mem_map_of_mem htag
  obtain ⟨tag', htag', heq⟩ := List.mem_map.1 hmem
  have hname : tag.name ≠ py "button" := by
    rw [← Tag.name_eq_of_labels heq]
    exact hnone tag' htag'
  exact if_neg hname

/-! ## The sections -/

theorem shows_barIf {kind : String} (h : kind = "hp" ∨ kind = "stamina") (fraction : Option ℚ) :
    Shows (barIf kind fraction) [] := by
  refine .of_markup (plain_barIf kind fraction) (guarded_barIf h fraction) ?_
  cases fraction with
  | none => exact of_decide_eq_true rfl
  | some q => rcases h with rfl | rfl <;> exact of_decide_eq_true rfl

theorem shows_tile (tile : TerritoryView) : Shows (territoryTile tile) [] := by
  refine .of_markup (plain_territoryTile tile) (guarded_territoryTile tile) ?_
  unfold territoryTile tileState
  split
  · split <;> exact of_decide_eq_true rfl
  · exact of_decide_eq_true rfl
  · exact of_decide_eq_true rfl

/-- Side by side, sections without buttons have none. -/
theorem Shows.beside {h h' : Html} (hh : Shows h []) (hh' : Shows h' []) : Shows (h ++ h') [] :=
  hh.append hh'

theorem shows_lit {s : String} (hguarded : guarded .text (lit s) = some .text)
    (hnone : Buttonless (lit s)) : Shows (lit s) [] :=
  .of_markup (plain_lit s) hguarded hnone

theorem shows_esc (value : PyStr) : Shows (esc value) [] :=
  .of_markup (plain_esc value) rfl (of_decide_eq_true rfl)

theorem shows_plain {s : PyStr} (hs : Inert s) : Shows (plain s) [] :=
  .of_markup (plain_plain.2 hs) rfl (of_decide_eq_true rfl)

/-- The first tags of a card; a value of theirs is one of two words. -/
theorem shows_runHead (hunting : Bool) : Shows (lit "<article class=\"run\" data-rex=\"" ++
    (if hunting then lit "hunting" else lit "idle") ++ lit "\"><h3>") [] := by
  cases hunting <;> exact .of_markup (by simp) rfl (of_decide_eq_true rfl)

theorem shows_runCard (run : RunView) : Shows (runCard run) [] := by
  have hhead := shows_runHead run.currentTool.isSome
  dsimp only [runCard]
  revert hhead
  generalize lit "<article class=\"run\" data-rex=\"" ++
    (if run.currentTool.isSome then lit "hunting" else lit "idle") ++ lit "\"><h3>" = head
  intro hhead
  -- with and without a tool, the same kinds of pieces
  cases run.currentTool
  all_goals
    repeat' apply Shows.beside
    all_goals first
      | exact hhead | exact shows_esc _ | exact shows_plain (inert_decimalDigits _)
      | exact shows_plain (inert_fixedFour _) | exact shows_lit rfl (of_decide_eq_true rfl)
      | exact shows_barIf (Or.inl rfl) _ | exact shows_barIf (Or.inr rfl) _

/-! ## The pen -/

@[simp] theorem htmlText_esc (value : PyStr) : htmlText (esc value) = htmlEscape value :=
  List.append_nil _

theorem button_shows (preyId : PyStr) {verdict label : String} (hverdict : Inert (py verdict))
    (hvalue : htmlUnescape (py verdict) = py verdict) (hlabel : Inert (py label)) :
    Shows (button preyId verdict label) [⟨some preyId, py verdict⟩] := by
  -- the reader in each of the two values
  let inId : TagReader := ⟨.quoted, [], py "button data-prey-id=", []⟩
  let inVerdict : TagReader :=
    ⟨.quoted, [(py "button data-prey-id=", htmlEscape preyId)], py " data-verdict=", []⟩
  let opening : Tag :=
    ⟨[(py "button data-prey-id=", htmlEscape preyId), (py " data-verdict=", py verdict)], []⟩
  have hopen : Reads outside (py "<button data-prey-id=\"") [] inId := ⟨rfl, rfl⟩
  have hid := TagReader.value_inert (inert_htmlEscape preyId) (r := inId) (Or.inl rfl)
  have hbetween : Reads { inId with value := htmlEscape preyId } (py "\" data-verdict=\"") []
    inVerdict := TagReader.reads_between (s := py " data-verdict=") (by decide)
  have hname := TagReader.value_inert hverdict (r := inVerdict) (Or.inl rfl)
  have hclose : Reads { inVerdict with value := py verdict } (py "\">") [opening] outside :=
    TagReader.reads_closing _ _ _
  have htext := TagReader.text_inert hlabel (r := outside) rfl
  have hend : Reads outside (py "</button>") [⟨[], py "/button"⟩] outside := ⟨rfl, rfl⟩
  have hall := (((((hopen.append hid).append hbetween).append hname).append hclose).append
    htext).append hend
  have htextOf : htmlText (button preyId verdict label) = py "<button data-prey-id=\"" ++
      htmlEscape preyId ++ py "\" data-verdict=\"" ++ py verdict ++ py "\">" ++ py label ++
      py "</button>" := by
    simp only [button, htmlText_append, htmlText_lit, htmlText_esc]
  have hbutton : verdictButton opening = some ⟨some preyId, py verdict⟩ := by
    have hisButton : opening.name = py "button" := rfl
    have hid' : opening.value (py "data-prey-id") = some (htmlUnescape (htmlEscape preyId)) := rfl
    have hverdict' : opening.value (py "data-verdict") = some (htmlUnescape (py verdict)) := rfl
    unfold verdictButton
    rw [if_pos hisButton, hid', hverdict', htmlUnescape_htmlEscape, hvalue]
    rfl
  have hother : verdictButton ⟨[], py "/button"⟩ = none := rfl
  rw [← htextOf] at hall
  refine ⟨hall.after, ?_⟩
  unfold verdictButtons
  rw [hall.tags]
  simp [hbutton, hother]

/-- The verdicts that lead on from a status. -/
def PreyStatus.offers (status : PreyStatus) : List Verdict :=
  [Verdict.feast, .release, .amber, .reenter].filter (fun v => v.source = status)

/-- The buttons of a prey. -/
def buttonsOf (preyId : PyStr) (status : PreyStatus) : List VerdictButton :=
  status.offers.map (fun v => ⟨some preyId, v.value⟩)

theorem shows_actions (card : PreyCard) :
    Shows (actions card) (buttonsOf card.preyId card.status) := by
  have hend : Shows (lit "</span>") [] := shows_lit rfl (of_decide_eq_true rfl)
  unfold actions
  cases card.status with
  | awaitingVerdict =>
      have hopen := shows_lit
        (s := "<span class=\"actions\"><input class=\"reason\" placeholder=\"reason…\">")
        rfl (of_decide_eq_true rfl)
      have hfeast : Shows (button card.preyId "feast" "Feast") _ :=
        button_shows _ (by decide) (by decide) (by decide)
      have hrelease : Shows (button card.preyId "release" "Release") _ :=
        button_shows _ (by decide) (by decide) (by decide)
      have hamber : Shows (button card.preyId "amber" "Amber") _ :=
        button_shows _ (by decide) (by decide) (by decide)
      exact (((hopen.append hfeast).append hrelease).append hamber).append hend
  | ambered =>
      have hopen : Shows (lit "<span class=\"actions\">") [] :=
        shows_lit rfl (of_decide_eq_true rfl)
      have hreenter : Shows (button card.preyId "reenter" "Reenter") _ :=
        button_shows _ (by decide) (by decide) (by decide)
      exact (hopen.append hreenter).append hend
  | feasted => exact .nil
  | released => exact .nil

/-- A section after one without buttons, and before one. -/
theorem Shows.preceded {h h' : Html} {buttons : List VerdictButton} (hh : Shows h [])
    (hh' : Shows h' buttons) : Shows (h ++ h') buttons :=
  hh.append hh'

theorem Shows.followed {h h' : Html} {buttons : List VerdictButton} (hh : Shows h buttons)
    (hh' : Shows h' []) : Shows (h ++ h') buttons := by
  have hall := hh.append hh'
  rwa [List.append_nil] at hall

theorem shows_preyRow (card : PreyCard) :
    Shows (preyRow card) (buttonsOf card.preyId card.status) := by
  have hhead : Shows (lit "<article class=\"prey status-" ++ plain (htmlEscape card.status.value) ++
      lit "\">") [] :=
    .of_markup (by simp [inert_htmlEscape]) rfl (of_decide_eq_true rfl)
  dsimp only [preyRow]
  revert hhead
  generalize lit "<article class=\"prey status-" ++ plain (htmlEscape card.status.value) ++
    lit "\">" = head
  intro hhead
  refine (Shows.preceded ?_ (shows_actions card)).followed (shows_lit rfl (of_decide_eq_true rfl))
  repeat' apply Shows.beside
  all_goals first
    | exact hhead | exact shows_esc _ | exact shows_plain (inert_htmlEscape _)
    | exact shows_lit rfl (of_decide_eq_true rfl)

/-! ## The board -/

theorem shows_boardHead (phase : DayPhase) : Shows (lit "<div class=\"board\" data-phase=\"" ++
    lit phase.value ++ lit "\">") [] := by
  cases phase <;> exact .of_markup (by simp) rfl (of_decide_eq_true rfl)

/-- **The buttons of a board.** -/
theorem verdictButtons_render (state : ViewState) :
    verdictButtons (render state)
      = state.pen.flatMap (fun card => buttonsOf card.preyId card.status) := by
  have hhead := shows_boardHead state.phase
  have htiles : Shows (state.territories.map territoryTile).flatten [] := by
    have hall := Shows.flatten (l := state.territories) (fun tile _ => shows_tile tile)
    rwa [List.flatMap_eq_nil_iff.2 (fun _ _ => rfl)] at hall
  have hruns : Shows (joinOr ((state.runs.filter (fun run => run.outcome = none)).map runCard)
      (lit "<p class=\"empty\">no active hunts</p>"))
      ((state.runs.filter (fun run => run.outcome = none)).flatMap (fun _ => [])) :=
    Shows.joinOr (fun run _ => shows_runCard run) (shows_lit rfl (of_decide_eq_true rfl))
  rw [List.flatMap_eq_nil_iff.2 (fun _ _ => rfl)] at hruns
  have hpen : Shows (joinOr (state.pen.map preyRow) (lit "<p class=\"empty\">pen empty</p>"))
      (state.pen.flatMap (fun card => buttonsOf card.preyId card.status)) :=
    Shows.joinOr (fun card _ => shows_preyRow card) (shows_lit rfl (of_decide_eq_true rfl))
  have hbar := shows_barIf (Or.inl rfl) (remaining state.spentUsd state.daemonSpendCeilingUsd)
  refine Shows.buttons (h := board state) ?_
  dsimp only [board]
  revert hhead
  generalize lit "<div class=\"board\" data-phase=\"" ++ lit state.phase.value ++ lit "\">" = head
  intro hhead
  have hclose : Shows (lit "</section>") [] := shows_lit rfl (of_decide_eq_true rfl)
  refine ((Shows.preceded ?_ hpen).followed hclose).followed (shows_lit rfl (of_decide_eq_true rfl))
  have hphase := inert_upper state.phase
  generalize asciiUpper (py state.phase.value) = upper at hphase
  -- what comes before the pen, up to the icon of the phase
  cases state.phase
  all_goals
    repeat' apply Shows.beside
    all_goals first
      | exact hhead | exact htiles | exact hruns | exact hbar | exact shows_plain hphase
      | exact shows_plain (inert_fixedFour _) | exact shows_lit rfl (of_decide_eq_true rfl)

end RexHunter
