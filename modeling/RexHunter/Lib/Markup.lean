import RexHunter.Lib.Text

set_option autoImplicit false

/-! # Markup with holes

An output is put together from pieces: markup, computed text that needs no escaping, and holes, whose
values are escaped on their way in. A scanner of the output keeps what stands in tags, their
delimiters included, and skips text and the values of attributes. If no hole stands directly in a tag
(`guarded`), what the scanner keeps is that of the markup alone (`tags_htmlText`), whatever the holes
are filled with. -/

namespace Markup

/-! ## Escaping -/

/-- `html.escape` of a character. -/
def escapeHtmlChar (c : CodePoint) : PyStr :=
  if c.val = 0x26 then py "&amp;"
  else if c.val = 0x3C then py "&lt;"
  else if c.val = 0x3E then py "&gt;"
  else if c.val = 0x22 then py "&quot;"
  else if c.val = 0x27 then py "&#x27;"
  else [c]

/-- `html.escape`. -/
def htmlEscape (s : PyStr) : PyStr := s.flatMap escapeHtmlChar

/-- A character that delimits neither tags nor values of attributes. -/
def isInert (c : CodePoint) : Bool :=
  decide (c.val ≠ 0x3C ∧ c.val ≠ 0x3E ∧ c.val ≠ 0x22 ∧ c.val ≠ 0x27)

/-- A text without delimiters. -/
def Inert (s : PyStr) : Prop := s.all isInert = true

instance (s : PyStr) : Decidable (Inert s) := inferInstanceAs (Decidable (s.all isInert = true))

theorem inert_iff {s : PyStr} : Inert s ↔ ∀ c ∈ s, isInert c = true := List.all_eq_true

theorem Inert.append {s t : PyStr} (hs : Inert s) (ht : Inert t) : Inert (s ++ t) := by
  unfold Inert at *
  rw [List.all_append, hs, ht]
  rfl

theorem inert_escapeHtmlChar (c : CodePoint) : Inert (escapeHtmlChar c) := by
  unfold escapeHtmlChar
  split
  · decide
  split
  · decide
  split
  · decide
  split
  · decide
  split
  · decide
  · simp only [Inert, List.all_cons, List.all_nil, Bool.and_true, isInert, decide_eq_true_eq]
    omega

/-- **What is escaped delimits nothing.** -/
theorem inert_htmlEscape (s : PyStr) : Inert (htmlEscape s) := by
  refine inert_iff.2 (fun c hc => ?_)
  obtain ⟨d, -, hc⟩ := List.mem_flatMap.1 hc
  exact inert_iff.1 (inert_escapeHtmlChar d) c hc

/-! ## Pieces -/

/-- A piece of an output. -/
inductive Piece where
  | markup (text : PyStr)
  | computed (text : PyStr)
  | hole (value : PyStr)
deriving DecidableEq, Repr

/-- A sequence of pieces. -/
abbrev Html : Type := List Piece

def Piece.text : Piece → PyStr
  | markup text => text
  | computed text => text
  | hole value => htmlEscape value

/-- The piece with its hole empty. -/
def Piece.blank : Piece → Piece
  | markup text => markup text
  | computed text => computed text
  | hole _ => hole []

/-- The value of a hole. -/
def Piece.value : Piece → Option PyStr
  | hole value => some value
  | _ => none

/-- What is output for the pieces. -/
def htmlText (html : Html) : PyStr := html.flatMap Piece.text

/-- The pieces with their holes empty. -/
def skeleton (html : Html) : Html := html.map Piece.blank

/-- The values of the holes. -/
def holes (html : Html) : List PyStr := html.filterMap Piece.value

@[simp] theorem htmlText_append (h h' : Html) : htmlText (h ++ h') = htmlText h ++ htmlText h' :=
  List.flatMap_append

@[simp] theorem skeleton_append (h h' : Html) : skeleton (h ++ h') = skeleton h ++ skeleton h' :=
  List.map_append

@[simp] theorem holes_append (h h' : Html) : holes (h ++ h') = holes h ++ holes h' :=
  List.filterMap_append

theorem skeleton_flatten (parts : List Html) :
    skeleton parts.flatten = (parts.map skeleton).flatten :=
  List.map_flatten

theorem holes_flatten (parts : List Html) : holes parts.flatten = (parts.map holes).flatten :=
  List.filterMap_flatten

/-! ## The scanner -/

/-- Where in an output a character stands. -/
inductive Place where
  | text
  | tag
  | quoted
  | apostrophed
deriving DecidableEq, Repr

namespace Place

/-- The place after a character. -/
def next : Place → CodePoint → Place
  | text, c => if c.val = 0x3C then tag else text
  | tag, c => if c.val = 0x3E then text else if c.val = 0x22 then quoted
      else if c.val = 0x27 then apostrophed else tag
  | quoted, c => if c.val = 0x22 then tag else quoted
  | apostrophed, c => if c.val = 0x27 then tag else apostrophed

/-- Whether the character belongs to a tag: all of it but the values of attributes. -/
def keeps : Place → CodePoint → Bool
  | text, c => decide (c.val = 0x3C)
  | tag, _ => true
  | quoted, c => decide (c.val = 0x22)
  | apostrophed, c => decide (c.val = 0x27)

/-- The place after a text. -/
def after (p : Place) (s : PyStr) : Place := s.foldl next p

end Place

open Place (next keeps after)

/-- What of a text that starts at this place stands in tags. -/
def tags (p : Place) : PyStr → PyStr
  | [] => []
  | c :: s => if keeps p c then c :: tags (next p c) s else tags (next p c) s

theorem after_append (p : Place) (s t : PyStr) : after p (s ++ t) = after (after p s) t :=
  List.foldl_append

theorem tags_append (s t : PyStr) : ∀ p, tags p (s ++ t) = tags p s ++ tags (after p s) t := by
  induction s with
  | nil => exact fun _ => rfl
  | cons c s ih =>
      intro p
      rw [List.cons_append, tags, tags, ih]
      split <;> rfl

/-- Outside a tag, a text without delimiters changes nothing. -/
theorem inert_scanned {p : Place} (hp : p ≠ .tag) {s : PyStr} (hs : Inert s) :
    after p s = p ∧ tags p s = [] := by
  induction s with
  | nil => exact ⟨rfl, rfl⟩
  | cons c s ih =>
      unfold Inert at hs ih
      rw [List.all_cons, Bool.and_eq_true] at hs
      obtain ⟨hc, hs⟩ := hs
      simp only [isInert, decide_eq_true_eq] at hc
      have hnext : next p c = p ∧ keeps p c = false := by
        cases p with
        | tag => exact absurd rfl hp
        | text => simp [next, keeps, hc.1]
        | quoted => simp [next, keeps, hc.2.2.1]
        | apostrophed => simp [next, keeps, hc.2.2.2]
      obtain ⟨hafter, htags⟩ := ih hs
      refine ⟨?_, ?_⟩
      · show after (next p c) s = p
        rw [hnext.1, hafter]
      · rw [tags, hnext.2, hnext.1, htags]
        rfl

/-! ## Guarded pieces -/

/-- The place after the pieces; `none` if a hole or a computed text stands directly in a tag. -/
def guarded (p : Place) : Html → Option Place
  | [] => some p
  | .markup text :: h => guarded (after p text) h
  | .computed _ :: h => if p = .tag then none else guarded p h
  | .hole _ :: h => if p = .tag then none else guarded p h

/-- What of the markup stands in tags. -/
def markupTags (p : Place) : Html → PyStr
  | [] => []
  | .markup text :: h => tags p text ++ markupTags (after p text) h
  | .computed _ :: h => markupTags p h
  | .hole _ :: h => markupTags p h

/-- The computed texts need no escaping. -/
def Plain (html : Html) : Prop := ∀ s, .computed s ∈ html → Inert s

@[simp] theorem plain_append {h h' : Html} : Plain (h ++ h') ↔ Plain h ∧ Plain h' := by
  constructor
  · intro hplain
    exact ⟨fun s hs => hplain s (List.mem_append_left h' hs),
      fun s hs => hplain s (List.mem_append_right h hs)⟩
  · rintro ⟨hh, hh'⟩ s hs
    rcases List.mem_append.1 hs with hs | hs
    · exact hh s hs
    · exact hh' s hs

theorem plain_flatten {parts : List Html} (h : ∀ part ∈ parts, Plain part) : Plain parts.flatten := by
  intro s hs
  obtain ⟨part, hpart, hs⟩ := List.mem_flatten.1 hs
  exact h part hpart s hs

theorem guarded_append (h h' : Html) : ∀ p, guarded p (h ++ h') = (guarded p h).bind (fun q => guarded q h') := by
  induction h with
  | nil => exact fun _ => rfl
  | cons piece h ih =>
      intro p
      cases piece with
      | markup text => exact ih _
      | computed text =>
          simp only [List.cons_append, guarded, ih]
          split <;> rfl
      | hole value =>
          simp only [List.cons_append, guarded, ih]
          split <;> rfl

/-- Parts one after the other. -/
theorem guarded_trans {p q r : Place} {h h' : Html} (hh : guarded p h = some q) (hh' : guarded q h' = some r) :
    guarded p (h ++ h') = some r := by
  rw [guarded_append, hh]
  exact hh'

theorem guarded_flatten {parts : List Html} {p : Place} (h : ∀ part ∈ parts, guarded p part = some p) :
    guarded p parts.flatten = some p := by
  induction parts with
  | nil => rfl
  | cons part parts ih =>
      rw [List.flatten_cons]
      exact guarded_trans (h part List.mem_cons_self) (ih (fun q hq => h q (List.mem_cons_of_mem _ hq)))

theorem guarded_skeleton (h : Html) : ∀ p, guarded p (skeleton h) = guarded p h := by
  induction h with
  | nil => exact fun _ => rfl
  | cons piece h ih =>
      intro p
      cases piece with
      | markup text => exact ih _
      | computed text => simp only [skeleton, List.map_cons, Piece.blank, guarded]; rw [← ih p]; rfl
      | hole value => simp only [skeleton, List.map_cons, Piece.blank, guarded]; rw [← ih p]; rfl

theorem markupTags_skeleton (h : Html) : ∀ p, markupTags p (skeleton h) = markupTags p h := by
  induction h with
  | nil => exact fun _ => rfl
  | cons piece h ih =>
      intro p
      cases piece with
      | markup text => exact congrArg (tags p text ++ ·) (ih _)
      | computed text => exact ih p
      | hole value => exact ih p

/-- **Holes that are not in a tag leave the tags to the markup.** -/
theorem tags_htmlText {h : Html} (hplain : Plain h) : ∀ {p q : Place}, guarded p h = some q →
    after p (htmlText h) = q ∧ tags p (htmlText h) = markupTags p h := by
  induction h with
  | nil =>
      intro p q hq
      exact ⟨Option.some.inj hq, rfl⟩
  | cons piece h ih =>
      intro p q hq
      have hrest := @ih (fun s hs => hplain s (List.mem_cons_of_mem _ hs))
      -- a piece that is no markup is inert, and does not stand in a tag
      have hinert : ∀ s, Inert s → piece.text = s → p ≠ .tag → guarded p h = some q →
          after p (htmlText (piece :: h)) = q ∧
            tags p (htmlText (piece :: h)) = markupTags p h := by
        intro s hs htext hp hq
        obtain ⟨hafter, htags⟩ := inert_scanned hp hs
        have hcons : htmlText (piece :: h) = s ++ htmlText h := by
          rw [← htext]
          rfl
        rw [hcons, after_append, tags_append, hafter, htags]
        exact hrest hq
      cases piece with
      | markup text =>
          have hcons : htmlText (.markup text :: h) = text ++ htmlText h := rfl
          rw [hcons, after_append, tags_append, markupTags]
          obtain ⟨hafter, htags⟩ := hrest hq
          exact ⟨hafter, by rw [htags]⟩
      | computed text =>
          simp only [guarded] at hq
          split at hq
          · cases hq
          · next hp => exact hinert text (hplain text List.mem_cons_self) rfl hp hq
      | hole value =>
          simp only [guarded] at hq
          split at hq
          · cases hq
          · next hp => exact hinert _ (inert_htmlEscape value) rfl hp hq

/-- **Outputs of one skeleton have the same tags.** -/
theorem tags_eq_of_skeleton {h h' : Html} {q : Place} (hplain : Plain h) (hplain' : Plain h')
    (hguarded : guarded .text h = some q) (hskeleton : skeleton h = skeleton h') :
    tags .text (htmlText h) = tags .text (htmlText h') := by
  have hguarded' : guarded .text h' = some q := by
    rw [← guarded_skeleton, ← hskeleton, guarded_skeleton, hguarded]
  rw [(tags_htmlText hplain hguarded).2, (tags_htmlText hplain' hguarded').2, ← markupTags_skeleton,
    hskeleton, markupTags_skeleton]

end Markup
