import RexHunter.Lib.Markup

set_option autoImplicit false

/-! # Reading the tags of an output

What a browser makes of an output: the tags with the values of their attributes. A value is what was
escaped on its way in (`htmlUnescape_htmlEscape`), and what stands in front of the values, the names
of the tags among it, is that of the markup alone (`labels_htmlText`). -/

namespace Markup

/-! ## Character references -/

/-- The references that `html.escape` writes. -/
def references : List (PyStr × CodePoint) :=
  [(py "&amp;", 0x26), (py "&lt;", 0x3C), (py "&gt;", 0x3E), (py "&quot;", 0x22),
    (py "&#x27;", 0x27)]

/-- The reference a text starts with, and the text after it. -/
def reference (s : PyStr) : Option (CodePoint × PyStr) :=
  (references.find? (fun r => r.1.isPrefixOf s)).map (fun r => (r.2, s.drop r.1.length))

/-- The text with its references resolved; each step takes at least one character. -/
def unescapeFor : Nat → PyStr → PyStr
  | 0, s => s
  | _ + 1, [] => []
  | n + 1, c :: s =>
      match reference (c :: s) with
      | some (d, rest) => d :: unescapeFor n rest
      | none => c :: unescapeFor n s

/-- The value of an attribute. -/
def htmlUnescape (s : PyStr) : PyStr := unescapeFor s.length s

/-- A text that starts with no ampersand starts with no reference. -/
theorem reference_eq_none {c : CodePoint} (hc : c.val ≠ 0x26) (s : PyStr) :
    reference (c :: s) = none := by
  -- every reference starts with an ampersand
  have hne : ∀ r ∈ references, r.1.isPrefixOf (c :: s) ≠ true := by
    intro r hr hprefix
    have hhead : r.1.head? = some (0x26 : CodePoint) :=
      (by decide : ∀ r ∈ references, r.1.head? = some (0x26 : CodePoint)) r hr
    obtain ⟨rest, hrest⟩ := List.isPrefixOf_iff_prefix.1 hprefix
    cases hr1 : r.1 with
    | nil => rw [hr1] at hhead; cases hhead
    | cons d t =>
        rw [hr1] at hhead hrest
        cases hhead
        rw [List.cons_append, List.cons.injEq] at hrest
        exact hc (by rw [← hrest.1]; rfl)
  unfold reference
  rw [List.find?_eq_none.2 hne]
  rfl

/-- What is written for a character is read back as the character. -/
theorem reference_escapeHtmlChar {c : CodePoint} (s : PyStr) (hc : escapeHtmlChar c ≠ [c]) :
    reference (escapeHtmlChar c ++ s) = some (c, s) := by
  have hfound : ∀ (ref : PyStr) (d : CodePoint), (ref, d) ∈ references → c.val = d.val →
      reference (ref ++ s) = some (c, s) := by
    intro ref d hmem hval
    obtain rfl : c = d := Fin.ext hval
    simp only [references, List.mem_cons, List.not_mem_nil, or_false, Prod.mk.injEq] at hmem
    rcases hmem with ⟨rfl, rfl⟩ | ⟨rfl, rfl⟩ | ⟨rfl, rfl⟩ | ⟨rfl, rfl⟩ | ⟨rfl, rfl⟩ <;> rfl
  unfold escapeHtmlChar at hc ⊢
  split
  · next h => exact hfound _ 0x26 (by simp [references]) h
  split
  · next h => exact hfound _ 0x3C (by simp [references]) h
  split
  · next h => exact hfound _ 0x3E (by simp [references]) h
  split
  · next h => exact hfound _ 0x22 (by simp [references]) h
  split
  · next h => exact hfound _ 0x27 (by simp [references]) h
  · simp_all

/-- A character that is written as it is starts no reference. -/
theorem reference_of_escapeHtmlChar {c : CodePoint} (hc : escapeHtmlChar c = [c]) (s : PyStr) :
    reference (c :: s) = none := by
  refine reference_eq_none (fun hval => ?_) s
  rw [escapeHtmlChar, if_pos hval] at hc
  have hlength : (5 : Nat) = 1 := congrArg List.length hc
  omega

theorem length_escapeHtmlChar_pos (c : CodePoint) : 0 < (escapeHtmlChar c).length := by
  unfold escapeHtmlChar
  repeat' split
  all_goals exact Nat.succ_pos _

theorem unescapeFor_htmlEscape (s : PyStr) :
    ∀ n, (htmlEscape s).length ≤ n → unescapeFor n (htmlEscape s) = s := by
  induction s with
  | nil =>
      intro n _
      cases n <;> rfl
  | cons c s ih =>
      intro n hn
      have hcons : htmlEscape (c :: s) = escapeHtmlChar c ++ htmlEscape s := rfl
      have hpos := length_escapeHtmlChar_pos c
      rw [hcons, List.length_append] at hn
      rw [hcons]
      obtain ⟨n, rfl⟩ : ∃ m, n = m + 1 := ⟨n - 1, by omega⟩
      -- the fuel is at least the length, so either way there is enough of it for the rest
      by_cases hc : escapeHtmlChar c = [c]
      · rw [hc, List.singleton_append, unescapeFor, reference_of_escapeHtmlChar hc]
        exact congrArg (c :: ·) (ih n (by omega))
      · obtain ⟨d, t, hdt⟩ := List.exists_cons_of_length_pos hpos
        have href := reference_escapeHtmlChar (htmlEscape s) hc
        rw [hdt, List.cons_append] at href ⊢
        rw [unescapeFor, href]
        exact congrArg (c :: ·) (ih n (by omega))

/-- **What was escaped is read back.** -/
theorem htmlUnescape_htmlEscape (s : PyStr) : htmlUnescape (htmlEscape s) = s :=
  unescapeFor_htmlEscape s _ (Nat.le_refl _)

/-! ## Tags -/

/-- A tag: its quoted values, each with the label in front of it, and what follows the last one. -/
structure Tag where
  fields : List (PyStr × PyStr)
  rest : PyStr
deriving DecidableEq, Repr

namespace Tag

/-- The markup of the tag, its values left out. -/
def labels (tag : Tag) : List PyStr × PyStr := (tag.fields.map Prod.fst, tag.rest)

/-- The text up to the first blank. -/
def name (tag : Tag) : PyStr :=
  ((tag.fields.map Prod.fst).headD tag.rest).takeWhile (fun c => decide (c.val ≠ 0x20))

/-- The value of an attribute. -/
def value (tag : Tag) (key : PyStr) : Option PyStr :=
  (tag.fields.find? (fun f => (py " " ++ key ++ py "=").isSuffixOf f.1)).map
    (fun f => htmlUnescape f.2)

theorem name_eq_of_labels {tag tag' : Tag} (h : tag.labels = tag'.labels) :
    tag.name = tag'.name := by
  obtain ⟨hfields, hrest⟩ := Prod.mk.inj h
  unfold name
  rw [hfields, hrest]

end Tag

/-! ## The reader -/

/-- The reader at a place of a text; in a tag, with what it has read of it. -/
structure TagReader where
  place : Place
  fields : List (PyStr × PyStr)
  label : PyStr
  value : PyStr
deriving DecidableEq, Repr

namespace TagReader

/-- The reader outside of tags. -/
def outside : TagReader := ⟨.text, [], [], []⟩

/-- The reader after a value. -/
def closeValue (r : TagReader) : TagReader := ⟨.tag, r.fields ++ [(r.label, r.value)], [], []⟩

/-- The reader after a character. -/
def next (r : TagReader) (c : CodePoint) : TagReader :=
  match r.place with
  | .text => if c.val = 0x3C then ⟨.tag, [], [], []⟩ else r
  | .tag =>
      if c.val = 0x3E then outside
      else if c.val = 0x22 then { r with place := .quoted }
      else if c.val = 0x27 then { r with place := .apostrophed }
      else { r with label := r.label ++ [c] }
  | .quoted => if c.val = 0x22 then r.closeValue else { r with value := r.value ++ [c] }
  | .apostrophed => if c.val = 0x27 then r.closeValue else { r with value := r.value ++ [c] }

/-- The tag that a character ends. -/
def ends (r : TagReader) (c : CodePoint) : Option Tag :=
  if r.place = .tag ∧ c.val = 0x3E then some ⟨r.fields, r.label⟩ else none

/-- The reader after a text. -/
def after (r : TagReader) (s : PyStr) : TagReader := s.foldl next r

/-- The tags of a text. -/
def tags (r : TagReader) : PyStr → List Tag
  | [] => []
  | c :: s => (r.ends c).toList ++ (r.next c).tags s

theorem after_append (r : TagReader) (s t : PyStr) : r.after (s ++ t) = (r.after s).after t :=
  List.foldl_append

theorem tags_append (s t : PyStr) : ∀ r : TagReader,
    r.tags (s ++ t) = r.tags s ++ (r.after s).tags t := by
  induction s with
  | nil => exact fun _ => rfl
  | cons c s ih =>
      intro r
      rw [List.cons_append, tags, tags, ih, List.append_assoc]
      rfl

/-- From `r`, the text has these tags and leads to `r'`. -/
structure Reads (r : TagReader) (s : PyStr) (found : List Tag) (r' : TagReader) : Prop where
  after : r.after s = r'
  tags : r.tags s = found

theorem Reads.append {r r' r'' : TagReader} {s t : PyStr} {found found' : List Tag}
    (hs : Reads r s found r') (ht : Reads r' t found' r'') :
    Reads r (s ++ t) (found ++ found') r'' where
  after := by rw [after_append, hs.after, ht.after]
  tags := by rw [tags_append, hs.after, hs.tags, ht.tags]

theorem place_next (r : TagReader) (c : CodePoint) : (r.next c).place = r.place.next c := by
  obtain ⟨place, fields, label, value⟩ := r
  cases place with
  | text =>
      simp only [next, Place.next]
      split <;> rfl
  | tag =>
      simp only [next, Place.next]
      repeat' split
      all_goals rfl
  | quoted =>
      simp only [next, Place.next]
      split <;> rfl
  | apostrophed =>
      simp only [next, Place.next]
      split <;> rfl

theorem place_after (s : PyStr) : ∀ r : TagReader, (r.after s).place = r.place.after s := by
  induction s with
  | nil => exact fun _ => rfl
  | cons c s ih =>
      intro r
      show ((r.next c).after s).place = (r.place.next c).after s
      rw [ih, place_next]

/-- A reader that is outside of tags holds nothing of one. -/
theorem after_eq_outside (s : PyStr) : ∀ {r : TagReader}, (r.place = .text → r = outside) →
    (r.after s).place = .text → r.after s = outside := by
  induction s with
  | nil => exact fun hr hplace => hr hplace
  | cons c s ih =>
      intro r hr
      refine ih (r := r.next c) ?_
      obtain ⟨place, fields, label, value⟩ := r
      intro hplace
      cases place with
      | text =>
          rw [hr rfl] at hplace ⊢
          simp only [next, outside] at hplace ⊢
          split at hplace
          · cases hplace
          · next hne => rw [if_neg hne]
      | tag =>
          simp only [next] at hplace ⊢
          split at hplace
          · next heq => rw [if_pos heq]
          · split at hplace
            · cases hplace
            · split at hplace <;> cases hplace
      | quoted =>
          simp only [next] at hplace
          split at hplace <;> cases hplace
      | apostrophed =>
          simp only [next] at hplace
          split at hplace <;> cases hplace

/-- A character that ends no tag. -/
theorem Reads.cons {r r' : TagReader} {c : CodePoint} {s : PyStr} {found : List Tag}
    (hends : r.ends c = none) (h : Reads (r.next c) s found r') : Reads r (c :: s) found r' where
  after := h.after
  tags := by
    rw [TagReader.tags, hends, h.tags]
    rfl

/-- The characters of a text without delimiters are none. -/
theorem inert_cons {c : CodePoint} {s : PyStr} : Inert (c :: s) ↔
    (c.val ≠ 0x3C ∧ c.val ≠ 0x3E ∧ c.val ≠ 0x22 ∧ c.val ≠ 0x27) ∧ Inert s := by
  simp only [Inert, List.all_cons, Bool.and_eq_true, isInert, decide_eq_true_eq]

/-- Outside of tags, a text without delimiters is skipped. -/
theorem text_inert {s : PyStr} (hs : Inert s) {r : TagReader} (hr : r.place = .text) :
    Reads r s [] r := by
  induction s with
  | nil => exact ⟨rfl, rfl⟩
  | cons c s ih =>
      obtain ⟨hc, hs⟩ := inert_cons.1 hs
      have hnext : r.next c = r := by
        unfold next
        rw [hr]
        exact if_neg hc.1
      have hends : r.ends c = none := if_neg (fun h => hc.2.1 h.2)
      refine .cons hends ?_
      rw [hnext]
      exact ih hs

/-- In a value, a text without delimiters is a part of the value. -/
theorem value_inert {s : PyStr} (hs : Inert s) : ∀ {r : TagReader},
    r.place = .quoted ∨ r.place = .apostrophed → Reads r s [] { r with value := r.value ++ s } := by
  induction s with
  | nil => exact fun _ => ⟨by rw [List.append_nil]; rfl, rfl⟩
  | cons c s ih =>
      intro r hr
      obtain ⟨hc, hs⟩ := inert_cons.1 hs
      have hnext : r.next c = { r with value := r.value ++ [c] } := by
        unfold next
        rcases hr with hr | hr <;> rw [hr] <;> simp [hc]
      have hends : r.ends c = none := if_neg (fun h => hc.2.1 h.2)
      have htail := ih hs (r := { r with value := r.value ++ [c] }) hr
      refine .cons hends ?_
      rw [hnext]
      simpa using htail

/-- In a tag, a text without delimiters is a part of the label. -/
theorem label_inert {s : PyStr} (hs : Inert s) : ∀ {r : TagReader}, r.place = .tag →
    Reads r s [] { r with label := r.label ++ s } := by
  induction s with
  | nil => exact fun _ => ⟨by rw [List.append_nil]; rfl, rfl⟩
  | cons c s ih =>
      intro r hr
      obtain ⟨hc, hs⟩ := inert_cons.1 hs
      have hnext : r.next c = { r with label := r.label ++ [c] } := by
        unfold next
        rw [hr]
        simp [hc]
      have hends : r.ends c = none := if_neg (fun h => hc.2.1 h.2)
      have htail := ih hs (r := { r with label := r.label ++ [c] }) hr
      refine .cons hends ?_
      rw [hnext]
      simpa using htail

/-- From the end of one value to the start of the next. -/
theorem reads_between {fields : List (PyStr × PyStr)} {label value s : PyStr} (hs : Inert s) :
    Reads ⟨.quoted, fields, label, value⟩ (py "\"" ++ s ++ py "\"") []
      ⟨.quoted, fields ++ [(label, value)], s, []⟩ := by
  have hclose : Reads ⟨.quoted, fields, label, value⟩ (py "\"") []
    ⟨.tag, fields ++ [(label, value)], [], []⟩ := ⟨rfl, rfl⟩
  have hopen : Reads ⟨.tag, fields ++ [(label, value)], s, []⟩ (py "\"") []
    ⟨.quoted, fields ++ [(label, value)], s, []⟩ := ⟨rfl, rfl⟩
  exact (hclose.append (label_inert hs rfl)).append hopen

/-- From the end of the last value to the end of the tag. -/
theorem reads_closing (fields : List (PyStr × PyStr)) (label value : PyStr) :
    Reads ⟨.quoted, fields, label, value⟩ (py "\">") [⟨fields ++ [(label, value)], []⟩] outside :=
  ⟨rfl, rfl⟩

/-! ## Labels -/

/-- The readers differ in values only. -/
structure Alike (r r' : TagReader) : Prop where
  place : r.place = r'.place
  fields : r.fields.map Prod.fst = r'.fields.map Prod.fst
  label : r.label = r'.label

theorem Alike.refl (r : TagReader) : r.Alike r := ⟨rfl, rfl, rfl⟩

theorem Alike.next {r r' : TagReader} (h : r.Alike r') (c : CodePoint) :
    (r.next c).Alike (r'.next c) := by
  obtain ⟨hplace, hfields, hlabel⟩ := h
  unfold TagReader.next
  rw [← hplace]
  cases hp : r.place with
  | text =>
      simp only []
      split
      · exact .refl _
      · exact ⟨hplace, hfields, hlabel⟩
  | tag =>
      simp only []
      split
      · exact .refl _
      split
      · exact ⟨rfl, hfields, hlabel⟩
      split
      · exact ⟨rfl, hfields, hlabel⟩
      · exact ⟨rfl, hfields, by rw [hlabel]⟩
  | quoted =>
      simp only []
      split
      · exact ⟨rfl, by simp [closeValue, hfields, hlabel], rfl⟩
      · exact ⟨rfl, hfields, hlabel⟩
  | apostrophed =>
      simp only []
      split
      · exact ⟨rfl, by simp [closeValue, hfields, hlabel], rfl⟩
      · exact ⟨rfl, hfields, hlabel⟩

theorem Alike.ends {r r' : TagReader} (h : r.Alike r') (c : CodePoint) :
    (r.ends c).toList.map Tag.labels = (r'.ends c).toList.map Tag.labels := by
  unfold TagReader.ends
  rw [h.place]
  split
  · simp [Tag.labels, h.fields, h.label]
  · rfl

theorem Alike.read (s : PyStr) : ∀ {r r' : TagReader}, r.Alike r' →
    (r.after s).Alike (r'.after s) ∧ (r.tags s).map Tag.labels = (r'.tags s).map Tag.labels := by
  induction s with
  | nil => exact fun h => ⟨h, rfl⟩
  | cons c s ih =>
      intro r r' h
      obtain ⟨hafter, htags⟩ := ih (h.next c)
      refine ⟨hafter, ?_⟩
      rw [tags, tags, List.map_append, List.map_append, h.ends c, htags]

/-- A value or a text between tags changes no label. -/
theorem Alike.inert {r r' : TagReader} (h : r.Alike r') {s : PyStr} (hs : Inert s)
    (hr : r.place ≠ .tag) : (r.after s).Alike r' ∧ r.tags s = [] ∧ (r.after s).place = r.place := by
  by_cases htext : r.place = .text
  · obtain ⟨hafter, htags⟩ := text_inert hs htext
    rw [hafter]
    exact ⟨h, htags, rfl⟩
  · have hvalue : r.place = .quoted ∨ r.place = .apostrophed := by
      cases hplace : r.place <;> simp_all
    obtain ⟨hafter, htags⟩ := value_inert hs hvalue
    rw [hafter]
    exact ⟨⟨h.place, h.fields, h.label⟩, htags, rfl⟩

end TagReader

/-- The text of a piece of markup. -/
def Piece.markupOnly : Piece → PyStr
  | markup text => text
  | computed _ => []
  | hole _ => []

/-- The markup of the pieces. -/
def markupText (html : Html) : PyStr := html.flatMap Piece.markupOnly

@[simp] theorem markupText_append (h h' : Html) :
    markupText (h ++ h') = markupText h ++ markupText h' :=
  List.flatMap_append

/-- **Labels are those of the markup.** -/
theorem labels_htmlText {h : Html} (hplain : Plain h) : ∀ {r r' : TagReader} {q : Place},
    r.Alike r' → guarded r.place h = some q →
      (r.tags (htmlText h)).map Tag.labels = (r'.tags (markupText h)).map Tag.labels ∧
      (r.after (htmlText h)).Alike (r'.after (markupText h)) ∧
      (r.after (htmlText h)).place = q := by
  induction h with
  | nil =>
      intro r r' q halike hq
      exact ⟨rfl, halike, Option.some.inj hq⟩
  | cons piece h ih =>
      intro r r' q halike hq
      have hrest := @ih (fun s hs => hplain s (List.mem_cons_of_mem _ hs))
      have hcons : htmlText (piece :: h) = piece.text ++ htmlText h := rfl
      have hmarkup : markupText (piece :: h) = piece.markupOnly ++ markupText h := rfl
      -- a piece that is no markup stands in a value or between tags
      have hinert : Inert piece.text → piece.markupOnly = [] → r.place ≠ .tag →
          guarded r.place h = some q →
          (r.tags (htmlText (piece :: h))).map Tag.labels
            = (r'.tags (markupText (piece :: h))).map Tag.labels ∧
          (r.after (htmlText (piece :: h))).Alike (r'.after (markupText (piece :: h))) ∧
          (r.after (htmlText (piece :: h))).place = q := by
        intro hs hnone hplace hq
        obtain ⟨halike', htags, hplace'⟩ := halike.inert hs hplace
        rw [hcons, hmarkup, hnone, List.nil_append, TagReader.tags_append, TagReader.after_append,
          htags, List.nil_append]
        exact hrest halike' (by rw [hplace', hq])
      cases piece with
      | markup text =>
          obtain ⟨hafter, htags⟩ := halike.read text
          obtain ⟨hlabels, halike', hplace⟩ := hrest hafter
            (by rw [TagReader.place_after]; exact hq)
          rw [hcons, hmarkup]
          simp only [Piece.text, Piece.markupOnly, TagReader.tags_append, TagReader.after_append,
            List.map_append, htags, hlabels]
          exact ⟨trivial, halike', hplace⟩
      | computed text =>
          simp only [guarded] at hq
          split at hq
          · cases hq
          · next hp => exact hinert (hplain text List.mem_cons_self) rfl hp hq
      | hole value =>
          simp only [guarded] at hq
          split at hq
          · cases hq
          · next hp => exact hinert (inert_htmlEscape value) rfl hp hq

end Markup
