import RexHunter.Proofs.Readers

set_option autoImplicit false

/-! # Frames that look plain

A frame is read alike by both readers as soon as it looks plain: its lines end with `\n` or `\r` only,
its blanks are the ASCII ones, no line is blank, no `data:` is empty, and nothing in it is taken for
the sign of another encoding. Then the lines of its bytes are the bytes of its lines, and so is the
data that either reader takes from them. -/

namespace RexHunter

/-! ## The lines of the bytes -/

theorem byteLines_end {k : UInt8} (hk : k = 0x0A ∨ k = 0x0D) {v : PyBytes}
    (hv : k = 0x0D → ∀ b ∈ v.head?, b ≠ 0x0A) (line : PyBytes) :
    byteLines line (k :: v) = line :: byteLines [] v := by
  cases v with
  | nil => simp [byteLines, hk]
  | cons b v =>
      conv_lhs => unfold byteLines
      by_cases hlf : k = 0x0A
      · rw [if_pos hlf]
      · have hcr := hk.resolve_left hlf
        rw [if_neg hlf, if_pos hcr, if_neg (hv hcr b rfl)]

theorem byteLines_crlf (line v : PyBytes) :
    byteLines line (0x0D :: 0x0A :: v) = line :: byteLines [] v := by
  conv_lhs => unfold byteLines
  rfl

theorem byteLines_push {bs : PyBytes} (h : ∀ b ∈ bs, b ≠ 0x0A ∧ b ≠ 0x0D) (v : PyBytes) :
    ∀ line, byteLines line (bs ++ v) = byteLines (line ++ bs) v := by
  induction bs with
  | nil => simp
  | cons b bs ih =>
      intro line
      obtain ⟨⟨hlf, hcr⟩, hbs⟩ := List.forall_mem_cons.1 h
      have hone : ∀ w, byteLines line (b :: w) = byteLines (line ++ [b]) w := by
        intro w
        cases w with
        | nil => simp [byteLines, hlf, hcr]
        | cons b' w => rw [byteLines, if_neg hlf, if_neg hcr]
      rw [List.cons_append, hone, ih hbs, List.append_assoc]
      rfl

/-- The text ends its lines as bytes do. -/
def EndsPlainly (t : PyStr) : Prop :=
  ∀ c ∈ t, isLineEnd c = true → c.val = 0x0A ∨ c.val = 0x0D

theorem utf8_of_end {c : CodePoint} (h : c.val = 0x0A ∨ c.val = 0x0D) :
    c.utf8 = [UInt8.ofNat c.val] := Utf8.utf8_ascii (by omega)

theorem not_end_byte {c : CodePoint} (h : isLineEnd c = false) {b : UInt8} (hb : b ∈ c.utf8) :
    b ≠ 0x0A ∧ b ≠ 0x0D := by
  simp only [isLineEnd, decide_eq_false_iff_not, not_or] at h
  constructor
  · rintro rfl
    have hval := Utf8.val_of_ascii hb (by decide)
    have hbyte : (0x0A : UInt8).toNat = 0x0A := by decide
    omega
  · rintro rfl
    have hval := Utf8.val_of_ascii hb (by decide)
    have hbyte : (0x0D : UInt8).toNat = 0x0D := by decide
    omega

theorem head_not_lf {v : PyStr} (h : ∀ c ∈ v.head?, c.val ≠ 0x0A) :
    ∀ b ∈ (v.flatMap CodePoint.utf8).head?, b ≠ 0x0A := by
  cases v with
  | nil => exact fun b hb => by cases hb
  | cons c v =>
      rintro b hb rfl
      rw [List.flatMap_cons, List.head?_append_of_ne_nil _ Utf8.utf8_ne_nil] at hb
      exact h c rfl (Utf8.val_of_ascii (List.mem_of_mem_head? hb) (by decide)).symm

/-- The end of a line in the text is one in the bytes. -/
theorem byteLines_utf8_end {k : CodePoint} (hk : k.val = 0x0A ∨ k.val = 0x0D) {v : PyStr}
    (hv : k.val = 0x0D → ∀ c ∈ v.head?, c.val ≠ 0x0A) (line : PyBytes) :
    byteLines line ((k :: v).flatMap CodePoint.utf8)
      = line :: byteLines [] (v.flatMap CodePoint.utf8) := by
  have hbyte : UInt8.ofNat k.val = 0x0A ∨ UInt8.ofNat k.val = 0x0D := by
    rcases hk with hk | hk <;> rw [hk] <;> decide
  have hcr : UInt8.ofNat k.val = 0x0D → k.val = 0x0D := by
    rcases hk with hk | hk <;> rw [hk] <;> decide
  rw [List.flatMap_cons, utf8_of_end hk]
  exact byteLines_end hbyte (fun h => head_not_lf (hv (hcr h))) line

/-- **The lines of the bytes are the bytes of the lines.** -/
theorem byteLines_utf8 (line t : PyStr) (h : EndsPlainly t) :
    byteLines (line.flatMap CodePoint.utf8) (t.flatMap CodePoint.utf8)
      = (strLines line t).map (List.flatMap CodePoint.utf8) := by
  have hpush : ∀ {c : CodePoint}, isLineEnd c = false → ∀ line v : PyStr,
      byteLines (line.flatMap CodePoint.utf8) ((c :: v).flatMap CodePoint.utf8)
        = byteLines ((line ++ [c]).flatMap CodePoint.utf8) (v.flatMap CodePoint.utf8) := by
    intro c hc line v
    rw [List.flatMap_cons, byteLines_push (fun b => not_end_byte hc), List.flatMap_append,
      List.flatMap_singleton]
  -- nothing follows the last character, so no `\n` does
  have hlast : ∀ c : CodePoint, c.val = 0x0D → ∀ c' ∈ ([] : PyStr).head?, c'.val ≠ 0x0A :=
    fun _ _ _ hc' => by cases hc'
  induction line, t using strLines.induct with
  | case1 => rfl
  | case2 line hne =>
      have hbytes : line.flatMap CodePoint.utf8 ≠ [] := by
        obtain ⟨c, line, rfl⟩ := List.exists_cons_of_ne_nil hne
        simp [Utf8.utf8_ne_nil]
      simp [strLines, byteLines, hne, hbytes]
  | case3 line c hc =>
      rw [byteLines_utf8_end (h c List.mem_cons_self hc) (hlast c), strLines_end hc (hlast c)]
      rfl
  | case4 line c hc =>
      have hc : isLineEnd c = false := by simpa using hc
      have hbytes : (line ++ [c]).flatMap CodePoint.utf8 ≠ [] := by simp [Utf8.utf8_ne_nil]
      rw [hpush hc, strLines_push hc]
      simp only [List.flatMap_nil, byteLines, if_neg hbytes, strLines]
      simp
  | case5 line a b rest ha hcrlf ih =>
      rw [strLines_crlf hcrlf.1 hcrlf.2, List.flatMap_cons, List.flatMap_cons,
        utf8_of_end (Or.inr hcrlf.1), utf8_of_end (Or.inl hcrlf.2), hcrlf.1, hcrlf.2]
      refine (byteLines_crlf _ _).trans ?_
      rw [List.map_cons, ← ih (fun c hc => h c (by simp [hc]))]
      rfl
  | case6 line a b rest ha hcrlf ih =>
      have hother : a.val = 0x0D → ∀ c ∈ (b :: rest).head?, c.val ≠ 0x0A := by
        intro hcr c hc
        cases hc
        exact fun hlf => hcrlf ⟨hcr, hlf⟩
      rw [byteLines_utf8_end (h a List.mem_cons_self ha) hother, strLines_end ha hother, List.map_cons,
        ← ih (fun c hc => h c (List.mem_cons_of_mem _ hc))]
      rfl
  | case7 line a b rest ha ih =>
      have ha : isLineEnd a = false := by simpa using ha
      rw [hpush ha, strLines_push ha, ih (fun c hc => h c (List.mem_cons_of_mem _ hc))]

/-! ## The data of a line -/

/-- What is dropped from the front of a list is dropped from the front of its images. -/
theorem dropWhile_flatMap {α β : Type} {p : α → Bool} {q : β → Bool} {g : α → List β} {l : List α}
    (h : ∀ a ∈ l, g a ≠ [] ∧ ∀ b ∈ g a, q b = p a) :
    (l.flatMap g).dropWhile q = (l.dropWhile p).flatMap g := by
  induction l with
  | nil => rfl
  | cons a l ih =>
      obtain ⟨⟨hne, hsame⟩, hrest⟩ := List.forall_mem_cons.1 h
      rw [List.flatMap_cons]
      cases hp : p a with
      | true =>
          rw [List.dropWhile_cons_of_pos hp, ← ih hrest,
            List.dropWhile_append_of_pos (fun b hb => (hsame b hb).trans hp)]
      | false =>
          obtain ⟨b, bs, hg⟩ := List.exists_cons_of_ne_nil hne
          have hb : q b = false := (hsame b (by simp [hg])).trans hp
          rw [List.dropWhile_cons_of_neg (by simp [hp]), List.flatMap_cons, hg, List.cons_append,
            List.dropWhile_cons_of_neg (by simp [hb])]

/-- The blanks are those of `bytes.strip`. -/
def BlanksPlainly (isSpace : CodePoint → Bool) (t : PyStr) : Prop :=
  ∀ c ∈ t, isSpace c = decide (c.val = 0x20 ∨ (0x09 ≤ c.val ∧ c.val ≤ 0x0D))

theorem isByteSpace_utf8 {c : CodePoint} {b : UInt8} (hb : b ∈ c.utf8) :
    isByteSpace b = decide (c.val = 0x20 ∨ (0x09 ≤ c.val ∧ c.val ≤ 0x0D)) := by
  have hspace : isByteSpace b
      = decide (b.toNat = 0x20 ∨ (0x09 ≤ b.toNat ∧ b.toNat ≤ 0x0D)) := by
    unfold isByteSpace
    refine decide_eq_decide.2 (or_congr ?_ Iff.rfl)
    exact ⟨fun h => by rw [h]; rfl, fun h => UInt8.toNat_inj.1 h⟩
  rw [hspace, decide_eq_decide]
  by_cases hascii : b.toNat < 0x80
  · rw [Utf8.val_of_ascii hb hascii]
  · have hhigh : ¬ c.val < 0x80 := by
      intro h
      rw [Utf8.utf8_ascii h, List.mem_singleton] at hb
      rw [hb, Utf8.toNat_ofNat (by omega)] at hascii
      exact hascii h
    omega

/-- **Stripping the bytes strips the text.** -/
theorem stripBytes_utf8 {isSpace : CodePoint → Bool} {t : PyStr} (h : BlanksPlainly isSpace t) :
    stripBytes (t.flatMap CodePoint.utf8) = (strip isSpace t).flatMap CodePoint.utf8 := by
  have hsame : ∀ c ∈ t, c.utf8 ≠ [] ∧ ∀ b ∈ c.utf8, isByteSpace b = isSpace c :=
    fun c hc => ⟨Utf8.utf8_ne_nil, fun b hb => (isByteSpace_utf8 hb).trans (h c hc).symm⟩
  have hback : ∀ c ∈ (t.dropWhile isSpace).reverse, (List.reverse ∘ CodePoint.utf8) c ≠ [] ∧
      ∀ b ∈ (List.reverse ∘ CodePoint.utf8) c, isByteSpace b = isSpace c := by
    intro c hc
    have hmem : c ∈ t := List.dropWhile_subset _ (List.mem_reverse.1 hc)
    exact ⟨by simpa using (hsame c hmem).1, fun b hb => (hsame c hmem).2 b (List.mem_reverse.1 hb)⟩
  unfold stripBytes strip
  rw [dropWhile_flatMap hsame, List.reverse_flatMap, dropWhile_flatMap hback, List.reverse_flatMap]
  simp [Function.comp_def]

theorem afterPrefix_eq_some {p t rest : PyStr} (h : afterPrefix p t = some rest) :
    t = p ++ rest := by
  induction p generalizing t with
  | nil => exact Option.some.inj h
  | cons c p ih =>
      cases t with
      | nil => cases h
      | cons c' t =>
          unfold afterPrefix at h
          split at h
          · next hc => rw [hc, ih h, List.cons_append]
          · cases h

section Frames

variable [PyRuntime]

/-- What the line gives to the data of its frame. -/
def lineData (line : PyStr) : Option PyStr :=
  (afterPrefix (py "data:") line).map (strip PyRuntime.isSpace)

theorem dataOfLine_utf8 {line : PyStr} (h : BlanksPlainly PyRuntime.isSpace line) :
    dataOfLine (line.flatMap CodePoint.utf8)
      = ((lineData line).getD []).flatMap CodePoint.utf8 := by
  have hdrop : ∀ rest : PyBytes, (dataBytes ++ rest).dropPrefix? dataBytes = some rest :=
    fun rest => by simp [dataBytes, List.dropPrefix?]
  cases hprefix : afterPrefix (py "data:") line with
  | some rest =>
      obtain rfl := afterPrefix_eq_some hprefix
      have hbytes : (py "data:" ++ rest).flatMap CodePoint.utf8
          = dataBytes ++ rest.flatMap CodePoint.utf8 := by
        rw [List.flatMap_append]
        exact congrArg (· ++ _) dataPrefix_bytes
      rw [lineData, hprefix, hbytes, dataOfLine, hdrop]
      exact stripBytes_utf8 (fun c hc => h c (List.mem_append_right _ hc))
  | none =>
      rw [lineData, hprefix]
      unfold dataOfLine
      cases hbytes : (line.flatMap CodePoint.utf8).dropPrefix? dataBytes with
      | none => rfl
      | some rest =>
          obtain ⟨start, hstart, heq⟩ := List.dropPrefix?_eq_some_iff.1 hbytes
          obtain ⟨s, rfl, -⟩ := Utf8.split_after_ascii (p := dataPrefix) (by decide)
            (hstart.trans (by rw [dataPrefix_bytes, eq_of_beq heq]))
          rw [dataPrefix, afterPrefix_append] at hprefix
          cases hprefix

/-! ## The frame -/

/-- Lines of which none is blank are at most one frame. -/
theorem frames_unclosed {lines : List PyStr}
    (h : ∀ line ∈ lines, strip PyRuntime.isSpace line ≠ []) : ∀ dataBuf : List PyStr,
    frames true dataBuf lines = if dataBuf ++ lines.filterMap lineData = [] then []
      else [⟨dataBuf ++ lines.filterMap lineData, false⟩] := by
  induction lines with
  | nil =>
      intro dataBuf
      cases dataBuf <;> simp [frames]
  | cons line lines ih =>
      intro dataBuf
      obtain ⟨hline, hlines⟩ := List.forall_mem_cons.1 h
      cases hprefix : afterPrefix (py "data:") line with
      | some rest =>
          rw [frames_data _ hprefix, ih hlines]
          simp [lineData, hprefix]
      | none =>
          rw [frames_other _ hprefix hline, ih hlines]
          simp [lineData, hprefix]

/-- The character is the same to both readers: as the end of a line, as a blank, and as no sign of an
    encoding. -/
def plainChar (c : CodePoint) : Bool :=
  decide ((isLineEnd c = true → c.val = 0x0A ∨ c.val = 0x0D) ∧
    PyRuntime.isSpace c = decide (c.val = 0x20 ∨ (0x09 ≤ c.val ∧ c.val ≤ 0x0D)) ∧
    c.val ≠ 0 ∧ c.val ≠ 0xFEFF)

/-- The frame looks plain. -/
structure PlainFrame (frame : PyStr) : Prop where
  chars : frame.all plainChar = true
  lines : ∀ line ∈ strLines [] frame, strip PyRuntime.isSpace line ≠ [] ∧ lineData line ≠ some []

theorem PlainFrame.ends {frame : PyStr} (h : PlainFrame frame) : EndsPlainly frame :=
  fun c hc => (of_decide_eq_true (List.all_eq_true.1 h.chars c hc)).1

theorem PlainFrame.blanks {frame : PyStr} (h : PlainFrame frame) :
    BlanksPlainly PyRuntime.isSpace frame :=
  fun c hc => (of_decide_eq_true (List.all_eq_true.1 h.chars c hc)).2.1

theorem PlainFrame.marks {frame : PyStr} (h : PlainFrame frame) :
    ∀ c ∈ frame, c.val ≠ 0 ∧ c.val ≠ 0xFEFF :=
  fun c hc => (of_decide_eq_true (List.all_eq_true.1 h.chars c hc)).2.2

omit [PyRuntime] in
theorem mem_strLines {c : CodePoint} {line t l : PyStr} (hl : l ∈ strLines line t) (hc : c ∈ l) :
    c ∈ line ++ t := by
  induction line, t using strLines.induct with
  | case1 => simp [strLines] at hl
  | case2 line hne =>
      rw [strLines, if_neg hne, List.mem_singleton] at hl
      simpa [hl] using hc
  | case3 line c' hend =>
      rw [strLines, if_pos hend, List.mem_singleton] at hl
      simpa [hl] using Or.inl hc
  | case4 line c' hend =>
      rw [strLines, if_neg hend, List.mem_singleton] at hl
      simpa [hl] using hc
  | case5 line a b rest ha hcrlf ih =>
      rw [strLines_crlf hcrlf.1 hcrlf.2] at hl
      rcases List.mem_cons.1 hl with rfl | hl
      · exact List.mem_append_left _ hc
      · exact List.mem_append_right _ (List.mem_cons_of_mem _ (List.mem_cons_of_mem _ (ih hl)))
  | case6 line a b rest ha hcrlf ih =>
      rw [strLines, if_pos ha, if_neg hcrlf] at hl
      rcases List.mem_cons.1 hl with rfl | hl
      · exact List.mem_append_left _ hc
      · exact List.mem_append_right _ (List.mem_cons_of_mem _ (ih hl))
  | case7 line a b rest ha ih =>
      rw [strLines, if_neg ha] at hl
      simpa [or_assoc] using ih hl

variable {frame : PyStr}

/-- What `iter_sse_events` takes from the frame. -/
theorem PlainFrame.frameData (h : PlainFrame frame) :
    frameData (frame.flatMap CodePoint.utf8)
      = ((strLines [] frame).filterMap lineData).flatten.flatMap CodePoint.utf8 := by
  have hlines : ∀ line ∈ strLines [] frame, dataOfLine (line.flatMap CodePoint.utf8)
      = ((lineData line).getD []).flatMap CodePoint.utf8 := by
    intro line hline
    exact dataOfLine_utf8 (fun c hc => h.blanks c (mem_strLines hline hc))
  have hbytes := byteLines_utf8 [] frame h.ends
  rw [List.flatMap_nil] at hbytes
  unfold RexHunter.frameData
  rw [hbytes]
  generalize strLines [] frame = lines at hlines
  induction lines with
  | nil => rfl
  | cons line lines ih =>
      obtain ⟨hline, hrest⟩ := List.forall_mem_cons.1 hlines
      rw [List.map_cons, List.flatMap_cons, hline, ih hrest]
      cases hdata : lineData line with
      | none => simp [hdata]
      | some text => simp [hdata]

/-- What `_drive_stream` takes from the frame. -/
theorem PlainFrame.jsonTexts (h : PlainFrame frame) :
    jsonTexts (lineFrames frame) = if (strLines [] frame).filterMap lineData = [] then []
      else [((strLines [] frame).filterMap lineData).flatten] := by
  unfold lineFrames
  rw [frames_unclosed (fun line hline => (h.lines line hline).1), List.nil_append]
  split
  · rfl
  · rfl

/-- No `data:` of the frame is empty. -/
theorem PlainFrame.data_ne_nil (h : PlainFrame frame)
    (hdata : (strLines [] frame).filterMap lineData ≠ []) :
    ((strLines [] frame).filterMap lineData).flatten ≠ [] := by
  obtain ⟨text, texts, htexts⟩ := List.exists_cons_of_ne_nil hdata
  have hmem : text ∈ (strLines [] frame).filterMap lineData := by
    rw [htexts]
    exact List.mem_cons_self
  obtain ⟨line, hline, htext⟩ := List.mem_filterMap.1 hmem
  rw [htexts, List.flatten_cons]
  intro hnil
  have hempty : text = [] := (List.append_eq_nil_iff.1 hnil).1
  exact (h.lines line hline).2 (htext.trans (congrArg some hempty))

/-! ## JSON of the bytes -/

/-- Bytes that `json.loads` takes for UTF-8, and for nothing before the text. -/
theorem jsonText_utf8 {s : PyStr} (hs : encodable s = true)
    (hmarks : ∀ c ∈ s, c.val ≠ 0 ∧ c.val ≠ 0xFEFF) :
    jsonText (s.flatMap CodePoint.utf8) = some s := by
  have hdecode : decode true (s.flatMap CodePoint.utf8) = some s :=
    Utf8.decode_encode (by rw [encode, if_pos hs])
  have hbytes : ∀ b ∈ s.flatMap CodePoint.utf8, b ≠ 0 ∧ b ≠ 0xFF ∧ b ≠ 0xFE := by
    intro b hb
    obtain ⟨c, hc, hb⟩ := List.mem_flatMap.1 hb
    have hlt := Utf8.utf8_lt hb
    refine ⟨?_, ?_, ?_⟩
    · rintro rfl
      exact (hmarks c hc).1 (Utf8.val_of_ascii hb (by decide)).symm
    · rintro rfl
      exact absurd hlt (by decide)
    · rintro rfl
      exact absurd hlt (by decide)
  have hutf8 : ∀ bs : PyBytes, (∀ b ∈ bs, b ≠ 0 ∧ b ≠ 0xFF ∧ b ≠ 0xFE) → isUtf8 bs = true := by
    intro bs hbs
    -- by the length, as `json.detect_encoding` goes
    rcases bs with _ | ⟨a, _ | ⟨b, _ | ⟨c, _ | ⟨d, bs⟩⟩⟩⟩
    · rfl
    · rfl
    · simp [isUtf8, hbs a, hbs b]
    · simp [isUtf8, hbs a]
    · simp [isUtf8, hbs a, hbs b]
  unfold jsonText
  rw [if_pos (hutf8 _ hbytes)]
  split
  · next rest heq =>
      -- a byte order mark is a character of the text
      have hmark : s.flatMap CodePoint.utf8
          = CodePoint.utf8 (Fin.ofNat _ 0xFEFF) ++ rest := heq
      rw [hmark, Utf8.decode_utf8_append (Or.inl rfl)] at hdecode
      obtain ⟨s', -, rfl⟩ := Option.map_eq_some_iff.1 hdecode
      exact absurd rfl (hmarks _ List.mem_cons_self).2
  · exact hdecode

theorem mem_lineData {line text : PyStr} (h : lineData line = some text) {c : CodePoint}
    (hc : c ∈ text) : c ∈ line := by
  obtain ⟨rest, hrest, rfl⟩ := Option.map_eq_some_iff.1 h
  rw [afterPrefix_eq_some hrest]
  refine List.mem_append_right _ (List.dropWhile_subset PyRuntime.isSpace ?_)
  exact List.mem_reverse.1 (List.dropWhile_subset PyRuntime.isSpace (List.mem_reverse.1 hc))

/-! ## The two readings -/

/-- **A plain frame is read alike**, if `iter_sse_events` reads it. -/
theorem readAlike_of_plain (h : PlainFrame frame) (hencode : encodable frame = true)
    {events : List Json} (hevents : FrameEvents (frame.flatMap CodePoint.utf8) events) :
    ReadAlike frame := by
  refine ⟨events, hevents, ?_⟩
  have hmem : ∀ c ∈ ((strLines [] frame).filterMap lineData).flatten, c ∈ frame := by
    intro c hc
    obtain ⟨text, htext, hc⟩ := List.mem_flatten.1 hc
    obtain ⟨line, hline, hdata⟩ := List.mem_filterMap.1 htext
    exact mem_strLines hline (mem_lineData hdata hc)
  unfold FrameEvents at hevents
  rw [h.frameData] at hevents
  rw [h.jsonTexts]
  -- without data the frame has no event, with data the same text is loaded
  by_cases hdata : (strLines [] frame).filterMap lineData = []
  · rw [if_pos hdata]
    rcases hevents with ⟨-, rfl⟩ | ⟨hne, -⟩
    · exact .nil
    · exact absurd (by rw [hdata]; rfl) hne
  · rw [if_neg hdata]
    have hbytes := h.data_ne_nil hdata
    generalize ((strLines [] frame).filterMap lineData).flatten = text at hmem hevents hbytes
    rcases hevents with ⟨hnil, -⟩ | ⟨-, event, hevent, rfl⟩
    · obtain ⟨c, text, rfl⟩ := List.exists_cons_of_ne_nil hbytes
      exact absurd (List.append_eq_nil_iff.1 hnil).1 Utf8.utf8_ne_nil
    · refine .cons ?_ .nil
      have hencodable : encodable text = true :=
        List.all_eq_true.2 (fun c hc => List.all_eq_true.1 hencode c (hmem c hc))
      unfold loadsBytes at hevent
      rw [jsonText_utf8 hencodable (fun c hc => h.marks c (hmem c hc))] at hevent
      cases hloads : Json.loads text with
      | ok v =>
          simp only [hloads] at hevent
          cases hevent
          rfl
      | error e =>
          simp only [hloads, reduceCtorEq] at hevent

/-- A frame with an `event:` line and compact JSON. -/
example : @PlainFrame .ascii (py "event: ping\ndata: \x7b\"type\":\"ping\"\x7d") :=
  @PlainFrame.mk .ascii _ (by decide +kernel) (by decide +kernel)

/-- What is read is read frame by frame. -/
theorem frameEvents_of_read {bs : List PyBytes} {events : List Json}
    (h : readFrames bs = .ok events) : ∀ frame ∈ bs, ∃ es, FrameEvents frame es := by
  obtain ⟨es, hes, -⟩ := readFrames_eq h
  clear h
  induction hes with
  | nil => exact fun frame hframe => absurd hframe List.not_mem_nil
  | cons hframe hrest ih => exact List.forall_mem_cons.2 ⟨⟨_, hframe⟩, ih⟩

variable [Pydantic]

section Lines

variable (aiterLines : List PyBytes → List PyStr)
    (hlines : ∀ chunks t, encode t = some chunks.flatten → aiterLines chunks = strLines [] t)

include hlines

/-- **A call streams plain frames as `iter_sse_events` reads them**, however they are cut into chunks:
    it relays the texts and returns the decision of the events of the body. -/
theorem plain_stream_called (answer : Except (Exn PyExc) Response) {chunks : List PyBytes}
    {t : PyStr} (ht : encode (t ++ [lf, lf]) = some chunks.flatten) {events : List Json}
    (hevents : iterSseEvents chunks.flatten = .ok events)
    (hplain : ∀ frame ∈ splitFrames [] chunks.flatten, ∃ f, encode f = some frame ∧ PlainFrame f) :
    (driveStream none .new [] (aiterLines chunks)).quiet answer
      = ((driveEvents .new events).sunk,
          ((driveEvents .new events).returned.bind parseStreamed).mapError .raised) := by
  refine driveStream_agrees aiterLines hlines answer ht hevents (fun frame hframe => ?_)
    (nothingHeldBack_of_closed t events)
  obtain ⟨f, hf, hplain⟩ := hplain frame hframe
  obtain ⟨es, hes⟩ := frameEvents_of_read hevents frame hframe
  obtain ⟨hencode, rfl⟩ := Utf8.encode_eq_some hf
  exact ⟨f, hf, readAlike_of_plain hplain hencode hes⟩

end Lines

end Frames

end RexHunter
