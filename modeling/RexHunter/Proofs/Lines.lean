import Mathlib.Data.List.Forall2
import RexHunter.Lib.Utf8
import RexHunter.Implementation.Sse

set_option autoImplicit false

/-! # Lines and frames

`str.splitlines` and `bytes.splitlines` start a line at the beginning or after the end of another one,
and `raw.split(b"\n\n")` cuts the bytes of a text where the text can be cut. -/

namespace RexHunter

/-! ## The lines of a text -/

/-- `\n`. -/
def lf : CodePoint := Fin.ofNat _ 0x0A

theorem strLines_end {k : CodePoint} (hk : isLineEnd k = true) {v : PyStr}
    (hv : k.val = 0x0D → ∀ c ∈ v.head?, c.val ≠ 0x0A) (line : PyStr) :
    strLines line (k :: v) = line :: strLines [] v := by
  cases v with
  | nil => simp [strLines, hk]
  | cons c v =>
      have hne : ¬ (k.val = 0x0D ∧ c.val = 0x0A) := fun h => hv h.1 c rfl h.2
      conv_lhs => unfold strLines
      rw [if_pos hk, if_neg hne]

theorem strLines_crlf {a b : CodePoint} (ha : a.val = 0x0D) (hb : b.val = 0x0A) (line v : PyStr) :
    strLines line (a :: b :: v) = line :: strLines [] v := by
  have hend : isLineEnd a = true := by simp [isLineEnd, ha]
  conv_lhs => unfold strLines
  rw [if_pos hend, if_pos ⟨ha, hb⟩]

theorem strLines_push {a : CodePoint} (ha : isLineEnd a = false) (line v : PyStr) :
    strLines line (a :: v) = strLines (line ++ [a]) v := by
  cases v with
  | nil => simp [strLines, ha]
  | cons c v =>
      conv_lhs => unfold strLines
      rw [if_neg (by rw [ha]; exact Bool.false_ne_true)]

/-- **After the end of a line the lines start anew**, unless it is in the middle of a `\r\n`. -/
theorem strLines_append {k : CodePoint} (hk : isLineEnd k = true) {v : PyStr}
    (hv : k.val = 0x0D → ∀ c ∈ v.head?, c.val ≠ 0x0A) (line u : PyStr) :
    strLines line (u ++ k :: v) = strLines line (u ++ [k]) ++ strLines [] v := by
  have hnone : k.val = 0x0D → ∀ c ∈ ([] : PyStr).head?, c.val ≠ 0x0A := 
    fun _ c hc => by cases hc
  have hbase : ∀ line, strLines line (k :: v) = strLines line [k] ++ strLines [] v := by
    intro line
    rw [strLines_end hk hv, strLines_end hk hnone]
    rfl
  induction line, u using strLines.induct with
  | case1 => exact hbase _
  | case2 line => exact hbase line
  | case3 line c hc =>
      by_cases hcrlf : c.val = 0x0D ∧ k.val = 0x0A
      · show strLines line (c :: k :: v) = strLines line [c, k] ++ strLines [] v
        rw [strLines_crlf hcrlf.1 hcrlf.2, strLines_crlf hcrlf.1 hcrlf.2]
        rfl
      · have hother : ∀ w : PyStr, c.val = 0x0D → ∀ c' ∈ (k :: w).head?, c'.val ≠ 0x0A := by
          intro w hcr c' hc'
          cases hc'
          exact fun hlf => hcrlf ⟨hcr, hlf⟩
        show strLines line (c :: k :: v) = strLines line [c, k] ++ strLines [] v
        rw [strLines_end hc (hother v), strLines_end hc (hother []), hbase []]
        rfl
  | case4 line c hc =>
      have hpush : isLineEnd c = false := by simpa using hc
      show strLines line (c :: k :: v) = strLines line [c, k] ++ strLines [] v
      rw [strLines_push hpush, strLines_push hpush, hbase]
  | case5 line a b rest ha hcrlf ih =>
      simp only [List.cons_append, strLines_crlf hcrlf.1 hcrlf.2, ih]
  | case6 line a b rest ha hcrlf ih =>
      have hother : ∀ w : PyStr, a.val = 0x0D → ∀ c' ∈ (b :: w).head?, c'.val ≠ 0x0A := by
        intro w hcr c' hc'
        cases hc'
        exact fun hlf => hcrlf ⟨hcr, hlf⟩
      simp only [List.cons_append] at ih ⊢
      rw [strLines_end ha (hother _), strLines_end ha (hother _), ih]
      rfl
  | case7 line a b rest ha ih =>
      have hpush : isLineEnd a = false := by simpa using ha
      simp only [List.cons_append] at ih ⊢
      rw [strLines_push hpush, strLines_push hpush, ih]

/-- A `\n` at the end ends the last line, or it is an empty line. -/
theorem strLines_snoc_lf (line u : PyStr) : strLines line (u ++ [lf]) = strLines line u ∨
    strLines line (u ++ [lf]) = strLines line u ++ [[]] := by
  have hlf : isLineEnd lf = true := by decide
  have hone : ∀ line, strLines line [lf] = [line] :=
    fun line => strLines_end hlf (fun _ c hc => by cases hc) line
  induction line, u using strLines.induct with
  | case1 => exact Or.inr (hone _)
  | case2 line hline =>
      refine Or.inl ((hone line).trans ?_)
      simp [strLines, hline]
  | case3 line c hc =>
      by_cases hcr : c.val = 0x0D
      · refine Or.inl ((strLines_crlf hcr rfl line []).trans ?_)
        simp [strLines, hc]
      · refine Or.inr ?_
        show strLines line [c, lf] = _
        rw [strLines_end hc (fun h => absurd h hcr), hone]
        simp [strLines, hc]
  | case4 line c hc =>
      have hpush : isLineEnd c = false := by simpa using hc
      refine Or.inl ((strLines_push hpush line [lf]).trans ?_)
      rw [hone]
      simp [strLines, hpush]
  | case5 line a b rest ha hcrlf ih =>
      simp only [List.cons_append, strLines_crlf hcrlf.1 hcrlf.2]
      exact ih.imp (fun h => by rw [h]) (fun h => by rw [h])
  | case6 line a b rest ha hcrlf ih =>
      have hother : ∀ w : PyStr, a.val = 0x0D → ∀ c' ∈ (b :: w).head?, c'.val ≠ 0x0A := by
        intro w hcr c' hc'
        cases hc'
        exact fun hlf => hcrlf ⟨hcr, hlf⟩
      simp only [List.cons_append] at ih ⊢
      rw [strLines_end ha (hother _), strLines_end ha (hother _)]
      exact ih.imp (fun h => by rw [h]) (fun h => by rw [h]; rfl)
  | case7 line a b rest ha ih =>
      have hpush : isLineEnd a = false := by simpa using ha
      simp only [List.cons_append] at ih ⊢
      rw [strLines_push hpush, strLines_push hpush]
      exact ih

/-! ## Frames -/

/-- The texts between empty lines. -/
def joinBlank {α : Type} (newline : α) : List (List α) → List α
  | [] => []
  | [frame] => frame
  | frame :: frames => frame ++ newline :: newline :: joinBlank newline frames

theorem splitFrames_ne_nil (frame raw : PyBytes) : splitFrames frame raw ≠ [] := by
  induction frame, raw using splitFrames.induct with
  | case1 | case2 => simp [splitFrames]
  | case3 frame a b rest hab ih =>
      rw [splitFrames, if_pos hab]
      exact List.cons_ne_nil _ _
  | case4 frame a b rest hab ih =>
      rw [splitFrames, if_neg hab]
      exact ih

theorem joinBlank_cons {α : Type} (newline : α) (frame : List α) {frames : List (List α)}
    (h : frames ≠ []) :
    joinBlank newline (frame :: frames)
      = frame ++ newline :: newline :: joinBlank newline frames := by
  cases frames with
  | nil => exact absurd rfl h
  | cons f fs => rfl

/-- The frames are the parts between empty lines. -/
theorem joinBlank_splitFrames (frame raw : PyBytes) :
    joinBlank 0x0A (splitFrames frame raw) = frame ++ raw := by
  induction frame, raw using splitFrames.induct with
  | case1 frame => exact (List.append_nil frame).symm
  | case2 frame b => rfl
  | case3 frame a b rest hab ih =>
      rw [splitFrames, if_pos hab, joinBlank_cons _ _ (splitFrames_ne_nil _ _), ih, hab.1, hab.2]
      rfl
  | case4 frame a b rest hab ih =>
      rw [splitFrames, if_neg hab, ih, List.append_assoc]
      rfl

/-- The frames of the bytes of a text are those of parts of the text. -/
theorem texts_of_frames {bs : List PyBytes} (hbs : bs ≠ []) : ∀ {t : PyStr},
    t.flatMap CodePoint.utf8 = joinBlank 0x0A bs →
      ∃ fs, fs ≠ [] ∧ fs.map (List.flatMap CodePoint.utf8) = bs ∧ t = joinBlank lf fs := by
  induction bs with
  | nil => exact absurd rfl hbs
  | cons b bs ih =>
      intro t h
      by_cases hnil : bs = []
      · subst hnil
        exact ⟨[t], List.cons_ne_nil _ _, by rw [List.map_singleton, h]; rfl, rfl⟩
      · rw [joinBlank_cons _ _ hnil] at h
        obtain ⟨f, c, t₁, rfl, hf, hc, h₁⟩ := Utf8.split_at_ascii (by decide) h
        obtain ⟨f', c', t₂, rfl, hf', hc', h₂⟩ := Utf8.split_at_ascii (by decide) (u := []) h₁
        obtain ⟨fs, hfs, rfl, rfl⟩ := ih hnil h₂
        obtain rfl : f' = [] := by
          cases f' with
          | nil => rfl
          | cons k f' => exact absurd (List.append_eq_nil_iff.1 hf').1 Utf8.utf8_ne_nil
        obtain rfl : c = lf := Fin.ext hc
        obtain rfl : c' = lf := Fin.ext hc'
        refine ⟨f :: fs, List.cons_ne_nil _ _, ?_, (joinBlank_cons _ _ hfs).symm⟩
        rw [List.map_cons, hf]

theorem mem_joinBlank {α : Type} {newline c : α} {f : List α} {fs : List (List α)} (hf : f ∈ fs)
    (hc : c ∈ f) : c ∈ joinBlank newline fs := by
  induction fs with
  | nil => cases hf
  | cons f' fs ih =>
      by_cases hnil : fs = []
      · subst hnil
        rw [List.mem_singleton.1 hf] at hc
        exact hc
      · rw [joinBlank_cons _ _ hnil]
        rcases List.mem_cons.1 hf with rfl | hf
        · exact List.mem_append_left _ hc
        · simp [ih hf]

theorem utf8_joinBlank (fs : List PyStr) : (joinBlank lf fs).flatMap CodePoint.utf8
    = joinBlank 0x0A (fs.map (List.flatMap CodePoint.utf8)) := by
  have hlf : lf.utf8 = [0x0A] := by decide
  induction fs with
  | nil => rfl
  | cons f fs ih =>
      by_cases hnil : fs = []
      · subst hnil
        rfl
      · rw [List.map_cons, joinBlank_cons _ _ hnil, joinBlank_cons _ _ (by simpa using hnil),
          List.flatMap_append, List.flatMap_cons, List.flatMap_cons, hlf, ih]
        rfl

/-- If no part of the one list is longer than that of the other, they are related part by part. -/
theorem forall₂_of_flatten {α β : Type} {R : α → β → Prop} {gs : List (List α)}
    {es : List (List β)}
    (hle : List.Forall₂ (fun g e => e.length ≤ g.length) gs es) :
    List.Forall₂ R gs.flatten es.flatten → List.Forall₂ (List.Forall₂ R) gs es := by
  have htotal : ∀ {gs : List (List α)} {es : List (List β)},
      List.Forall₂ (fun g e => e.length ≤ g.length) gs es →
        es.flatten.length ≤ gs.flatten.length := by
    intro gs es h
    induction h with
    | nil => exact le_refl _
    | cons h _ ih =>
        simp only [List.flatten_cons, List.length_append]
        omega
  induction hle with
  | nil => exact fun _ => .nil
  | @cons g e gs es hge hrest ih =>
      intro h
      rw [List.flatten_cons, List.flatten_cons] at h
      have hlength := h.length_eq
      have hlater := htotal hrest
      simp only [List.length_append] at hlength
      have heq : e.length = g.length := by omega
      have hhere := List.forall₂_take_append _ _ _ h
      have hthere := List.forall₂_drop_append _ _ _ h
      rw [heq, List.take_left] at hhere
      rw [heq, List.drop_left] at hthere
      exact .cons hhere (ih hthere)

/-- A text without the end of a line is one line. -/
theorem strLines_one {t : PyStr} (h : ∀ c ∈ t, isLineEnd c = false) (line : PyStr) :
    strLines line t = if line ++ t = [] then [] else [line ++ t] := by
  induction t generalizing line with
  | nil => rw [List.append_nil, strLines]
  | cons c t ih =>
      obtain ⟨hc, ht⟩ := List.forall_mem_cons.1 h
      rw [strLines_push hc, ih ht, List.append_assoc]
      rfl

theorem byteLines_one {raw : PyBytes} (h : ∀ b ∈ raw, b ≠ 0x0A ∧ b ≠ 0x0D) (line : PyBytes) :
    byteLines line raw = if line ++ raw = [] then [] else [line ++ raw] := by
  induction raw generalizing line with
  | nil => rw [List.append_nil, byteLines]
  | cons b raw ih =>
      obtain ⟨⟨hlf, hcr⟩, hraw⟩ := List.forall_mem_cons.1 h
      cases raw with
      | nil => simp [byteLines, hlf, hcr]
      | cons c raw =>
          rw [byteLines, if_neg hlf, if_neg hcr, ih hraw, List.append_assoc]
          rfl

theorem splitFrames_one {f : PyBytes} (h : 0x0A ∉ f) (frame rest : PyBytes) :
    splitFrames frame (f ++ 0x0A :: 0x0A :: rest) = (frame ++ f) :: splitFrames [] rest := by
  induction f generalizing frame with
  | nil => simp [splitFrames]
  | cons b f ih =>
      have hb := List.ne_of_not_mem_cons h
      have hf := List.not_mem_of_not_mem_cons h
      have hnot : ∀ c : UInt8, ¬ (b = 0x0A ∧ c = 0x0A) := fun c hbc => hb hbc.1.symm
      cases f with
      | nil =>
          rw [List.cons_append, List.nil_append, splitFrames, if_neg (hnot _)]
          exact (ih hf _).trans (by rw [List.append_nil])
      | cons c f =>
          have hlater := ih hf (frame ++ [b])
          rw [List.cons_append] at hlater
          rw [List.cons_append, List.cons_append, splitFrames, if_neg (hnot _), hlater,
            List.append_assoc]
          rfl

theorem splitFrames_last {f : PyBytes} (h : 0x0A ∉ f) (frame : PyBytes) :
    splitFrames frame f = [frame ++ f] := by
  induction f generalizing frame with
  | nil => rw [splitFrames, List.append_nil]
  | cons b f ih =>
      have hb := List.ne_of_not_mem_cons h
      have hf := List.not_mem_of_not_mem_cons h
      cases f with
      | nil => rfl
      | cons c f =>
          rw [splitFrames, if_neg (fun hbc => hb hbc.1.symm), ih hf, List.append_assoc]
          rfl

/-- **Frames without a `\n` are the frames of what they are joined to.** -/
theorem splitFrames_joinBlank {fs : List PyBytes} (hne : fs ≠ []) (h : ∀ f ∈ fs, 0x0A ∉ f) :
    splitFrames [] (joinBlank 0x0A fs) = fs := by
  induction fs with
  | nil => exact absurd rfl hne
  | cons f fs ih =>
      obtain ⟨hf, hfs⟩ := List.forall_mem_cons.1 h
      by_cases hnil : fs = []
      · subst hnil
        exact splitFrames_last hf []
      · rw [joinBlank_cons _ _ hnil, splitFrames_one hf, ih hnil hfs]
        rfl

/-! ## A line that starts with `data:` -/

/-- `data:`. -/
def dataPrefix : PyStr := py "data:"

/-- What a line has begun with stays at its beginning. -/
theorem strLines_begun {line : PyStr} (hline : line ≠ []) (t : PyStr) :
    ∃ line' ∈ strLines line t, line <+: line' := by
  induction line, t using strLines.induct with
  | case1 => exact absurd rfl hline
  | case2 line hne => exact ⟨line, by simp [strLines, hne], List.prefix_rfl⟩
  | case3 line c hc => exact ⟨line, by simp [strLines, hc], List.prefix_rfl⟩
  | case4 line c hc => exact ⟨line ++ [c], by simp [strLines, hc], List.prefix_append _ _⟩
  | case5 line a b rest ha hcrlf ih =>
      refine ⟨line, ?_, List.prefix_rfl⟩
      rw [strLines_crlf hcrlf.1 hcrlf.2]
      exact List.mem_cons_self
  | case6 line a b rest ha hcrlf ih =>
      refine ⟨line, ?_, List.prefix_rfl⟩
      rw [strLines, if_pos ha, if_neg hcrlf]
      exact List.mem_cons_self
  | case7 line a b rest ha ih =>
      obtain ⟨line', hmem, hprefix⟩ := ih (by simp)
      rw [strLines, if_neg ha]
      exact ⟨line', hmem, (List.prefix_append _ _).trans hprefix⟩

theorem strLines_dataPrefix (t : PyStr) :
    ∃ line ∈ strLines [] (dataPrefix ++ t), dataPrefix <+: line := by
  have hpush : ∀ p : PyStr, p.all (fun c => !isLineEnd c) = true → ∀ line,
      strLines line (p ++ t) = strLines (line ++ p) t := by
    intro p hp
    induction p with
    | nil => simp
    | cons c p ih =>
        intro line
        simp only [List.all_cons, Bool.and_eq_true, Bool.not_eq_true'] at hp
        rw [List.cons_append, strLines_push hp.1, ih hp.2, List.append_assoc]
        rfl
  rw [hpush dataPrefix (by decide)]
  exact strLines_begun (by decide) t

/-- The line stands at the beginning of the text or after the end of another line. -/
def StartsIn (raw line : PyBytes) : Prop :=
  ∃ u v, raw = u ++ v ∧ line <+: v ∧ (u = [] ∨ ∃ u' k, u = u' ++ [k] ∧ (k = 0x0A ∨ k = 0x0D))

theorem startsIn_prefix (line raw : PyBytes) : StartsIn (line ++ raw) line :=
  ⟨[], line ++ raw, rfl, List.prefix_append _ _, Or.inl rfl⟩

theorem StartsIn.later {raw line : PyBytes} (h : StartsIn raw line) {k : UInt8}
    (hk : k = 0x0A ∨ k = 0x0D) (start : PyBytes) : StartsIn (start ++ k :: raw) line := by
  obtain ⟨u, v, rfl, hl, hu⟩ := h
  refine ⟨start ++ k :: u, v, by simp, hl, Or.inr ?_⟩
  rcases hu with rfl | ⟨u', k', rfl, hk'⟩
  · exact ⟨start, k, rfl, hk⟩
  · exact ⟨start ++ k :: u', k', by simp, hk'⟩

theorem byteLines_start (line raw : PyBytes) : ∀ l ∈ byteLines line raw, StartsIn (line ++ raw) l := by
  induction line, raw using byteLines.induct with
  | case1 => simp [byteLines]
  | case2 line hne =>
      intro l hl
      rw [byteLines, if_neg hne, List.mem_singleton] at hl
      exact hl ▸ startsIn_prefix line []
  | case3 line b hb =>
      intro l hl
      rw [byteLines, if_pos hb, List.mem_singleton] at hl
      exact hl ▸ startsIn_prefix line [b]
  | case4 line b hb =>
      intro l hl
      rw [byteLines, if_neg hb, List.mem_singleton] at hl
      subst hl
      exact ⟨[], line ++ [b], rfl, List.prefix_rfl, Or.inl rfl⟩
  | case5 line b rest ih =>
      intro l hl
      rw [byteLines, if_pos rfl] at hl
      rcases List.mem_cons.1 hl with hl | hl
      · rw [hl]
        exact startsIn_prefix line _
      · exact (ih l hl).later (Or.inl rfl) line
  | case6 line rest ha ih =>
      intro l hl
      rw [byteLines, if_neg ha, if_pos rfl, if_pos rfl] at hl
      rcases List.mem_cons.1 hl with hl | hl
      · rw [hl]
        exact startsIn_prefix line _
      · have hlater := (ih l hl).later (Or.inl rfl) (line ++ [0x0D])
        rwa [List.append_assoc] at hlater
  | case7 line b rest hb ha ih =>
      intro l hl
      rw [byteLines, if_neg ha, if_pos rfl, if_neg hb] at hl
      rcases List.mem_cons.1 hl with hl | hl
      · rw [hl]
        exact startsIn_prefix line _
      · exact (ih l hl).later (Or.inr rfl) line
  | case8 line a b rest ha ha' ih =>
      intro l hl
      rw [byteLines, if_neg ha, if_neg ha'] at hl
      obtain ⟨u, v, huv, hstart⟩ := ih l hl
      exact ⟨u, v, by rw [← huv]; simp, hstart⟩

theorem dataPrefix_bytes : dataPrefix.flatMap CodePoint.utf8 = dataBytes := by decide

end RexHunter
