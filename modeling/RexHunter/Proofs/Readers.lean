import RexHunter.Proofs.Adapter
import RexHunter.Proofs.Lines

set_option autoImplicit false

/-! # The two readers of a stream

`iter_sse_events` cuts the bytes at empty lines, `_drive_stream` goes over the lines that
`str.splitlines` finds. Both come to rest at each empty line, so they are compared frame by frame
(`ReadAlike`); and a frame with a `data:` line for the first has one for the second, so an event can
not be missing in one frame and come up in another. -/

namespace RexHunter

/-! ## The reading of the frames -/

/-- The frame, closed. -/
def SseFrame.close (frame : SseFrame) : SseFrame := { frame with closed := true }

section Frames

variable [PyRuntime]

/-- The reading of `_drive_stream` over the frames. -/
def driveFrames (asm : StreamAssembler) : List SseFrame → Reading
  | [] => ⟨[], [], dumpsBytes asm.assembled⟩
  | frame :: rest =>
      match Json.loads frame.data.flatten with
      | .error e => ⟨[], [], .error (jsonExc e)⟩
      | .ok event =>
          match asm.feed event with
          | .error e => ⟨[event], [], .error e⟩
          | .ok (text, asm') =>
              let reading := driveFrames asm' rest
              ⟨event :: reading.fed, (if frame.closed then sunkText text else []) ++ reading.sunk,
                reading.returned⟩

/-- **The loop over the lines reads the frames.** -/
theorem driveLines_eq (lines : List PyStr) : ∀ (asm : StreamAssembler) (dataBuf : List PyStr),
    driveLines asm dataBuf lines = driveFrames asm (frames true dataBuf lines) := by
  induction lines with
  | nil =>
      intro asm dataBuf
      cases dataBuf with
      | nil => rfl
      | cons text texts =>
          unfold driveLines frames
          simp only [if_true, driveFrames]
          cases Json.loads (text :: texts).flatten with
          | error e => rfl
          | ok event =>
              simp only
              cases asm.feed event with
              | error e => rfl
              | ok r => rfl
  | cons line lines ih =>
      intro asm dataBuf
      unfold driveLines frames
      cases afterPrefix (py "data:") line with
      | some rest => exact ih asm _
      | none =>
          by_cases hblank : strip PyRuntime.isSpace line = []
          · simp only [if_pos hblank]
            cases dataBuf with
            | nil => exact ih asm []
            | cons text texts =>
                simp only [driveFrames]
                cases Json.loads (text :: texts).flatten with
                | error e => rfl
                | ok event =>
                    simp only
                    cases asm.feed event with
                    | error e => rfl
                    | ok r => simp only [ih r.2 [], if_true]
          · simp only [if_neg hblank]
            exact ih asm dataBuf

/-- The frame holds a JSON text of the event. -/
def SseFrame.Holds (frame : SseFrame) (event : Json) : Prop :=
  Json.loads frame.data.flatten = .ok event

/-- Only the last frame may be open. -/
def OpenLast : List SseFrame → Prop
  | [] => True
  | [_] => True
  | frame :: rest => frame.closed = true ∧ OpenLast rest

/-- The text that the last of the events returned. -/
def lastText (texts : List (Option PyStr)) : PyStr := (texts.getLast?.getD none).getD []

omit [PyRuntime] in
theorem sunkText_eq_nil {text : Option PyStr} : sunkText text = [] ↔ text.getD [] = [] := by
  unfold sunkText
  cases text.getD [] <;> simp

theorem feedEvents_cons {asm asm' : StreamAssembler} {event : Json} {text : Option PyStr}
    (hfeed : asm.feed event = .ok (text, asm')) (events : List Json) {texts : List (Option PyStr)}
    {last : StreamAssembler} : feedEvents asm (event :: events) = .ok (texts, last) ↔
      ∃ rest, feedEvents asm' events = .ok (rest, last) ∧ texts = text :: rest := by
  unfold feedEvents
  rw [Channels.run, hfeed]
  cases hrun : Channels.run StreamAssembler.feed asm' events with
  | error e => simp only [hrun, reduceCtorEq, false_and, exists_false]
  | ok r =>
      simp only [hrun, Except.ok.injEq, Prod.mk.injEq]
      constructor
      · rintro ⟨rfl, rfl⟩
        exact ⟨r.1, rfl, rfl⟩
      · rintro ⟨rest, rfl, rfl⟩
        exact ⟨rfl, rfl⟩

theorem feedEvents_length {events : List Json} : ∀ {asm last : StreamAssembler}
    {texts : List (Option PyStr)}, feedEvents asm events = .ok (texts, last) →
      texts.length = events.length := by
  induction events with
  | nil =>
      intro asm last texts h
      cases h
      rfl
  | cons event events ih =>
      intro asm last texts h
      cases hfeed : asm.feed event with
      | error e =>
          unfold feedEvents at h
          rw [Channels.run, hfeed] at h
          cases h
      | ok r =>
          obtain ⟨rest, hrest, rfl⟩ := (feedEvents_cons hfeed events).1 h
          rw [List.length_cons, List.length_cons, ih hrest]

omit [PyRuntime] in
theorem reading_cons_inj {event : Json} {texts : List PyStr} {x y : Reading} :
    (⟨event :: x.fed, texts ++ x.sunk, x.returned⟩ : Reading)
      = ⟨event :: y.fed, texts ++ y.sunk, y.returned⟩ ↔ x = y := by
  obtain ⟨fed, sunk, returned⟩ := x
  obtain ⟨fed', sunk', returned'⟩ := y
  simp

/-- **The frames of the events are read like the events**, if the last one is closed or has no text
    for the sink. -/
theorem driveFrames_eq_iff {fs : List SseFrame} {events : List Json}
    (h : List.Forall₂ SseFrame.Holds fs events) : ∀ {asm : StreamAssembler}, OpenLast fs →
      (driveFrames asm fs = driveEvents asm events ↔
        ((∃ frame ∈ fs, frame.closed = false) →
          ∀ texts last, feedEvents asm events = .ok (texts, last) → lastText texts = [])) := by
  induction h with
  | nil =>
      intro asm _
      simp [driveFrames, driveEvents]
  | @cons frame event fs events hframe hrest ih =>
      intro asm hopen
      have hloads : Json.loads frame.data.flatten = .ok event := hframe
      cases hfeed : asm.feed event with
      | error e =>
          -- where feeding raises both readings stop, and no last text is fed
          have hnever : ∀ texts last, feedEvents asm (event :: events) ≠ .ok (texts, last) := by
            intro texts last hfed
            unfold feedEvents at hfed
            rw [Channels.run, hfeed] at hfed
            cases hfed
          simp only [driveFrames, driveEvents, hloads, hfeed, true_iff]
          exact fun _ texts last hfed => absurd hfed (hnever texts last)
      | ok r =>
          obtain ⟨text, asm'⟩ := r
          simp only [driveFrames, driveEvents, hloads, hfeed, feedEvents_cons hfeed events]
          cases hrest with
          | nil =>
              -- the last frame: its text is sunk only if a blank line closes the frame
              have hlast : ∀ texts last, (∃ rest, feedEvents asm' [] = .ok (rest, last) ∧
                  texts = text :: rest) ↔ asm' = last ∧ texts = [text] := by
                intro texts last
                constructor
                · rintro ⟨rest, hrest, rfl⟩
                  cases hrest
                  exact ⟨rfl, rfl⟩
                · rintro ⟨rfl, rfl⟩
                  exact ⟨[], rfl, rfl⟩
              have hleft : ((⟨[event], [] ++ [], dumpsBytes asm'.assembled⟩ : Reading)
                  = ⟨[event], sunkText text ++ [], dumpsBytes asm'.assembled⟩) ↔
                  text.getD [] = [] := by
                rw [List.append_nil, List.append_nil, ← sunkText_eq_nil]
                exact ⟨fun h => (congrArg Reading.sunk h).symm, fun h => by rw [h]⟩
              cases hclosed : frame.closed with
              | true => simp [driveFrames, driveEvents, hclosed]
              | false =>
                  simp only [driveFrames, driveEvents, Bool.false_eq_true, if_false, hleft, hlast]
                  simp [hclosed, lastText]
          | @cons frame' event' fs events hframe' hrest' =>
              obtain ⟨hclosed, hopen'⟩ := hopen
              have hiff := @ih asm' hopen'
              simp only [hclosed, if_true]
              refine reading_cons_inj.trans (hiff.trans ?_)
              have hsome : (∃ f ∈ frame :: frame' :: fs, f.closed = false) ↔
                  ∃ f ∈ frame' :: fs, f.closed = false := by
                simp [hclosed]
              rw [hsome]
              -- the texts of the later frames end as the texts of all do
              refine imp_congr_right
                (fun _ => ⟨fun h texts last => ?_, fun h texts last hfed => ?_⟩)
              · rintro ⟨rest, hfed, rfl⟩
                have hlength := feedEvents_length hfed
                cases rest with
                | nil => cases hlength
                | cons t rest => exact h (t :: rest) last hfed
              · have hlength := feedEvents_length hfed
                have hlast := h (text :: texts) last ⟨texts, hfed, rfl⟩
                cases texts with
                | nil => cases hlength
                | cons t texts => exact hlast

/-- A reading that feeds these events and returns a message has read them from the frames. -/
theorem reads_of_fed {fs : List SseFrame} : ∀ {asm : StreamAssembler} {events : List Json}
    {raw : PyBytes},
    (driveFrames asm fs).fed = (driveEvents asm events).fed →
      (driveFrames asm fs).returned = .ok raw → List.Forall₂ SseFrame.Holds fs events := by
  induction fs with
  | nil =>
      intro asm events raw hfed _
      cases events with
      | nil => exact .nil
      | cons event events =>
          unfold driveEvents at hfed
          cases hfeed : asm.feed event with
          | error e =>
              rw [hfeed] at hfed
              cases hfed
          | ok r =>
              rw [hfeed] at hfed
              cases hfed
  | cons frame fs ih =>
      intro asm events raw hfed hreturned
      unfold driveFrames at hfed hreturned
      cases hloads : Json.loads frame.data.flatten with
      | error e =>
          simp only [hloads] at hreturned
          cases hreturned
      | ok event =>
          simp only [hloads] at hfed hreturned
          cases hfeed : asm.feed event with
          | error e =>
              simp only [hfeed] at hreturned
              cases hreturned
          | ok r =>
              simp only [hfeed] at hfed hreturned
              cases events with
              | nil => cases hfed
              | cons event' events =>
                  -- both fed an event first, so it is the same event
                  have hevent : event = event' := by
                    unfold driveEvents at hfed
                    cases hfeed' : asm.feed event' <;> rw [hfeed'] at hfed <;>
                      exact (List.cons.inj hfed).1
                  subst hevent
                  simp only [driveEvents, hfeed, List.cons.injEq, true_and] at hfed
                  exact .cons hloads (ih hfed hreturned)

/-! ## Frame by frame -/

/-- An empty line closes what is open. -/
theorem frames_append_blank (whole : Bool) (lines rest : List PyStr) : ∀ dataBuf : List PyStr,
    frames whole dataBuf (lines ++ [] :: rest)
      = (frames true dataBuf lines).map SseFrame.close ++ frames whole [] rest := by
  have hprefix : afterPrefix (py "data:") [] = none := rfl
  have hblank : strip PyRuntime.isSpace [] = [] := rfl
  induction lines with
  | nil =>
      intro dataBuf
      rw [List.nil_append, frames_blank whole hprefix hblank]
      cases dataBuf <;> rfl
  | cons line lines ih =>
      intro dataBuf
      rw [List.cons_append]
      cases h : afterPrefix (py "data:") line with
      | some text => rw [frames_data _ h, frames_data _ h, ih]
      | none =>
          by_cases hline : strip PyRuntime.isSpace line = []
          · rw [frames_blank _ h hline, frames_blank _ h hline, ih, List.map_append,
              List.append_assoc]
            cases dataBuf <;> rfl
          · rw [frames_other _ h hline, frames_other _ h hline, ih]

/-- The frames of the lines of a text. -/
def lineFrames (t : PyStr) : List SseFrame := frames true [] (strLines [] t)

theorem lineFrames_snoc_lf (f : PyStr) :
    (lineFrames (f ++ [lf])).map SseFrame.close = (lineFrames f).map SseFrame.close := by
  unfold lineFrames
  rcases strLines_snoc_lf [] f with h | h
  · rw [h]
  · rw [h, frames_append_blank]
    simp [frames, SseFrame.close]

/-- **The lines are read frame by frame.** -/
theorem lineFrames_joinBlank (f : PyStr) {fs : List PyStr} (hfs : fs ≠ []) :
    lineFrames (joinBlank lf (f :: fs))
      = (lineFrames f).map SseFrame.close ++ lineFrames (joinBlank lf fs) := by
  have hlf : isLineEnd lf = true := by decide
  have hne : ∀ v : PyStr, lf.val = 0x0D → ∀ c ∈ v.head?, c.val ≠ 0x0A :=
    fun v h => absurd h (by decide)
  rw [← lineFrames_snoc_lf]
  unfold lineFrames
  rw [joinBlank_cons _ _ hfs, strLines_append hlf (hne _), strLines_end hlf (hne _),
    frames_append_blank]

/-- The JSON texts of the frames. -/
def jsonTexts (fs : List SseFrame) : List PyStr := fs.map (fun frame => frame.data.flatten)

omit [PyRuntime] in
theorem jsonTexts_close (fs : List SseFrame) :
    jsonTexts (fs.map SseFrame.close) = jsonTexts fs := by
  unfold jsonTexts
  rw [List.map_map]
  rfl

theorem jsonTexts_joinBlank {fs : List PyStr} (hfs : fs ≠ []) :
    jsonTexts (lineFrames (joinBlank lf fs))
      = (fs.map (fun f => jsonTexts (lineFrames f))).flatten := by
  induction fs with
  | nil => exact absurd rfl hfs
  | cons f fs ih =>
      by_cases hnil : fs = []
      · subst hnil
        simp [joinBlank]
      · rw [lineFrames_joinBlank f hnil, List.map_cons, List.flatten_cons, ← ih hnil,
          ← jsonTexts_close (lineFrames f)]
        exact List.map_append

/-! ## A data line for one reader is one for the other -/

/-- A line that starts with the prefix, or data collected before, makes a frame. -/
theorem frames_ne_nil {lines : List PyStr} : ∀ {dataBuf : List PyStr},
    (dataBuf ≠ [] ∨ ∃ line ∈ lines, dataPrefix <+: line) → frames true dataBuf lines ≠ [] := by
  induction lines with
  | nil =>
      rintro dataBuf (hbuf | ⟨_, hmem, _⟩)
      · cases dataBuf with
        | nil => exact absurd rfl hbuf
        | cons text texts => exact List.cons_ne_nil _ _
      · cases hmem
  | cons line lines ih =>
      intro dataBuf h
      cases hprefix : afterPrefix (py "data:") line with
      | some rest =>
          rw [frames_data _ hprefix]
          exact ih (Or.inl (by simp))
      | none =>
          have hline : ¬ dataPrefix <+: line := by
            rintro ⟨rest, rfl⟩
            rw [dataPrefix, afterPrefix_append] at hprefix
            cases hprefix
          have hlater : dataBuf ≠ [] ∨ ∃ line ∈ lines, dataPrefix <+: line := by
            refine h.imp_right ?_
            rintro ⟨line', hmem, hdata⟩
            rcases List.mem_cons.1 hmem with rfl | hmem
            · exact absurd hdata hline
            · exact ⟨line', hmem, hdata⟩
          by_cases hblank : strip PyRuntime.isSpace line = []
          · rw [frames_blank _ hprefix hblank]
            by_cases hbuf : dataBuf = []
            · rw [if_pos hbuf, List.nil_append]
              exact ih (Or.inr (hlater.resolve_left (fun hne => hne hbuf)))
            · rw [if_neg hbuf]
              exact List.cons_ne_nil _ _
          · rw [frames_other _ hprefix hblank]
            exact ih hlater

/-- **A frame whose bytes hold data has a frame of the lines.** -/
theorem lineFrames_ne_nil {f : PyStr} (h : frameData (f.flatMap CodePoint.utf8) ≠ []) :
    lineFrames f ≠ [] := by
  have hdata : ∃ line ∈ byteLines [] (f.flatMap CodePoint.utf8), dataOfLine line ≠ [] := by
    by_contra hnone
    refine h (List.flatMap_eq_nil_iff.2 (fun line hline => ?_))
    by_contra hne
    exact hnone ⟨line, hline, hne⟩
  obtain ⟨line, hline, hne⟩ := hdata
  have hbegins : ∃ rest, line = dataBytes ++ rest := by
    unfold dataOfLine at hne
    cases hdrop : line.dropPrefix? dataBytes with
    | none => simp [hdrop] at hne
    | some rest =>
        obtain ⟨start, rfl, hstart⟩ := List.dropPrefix?_eq_some_iff.1 hdrop
        exact ⟨rest, by rw [eq_of_beq hstart]⟩
  obtain ⟨rest, rfl⟩ := hbegins
  obtain ⟨u, v, huv, ⟨v', rfl⟩, hu⟩ := byteLines_start [] _ _ hline
  rw [List.nil_append, List.append_assoc] at huv
  -- the data line is the first of the frame, or follows a byte that ends a line
  refine frames_ne_nil (Or.inr ?_)
  rcases hu with rfl | ⟨u', k, rfl, hk⟩
  · obtain ⟨s, rfl, -⟩ := Utf8.split_after_ascii (p := dataPrefix) (by decide)
      (huv.trans (by rw [dataPrefix_bytes]; rfl))
    exact strLines_dataPrefix s
  · have hascii : k.toNat < 0x80 := by rcases hk with rfl | rfl <;> decide
    obtain ⟨f', c, s, rfl, -, hc, hs⟩ := Utf8.split_at_ascii hascii
      (huv.trans (by rw [List.append_assoc]; rfl))
    obtain ⟨s', rfl, -⟩ := Utf8.split_after_ascii (p := dataPrefix) (by decide)
      (hs.trans (by rw [dataPrefix_bytes]; rfl))
    have hend : isLineEnd c = true := by
      have hval : c.val = 0x0A ∨ c.val = 0x0D := by
        rcases hk with rfl | rfl
        · exact Or.inl hc
        · exact Or.inr hc
      simp only [isLineEnd, decide_eq_true_eq]
      omega
    have hother : c.val = 0x0D → ∀ c' ∈ (dataPrefix ++ s').head?, c'.val ≠ 0x0A := by
      intro _ c' hc'
      cases hc'
      decide
    obtain ⟨line, hmem, hstart⟩ := strLines_dataPrefix s'
    exact ⟨line, by rw [strLines_append hend hother]; exact List.mem_append_right _ hmem, hstart⟩

/-! ## The last frame -/

/-- Only the last frame can be open. -/
theorem frames_openLast (whole : Bool) (lines : List PyStr) : ∀ dataBuf : List PyStr,
    OpenLast (frames whole dataBuf lines) := by
  have hclosed : ∀ (dataBuf : List PyStr) (fs : List SseFrame), OpenLast fs →
      OpenLast (⟨dataBuf, true⟩ :: fs) := by
    intro dataBuf fs hfs
    cases fs with
    | nil => trivial
    | cons frame fs => exact ⟨rfl, hfs⟩
  induction lines with
  | nil =>
      intro dataBuf
      cases dataBuf with
      | nil => trivial
      | cons text texts => cases whole <;> trivial
  | cons line lines ih =>
      intro dataBuf
      cases h : afterPrefix (py "data:") line with
      | some rest =>
          rw [frames_data _ h]
          exact ih _
      | none =>
          by_cases hblank : strip PyRuntime.isSpace line = []
          · rw [frames_blank _ h hblank]
            cases dataBuf with
            | nil => exact ih []
            | cons text texts => exact hclosed _ _ (ih [])
          · rw [frames_other _ h hblank]
            exact ih dataBuf

/-! ## Event by event -/

/-- What `iter_sse_events` makes of a frame. -/
def FrameEvents (frame : PyBytes) (events : List Json) : Prop :=
  (frameData frame = [] ∧ events = []) ∨
    (frameData frame ≠ [] ∧ ∃ event, loadsBytes (frameData frame) = .ok event ∧ events = [event])

/-- The two readers get the same events from a frame. -/
def ReadAlike (frame : PyStr) : Prop :=
  ∃ events, FrameEvents (frame.flatMap CodePoint.utf8) events ∧
    List.Forall₂ (fun text event => Json.loads text = .ok event) (jsonTexts (lineFrames frame))
      events

theorem FrameEvents.unique {frame : PyBytes} {events events' : List Json}
    (h : FrameEvents frame events) (h' : FrameEvents frame events') : events = events' := by
  rcases h with ⟨hnil, rfl⟩ | ⟨hne, event, hevent, rfl⟩ <;>
    rcases h' with ⟨hnil', rfl⟩ | ⟨hne', event', hevent', rfl⟩
  · rfl
  · exact absurd hnil hne'
  · exact absurd hnil' hne
  · cases hevent.symm.trans hevent'
    rfl

theorem readFrames_eq {bs : List PyBytes} : ∀ {events : List Json}, readFrames bs = .ok events →
    ∃ es, List.Forall₂ FrameEvents bs es ∧ events = es.flatten := by
  induction bs with
  | nil =>
      intro events h
      cases h
      exact ⟨[], .nil, rfl⟩
  | cons frame bs ih =>
      intro events h
      rw [readFrames] at h
      by_cases hnil : frameData frame = []
      · rw [if_pos hnil] at h
        obtain ⟨es, hes, rfl⟩ := ih h
        exact ⟨[] :: es, .cons (Or.inl ⟨hnil, rfl⟩) hes, rfl⟩
      · rw [if_neg hnil] at h
        cases hevent : loadsBytes (frameData frame) with
        | error e =>
            rw [hevent] at h
            cases h
        | ok event =>
            cases hrest : readFrames bs with
            | error e =>
                rw [hevent, hrest] at h
                cases h
            | ok rest =>
                rw [hevent, hrest] at h
                obtain ⟨es, hes, rfl⟩ := ih hrest
                cases h
                exact ⟨[event] :: es, .cons (Or.inr ⟨hnil, event, hevent, rfl⟩) hes, rfl⟩

/-- **The frames of the lines hold the events if and only if each frame of the bytes does.** -/
theorem reads_iff {fs : List PyStr} (hfs : fs ≠ []) {events : List Json}
    (hevents : readFrames (fs.map (List.flatMap CodePoint.utf8)) = .ok events) :
    List.Forall₂ SseFrame.Holds (lineFrames (joinBlank lf fs)) events ↔ ∀ f ∈ fs, ReadAlike f := by
  obtain ⟨es, hes, rfl⟩ := readFrames_eq hevents
  rw [List.forall₂_map_left_iff] at hes
  have hreads : List.Forall₂ SseFrame.Holds (lineFrames (joinBlank lf fs)) es.flatten ↔
      List.Forall₂ (fun text event => Json.loads text = .ok event)
        (fs.map (fun f => jsonTexts (lineFrames f))).flatten es.flatten := by
    rw [← jsonTexts_joinBlank hfs, jsonTexts, List.forall₂_map_left_iff]
    rfl
  rw [hreads]
  constructor
  · intro h
    -- each frame of the bytes holds at most as many events as there are frames of its lines
    have hle : List.Forall₂ (fun g e => e.length ≤ g.length)
        (fs.map (fun f => jsonTexts (lineFrames f))) es := by
      rw [List.forall₂_map_left_iff]
      refine hes.imp (fun f e hf => ?_)
      rcases hf with ⟨-, rfl⟩ | ⟨hne, event, -, rfl⟩
      · exact Nat.zero_le _
      · have hframes := lineFrames_ne_nil hne
        rw [jsonTexts, List.length_map]
        exact List.length_pos_iff.2 hframes
    have hparts := forall₂_of_flatten hle h
    rw [List.forall₂_map_left_iff] at hparts
    clear hreads h hle hevents hfs
    induction hes with
    | nil => simp
    | @cons f e fs es hf hes ih =>
        rcases hparts with _ | ⟨hpart, hparts⟩
        rw [List.forall_mem_cons]
        exact ⟨⟨e, hf, hpart⟩, ih hparts⟩
  · intro h
    refine List.rel_flatten ?_
    rw [List.forall₂_map_left_iff]
    clear hreads hevents hfs
    induction hes with
    | nil => exact .nil
    | @cons f e fs es hf hes ih =>
        rw [List.forall_mem_cons] at h
        obtain ⟨e', he', hread⟩ := h.1
        exact .cons (he'.unique hf ▸ hread) (ih h.2)

/-- A last frame that no blank line closes has no text for the sink. -/
def NothingHeldBack (t : PyStr) (events : List Json) : Prop :=
  (∃ frame ∈ lineFrames t, frame.closed = false) →
    ∀ texts last, feedEvents .new events = .ok (texts, last) → lastText texts = []

omit [PyRuntime] in
theorem encode_frames {t : PyStr} {raw : PyBytes} (ht : encode t = some raw) :
    ∃ fs, fs ≠ [] ∧ fs.map (List.flatMap CodePoint.utf8) = splitFrames [] raw ∧
      t = joinBlank lf fs ∧ ∀ f ∈ fs, encode f = some (f.flatMap CodePoint.utf8) := by
  obtain ⟨hall, rfl⟩ := Utf8.encode_eq_some ht
  obtain ⟨fs, hne, hbytes, rfl⟩ :=
    texts_of_frames (splitFrames_ne_nil [] _)
      (joinBlank_splitFrames [] (t.flatMap CodePoint.utf8)).symm
  refine ⟨fs, hne, hbytes, rfl, fun f hf => ?_⟩
  unfold encode
  rw [if_pos]
  unfold encodable at hall ⊢
  exact List.all_eq_true.2 (fun c hc => List.all_eq_true.1 hall c (mem_joinBlank hf hc))

/-- The frames of the bytes are those of the text. -/
theorem forall_readAlike_iff {fs : List PyStr} {bs : List PyBytes}
    (hbytes : fs.map (List.flatMap CodePoint.utf8) = bs)
    (hencode : ∀ f ∈ fs, encode f = some (f.flatMap CodePoint.utf8)) :
    (∀ frame ∈ bs, ∃ f, encode f = some frame ∧ ReadAlike f) ↔ ∀ f ∈ fs, ReadAlike f := by
  rw [← hbytes, List.forall_mem_map]
  refine forall₂_congr (fun f hf => ⟨?_, fun h => ⟨f, hencode f hf, h⟩⟩)
  rintro ⟨f', hf', h⟩
  -- Two texts with the same bytes are one.
  rwa [← Utf8.decodeReplace_encode (hencode f hf), Utf8.decodeReplace_encode hf']

/-- A stream that ends with an empty line holds nothing back. -/
theorem nothingHeldBack_of_closed (t : PyStr) (events : List Json) :
    NothingHeldBack (t ++ [lf, lf]) events := by
  have hlf : isLineEnd lf = true := by decide
  have hne : ∀ v : PyStr, lf.val = 0x0D → ∀ c ∈ v.head?, c.val ≠ 0x0A :=
    fun v h => absurd h (by decide)
  have hlines : strLines [] (t ++ [lf, lf]) = strLines [] (t ++ [lf]) ++ [[]] := by
    rw [strLines_append hlf (hne _), strLines_end hlf (hne _)]
    rfl
  rintro ⟨frame, hframe, hopen⟩
  unfold lineFrames at hframe
  rw [hlines, frames_append_blank] at hframe
  rcases List.mem_append.1 hframe with hframe | hframe
  · obtain ⟨frame, -, rfl⟩ := List.mem_map.1 hframe
    cases hopen
  · cases hframe

/-! ## Streams of written objects -/

/-- `str.strip` removes a blank and leaves a brace, and floats are written in printable characters. -/
structure PrintsPlain : Prop where
  blank : PyRuntime.isSpace (Fin.ofNat _ 0x20) = true
  opening : PyRuntime.isSpace (Fin.ofNat _ 0x7B) = false
  closing : PyRuntime.isSpace (Fin.ofNat _ 0x7D) = false
  floats : ∀ x, (floatText x).all (fun c => decide (0x20 ≤ c.val ∧ c.val ≤ 0x7E)) = true

/-- The frame of an object. -/
def sentFrame (object : Dict) : PyStr := py "data: " ++ (Json.obj object).write

/-- The frames of the objects, each closed by an empty line. -/
def sentText (objects : List Dict) : PyStr := joinBlank lf (objects.map sentFrame ++ [[]])

/-- `json.loads` reads the object. -/
def Loadable (object : Dict) : Prop :=
  object ≠ [] ∧ (Json.obj object).fault PyRuntime.recursionLimit = none

variable {object : Dict}

theorem sentFrame_printable (h : PrintsPlain) :
    ∀ c ∈ sentFrame object, 0x20 ≤ c.val ∧ c.val ≤ 0x7E := by
  have hall : (sentFrame object).all (fun c => decide (0x20 ≤ c.val ∧ c.val ≤ 0x7E)) = true := by
    rw [sentFrame, List.all_append,
      all_write (fun c hlow hhigh => decide_eq_true ⟨hlow, hhigh⟩) h.floats, Bool.and_true]
    decide
  exact fun c hc => of_decide_eq_true (List.all_eq_true.1 hall c hc)

omit [PyRuntime] in
theorem utf8_printable {t : PyStr} (h : ∀ c ∈ t, 0x20 ≤ c.val ∧ c.val ≤ 0x7E) :
    t.flatMap CodePoint.utf8 = t.map (fun c => UInt8.ofNat c.val) := by
  induction t with
  | nil => rfl
  | cons c t ih =>
      obtain ⟨hc, ht⟩ := List.forall_mem_cons.1 h
      rw [List.flatMap_cons, Utf8.utf8_ascii (by omega), ih ht]
      rfl

omit [PyRuntime] in
theorem byte_printable {t : PyStr} (h : ∀ c ∈ t, 0x20 ≤ c.val ∧ c.val ≤ 0x7E) {b : UInt8}
    (hb : b ∈ t.flatMap CodePoint.utf8) : b ≠ 0x0A ∧ b ≠ 0x0D := by
  rw [utf8_printable h] at hb
  obtain ⟨c, hc, rfl⟩ := List.mem_map.1 hb
  obtain ⟨hlow, hhigh⟩ := h c hc
  have hval : (UInt8.ofNat c.val).toNat = c.val := Utf8.toNat_ofNat (by omega)
  constructor <;>
  · intro heq
    rw [heq] at hval
    simp at hval
    omega

/-- The bytes of the frame are its one line, and the data is what was written. -/
theorem frameData_sentFrame (h : PrintsPlain) :
    frameData ((sentFrame object).flatMap CodePoint.utf8)
      = (Json.obj object).write.map (fun c => UInt8.ofNat c.val) := by
  have hprintable := @sentFrame_printable _ object h
  have hline := byteLines_one (fun b hb => byte_printable hprintable hb) []
  have hbytes : (sentFrame object).flatMap CodePoint.utf8
      = dataBytes ++ (py " " ++ (Json.obj object).write).map (fun c => UInt8.ofNat c.val) := by
    rw [utf8_printable hprintable]
    rfl
  have hstrip : stripBytes ((py " " ++ (Json.obj object).write).map (fun c => UInt8.ofNat c.val))
      = (Json.obj object).write.map (fun c => UInt8.ofNat c.val) := by
    have hstr := @strip_braces (isByteSpace ∘ (fun c : CodePoint => UInt8.ofNat c.val)) (by decide)
      (by decide) (by decide) (Json.writeEntries object)
    unfold strip at hstr
    unfold stripBytes
    rw [List.dropWhile_map, ← List.map_reverse, List.dropWhile_map, ← List.map_reverse]
    exact congrArg (List.map (fun c : CodePoint => UInt8.ofNat c.val)) hstr
  unfold frameData
  have hdrop : ∀ rest : PyBytes, (dataBytes ++ rest).dropPrefix? dataBytes = some rest :=
    fun rest => by simp [dataBytes, List.dropPrefix?]
  rw [hline, List.nil_append, if_neg (by simp [hbytes, dataBytes]), List.flatMap_singleton, hbytes,
    dataOfLine, hdrop]
  exact hstrip

theorem lineFrames_sentFrame (h : PrintsPlain) :
    lineFrames (sentFrame object) = [⟨[(Json.obj object).write], false⟩] := by
  have hline : strLines [] (sentFrame object) = [sentFrame object] := by
    refine (strLines_one (fun c hc => ?_) []).trans (if_neg (List.cons_ne_nil _ _))
    obtain ⟨hlow, hhigh⟩ := sentFrame_printable h c hc
    simp only [isLineEnd, decide_eq_false_iff_not]
    omega
  have hprefix : afterPrefix (py "data:") (sentFrame object)
      = some (py " " ++ (Json.obj object).write) := afterPrefix_append (py "data:") _
  have hstrip : strip PyRuntime.isSpace (py " " ++ (Json.obj object).write)
      = (Json.obj object).write :=
    strip_braces h.blank h.opening h.closing (Json.writeEntries object)
  unfold lineFrames
  rw [hline, frames_data _ hprefix, hstrip]
  rfl

theorem frameEvents_sentFrame (h : PrintsPlain) (hload : Loadable object) :
    FrameEvents ((sentFrame object).flatMap CodePoint.utf8) [(Json.obj object).reread] := by
  obtain ⟨hne, hfault⟩ := hload
  cases object with
  | nil => exact absurd rfl hne
  | cons e entries =>
      refine Or.inr ⟨?_, (Json.obj (e :: entries)).reread, ?_, rfl⟩
      · rw [frameData_sentFrame h]
        simp [Json.write, py]
      · rw [frameData_sentFrame h]
        exact loadsBytes_object hfault

theorem readAlike_sentFrame (h : PrintsPlain) (hload : Loadable object) :
    ReadAlike (sentFrame object) := by
  refine ⟨_, frameEvents_sentFrame h hload, ?_⟩
  rw [lineFrames_sentFrame h, jsonTexts, List.map_singleton, List.flatten_singleton]
  exact .cons (loads_write hload.2) .nil

theorem readAlike_nil : ReadAlike [] := ⟨[], Or.inl ⟨rfl, rfl⟩, .nil⟩

theorem FrameEvents.cons {frame : PyBytes} {events rest : List Json} {bs : List PyBytes}
    (h : FrameEvents frame events) (hrest : readFrames bs = .ok rest) :
    readFrames (frame :: bs) = .ok (events ++ rest) := by
  rcases h with ⟨hnil, rfl⟩ | ⟨hne, event, hevent, rfl⟩
  · rw [readFrames, if_pos hnil, hrest, List.nil_append]
  · rw [readFrames, if_neg hne, hevent, hrest]
    rfl

theorem readFrames_sentText (h : PrintsPlain) {objects : List Dict}
    (hload : ∀ object ∈ objects, Loadable object) :
    readFrames ((objects.map sentFrame ++ [[]]).map (List.flatMap CodePoint.utf8))
      = .ok (objects.map (fun object => (Json.obj object).reread)) := by
  induction objects with
  | nil => rfl
  | cons object objects ih =>
      obtain ⟨hobject, hobjects⟩ := List.forall_mem_cons.1 hload
      exact (frameEvents_sentFrame h hobject).cons (ih hobjects)

/-- The bytes are cut where the frames were joined. -/
theorem splitFrames_sentText (h : PrintsPlain) (objects : List Dict) :
    splitFrames [] ((sentText objects).flatMap CodePoint.utf8)
      = (objects.map sentFrame ++ [[]]).map (List.flatMap CodePoint.utf8) := by
  have hnewline : ∀ f ∈ (objects.map sentFrame ++ [[]]).map (List.flatMap CodePoint.utf8),
      (0x0A : UInt8) ∉ f := by
    intro f hf hmem
    simp only [List.map_append, List.map_map, List.mem_append, List.mem_map, List.map_cons,
      List.map_nil, List.mem_singleton] at hf
    rcases hf with ⟨object, -, rfl⟩ | rfl
    · exact (byte_printable (sentFrame_printable h) hmem).1 rfl
    · cases hmem
  unfold sentText
  rw [utf8_joinBlank, splitFrames_joinBlank (by simp) hnewline]

/-- Every frame of the stream is read alike. -/
theorem readAlike_sentText (h : PrintsPlain) {objects : List Dict}
    (hload : ∀ object ∈ objects, Loadable object) :
    ∀ f ∈ objects.map sentFrame ++ [[]], ReadAlike f := by
  intro f hf
  rcases List.mem_append.1 hf with hf | hf
  · obtain ⟨object, hobject, rfl⟩ := List.mem_map.1 hf
    exact readAlike_sentFrame h (hload object hobject)
  · rw [List.mem_singleton.1 hf]
    exact readAlike_nil

theorem lineFrames_sentText (h : PrintsPlain) (objects : List Dict) :
    lineFrames (sentText objects)
      = objects.map (fun object => ⟨[(Json.obj object).write], true⟩) := by
  induction objects with
  | nil => rfl
  | cons object objects ih =>
      have hne : objects.map sentFrame ++ [[]] ≠ [] := by simp
      unfold sentText at ih ⊢
      rw [List.map_cons, List.cons_append, lineFrames_joinBlank _ hne, lineFrames_sentFrame h, ih]
      rfl

/-- Every frame is closed. -/
theorem nothingHeldBack_sentText (h : PrintsPlain) (objects : List Dict) (events : List Json) :
    NothingHeldBack (sentText objects) events := by
  rintro ⟨frame, hframe, hopen⟩
  rw [lineFrames_sentText h] at hframe
  obtain ⟨object, -, rfl⟩ := List.mem_map.1 hframe
  cases hopen

/-! ## The readers -/

theorem driveLines_of_alike {fs : List PyStr} (hne : fs ≠ []) {events : List Json}
    (hevents : readFrames (fs.map (List.flatMap CodePoint.utf8)) = .ok events)
    (halike : ∀ f ∈ fs, ReadAlike f) (hheld : NothingHeldBack (joinBlank lf fs) events) :
    driveLines .new [] (strLines [] (joinBlank lf fs)) = driveEvents .new events := by
  rw [driveLines_eq]
  exact (driveFrames_eq_iff ((reads_iff hne hevents).2 halike) (frames_openLast true _ _)).2 hheld

section Lines

variable (aiterLines : List PyBytes → List PyStr)
    (hlines : ∀ chunks t, encode t = some chunks.flatten → aiterLines chunks = strLines [] t)

include hlines

/-- **The two readers agree when every frame is read alike and nothing is held back**; where a message
    is assembled, only then. -/
theorem readers_agree {chunks : List PyBytes} {t : PyStr} (ht : encode t = some chunks.flatten)
    {events : List Json} (hevents : iterSseEvents chunks.flatten = .ok events) :
    ((∀ frame ∈ splitFrames [] chunks.flatten, ∃ f, encode f = some frame ∧ ReadAlike f) ∧
        NothingHeldBack t events →
      driveLines .new [] (aiterLines chunks) = driveEvents .new events) ∧
    (∀ message, (driveEvents .new events).returned = .ok message →
      driveLines .new [] (aiterLines chunks) = driveEvents .new events →
        (∀ frame ∈ splitFrames [] chunks.flatten, ∃ f, encode f = some frame ∧ ReadAlike f) ∧
          NothingHeldBack t events) := by
  rw [hlines chunks t ht]
  obtain ⟨fs, hne, hbytes, rfl, hencode⟩ := encode_frames ht
  unfold iterSseEvents at hevents
  rw [← hbytes] at hevents
  rw [forall_readAlike_iff hbytes hencode]
  constructor
  · rintro ⟨hread, hheld⟩
    exact driveLines_of_alike hne hevents hread hheld
  · intro message hmessage heq
    have hreads : List.Forall₂ SseFrame.Holds (lineFrames (joinBlank lf fs)) events := by
      rw [driveLines_eq] at heq
      exact reads_of_fed (congrArg Reading.fed heq) ((congrArg Reading.returned heq).trans hmessage)
    rw [driveLines_eq] at heq
    exact ⟨(reads_iff hne hevents).1 hreads,
      (driveFrames_eq_iff hreads (frames_openLast true _ _)).1 heq⟩

end Lines

end Frames

theorem printsPlain_ascii : @PrintsPlain .ascii := by
  refine @PrintsPlain.mk .ascii (by decide) (by decide) (by decide) (fun x => ?_)
  cases x with
  | nan => rfl
  | inf negative => cases negative <;> rfl
  | finite negative mantissa exponent => rfl

def pingStop : List Dict :=
  [[(.str (py "type"), .str (py "ping"))], [(.str (py "type"), .str (py "message_stop"))]]

theorem pingStop_loadable : ∀ object ∈ pingStop, @Loadable .ascii object := by
  rw [pingStop, List.forall_mem_cons, List.forall_mem_singleton]
  exact ⟨⟨List.cons_ne_nil _ _, rfl⟩, ⟨List.cons_ne_nil _ _, rfl⟩⟩

/-- The bytes of the stream, in two chunks. -/
def pingStopChunks : List PyBytes :=
  [((@sentText .ascii pingStop).flatMap CodePoint.utf8).take 9,
    ((@sentText .ascii pingStop).flatMap CodePoint.utf8).drop 9]

theorem pingStopChunks_flatten :
    pingStopChunks.flatten = (@sentText .ascii pingStop).flatMap CodePoint.utf8 := by
  simp [pingStopChunks]

theorem encode_pingStop : encode (@sentText .ascii pingStop) = some pingStopChunks.flatten := by
  rw [pingStopChunks_flatten, encode, if_pos (by decide +kernel)]

/-- `aiter_lines`. -/
def decodedLines (chunks : List PyBytes) : List PyStr :=
  strLines [] (decodeReplace chunks.flatten)

theorem decodedLines_eq (chunks : List PyBytes) (t : PyStr) (ht : encode t = some chunks.flatten) :
    decodedLines chunks = strLines [] t := by
  rw [decodedLines, Utf8.decodeReplace_encode ht]

theorem readers_agree_pingStop :
    @driveLines .ascii .new [] (decodedLines pingStopChunks)
      = @driveEvents .ascii .new (pingStop.map .obj) := by
  have hevents : @iterSseEvents .ascii pingStopChunks.flatten = .ok (pingStop.map .obj) := by
    unfold iterSseEvents
    rw [pingStopChunks_flatten, @splitFrames_sentText .ascii printsPlain_ascii]
    exact @readFrames_sentText .ascii printsPlain_ascii _ pingStop_loadable
  refine (@readers_agree .ascii _ decodedLines_eq _ _ encode_pingStop _ hevents).1 ⟨?_, ?_⟩
  · rw [pingStopChunks_flatten, @splitFrames_sentText .ascii printsPlain_ascii, List.forall_mem_map]
    intro f hf
    refine ⟨f, ?_, @readAlike_sentText .ascii printsPlain_ascii _ pingStop_loadable f hf⟩
    have hencodable : ∀ f ∈ pingStop.map (@sentFrame .ascii) ++ [[]], encodable f = true := by
      decide +kernel
    rw [encode, if_pos (hencodable f hf)]
  · exact @nothingHeldBack_sentText .ascii printsPlain_ascii pingStop _

/-- A thinking delta with a line separator, which JSON leaves as it is, in its text. -/
def separatorText : PyStr :=
  py "data: \x7b\"type\": \"content_block_start\", \"index\": 0, "
    ++ py "\"content_block\": \x7b\"type\": \"thinking\"\x7d\x7d\n\n"
    ++ py "data: \x7b\"type\": \"content_block_delta\", \"index\": 0, "
    ++ py "\"delta\": \x7b\"type\": \"thinking_delta\", \"thinking\": \"a"
    ++ Fin.ofNat _ 0x2028 :: py "b\"\x7d\x7d\n\n"

/-- One reader feeds both events, the other fails after the first. -/
theorem readers_differ : ¬ ∀ (chunks : List PyBytes) (t : PyStr) (events : List Json),
    encode t = some chunks.flatten → @iterSseEvents .ascii chunks.flatten = .ok events →
      @driveLines .ascii .new [] (strLines [] t) = @driveEvents .ascii .new events := by
  intro h
  have hencode : encode separatorText = some [separatorText.flatMap CodePoint.utf8].flatten := by
    rw [encode, if_pos (by decide +kernel), List.flatten_singleton]
  have hread : (@iterSseEvents .ascii [separatorText.flatMap CodePoint.utf8].flatten).toOption.map
      (fun events => (@driveEvents .ascii .new events).fed.length) = some 2 := by decide +kernel
  have hlines : (@driveLines .ascii .new [] (strLines [] separatorText)).fed.length = 1 := by
    decide +kernel
  cases hevents : @iterSseEvents .ascii [separatorText.flatMap CodePoint.utf8].flatten with
  | error e =>
      rw [hevents] at hread
      cases hread
  | ok events =>
      rw [hevents] at hread
      rw [h _ _ events hencode hevents] at hlines
      have htwo : (@driveEvents .ascii .new events).fed.length = 2 := Option.some.inj hread
      rw [htwo] at hlines
      cases hlines

section Frames

variable [PyRuntime]

section Lines

variable (aiterLines : List PyBytes → List PyStr)
    (hlines : ∀ chunks t, encode t = some chunks.flatten → aiterLines chunks = strLines [] t)

include hlines

/-- **A stream of written objects is read back by both readers**, however it is cut into chunks. -/
theorem written_objects_read (h : PrintsPlain) {objects : List Dict}
    (hload : ∀ object ∈ objects, Loadable object) {chunks : List PyBytes}
    (hchunks : encode (sentText objects) = some chunks.flatten) :
    iterSseEvents chunks.flatten = .ok (objects.map (fun object => (Json.obj object).reread)) ∧
      driveLines .new [] (aiterLines chunks)
        = driveEvents .new (objects.map (fun object => (Json.obj object).reread)) := by
  have hbytes := (Utf8.encode_eq_some hchunks).2
  have hread := readFrames_sentText h hload
  constructor
  · unfold iterSseEvents
    rw [← hbytes, splitFrames_sentText h, hread]
  · rw [hlines chunks _ hchunks]
    exact driveLines_of_alike (by simp) hread (readAlike_sentText h hload)
      (nothingHeldBack_sentText h _ _)

end Lines

end Frames

theorem written_pingStop_read :
    @iterSseEvents .ascii pingStopChunks.flatten = .ok (pingStop.map .obj) ∧
      @driveLines .ascii .new [] (decodedLines pingStopChunks)
        = @driveEvents .ascii .new (pingStop.map .obj) :=
  @written_objects_read .ascii _ decodedLines_eq printsPlain_ascii _ pingStop_loadable _
    encode_pingStop

section Frames

variable [PyRuntime]

/-! ## In the call -/

/-- The texts for the sink and the ending of a call in which no await fails. -/
def BrainCall.quiet (answer : Except (Exn PyExc) Response) :
    BrainCall → List PyStr × Except (Exn PyExc) Decision
  | .ret decision => ([], .ok decision)
  | .raise e => ([], .error e)
  | .request k => (k answer).quiet answer
  | .pause k => (k (.ok ⟨⟩)).quiet answer
  | .relay text k =>
      let r := (k (.ok ⟨⟩)).quiet answer
      (text :: r.1, r.2)

variable [Pydantic]

omit [PyRuntime] [Pydantic] in
theorem finish_quiet (answer : Except (Exn PyExc) Response) (r : Except PyExc Decision) :
    (finish r).quiet answer = ([], r.mapError .raised) := by
  cases r <;> rfl

/-- **The call relays what the reading sinks and parses what it returns.** -/
theorem quiet_driveStream (answer : Except (Exn PyExc) Response) (lines : List PyStr) :
    ∀ (asm : StreamAssembler) (dataBuf : List PyStr),
    (driveStream none asm dataBuf lines).quiet answer
      = ((driveLines asm dataBuf lines).sunk,
          ((driveLines asm dataBuf lines).returned.bind parseStreamed).mapError .raised) := by
  induction lines with
  | nil =>
      intro asm dataBuf
      unfold driveStream driveLines
      simp only [BrainCall.quiet]
      -- the end of the lines: an open frame is fed, then the message is assembled
      cases dataBuf with
      | nil =>
          simp only [assembleEnd]
          cases dumpsBytes asm.assembled with
          | error e => rfl
          | ok raw => exact finish_quiet answer _
      | cons text texts =>
          simp only [assembleEnd, feedFrame]
          cases Json.loads (text :: texts).flatten with
          | error e => rfl
          | ok event =>
              simp only
              cases asm.feed event with
              | error e => rfl
              | ok r =>
                  simp only [bind, Except.bind]
                  cases dumpsBytes r.2.assembled with
                  | error e => rfl
                  | ok raw => exact finish_quiet answer _
  | cons line lines ih =>
      intro asm dataBuf
      unfold driveStream driveLines
      simp only [BrainCall.quiet]
      cases afterPrefix (py "data:") line with
      -- a data line is kept until its frame is closed
      | some rest => exact ih asm _
      | none =>
          by_cases hblank : strip PyRuntime.isSpace line = []
          · simp only [if_pos hblank]
            cases dataBuf with
            | nil => exact ih asm []
            | cons text texts =>
                simp only [feedFrame]
                cases Json.loads (text :: texts).flatten with
                | error e => rfl
                | ok event =>
                    simp only
                    cases asm.feed event with
                    | error e => rfl
                    | ok r =>
                        obtain ⟨relayed, asm'⟩ := r
                        simp only
                        cases htext : relayed.getD [] with
                        | nil => simp only [ih, sunkText, htext, List.nil_append]
                        | cons c cs =>
                            simp only [BrainCall.quiet, ih, sunkText, htext, List.cons_append,
                              List.nil_append]
          · simp only [if_neg hblank]
            exact ih asm dataBuf

section Lines

variable (aiterLines : List PyBytes → List PyStr)
    (hlines : ∀ chunks t, encode t = some chunks.flatten → aiterLines chunks = strLines [] t)

include hlines

/-- **A call with a stream whose frames are read alike** relays the texts of the events, and returns
    what is parsed of the message they are assembled to. -/
theorem driveStream_agrees (answer : Except (Exn PyExc) Response) {chunks : List PyBytes}
    {t : PyStr} (ht : encode t = some chunks.flatten) {events : List Json}
    (hevents : iterSseEvents chunks.flatten = .ok events)
    (halike : ∀ frame ∈ splitFrames [] chunks.flatten, ∃ f, encode f = some frame ∧ ReadAlike f)
    (hheld : NothingHeldBack t events) :
    (driveStream none .new [] (aiterLines chunks)).quiet answer
      = ((driveEvents .new events).sunk,
          ((driveEvents .new events).returned.bind parseStreamed).mapError .raised) := by
  obtain ⟨fs, hne, hbytes, rfl, hencode⟩ := encode_frames ht
  unfold iterSseEvents at hevents
  rw [← hbytes] at hevents
  rw [quiet_driveStream, hlines chunks _ ht, driveLines_of_alike hne hevents
    ((forall_readAlike_iff hbytes hencode).1 halike) hheld]

end Lines

end Frames

end RexHunter
