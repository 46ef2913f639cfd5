import RexHunter.Proofs.LiveFeed

set_option autoImplicit false

/-! # What a stream yields

A generator yields the rows of its catch-up, then the strict running maxima of the ids it drains
from its queue. It drains only what the hub was offered, and the hub is offered only committed rows,
so whatever the order of the publishes no frame is invented, repeated or out of order
(`stream_yields`). -/

namespace RexHunter

open RunningMax (keys splice maxima)

variable {W : Type}

/-! ## Where a generator's envelopes come from -/

/-- The generator has drained, and still holds, only what the hub was offered; what it has yielded
    are catch-up rows, all of them as soon as it has drained something, and then what its splice let
    through. -/
structure Sourced (st : Feed W) (v : ViewerId) (s : StreamEvents) : Prop where
  taken : ∀ env ∈ s.taken, env ∈ st.offered
  queue : ∀ env ∈ st.hub.queues v, env ∈ st.offered
  yielded : ∃ rest, (rest ≠ [] → s.taken = []) ∧
    s.yielded ++ rest = s.rows ++ splice Envelope.id s.mark s.taken

/-- Every generator is sourced. -/
def AllSourced (st : Feed W) : Prop := ∀ v s, st.streams v = some s → Sourced st v s

/-- A generator the step leaves alone. -/
theorem Sourced.transfer {st st' : Feed W} {v : ViewerId} {s : StreamEvents} (h : Sourced st v s)
    (hoff : ∀ env ∈ st.offered, env ∈ st'.offered)
    (hqueue : ∀ env ∈ st'.hub.queues v, env ∈ st.hub.queues v ∨ env ∈ st'.offered) :
    Sourced st' v s where
  taken := fun env henv => hoff env (h.taken env henv)
  queue := fun env henv => (hqueue env henv).elim (fun hold => hoff env (h.queue env hold)) id
  yielded := h.yielded

theorem Sourced.offer {st : Feed W} {v : ViewerId} {s : StreamEvents} (h : Sourced st v s)
    (env : Envelope) : Sourced (st.offer env) v s := by
  refine h.transfer (fun e he => List.mem_append_left _ he) (fun e he => ?_)
  by_cases hv : v ∈ (st.hub.offer env).viewers
  · have hqueue : (st.offer env).hub.queues v = st.hub.queues v ++ [env] := Hub.offer_queue _ _ hv
    rw [hqueue] at he
    exact (List.mem_append.1 he).imp_right (fun hnew => List.mem_append_right _ hnew)
  · have hqueue : (st.offer env).hub.queues v = st.hub.queues v :=
      Hub.offer_queue_of_not_mem _ _ hv
    rw [hqueue] at he
    exact Or.inl he

/-- A frame changes, and neither the offers nor the queues. -/
theorem AllSourced.setStream {st : Feed W} (h : AllSourced st) {v : ViewerId} {s' : StreamEvents}
    (hself : Sourced st v s') : AllSourced (st.setStream v s') := by
  intro u s hs
  have hkeep : ∀ r, Sourced st u r → Sourced (st.setStream v s') u r :=
    fun r hr => hr.transfer (fun _ he => he) (fun _ he => Or.inl he)
  by_cases hu : u = v
  · subst hu
    have hframe : (st.setStream u s').streams u = some s' := Function.update_self ..
    rw [hframe, Option.some.injEq] at hs
    exact hkeep s (hs ▸ hself)
  · have hframe : (st.setStream v s').streams u = st.streams u := Function.update_of_ne hu ..
    rw [hframe] at hs
    exact hkeep s (h u s hs)

theorem AllSourced.finish {st : Feed W} (h : AllSourced st) {v : ViewerId} {s : StreamEvents}
    (hs : st.streams v = some s) : AllSourced (st.finish v s) := by
  have hself := h v s hs
  have hended : Sourced st v { s with phase := .ended } :=
    ⟨hself.taken, hself.queue, hself.yielded⟩
  have hset := h.setStream hended
  exact fun u r hr => ⟨(hset u r hr).taken, (hset u r hr).queue, (hset u r hr).yielded⟩

theorem AllSourced.connect {st : Feed W} (h : AllSourced st) (lastSeen : Nat) :
    AllSourced { st with
      hub := st.hub.register.2
      streams := Function.update st.streams st.hub.register.1
        (some (StreamEvents.start lastSeen st.offered.length)) } := by
  intro u s hs
  by_cases hu : u = st.hub.ids
  · subst hu
    have hframe := Function.update_self (β := fun _ => Option StreamEvents) st.hub.ids
      (some (StreamEvents.start lastSeen st.offered.length)) st.streams
    dsimp only at hs
    rw [Hub.register_fst, hframe, Option.some.injEq] at hs
    subst hs
    refine ⟨fun env henv => absurd henv (List.not_mem_nil), fun env henv => ?_, [], by simp, rfl⟩
    dsimp only at henv
    rw [Hub.register_queue, if_pos rfl] at henv
    exact absurd henv (List.not_mem_nil)
  · dsimp only at hs
    rw [Hub.register_fst, Function.update_of_ne hu] at hs
    refine (h u s hs).transfer (fun _ he => he) (fun env henv => Or.inl ?_)
    dsimp only at henv
    rwa [Hub.register_queue, if_neg hu] at henv

theorem AllSourced.boot {st : Feed W} (h : st.Boot) : AllSourced st := by
  intro v s hs
  rw [h.streams v] at hs
  cases hs

theorem AllSourced.step [DecidableEq W] {st st' : Feed W} {a : FeedAction W} (h : AllSourced st)
    (hinv : FeedInv st) (hstep : st.step a = some st') : AllSourced st' := by
  cases a with
  | commit w row =>
      obtain ⟨_, _, rfl⟩ := Feed.step_commit hstep
      exact fun v s hs => (h v s hs).transfer (fun _ he => he) (fun _ he => Or.inl he)
  | publish w =>
      obtain ⟨row, _, rfl⟩ := Feed.step_publish hstep
      intro v s hs
      have hoffered := (h v s hs).offer row.envelope
      exact ⟨hoffered.taken, hoffered.queue, hoffered.yielded⟩
  | abandon w =>
      obtain rfl := (Option.some.inj hstep).symm
      exact fun v s hs => (h v s hs).transfer (fun _ he => he) (fun _ he => Or.inl he)
  | notify payload =>
      obtain rfl := (Option.some.inj hstep).symm
      exact fun v s hs => (h v s hs).offer _
  | beat =>
      obtain rfl := (Option.some.inj hstep).symm
      exact fun v s hs => (h v s hs).offer _
  | connect lastSeen =>
      obtain rfl := (Option.some.inj hstep).symm
      exact h.connect lastSeen
  | select v =>
      obtain ⟨s, hs, hp, rfl⟩ := Feed.step_select hstep
      obtain ⟨hyielded, _, htaken⟩ := (hinv.streams v s hs).fresh hp
      refine h.setStream ⟨(h v s hs).taken, (h v s hs).queue, catchUp st.log s.lastSeen,
        fun _ => htaken, ?_⟩
      simp [StreamEvents.select, hyielded, htaken, splice]
  | yieldRow v =>
      obtain ⟨s, env, rest, hs, hp, rfl⟩ := Feed.step_yieldRow hstep
      refine h.setStream ⟨(h v s hs).taken, (h v s hs).queue, rest, fun _ => ?_, ?_⟩
      · exact (hinv.streams v s hs).backfill env rest hp
      · show (s.yielded ++ [env]) ++ rest = s.rows ++ splice Envelope.id s.mark s.taken
        rw [← (hinv.streams v s hs).split _ hp]
        simp
  | take v =>
      have hinv' := hinv.step hstep
      obtain ⟨s, env, rest, hs, hp, hqueue, rfl⟩ := Feed.step_take hstep
      have hoffered : env ∈ st.offered := (h v s hs).queue env (by rw [hqueue]; simp)
      have hstream := hinv'.streams v (s.receive env) (Function.update_self ..)
      obtain ⟨_, _, htaken, _, hphase, _, _⟩ := receive_yielded s env
      intro u r hr
      by_cases hu : u = v
      · subst hu
        have hframe := Function.update_self (β := fun _ => Option StreamEvents) u
          (some (s.receive env)) st.streams
        dsimp only [Feed.setStream] at hr
        rw [hframe, Option.some.injEq] at hr
        subst hr
        refine ⟨fun e he => ?_, fun e he => ?_, [], by simp, ?_⟩
        · rw [htaken] at he
          rcases List.mem_append.1 he with he | he
          · exact (h u s hs).taken e he
          · rw [List.mem_singleton.1 he]
            exact hoffered
        · dsimp only at he
          rw [Function.update_self] at he
          exact (h u s hs).queue e (by rw [hqueue]; exact List.mem_cons_of_mem _ he)
        · exact hstream.split [] (hphase.trans hp)
      · dsimp only [Feed.setStream] at hr
        rw [Function.update_of_ne hu] at hr
        refine (h u r hr).transfer (fun _ he => he) (fun e he => Or.inl ?_)
        dsimp only at he
        rwa [Function.update_of_ne hu] at he
  | timeout v =>
      obtain ⟨s, hs, _, _, ⟨_, rfl⟩ | ⟨_, rfl⟩⟩ := Feed.step_timeout hstep
      · exact h
      · exact h.finish hs
  | close v =>
      obtain ⟨s, hs, _, rfl⟩ := Feed.step_close hstep
      exact h.finish hs

theorem sourced_reachable [DecidableEq W] {st : Feed W} (h : (feed W).Reachable st) :
    AllSourced st := by
  have hboth : FeedInv st ∧ AllSourced st :=
    (feed W).invariant (P := fun st => FeedInv st ∧ AllSourced st)
      (fun _ hboot => ⟨FeedInv.boot hboot, AllSourced.boot hboot⟩)
      (fun _ _ _ hinv hstep => ⟨hinv.1.step hstep, hinv.2.step hinv.1 hstep⟩) st h
  exact hboth.2

/-! ## The frames of a session -/

/-- The frames a session has yielded: the ids that carry one strictly increase from above the
    cursor, and each is a committed row with its stored payload. They are catch-up rows — all of
    them as soon as anything has been drained — and then the strict running maxima, above the
    catch-up's mark, of the ids drained from the queue. -/
structure Yields (st : Feed W) (s : StreamEvents) : Prop where
  increasing : (keys Envelope.id s.yielded).Pairwise (· < ·)
  fresh : ∀ i ∈ keys Envelope.id s.yielded, s.lastSeen < i
  committed : ∀ env ∈ s.yielded, ∀ i, env.id = some i → (⟨i, env.data⟩ : FeedRow) ∈ st.log
  precise : ∃ rest, (rest ≠ [] → s.taken = []) ∧
    keys Envelope.id s.yielded ++ rest
      = keys Envelope.id s.rows ++ maxima s.mark (keys Envelope.id s.taken)

/-- **The stream never invents, repeats or reorders**, in any state any interleaving reaches. A
    frame is a committed row when it is yielded: yielding one leaves the log alone. -/
theorem stream_yields [DecidableEq W] {st : Feed W} {v : ViewerId} {s : StreamEvents}
    (h : (feed W).Reachable st) (hs : st.streams v = some s) : Yields st s := by
  have hinv := feedInv_reachable h
  have hstream := hinv.streams v s hs
  have hsourced := sourced_reachable h v s hs
  have hfresh : ∀ i ∈ keys Envelope.id (s.rows ++ splice Envelope.id s.mark s.taken),
      s.lastSeen < i := by
    intro i hi
    rw [RunningMax.keys_append, List.mem_append] at hi
    rcases hi with hi | hi
    · obtain ⟨env, henv, hid⟩ := RunningMax.mem_keys.1 hi
      obtain ⟨r, _, hlt, rfl⟩ := hstream.rowsLog env henv
      obtain rfl := Option.some.inj hid
      exact hlt
    · have habove := (RunningMax.keys_splice_increasing s.taken s.mark).2 i hi
      exact Nat.lt_of_le_of_lt (RunningMax.le_mark s.rows _) habove
  refine ⟨hstream.yielded_increasing, fun i hi => ?_, fun env henv i hid => ?_, ?_⟩
  · exact hfresh i ((hstream.sent.sublist.filterMap _).subset hi)
  · rcases List.mem_append.1 (hstream.sent.subset henv) with hrow | hspliced
    · obtain ⟨r, hr, _, rfl⟩ := hstream.rowsLog env hrow
      obtain rfl := Option.some.inj hid
      exact hr
    · have htaken := (RunningMax.splice_sublist s.taken s.mark).subset hspliced
      exact (hinv.log.offeredLog env (hsourced.taken env htaken) i hid).2
  · obtain ⟨rest, hrest, hsplit⟩ := hsourced.yielded
    refine ⟨keys Envelope.id rest, fun hne => hrest (fun hnil => hne (by rw [hnil]; rfl)), ?_⟩
    rw [← RunningMax.keys_append, hsplit, RunningMax.keys_append, RunningMax.keys_splice]

/-- The viewer of the overtaken run yields row 2 alone, the one running maximum of what it drained. -/
theorem overtaken_run_yields : ∃ st s, (feed Bool).run (Feed.empty Bool 256) overtakenRun = some st ∧
    st.streams 0 = some s ∧ Yields st s :=
  ⟨_, _, rfl, rfl,
    stream_yields (v := 0) ⟨_, overtakenRun, Feed.empty_boot Bool 256, rfl⟩ rfl⟩

end RexHunter
