import RexHunter.Proofs.Feed

set_option autoImplicit false

/-! # No gap in the live feed

A writer commits its row and only later, in a separate step, publishes it, so publishes can reach
the hub out of commit order. `stream_events` drops every id at or below its high-water mark: a row
published after a later row has been spliced is lost to that viewer. The file proves that this is
the only way to lose a row, and that it always loses one (`noGap_iff_published_in_order`). -/

namespace RexHunter

open RunningMax (keys splice above)

variable {W : Type}

/-- The ids the hub has offered to this viewer beyond those its catch-up covered. -/
def StreamEvents.spliced (st : Feed W) (s : StreamEvents) : List Nat :=
  above Envelope.id s.mark (st.offered.drop s.since)

/-- The viewer's stream has reached its live loop, was never dropped, and its queue is drained. -/
structure CaughtUp (st : Feed W) (v : ViewerId) (s : StreamEvents) : Prop where
  stream : st.streams v = some s
  member : v ∈ st.hub.viewers
  live : s.phase = .streaming []
  drained : st.hub.queues v = []

/-- Every row above the cursor whose writer has completed its publish was yielded exactly once. -/
def NoGap (st : Feed W) (s : StreamEvents) : Prop :=
  ∀ r ∈ st.log, r.id ∈ st.published → s.lastSeen < r.id →
    s.yielded.filter (fun env => decide (env.id = some r.id)) = [r.envelope]

/-- The condition on one step, for one viewer: once the viewer's catch-up SELECT has run, a row it
    did not return is published only if no row with a larger id was published to it before. -/
def PublishInOrder (v : ViewerId) (st : Feed W) : FeedAction W → Prop
  | .publish w => ∀ row s, st.pending w = some row → st.streams v = some s →
      s.phase ≠ .connecting → row.id ≤ s.mark ∨ ∀ j ∈ s.spliced st, j < row.id
  | _ => True

/-! ## What a generator has yielded -/

/-- The ids a stream has yielded strictly increase, from above its cursor. -/
theorem StreamInv.yielded_increasing {st : Feed W} {v : ViewerId} {s : StreamEvents}
    (h : StreamInv st v s) : (keys Envelope.id s.yielded).Pairwise (· < ·) := by
  have hall : (keys Envelope.id (s.rows ++ splice Envelope.id s.mark s.taken)).Pairwise (· < ·) := by
    rw [RunningMax.keys_append]
    refine List.pairwise_append.2 ⟨h.rowsSorted, (RunningMax.keys_splice_increasing _ _).1, ?_⟩
    intro i hi j hj
    exact Nat.lt_of_le_of_lt (RunningMax.key_le_mark s.lastSeen hi)
      ((RunningMax.keys_splice_increasing _ _).2 j hj)
  exact hall.sublist (h.sent.sublist.filterMap _)

/-- Everything a stream was ever offered or selected is a row of the log. -/
theorem FeedInv.yielded_row {st : Feed W} {v : ViewerId} {s : StreamEvents} (h : FeedInv st)
    (hs : StreamInv st v s) (htaken : s.taken = st.offered.drop s.since) {env : Envelope}
    (henv : env ∈ s.yielded) {r : FeedRow} (hr : r ∈ st.log) (hid : env.id = some r.id) :
    env = r.envelope := by
  rcases List.mem_append.1 (hs.sent.subset henv) with hrow | hadm
  · obtain ⟨r', hr', _, rfl⟩ := hs.rowsLog env hrow
    rw [FeedRow.envelope, Option.some.injEq] at hid
    rw [Table.eq_of_key_eq h.log.sorted hr' hr hid]
  · have hoff : env ∈ st.offered := by
      have hmem := (RunningMax.splice_sublist _ _).subset hadm
      rw [htaken] at hmem
      exact List.mem_of_mem_drop hmem
    have hlog := (h.log.offeredLog env hoff r.id hid).2
    have heq := Table.eq_of_key_eq h.log.sorted hlog hr rfl
    cases env
    simp only [FeedRow.envelope] at hid ⊢
    rw [hid, ← heq]

/-- **A caught-up stream has no gap exactly when what it spliced arrived in id order.** -/
theorem noGap_iff_spliced_increasing {st : Feed W} {v : ViewerId} {s : StreamEvents}
    (h : FeedInv st) (hup : CaughtUp st v s) : NoGap st s ↔ (s.spliced st).Pairwise (· < ·) := by
  have hs := h.streams v s hup.stream
  have htaken : s.taken = st.offered.drop s.since := by
    have hq := hs.queue hup.member
    rwa [hup.drained, List.append_nil] at hq
  have hyield : s.yielded = s.rows ++ splice Envelope.id s.mark s.taken := by
    simpa using hs.split [] hup.live
  have hkeys : keys Envelope.id s.yielded
      = keys Envelope.id s.rows ++ keys Envelope.id (splice Envelope.id s.mark s.taken) := by
    rw [hyield, RunningMax.keys_append]
  have hnodup : (keys Envelope.id s.taken).Nodup := by
    rw [htaken]
    exact h.log.offeredNodup.sublist ((List.drop_sublist _ _).filterMap _)
  have hmem : (s.spliced st).Pairwise (· < ·) ↔
      ∀ i ∈ keys Envelope.id s.taken, s.mark < i →
        i ∈ keys Envelope.id (splice Envelope.id s.mark s.taken) := by
    rw [StreamEvents.spliced, ← htaken]
    exact (RunningMax.mem_keys_splice_iff s.taken s.mark hnodup).symm
  rw [hmem]
  constructor
  · intro hgap i hi hmark
    -- the row was offered, so it is published and in the log: it must have been yielded
    obtain ⟨env, henv, hid⟩ := RunningMax.mem_keys.1 hi
    have hoff : env ∈ st.offered := List.mem_of_mem_drop (htaken ▸ henv)
    obtain ⟨hpub, hlog⟩ := h.log.offeredLog env hoff i hid
    have hcursor : s.lastSeen < i := Nat.lt_of_le_of_lt (RunningMax.le_mark s.rows _) hmark
    have hone := hgap ⟨i, env.data⟩ hlog hpub hcursor
    have hin : i ∈ keys Envelope.id s.yielded := by
      refine RunningMax.mem_keys.2 ⟨(⟨i, env.data⟩ : FeedRow).envelope, ?_, rfl⟩
      have hself := List.mem_singleton_self (⟨i, env.data⟩ : FeedRow).envelope
      rw [← hone] at hself
      exact List.mem_of_mem_filter hself
    rw [hkeys, List.mem_append] at hin
    refine hin.resolve_left (fun hrow => ?_)
    exact absurd (RunningMax.key_le_mark s.lastSeen hrow) (Nat.not_le_of_lt hmark)
  · intro hsplice r hr hpub hcursor
    have hin : r.id ∈ keys Envelope.id s.yielded := by
      rw [hkeys, List.mem_append]
      have hrow : r.envelope ∈ s.rows → r.id ∈ keys Envelope.id s.rows := fun hrow =>
        RunningMax.mem_keys.2 ⟨_, hrow, rfl⟩
      rcases hs.covers [] hup.live r hr hcursor with hsel | hmark
      · exact Or.inl (hrow hsel)
      · rcases hs.heard [] hup.live r.id hpub hcursor with hsel | hoff
        · exact Or.inl hsel
        · exact Or.inr (hsplice r.id (htaken ▸ hoff) hmark)
    obtain ⟨env, henv, hid⟩ := RunningMax.mem_keys.1 hin
    have heq := h.yielded_row hs htaken henv hr hid
    have hdistinct : (keys Envelope.id s.yielded).Nodup :=
      hs.yielded_increasing.imp (fun hab => Nat.ne_of_lt hab)
    exact heq ▸ RunningMax.filter_key_eq_singleton hdistinct henv hid

/-! ## Publish order along a run

The condition of one step speaks of the state before it; along a run the conditions of all steps
add up to one fact about the state at the end, that the spliced ids increase. -/

theorem setStream_cases {st : Feed W} {v u : ViewerId} {s₀ s' : StreamEvents}
    (h : Function.update st.streams v (some s₀) u = some s') :
    u = v ∧ s' = s₀ ∨ u ≠ v ∧ st.streams u = some s' := by
  by_cases hu : u = v
  · subst hu
    rw [Function.update_self, Option.some.injEq] at h
    exact Or.inl ⟨rfl, h.symm⟩
  · exact Or.inr ⟨hu, by rwa [Function.update_of_ne hu] at h⟩

/-- Right after the catch-up SELECT nothing offered so far is beyond it. -/
theorem spliced_select {st : Feed W} (h : FeedInv st) {s : StreamEvents} :
    above Envelope.id (s.select st.log).mark (st.offered.drop s.since) = [] := by
  refine List.filter_eq_nil_iff.2 (fun i hi hgt => ?_)
  have hgt : (s.select st.log).mark < i := of_decide_eq_true hgt
  obtain ⟨env, henv, hid⟩ := RunningMax.mem_keys.1 hi
  have hlog := (h.log.offeredLog env (List.mem_of_mem_drop henv) i hid).2
  have hcursor : s.lastSeen < i := Nat.lt_of_le_of_lt (RunningMax.le_mark _ _) hgt
  have hrow : i ∈ keys Envelope.id (s.select st.log).rows :=
    RunningMax.mem_keys.2 ⟨_, mem_catchUp.2 ⟨_, hlog, hcursor, rfl⟩, rfl⟩
  exact absurd (RunningMax.key_le_mark s.lastSeen hrow) (Nat.not_le_of_lt hgt)

section Runs

variable [DecidableEq W]

/-- What a step hands to the hub: a pending row, or nothing that carries an id. -/
theorem Feed.step_offered {st st' : Feed W} {a : FeedAction W} (h : st.step a = some st') :
    (∃ w row, a = .publish w ∧ st.pending w = some row ∧
      st'.offered = st.offered ++ [row.envelope]) ∨
    ((∀ v, PublishInOrder v st a) ∧
      ∃ tail, st'.offered = st.offered ++ tail ∧ keys Envelope.id tail = []) := by
  have still : st'.offered = st.offered →
      ∃ tail, st'.offered = st.offered ++ tail ∧ keys Envelope.id tail = [] :=
    fun he => ⟨[], by rw [he, List.append_nil], rfl⟩
  cases a with
  | publish w =>
      obtain ⟨row, hrow, rfl⟩ := Feed.step_publish h
      exact Or.inl ⟨w, row, rfl, hrow, rfl⟩
  | commit w row =>
      obtain ⟨_, _, rfl⟩ := Feed.step_commit h
      exact Or.inr ⟨fun _ => trivial, still rfl⟩
  | abandon w =>
      obtain rfl := (Option.some.inj h).symm
      exact Or.inr ⟨fun _ => trivial, still rfl⟩
  | notify payload =>
      obtain rfl := (Option.some.inj h).symm
      exact Or.inr ⟨fun _ => trivial, [⟨none, payload⟩], rfl, rfl⟩
  | beat =>
      obtain rfl := (Option.some.inj h).symm
      exact Or.inr ⟨fun _ => trivial, [⟨none, []⟩], rfl, rfl⟩
  | connect lastSeen =>
      obtain rfl := (Option.some.inj h).symm
      exact Or.inr ⟨fun _ => trivial, still rfl⟩
  | select v =>
      obtain ⟨s, _, _, rfl⟩ := Feed.step_select h
      exact Or.inr ⟨fun _ => trivial, still rfl⟩
  | yieldRow v =>
      obtain ⟨s, env, rest, _, _, rfl⟩ := Feed.step_yieldRow h
      exact Or.inr ⟨fun _ => trivial, still rfl⟩
  | take v =>
      obtain ⟨s, env, rest, _, _, _, rfl⟩ := Feed.step_take h
      exact Or.inr ⟨fun _ => trivial, still rfl⟩
  | timeout v =>
      obtain ⟨s, _, _, _, ⟨_, rfl⟩ | ⟨_, rfl⟩⟩ := Feed.step_timeout h
      · exact Or.inr ⟨fun _ => trivial, still rfl⟩
      · exact Or.inr ⟨fun _ => trivial, still rfl⟩
  | close v =>
      obtain ⟨s, _, _, rfl⟩ := Feed.step_close h
      exact Or.inr ⟨fun _ => trivial, still rfl⟩

/-- The cursor, the catch-up rows and the registration point: what `spliced` is computed from. -/
def StreamEvents.SameStart (s s' : StreamEvents) : Prop :=
  s'.lastSeen = s.lastSeen ∧ s'.rows = s.rows ∧ s'.since = s.since ∧
    (s'.phase = .connecting ↔ s.phase = .connecting)

/-- How a registered viewer's generator came to be what it is after a step. -/
theorem Feed.step_stream {st st' : Feed W} {a : FeedAction W} (h : st.step a = some st')
    {v : ViewerId} {s' : StreamEvents} (hs' : st'.streams v = some s')
    (hmem : v ∈ st'.hub.viewers) :
    (s'.phase = .connecting ∧ v = st.hub.ids) ∨
    ∃ s, st.streams v = some s ∧ v ∈ st.hub.viewers ∧
      ((s.phase = .connecting ∧ s' = s.select st.log ∧ st'.offered = st.offered) ∨
        s.SameStart s') := by
  have same : ∀ s : StreamEvents, s.SameStart s := fun s => ⟨rfl, rfl, rfl, Iff.rfl⟩
  cases a with
  | commit w row =>
      obtain ⟨_, _, rfl⟩ := Feed.step_commit h
      exact Or.inr ⟨s', hs', hmem, Or.inr (same s')⟩
  | publish w =>
      obtain ⟨row, _, rfl⟩ := Feed.step_publish h
      exact Or.inr ⟨s', hs', ((Hub.mem_offer _ _ _).1 hmem).1, Or.inr (same s')⟩
  | abandon w =>
      obtain rfl := (Option.some.inj h).symm
      exact Or.inr ⟨s', hs', hmem, Or.inr (same s')⟩
  | notify payload =>
      obtain rfl := (Option.some.inj h).symm
      exact Or.inr ⟨s', hs', ((Hub.mem_offer _ _ _).1 hmem).1, Or.inr (same s')⟩
  | beat =>
      obtain rfl := (Option.some.inj h).symm
      exact Or.inr ⟨s', hs', ((Hub.mem_offer _ _ _).1 hmem).1, Or.inr (same s')⟩
  | connect lastSeen =>
      obtain rfl := (Option.some.inj h).symm
      rcases setStream_cases hs' with ⟨hv, rfl⟩ | ⟨hv, hs⟩
      · exact Or.inl ⟨rfl, hv⟩
      · exact Or.inr ⟨s', hs, ((Hub.mem_register _ _).1 hmem).resolve_right hv, Or.inr (same s')⟩
  | select u =>
      obtain ⟨s, hs, hp, rfl⟩ := Feed.step_select h
      rcases setStream_cases hs' with ⟨rfl, rfl⟩ | ⟨_, hold⟩
      · exact Or.inr ⟨s, hs, hmem, Or.inl ⟨hp, rfl, rfl⟩⟩
      · exact Or.inr ⟨s', hold, hmem, Or.inr (same s')⟩
  | yieldRow u =>
      obtain ⟨s, env, rest, hs, hp, rfl⟩ := Feed.step_yieldRow h
      rcases setStream_cases hs' with ⟨rfl, rfl⟩ | ⟨_, hold⟩
      · exact Or.inr ⟨s, hs, hmem, Or.inr ⟨rfl, rfl, rfl, by simp [StreamEvents.yieldRow, hp]⟩⟩
      · exact Or.inr ⟨s', hold, hmem, Or.inr (same s')⟩
  | take u =>
      obtain ⟨s, env, rest, hs, _, _, rfl⟩ := Feed.step_take h
      rcases setStream_cases hs' with ⟨rfl, rfl⟩ | ⟨_, hold⟩
      · obtain ⟨_, _, _, hrows, hphase, hlast, hsince⟩ := receive_yielded s env
        exact Or.inr ⟨s, hs, hmem, Or.inr ⟨hlast, hrows, hsince, by rw [hphase]⟩⟩
      · exact Or.inr ⟨s', hold, hmem, Or.inr (same s')⟩
  | timeout u =>
      obtain ⟨s, hs, _, _, ⟨_, rfl⟩ | ⟨_, rfl⟩⟩ := Feed.step_timeout h
      · exact Or.inr ⟨s', hs', hmem, Or.inr (same s')⟩
      · obtain ⟨hmem', hne⟩ := (Hub.mem_deregister _ _ _).1 hmem
        rcases setStream_cases hs' with ⟨he, _⟩ | ⟨_, hold⟩
        · exact absurd he hne
        · exact Or.inr ⟨s', hold, hmem', Or.inr (same s')⟩
  | close u =>
      obtain ⟨s, hs, _, rfl⟩ := Feed.step_close h
      obtain ⟨hmem', hne⟩ := (Hub.mem_deregister _ _ _).1 hmem
      rcases setStream_cases hs' with ⟨he, _⟩ | ⟨_, hold⟩
      · exact absurd he hne
      · exact Or.inr ⟨s', hold, hmem', Or.inr (same s')⟩

/-- A viewer that does not exist yet has had no step to go wrong. -/
theorem meets_of_no_stream {st₀ : Feed W} (h₀ : st₀.Boot) (v : ViewerId) :
    ∀ as st, (feed W).run st₀ as = some st → st.hub.ids ≤ v →
      (feed W).Meets (PublishInOrder v) st₀ as := by
  refine (feed W).run_induction (fun _ => trivial) ?_
  intro as st a st' hrun ih hstep hids
  have hinv := feedInv_reachable ⟨st₀, as, h₀, hrun⟩
  have hmono : st.hub.ids ≤ st'.hub.ids := by
    cases a with
    | connect lastSeen => obtain rfl := (Option.some.inj hstep).symm; exact Nat.le_succ _
    | commit w row => obtain ⟨_, _, rfl⟩ := Feed.step_commit hstep; exact Nat.le_refl _
    | publish w => obtain ⟨row, _, rfl⟩ := Feed.step_publish hstep; simp [Feed.offer]
    | abandon w => obtain rfl := (Option.some.inj hstep).symm; exact Nat.le_refl _
    | notify payload => obtain rfl := (Option.some.inj hstep).symm; simp [Feed.offer]
    | beat => obtain rfl := (Option.some.inj hstep).symm; simp [Feed.offer]
    | select u => obtain ⟨_, _, _, rfl⟩ := Feed.step_select hstep; exact Nat.le_refl _
    | yieldRow u => obtain ⟨_, _, _, _, _, rfl⟩ := Feed.step_yieldRow hstep; exact Nat.le_refl _
    | take u => obtain ⟨_, _, _, _, _, _, rfl⟩ := Feed.step_take hstep; exact Nat.le_refl _
    | timeout u =>
        obtain ⟨_, _, _, _, ⟨_, rfl⟩ | ⟨_, rfl⟩⟩ := Feed.step_timeout hstep <;> exact Nat.le_refl _
    | close u => obtain ⟨_, _, _, rfl⟩ := Feed.step_close hstep; exact Nat.le_refl _
  refine ((feed W).meets_snoc hrun a).2 ⟨ih (Nat.le_trans hmono hids), ?_⟩
  have hnone : ∀ s, st.streams v ≠ some s := fun s hs =>
    absurd (hinv.streams v s hs).issued (Nat.not_lt_of_le (Nat.le_trans hmono hids))
  cases a with
  | publish w => exact fun row s _ hs _ => absurd hs (hnone s)
  | _ => trivial

/-- **The conditions of all steps add up to: the spliced ids increase.** -/
theorem meets_iff_spliced_increasing {st₀ : Feed W} (h₀ : st₀.Boot) (v : ViewerId) :
    ∀ as st, (feed W).run st₀ as = some st → ∀ s, st.streams v = some s → v ∈ st.hub.viewers →
      (s.phase = .connecting → (feed W).Meets (PublishInOrder v) st₀ as) ∧
      (s.phase ≠ .connecting →
        ((feed W).Meets (PublishInOrder v) st₀ as ↔ (s.spliced st).Pairwise (· < ·))) := by
  refine (feed W).run_induction ?_ ?_
  · intro s hs _
    rw [h₀.streams v] at hs
    exact absurd hs (by simp)
  intro as st a st' hrun ih hstep s' hs' hmem
  have hinv := feedInv_reachable ⟨st₀, as, h₀, hrun⟩
  rw [(feed W).meets_snoc hrun a]
  rcases Feed.step_stream hstep hs' hmem with ⟨hnew, hv⟩ | ⟨s, hs, hmem₀, hcase⟩
  · -- the viewer has just registered
    have hmeets := meets_of_no_stream h₀ v as st hrun (Nat.le_of_eq hv.symm)
    have hcond : PublishInOrder v st a := by
      cases a with
      | publish w =>
          intro row s _ hs _
          exact absurd (hinv.streams v s hs).issued (by rw [hv]; exact Nat.lt_irrefl _)
      | _ => trivial
    exact ⟨fun _ => ⟨hmeets, hcond⟩, fun hne => absurd hnew hne⟩
  obtain ⟨ihc, ihs⟩ := ih s hs hmem₀
  rcases hcase with ⟨hconn, rfl, hoff⟩ | ⟨hlast, hrows, hsince, hphase⟩
  · -- the catch-up SELECT runs now
    have hcond : PublishInOrder v st a := by
      cases a with
      | publish w =>
          intro row s₁ _ hs₁ hne
          rw [hs, Option.some.injEq] at hs₁
          exact absurd (hs₁ ▸ hconn) hne
      | _ => trivial
    refine ⟨fun hc => absurd hc nofun, fun _ => ⟨fun _ => ?_, fun _ => ⟨ihc hconn, hcond⟩⟩⟩
    have hnil : StreamEvents.spliced st' (s.select st.log) = [] := by
      unfold StreamEvents.spliced
      rw [hoff]
      exact spliced_select hinv
    rw [hnil]
    exact List.Pairwise.nil
  -- the generator keeps its cursor, its rows and its registration point
  have hmark : s'.mark = s.mark := by simp only [StreamEvents.mark, hlast, hrows]
  have hsince_le := (hinv.streams v s hs).since_le
  rcases Feed.step_offered hstep with ⟨w, row, rfl, hrow, hoff⟩ | ⟨hcond, tail, hoff, htail⟩
  · have hsplice : s'.spliced st' = s.spliced st ++ above Envelope.id s.mark [row.envelope] := by
      unfold StreamEvents.spliced
      rw [hmark, hsince, hoff, List.drop_append_of_le_length hsince_le, RunningMax.above_append]
    have hcond : s.phase ≠ .connecting → (PublishInOrder v st (.publish w) ↔
        (row.id ≤ s.mark ∨ ∀ j ∈ s.spliced st, j < row.id)) := fun hne =>
      ⟨fun hc => hc row s hrow hs hne, fun hc row₁ s₁ hrow₁ hs₁ _ => by
        rw [hrow, Option.some.injEq] at hrow₁
        rw [hs, Option.some.injEq] at hs₁
        exact hrow₁ ▸ hs₁ ▸ hc⟩
    refine ⟨fun hc => ⟨ihc (hphase.1 hc), ?_⟩, fun hne => ?_⟩
    · intro row₁ s₁ _ hs₁ hne₁
      rw [hs, Option.some.injEq] at hs₁
      exact absurd (hs₁ ▸ hphase.1 hc) hne₁
    · have hne₀ : s.phase ≠ .connecting := fun hc => hne (hphase.2 hc)
      rw [ihs hne₀, hcond hne₀, hsplice, List.pairwise_append]
      by_cases hle : row.id ≤ s.mark
      · have hnil : above Envelope.id s.mark [row.envelope] = [] := by
          simp [above, RunningMax.keys, FeedRow.envelope, hle]
        simp [hnil, hle]
      · have hone : above Envelope.id s.mark [row.envelope] = [row.id] := by
          simp [above, RunningMax.keys, FeedRow.envelope, Nat.lt_of_not_le hle]
        simp [hone, hle]
  · have hsplice : s'.spliced st' = s.spliced st := by
      unfold StreamEvents.spliced
      rw [hmark, hsince, hoff, List.drop_append_of_le_length hsince_le, RunningMax.above_append]
      simp [above, htail]
    refine ⟨fun hc => ⟨ihc (hphase.1 hc), hcond v⟩, fun hne => ?_⟩
    rw [hsplice, ← ihs (fun hc => hne (hphase.2 hc))]
    exact ⟨And.left, fun hmeets => ⟨hmeets, hcond v⟩⟩

/-- **No gap, exactly when publishes reach the viewer in commit order.** In every run of any number
    of writers and viewers, a viewer that was never dropped and has drained its queue has been sent
    every published row above its cursor exactly once if and only if, at every publish of the run,
    no row with a larger id beyond its catch-up had been published to it before. -/
theorem noGap_iff_published_in_order {st₀ st : Feed W} (h₀ : st₀.Boot) {as : List (FeedAction W)}
    (hrun : (feed W).run st₀ as = some st) {v : ViewerId} {s : StreamEvents}
    (hup : CaughtUp st v s) : NoGap st s ↔ (feed W).Meets (PublishInOrder v) st₀ as := by
  have hinv := feedInv_reachable ⟨st₀, as, h₀, hrun⟩
  have hmeets := (meets_iff_spliced_increasing h₀ v as st hrun s hup.stream hup.member).2
    (by rw [hup.live]; exact nofun)
  rw [noGap_iff_spliced_increasing hinv hup, hmeets]

end Runs

/-! ## Two hunts, one gap -/

/-- A process with an empty log. -/
def Feed.empty (W : Type) (maxsize : Int) : Feed W where
  log := []
  pending := fun _ => none
  hub := Hub.new maxsize
  streams := fun _ => none
  offered := []
  published := []

theorem Feed.empty_boot (W : Type) (maxsize : Int) : (Feed.empty W maxsize).Boot :=
  ⟨List.Pairwise.nil, fun _ => rfl, rfl, fun _ => rfl, rfl, fun _ hi => absurd hi List.not_mem_nil⟩

/-- One viewer is live; hunt `true` commits row 1 and is overtaken, before its publish, by hunt
    `false`, which commits and publishes row 2. -/
def overtakenRun : List (FeedAction Bool) :=
  [.connect 0, .select 0, .commit true ⟨1, py "a"⟩, .commit false ⟨2, py "b"⟩, .publish false,
    .publish true, .take 0, .take 0]

/-- The caught-up viewer was sent row 2 only: row 1, published, is lost to it. -/
theorem overtaken_row_lost : ∃ st s, (feed Bool).run (Feed.empty Bool 256) overtakenRun = some st ∧
    CaughtUp st 0 s ∧ ¬ NoGap st s := by
  refine ⟨_, _, rfl, ⟨rfl, by decide, rfl, rfl⟩, fun hgap => ?_⟩
  exact absurd (hgap ⟨1, py "a"⟩ (by decide) (by decide) (by decide)) (by decide)

/-- The same two hunts publishing in commit order: both rows arrive, once each. -/
def orderedRun : List (FeedAction Bool) :=
  [.connect 0, .select 0, .commit true ⟨1, py "a"⟩, .commit false ⟨2, py "b"⟩, .publish true,
    .publish false, .take 0, .take 0]

theorem ordered_rows_arrive : ∃ st s, (feed Bool).run (Feed.empty Bool 256) orderedRun = some st ∧
    CaughtUp st 0 s ∧ (NoGap st s ↔
      (feed Bool).Meets (PublishInOrder 0) (Feed.empty Bool 256) orderedRun) :=
  ⟨_, _, rfl, ⟨rfl, by decide, rfl, rfl⟩,
    noGap_iff_published_in_order (Feed.empty_boot Bool 256) rfl ⟨rfl, by decide, rfl, rfl⟩⟩

end RexHunter
