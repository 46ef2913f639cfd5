import RexHunter.Implementation.Server
import RexHunter.Lib.RunningMax

set_option autoImplicit false

/-! # What every state of the live feed satisfies

The invariant has a half about the log and its writers (`LogInv`) and a half about each generator
(`StreamInv`), which says precisely what the generator has yielded: its catch-up rows, then the
strict running maxima of what it drained. Steps of other parties reach a generator only through the
log, the offers and its own queue, so one transfer lemma covers them all. -/

namespace RexHunter

open RunningMax (keys splice)

variable {W : Type}

/-! ## One lemma for each action -/

section Steps

variable [DecidableEq W]

namespace Feed

theorem step_commit {st st' : Feed W} {w : W} {row : FeedRow}
    (h : st.step (.commit w row) = some st') :
    st.pending w = none ∧ (∀ r ∈ st.log, r.id < row.id) ∧
      st' = { st with log := st.log ++ [row],
                      pending := Function.update st.pending w (some row) } := by
  simp only [step] at h
  split at h
  · next hc => exact ⟨hc.1, hc.2, (Option.some.inj h).symm⟩
  · exact absurd h (by simp)

theorem step_publish {st st' : Feed W} {w : W} (h : st.step (.publish w) = some st') :
    ∃ row, st.pending w = some row ∧
      st' = { st.offer row.envelope with
                pending := Function.update st.pending w none
                published := st.published ++ [row.id] } := by
  simp only [step] at h
  split at h
  · next row hrow => exact ⟨row, hrow, (Option.some.inj h).symm⟩
  · exact absurd h (by simp)

theorem step_select {st st' : Feed W} {v : ViewerId} (h : st.step (.select v) = some st') :
    ∃ s, st.streams v = some s ∧ s.phase = .connecting ∧ st' = st.setStream v (s.select st.log) := by
  simp only [step] at h
  split at h
  · next s hs =>
      split at h
      · next hp => exact ⟨s, hs, hp, (Option.some.inj h).symm⟩
      · exact absurd h (by simp)
  · exact absurd h (by simp)

theorem step_yieldRow {st st' : Feed W} {v : ViewerId} (h : st.step (.yieldRow v) = some st') :
    ∃ s env rest, st.streams v = some s ∧ s.phase = .streaming (env :: rest) ∧
      st' = st.setStream v (s.yieldRow env rest) := by
  simp only [step] at h
  split at h
  · next s hs =>
      split at h
      · next env rest hp => exact ⟨s, env, rest, hs, hp, (Option.some.inj h).symm⟩
      · exact absurd h (by simp)
  · exact absurd h (by simp)

theorem step_take {st st' : Feed W} {v : ViewerId} (h : st.step (.take v) = some st') :
    ∃ s env rest, st.streams v = some s ∧ s.phase = .streaming [] ∧
      st.hub.queues v = env :: rest ∧
      st' = { st.setStream v (s.receive env) with
                hub := { st.hub with queues := Function.update st.hub.queues v rest } } := by
  simp only [step] at h
  split at h
  · next s hs =>
      split at h
      · next hp =>
          unfold Hub.takeFrom at h
          cases hq : st.hub.queues v with
          | nil => simp [hq] at h
          | cons env rest =>
              simp only [hq] at h
              exact ⟨s, env, rest, hs, hp, rfl, (Option.some.inj h).symm⟩
      · exact absurd h (by simp)
  · exact absurd h (by simp)

theorem step_timeout {st st' : Feed W} {v : ViewerId} (h : st.step (.timeout v) = some st') :
    ∃ s, st.streams v = some s ∧ s.phase = .streaming [] ∧ st.hub.queues v = [] ∧
      (v ∈ st.hub.viewers ∧ st' = st ∨ v ∉ st.hub.viewers ∧ st' = st.finish v s) := by
  simp only [step] at h
  split at h
  · next s hs =>
      split at h
      · next hp =>
          refine ⟨s, hs, hp.1, hp.2, ?_⟩
          split at h
          · next hv => exact Or.inl ⟨hv, (Option.some.inj h).symm⟩
          · next hv => exact Or.inr ⟨hv, (Option.some.inj h).symm⟩
      · exact absurd h (by simp)
  · exact absurd h (by simp)

theorem step_close {st st' : Feed W} {v : ViewerId} (h : st.step (.close v) = some st') :
    ∃ s, st.streams v = some s ∧ s.phase ≠ .ended ∧ st' = st.finish v s := by
  simp only [step] at h
  split at h
  · next s hs =>
      split at h
      · exact absurd h (by simp)
      · next hp => exact ⟨s, hs, hp, (Option.some.inj h).symm⟩
  · exact absurd h (by simp)

end Feed

end Steps

/-! ## The invariant -/

/-- The high-water mark a stream's backfill ends with. -/
def StreamEvents.mark (s : StreamEvents) : Nat := RunningMax.mark Envelope.id s.lastSeen s.rows

/-- The log, its writers, and what was published. -/
structure LogInv (st : Feed W) : Prop where
  sorted : st.log.Pairwise (fun a b => a.id < b.id)
  pendingLog : ∀ w r, st.pending w = some r → r ∈ st.log ∧ r.id ∉ st.published
  pendingInj : ∀ w w' r r', st.pending w = some r → st.pending w' = some r' → r.id = r'.id → w = w'
  publishedLog : ∀ i ∈ st.published, ∃ r ∈ st.log, r.id = i
  offeredLog : ∀ env ∈ st.offered, ∀ i, env.id = some i →
    i ∈ st.published ∧ (⟨i, env.data⟩ : FeedRow) ∈ st.log
  offeredNodup : (keys Envelope.id st.offered).Nodup

/-- One generator: what it was offered, what it holds, what it has yielded. -/
structure StreamInv (st : Feed W) (v : ViewerId) (s : StreamEvents) : Prop where
  issued : v < st.hub.ids
  since_le : s.since ≤ st.offered.length
  live : v ∈ st.hub.viewers → s.phase ≠ .ended
  queue : v ∈ st.hub.viewers → s.taken ++ st.hub.queues v = st.offered.drop s.since
  fresh : s.phase = .connecting → s.yielded = [] ∧ s.rows = [] ∧ s.taken = []
  split : ∀ rest, s.phase = .streaming rest →
    s.yielded ++ rest = s.rows ++ splice Envelope.id s.mark s.taken
  backfill : ∀ env rest, s.phase = .streaming (env :: rest) → s.taken = []
  sent : s.yielded <+: s.rows ++ splice Envelope.id s.mark s.taken
  high : s.phase ≠ .ended → s.highWater = RunningMax.mark Envelope.id s.lastSeen s.yielded
  rowsLog : ∀ env ∈ s.rows, ∃ r ∈ st.log, s.lastSeen < r.id ∧ env = r.envelope
  rowsSorted : (keys Envelope.id s.rows).Pairwise (· < ·)
  covers : ∀ rest, s.phase = .streaming rest →
    ∀ r ∈ st.log, s.lastSeen < r.id → r.envelope ∈ s.rows ∨ s.mark < r.id
  heard : ∀ rest, s.phase = .streaming rest → ∀ i ∈ st.published, s.lastSeen < i →
    i ∈ keys Envelope.id s.rows ∨ i ∈ keys Envelope.id (st.offered.drop s.since)

structure FeedInv (st : Feed W) : Prop where
  log : LogInv st
  streams : ∀ v s, st.streams v = some s → StreamInv st v s
  member : ∀ v ∈ st.hub.viewers, ∃ s, st.streams v = some s

/-! ## The log half -/

/-- Steps that touch neither the log nor the writers nor the offers. -/
theorem LogInv.congr {st st' : Feed W} (h : LogInv st) (hlog : st'.log = st.log)
    (hpend : st'.pending = st.pending) (hoff : st'.offered = st.offered)
    (hpub : st'.published = st.published) : LogInv st' := by
  obtain ⟨h1, h2, h3, h4, h5, h6⟩ := h
  exact ⟨hlog ▸ h1, by rw [hlog, hpend, hpub]; exact h2, hpend ▸ h3, by rw [hlog, hpub]; exact h4,
    by rw [hlog, hoff, hpub]; exact h5, hoff ▸ h6⟩

theorem update_some_eq [DecidableEq W] {p : W → Option FeedRow} {w w' : W} {row r : FeedRow}
    (h : Function.update p w (some row) w' = some r) :
    w' = w ∧ r = row ∨ w' ≠ w ∧ p w' = some r := by
  by_cases hw : w' = w
  · subst hw
    rw [Function.update_self, Option.some.injEq] at h
    exact Or.inl ⟨rfl, h.symm⟩
  · exact Or.inr ⟨hw, by rwa [Function.update_of_ne hw] at h⟩

theorem update_none_eq [DecidableEq W] {p : W → Option FeedRow} {w w' : W} {r : FeedRow}
    (h : Function.update p w none w' = some r) : w' ≠ w ∧ p w' = some r := by
  by_cases hw : w' = w
  · subst hw; simp at h
  · exact ⟨hw, by rwa [Function.update_of_ne hw] at h⟩

theorem LogInv.commit [DecidableEq W] {st : Feed W} (h : LogInv st) {w : W} {row : FeedRow}
    (hmax : ∀ r ∈ st.log, r.id < row.id) :
    LogInv { st with log := st.log ++ [row],
                     pending := Function.update st.pending w (some row) } := by
  have hfresh : row.id ∉ st.published := fun hmem => by
    obtain ⟨r, hr, hid⟩ := h.publishedLog _ hmem
    exact absurd (hid ▸ hmax r hr) (Nat.lt_irrefl _)
  refine ⟨?_, ?_, ?_, ?_, ?_, h.offeredNodup⟩
  · refine List.pairwise_append.2 ⟨h.sorted, List.pairwise_singleton _ _, ?_⟩
    intro a ha b hb
    rw [List.mem_singleton.1 hb]
    exact hmax a ha
  · intro w' r hr
    rcases update_some_eq hr with ⟨_, rfl⟩ | ⟨_, hr⟩
    · exact ⟨List.mem_append_right _ (List.mem_singleton_self _), hfresh⟩
    · obtain ⟨hmem, hnot⟩ := h.pendingLog w' r hr
      exact ⟨List.mem_append_left _ hmem, hnot⟩
  · intro w1 w2 r1 r2 h1 h2 hid
    -- the new row's id is above every older pending row's
    rcases update_some_eq h1 with ⟨e1, rfl⟩ | ⟨_, old1⟩ <;>
      rcases update_some_eq h2 with ⟨e2, rfl⟩ | ⟨_, old2⟩
    · exact e1.trans e2.symm
    · have hlt := hmax r2 (h.pendingLog w2 r2 old2).1
      omega
    · have hlt := hmax r1 (h.pendingLog w1 r1 old1).1
      omega
    · exact h.pendingInj w1 w2 r1 r2 old1 old2 hid
  · intro i hi
    obtain ⟨r, hr, hid⟩ := h.publishedLog i hi
    exact ⟨r, List.mem_append_left _ hr, hid⟩
  · intro env henv i hi
    obtain ⟨hpub, hmem⟩ := h.offeredLog env henv i hi
    exact ⟨hpub, List.mem_append_left _ hmem⟩

theorem LogInv.publish [DecidableEq W] {st : Feed W} (h : LogInv st) {w : W} {row : FeedRow}
    (hrow : st.pending w = some row) :
    LogInv { st.offer row.envelope with
               pending := Function.update st.pending w none
               published := st.published ++ [row.id] } := by
  obtain ⟨hmem, hnot⟩ := h.pendingLog w row hrow
  refine ⟨h.sorted, ?_, ?_, ?_, ?_, ?_⟩
  · intro w' r hr
    obtain ⟨hne, hr'⟩ := update_none_eq hr
    refine ⟨(h.pendingLog w' r hr').1, ?_⟩
    simp only [List.mem_append, List.mem_singleton, not_or]
    exact ⟨(h.pendingLog w' r hr').2, fun hid => hne (h.pendingInj w' w r row hr' hrow hid)⟩
  · intro w1 w2 r1 r2 h1 h2 hid
    exact h.pendingInj w1 w2 r1 r2 (update_none_eq h1).2 (update_none_eq h2).2 hid
  · intro i hi
    rcases List.mem_append.1 hi with hi | hi
    · exact h.publishedLog i hi
    · exact ⟨row, hmem, (List.mem_singleton.1 hi).symm⟩
  · intro env henv i hi
    rcases List.mem_append.1 henv with henv | henv
    · obtain ⟨hpub, hlog⟩ := h.offeredLog env henv i hi
      exact ⟨List.mem_append_left _ hpub, hlog⟩
    · rw [List.mem_singleton.1 henv] at hi ⊢
      simp only [FeedRow.envelope, Option.some.injEq] at hi
      subst hi
      exact ⟨List.mem_append_right _ (List.mem_singleton_self _), hmem⟩
  · show (keys Envelope.id (st.offered ++ [row.envelope])).Nodup
    rw [RunningMax.keys_append]
    refine h.offeredNodup.append (List.nodup_singleton row.id) (List.disjoint_singleton.2 ?_)
    intro hin
    obtain ⟨env, henv, hid⟩ := RunningMax.mem_keys.1 hin
    exact hnot (h.offeredLog env henv row.id hid).1

/-- An envelope without an id adds nothing to publish or to replay. -/
theorem LogInv.offer {st : Feed W} (h : LogInv st) {env : Envelope} (hid : env.id = none) :
    LogInv (st.offer env) := by
  refine ⟨h.sorted, h.pendingLog, h.pendingInj, h.publishedLog, ?_, ?_⟩
  · intro e he i hi
    rcases List.mem_append.1 he with he | he
    · exact h.offeredLog e he i hi
    · rw [List.mem_singleton.1 he, hid] at hi
      exact absurd hi (by simp)
  · show (keys Envelope.id (st.offered ++ [env])).Nodup
    rw [RunningMax.keys_append, RunningMax.keys_cons_none hid, RunningMax.keys_nil, List.append_nil]
    exact h.offeredNodup

theorem LogInv.abandon [DecidableEq W] {st : Feed W} (h : LogInv st) (w : W) :
    LogInv { st with pending := Function.update st.pending w none } :=
  ⟨h.sorted, fun w' r hr => h.pendingLog w' r (update_none_eq hr).2,
    fun w1 w2 r1 r2 h1 h2 => h.pendingInj w1 w2 r1 r2 (update_none_eq h1).2 (update_none_eq h2).2,
    h.publishedLog, h.offeredLog, h.offeredNodup⟩

/-! ## The generators -/

/-- What other parties can do to a generator: new rows above every committed one, new offers at the
    end of its queue, or its removal from the hub. -/
theorem StreamInv.transfer {st st' : Feed W} {v : ViewerId} {s : StreamEvents}
    (h : StreamInv st v s) (tail : List Envelope)
    (hids : st.hub.ids ≤ st'.hub.ids)
    (hlog : ∀ r ∈ st.log, r ∈ st'.log)
    (hnew : ∀ r ∈ st'.log, r ∈ st.log ∨ ∀ r' ∈ st.log, r'.id < r.id)
    (hoff : st'.offered = st.offered ++ tail)
    (hpub : ∀ i ∈ st'.published, i ∈ st.published ∨ i ∈ keys Envelope.id tail)
    (hqueue : v ∈ st'.hub.viewers →
      v ∈ st.hub.viewers ∧ st'.hub.queues v = st.hub.queues v ++ tail) :
    StreamInv st' v s := by
  have hdrop : st'.offered.drop s.since = st.offered.drop s.since ++ tail := by
    rw [hoff, List.drop_append_of_le_length h.since_le]
  refine ⟨Nat.lt_of_lt_of_le h.issued hids, ?_, ?_, ?_, h.fresh, h.split, h.backfill, h.sent,
    h.high, ?_, h.rowsSorted, ?_, ?_⟩
  · rw [hoff, List.length_append]
    exact Nat.le_trans h.since_le (Nat.le_add_right _ _)
  · exact fun hv => h.live (hqueue hv).1
  · intro hv
    rw [(hqueue hv).2, hdrop, ← List.append_assoc, h.queue (hqueue hv).1]
  · intro env henv
    obtain ⟨r, hr, hlt, he⟩ := h.rowsLog env henv
    exact ⟨r, hlog r hr, hlt, he⟩
  · intro rest hp r hr hlt
    rcases hnew r hr with hr | habove
    · exact h.covers rest hp r hr hlt
    · -- a row committed after the SELECT is above everything the SELECT returned
      refine Or.inr (RunningMax.mark_lt _ hlt (fun i hi => ?_))
      obtain ⟨env, henv, hid⟩ := RunningMax.mem_keys.1 hi
      obtain ⟨r', hr', _, he⟩ := h.rowsLog env henv
      rw [he, FeedRow.envelope, Option.some.injEq] at hid
      exact hid ▸ habove r' hr'
  · intro rest hp i hi hlt
    rw [hdrop, RunningMax.keys_append, List.mem_append]
    rcases hpub i hi with hi | hi
    · exact (h.heard rest hp i hi hlt).imp id Or.inl
    · exact Or.inr (Or.inr hi)

/-- Steps that leave the log, the offers and this viewer's queue alone. -/
theorem StreamInv.still {st st' : Feed W} {v : ViewerId} {s : StreamEvents} (h : StreamInv st v s)
    (hids : st.hub.ids ≤ st'.hub.ids) (hlog : st'.log = st.log) (hoff : st'.offered = st.offered)
    (hpub : st'.published = st.published)
    (hqueue : v ∈ st'.hub.viewers → v ∈ st.hub.viewers ∧ st'.hub.queues v = st.hub.queues v) :
    StreamInv st' v s :=
  h.transfer [] hids (fun r hr => hlog ▸ hr) (fun r hr => Or.inl (hlog ▸ hr)) (by simp [hoff])
    (fun i hi => Or.inl (hpub ▸ hi)) (fun hv => by simpa using hqueue hv)

theorem keys_envelope (rows : List FeedRow) :
    keys Envelope.id (rows.map FeedRow.envelope) = rows.map FeedRow.id := by
  induction rows with
  | nil => rfl
  | cons r rows ih =>
      rw [List.map_cons, RunningMax.keys_cons_some (rfl : r.envelope.id = some r.id), ih, List.map_cons]

theorem mem_catchUp {log : List FeedRow} {lastSeen : Nat} {env : Envelope} :
    env ∈ catchUp log lastSeen ↔ ∃ r ∈ log, lastSeen < r.id ∧ env = r.envelope := by
  simp only [catchUp, List.mem_map, Table.mem_orderBy, List.mem_filter, decide_eq_true_eq, and_assoc]
  constructor
  · rintro ⟨r, hr, hlt, he⟩
    exact ⟨r, hr, hlt, he.symm⟩
  · rintro ⟨r, hr, hlt, he⟩
    exact ⟨r, hr, hlt, he.symm⟩

theorem keys_catchUp_sorted {log : List FeedRow} (hsorted : log.Pairwise (fun a b => a.id < b.id))
    (lastSeen : Nat) : (keys Envelope.id (catchUp log lastSeen)).Pairwise (· < ·) := by
  have hfilter := hsorted.filter (fun r => decide (lastSeen < r.id))
  unfold catchUp
  rw [Table.orderBy_of_sorted _ _ hfilter, keys_envelope]
  exact List.pairwise_map.2 hfilter

theorem StreamInv.select {st : Feed W} {v : ViewerId} {s : StreamEvents} (hlog : LogInv st)
    (h : StreamInv st v s) (hp : s.phase = .connecting) :
    StreamInv (st.setStream v (s.select st.log)) v (s.select st.log) := by
  obtain ⟨hy, _, ht⟩ := h.fresh hp
  refine ⟨h.issued, h.since_le, by simp [StreamEvents.select], h.queue, by simp [StreamEvents.select], ?_,
    ?_, ?_, ?_, ?_, ?_, ?_, ?_⟩
  · intro rest hrest
    simp only [StreamEvents.select, Phase.streaming.injEq] at hrest
    simp [StreamEvents.select, hy, ht, ← hrest, splice]
  · exact fun _ _ _ => ht
  · simp [StreamEvents.select, hy]
  · exact fun _ => h.high (by simp [hp])
  · intro env henv
    exact mem_catchUp.1 henv
  · exact keys_catchUp_sorted hlog.sorted s.lastSeen
  · intro _ _ r hr hlt
    exact Or.inl (mem_catchUp.2 ⟨r, hr, hlt, rfl⟩)
  · intro _ _ i hi hlt
    obtain ⟨r, hr, hid⟩ := hlog.publishedLog i hi
    refine Or.inl (RunningMax.mem_keys.2 ⟨r.envelope, mem_catchUp.2 ⟨r, hr, ?_, rfl⟩, ?_⟩)
    · exact hid ▸ hlt
    · rw [← hid]; rfl

theorem StreamInv.yieldRow {st : Feed W} {v : ViewerId} {s : StreamEvents} {env : Envelope}
    {rest : List Envelope} (h : StreamInv st v s) (hp : s.phase = .streaming (env :: rest)) :
    StreamInv (st.setStream v (s.yieldRow env rest)) v (s.yieldRow env rest) := by
  have hsplit : (s.yielded ++ [env]) ++ rest = s.rows ++ splice Envelope.id s.mark s.taken := by
    rw [← h.split _ hp]; simp
  have hnot : s.phase ≠ .ended := by rw [hp]; exact nofun
  refine ⟨h.issued, h.since_le, fun _ => nofun, h.queue, nofun, ?_, ?_, ?_, ?_, h.rowsLog,
    h.rowsSorted, ?_, ?_⟩
  · intro rest' hrest
    simp only [StreamEvents.yieldRow, Phase.streaming.injEq] at hrest
    exact hrest ▸ hsplit
  · exact fun _ _ _ => h.backfill env rest hp
  · exact ⟨rest, hsplit⟩
  · intro _
    simp only [StreamEvents.yieldRow, RunningMax.mark_append, ← h.high hnot]
    cases hid : env.id with
    | none => simp [RunningMax.mark, hid]
    | some i =>
        by_cases hi : s.highWater < i
        · simp [RunningMax.mark, hid, hi, Nat.max_eq_right (Nat.le_of_lt hi)]
        · simp [RunningMax.mark, hid, hi, Nat.max_eq_left (Nat.le_of_not_lt hi)]
  · exact fun _ _ => h.covers _ hp
  · exact fun _ _ => h.heard _ hp

/-- The live loop is `splice` run one envelope at a time. -/
theorem receive_yielded (s : StreamEvents) (env : Envelope) :
    (s.receive env).yielded = s.yielded ++ splice Envelope.id s.highWater [env] ∧
    (s.receive env).highWater = RunningMax.mark Envelope.id s.highWater [env] ∧
    (s.receive env).taken = s.taken ++ [env] ∧ (s.receive env).rows = s.rows ∧
    (s.receive env).phase = s.phase ∧ (s.receive env).lastSeen = s.lastSeen ∧
    (s.receive env).since = s.since := by
  unfold StreamEvents.receive
  cases hid : env.id with
  | none => simp [splice, RunningMax.mark, hid]
  | some i => by_cases hi : s.highWater < i <;> simp [splice, RunningMax.mark, hid, hi]

theorem StreamInv.receive {st st' : Feed W} {v : ViewerId} {s : StreamEvents} {env : Envelope}
    {rest : List Envelope} (h : StreamInv st v s) (hp : s.phase = .streaming [])
    (hq : st.hub.queues v = env :: rest) (hids : st'.hub.ids = st.hub.ids)
    (hview : st'.hub.viewers = st.hub.viewers) (hqueue : st'.hub.queues v = rest)
    (hlog : st'.log = st.log) (hoff : st'.offered = st.offered)
    (hpub : st'.published = st.published) : StreamInv st' v (s.receive env) := by
  obtain ⟨hyield, hhigh, htaken, hrows, hphase, hlast, hsince⟩ := receive_yielded s env
  have hmark : (s.receive env).mark = s.mark := by simp only [StreamEvents.mark, hrows, hlast]
  have hall : s.yielded = s.rows ++ splice Envelope.id s.mark s.taken := by
    simpa using h.split [] hp
  have hhw : s.highWater = RunningMax.mark Envelope.id s.lastSeen s.yielded :=
    h.high (by rw [hp]; exact nofun)
  -- the mark after the backfill and everything drained is the generator's high-water mark
  have hnow : RunningMax.mark Envelope.id s.mark s.taken = s.highWater := by
    rw [hhw, hall, RunningMax.mark_append]
    exact (RunningMax.mark_splice s.taken s.mark).symm
  have hsplit : (s.receive env).yielded
      = s.rows ++ splice Envelope.id s.mark (s.taken ++ [env]) := by
    rw [hyield, hall, RunningMax.splice_append, hnow, List.append_assoc]
  refine ⟨?_, ?_, ?_, ?_, ?_, ?_, ?_, ?_, ?_, ?_, ?_, ?_, ?_⟩
  · rw [hids]; exact h.issued
  · rw [hsince, hoff]; exact h.since_le
  · intro hv; rw [hphase]; rw [hview] at hv; exact h.live hv
  · intro hv
    rw [hview] at hv
    rw [htaken, hqueue, hsince, hoff, ← h.queue hv, hq]
    simp
  · intro hc; rw [hphase, hp] at hc; exact absurd hc nofun
  · intro rest' hr
    rw [hphase, hp, Phase.streaming.injEq] at hr
    rw [← hr, hrows, hmark, htaken, List.append_nil, hsplit]
  · intro e r hr; rw [hphase, hp] at hr; exact absurd hr (by simp)
  · rw [hrows, hmark, htaken, hsplit]
  · intro _
    rw [hhigh, hyield, hlast, RunningMax.mark_append, ← hhw]
    exact (RunningMax.mark_splice [env] _).symm
  · rw [hrows, hlast, hlog]; exact h.rowsLog
  · rw [hrows]; exact h.rowsSorted
  · intro _ _
    rw [hlog, hlast, hrows, hmark]
    exact h.covers [] hp
  · intro _ _
    rw [hpub, hlast, hrows, hoff, hsince]
    exact h.heard [] hp

theorem StreamInv.finish {st : Feed W} {v : ViewerId} {s : StreamEvents} (h : StreamInv st v s) :
    StreamInv (st.finish v s) v { s with phase := .ended } := by
  have hout : v ∉ (st.finish v s).hub.viewers := fun hv =>
    ((Hub.mem_deregister st.hub v v).1 hv).2 rfl
  exact ⟨h.issued, h.since_le, fun hv => absurd hv hout, fun hv => absurd hv hout, nofun, nofun,
    nofun, h.sent, fun hne => absurd rfl hne, h.rowsLog, h.rowsSorted, nofun, nofun⟩

/-! ## Every reachable state -/

theorem FeedInv.boot {st : Feed W} (h : st.Boot) : FeedInv st := by
  refine ⟨⟨h.sorted, ?_, ?_, h.published, ?_, ?_⟩, ?_, ?_⟩
  · intro w r hr; rw [h.idle w] at hr; exact absurd hr (by simp)
  · intro w _ r _ hr; rw [h.idle w] at hr; exact absurd hr (by simp)
  · intro env henv; rw [h.offered] at henv; exact absurd henv (by simp)
  · rw [h.offered]; exact List.nodup_nil
  · intro v s hs; rw [h.streams v] at hs; exact absurd hs (by simp)
  · intro v hv; rw [h.viewers] at hv; exact absurd hv (by simp)

/-- A step that replaces one generator's frame. -/
theorem FeedInv.setOne {st st' : Feed W} {v : ViewerId} {s' : StreamEvents} (h : FeedInv st)
    (hlog : LogInv st') (hstreams : st'.streams = Function.update st.streams v (some s'))
    (hself : StreamInv st' v s')
    (hother : ∀ u s, u ≠ v → st.streams u = some s → StreamInv st' u s)
    (hmember : ∀ u ∈ st'.hub.viewers, u = v ∨ u ∈ st.hub.viewers) : FeedInv st' := by
  refine ⟨hlog, ?_, ?_⟩
  · intro u s hs
    rw [hstreams] at hs
    by_cases hu : u = v
    · subst hu
      rw [Function.update_self, Option.some.injEq] at hs
      exact hs ▸ hself
    · rw [Function.update_of_ne hu] at hs
      exact hother u s hu hs
  · intro u hu
    rw [hstreams]
    by_cases huv : u = v
    · exact ⟨s', by rw [huv, Function.update_self]⟩
    · obtain ⟨s, hs⟩ := h.member u ((hmember u hu).resolve_left huv)
      exact ⟨s, by rw [Function.update_of_ne huv, hs]⟩

/-- An offer reaches every generator at the end of its queue, or drops it. -/
theorem FeedInv.offered {st st' : Feed W} (h : FeedInv st) (hlog : LogInv st') (env : Envelope)
    (hhub : st'.hub = st.hub.offer env) (hstreams : st'.streams = st.streams)
    (hlogs : st'.log = st.log) (hoff : st'.offered = st.offered ++ [env])
    (hpub : ∀ i ∈ st'.published, i ∈ st.published ∨ i ∈ keys Envelope.id [env]) : FeedInv st' := by
  refine ⟨hlog, ?_, ?_⟩
  · intro v s hs
    rw [hstreams] at hs
    refine (h.streams v s hs).transfer [env] (by simp [hhub]) (fun r hr => hlogs ▸ hr)
      (fun r hr => Or.inl (hlogs ▸ hr)) hoff hpub ?_
    intro hv
    rw [hhub] at hv ⊢
    exact ⟨((Hub.mem_offer _ _ _).1 hv).1, Hub.offer_queue _ _ hv⟩
  · intro v hv
    rw [hhub] at hv
    rw [hstreams]
    exact h.member v ((Hub.mem_offer _ _ _).1 hv).1

theorem FeedInv.finished {st : Feed W} (h : FeedInv st) {v : ViewerId} {s : StreamEvents}
    (hs : st.streams v = some s) : FeedInv (st.finish v s) := by
  refine h.setOne (h.log.congr rfl rfl rfl rfl) rfl (h.streams v s hs).finish ?_ ?_
  · intro u r _ hr
    exact (h.streams u r hr).still (Nat.le_refl _) rfl rfl rfl
      (fun hu => ⟨((Hub.mem_deregister _ _ _).1 hu).1, rfl⟩)
  · exact fun u hu => Or.inr ((Hub.mem_deregister _ _ _).1 hu).1

theorem FeedInv.connect {st : Feed W} (h : FeedInv st) (lastSeen : Nat) :
    FeedInv { st with
      hub := st.hub.register.2
      streams := Function.update st.streams st.hub.register.1
        (some (StreamEvents.start lastSeen st.offered.length)) } := by
  refine h.setOne (h.log.congr rfl rfl rfl rfl) rfl ?_ ?_ ?_
  · have hempty : st.hub.register.2.queues st.hub.register.1 = [] := by
      rw [Hub.register_queue]; simp
    refine ⟨Nat.lt_succ_self _, Nat.le_refl _, fun _ => nofun, fun _ => ?_, fun _ => ⟨rfl, rfl, rfl⟩,
      nofun, nofun, List.nil_prefix, fun _ => rfl, ?_, ?_, nofun, nofun⟩
    · show [] ++ st.hub.register.2.queues st.hub.register.1 = st.offered.drop st.offered.length
      rw [hempty, List.drop_length, List.nil_append]
    · exact fun env henv => absurd henv (by simp [StreamEvents.start])
    · simp [StreamEvents.start]
  · intro u s hu hs
    refine (h.streams u s hs).still (Nat.le_succ _) rfl rfl rfl (fun hmem => ?_)
    have hne : u ≠ st.hub.ids := hu
    refine ⟨((Hub.mem_register _ _).1 hmem).resolve_right hne, ?_⟩
    show st.hub.register.2.queues u = st.hub.queues u
    rw [Hub.register_queue, if_neg hne]
  · exact fun u hu => ((Hub.mem_register _ _).1 hu).symm

theorem FeedInv.step [DecidableEq W] {st st' : Feed W} {a : FeedAction W} (h : FeedInv st)
    (hstep : st.step a = some st') : FeedInv st' := by
  cases a with
  | commit w row =>
      obtain ⟨_, hmax, rfl⟩ := Feed.step_commit hstep
      refine ⟨h.log.commit hmax, fun v s hs => ?_, h.member⟩
      refine (h.streams v s hs).transfer [] (Nat.le_refl _)
        (fun r hr => List.mem_append_left _ hr) (fun r hr => ?_) (by simp) (fun i hi => Or.inl hi)
        (fun hv => ⟨hv, by simp⟩)
      rcases List.mem_append.1 hr with hr | hr
      · exact Or.inl hr
      · exact Or.inr (fun r' hr' => by rw [List.mem_singleton.1 hr]; exact hmax r' hr')
  | publish w =>
      obtain ⟨row, hrow, rfl⟩ := Feed.step_publish hstep
      refine h.offered (h.log.publish hrow) row.envelope rfl rfl rfl rfl (fun i hi => ?_)
      exact (List.mem_append.1 hi).imp id (fun hi => by
        rw [List.mem_singleton.1 hi, RunningMax.keys_cons_some (rfl : row.envelope.id = some row.id)]
        exact List.mem_cons_self)
  | abandon w =>
      obtain rfl := (Option.some.inj hstep).symm
      exact ⟨h.log.abandon w,
        fun v s hs => (h.streams v s hs).still (Nat.le_refl _) rfl rfl rfl (fun hv => ⟨hv, rfl⟩),
        h.member⟩
  | notify payload =>
      obtain rfl := (Option.some.inj hstep).symm
      exact h.offered (h.log.offer rfl) ⟨none, payload⟩ rfl rfl rfl rfl (fun i hi => Or.inl hi)
  | beat =>
      obtain rfl := (Option.some.inj hstep).symm
      exact h.offered (h.log.offer rfl) ⟨none, []⟩ rfl rfl rfl rfl (fun i hi => Or.inl hi)
  | connect lastSeen =>
      obtain rfl := (Option.some.inj hstep).symm
      exact h.connect lastSeen
  | select v =>
      obtain ⟨s, hs, hp, rfl⟩ := Feed.step_select hstep
      refine h.setOne (h.log.congr rfl rfl rfl rfl) rfl ((h.streams v s hs).select h.log hp) ?_
        (fun u hu => Or.inr hu)
      exact fun u r _ hr =>
        (h.streams u r hr).still (Nat.le_refl _) rfl rfl rfl (fun hu => ⟨hu, rfl⟩)
  | yieldRow v =>
      obtain ⟨s, env, rest, hs, hp, rfl⟩ := Feed.step_yieldRow hstep
      refine h.setOne (h.log.congr rfl rfl rfl rfl) rfl ((h.streams v s hs).yieldRow hp) ?_
        (fun u hu => Or.inr hu)
      exact fun u r _ hr =>
        (h.streams u r hr).still (Nat.le_refl _) rfl rfl rfl (fun hu => ⟨hu, rfl⟩)
  | take v =>
      obtain ⟨s, env, rest, hs, hp, hq, rfl⟩ := Feed.step_take hstep
      refine h.setOne (h.log.congr rfl rfl rfl rfl) rfl
        ((h.streams v s hs).receive hp hq rfl rfl (Function.update_self ..) rfl rfl rfl) ?_
        (fun u hu => Or.inr hu)
      exact fun u r hne hr => (h.streams u r hr).still (Nat.le_refl _) rfl rfl rfl
        (fun hu => ⟨hu, Function.update_of_ne hne _ _⟩)
  | timeout v =>
      obtain ⟨s, hs, _, _, ⟨_, rfl⟩ | ⟨_, rfl⟩⟩ := Feed.step_timeout hstep
      · exact h
      · exact h.finished hs
  | close v =>
      obtain ⟨s, hs, _, rfl⟩ := Feed.step_close hstep
      exact h.finished hs

/-- **Every reachable state satisfies the feed invariant.** -/
theorem feedInv_reachable [DecidableEq W] {st : Feed W} (h : (feed W).Reachable st) : FeedInv st :=
  (feed W).invariant (fun _ => FeedInv.boot) (fun _ _ _ hinv hstep => hinv.step hstep) st h

end RexHunter
