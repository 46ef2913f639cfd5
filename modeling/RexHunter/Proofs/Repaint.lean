import Mathlib.Data.Fintype.Basic
import Mathlib.Data.List.Perm.Basic
import RexHunter.Implementation.Browser
import RexHunter.Proofs.Feed
import RexHunter.Proofs.Framing
import RexHunter.Proofs.Transactions

set_option autoImplicit false

/-! # The board and the database

The board is right when it was read after the last commit. A response that was read earlier is
harmless while a repaint is on its way (`Wakes`), or while every commit it missed will still send
the browser a frame that wakes it (`Awaited`): an event whose id is above the cursor, a notification
that its task still owes. `Kept` is that invariant with what the stream and the page know of the
ids. Five steps break it, and `Careful` is what each of them has to respect. -/

namespace RexHunter

variable {W : Type}

/-- The responses on the board or on their way to it. -/
def Browser.painted (b : Browser W) : List Painted :=
  b.board.toList ++ b.fetches.filterMap Fetch.answer

/-- The rows of the catch-up that were not yet sent. -/
def StreamEvents.waiting (s : StreamEvents) : List Envelope :=
  match s.phase with
  | .streaming rest => rest
  | .connecting => []
  | .ended => []

theorem EventClass.modelDumpJson_ne_nil [PydanticEscapes] {E : Type} {c : EventClass E}
    {values : List FieldValue} {payload : PyStr} (h : c.modelDumpJson values = .ok payload) :
    payload ≠ [] := by
  unfold EventClass.modelDumpJson at h
  split at h
  · next hwrite =>
      cases h
      exact (PydanticEscapes.printing_writeJson _ _ hwrite).1
  · cases h

namespace Terrarium

/-- What the stream has still to look at. -/
def upcoming (st : Terrarium W) : List Envelope :=
  match st.stream with
  | some (v, s) => s.waiting ++ st.hub.queues v
  | none => []

/-- The id up to which the browser is not sent anything any more. -/
def mark (st : Terrarium W) : Nat :=
  match st.stream with
  | some (_, s) => s.highWater
  | none =>
      match st.browser.load with
      | .snapshot (some latestId) => latestId
      | .snapshot none => st.browser.cursor
      | .viewstate => st.browser.cursor
      | .opened => st.browser.cursor

/-- The stream sends the envelope, and the frame makes the browser repaint. -/
def Passes (st : Terrarium W) (env : Envelope) : Prop :=
  env ≠ heartbeat ∧ ∀ i ∈ env.id, st.mark < i

/-- A repaint is on its way. -/
def Wakes (st : Terrarium W) : Prop :=
  (∃ f ∈ st.browser.fetches, f.answer = none) ∨ st.browser.repaintTimer = true ∨
    st.browser.posts ≠ [] ∨ (∃ env ∈ st.browser.wire, env ≠ heartbeat) ∨
    ∃ env ∈ st.upcoming, st.Passes env

/-- The browser's stream gets what the hub is handed. -/
def Listens (st : Terrarium W) : Prop :=
  ∃ c ∈ st.stream, c.1 ∈ st.hub.viewers ∧ ¬ st.hub.full c.1

/-- The commits that a response has not seen. -/
def missed (st : Terrarium W) (p : Painted) : List (Option Nat) := st.commits.drop p.reads

/-- A task owes the hub a notification. -/
def Owes (st : Terrarium W) : Prop := ∃ w, ∃ env ∈ st.owed w, env.id = none

/-- What five of the steps have to respect: a notification is heard, or nothing depends on it; a run
    is closed without a pulse while a repaint or a notification is still to come; what is not handed
    over was seen by a response; when the cursor is read, no event was committed after the board was;
    and a response does not land on a board that was read later, unless one that was not read earlier
    is still to land. -/
def Careful (st : Terrarium W) : TerrariumAction W → Prop
  | .cleanUp .. => st.Wakes ∨ st.Owes
  | .abandon w =>
      ∀ env ∈ st.owed w, st.Wakes ∨ ∃ p ∈ st.browser.painted, env.id ∉ st.missed p
  | .offer w =>
      (∃ env ∈ st.owed w, env.id = none) →
        st.Wakes ∨ st.Listens ∨ ∃ p ∈ st.browser.painted, none ∉ st.missed p
  | .readSnapshot => st.Wakes ∨ ∃ p ∈ st.browser.painted, ∀ c ∈ st.missed p, c = none
  | .land _ =>
      st.Wakes ∨ ∀ board ∈ st.browser.board,
        ∃ p ∈ st.browser.fetches.filterMap Fetch.answer, board.reads ≤ p.reads
  | _ => True

section Decidable

variable (st : Terrarium W)

instance (env : Envelope) : Decidable (st.Passes env) := by
  unfold Passes
  infer_instance

instance : Decidable st.Wakes := by
  unfold Wakes
  infer_instance

instance : Decidable st.Listens := by
  unfold Listens
  infer_instance

instance [Fintype W] : Decidable st.Owes := by
  unfold Owes
  infer_instance

instance decidableCareful [Fintype W] : (a : TerrariumAction W) → Decidable (st.Careful a)
  | .cleanUp .. => by unfold Careful; infer_instance
  | .abandon _ => by unfold Careful; infer_instance
  | .offer _ => by unfold Careful; infer_instance
  | .readSnapshot => by unfold Careful; infer_instance
  | .land _ => by unfold Careful; infer_instance
  | .write .. => isTrue trivial
  | .verdict .. => isTrue trivial
  | .close .. => isTrue trivial
  | .beat => isTrue trivial
  | .join => isTrue trivial
  | .leave _ => isTrue trivial
  | .drain _ => isTrue trivial
  | .serve .. => isTrue trivial
  | .landSnapshot => isTrue trivial
  | .connect => isTrue trivial
  | .select => isTrue trivial
  | .yieldRow => isTrue trivial
  | .take => isTrue trivial
  | .timeout => isTrue trivial
  | .dispatch => isTrue trivial
  | .fire => isTrue trivial
  | .post _ => isTrue trivial
  | .respond _ => isTrue trivial

end Decidable

/-- No request, response or frame is in flight, no timer is pending, no task has still to notify,
    and the stream is connected and has sent what it had. -/
structure Quiescent (st : Terrarium W) : Prop where
  fetches : st.browser.fetches = []
  posts : st.browser.posts = []
  repaintTimer : st.browser.repaintTimer = false
  wire : st.browser.wire = []
  owed : ∀ w, st.owed w = none
  stream : ∃ c ∈ st.stream, c.1 ∈ st.hub.viewers ∧ c.2.phase = .streaming [] ∧
    st.hub.queues c.1 = []

/-! ## The invariant -/

/-- Every commit that the response missed will still wake the browser. -/
def Awaited (st : Terrarium W) (p : Painted) : Prop :=
  (∀ i, some i ∈ st.missed p → st.mark < i) ∧ (none ∈ st.missed p → st.Owes)

/-- The database, its history, and what the tasks owe. -/
structure Ledger (st : Terrarium W) : Prop where
  logged : ∀ i, some i ∈ st.commits → ∃ row ∈ st.db.tables.trajectoryEvents, row.id = i
  owed : ∀ w, ∀ env ∈ st.owed w, env ≠ heartbeat ∧ ∀ i ∈ env.id, i ≤ st.db.tables.trajectorySeq

/-- The page and its stream. -/
structure Track (st : Terrarium W) : Prop where
  loads : st.browser.fetches.countP Fetch.load ≤ if st.browser.load = .viewstate then 1 else 0
  unopened : st.browser.load ≠ .opened →
    st.stream = none ∧ st.browser.wire = [] ∧ st.browser.lastEventId = none
  marked : st.mark ≤ st.db.tables.trajectorySeq
  cursor : st.browser.load = .opened → st.browser.cursor ≤ st.mark
  sent : st.browser.load = .opened → ∀ env ∈ st.browser.wire, ∀ i ∈ env.id,
    i ≤ st.db.tables.trajectorySeq ∧ (st.stream ≠ none → i ≤ st.mark)
  upcoming : ∀ env ∈ st.upcoming, ∀ i ∈ env.id, i ≤ st.db.tables.trajectorySeq
  viewer : ∀ v s, st.stream = some (v, s) → v < st.hub.ids ∧ s.phase ≠ .ended ∧
    (s.phase = .connecting → s.lastSeen = s.highWater)
  covered : ∀ v s, st.stream = some (v, s) → v ∈ st.hub.viewers → s.phase ≠ .connecting →
    ∀ i, some i ∈ st.commits → i ≤ st.mark ∨
      (∃ env ∈ st.upcoming, env.id = some i) ∨ ∃ w, ∃ env ∈ st.owed w, env.id = some i

/-! ## What a step can do -/

/-- The transaction of a task that owes nothing: what it committed, and what it owes for it. -/
structure Commits [PydanticJson] (st : Terrarium W) (w : W) (db : Db) (env : Envelope) : Prop where
  idle : st.owed w = none
  offered : env.Offered
  woken : env ≠ heartbeat
  event : env.id = none ∧ SameEvents st.db db ∨
    ∃ row, env.id = some row.id ∧ row.id = st.db.tables.trajectorySeq + 1 ∧
      db.tables.trajectoryEvents = st.db.tables.trajectoryEvents ++ [row] ∧
      db.tables.trajectorySeq = st.db.tables.trajectorySeq + 1

section Steps

variable [DecidableEq W] [PydanticEscapes] {ceiling : Option ℚ} {schedule : List PyStr}
  {st st' : Terrarium W}

theorem step_write {w : W} {runId : PyStr} {write : Write} {env : Env}
    (h : st.step ceiling schedule (.write w runId write env) = some st') :
    st' = st ∨ ∃ db e, st.Commits w db e ∧ st' = st.commit w db e := by
  simp only [step] at h
  split at h
  swap
  · cases h
  · next hc =>
      rcases write_calm runId write hc.2 st.db with
        ⟨hdb, hpub⟩ | ⟨event, row, hpub, hrows, hrow, hseq⟩
      · simp only [hpub, hdb] at h
        exact Or.inl (Option.some.inj h).symm
      · simp only [hpub] at h
        split at h
        · next payload hpayload =>
            refine Or.inr ⟨_, _, ⟨hc.1, .publish _ hpayload, by simp [heartbeat], Or.inr ?_⟩,
              (Option.some.inj h).symm⟩
            exact ⟨row, by rw [hrow], hrow, hrows, hseq⟩
        · cases h

theorem step_verdict {w : W} {request : VerdictEvent} {env : Env}
    (h : st.step ceiling schedule (.verdict w request env) = some st') :
    st' = st ∨ ∃ db e, st.Commits w db e ∧ st' = st.commit w db e := by
  simp only [step] at h
  split at h
  swap
  · cases h
  · next hc =>
      have hrun := submitVerdict_calm request hc.2 st.db
      revert h hrun
      match (submitVerdict request).exec (env.session st.db) with
      | (.ok true, s) =>
          intro h hrun
          cases hpayload : request.modelDumpJson with
          | error e => simp [hpayload] at h
          | ok payload =>
              simp only [hpayload] at h
              have hne := EventClass.modelDumpJson_ne_nil hpayload
              exact Or.inr ⟨_, _, ⟨hc.1, .notifyVerdict hpayload, by simpa [heartbeat] using hne,
                Or.inl ⟨rfl, hrun⟩⟩, (Option.some.inj h).symm⟩
      | (.ok false, s) =>
          intro h hrun
          simp only at h hrun
          rw [hrun] at h
          exact Or.inl (Option.some.inj h).symm
      | (.error e, s) =>
          intro h hrun
          simp only at h hrun
          rw [hrun] at h
          exact Or.inl (Option.some.inj h).symm

theorem step_close {w : W} {runId : PyStr} {outcome : RunOutcome} {abortReason : Option PyStr}
    {env : Env} (h : st.step ceiling schedule (.close w runId outcome abortReason env) = some st') :
    st' = st ∨ ∃ db e, st.Commits w db e ∧ st' = st.commit w db e := by
  simp only [step] at h
  split at h
  swap
  · cases h
  · next hc =>
      have hrun := finishRun_calm runId outcome abortReason hc.2 st.db
      revert h hrun
      match (finishRun runId outcome abortReason).exec (env.session st.db) with
      | (.ok _, s) =>
          intro h hrun
          refine Or.inr ⟨_, _, ⟨hc.1, .notifyFinished runId outcome, ?_, Or.inl ⟨rfl, hrun⟩⟩,
            (Option.some.inj h).symm⟩
          have hpulse : pulsePayload runId outcome ≠ [] := (printing_compactText _).1
          simpa [heartbeat] using hpulse
      | (.error e, s) =>
          intro h hrun
          simp only at h hrun
          rw [hrun] at h
          exact Or.inl (Option.some.inj h).symm

theorem step_cleanUp {w : W} {runId : PyStr} {env : Env}
    (h : st.step ceiling schedule (.cleanUp w runId env) = some st') :
    st' = st ∨ ∃ db, SameEvents st.db db ∧ st' = st.commitSilently db := by
  simp only [step] at h
  split at h
  swap
  · cases h
  · next hc =>
      have hrun := finishRun_calm runId .aborted (some (py "daemon shutdown")) hc.2 st.db
      revert h hrun
      match (finishRun runId .aborted (some (py "daemon shutdown"))).exec (env.session st.db) with
      | (.ok _, s) =>
          intro h hrun
          exact Or.inr ⟨_, hrun, (Option.some.inj h).symm⟩
      | (.error e, s) =>
          intro h hrun
          simp only at h hrun
          rw [hrun] at h
          exact Or.inl (Option.some.inj h).symm

theorem step_abandon {w : W} (h : st.step ceiling schedule (.abandon w) = some st') :
    ∃ env ∈ st.owed w, st' = st.forget w env := by
  obtain ⟨env, henv, rfl⟩ := Option.map_eq_some_iff.1 h
  exact ⟨env, henv, rfl⟩

theorem step_offer {w : W} (h : st.step ceiling schedule (.offer w) = some st') :
    ∃ env ∈ st.owed w,
      st' = { st with hub := st.hub.offer env, owed := Function.update st.owed w none } := by
  simp only [step] at h
  split at h
  · next env henv => exact ⟨env, henv, (Option.some.inj h).symm⟩
  · cases h

theorem step_leave {v : ViewerId} (h : st.step ceiling schedule (.leave v) = some st') :
    ¬ st.IsOurs v ∧ st' = { st with hub := st.hub.deregister v } := by
  simp only [step] at h
  split at h
  · cases h
  · next hours => exact ⟨hours, (Option.some.inj h).symm⟩

theorem step_drain {v : ViewerId} (h : st.step ceiling schedule (.drain v) = some st') :
    ¬ st.IsOurs v ∧ ∃ rest, st' = { st with
      hub := { st.hub with queues := Function.update st.hub.queues v rest } } := by
  simp only [step] at h
  split at h
  · cases h
  · next hours =>
      obtain ⟨r, hr, rfl⟩ := Option.map_eq_some_iff.1 h
      unfold Hub.takeFrom at hr
      split at hr
      · cases hr
      · next env rest hq =>
          cases hr
          exact ⟨hours, rest, rfl⟩

theorem step_serve {i hour : Nat} (h : st.step ceiling schedule (.serve i hour) = some st') :
    ∃ load, st.browser.fetches[i]? = some ⟨load, none⟩ ∧ st' = { st with
      browser := { st.browser with
        fetches := st.browser.fetches.set i
          ⟨load, some ⟨st.db.tables.page ceiling schedule hour, st.commits.length⟩⟩ } } := by
  simp only [step] at h
  split at h
  · next load hload => exact ⟨load, hload, (Option.some.inj h).symm⟩
  · cases h

theorem step_land {i : Nat} (h : st.step ceiling schedule (.land i) = some st') :
    ∃ load p, st.browser.fetches[i]? = some ⟨load, some p⟩ ∧
      st' = { st with browser := st.browser.paint i load p } := by
  simp only [step] at h
  split at h
  · next load p hp => exact ⟨load, p, hp, (Option.some.inj h).symm⟩
  · cases h

theorem step_readSnapshot (h : st.step ceiling schedule .readSnapshot = some st') :
    st.browser.load = .snapshot none ∧ st' = { st with
      browser := { st.browser with load := .snapshot (some st.db.tables.latestId) } } := by
  simp only [step] at h
  split at h
  · next hload => exact ⟨hload, (Option.some.inj h).symm⟩
  · cases h

theorem step_landSnapshot (h : st.step ceiling schedule .landSnapshot = some st') :
    ∃ latestId, st.browser.load = .snapshot (some latestId) ∧ st' = { st with
      browser := { st.browser with load := .opened, since := latestId } } := by
  simp only [step] at h
  split at h
  · next latestId hload => exact ⟨latestId, hload, (Option.some.inj h).symm⟩
  · cases h

theorem step_connect (h : st.step ceiling schedule .connect = some st') :
    (st.browser.load = .opened ∧ st.stream = none ∧ st.browser.wire = []) ∧ st' = { st with
      hub := st.hub.register.2
      stream := some (st.hub.ids, .start st.browser.cursor 0) } := by
  simp only [step] at h
  split at h
  · next hc => exact ⟨hc, (Option.some.inj h).symm⟩
  · cases h

theorem step_select (h : st.step ceiling schedule .select = some st') :
    ∃ v s, st.stream = some (v, s) ∧ s.phase = .connecting ∧
      st' = { st with stream := some (v, s.select st.db.tables.feedLog) } := by
  simp only [step] at h
  split at h
  · next v s hs =>
      split at h
      · next hp => exact ⟨v, s, hs, hp, (Option.some.inj h).symm⟩
      · cases h
  · cases h

theorem step_yieldRow (h : st.step ceiling schedule .yieldRow = some st') :
    ∃ v s env rest, st.stream = some (v, s) ∧ s.phase = .streaming (env :: rest) ∧
      st' = { st with
        stream := some (v, s.yieldRow env rest)
        browser := { st.browser with wire := st.browser.wire ++ [env] } } := by
  simp only [step] at h
  split at h
  · next v s hs =>
      split at h
      · next env rest hp => exact ⟨v, s, env, rest, hs, hp, (Option.some.inj h).symm⟩
      · cases h
  · cases h

theorem step_take (h : st.step ceiling schedule .take = some st') :
    ∃ v s env rest, st.stream = some (v, s) ∧ s.phase = .streaming [] ∧
      st.hub.queues v = env :: rest ∧ st' = { st with
        hub := { st.hub with queues := Function.update st.hub.queues v rest }
        stream := some (v, s.receive env)
        browser := { st.browser with
          wire := st.browser.wire ++ (s.receive env).yielded.drop s.yielded.length } } := by
  simp only [step] at h
  split at h
  · next v s hs =>
      split at h
      · next hp =>
          unfold Hub.takeFrom at h
          cases hq : st.hub.queues v with
          | nil => simp [hq] at h
          | cons env rest =>
              simp only [hq] at h
              exact ⟨v, s, env, rest, hs, hp, hq, (Option.some.inj h).symm⟩
      · cases h
  · cases h

theorem step_timeout (h : st.step ceiling schedule .timeout = some st') :
    ∃ v s, st.stream = some (v, s) ∧ s.phase = .streaming [] ∧ st.hub.queues v = [] ∧
      (st' = st ∨ v ∉ st.hub.viewers ∧
        st' = { st with hub := st.hub.deregister v, stream := none }) := by
  simp only [step] at h
  split at h
  · next v s hs =>
      split at h
      · next hp =>
          refine ⟨v, s, hs, hp.1, hp.2, ?_⟩
          split at h
          · exact Or.inl (Option.some.inj h).symm
          · next hv => exact Or.inr ⟨hv, (Option.some.inj h).symm⟩
      · cases h
  · cases h

theorem step_dispatch (h : st.step ceiling schedule .dispatch = some st') :
    ∃ env rest, st.browser.wire = env :: rest ∧
      st' = { st with browser := st.browser.dispatch env rest } := by
  simp only [step] at h
  split at h
  · next env rest hwire => exact ⟨env, rest, hwire, (Option.some.inj h).symm⟩
  · cases h

theorem step_fire (h : st.step ceiling schedule .fire = some st') :
    st' = { st with browser := st.browser.fire } := by
  simp only [step] at h
  split at h
  · exact (Option.some.inj h).symm
  · cases h

theorem step_post {w : W} (h : st.step ceiling schedule (.post w) = some st') :
    st' = { st with browser := { st.browser with posts := w :: st.browser.posts } } := by
  simp only [step] at h
  split at h
  · exact (Option.some.inj h).symm
  · cases h

theorem step_respond {w : W} (h : st.step ceiling schedule (.respond w) = some st') :
    st' = { st with
      browser := ({ st.browser with posts := st.browser.posts.erase w } : Browser W).refresh } := by
  simp only [step] at h
  split at h
  · exact (Option.some.inj h).symm
  · cases h

end Steps

/-! ## The ledger -/

/-- What is owed after a task has begun to owe `env`. -/
theorem mem_owed_update [DecidableEq W] {owed : W → Option Envelope} {w u : W} {e : Envelope}
    {o : Option Envelope} (h : e ∈ Function.update owed w o u) :
    u = w ∧ e ∈ o ∨ u ≠ w ∧ e ∈ owed u := by
  by_cases hu : u = w
  · subst hu
    rw [Function.update_self] at h
    exact Or.inl ⟨rfl, h⟩
  · rw [Function.update_of_ne hu] at h
    exact Or.inr ⟨hu, h⟩

section Ledger

variable {st : Terrarium W} {w : W} {db : Db} {env : Envelope}

namespace Commits

variable [PydanticJson]

theorem seq_le (h : st.Commits w db env) :
    st.db.tables.trajectorySeq ≤ db.tables.trajectorySeq := by
  rcases h.event with ⟨-, -, hseq⟩ | ⟨row, -, -, -, hseq⟩
  · exact Nat.le_of_eq hseq.symm
  · rw [hseq]
    exact Nat.le_succ _

/-- The log keeps its rows. -/
theorem rows (h : st.Commits w db env) {row : TrajectoryRow}
    (hrow : row ∈ st.db.tables.trajectoryEvents) : row ∈ db.tables.trajectoryEvents := by
  rcases h.event with ⟨-, hrows, -⟩ | ⟨new, -, -, hrows, -⟩
  · rwa [hrows]
  · rw [hrows]
    exact List.mem_append_left _ hrow

/-- The id of an event is new, and logged. -/
theorem issued (h : st.Commits w db env) {i : Nat} (hi : i ∈ env.id) :
    st.db.tables.trajectorySeq < i ∧ i ≤ db.tables.trajectorySeq ∧
      ∃ row ∈ db.tables.trajectoryEvents, row.id = i := by
  rcases h.event with ⟨hid, -⟩ | ⟨row, hid, hrow, hrows, hseq⟩
  · rw [hid] at hi
    cases hi
  · rw [hid] at hi
    cases hi
    rw [hseq, hrow, hrows]
    exact ⟨Nat.lt_succ_self _, Nat.le_refl _, row,
      List.mem_append_right _ (List.mem_singleton_self _), hrow⟩

end Commits

theorem Ledger.commit [DecidableEq W] [PydanticJson] (h : Ledger st) (hc : st.Commits w db env) :
    Ledger (st.commit w db env) where
  logged := by
    intro i hi
    rcases List.mem_append.1 hi with hi | hi
    · obtain ⟨row, hrow, hid⟩ := h.logged i hi
      exact ⟨row, hc.rows hrow, hid⟩
    · exact (hc.issued (List.mem_singleton.1 hi).symm).2.2
  owed := by
    intro u e he
    rcases mem_owed_update he with ⟨-, he⟩ | ⟨-, he⟩
    · cases he
      exact ⟨hc.woken, fun i hi => (hc.issued hi).2.1⟩
    · exact ⟨(h.owed u e he).1, fun i hi => Nat.le_trans ((h.owed u e he).2 i hi) hc.seq_le⟩

theorem Ledger.commitSilently (h : Ledger st) (hsame : SameEvents st.db db) :
    Ledger (st.commitSilently db) where
  logged := by
    intro i hi
    rcases List.mem_append.1 hi with hi | hi
    · exact hsame.1.symm ▸ h.logged i hi
    · cases List.mem_singleton.1 hi
  owed := fun w env henv => ⟨(h.owed w env henv).1, hsame.2.symm ▸ (h.owed w env henv).2⟩

/-- An event that is not published is none of those that wait for it. -/
theorem mem_commits_forget [DecidableEq W] {i : Nat} (h : some i ∈ (st.forget w env).commits) :
    some i ∈ st.commits ∧ env.id ≠ some i := by
  obtain ⟨c, hc, heq⟩ := List.mem_map.1 h
  split at heq
  · cases heq
  · next hne =>
      subst heq
      exact ⟨hc, fun hid => hne hid.symm⟩

theorem Ledger.forget [DecidableEq W] (h : Ledger st) : Ledger (st.forget w env) where
  logged := fun i hi => h.logged i (mem_commits_forget hi).1
  owed := by
    intro u e he
    rcases mem_owed_update he with ⟨-, he⟩ | ⟨-, he⟩
    · cases he
    · exact h.owed u e he

theorem Ledger.offer [DecidableEq W] (h : Ledger st) (hub : Hub) :
    Ledger { st with hub := hub, owed := Function.update st.owed w none } where
  logged := h.logged
  owed := by
    intro u e he
    rcases mem_owed_update he with ⟨-, he⟩ | ⟨-, he⟩
    · cases he
    · exact h.owed u e he

end Ledger

/-! ## The page and its stream -/

section Track

variable {st : Terrarium W}

/-- Another party's step at the hub. -/
theorem Track.hub (h : Track st) {hub : Hub} (hids : st.hub.ids ≤ hub.ids)
    (hq : ∀ v s, st.stream = some (v, s) →
      hub.queues v = st.hub.queues v ∧ (v ∈ hub.viewers → v ∈ st.hub.viewers)) :
    Track { st with hub := hub } := by
  have hupcoming : ({ st with hub := hub } : Terrarium W).upcoming = st.upcoming := by
    unfold Terrarium.upcoming
    cases hs : st.stream with
    | none => rfl
    | some vs => simp only [(hq vs.1 vs.2 hs).1]
  refine ⟨h.loads, h.unopened, h.marked, h.cursor, h.sent, ?_, ?_, ?_⟩
  · rw [hupcoming]
    exact h.upcoming
  · intro v s hs
    exact ⟨Nat.lt_of_lt_of_le (h.viewer v s hs).1 hids, (h.viewer v s hs).2⟩
  · intro v s hs hv hp
    rw [hupcoming]
    exact h.covered v s hs ((hq v s hs).2 hv) hp

/-- A viewer that survives an offer has the envelope to look at. -/
theorem upcoming_offer (st : Terrarium W) (owed : W → Option Envelope) (env : Envelope) :
    ({ st with hub := st.hub.offer env, owed := owed } : Terrarium W).upcoming
      = match st.stream with
        | some (v, _) =>
            if v ∈ (st.hub.offer env).viewers then st.upcoming ++ [env] else st.upcoming
        | none => [] := by
  unfold upcoming
  cases hs : st.stream with
  | none => rfl
  | some vs =>
      obtain ⟨v, s⟩ := vs
      by_cases hv : v ∈ (st.hub.offer env).viewers
      · simp only [if_pos hv, Hub.offer_queue _ _ hv, List.append_assoc]
      · simp only [if_neg hv, Hub.offer_queue_of_not_mem _ _ hv]

theorem mem_upcoming_offer {owed : W → Option Envelope} {env e : Envelope}
    (h : e ∈ ({ st with hub := st.hub.offer env, owed := owed } : Terrarium W).upcoming) :
    e ∈ st.upcoming ∨ e = env := by
  rw [upcoming_offer] at h
  split at h
  · split at h
    · simpa using h
    · exact Or.inl h
  · cases h

theorem upcoming_subset_offer {owed : W → Option Envelope} {env e : Envelope}
    (h : e ∈ st.upcoming) :
    e ∈ ({ st with hub := st.hub.offer env, owed := owed } : Terrarium W).upcoming := by
  rw [upcoming_offer]
  split
  · split
    · exact List.mem_append_left _ h
    · exact h
  · next hs => simp [upcoming, hs] at h

/-- An offer: of a heartbeat, or of what a task owed. -/
theorem Track.offer (h : Track st) {owed : W → Option Envelope} {env : Envelope}
    (henv : ∀ i ∈ env.id, i ≤ st.db.tables.trajectorySeq)
    (howed : ∀ w, ∀ e ∈ st.owed w, e = env ∨ ∃ u, e ∈ owed u) :
    Track { st with hub := st.hub.offer env, owed := owed } := by
  refine ⟨h.loads, h.unopened, h.marked, h.cursor, h.sent, ?_, ?_, ?_⟩
  · intro e he i hi
    rcases mem_upcoming_offer he with he | rfl
    · exact h.upcoming e he i hi
    · exact henv i hi
  · intro v s hs
    refine ⟨?_, (h.viewer v s hs).2⟩
    rw [Hub.offer_ids]
    exact (h.viewer v s hs).1
  · intro v s hs hv hp i hi
    have hmem := (Hub.mem_offer _ _ _).1 hv
    rcases h.covered v s hs hmem.1 hp i hi with hle | ⟨e, he, hid⟩ | ⟨w, e, he, hid⟩
    · exact Or.inl hle
    · exact Or.inr (Or.inl ⟨e, upcoming_subset_offer he, hid⟩)
    · rcases howed w e he with rfl | ⟨u, hu⟩
      · refine Or.inr (Or.inl ⟨e, ?_, hid⟩)
        rw [upcoming_offer, hs]
        simp only [if_pos hv]
        exact List.mem_append_right _ (List.mem_singleton_self _)
      · exact Or.inr (Or.inr ⟨u, e, hu, hid⟩)

theorem Track.commit [DecidableEq W] [PydanticJson] (h : Track st) {w : W} {db : Db}
    {env : Envelope} (hc : st.Commits w db env) : Track (st.commit w db env) := by
  refine ⟨h.loads, h.unopened, Nat.le_trans h.marked hc.seq_le, h.cursor, ?_, ?_, h.viewer, ?_⟩
  · intro hload e he i hi
    exact ⟨Nat.le_trans (h.sent hload e he i hi).1 hc.seq_le, (h.sent hload e he i hi).2⟩
  · exact fun e he i hi => Nat.le_trans (h.upcoming e he i hi) hc.seq_le
  · intro v s hs hv hp i hi
    rcases List.mem_append.1 hi with hi | hi
    · refine (h.covered v s hs hv hp i hi).imp id (Or.imp id ?_)
      rintro ⟨u, e, he, hid⟩
      -- `w` owed nothing
      have hu : u ≠ w := by
        rintro rfl
        rw [hc.idle] at he
        cases he
      refine ⟨u, e, ?_, hid⟩
      show e ∈ Function.update st.owed w (some env) u
      rwa [Function.update_of_ne hu]
    · refine Or.inr (Or.inr ⟨w, env, ?_, (List.mem_singleton.1 hi).symm⟩)
      show env ∈ Function.update st.owed w (some env) w
      rw [Function.update_self]
      rfl

theorem Track.commitSilently (h : Track st) {db : Db} (hsame : SameEvents st.db db) :
    Track (st.commitSilently db) := by
  refine ⟨h.loads, h.unopened, hsame.2.symm ▸ h.marked, h.cursor, hsame.2.symm ▸ h.sent,
    hsame.2.symm ▸ h.upcoming, h.viewer, ?_⟩
  intro v s hs hv hp i hi
  rcases List.mem_append.1 hi with hi | hi
  · exact h.covered v s hs hv hp i hi
  · cases List.mem_singleton.1 hi

theorem Track.forget [DecidableEq W] (h : Track st) {w : W} {env : Envelope}
    (henv : env ∈ st.owed w) : Track (st.forget w env) := by
  refine ⟨h.loads, h.unopened, h.marked, h.cursor, h.sent, h.upcoming, h.viewer, ?_⟩
  intro v s hs hv hp i hi
  obtain ⟨hi, hne⟩ := mem_commits_forget hi
  refine (h.covered v s hs hv hp i hi).imp id (Or.imp id ?_)
  rintro ⟨u, e, he, hid⟩
  have hu : u ≠ w := by
    rintro rfl
    rw [Option.mem_def.1 henv] at he
    cases he
    exact hne hid
  refine ⟨u, e, ?_, hid⟩
  show e ∈ Function.update st.owed w none u
  rwa [Function.update_of_ne hu]

/-- A step of the page that leaves its cursor, its load sequence and the frames alone. -/
theorem Track.page (h : Track st) {b : Browser W} (hload : b.load = st.browser.load)
    (hcursor : b.cursor = st.browser.cursor) (hlast : b.lastEventId = st.browser.lastEventId)
    (hwire : b.wire = st.browser.wire)
    (hloads : b.fetches.countP Fetch.load ≤ st.browser.fetches.countP Fetch.load) :
    Track { st with browser := b } := by
  have hmark : ({ st with browser := b } : Terrarium W).mark = st.mark := by
    unfold mark
    simp only [hload, hcursor]
  refine ⟨?_, ?_, hmark ▸ h.marked, ?_, ?_, h.upcoming, h.viewer, ?_⟩
  · show b.fetches.countP Fetch.load ≤ if b.load = .viewstate then 1 else 0
    rw [hload]
    exact Nat.le_trans hloads h.loads
  · show b.load ≠ .opened → st.stream = none ∧ b.wire = [] ∧ b.lastEventId = none
    rw [hload, hwire, hlast]
    exact h.unopened
  · rw [hmark]
    show b.load = .opened → b.cursor ≤ st.mark
    rw [hload, hcursor]
    exact h.cursor
  · rw [hmark]
    show b.load = .opened → ∀ env ∈ b.wire, _
    rw [hload, hwire]
    exact h.sent
  · rw [hmark]
    exact h.covered

/-- The load sequence goes on from its only fetch. -/
theorem Track.viewstate_of_load (h : Track st) {i : Nat} {answer : Option Painted}
    (hi : st.browser.fetches[i]? = some ⟨true, answer⟩) :
    st.browser.load = .viewstate ∧ (st.browser.fetches.eraseIdx i).countP Fetch.load = 0 := by
  obtain ⟨hlt, hget⟩ := List.getElem?_eq_some_iff.1 hi
  have hcount := (List.getElem_cons_eraseIdx_perm hlt).countP_eq Fetch.load
  rw [List.countP_cons, hget] at hcount
  simp only [if_true] at hcount
  have hloads := h.loads
  by_cases hload : st.browser.load = .viewstate
  · rw [if_pos hload] at hloads
    exact ⟨hload, by omega⟩
  · rw [if_neg hload] at hloads
    omega

theorem mark_land (h : Track st) {i : Nat} {load : Bool} {p : Painted}
    (hi : st.browser.fetches[i]? = some ⟨load, some p⟩) :
    ({ st with browser := st.browser.paint i load p } : Terrarium W).mark = st.mark := by
  cases load with
  | false => rfl
  | true =>
      obtain ⟨hload, -⟩ := h.viewstate_of_load hi
      obtain ⟨hstream, -, -⟩ := h.unopened (by simp [hload])
      simp [mark, hstream, hload, Browser.paint, Browser.cursor]

/-- The first response starts the snapshot. -/
theorem Track.land (h : Track st) {i : Nat} {load : Bool} {p : Painted}
    (hi : st.browser.fetches[i]? = some ⟨load, some p⟩) :
    Track { st with browser := st.browser.paint i load p } := by
  have hmark := mark_land h hi
  cases load with
  | false => exact h.page rfl rfl rfl rfl (List.eraseIdx_sublist _ _).countP_le
  | true =>
      obtain ⟨hload, hcount⟩ := h.viewstate_of_load hi
      obtain ⟨hstream, hwire, hlast⟩ := h.unopened (by simp [hload])
      refine ⟨?_, fun _ => ⟨hstream, hwire, hlast⟩, hmark ▸ h.marked, ?_, ?_, h.upcoming, h.viewer,
        ?_⟩
      · exact Nat.le_of_eq hcount |>.trans (Nat.zero_le _)
      · intro hopened
        cases hopened
      · intro hopened
        cases hopened
      · intro v s hs
        rw [hstream] at hs
        cases hs

theorem latestId_le (db : Db) : db.tables.latestId ≤ db.tables.trajectorySeq := by
  unfold Tables.latestId
  cases hmax : (db.tables.trajectoryEvents.map TrajectoryRow.id).max? with
  | none => exact Nat.zero_le _
  | some i =>
      obtain ⟨row, hrow, rfl⟩ := List.mem_map.1 (List.max?_mem hmax)
      exact db.schema.eventsIssued row hrow

theorem Track.readSnapshot (h : Track st) (hload : st.browser.load = .snapshot none) :
    Track { st with
      browser := { st.browser with load := .snapshot (some st.db.tables.latestId) } } := by
  obtain ⟨hstream, hwire, hlast⟩ := h.unopened (by simp [hload])
  have hloads := h.loads
  rw [if_neg (by simp [hload])] at hloads
  refine ⟨Nat.le_trans hloads (Nat.zero_le _), fun _ => ⟨hstream, hwire, hlast⟩, ?_, ?_, ?_,
    h.upcoming, h.viewer, ?_⟩
  · simpa [mark, hstream] using latestId_le st.db
  · intro hopened
    cases hopened
  · intro hopened
    cases hopened
  · intro v s hs
    rw [hstream] at hs
    cases hs

theorem mark_landSnapshot (h : Track st) {latestId : Nat}
    (hload : st.browser.load = .snapshot (some latestId)) :
    ({ st with
      browser := { st.browser with load := .opened, since := latestId } } : Terrarium W).mark
        = st.mark := by
  obtain ⟨hstream, -, hlast⟩ := h.unopened (by simp [hload])
  simp [mark, hstream, hload, Browser.cursor, hlast]

theorem Track.landSnapshot (h : Track st) {latestId : Nat}
    (hload : st.browser.load = .snapshot (some latestId)) :
    Track { st with browser := { st.browser with load := .opened, since := latestId } } := by
  obtain ⟨hstream, hwire, hlast⟩ := h.unopened (by simp [hload])
  have hloads := h.loads
  rw [if_neg (by simp [hload])] at hloads
  refine ⟨Nat.le_trans hloads (Nat.zero_le _), fun hne => absurd rfl hne, ?_, ?_, ?_, h.upcoming,
    h.viewer, ?_⟩
  · rw [mark_landSnapshot h hload]
    exact h.marked
  · intro _
    simp [mark, hstream]
  · intro _ env henv
    rw [show ({ st.browser with load := .opened, since := latestId } : Browser W).wire
      = [] from hwire] at henv
    cases henv
  · intro v s hs
    rw [hstream] at hs
    cases hs

/-- A stream comes after the load sequence. -/
theorem Track.opened (h : Track st) {c : ViewerId × StreamEvents} (hs : st.stream = some c) :
    st.browser.load = .opened := by
  by_contra hne
  rw [(h.unopened hne).1] at hs
  cases hs

theorem mark_stream {v : ViewerId} {s : StreamEvents} (hs : st.stream = some (v, s)) :
    st.mark = s.highWater := by
  unfold mark
  rw [hs]

theorem mark_idle (hs : st.stream = none) (hload : st.browser.load = .opened) :
    st.mark = st.browser.cursor := by
  unfold mark
  rw [hs, hload]

/-- The browser keeps the id of the last frame it has dispatched. -/
theorem Track.dispatch (h : Track st) {env : Envelope} {rest : List Envelope}
    (hwire : st.browser.wire = env :: rest) :
    Track { st with browser := st.browser.dispatch env rest } := by
  have hload : st.browser.load = .opened := by
    by_contra hne
    rw [(h.unopened hne).2.1] at hwire
    cases hwire
  have hmem : env ∈ st.browser.wire := hwire ▸ List.mem_cons_self
  have hsent := h.sent hload
  have hcursor : ∀ n, st.browser.cursor ≤ n → (∀ i ∈ env.id, i ≤ n) →
      (st.browser.dispatch env rest).cursor ≤ n := by
    intro n hn hid
    unfold Browser.cursor Browser.dispatch
    cases hcase : env.id with
    | none => exact hn
    | some i => exact hid i hcase
  by_cases hs : st.stream = none
  -- without a stream the cursor is the mark, and moves with the frame
  · have hmark : ({ st with browser := st.browser.dispatch env rest } : Terrarium W).mark
        = (st.browser.dispatch env rest).cursor := mark_idle hs hload
    refine ⟨h.loads, fun hne => absurd hload hne, ?_, fun _ => Nat.le_of_eq hmark.symm, ?_,
      h.upcoming, h.viewer, ?_⟩
    · rw [hmark]
      refine hcursor _ ?_ (fun i hi => (hsent env hmem i hi).1)
      rw [← mark_idle hs hload]
      exact h.marked
    · intro _ e he i hi
      exact ⟨(hsent e (hwire ▸ List.mem_cons_of_mem _ he) i hi).1, fun hne => absurd hs hne⟩
    · intro v s hsome
      rw [hs] at hsome
      cases hsome
  -- with one, what was sent is at or below its high-water mark already
  · obtain ⟨⟨v, s⟩, hsome⟩ := Option.ne_none_iff_exists'.1 hs
    have hmark : ({ st with browser := st.browser.dispatch env rest } : Terrarium W).mark
        = st.mark := by
      rw [mark_stream hsome]
      exact mark_stream hsome
    refine ⟨h.loads, fun hne => absurd hload hne, hmark ▸ h.marked, ?_, ?_, h.upcoming, h.viewer,
      ?_⟩
    · intro _
      rw [hmark]
      exact hcursor _ (h.cursor hload) (fun i hi => (hsent env hmem i hi).2 hs)
    · rw [hmark]
      exact fun _ e he => hsent e (hwire ▸ List.mem_cons_of_mem _ he)
    · rw [hmark]
      exact h.covered

theorem mark_connect (hs : st.stream = none) (hload : st.browser.load = .opened) :
    ({ st with
      hub := st.hub.register.2
      stream := some (st.hub.ids, .start st.browser.cursor 0) } : Terrarium W).mark = st.mark :=
  (mark_idle hs hload).symm

theorem upcoming_connect (st : Terrarium W) (n : Nat) :
    ({ st with
      hub := st.hub.register.2
      stream := some (st.hub.ids, .start n 0) } : Terrarium W).upcoming = [] := by
  simp [Terrarium.upcoming, StreamEvents.waiting, StreamEvents.start, Hub.register_queue]

theorem Track.connect (h : Track st) (hload : st.browser.load = .opened)
    (hs : st.stream = none) (hwire : st.browser.wire = []) :
    Track { st with
      hub := st.hub.register.2
      stream := some (st.hub.ids, .start st.browser.cursor 0) } := by
  have hmark := mark_connect hs hload
  refine ⟨h.loads, fun hne => absurd hload hne, hmark ▸ h.marked, ?_, ?_, ?_, ?_, ?_⟩
  · intro _
    rw [hmark]
    exact h.cursor hload
  · intro _ env henv
    rw [show st.browser.wire = [] from hwire] at henv
    cases henv
  · rw [upcoming_connect]
    simp
  · rintro v s ⟨⟩
    exact ⟨Nat.lt_succ_self _, by simp [StreamEvents.start], fun _ => rfl⟩
  · rintro v s ⟨⟩ _ hp
    exact absurd rfl hp

variable {v : ViewerId} {s : StreamEvents}

theorem waiting_of_connecting (hp : s.phase = .connecting) : s.waiting = [] := by
  simp [StreamEvents.waiting, hp]

theorem waiting_of_streaming {rest : List Envelope} (hp : s.phase = .streaming rest) :
    s.waiting = rest := by
  simp [StreamEvents.waiting, hp]

theorem upcoming_stream (hs : st.stream = some (v, s)) :
    st.upcoming = s.waiting ++ st.hub.queues v := by
  simp [Terrarium.upcoming, hs]

/-- The catch-up goes up to the last id that was issued. -/
theorem Track.select [PydanticJson] (h : Track st) (hledger : Ledger st)
    (hs : st.stream = some (v, s)) (hp : s.phase = .connecting) :
    Track { st with stream := some (v, s.select st.db.tables.feedLog) } := by
  have hmark : ({ st with stream := some (v, s.select st.db.tables.feedLog) } : Terrarium W).mark
      = st.mark := (mark_stream hs).symm
  have hupcoming := upcoming_stream hs
  rw [waiting_of_connecting hp, List.nil_append] at hupcoming
  have hload : st.browser.load = .opened := h.opened hs
  refine ⟨h.loads, fun hne => absurd hload hne, hmark ▸ h.marked, ?_, ?_, ?_, ?_, ?_⟩
  · rw [hmark]
    exact h.cursor
  · rw [hmark]
    intro hopened env henv i hi
    exact ⟨(h.sent hopened env henv i hi).1,
      fun _ => (h.sent hopened env henv i hi).2 (by rw [hs]; simp)⟩
  · intro env henv i hi
    rcases List.mem_append.1 henv with henv | henv
    · obtain ⟨r, hr, -, rfl⟩ := mem_catchUp.1 henv
      obtain ⟨row, hrow, rfl⟩ := List.mem_map.1 hr
      cases hi
      exact st.db.schema.eventsIssued row hrow
    · exact h.upcoming env (hupcoming ▸ henv) i hi
  · rintro u t ⟨⟩
    exact ⟨(h.viewer v s hs).1, by simp [StreamEvents.select], by simp [StreamEvents.select]⟩
  -- a commit is in the log that is selected now, so it was seen before or is caught up with
  · rintro u t ⟨⟩ _ _ i hi
    obtain ⟨row, hrow, rfl⟩ := hledger.logged i hi
    rw [hmark, mark_stream hs, ← (h.viewer v s hs).2.2 hp]
    by_cases hle : row.id ≤ s.lastSeen
    · exact Or.inl hle
    · refine Or.inr (Or.inl ⟨_, List.mem_append_left _ (mem_catchUp.2
        ⟨_, List.mem_map.2 ⟨row, hrow, rfl⟩, Nat.lt_of_not_le hle, rfl⟩), rfl⟩)

/-- The stream looked at one envelope: it sent it or not, and its mark is not below the id. -/
structure Advances (s s' : StreamEvents) (env : Envelope) (sent : List Envelope) : Prop where
  streaming : ∃ rest, s.phase = .streaming rest
  high : s'.highWater = s.highWater ∨ s'.highWater ∈ env.id
  le : s.highWater ≤ s'.highWater
  passed : ∀ i ∈ env.id, i ≤ s'.highWater
  only : ∀ e ∈ sent, e = env
  skipped : env ∉ sent → s'.highWater = s.highWater ∧ ∃ i ∈ env.id, i ≤ s.highWater

theorem advances_yieldRow {env : Envelope} {rest : List Envelope}
    (hp : s.phase = .streaming (env :: rest)) :
    Advances s (s.yieldRow env rest) env [env] := by
  unfold StreamEvents.yieldRow
  cases hid : env.id with
  | none =>
      refine ⟨⟨_, hp⟩, Or.inl rfl, Nat.le_refl _, by simp [hid], by simp, by simp⟩
  | some i =>
      refine ⟨⟨_, hp⟩, ?_, Nat.le_max_left _ _, ?_, by simp, by simp⟩
      · rw [hid]
        rcases Nat.le_total s.highWater i with hi | hi
        · exact Or.inr (congrArg some (Nat.max_eq_right hi).symm)
        · exact Or.inl (Nat.max_eq_left hi)
      · intro j hj
        rw [hid] at hj
        cases hj
        exact Nat.le_max_right _ _

theorem advances_receive {env : Envelope} (hp : s.phase = .streaming []) :
    Advances s (s.receive env) env ((s.receive env).yielded.drop s.yielded.length) := by
  unfold StreamEvents.receive
  cases hid : env.id with
  | none =>
      refine ⟨⟨_, hp⟩, Or.inl rfl, Nat.le_refl _, by simp [hid], by simp, by simp⟩
  | some i =>
      by_cases hi : s.highWater < i
      · simp only [if_pos hi]
        refine ⟨⟨_, hp⟩, Or.inr hid, Nat.le_of_lt hi, ?_, by simp, by simp⟩
        intro j hj
        rw [hid] at hj
        cases hj
        exact Nat.le_refl _
      · simp only [if_neg hi]
        refine ⟨⟨_, hp⟩, Or.inl rfl, Nat.le_refl _, ?_, by simp, fun _ => ⟨rfl, i, hid, ?_⟩⟩
        · intro j hj
          rw [hid] at hj
          cases hj
          exact Nat.le_of_not_lt hi
        · exact Nat.le_of_not_lt hi

/-- The state after the stream has looked at an envelope. -/
def advance (st : Terrarium W) (v : ViewerId) (s : StreamEvents) (hub : Hub)
    (sent : List Envelope) : Terrarium W :=
  { st with
    hub := hub
    stream := some (v, s)
    browser := { st.browser with wire := st.browser.wire ++ sent } }

theorem Track.advance (h : Track st) (hs : st.stream = some (v, s)) {s' : StreamEvents} {hub : Hub}
    {env : Envelope} {rest sent : List Envelope} (hadv : Advances s s' env sent)
    (hids : hub.ids = st.hub.ids) (hviewers : hub.viewers = st.hub.viewers)
    (hp : s'.phase = .streaming rest) (hup : st.upcoming = env :: (rest ++ hub.queues v)) :
    Track (st.advance v s' hub sent) := by
  have hload : st.browser.load = .opened := h.opened hs
  have hmark := mark_stream hs
  have hmark' : (st.advance v s' hub sent).mark = s'.highWater := rfl
  have hup' : (st.advance v s' hub sent).upcoming = rest ++ hub.queues v := by
    rw [← waiting_of_streaming hp]
    rfl
  have henv : ∀ i ∈ env.id, i ≤ st.db.tables.trajectorySeq :=
    h.upcoming env (hup ▸ List.mem_cons_self)
  have hseq : s'.highWater ≤ st.db.tables.trajectorySeq := by
    rcases hadv.high with heq | hmem
    · rw [heq, ← hmark]
      exact h.marked
    · exact henv _ hmem
  refine ⟨h.loads, fun hne => absurd hload hne, hseq, fun _ => ?_, ?_, ?_, ?_, ?_⟩
  · rw [hmark']
    exact Nat.le_trans (hmark ▸ h.cursor hload) hadv.le
  · rintro - e he i hi
    rw [hmark']
    rcases List.mem_append.1 he with he | he
    · have hsent := h.sent hload e he i hi
      refine ⟨hsent.1, fun _ => Nat.le_trans ?_ hadv.le⟩
      rw [← hmark]
      exact hsent.2 (by rw [hs]; simp)
    · cases hadv.only e he
      exact ⟨henv i hi, fun _ => hadv.passed i hi⟩
  · rw [hup']
    exact fun e he => h.upcoming e (hup ▸ List.mem_cons_of_mem _ he)
  · rintro u t ⟨⟩
    rw [hp]
    refine ⟨?_, by simp, by simp⟩
    show v < hub.ids
    rw [hids]
    exact (h.viewer v s hs).1
  -- the envelope that was upcoming is below the new mark; the others are still upcoming
  · rintro u t ⟨⟩ hv - i hi
    rw [hmark', hup']
    obtain ⟨old, hold⟩ := hadv.streaming
    rw [show (st.advance v s' hub sent).hub.viewers = st.hub.viewers from hviewers] at hv
    rcases h.covered v s hs hv (by simp [hold]) i hi with hle | ⟨e, he, hid⟩ | howed
    · exact Or.inl (Nat.le_trans (hmark ▸ hle) hadv.le)
    · rw [hup] at he
      rcases List.mem_cons.1 he with rfl | he
      · exact Or.inl (hadv.passed _ hid)
      · exact Or.inr (Or.inl ⟨e, he, hid⟩)
    · exact Or.inr (Or.inr howed)

theorem Track.close (h : Track st) (hs : st.stream = some (v, s)) (hub : Hub) :
    Track { st with hub := hub, stream := none } := by
  have hload : st.browser.load = .opened := h.opened hs
  have hmark : ({ st with hub := hub, stream := none } : Terrarium W).mark = st.browser.cursor :=
    mark_idle rfl hload
  refine ⟨h.loads, fun hne => absurd hload hne, ?_, fun _ => Nat.le_of_eq hmark.symm, ?_, ?_, ?_,
    ?_⟩
  · rw [hmark]
    exact Nat.le_trans (h.cursor hload) h.marked
  · exact fun _ env henv i hi => ⟨(h.sent hload env henv i hi).1, fun hne => absurd rfl hne⟩
  · rintro env henv
    cases henv
  · rintro u t ⟨⟩
  · rintro u t ⟨⟩

end Track

/-! ## The responses -/

section Painted

variable {st : Terrarium W} {i : Nat} {load : Bool} {p q : Painted}

theorem mem_painted_serve
    (h : q ∈ ({ st.browser with fetches := st.browser.fetches.set i ⟨load, some p⟩ } :
      Browser W).painted) : q ∈ st.browser.painted ∨ q = p := by
  rcases List.mem_append.1 h with h | h
  · exact Or.inl (List.mem_append_left _ h)
  · obtain ⟨f, hf, hanswer⟩ := List.mem_filterMap.1 h
    rcases List.mem_or_eq_of_mem_set hf with hf | rfl
    · exact Or.inl (List.mem_append_right _ (List.mem_filterMap.2 ⟨f, hf, hanswer⟩))
    · cases hanswer
      exact Or.inr rfl

theorem mem_painted_land (hi : st.browser.fetches[i]? = some ⟨load, some p⟩)
    (h : q ∈ (st.browser.paint i load p).painted) : q ∈ st.browser.painted := by
  have hp : p ∈ st.browser.painted :=
    List.mem_append_right _ (List.mem_filterMap.2 ⟨_, List.mem_of_getElem? hi, rfl⟩)
  rcases List.mem_append.1 h with h | h
  · rw [show (st.browser.paint i load p).board = some p from rfl] at h
    rw [List.mem_singleton.1 h]
    exact hp
  · obtain ⟨f, hf, hanswer⟩ := List.mem_filterMap.1 h
    exact List.mem_append_right _
      (List.mem_filterMap.2 ⟨f, List.mem_of_mem_eraseIdx hf, hanswer⟩)

/-- Only the old board goes. -/
theorem painted_land (hi : st.browser.fetches[i]? = some ⟨load, some p⟩)
    (h : q ∈ st.browser.fetches.filterMap Fetch.answer) :
    q ∈ (st.browser.paint i load p).painted := by
  obtain ⟨f, hf, hanswer⟩ := List.mem_filterMap.1 h
  obtain ⟨j, hj⟩ := List.mem_iff_getElem?.1 hf
  by_cases hij : j = i
  · rw [hij, hi] at hj
    cases hj
    cases hanswer
    exact List.mem_append_left _ (List.mem_singleton_self _)
  · exact List.mem_append_right _ (List.mem_filterMap.2
      ⟨f, List.mem_eraseIdx_iff_getElem?.2 ⟨j, hij, hj⟩, hanswer⟩)

theorem mem_painted_refresh {b : Browser W} (h : q ∈ b.refresh.painted) : q ∈ b.painted := by
  rcases List.mem_append.1 h with h | h
  · exact List.mem_append_left _ h
  · refine List.mem_append_right _ ?_
    simpa [Browser.refresh] using h

theorem countP_refresh {b : Browser W} :
    b.refresh.fetches.countP Fetch.load ≤ b.fetches.countP Fetch.load := by
  simp [Browser.refresh]

theorem missed_subset (st : Terrarium W) (h : p.reads ≤ q.reads) {c : Option Nat}
    (hc : c ∈ st.missed q) : c ∈ st.missed p :=
  (List.drop_sublist_drop_left st.commits h).subset hc

theorem Awaited.of_le (h : st.Awaited p) (hle : p.reads ≤ q.reads) : st.Awaited q :=
  ⟨fun i hi => h.1 i (st.missed_subset hle hi), fun hnone => h.2 (st.missed_subset hle hnone)⟩

end Painted

/-! ## A repaint is on its way, or every missed commit is awaited -/

/-- The board will be right. -/
def Fresh (st : Terrarium W) : Prop := st.Wakes ∨ ∃ p ∈ st.browser.painted, st.Awaited p

section Fresh

variable {st : Terrarium W}

/-- Nothing of what wakes the browser is lost at the hub. -/
theorem Wakes.hub (h : st.Wakes) {hub : Hub} {owed : W → Option Envelope}
    (hup : ∀ e ∈ st.upcoming, e ∈ ({ st with hub := hub, owed := owed } : Terrarium W).upcoming) :
    ({ st with hub := hub, owed := owed } : Terrarium W).Wakes := by
  rcases h with h | h | h | h | ⟨e, he, hpass⟩
  · exact Or.inl h
  · exact Or.inr (Or.inl h)
  · exact Or.inr (Or.inr (Or.inl h))
  · exact Or.inr (Or.inr (Or.inr (Or.inl h)))
  · exact Or.inr (Or.inr (Or.inr (Or.inr ⟨e, hup e he, hpass⟩)))

theorem Fresh.hub (h : Fresh st) {hub : Hub}
    (hup : ∀ e ∈ st.upcoming, e ∈ ({ st with hub := hub } : Terrarium W).upcoming) :
    Fresh { st with hub := hub } :=
  h.imp (fun hw => hw.hub hup) (fun hp => hp)

theorem Fresh.commit [DecidableEq W] [PydanticJson] (h : Fresh st) (htrack : Track st)
    (hreads : ∀ p ∈ st.browser.painted, p.reads ≤ st.commits.length) {w : W} {db : Db}
    {env : Envelope} (hc : st.Commits w db env) : Fresh (st.commit w db env) := by
  refine h.imp (fun hw => hw) ?_
  rintro ⟨p, hp, hids, hnone⟩
  refine ⟨p, hp, ?_⟩
  have hmissed : (st.commit w db env).missed p = st.missed p ++ [env.id] :=
    List.drop_append_of_le_length (hreads p hp)
  have howes : st.Owes → (st.commit w db env).Owes := by
    rintro ⟨u, e, he, hid⟩
    have hu : u ≠ w := by
      rintro rfl
      rw [hc.idle] at he
      cases he
    refine ⟨u, e, ?_, hid⟩
    show e ∈ Function.update st.owed w (some env) u
    rwa [Function.update_of_ne hu]
  unfold Awaited
  rw [hmissed]
  refine ⟨fun i hi => ?_, fun hi => ?_⟩
  · rcases List.mem_append.1 hi with hi | hi
    · exact hids i hi
    · have hissued := hc.issued (i := i) (List.mem_singleton.1 hi).symm
      exact Nat.lt_of_le_of_lt htrack.marked hissued.1
  · rcases List.mem_append.1 hi with hi | hi
    · exact howes (hnone hi)
    · refine ⟨w, env, ?_, (List.mem_singleton.1 hi).symm⟩
      show env ∈ Function.update st.owed w (some env) w
      rw [Function.update_self]
      rfl

theorem Fresh.commitSilently (h : Fresh st)
    (hreads : ∀ p ∈ st.browser.painted, p.reads ≤ st.commits.length)
    (hcareful : st.Wakes ∨ st.Owes) (db : Db) : Fresh (st.commitSilently db) := by
  rcases h with hw | ⟨p, hp, hids, -⟩
  · exact Or.inl hw
  rcases hcareful with hw | howes
  · exact Or.inl hw
  refine Or.inr ⟨p, hp, fun i hi => hids i ?_, fun _ => howes⟩
  rw [show (st.commitSilently db).missed p = st.missed p ++ [none] from
    List.drop_append_of_le_length (hreads p hp)] at hi
  simpa using hi

/-- Of two responses, the one that was read later missed less. -/
theorem later_awaited (st : Terrarium W) {p q : Painted} (hq : st.Awaited q) {C : Option Nat → Prop}
    (hp : ∀ c ∈ st.missed p, C c) (hpp : p ∈ st.browser.painted) (hqp : q ∈ st.browser.painted) :
    ∃ r ∈ st.browser.painted, st.Awaited r ∧ ∀ c ∈ st.missed r, C c := by
  rcases Nat.le_total q.reads p.reads with hle | hle
  · exact ⟨p, hpp, hq.of_le hle, hp⟩
  · exact ⟨q, hqp, hq, fun c hc => hp c (st.missed_subset hle hc)⟩

theorem listens_upcoming {owed : W → Option Envelope} {env : Envelope} (h : st.Listens) :
    env ∈ ({ st with hub := st.hub.offer env, owed := owed } : Terrarium W).upcoming := by
  obtain ⟨⟨v, s⟩, hs, hmem, hfull⟩ := h
  rw [upcoming_offer, Option.mem_def.1 hs]
  simp only [if_pos ((Hub.mem_offer _ _ _).2 ⟨hmem, hfull⟩)]
  exact List.mem_append_right _ (List.mem_singleton_self _)

theorem Fresh.offer [DecidableEq W] (h : Fresh st) (hledger : Ledger st) {w : W} {env : Envelope}
    (henv : env ∈ st.owed w) (hcareful : st.Careful (.offer w)) :
    Fresh { st with hub := st.hub.offer env, owed := Function.update st.owed w none } := by
  have hkeep : st.Wakes → Fresh
      { st with hub := st.hub.offer env, owed := Function.update st.owed w none } :=
    fun hw => Or.inl (hw.hub (fun _ he => upcoming_subset_offer he))
  rcases h with hw | ⟨q, hq, hawaited⟩
  · exact hkeep hw
  by_cases hid : env.id = none
  · rcases hcareful ⟨env, henv, hid⟩ with hw | hlisten | ⟨p, hp, hnone⟩
    · exact hkeep hw
    · refine Or.inl (Or.inr (Or.inr (Or.inr (Or.inr ⟨env, listens_upcoming hlisten, ?_⟩))))
      refine ⟨(hledger.owed w env henv).1, fun i hi => ?_⟩
      rw [hid] at hi
      cases hi
    · obtain ⟨r, hr, hawaited, hsome⟩ := st.later_awaited (C := fun c => c ≠ none) hawaited
        (fun c hc hcn => hnone (hcn ▸ hc)) hp hq
      exact Or.inr ⟨r, hr, hawaited.1, fun hmem => absurd rfl (hsome _ hmem)⟩
  · refine Or.inr ⟨q, hq, hawaited.1, fun hmem => ?_⟩
    obtain ⟨u, e, he, hnone⟩ := hawaited.2 hmem
    have hu : u ≠ w := by
      rintro rfl
      rw [Option.mem_def.1 henv] at he
      cases he
      exact hid hnone
    refine ⟨u, e, ?_, hnone⟩
    show e ∈ Function.update st.owed w none u
    rwa [Function.update_of_ne hu]

/-- What is not handed over was seen by a response. -/
theorem Fresh.forget [DecidableEq W] (h : Fresh st) {w : W} {env : Envelope}
    (henv : env ∈ st.owed w) (hcareful : st.Careful (.abandon w)) : Fresh (st.forget w env) := by
  rcases h with hw | ⟨q, hq, hawaited⟩
  · exact Or.inl hw
  rcases hcareful env henv with hw | ⟨p, hp, hseen⟩
  · exact Or.inl hw
  obtain ⟨r, hr, hawaited, hne⟩ := st.later_awaited (C := fun c => c ≠ env.id) hawaited
    (fun c hc heq => hseen (heq ▸ hc)) hp hq
  have hmissed : (st.forget w env).missed r = st.missed r := by
    unfold missed Terrarium.forget
    rw [← List.map_drop]
    exact (List.map_congr_left (fun c hc => if_neg (hne c hc))).trans (List.map_id _)
  refine Or.inr ⟨r, hr, ?_⟩
  unfold Awaited
  rw [hmissed]
  refine ⟨hawaited.1, fun hnone => ?_⟩
  obtain ⟨u, e, he, hid⟩ := hawaited.2 hnone
  have hu : u ≠ w := by
    rintro rfl
    rw [Option.mem_def.1 henv] at he
    cases he
    exact hne none hnone hid.symm
  refine ⟨u, e, ?_, hid⟩
  show e ∈ Function.update st.owed w none u
  rwa [Function.update_of_ne hu]

/-- A step of the page that leaves its mark and the frames alone, and loses no request. -/
theorem Wakes.page (h : st.Wakes) {b : Browser W}
    (hmark : ({ st with browser := b } : Terrarium W).mark = st.mark)
    (hfetches : ∀ f ∈ st.browser.fetches, f.answer = none → f ∈ b.fetches)
    (htimer : st.browser.repaintTimer = true → b.repaintTimer = true)
    (hposts : b.posts = st.browser.posts)
    (hwire : ∀ e ∈ st.browser.wire, e ≠ heartbeat → e ∈ b.wire) :
    ({ st with browser := b } : Terrarium W).Wakes := by
  rcases h with ⟨f, hf, hanswer⟩ | h | h | ⟨e, he, hne⟩ | ⟨e, he, hne, hpass⟩
  · exact Or.inl ⟨f, hfetches f hf hanswer, hanswer⟩
  · exact Or.inr (Or.inl (htimer h))
  · refine Or.inr (Or.inr (Or.inl ?_))
    show b.posts ≠ []
    rwa [hposts]
  · exact Or.inr (Or.inr (Or.inr (Or.inl ⟨e, hwire e he hne, hne⟩)))
  · refine Or.inr (Or.inr (Or.inr (Or.inr ⟨e, he, hne, ?_⟩)))
    rw [hmark]
    exact hpass

theorem Awaited.page {p : Painted} (h : st.Awaited p) {b : Browser W}
    (hmark : ({ st with browser := b } : Terrarium W).mark = st.mark) :
    ({ st with browser := b } : Terrarium W).Awaited p :=
  ⟨fun i hi => by rw [hmark]; exact h.1 i hi, h.2⟩

theorem Fresh.land (h : Fresh st) (htrack : Track st) {i : Nat} {load : Bool} {p : Painted}
    (hi : st.browser.fetches[i]? = some ⟨load, some p⟩) (hcareful : st.Careful (.land i)) :
    Fresh { st with browser := st.browser.paint i load p } := by
  have hmark := mark_land htrack hi
  have hkeep : st.Wakes → Fresh { st with browser := st.browser.paint i load p } := by
    refine fun hw => Or.inl (hw.page hmark (fun f hf hanswer => ?_) (fun ht => ht) rfl
      (fun _ he _ => he))
    obtain ⟨j, hj⟩ := List.mem_iff_getElem?.1 hf
    refine List.mem_eraseIdx_iff_getElem?.2 ⟨j, ?_, hj⟩
    rintro rfl
    rw [hi] at hj
    cases hj
    cases hanswer
  rcases h with hw | ⟨q, hq, hawaited⟩
  · exact hkeep hw
  rcases hcareful with hw | hboard
  · exact hkeep hw
  rcases List.mem_append.1 hq with hq | hq
  · obtain ⟨r, hr, hle⟩ := hboard q (Option.mem_toList.1 hq)
    exact Or.inr ⟨r, painted_land hi hr, (hawaited.of_le hle).page hmark⟩
  · exact Or.inr ⟨q, painted_land hi hq, hawaited.page hmark⟩

/-- A response that has just been read missed nothing. -/
theorem fresh_serve (st : Terrarium W) {i : Nat} {f : Fetch} {load : Bool} {html : PyStr}
    (hi : st.browser.fetches[i]? = some f) :
    Fresh { st with
      browser := { st.browser with
        fetches := st.browser.fetches.set i ⟨load, some ⟨html, st.commits.length⟩⟩ } } := by
  obtain ⟨hlt, -⟩ := List.getElem?_eq_some_iff.1 hi
  refine Or.inr ⟨⟨html, st.commits.length⟩, List.mem_append_right _ (List.mem_filterMap.2
    ⟨_, List.mem_set hlt _, rfl⟩), ?_⟩
  have hmissed : ∀ c, c ∉ st.missed ⟨html, st.commits.length⟩ := by simp [missed]
  exact ⟨fun i hi => absurd hi (hmissed _), fun hi => absurd hi (hmissed _)⟩

theorem Fresh.readSnapshot (h : Fresh st) (htrack : Track st)
    (hload : st.browser.load = .snapshot none) (hcareful : st.Careful .readSnapshot) :
    Fresh { st with
      browser := { st.browser with load := .snapshot (some st.db.tables.latestId) } } := by
  obtain ⟨hstream, -, -⟩ := htrack.unopened (by simp [hload])
  have hkeep : st.Wakes → Fresh { st with
      browser := { st.browser with load := .snapshot (some st.db.tables.latestId) } } := by
    rintro (hw | hw | hw | hw | ⟨e, he, -⟩)
    · exact Or.inl (Or.inl hw)
    · exact Or.inl (Or.inr (Or.inl hw))
    · exact Or.inl (Or.inr (Or.inr (Or.inl hw)))
    · exact Or.inl (Or.inr (Or.inr (Or.inr (Or.inl hw))))
    · rw [upcoming, hstream] at he
      cases he
  rcases h with hw | ⟨q, hq, hawaited⟩
  · exact hkeep hw
  rcases hcareful with hw | ⟨p, hp, hquiet⟩
  · exact hkeep hw
  obtain ⟨r, hr, hawaited, hnone⟩ := st.later_awaited (C := fun c => c = none) hawaited hquiet hp hq
  refine Or.inr ⟨r, hr, fun i hi => ?_, hawaited.2⟩
  cases hnone _ hi

theorem Fresh.dispatch (h : Fresh st) {env : Envelope} {rest : List Envelope}
    (hwire : st.browser.wire = env :: rest) :
    Fresh { st with browser := st.browser.dispatch env rest } := by
  by_cases hbeat : env = heartbeat
  · -- a comment: neither the cursor nor the timer changes
    have hmark : ({ st with browser := st.browser.dispatch env rest } : Terrarium W).mark
        = st.mark := by
      rw [hbeat]
      rfl
    rcases h with hw | ⟨p, hp, hawaited⟩
    · refine Or.inl (hw.page hmark (fun _ hf _ => hf) (fun ht => ?_) rfl (fun e he hne => ?_))
      · simp [Browser.dispatch, ht]
      · rw [hwire] at he
        exact (List.mem_cons.1 he).resolve_left (fun heq => hne (heq.trans hbeat))
    · exact Or.inr ⟨p, hp, hawaited.page hmark⟩
  · exact Or.inl (Or.inr (Or.inl (by simp [Browser.dispatch, hbeat])))

theorem Fresh.connect (h : Fresh st) (hload : st.browser.load = .opened)
    (hs : st.stream = none) :
    Fresh { st with
      hub := st.hub.register.2
      stream := some (st.hub.ids, .start st.browser.cursor 0) } := by
  have hmark := mark_connect hs hload
  rcases h with (hw | hw | hw | hw | ⟨e, he, -⟩) | ⟨p, hp, hawaited⟩
  · exact Or.inl (Or.inl hw)
  · exact Or.inl (Or.inr (Or.inl hw))
  · exact Or.inl (Or.inr (Or.inr (Or.inl hw)))
  · exact Or.inl (Or.inr (Or.inr (Or.inr (Or.inl hw))))
  · rw [upcoming, hs] at he
    cases he
  · exact Or.inr ⟨p, hp, fun i hi => by rw [hmark]; exact hawaited.1 i hi, hawaited.2⟩

variable {v : ViewerId} {s : StreamEvents}

theorem Fresh.select [PydanticJson] (h : Fresh st) (hs : st.stream = some (v, s))
    (hp : s.phase = .connecting) :
    Fresh { st with stream := some (v, s.select st.db.tables.feedLog) } := by
  have hmark : ({ st with stream := some (v, s.select st.db.tables.feedLog) } : Terrarium W).mark
      = st.mark := (mark_stream hs).symm
  rcases h with (hw | hw | hw | hw | ⟨e, he, hne, hpass⟩) | ⟨p, hpainted, hawaited⟩
  · exact Or.inl (Or.inl hw)
  · exact Or.inl (Or.inr (Or.inl hw))
  · exact Or.inl (Or.inr (Or.inr (Or.inl hw)))
  · exact Or.inl (Or.inr (Or.inr (Or.inr (Or.inl hw))))
  · rw [upcoming_stream hs, waiting_of_connecting hp] at he
    refine Or.inl (Or.inr (Or.inr (Or.inr (Or.inr ⟨e, List.mem_append_right _ he, hne, ?_⟩))))
    rw [hmark]
    exact hpass
  · refine Or.inr ⟨p, hpainted, fun i hi => ?_, hawaited.2⟩
    rw [hmark]
    exact hawaited.1 i hi

/-- The mark moves only with a frame that wakes the browser. -/
theorem Fresh.advance (h : Fresh st) (hs : st.stream = some (v, s)) {s' : StreamEvents} {hub : Hub}
    {env : Envelope} {rest sent : List Envelope} (hadv : Advances s s' env sent)
    (hp : s'.phase = .streaming rest) (hup : st.upcoming = env :: (rest ++ hub.queues v)) :
    Fresh (st.advance v s' hub sent) := by
  have hmark := mark_stream hs
  have hmark' : (st.advance v s' hub sent).mark = s'.highWater := rfl
  have hup' : (st.advance v s' hub sent).upcoming = rest ++ hub.queues v := by
    rw [← waiting_of_streaming hp]
    rfl
  by_cases hsent : env ∈ sent ∧ env ≠ heartbeat
  · exact Or.inl (Or.inr (Or.inr (Or.inr (Or.inl
      ⟨env, List.mem_append_right _ hsent.1, hsent.2⟩))))
  -- a heartbeat, or an id at or below the mark
  have hsame : s'.highWater = s.highWater := by
    rcases hadv.high with heq | hmem
    · exact heq
    · refine (hadv.skipped (fun hin => hsent ⟨hin, ?_⟩)).1
      rintro rfl
      cases hmem
  rcases h with (hw | hw | hw | ⟨e, he, hne⟩ | ⟨e, he, hne, hpass⟩) | ⟨p, hpainted, hawaited⟩
  · exact Or.inl (Or.inl hw)
  · exact Or.inl (Or.inr (Or.inl hw))
  · exact Or.inl (Or.inr (Or.inr (Or.inl hw)))
  · exact Or.inl (Or.inr (Or.inr (Or.inr (Or.inl ⟨e, List.mem_append_left _ he, hne⟩))))
  · rw [hup] at he
    rcases List.mem_cons.1 he with rfl | he
    · obtain ⟨-, i, hi, hle⟩ := hadv.skipped (fun hin => hsent ⟨hin, hne⟩)
      have hlt := hpass i hi
      omega
    · refine Or.inl (Or.inr (Or.inr (Or.inr (Or.inr ⟨e, hup' ▸ he, hne, ?_⟩))))
      rw [hmark', hsame, ← hmark]
      exact hpass
  · refine Or.inr ⟨p, hpainted, fun i hi => ?_, hawaited.2⟩
    rw [hmark', hsame, ← hmark]
    exact hawaited.1 i hi

theorem Fresh.close (h : Fresh st) (htrack : Track st) (hs : st.stream = some (v, s))
    (hp : s.phase = .streaming []) (hq : st.hub.queues v = []) (hub : Hub) :
    Fresh { st with hub := hub, stream := none } := by
  have hload : st.browser.load = .opened := htrack.opened hs
  rcases h with (hw | hw | hw | hw | ⟨e, he, -⟩) | ⟨p, hpainted, hawaited⟩
  · exact Or.inl (Or.inl hw)
  · exact Or.inl (Or.inr (Or.inl hw))
  · exact Or.inl (Or.inr (Or.inr (Or.inl hw)))
  · exact Or.inl (Or.inr (Or.inr (Or.inr (Or.inl hw))))
  · rw [upcoming_stream hs, waiting_of_streaming hp, hq] at he
    cases he
  · refine Or.inr ⟨p, hpainted, fun i hi => ?_, hawaited.2⟩
    have hmark : ({ st with hub := hub, stream := none } : Terrarium W).mark = st.browser.cursor :=
      mark_idle rfl hload
    rw [hmark]
    exact Nat.lt_of_le_of_lt (htrack.cursor hload) (hawaited.1 i hi)

end Fresh

/-! ## Every run -/

section Runs

variable (ceiling : Option ℚ) (schedule : List PyStr)

/-- A response that missed no commit is the page of the database. -/
def Current (st : Terrarium W) : Prop :=
  ∀ p ∈ st.browser.painted, p.reads ≤ st.commits.length ∧
    (p.reads = st.commits.length → ∃ hour, p.html = st.db.tables.page ceiling schedule hour)

structure Kept (st : Terrarium W) : Prop where
  ledger : Ledger st
  track : Track st
  current : Current ceiling schedule st
  fresh : Fresh st

variable {ceiling schedule} {st st' : Terrarium W}

theorem Current.of_subset (h : Current ceiling schedule st) {b : Browser W}
    (hb : ∀ p ∈ b.painted, p ∈ st.browser.painted) :
    Current ceiling schedule { st with browser := b } := fun p hp => h p (hb p hp)

theorem Current.serve (h : Current ceiling schedule st) {i hour : Nat} {load : Bool} :
    Current ceiling schedule { st with
      browser := { st.browser with
        fetches := st.browser.fetches.set i
          ⟨load, some ⟨st.db.tables.page ceiling schedule hour, st.commits.length⟩⟩ } } := by
  intro p hp
  rcases mem_painted_serve hp with hp | rfl
  · exact h p hp
  · refine ⟨Nat.le_refl _, fun _ => ⟨hour, ?_⟩⟩
    dsimp only

theorem Current.forget [DecidableEq W] (h : Current ceiling schedule st) {w : W} {env : Envelope} :
    Current ceiling schedule (st.forget w env) := by
  unfold Current
  rw [show (st.forget w env).commits.length = st.commits.length from List.length_map _]
  exact h

theorem Kept.commit [DecidableEq W] [PydanticJson] (h : Kept ceiling schedule st) {w : W} {db : Db}
    {env : Envelope} (hc : st.Commits w db env) : Kept ceiling schedule (st.commit w db env) where
  ledger := h.ledger.commit hc
  track := h.track.commit hc
  current := by
    intro p hp
    have hle := (h.current p hp).1
    have hlength : (st.commit w db env).commits.length = st.commits.length + 1 :=
      List.length_append
    rw [hlength]
    exact ⟨Nat.le_succ_of_le hle, fun heq => by omega⟩
  fresh := h.fresh.commit h.track (fun p hp => (h.current p hp).1) hc

theorem Kept.commitSilently (h : Kept ceiling schedule st) {db : Db} (hsame : SameEvents st.db db)
    (hcareful : st.Wakes ∨ st.Owes) : Kept ceiling schedule (st.commitSilently db) where
  ledger := h.ledger.commitSilently hsame
  track := h.track.commitSilently hsame
  current := by
    intro p hp
    have hle := (h.current p hp).1
    rw [show (st.commitSilently db).commits.length = st.commits.length + 1 from List.length_append]
    exact ⟨Nat.le_succ_of_le hle, fun heq => by omega⟩
  fresh := h.fresh.commitSilently (fun p hp => (h.current p hp).1) hcareful db

theorem Kept.hub (h : Kept ceiling schedule st) {hub : Hub} (hids : st.hub.ids ≤ hub.ids)
    (hq : ∀ v s, st.stream = some (v, s) →
      hub.queues v = st.hub.queues v ∧ (v ∈ hub.viewers → v ∈ st.hub.viewers)) :
    Kept ceiling schedule { st with hub := hub } where
  ledger := ⟨h.ledger.logged, h.ledger.owed⟩
  track := h.track.hub hids hq
  current := h.current
  fresh := by
    refine h.fresh.hub (fun e he => ?_)
    unfold upcoming at he ⊢
    revert he
    cases hs : st.stream with
    | none => exact fun he => he
    | some vs =>
        intro he
        simp only [(hq vs.1 vs.2 hs).1]
        exact he

theorem step_kept [DecidableEq W] [PydanticEscapes] {a : TerrariumAction W}
    (h : Kept ceiling schedule st) (hcareful : st.Careful a)
    (hstep : st.step ceiling schedule a = some st') : Kept ceiling schedule st' := by
  cases a with
  -- the three transactions that leave their task something to hand over; what an offer or a
  -- repaint owes to `Careful` is in the lemmas of `Fresh`
  | write w runId write env =>
      rcases step_write hstep with rfl | ⟨db, e, hc, rfl⟩
      · exact h
      · exact h.commit hc
  | verdict w request env =>
      rcases step_verdict hstep with rfl | ⟨db, e, hc, rfl⟩
      · exact h
      · exact h.commit hc
  | close w runId outcome abortReason env =>
      rcases step_close hstep with rfl | ⟨db, e, hc, rfl⟩
      · exact h
      · exact h.commit hc
  | cleanUp w runId env =>
      rcases step_cleanUp hstep with rfl | ⟨db, hsame, rfl⟩
      · exact h
      · exact h.commitSilently hsame hcareful
  | abandon w =>
      obtain ⟨env, henv, rfl⟩ := step_abandon hstep
      exact ⟨h.ledger.forget, h.track.forget henv, h.current.forget, h.fresh.forget henv hcareful⟩
  | offer w =>
      obtain ⟨env, henv, rfl⟩ := step_offer hstep
      refine ⟨h.ledger.offer _, h.track.offer (h.ledger.owed w env henv).2 (fun u e he => ?_),
        h.current, h.fresh.offer h.ledger henv hcareful⟩
      -- what this task owed is with the hub now, what the others owe they still owe
      by_cases hu : u = w
      · subst hu
        rw [Option.mem_def.1 henv] at he
        cases he
        exact Or.inl rfl
      · exact Or.inr ⟨u, by rwa [Function.update_of_ne hu]⟩
  | beat =>
      cases hstep
      exact ⟨⟨h.ledger.logged, h.ledger.owed⟩,
        h.track.offer (by rintro i ⟨⟩) (fun w e he => Or.inr ⟨w, he⟩), h.current,
        h.fresh.hub (fun _ he => upcoming_subset_offer he)⟩
  | join =>
      cases hstep
      refine h.hub (Nat.le_succ _) (fun v s hs => ?_)
      -- our viewer was there before the id was issued
      have hne : v ≠ st.hub.ids := Nat.ne_of_lt (h.track.viewer v s hs).1
      rw [Hub.register_queue, if_neg hne, Hub.mem_register]
      exact ⟨rfl, fun hv => hv.resolve_right hne⟩
  | leave v =>
      obtain ⟨-, rfl⟩ := step_leave hstep
      exact h.hub (Nat.le_refl _)
        (fun u s _ => ⟨rfl, fun hu => ((Hub.mem_deregister _ _ _).1 hu).1⟩)
  | drain v =>
      obtain ⟨hours, rest, rfl⟩ := step_drain hstep
      refine h.hub (Nat.le_refl _) (fun u s hs => ⟨?_, fun hu => hu⟩)
      have hne : u ≠ v := fun heq => hours ⟨s, heq ▸ hs⟩
      exact Function.update_of_ne hne _ _
  | serve i hour =>
      obtain ⟨load, hi, rfl⟩ := step_serve hstep
      refine ⟨⟨h.ledger.logged, h.ledger.owed⟩, h.track.page rfl rfl rfl rfl ?_, h.current.serve,
        st.fresh_serve hi⟩
      -- the answered fetch is the one of the load if and only if it was
      obtain ⟨hlt, hget⟩ := List.getElem?_eq_some_iff.1 hi
      have hcount := List.countP_set (p := Fetch.load) (l := st.browser.fetches)
        (a := ⟨load, some ⟨st.db.tables.page ceiling schedule hour, st.commits.length⟩⟩) hlt
      have hpos := List.boole_getElem_le_countP (p := Fetch.load) (l := st.browser.fetches) hlt
      rw [hget] at hcount hpos
      dsimp only at hcount hpos ⊢
      omega
  | land i =>
      obtain ⟨load, p, hi, rfl⟩ := step_land hstep
      exact ⟨⟨h.ledger.logged, h.ledger.owed⟩, h.track.land hi,
        h.current.of_subset (fun _ hp => mem_painted_land hi hp), h.fresh.land h.track hi hcareful⟩
  | readSnapshot =>
      obtain ⟨hload, rfl⟩ := step_readSnapshot hstep
      exact ⟨⟨h.ledger.logged, h.ledger.owed⟩, h.track.readSnapshot hload, h.current,
        h.fresh.readSnapshot h.track hload hcareful⟩
  | landSnapshot =>
      obtain ⟨latestId, hload, rfl⟩ := step_landSnapshot hstep
      have hmark := mark_landSnapshot h.track hload
      exact ⟨⟨h.ledger.logged, h.ledger.owed⟩, h.track.landSnapshot hload, h.current,
        h.fresh.imp (fun hw => hw.page hmark (fun _ hf _ => hf) (fun ht => ht) rfl
          (fun _ he _ => he)) (fun ⟨p, hp, hawaited⟩ => ⟨p, hp, hawaited.page hmark⟩)⟩
  | connect =>
      obtain ⟨⟨hload, hs, hwire⟩, rfl⟩ := step_connect hstep
      exact ⟨⟨h.ledger.logged, h.ledger.owed⟩, h.track.connect hload hs hwire, h.current,
        h.fresh.connect hload hs⟩
  | select =>
      obtain ⟨v, s, hs, hp, rfl⟩ := step_select hstep
      exact ⟨⟨h.ledger.logged, h.ledger.owed⟩, h.track.select h.ledger hs hp, h.current,
        h.fresh.select hs hp⟩
  | yieldRow =>
      obtain ⟨v, s, env, rest, hs, hp, rfl⟩ := step_yieldRow hstep
      have hadv := advances_yieldRow hp
      have hup : st.upcoming = env :: (rest ++ st.hub.queues v) := by
        rw [upcoming_stream hs, waiting_of_streaming hp]
        rfl
      exact ⟨⟨h.ledger.logged, h.ledger.owed⟩, h.track.advance hs hadv rfl rfl rfl hup, h.current,
        h.fresh.advance hs hadv rfl hup⟩
  | take =>
      obtain ⟨v, s, env, rest, hs, hp, hq, rfl⟩ := step_take hstep
      have hadv : Advances s (s.receive env) env _ := advances_receive hp
      have hp' : (s.receive env).phase = .streaming [] := by
        rw [(receive_yielded s env).2.2.2.2.1, hp]
      have hup : st.upcoming = env :: ([] ++ Function.update st.hub.queues v rest v) := by
        rw [upcoming_stream hs, waiting_of_streaming hp, hq, Function.update_self]
        rfl
      exact ⟨⟨h.ledger.logged, h.ledger.owed⟩, h.track.advance hs hadv rfl rfl hp' hup, h.current,
        h.fresh.advance hs hadv hp' hup⟩
  | timeout =>
      obtain ⟨v, s, hs, hp, hq, rfl | ⟨-, rfl⟩⟩ := step_timeout hstep
      · exact h
      · exact ⟨⟨h.ledger.logged, h.ledger.owed⟩, h.track.close hs _, h.current,
          h.fresh.close h.track hs hp hq _⟩
  | dispatch =>
      obtain ⟨env, rest, hwire, rfl⟩ := step_dispatch hstep
      exact ⟨⟨h.ledger.logged, h.ledger.owed⟩, h.track.dispatch hwire, h.current,
        h.fresh.dispatch hwire⟩
  | fire =>
      obtain rfl := step_fire hstep
      exact ⟨⟨h.ledger.logged, h.ledger.owed⟩, h.track.page rfl rfl rfl rfl countP_refresh,
        h.current.of_subset (fun _ hp => mem_painted_refresh hp),
        Or.inl (Or.inl ⟨_, List.mem_append_right _ (List.mem_singleton_self _), rfl⟩)⟩
  | post w =>
      obtain rfl := step_post hstep
      exact ⟨⟨h.ledger.logged, h.ledger.owed⟩, h.track.page rfl rfl rfl rfl (Nat.le_refl _),
        h.current, Or.inl (Or.inr (Or.inr (Or.inl (List.cons_ne_nil _ _))))⟩
  | respond w =>
      obtain rfl := step_respond hstep
      exact ⟨⟨h.ledger.logged, h.ledger.owed⟩, h.track.page rfl rfl rfl rfl countP_refresh,
        h.current.of_subset (fun _ hp => mem_painted_refresh hp),
        Or.inl (Or.inl ⟨_, List.mem_append_right _ (List.mem_singleton_self _), rfl⟩)⟩

/-- What is known of a quiescent state. -/
theorem Kept.quiescent (h : Kept ceiling schedule st) (hq : st.Quiescent) :
    ∃ p hour, st.browser.board = some p ∧ p.html = st.db.tables.page ceiling schedule hour := by
  obtain ⟨⟨v, s⟩, hs, hv, (hp : s.phase = .streaming []), hqueue⟩ := hq.stream
  have hup : st.upcoming = [] := by
    rw [upcoming_stream hs, waiting_of_streaming hp, hqueue]
    rfl
  have hasleep : ¬ st.Wakes := by
    rintro (⟨f, hf, -⟩ | htimer | hposts | ⟨e, he, -⟩ | ⟨e, he, -⟩)
    · rw [hq.fetches] at hf
      cases hf
    · rw [hq.repaintTimer] at htimer
      cases htimer
    · exact hposts hq.posts
    · rw [hq.wire] at he
      cases he
    · rw [hup] at he
      cases he
  obtain ⟨p, hpainted, hids, hnone⟩ := h.fresh.resolve_left hasleep
  have hboard : st.browser.board = some p := by
    rw [Browser.painted, hq.fetches] at hpainted
    simpa using hpainted
  -- what it missed would still have to come
  have hmissed : ∀ c, c ∉ st.missed p := by
    rintro (_ | i) hc
    · obtain ⟨w, env, henv, -⟩ := hnone hc
      rw [hq.owed w] at henv
      cases henv
    · have hlt := hids i hc
      rcases h.track.covered v s hs hv (by simp [hp]) i (List.mem_of_mem_drop hc) with
        hle | ⟨e, he, -⟩ | ⟨w, e, he, -⟩
      · omega
      · rw [hup] at he
        cases he
      · rw [hq.owed w] at he
        cases he
  have hlength : st.commits.length ≤ p.reads :=
    List.drop_eq_nil_iff.1 (List.eq_nil_iff_forall_not_mem.2 hmissed)
  obtain ⟨hle, hpage⟩ := h.current p hpainted
  obtain ⟨hour, hhtml⟩ := hpage (Nat.le_antisymm hle hlength)
  exact ⟨p, hour, hboard, hhtml⟩

theorem start_kept (h : st.Start) : Kept ceiling schedule st where
  ledger := by
    refine ⟨fun i hi => ?_, fun w e he => ?_⟩
    · rw [h.commits] at hi
      cases hi
    · rw [h.owed w] at he
      cases he
  track := by
    have hmark : st.mark = 0 := by
      simp [mark, h.stream, h.browser, Browser.new, Browser.cursor]
    refine ⟨?_, fun _ => ⟨h.stream, ?_, ?_⟩, ?_, ?_, ?_, ?_, ?_, ?_⟩
    · rw [h.browser]
      simp [Browser.new]
    · rw [h.browser]
      rfl
    · rw [h.browser]
      rfl
    · rw [hmark]
      exact Nat.zero_le _
    · rw [h.browser]
      intro hopened
      cases hopened
    · rw [h.browser]
      intro hopened
      cases hopened
    · simp [Terrarium.upcoming, h.stream]
    · simp [h.stream]
    · simp [h.stream]
  current := by
    intro p hp
    rw [h.browser] at hp
    cases hp
  fresh := by
    refine Or.inl (Or.inl ⟨⟨true, none⟩, ?_, rfl⟩)
    rw [h.browser]
    exact List.mem_singleton_self _

end Runs

end Terrarium

/-! ## One board -/

/-- A hunt has been started; the page has just been requested. -/
def oneHunt : Terrarium Unit where
  db := ((startRun (py "x") none none).exec ((Env.calm [py "r"]).session Db.empty)).2.conn.committed
  hub := .new 256
  stream := none
  owed := fun _ => none
  browser := .new
  commits := []

theorem oneHunt_start : oneHunt.Start := ⟨rfl, fun _ => rfl, rfl, rfl⟩

/-- The hunt appends an event. -/
def appendSniff : TerrariumAction Unit :=
  .write () (py "r") (.append (.sniff ⟨py "p"⟩)) (Env.calm [])

/-- The load sequence around an append: `before` and `after` the stream is there. -/
def loading (before after : List (TerrariumAction Unit)) : List (TerrariumAction Unit) :=
  [.serve 0 12, .land 0] ++ before ++ [.readSnapshot, .landSnapshot, .connect, .select] ++ after

/-- The event is committed between the two snapshots, and offered when the stream is there. -/
def betweenSnapshots : List (TerrariumAction Unit) := loading [appendSniff] [.offer (), .take]

/-- The event is committed when the stream is there, and the board repaints. -/
def afterSnapshots : List (TerrariumAction Unit) :=
  loading [] [appendSniff, .offer (), .take, .dispatch, .fire, .serve 0 12, .land 0]

/-- Nothing is in flight. -/
def Terrarium.quiet (st : Terrarium Unit) : Bool :=
  decide (st.browser.fetches = [] ∧ st.browser.posts = [] ∧ st.browser.repaintTimer = false ∧
    st.browser.wire = [] ∧ st.owed () = none ∧
    ∃ c ∈ st.stream, c.1 ∈ st.hub.viewers ∧ c.2.phase = .streaming [] ∧ st.hub.queues c.1 = [])

theorem Terrarium.quiescent_of_quiet {st : Terrarium Unit} (h : st.quiet = true) :
    st.Quiescent := by
  obtain ⟨hfetches, hposts, htimer, hwire, howed, hstream⟩ := of_decide_eq_true h
  exact ⟨hfetches, hposts, htimer, hwire, fun _ => howed, hstream⟩

/-- The hour is in the page as day or night. -/
theorem Tables.page_day_or_night (t : Tables) (ceiling : Option ℚ) (schedule : List PyStr)
    (hour : Nat) :
    t.page ceiling schedule hour = t.page ceiling schedule 12 ∨
      t.page ceiling schedule hour = t.page ceiling schedule 0 := by
  have hphase : phaseAt hour = phaseAt 12 ∨ phaseAt hour = phaseAt 0 := by
    unfold phaseAt
    split
    · exact Or.inl rfl
    · exact Or.inr rfl
  refine hphase.imp (fun h => ?_) (fun h => ?_)
  · simp only [Tables.page, Tables.buildViewstate, project, finalize, h]
  · simp only [Tables.page, Tables.buildViewstate, project, finalize, h]

end RexHunter
