import RexHunter.Implementation.Frames
import RexHunter.Implementation.Render
import RexHunter.Implementation.Server
import RexHunter.Implementation.Snapshot
import RexHunter.Implementation.Store

set_option autoImplicit false

/-! # A browser at the board (`static/board.js`, the endpoints of `server.py`)

One browser runs its load sequence, repaints after each frame of its `EventSource`, with a delay, and
after the response to each verdict it posts. Each request and each response is a step of its own, so
responses land in any order; between any two steps the server's tasks commit, publish and notify,
each a step of its own too. A transaction is the coroutine of the code on a connection that no fault
meets. -/

namespace RexHunter

/-! ## The browser -/

/-- The body of a `GET /viewstate`. `reads` is history: how many commits the database had seen. -/
structure Painted where
  html : PyStr
  reads : Nat
deriving DecidableEq

/-- A call of `refresh()` that has not returned: `load` for the first one, and the response if it is
    on its way. -/
structure Fetch where
  load : Bool
  answer : Option Painted
deriving DecidableEq

/-- The load sequence: `await refresh()`, then `await fetch('/snapshot')` with the `latest_id` of its
    response, then `new EventSource`. -/
inductive Load where
  | viewstate
  | snapshot (latestId : Option Nat)
  | opened
deriving DecidableEq

/-- The page. `since` is in the URL of the `EventSource`, `lastEventId` what it sends on a reconnect,
    `wire` are the frames that were sent and not yet dispatched, and `posts` the tasks of the server
    that handle a `POST /verdict` of this page. -/
structure Browser (W : Type) where
  load : Load
  board : Option Painted
  fetches : List Fetch
  repaintTimer : Bool
  since : Nat
  lastEventId : Option Nat
  wire : List Envelope
  posts : List W

namespace Browser

variable {W : Type}

/-- The script has just made its first request. -/
def new : Browser W where
  load := .viewstate
  board := none
  fetches := [⟨true, none⟩]
  repaintTimer := false
  since := 0
  lastEventId := none
  wire := []
  posts := []

/-- The cursor of the next `GET /events`. -/
def cursor (b : Browser W) : Nat := b.lastEventId.getD b.since

/-- `refresh()`. -/
def refresh (b : Browser W) : Browser W := { b with fetches := b.fetches ++ [⟨false, none⟩] }

/-- The timer of `scheduleRefresh` runs out. -/
def fire (b : Browser W) : Browser W := { b.refresh with repaintTimer := false }

/-- `board.innerHTML = …`; the load sequence goes on to the snapshot. -/
def paint (b : Browser W) (i : Nat) (load : Bool) (p : Painted) : Browser W :=
  { b with
    board := some p
    fetches := b.fetches.eraseIdx i
    load := if load then .snapshot none else b.load }

/-- The `EventSource` dispatches a frame: a heartbeat is a comment, everything else comes to
    `onmessage`, which calls `scheduleRefresh`. -/
def dispatch (b : Browser W) (env : Envelope) (rest : List Envelope) : Browser W :=
  { b with
    lastEventId := env.id.or b.lastEventId
    repaintTimer := b.repaintTimer || decide (env ≠ heartbeat)
    wire := rest }

end Browser

/-! ## The server -/

/-- The database, the hub, the browser's `stream_events` with its viewer id, and for each task the
    envelope it has still to hand to the hub after its commit. `commits` is history: the id of each
    committed event, `none` for a verdict, a closure and an event that will not be published. -/
structure Terrarium (W : Type) where
  db : Db
  hub : Hub
  stream : Option (ViewerId × StreamEvents)
  owed : W → Option Envelope
  browser : Browser W
  commits : List (Option Nat)

/-- One step of one party: a task of the server (`write`, `verdict`, `close`, then `offer`; cancelled,
    it closes its run without a pulse, `cleanUp`, and does not hand over what it owes, `abandon`), the
    heartbeats, the other viewers (`join`, `leave`, `drain`), the endpoints, the browser. -/
inductive TerrariumAction (W : Type) where
  | write (w : W) (runId : PyStr) (write : Write) (env : Env)
  | verdict (w : W) (request : VerdictEvent) (env : Env)
  | close (w : W) (runId : PyStr) (outcome : RunOutcome) (abortReason : Option PyStr) (env : Env)
  | cleanUp (w : W) (runId : PyStr) (env : Env)
  | offer (w : W)
  | abandon (w : W)
  | beat
  | join
  | leave (v : ViewerId)
  | drain (v : ViewerId)
  | serve (i hour : Nat)
  | land (i : Nat)
  | readSnapshot
  | landSnapshot
  | connect
  | select
  | yieldRow
  | take
  | timeout
  | dispatch
  | fire
  | post (w : W)
  | respond (w : W)

/-- The rows `catch_up` selects from. -/
def Tables.feedLog [PydanticJson] (t : Tables) : List FeedRow :=
  t.trajectoryEvents.map (fun r => ⟨r.id, (r.payload.modelDumpJson).toOption.getD []⟩)

section Pages

variable (daemonSpendCeilingUsd : Option ℚ) (schedule : List PyStr)

/-- `get_viewstate`. -/
def Tables.page (t : Tables) (hour : Nat) : PyStr :=
  render (t.buildViewstate hour none daemonSpendCeilingUsd schedule)

variable {W : Type} [DecidableEq W] [PydanticJson]

namespace Terrarium

/-- The viewer is the browser's. -/
def IsOurs (st : Terrarium W) (v : ViewerId) : Prop := ∃ s, st.stream = some (v, s)

instance (st : Terrarium W) (v : ViewerId) : Decidable (st.IsOurs v) :=
  match h : st.stream with
  | none => isFalse (by rintro ⟨s, hs⟩; rw [h] at hs; cases hs)
  | some (u, s) =>
      decidable_of_iff (u = v)
        ⟨fun huv => ⟨s, by rw [h, huv]⟩, fun ⟨t, ht⟩ => by rw [h] at ht; cases ht; rfl⟩

/-- A task has committed, and owes the hub an envelope. -/
def commit (st : Terrarium W) (w : W) (db : Db) (env : Envelope) : Terrarium W :=
  { st with
    db := db
    owed := Function.update st.owed w (some env)
    commits := st.commits ++ [env.id] }

/-- A task has committed what no frame is for. -/
def commitSilently (st : Terrarium W) (db : Db) : Terrarium W :=
  { st with
    db := db
    commits := st.commits ++ [none] }

/-- A task will not hand its envelope to the hub. -/
def forget (st : Terrarium W) (w : W) (env : Envelope) : Terrarium W :=
  { st with
    owed := Function.update st.owed w none
    commits := st.commits.map (fun c => if c = env.id then none else c) }

def step (st : Terrarium W) : TerrariumAction W → Option (Terrarium W)
  | .write w runId write env =>
      if st.owed w = none ∧ env.faults = [] then
        let s := ((write.run runId).exec (env.session st.db)).2
        match s.vars.published with
        | [] => some { st with db := s.conn.committed }
        | (eventId, event) :: _ =>
            match event.modelDumpJson with
            | .ok payload => some (st.commit w s.conn.committed ⟨some eventId, payload⟩)
            | .error _ => none
      else none
  | .verdict w request env =>
      if st.owed w = none ∧ env.faults = [] then
        let (r, s) := (submitVerdict request).exec (env.session st.db)
        match r, request.modelDumpJson with
        | .ok true, .ok payload => some (st.commit w s.conn.committed ⟨none, payload⟩)
        | .ok true, .error _ => none
        | _, _ => some { st with db := s.conn.committed }
      else none
  | .close w runId outcome abortReason env =>
      if st.owed w = none ∧ env.faults = [] then
        let (r, s) := (finishRun runId outcome abortReason).exec (env.session st.db)
        match r with
        | .ok _ => some (st.commit w s.conn.committed ⟨none, pulsePayload runId outcome⟩)
        | .error _ => some { st with db := s.conn.committed }
      else none
  | .cleanUp w runId env =>
      -- the `CancelledError` clause of `run_hunt`: no `notify`
      if st.owed w = none ∧ env.faults = [] then
        let abortReason := some (py "daemon shutdown")
        let (r, s) := (finishRun runId .aborted abortReason).exec (env.session st.db)
        match r with
        | .ok _ => some (st.commitSilently s.conn.committed)
        | .error _ => some { st with db := s.conn.committed }
      else none
  | .offer w =>
      match st.owed w with
      | some env =>
          some { st with hub := st.hub.offer env, owed := Function.update st.owed w none }
      | none => none
  | .abandon w =>
      -- the cancellation reaches the task after its commit, and before `publish` or `notify`
      (st.owed w).map (fun env => st.forget w env)
  | .beat => some { st with hub := st.hub.beat }
  | .join => some { st with hub := st.hub.register.2 }
  | .leave v => if st.IsOurs v then none else some { st with hub := st.hub.deregister v }
  | .drain v =>
      if st.IsOurs v then none
      else (st.hub.takeFrom v).map (fun r => { st with hub := r.2 })
  | .serve i hour =>
      match st.browser.fetches[i]? with
      | some ⟨load, none⟩ =>
          let html := st.db.tables.page daemonSpendCeilingUsd schedule hour
          let answer : Fetch := ⟨load, some ⟨html, st.commits.length⟩⟩
          some { st with browser := { st.browser with fetches := st.browser.fetches.set i answer } }
      | _ => none
  | .land i =>
      match st.browser.fetches[i]? with
      | some ⟨load, some p⟩ => some { st with browser := st.browser.paint i load p }
      | _ => none
  | .readSnapshot =>
      if st.browser.load = .snapshot none then
        let latestId := st.db.tables.snapshot.latestId
        some { st with browser := { st.browser with load := .snapshot (some latestId) } }
      else none
  | .landSnapshot =>
      match st.browser.load with
      | .snapshot (some latestId) =>
          some { st with browser := { st.browser with load := .opened, since := latestId } }
      | _ => none
  | .connect =>
      -- the browser sees the end of the old stream after its last frame
      if st.browser.load = .opened ∧ st.stream = none ∧ st.browser.wire = [] then
        some { st with
          hub := st.hub.register.2
          stream := some (st.hub.register.1, .start st.browser.cursor 0) }
      else none
  | .select =>
      match st.stream with
      | some (v, s) =>
          if s.phase = .connecting then
            some { st with stream := some (v, s.select st.db.tables.feedLog) }
          else none
      | none => none
  | .yieldRow =>
      match st.stream with
      | some (v, s) =>
          match s.phase with
          | .streaming (env :: rest) =>
              some { st with
                stream := some (v, s.yieldRow env rest)
                browser := { st.browser with wire := st.browser.wire ++ [env] } }
          | _ => none
      | none => none
  | .take =>
      match st.stream with
      | some (v, s) =>
          if s.phase = .streaming [] then
            match st.hub.takeFrom v with
            | some (env, hub) =>
                let sent := (s.receive env).yielded.drop s.yielded.length
                some { st with
                  hub := hub
                  stream := some (v, s.receive env)
                  browser := { st.browser with wire := st.browser.wire ++ sent } }
            | none => none
          else none
      | none => none
  | .timeout =>
      match st.stream with
      | some (v, s) =>
          if s.phase = .streaming [] ∧ st.hub.queues v = [] then
            if v ∈ st.hub.viewers then some st
            else some { st with hub := st.hub.deregister v, stream := none }
          else none
      | none => none
  | .dispatch =>
      match st.browser.wire with
      | env :: rest => some { st with browser := st.browser.dispatch env rest }
      | [] => none
  | .fire =>
      if st.browser.repaintTimer then some { st with browser := st.browser.fire } else none
  | .post w =>
      if st.owed w = none ∧ w ∉ st.browser.posts then
        some { st with browser := { st.browser with posts := w :: st.browser.posts } }
      else none
  | .respond w =>
      -- the handler has returned, after its notification
      if st.owed w = none ∧ w ∈ st.browser.posts then
        let browser := { st.browser with posts := st.browser.posts.erase w }
        some { st with browser := browser.refresh }
      else none

end Terrarium

/-- A page that has just been requested, on any database and among any viewers; no task is between a
    commit and its offer. -/
structure Terrarium.Start (st : Terrarium W) : Prop where
  stream : st.stream = none
  owed : ∀ w, st.owed w = none
  browser : st.browser = .new
  commits : st.commits = []

/-- The system. -/
def terrarium (W : Type) [DecidableEq W] : Transition.System (Terrarium W) (TerrariumAction W) where
  Init := Terrarium.Start
  step := Terrarium.step daemonSpendCeilingUsd schedule

end Pages

end RexHunter
