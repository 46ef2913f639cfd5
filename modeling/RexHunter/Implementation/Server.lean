import RexHunter.Lib.Table
import RexHunter.Lib.Transition
import RexHunter.Implementation.Hub

set_option autoImplicit false

/-! # The live feed: `catch_up`, `stream_events` and everything that runs beside them (`server.py`)

`stream_events` is a generator: register with the hub, SELECT the log tail, yield it, then drain the
queue, dropping every id at or below the high-water mark. `StreamEvents` is its frame between two
suspension points, and each of its suspension points is one action of the system `feed`, next to
the two separate steps of every writer — commit a row, then publish it — and to the hub's
notifications and heartbeats. The writers are an arbitrary type `W`, one element for each hunt
task. -/

namespace RexHunter

/-- A committed `trajectory_events` row, as far as the stream reads it: the global id and the stored
    payload string. -/
structure FeedRow where
  id : Nat
  payload : PyStr
deriving DecidableEq, Repr

def FeedRow.envelope (r : FeedRow) : Envelope := ⟨some r.id, r.payload⟩

/-- `catch_up`: `SELECT id, payload … WHERE id > ? ORDER BY id`. -/
def catchUp (log : List FeedRow) (lastSeen : Nat) : List Envelope :=
  (Table.orderBy FeedRow.id (log.filter (fun r => lastSeen < r.id))).map FeedRow.envelope

/-- Where the generator is suspended. `streaming rest` still has the catch-up rows `rest` to yield;
    `streaming []` is the `while True` loop. -/
inductive Phase where
  | connecting
  | streaming (rest : List Envelope)
  | ended
deriving DecidableEq, Repr

/-- The frame of one `stream_events` generator. The last three fields are history: the rows the
    catch-up SELECT returned, the envelopes drained from the queue so far, and how many envelopes
    the hub had offered before this viewer registered. -/
structure StreamEvents where
  lastSeen : Nat
  phase : Phase
  highWater : Nat
  yielded : List Envelope
  rows : List Envelope
  taken : List Envelope
  since : Nat
deriving DecidableEq, Repr

namespace StreamEvents

/-- The frame right after `hub.register()`. -/
def start (lastSeen since : Nat) : StreamEvents :=
  { lastSeen, phase := .connecting, highWater := lastSeen, yielded := [], rows := [], taken := [],
    since }

/-- `await catch_up(conn, last_seen)`. -/
def select (s : StreamEvents) (log : List FeedRow) : StreamEvents :=
  { s with phase := .streaming (catchUp log s.lastSeen), rows := catchUp log s.lastSeen }

/-- One turn of the catch-up loop: yield the row, raise the high-water mark. -/
def yieldRow (s : StreamEvents) (env : Envelope) (rest : List Envelope) : StreamEvents :=
  { s with
    phase := .streaming rest
    highWater := match env.id with | some i => max s.highWater i | none => s.highWater
    yielded := s.yielded ++ [env] }

/-- One turn of the live loop with the envelope `queue.get()` returned. -/
def receive (s : StreamEvents) (env : Envelope) : StreamEvents :=
  match env.id with
  | none => { s with yielded := s.yielded ++ [env], taken := s.taken ++ [env] }
  | some i =>
      if s.highWater < i then
        { s with highWater := i, yielded := s.yielded ++ [env], taken := s.taken ++ [env] }
      else { s with taken := s.taken ++ [env] }

end StreamEvents

/-! ## The system -/

/-- The process: the committed log, each writer's row that is committed but not yet published, the
    hub, one generator per registered viewer. `offered` and `published` are history: every envelope
    handed to the hub, and the ids whose writer has completed its publish. -/
structure Feed (W : Type) where
  log : List FeedRow
  pending : W → Option FeedRow
  hub : Hub
  streams : ViewerId → Option StreamEvents
  offered : List Envelope
  published : List Nat

/-- One step of one party. `commit` is the COMMIT of an append or a capture transaction; `abandon`
    is a writer cancelled between its commit and its publish. -/
inductive FeedAction (W : Type) where
  | commit (w : W) (row : FeedRow)
  | publish (w : W)
  | abandon (w : W)
  | notify (payload : PyStr)
  | beat
  | connect (lastSeen : Nat)
  | select (v : ViewerId)
  | yieldRow (v : ViewerId)
  | take (v : ViewerId)
  | timeout (v : ViewerId)
  | close (v : ViewerId)

variable {W : Type} [DecidableEq W]

namespace Feed

def setStream (st : Feed W) (v : ViewerId) (s : StreamEvents) : Feed W :=
  { st with streams := Function.update st.streams v (some s) }

/-- The generator is over: its `finally` deregisters the viewer. -/
def finish (st : Feed W) (v : ViewerId) (s : StreamEvents) : Feed W :=
  { st.setStream v { s with phase := .ended } with hub := st.hub.deregister v }

/-- Hand an envelope to the hub, remembering that it was offered. -/
def offer (st : Feed W) (env : Envelope) : Feed W :=
  { st with hub := st.hub.offer env, offered := st.offered ++ [env] }

def step (st : Feed W) : FeedAction W → Option (Feed W)
  | .commit w row =>
      -- SQLite serialises commits, so the new id is above every committed one
      if st.pending w = none ∧ ∀ r ∈ st.log, r.id < row.id then
        some { st with log := st.log ++ [row], pending := Function.update st.pending w (some row) }
      else none
  | .publish w =>
      match st.pending w with
      | some row =>
          some { st.offer row.envelope with
                  pending := Function.update st.pending w none
                  published := st.published ++ [row.id] }
      | none => none
  | .abandon w => some { st with pending := Function.update st.pending w none }
  | .notify payload => some (st.offer ⟨none, payload⟩)
  | .beat => some (st.offer ⟨none, []⟩)
  | .connect lastSeen =>
      some { st with
              hub := st.hub.register.2
              streams := Function.update st.streams st.hub.register.1
                (some (StreamEvents.start lastSeen st.offered.length)) }
  | .select v =>
      match st.streams v with
      | some s => if s.phase = .connecting then some (st.setStream v (s.select st.log)) else none
      | none => none
  | .yieldRow v =>
      match st.streams v with
      | some s =>
          match s.phase with
          | .streaming (env :: rest) => some (st.setStream v (s.yieldRow env rest))
          | _ => none
      | none => none
  | .take v =>
      match st.streams v with
      | some s =>
          if s.phase = .streaming [] then
            match st.hub.takeFrom v with
            | some (env, hub) => some { st.setStream v (s.receive env) with hub := hub }
            | none => none
          else none
      | none => none
  | .timeout v =>
      -- `wait_for` gave up on an empty queue: end the stream only if the hub has dropped the viewer
      match st.streams v with
      | some s =>
          if s.phase = .streaming [] ∧ st.hub.queues v = [] then
            if v ∈ st.hub.viewers then some st else some (st.finish v s)
          else none
      | none => none
  | .close v =>
      match st.streams v with
      | some s => if s.phase = .ended then none else some (st.finish v s)
      | none => none

end Feed

/-- The process at boot: a log from earlier processes, whose writers are gone, and an empty hub. -/
structure Feed.Boot (st : Feed W) : Prop where
  sorted : st.log.Pairwise (fun a b => a.id < b.id)
  idle : ∀ w, st.pending w = none
  viewers : st.hub.viewers = []
  streams : ∀ v, st.streams v = none
  offered : st.offered = []
  published : ∀ i ∈ st.published, ∃ r ∈ st.log, r.id = i

/-- The live feed as a transition system. -/
def feed (W : Type) [DecidableEq W] : Transition.System (Feed W) (FeedAction W) where
  Init := Feed.Boot
  step := Feed.step

end RexHunter
