import RexHunter.Proofs.Fanout
import RexHunter.Proofs.LiveFeed

set_option autoImplicit false

/-! # A dropped stream ends, a live one does not

One `stream_events` generator on its viewer's queue, and around it everything else that goes on in
the hub. A timeout of `wait_for` asks whether the viewer is still in the hub; since nothing is sent
to a viewer that is out, its queue only drains (`Hung`), and the next timeout finds it out. The
streams of the live feed are such generators, step by step (`Feed.step_connection`). -/

namespace RexHunter

/-! ## The system -/

/-- The hub, and a generator with its viewer. -/
structure Connection where
  hub : Hub
  viewer : ViewerId
  stream : StreamEvents

/-- `hub` is an operation of anyone else: registrations, offers, other streams. A timeout may come
    whatever is in the queue; `close` is an exception, a cancellation or `aclose()`. -/
inductive ConnectionAction where
  | hub (op : HubOp)
  | select (log : List FeedRow)
  | yieldRow
  | get
  | timeout
  | close
deriving DecidableEq

namespace Connection

/-- The generator is over: its `finally` deregisters the viewer. -/
def finish (c : Connection) : Connection :=
  { c with
    hub := c.hub.deregister c.viewer
    stream := { c.stream with phase := .ended } }

def step (c : Connection) : ConnectionAction → Option Connection
  | .hub op =>
      -- the queue and the id of a viewer are its own stream's
      if op = .get c.viewer ∨ op = .deregister c.viewer then none
      else (c.hub.step op).map (fun hub => { c with hub := hub })
  | .select log =>
      if c.stream.phase = .connecting then some { c with stream := c.stream.select log } else none
  | .yieldRow =>
      match c.stream.phase with
      | .streaming (env :: rest) => some { c with stream := c.stream.yieldRow env rest }
      | _ => none
  | .get =>
      if c.stream.phase = .streaming [] then
        (c.hub.takeFrom c.viewer).map (fun (env, hub) =>
          { c with hub := hub, stream := c.stream.receive env })
      else none
  | .timeout =>
      if c.stream.phase = .streaming [] then
        if c.viewer ∈ c.hub.viewers then some c else some c.finish
      else none
  | .close => if c.stream.phase = .ended then none else some c.finish

end Connection

/-- A stream that has just registered, with any hub. -/
def Opened (maxsize : Int) (c : Connection) : Prop :=
  ∃ ops h lastSeen since, (hubSystem maxsize).run (Hub.new maxsize) ops = some h ∧
    c = ⟨h.register.2, h.register.1, .start lastSeen since⟩

def connections (maxsize : Int) : Transition.System Connection ConnectionAction where
  Init := Opened maxsize
  step := Connection.step

/-! ## What one step does -/

/-- The viewer's seat; the stream is over only if the viewer is out. -/
structure Connected (maxsize : Int) (c : Connection) : Prop where
  hub : c.hub.maxsize = maxsize
  issued : c.viewer < c.hub.ids
  bounded : ((c.hub.queues c.viewer).length : Int) ≤ maxsize
  ended : c.stream.phase = .ended → c.viewer ∉ c.hub.viewers

variable {maxsize : Int} {c c' : Connection}

theorem receive_phase (s : StreamEvents) (env : Envelope) : (s.receive env).phase = s.phase := by
  unfold StreamEvents.receive
  split
  · rfl
  · split <;> rfl

theorem Connected.opened (hmax : 1 ≤ maxsize) (h : Opened maxsize c) : Connected maxsize c := by
  obtain ⟨ops, g, lastSeen, since, hrun, rfl⟩ := h
  have hg : g.maxsize = maxsize := (Hub.seat_run hrun 0).2.2
  refine ⟨hg, Nat.lt_succ_self _, ?_, fun hended => (nomatch hended)⟩
  have hqueue : g.register.2.queues g.register.1 = [] := by
    rw [Hub.register_fst, Hub.register_queue, if_pos rfl]
  rw [hqueue]
  show ((0 : Nat) : Int) ≤ maxsize
  omega

/-- An operation of anyone else. -/
theorem Connection.step_hub {op : HubOp} (h : c.step (.hub op) = some c') :
    ∃ hub, c.hub.step op = some hub ∧ c' = { c with hub := hub } ∧ op ≠ .get c.viewer ∧
      op ≠ .deregister c.viewer := by
  simp only [step] at h
  split at h
  · cases h
  · next hop =>
      obtain ⟨hub, hhub, rfl⟩ := Option.map_eq_some_iff.1 h
      exact ⟨hub, hhub, rfl, fun heq => hop (Or.inl heq), fun heq => hop (Or.inr heq)⟩

/-- A get takes the first envelope of the queue. -/
theorem Connection.step_get (h : c.step .get = some c') : c.stream.phase = .streaming [] ∧
    ∃ env rest, c.hub.queues c.viewer = env :: rest ∧
      c'.hub.queues c.viewer = rest ∧ c'.hub.viewers = c.hub.viewers ∧ c'.hub.ids = c.hub.ids ∧
      c'.hub.maxsize = c.hub.maxsize ∧ c'.viewer = c.viewer ∧
      c'.stream.phase = .streaming [] := by
  simp only [step] at h
  split at h
  · next hphase =>
      obtain ⟨⟨env, hub⟩, htake, rfl⟩ := Option.map_eq_some_iff.1 h
      simp only [Hub.takeFrom] at htake
      split at htake
      · cases htake
      · next env' rest hqueue =>
          cases htake
          exact ⟨hphase, env, rest, hqueue, Function.update_self _ _ _, rfl, rfl, rfl, rfl,
            (receive_phase _ _).trans hphase⟩
  · cases h

theorem Connection.step_timeout (h : c.step .timeout = some c') : c.stream.phase = .streaming [] ∧
    (c.viewer ∈ c.hub.viewers ∧ c' = c ∨ c.viewer ∉ c.hub.viewers ∧ c' = c.finish) := by
  simp only [step] at h
  split at h
  · next hphase =>
      split at h
      · next hin =>
          cases h
          exact ⟨hphase, Or.inl ⟨hin, rfl⟩⟩
      · next hout =>
          cases h
          exact ⟨hphase, Or.inr ⟨hout, rfl⟩⟩
  · cases h

theorem Connected.finish (h : Connected maxsize c) : Connected maxsize c.finish where
  hub := h.hub
  issued := h.issued
  bounded := h.bounded
  ended := fun _ hin => ((Hub.mem_deregister c.hub c.viewer c.viewer).1 hin).2 rfl

theorem Connected.step {a : ConnectionAction} (hmax : 1 ≤ maxsize) (h : Connected maxsize c)
    (hstep : c.step a = some c') : Connected maxsize c' := by
  cases a with
  | hub op =>
      obtain ⟨hub, hhub, rfl, hget, -⟩ := Connection.step_hub hstep
      obtain ⟨hseat, hsize⟩ := Hub.seat_step hhub c.viewer
      rw [h.hub] at hseat
      have hids : (c.hub.seat c.viewer).ids ≤ (hub.seat c.viewer).ids := by
        rw [hseat]
        exact Seat.ids_le_step maxsize op
      have hlength : ((hub.seat c.viewer).queue.length : Int) ≤ maxsize := by
        rw [hseat]
        exact Seat.length_step maxsize op hmax h.bounded
      refine ⟨hsize.trans h.hub, Nat.lt_of_lt_of_le h.issued hids, hlength, fun hended => ?_⟩
      -- who is out stays out
      have hout : (c.hub.seat c.viewer).member = false := decide_eq_false (h.ended hended)
      have hout' := (Seat.step_out maxsize op hout h.issued).1
      rw [← hseat] at hout'
      exact of_decide_eq_false hout'
  | select log =>
      simp only [Connection.step] at hstep
      split at hstep
      · cases hstep
        exact ⟨h.hub, h.issued, h.bounded, fun hended => (nomatch hended)⟩
      · cases hstep
  | yieldRow =>
      simp only [Connection.step] at hstep
      split at hstep
      · cases hstep
        exact ⟨h.hub, h.issued, h.bounded, fun hended => (nomatch hended)⟩
      · cases hstep
  | get =>
      obtain ⟨-, env, rest, hqueue, hqueue', hview, hids, hsize, hviewer, hphase⟩ :=
        Connection.step_get hstep
      refine ⟨hsize.trans h.hub, ?_, ?_, fun hended => ?_⟩
      · rw [hviewer, hids]
        exact h.issued
      · have hbounded := h.bounded
        rw [hqueue, List.length_cons] at hbounded
        rw [hviewer, hqueue']
        omega
      · rw [hphase] at hended
        cases hended
  | timeout =>
      obtain ⟨-, ⟨-, rfl⟩ | ⟨-, rfl⟩⟩ := Connection.step_timeout hstep
      · exact h
      · exact h.finish
  | close =>
      simp only [Connection.step] at hstep
      split at hstep
      · cases hstep
      · cases hstep
        exact h.finish

theorem connected_reachable (hmax : 1 ≤ maxsize) (h : (connections maxsize).Reachable c) :
    Connected maxsize c :=
  (connections maxsize).invariant (P := Connected maxsize)
    (fun _ hopened => Connected.opened hmax hopened)
    (fun _ _ _ hc hstep => hc.step hmax hstep) c h

/-! ## The streams of the live feed -/

section Streams

variable {W : Type}

/-- The step of its own generator that the action is. -/
def FeedAction.own (log : List FeedRow) : FeedAction W → Option (ViewerId × ConnectionAction)
  | .select v => some (v, .select log)
  | .yieldRow v => some (v, .yieldRow)
  | .take v => some (v, .get)
  | .timeout v => some (v, .timeout)
  | .close v => some (v, .close)
  | _ => none

/-- What the action does at the hub. -/
def Feed.hubOp (st : Feed W) : FeedAction W → Option HubOp
  | .publish w => (st.pending w).map (fun row => .publish row.id row.payload)
  | .notify payload => some (.notify payload)
  | .beat => some .beat
  | .connect _ => some .register
  | .take v => some (.get v)
  | .timeout v => if v ∈ st.hub.viewers then none else some (.deregister v)
  | .close v => some (.deregister v)
  | _ => none

/-- What the action is to the generator of one viewer: a step of its own, or what someone else does
    at the hub. -/
def Feed.seen (st : Feed W) (v : ViewerId) (a : FeedAction W) : Option ConnectionAction :=
  match a.own st.log with
  | some (u, b) => if u = v then some b else (st.hubOp a).map .hub
  | none => (st.hubOp a).map .hub

variable [DecidableEq W] {st st' : Feed W} {a : FeedAction W} {v : ViewerId} {s : StreamEvents}

theorem Feed.step_hubOp (maxsize : Int) (h : st.step a = some st') :
    (hubSystem maxsize).run st.hub (st.hubOp a).toList = some st'.hub := by
  cases a with
  | commit w row =>
      obtain ⟨-, -, rfl⟩ := Feed.step_commit h
      rfl
  | publish w =>
      obtain ⟨row, hrow, rfl⟩ := Feed.step_publish h
      rw [hubOp, hrow]
      rfl
  | abandon w =>
      cases h
      rfl
  | notify payload =>
      cases h
      rfl
  | beat =>
      cases h
      rfl
  | connect lastSeen =>
      cases h
      rfl
  | select v =>
      obtain ⟨s, -, -, rfl⟩ := Feed.step_select h
      rfl
  | yieldRow v =>
      obtain ⟨s, env, rest, -, -, rfl⟩ := Feed.step_yieldRow h
      rfl
  | take v =>
      obtain ⟨s, env, rest, -, -, hqueue, rfl⟩ := Feed.step_take h
      simp [hubOp, Transition.System.run, hubSystem, Hub.step, Hub.takeFrom, hqueue]
  | timeout v =>
      obtain ⟨s, -, -, -, ⟨hin, rfl⟩ | ⟨hout, rfl⟩⟩ := Feed.step_timeout h
      · rw [hubOp, if_pos hin]
        rfl
      · rw [hubOp, if_neg hout]
        rfl
  | close v =>
      obtain ⟨s, -, -, rfl⟩ := Feed.step_close h
      rfl

/-- A step of its own. -/
theorem Feed.step_own {b : ConnectionAction} (h : st.step a = some st')
    (hown : a.own st.log = some (v, b)) (hs : st.streams v = some s) :
    ∃ s', st'.streams v = some s' ∧ Connection.step ⟨st.hub, v, s⟩ b = some ⟨st'.hub, v, s'⟩ := by
  cases a with
  | select u =>
      cases hown
      obtain ⟨t, ht, hphase, rfl⟩ := Feed.step_select h
      cases hs.symm.trans ht
      exact ⟨_, Function.update_self _ _ _, if_pos hphase⟩
  | yieldRow u =>
      cases hown
      obtain ⟨t, env, rest, ht, hphase, rfl⟩ := Feed.step_yieldRow h
      cases hs.symm.trans ht
      exact ⟨_, Function.update_self _ _ _, by simp only [Connection.step, hphase]; rfl⟩
  | take u =>
      cases hown
      obtain ⟨t, env, rest, ht, hphase, hqueue, rfl⟩ := Feed.step_take h
      cases hs.symm.trans ht
      exact ⟨_, Function.update_self _ _ _,
        by simp [Connection.step, hphase, Hub.takeFrom, hqueue]⟩
  | timeout u =>
      cases hown
      obtain ⟨t, ht, hphase, -, ⟨hin, rfl⟩ | ⟨hout, rfl⟩⟩ := Feed.step_timeout h
      · cases hs.symm.trans ht
        exact ⟨_, hs, by simp [Connection.step, hphase, hin]⟩
      · cases hs.symm.trans ht
        exact ⟨_, Function.update_self _ _ _,
          by simp [Connection.step, hphase, hout, Connection.finish, Feed.finish, Feed.setStream]⟩
  | close u =>
      cases hown
      obtain ⟨t, ht, hphase, rfl⟩ := Feed.step_close h
      cases hs.symm.trans ht
      exact ⟨_, Function.update_self _ _ _, if_neg hphase⟩
  | commit | publish | abandon | notify | beat | connect => cases hown

/-- The other steps do not touch the generator, nor its queue and its id at the hub. -/
theorem Feed.step_others (h : st.step a = some st') (hown : ∀ b, a.own st.log ≠ some (v, b))
    (hv : v < st.hub.ids) : st'.streams v = st.streams v ∧
      ∀ op ∈ st.hubOp a, ¬ (op = .get v ∨ op = .deregister v) := by
  have hother : ∀ {u b}, a.own st.log = some (u, b) → v ≠ u := by
    rintro u b hb rfl
    exact hown b hb
  cases a with
  | commit w row =>
      obtain ⟨-, -, rfl⟩ := Feed.step_commit h
      exact ⟨rfl, by simp [hubOp]⟩
  | publish w =>
      obtain ⟨row, hrow, rfl⟩ := Feed.step_publish h
      exact ⟨rfl, by simp [hubOp, hrow]⟩
  | abandon w =>
      cases h
      exact ⟨rfl, by simp [hubOp]⟩
  | notify payload =>
      cases h
      exact ⟨rfl, by simp [hubOp]⟩
  | beat =>
      cases h
      exact ⟨rfl, by simp [hubOp]⟩
  | connect lastSeen =>
      cases h
      exact ⟨Function.update_of_ne (Nat.ne_of_lt hv) _ _, by simp [hubOp]⟩
  | select u =>
      have hne : v ≠ u := hother rfl
      obtain ⟨t, -, -, rfl⟩ := Feed.step_select h
      exact ⟨Function.update_of_ne hne _ _, by simp [hubOp]⟩
  | yieldRow u =>
      have hne : v ≠ u := hother rfl
      obtain ⟨t, env, rest, -, -, rfl⟩ := Feed.step_yieldRow h
      exact ⟨Function.update_of_ne hne _ _, by simp [hubOp]⟩
  | take u =>
      have hne : v ≠ u := hother rfl
      obtain ⟨t, env, rest, -, -, -, rfl⟩ := Feed.step_take h
      exact ⟨Function.update_of_ne hne _ _, by simp [hubOp, hne.symm]⟩
  | timeout u =>
      have hne : v ≠ u := hother rfl
      obtain ⟨t, -, -, -, ⟨hin, rfl⟩ | ⟨hout, rfl⟩⟩ := Feed.step_timeout h
      · exact ⟨rfl, by simp [hubOp, hin]⟩
      · exact ⟨Function.update_of_ne hne _ _, by simp [hubOp, hout, hne.symm]⟩
  | close u =>
      have hne : v ≠ u := hother rfl
      obtain ⟨t, -, -, rfl⟩ := Feed.step_close h
      exact ⟨Function.update_of_ne hne _ _, by simp [hubOp, hne.symm]⟩

/-- **A step of the feed is a step of each of its generators**, or nothing to it. -/
theorem Feed.step_connection (maxsize : Int) (h : st.step a = some st')
    (hs : st.streams v = some s) (hv : v < st.hub.ids) : ∃ s', st'.streams v = some s' ∧
      (connections maxsize).run ⟨st.hub, v, s⟩ (st.seen v a).toList = some ⟨st'.hub, v, s'⟩ := by
  by_cases hown : ∃ b, a.own st.log = some (v, b)
  · obtain ⟨b, hown⟩ := hown
    obtain ⟨s', hs', hstep⟩ := Feed.step_own h hown hs
    refine ⟨s', hs', ?_⟩
    simp only [seen, hown, if_true, Option.toList_some, Transition.System.run_cons]
    exact (congrArg (Option.bind · _) hstep).trans rfl
  · obtain ⟨hstreams, hop⟩ := Feed.step_others h (not_exists.1 hown) hv
    refine ⟨s, hstreams.trans hs, ?_⟩
    have hseen : st.seen v a = (st.hubOp a).map .hub := by
      unfold seen
      split
      · next u b hb => exact if_neg (by rintro rfl; exact hown ⟨b, hb⟩)
      · rfl
    have hhub := Feed.step_hubOp maxsize h
    rw [hseen]
    cases hcase : st.hubOp a with
    | none =>
        rw [hcase] at hhub
        rw [← Option.some.inj hhub]
        rfl
    | some op =>
        rw [hcase] at hhub
        obtain ⟨hub, hhub, hnil⟩ := (hubSystem maxsize).run_cons_some hhub
        rw [← Option.some.inj hnil]
        have hstep : Connection.step ⟨st.hub, v, s⟩ (.hub op) = some ⟨hub, v, s⟩ := by
          simp only [Connection.step, if_neg (hop op hcase)]
          exact congrArg (Option.map _) hhub
        exact (congrArg (Option.bind · _) hstep).trans rfl

/-- A generator begins with its registration. -/
theorem Feed.step_opened (h : st.step a = some st') (hnone : st.streams v = none)
    (hs : st'.streams v = some s) : ∃ lastSeen since,
      (⟨st'.hub, v, s⟩ : Connection)
        = ⟨st.hub.register.2, st.hub.register.1, .start lastSeen since⟩ := by
  have hold : ∀ {t}, st.streams v ≠ some t := by simp [hnone]
  have hupdate : ∀ {u t t'}, st.streams u = some t →
      Function.update st.streams u (some t') v ≠ some s := by
    intro u t t' ht heq
    rcases setStream_cases heq with ⟨rfl, -⟩ | ⟨-, heq⟩
    · exact hold ht
    · exact hold heq
  cases a with
  | commit w row =>
      obtain ⟨-, -, rfl⟩ := Feed.step_commit h
      exact absurd hs hold
  | publish w =>
      obtain ⟨row, -, rfl⟩ := Feed.step_publish h
      exact absurd hs hold
  | abandon w =>
      cases h
      exact absurd hs hold
  | notify payload =>
      cases h
      exact absurd hs hold
  | beat =>
      cases h
      exact absurd hs hold
  | connect lastSeen =>
      cases h
      rcases setStream_cases hs with ⟨rfl, rfl⟩ | ⟨-, hs⟩
      · exact ⟨lastSeen, _, rfl⟩
      · exact absurd hs hold
  | select u =>
      obtain ⟨t, ht, -, rfl⟩ := Feed.step_select h
      exact absurd hs (hupdate ht)
  | yieldRow u =>
      obtain ⟨t, env, rest, ht, -, rfl⟩ := Feed.step_yieldRow h
      exact absurd hs (hupdate ht)
  | take u =>
      obtain ⟨t, env, rest, ht, -, -, rfl⟩ := Feed.step_take h
      exact absurd hs (hupdate ht)
  | timeout u =>
      obtain ⟨t, ht, -, -, ⟨-, rfl⟩ | ⟨-, rfl⟩⟩ := Feed.step_timeout h
      · exact absurd hs hold
      · exact absurd hs (hupdate ht)
  | close u =>
      obtain ⟨t, ht, -, rfl⟩ := Feed.step_close h
      exact absurd hs (hupdate ht)

/-- **The generators of the feed are connections**: what holds of every reachable connection holds of
    each of them. -/
theorem feed_connections {st₀ : Feed W} (h₀ : st₀.Boot) (hhub : st₀.hub = Hub.new maxsize)
    {as : List (FeedAction W)} (hrun : (feed W).run st₀ as = some st) (hs : st.streams v = some s) :
    (connections maxsize).Reachable ⟨st.hub, v, s⟩ := by
  have hall := (feed W).run_induction (s := st₀) (motive := fun _ st =>
    (∃ ops, (hubSystem maxsize).run (Hub.new maxsize) ops = some st.hub) ∧
      ∀ v s, st.streams v = some s → (connections maxsize).Reachable ⟨st.hub, v, s⟩)
    ⟨⟨[], congrArg some hhub.symm⟩, fun v s hs => by rw [h₀.streams v] at hs; cases hs⟩ ?_ as st hrun
  · exact hall.2 v s hs
  rintro as st₁ a st₂ hrun₁ ⟨⟨ops, hops⟩, hreach⟩ hstep
  refine ⟨⟨ops ++ (st₁.hubOp a).toList, ?_⟩, fun v s hs => ?_⟩
  · rw [Transition.System.run_append, hops]
    exact Feed.step_hubOp maxsize hstep
  cases hold : st₁.streams v with
  | none =>
      obtain ⟨lastSeen, since, hconn⟩ := Feed.step_opened hstep hold hs
      exact .init _ ⟨ops, st₁.hub, lastSeen, since, hops, hconn⟩
  | some t =>
      have hissued := ((feedInv_reachable ⟨st₀, as, h₀, hrun₁⟩).streams v t hold).issued
      obtain ⟨s', hs', hconn⟩ := Feed.step_connection maxsize hstep hold hissued
      cases hs.symm.trans hs'
      exact (hreach v t hold).run _ hconn

end Streams

/-! ## After the drop -/

/-- The viewer is out, with `n` envelopes in its queue. -/
structure Hung (n : Nat) (c : Connection) : Prop where
  out : c.viewer ∉ c.hub.viewers
  issued : c.viewer < c.hub.ids
  queue : (c.hub.queues c.viewer).length = n

theorem Hung.finish {n : Nat} (h : Hung n c) : Hung n c.finish where
  out := fun hin => h.out ((Hub.mem_deregister c.hub c.viewer c.viewer).1 hin).1
  issued := h.issued
  queue := h.queue

/-- **Only a get changes the queue of a viewer that is out**, and a timeout ends its stream. -/
theorem Hung.step {n : Nat} {a : ConnectionAction} (h : Hung n c) (hstep : c.step a = some c') :
    (∃ n', Hung n' c' ∧ n = n' + if a = .get then 1 else 0) ∧
      (a = .timeout → c'.stream.phase = .ended) := by
  cases a with
  | hub op =>
      obtain ⟨hub, hhub, rfl, hget, -⟩ := Connection.step_hub hstep
      have hseat := (Hub.seat_step hhub c.viewer).1
      have hout : (c.hub.seat c.viewer).member = false := decide_eq_false h.out
      obtain ⟨hmember, hids, hqueue⟩ := Seat.step_out c.hub.maxsize op hout h.issued
      rw [← hseat] at hmember hids hqueue
      rw [Seat.got, if_neg hget, List.nil_append] at hqueue
      refine ⟨⟨n, ⟨of_decide_eq_false hmember, Nat.lt_of_lt_of_le h.issued hids, ?_⟩, by simp⟩, by
        simp⟩
      exact (congrArg List.length hqueue).trans h.queue
  | select log =>
      simp only [Connection.step] at hstep
      split at hstep
      · cases hstep
        exact ⟨⟨n, ⟨h.out, h.issued, h.queue⟩, by simp⟩, by simp⟩
      · cases hstep
  | yieldRow =>
      simp only [Connection.step] at hstep
      split at hstep
      · cases hstep
        exact ⟨⟨n, ⟨h.out, h.issued, h.queue⟩, by simp⟩, by simp⟩
      · cases hstep
  | get =>
      obtain ⟨-, env, rest, hqueue, hqueue', hview, hids, -, hviewer, -⟩ :=
        Connection.step_get hstep
      refine ⟨⟨rest.length, ⟨?_, ?_, ?_⟩, ?_⟩, by simp⟩
      · rw [hviewer, hview]
        exact h.out
      · rw [hviewer, hids]
        exact h.issued
      · rw [hviewer, hqueue']
      · rw [← h.queue, hqueue]
        rfl
  | timeout =>
      obtain ⟨-, ⟨hin, -⟩ | ⟨-, rfl⟩⟩ := Connection.step_timeout hstep
      · exact absurd hin h.out
      · exact ⟨⟨n, h.finish, by simp⟩, fun _ => rfl⟩
  | close =>
      simp only [Connection.step] at hstep
      split at hstep
      · cases hstep
      · cases hstep
        exact ⟨⟨n, h.finish, by simp⟩, by simp⟩

/-- A stream that has ended does nothing more. -/
theorem Connection.step_ended {a : ConnectionAction} (h : c.stream.phase = .ended)
    (hstep : c.step a = some c') : c'.stream = c.stream := by
  cases a with
  | hub op =>
      obtain ⟨hub, -, rfl, -, -⟩ := step_hub hstep
      rfl
  | get => exact absurd ((step_get hstep).1.symm.trans h) (by simp)
  | timeout => exact absurd ((step_timeout hstep).1.symm.trans h) (by simp)
  | select | yieldRow | close => simp [step, h] at hstep

theorem run_ended {as : List ConnectionAction} (h : c.stream.phase = .ended)
    (hrun : (connections maxsize).run c as = some c') : c'.stream = c.stream := by
  refine (connections maxsize).run_induction (motive := fun _ c' => c'.stream = c.stream) rfl ?_
    as c' hrun
  intro _ c₁ a c₂ _ hsame hstep
  rw [Connection.step_ended (by rw [hsame]; exact h) hstep, hsame]

theorem Hung.run {n : Nat} {as : List ConnectionAction} (h : Hung n c)
    (hrun : (connections maxsize).run c as = some c') :
    ∃ n', Hung n' c' ∧ n = n' + as.count .get ∧
      (.timeout ∈ as → c'.stream.phase = .ended) := by
  refine (connections maxsize).run_induction (motive := fun as c' =>
    ∃ n', Hung n' c' ∧ n = n' + as.count .get ∧ (.timeout ∈ as → c'.stream.phase = .ended))
    ⟨n, h, by simp, by simp⟩ ?_ as c' hrun
  rintro as c₁ a c₂ - ⟨n₁, hc₁, hn₁, hended⟩ hstep
  obtain ⟨⟨n₂, hc₂, hn₂⟩, htimeout⟩ := hc₁.step hstep
  refine ⟨n₂, hc₂, ?_, fun hmem => ?_⟩
  · rw [List.count_append, List.count_singleton]
    simp only [beq_iff_eq]
    omega
  · rcases List.mem_append.1 hmem with hmem | hmem
    · rw [Connection.step_ended (hended hmem) hstep]
      exact hended hmem
    · exact htimeout (List.mem_singleton.1 hmem).symm

/-- **A dropped viewer's stream ends, a live one's does not.** Whatever goes on in the hub: a stream
    that has ended, for any reason, has no viewer in the hub and does nothing more; no timeout ends
    the stream of a viewer in the hub; and once the viewer is out, its stream takes no more than what
    is in its queue, at most `maxsize` envelopes, and has ended after the first timeout. -/
theorem dropped_stream_ends (hmax : 1 ≤ maxsize) (h : (connections maxsize).Reachable c) :
    (c.stream.phase = .ended → c.viewer ∉ c.hub.viewers ∧
      ∀ as c', (connections maxsize).run c as = some c' → c'.stream = c.stream) ∧
    (c.viewer ∈ c.hub.viewers → ∀ c', c.step .timeout = some c' → c' = c) ∧
    (c.viewer ∉ c.hub.viewers → ∀ as c', (connections maxsize).run c as = some c' →
      (as.count .get : Int) ≤ maxsize ∧
      as.count .get + (c'.hub.queues c'.viewer).length = (c.hub.queues c.viewer).length ∧
      (.timeout ∈ as → c'.stream.phase = .ended)) := by
  have hc := connected_reachable hmax h
  refine ⟨fun hended => ⟨hc.ended hended, fun as c' hrun => run_ended hended hrun⟩, ?_, ?_⟩
  · intro hin c' hstep
    obtain ⟨-, ⟨-, rfl⟩ | ⟨hout, -⟩⟩ := Connection.step_timeout hstep
    · rfl
    · exact absurd hin hout
  · intro hout as c' hrun
    obtain ⟨n', hc', hn, htimeout⟩ := Hung.run ⟨hout, hc.issued, rfl⟩ hrun
    have hbounded := hc.bounded
    have hqueue := hc'.queue
    exact ⟨by omega, by omega, htimeout⟩

/-- The viewer is dropped while its catch-up is being sent; it takes what is left and hangs up. -/
theorem slowStream_ends : ∃ c c', (connections 1).run
      ⟨(Hub.new 1).register.2, 0, .start 0 0⟩
      [.select [⟨1, py "a"⟩], .hub (.publish 2 (py "b")), .hub .beat, .yieldRow] = some c ∧
    c.viewer ∉ c.hub.viewers ∧
    (connections 1).run c [.get, .timeout] = some c' ∧ c'.stream.phase = .ended := by
  have hstart : (connections 1).Init ⟨(Hub.new 1).register.2, 0, .start 0 0⟩ :=
    ⟨[], _, 0, 0, rfl, rfl⟩
  have hruns : ∃ c c', (connections 1).run ⟨(Hub.new 1).register.2, 0, .start 0 0⟩
      [.select [⟨1, py "a"⟩], .hub (.publish 2 (py "b")), .hub .beat, .yieldRow] = some c ∧
      c.viewer ∉ c.hub.viewers ∧ (connections 1).run c [.get, .timeout] = some c' :=
    ⟨_, _, rfl, by decide, rfl⟩
  obtain ⟨c, c', hrun, hout, hrest⟩ := hruns
  have hend := (dropped_stream_ends (by decide) ⟨_, _, hstart, hrun⟩).2.2 hout _ _ hrest
  exact ⟨c, c', hrun, hout, hrest, hend.2.2 (by simp)⟩

end RexHunter
