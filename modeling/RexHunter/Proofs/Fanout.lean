import RexHunter.Lib.Transition
import RexHunter.Implementation.Hub

set_option autoImplicit false

/-! # The hub loses nothing silently

To one viewer the hub is a seat: whether it is still a member, and what is in its queue. Every
operation changes the seat of a viewer by a rule that looks at no other seat (`Hub.seat_step`), so
all that is said of a viewer is an induction over the operations on its seat alone: it gets all that
is offered while it is a member, and what makes it leave is the first offer that meets a full queue,
or its own wish. -/

namespace RexHunter

/-! ## The operations -/

/-- One operation on the hub. `get` is a `queue.get()` of the viewer's stream that returns; on an
    empty queue it waits. -/
inductive HubOp where
  | register
  | deregister (v : ViewerId)
  | publish (eventId : Nat) (payload : PyStr)
  | notify (payload : PyStr)
  | beat
  | get (v : ViewerId)
deriving DecidableEq

/-- What the operation offers to every viewer. -/
def HubOp.envelope : HubOp → Option Envelope
  | publish eventId payload => some ⟨some eventId, payload⟩
  | notify payload => some ⟨none, payload⟩
  | beat => some ⟨none, []⟩
  | _ => none

/-- The envelopes offered by the operations, in order. -/
def offered (ops : List HubOp) : List Envelope := ops.filterMap HubOp.envelope

/-- The operations without what other viewers take. -/
def visible (v : ViewerId) (ops : List HubOp) : List HubOp :=
  ops.filter (fun op => match op with
    | .get u => decide (u = v)
    | _ => true)

def Hub.step (h : Hub) : HubOp → Option Hub
  | .register => some h.register.2
  | .deregister v => some (h.deregister v)
  | .publish eventId payload => some (h.publish eventId payload)
  | .notify payload => some (h.notify payload)
  | .beat => some h.beat
  | .get v => (h.takeFrom v).map Prod.snd

/-- The hub under operations of any number of viewers. -/
def hubSystem (maxsize : Int) : Transition.System Hub HubOp where
  Init := fun h => h = Hub.new maxsize
  step := Hub.step

/-- What the viewer takes from its queue in the operations. -/
def Hub.taken (v : ViewerId) : Hub → List HubOp → List Envelope
  | _, [] => []
  | h, op :: ops =>
      (if op = .get v then (h.queues v).head?.toList else []) ++
        match h.step op with
        | some h' => taken v h' ops
        | none => []

/-! ## A seat -/

/-- The hub as one viewer sees it. -/
structure Seat where
  ids : Nat
  member : Bool
  queue : List Envelope

namespace Seat

def full (maxsize : Int) (s : Seat) : Bool :=
  decide (0 < maxsize ∧ maxsize ≤ s.queue.length)

/-- An offer to the viewer. -/
def offer (maxsize : Int) (s : Seat) (env : Envelope) : Seat :=
  if s.member then
    if s.full maxsize then { s with member := false } else { s with queue := s.queue ++ [env] }
  else s

def step (maxsize : Int) (v : ViewerId) (s : Seat) : HubOp → Seat
  | .register =>
      if s.ids = v then { ids := s.ids + 1, member := true, queue := [] }
      else { s with ids := s.ids + 1 }
  | .deregister u => if u = v then { s with member := false } else s
  | .publish eventId payload => s.offer maxsize ⟨some eventId, payload⟩
  | .notify payload => s.offer maxsize ⟨none, payload⟩
  | .beat => s.offer maxsize ⟨none, []⟩
  | .get u => if u = v then { s with queue := s.queue.tail } else s

/-- What is taken from the seat in the operations. -/
def taken (maxsize : Int) (v : ViewerId) : Seat → List HubOp → List Envelope
  | _, [] => []
  | s, op :: ops =>
      (if op = .get v then s.queue.head?.toList else []) ++
        taken maxsize v (s.step maxsize v op) ops

end Seat

/-- The seat of a viewer. -/
def Hub.seat (h : Hub) (v : ViewerId) : Seat := ⟨h.ids, decide (v ∈ h.viewers), h.queues v⟩

theorem Hub.seat_offer (h : Hub) (env : Envelope) (v : ViewerId) :
    (h.offer env).seat v = (h.seat v).offer h.maxsize env := by
  have hmem := mem_offer h env v
  by_cases hv : v ∈ h.viewers
  · by_cases hfull : h.full v
    · have hout : v ∉ (h.offer env).viewers := fun hin => (hmem.1 hin).2 hfull
      have hqueue := offer_queue_of_not_mem h env hout
      simp [seat, Seat.offer, Seat.full, hv, hout, hqueue, show 0 < h.maxsize ∧ _ from hfull]
    · have hin : v ∈ (h.offer env).viewers := hmem.2 ⟨hv, hfull⟩
      have hqueue := offer_queue h env hin
      have hroom : ¬ (0 < h.maxsize ∧ h.maxsize ≤ (h.queues v).length) := hfull
      simp [seat, Seat.offer, Seat.full, hv, hin, hqueue, hroom]
  · have hout : v ∉ (h.offer env).viewers := fun hin => hv (hmem.1 hin).1
    have hqueue := offer_queue_of_not_mem h env hout
    simp [seat, Seat.offer, hv, hout, hqueue]

/-- **Every operation changes a seat by a rule of its own**, whatever is in the other seats. -/
theorem Hub.seat_step {h h' : Hub} {op : HubOp} (hstep : h.step op = some h') (v : ViewerId) :
    h'.seat v = (h.seat v).step h.maxsize v op ∧ h'.maxsize = h.maxsize := by
  cases op with
  | register =>
      cases hstep
      refine ⟨?_, rfl⟩
      by_cases hv : h.ids = v
      · subst hv
        simp [seat, Seat.step, mem_register, register_queue]
        rfl
      · have hne : v ≠ h.ids := Ne.symm hv
        simp [seat, Seat.step, mem_register, register_queue, hv, hne]
        rfl
  | deregister u =>
      cases hstep
      refine ⟨?_, rfl⟩
      by_cases hv : u = v
      · subst hv
        simp [seat, Seat.step, mem_deregister]
        exact ⟨rfl, rfl⟩
      · have hne : v ≠ u := Ne.symm hv
        simp [seat, Seat.step, mem_deregister, hv, hne]
        exact ⟨rfl, rfl⟩
  | publish | notify | beat =>
      cases hstep
      exact ⟨seat_offer h _ v, offer_maxsize h _⟩
  | get u =>
      simp only [step, takeFrom] at hstep
      split at hstep
      · cases hstep
      · next env rest hqueue =>
          cases hstep
          refine ⟨?_, rfl⟩
          by_cases hv : u = v
          · subst hv
            simp [seat, Seat.step, hqueue]
          · have hne : v ≠ u := Ne.symm hv
            simp [seat, Seat.step, hv, hne]

/-! ## A run on a seat -/

/-- A run of the hub is, for each viewer, a fold on its seat. -/
theorem Hub.seat_run {maxsize : Int} {ops : List HubOp} : ∀ {h h' : Hub},
    (hubSystem maxsize).run h ops = some h' → ∀ v,
      h'.seat v = ops.foldl (Seat.step h.maxsize v) (h.seat v) ∧
      h.taken v ops = (h.seat v).taken h.maxsize v ops ∧ h'.maxsize = h.maxsize := by
  induction ops with
  | nil =>
      intro h h' hrun v
      cases hrun
      exact ⟨rfl, rfl, rfl⟩
  | cons op ops ih =>
      intro h h' hrun v
      obtain ⟨g, hstep, hrest⟩ := (hubSystem maxsize).run_cons_some hrun
      have hstep' : h.step op = some g := hstep
      obtain ⟨hseat, hmax⟩ := Hub.seat_step hstep' v
      obtain ⟨hfold, htaken, hmax'⟩ := ih hrest v
      rw [hmax, hseat] at hfold htaken
      refine ⟨hfold, ?_, hmax'.trans hmax⟩
      simp only [Hub.taken, hstep', Seat.taken, htaken]
      rfl

namespace Seat

variable (maxsize : Int) {v : ViewerId} {s : Seat} (op : HubOp)

/-- What makes a viewer leave: it is told to, or an offer meets its full queue. -/
def Leaves (maxsize : Int) (v : ViewerId) (s : Seat) (op : HubOp) : Prop :=
  op = .deregister v ∨ op.envelope.isSome = true ∧ s.full maxsize = true

/-- What the operation takes from the queue of the viewer. -/
def got (v : ViewerId) (s : Seat) (op : HubOp) : List Envelope :=
  if op = .get v then s.queue.head?.toList else []

/-- A viewer in the hub leaves, or it gets what is offered. -/
theorem step_member (hs : s.member = true) (hv : v < s.ids) :
    (s.Leaves maxsize v op ∧ s.step maxsize v op = { s with member := false }) ∨
    ((s.step maxsize v op).member = true ∧ s.ids ≤ (s.step maxsize v op).ids ∧
      s.got v op ++ (s.step maxsize v op).queue = s.queue ++ op.envelope.toList) := by
  have hids : s.ids ≠ v := Nat.ne_of_gt hv
  cases op with
  | publish | notify | beat =>
      cases hfull : s.full maxsize with
      | true => exact Or.inl ⟨Or.inr ⟨rfl, hfull⟩, by simp [step, offer, hs, hfull]⟩
      | false => simp [step, offer, hs, hfull, got, HubOp.envelope]
  | register => simp [step, hids, hs, got, HubOp.envelope]
  | deregister u =>
      by_cases hu : u = v
      · exact Or.inl ⟨Or.inl (by rw [hu]), if_pos hu⟩
      · simp [step, hu, hs, got, HubOp.envelope]
  | get u =>
      by_cases hu : u = v
      · subst hu
        cases hqueue : s.queue <;> simp [step, hs, got, HubOp.envelope, hqueue]
      · simp [step, hu, hs, got, HubOp.envelope]

/-- A viewer that is out gets nothing more and stays out; it may go on taking. -/
theorem step_out (hs : s.member = false) (hv : v < s.ids) :
    (s.step maxsize v op).member = false ∧ s.ids ≤ (s.step maxsize v op).ids ∧
    s.got v op ++ (s.step maxsize v op).queue = s.queue := by
  have hids : s.ids ≠ v := Nat.ne_of_gt hv
  cases op with
  | publish | notify | beat => simp [step, offer, hs, got]
  | register => simp [step, hids, hs, got]
  | deregister u => by_cases hu : u = v <;> simp [step, hu, hs, got]
  | get u =>
      by_cases hu : u = v
      · subst hu
        cases hqueue : s.queue <;> simp [step, hqueue, hs, got]
      · simp [step, hu, hs, got]

theorem run_out (ops : List HubOp) : ∀ {s : Seat}, s.member = false → v < s.ids →
    (ops.foldl (step maxsize v) s).member = false ∧
    s.taken maxsize v ops ++ (ops.foldl (step maxsize v) s).queue = s.queue := by
  induction ops with
  | nil => exact fun hs _ => ⟨hs, rfl⟩
  | cons op ops ih =>
      intro s hs hv
      obtain ⟨hout, hids, hqueue⟩ := step_out maxsize op hs hv
      obtain ⟨hmember, hrest⟩ := ih hout (Nat.lt_of_lt_of_le hv hids)
      refine ⟨hmember, ?_⟩
      rw [taken, List.append_assoc, List.foldl_cons, hrest]
      exact hqueue

theorem taken_cons {ops before : List HubOp} {q : List Envelope}
    (hkeep : s.got v op ++ (s.step maxsize v op).queue = s.queue ++ op.envelope.toList)
    (h : (s.step maxsize v op).taken maxsize v ops ++ q
      = (s.step maxsize v op).queue ++ offered before) :
    s.taken maxsize v (op :: ops) ++ q = s.queue ++ offered (op :: before) := by
  have hoffered : offered (op :: before) = op.envelope.toList ++ offered before := by
    unfold offered
    cases henv : op.envelope with
    | none => rw [List.filterMap_cons_none henv]; rfl
    | some env => rw [List.filterMap_cons_some henv]; rfl
  calc s.taken maxsize v (op :: ops) ++ q
      = s.got v op ++ ((s.step maxsize v op).taken maxsize v ops ++ q) := List.append_assoc _ _ _
    _ = (s.got v op ++ (s.step maxsize v op).queue) ++ offered before := by
        rw [h, List.append_assoc]
    _ = s.queue ++ offered (op :: before) := by rw [hkeep, hoffered, List.append_assoc]

/-- **Complete or gone**: a viewer in the hub has all that was offered, and one that left has what
    was offered before it left. -/
theorem run_member (ops : List HubOp) : ∀ {s : Seat}, s.member = true → v < s.ids →
    ((ops.foldl (step maxsize v) s).member = true ∧
      s.taken maxsize v ops ++ (ops.foldl (step maxsize v) s).queue = s.queue ++ offered ops) ∨
    ((ops.foldl (step maxsize v) s).member = false ∧ ∃ before op after, ops = before ++ op :: after ∧
      (before.foldl (step maxsize v) s).member = true ∧
      (before.foldl (step maxsize v) s).Leaves maxsize v op ∧
      s.taken maxsize v ops ++ (ops.foldl (step maxsize v) s).queue = s.queue ++ offered before) := by
  induction ops with
  | nil => exact fun hs _ => Or.inl ⟨hs, (List.append_nil _).symm⟩
  | cons op ops ih =>
      intro s hs hv
      rcases step_member maxsize op hs hv with
        ⟨hleaves, hstep⟩ | ⟨hmember, hids, hkeep⟩
      · have hop : op ≠ .get v := by
          rintro rfl
          rcases hleaves with h | h
          · cases h
          · cases h.1
        obtain ⟨hout, hqueue⟩ := run_out maxsize (v := v) ops
          (s := { s with member := false }) rfl hv
        rw [← hstep] at hout hqueue
        refine Or.inr ⟨hout, [], op, ops, rfl, hs, hleaves, ?_⟩
        rw [taken, if_neg hop, List.nil_append, List.foldl_cons, hqueue, hstep]
        exact (List.append_nil _).symm
      · rcases ih hmember (Nat.lt_of_lt_of_le hv hids) with
          ⟨hin, heq⟩ | ⟨hout, before, op', after, rfl, hbefore, hleaves, heq⟩
        · exact Or.inl ⟨hin, taken_cons maxsize op hkeep heq⟩
        · exact Or.inr ⟨hout, op :: before, op', after, rfl, hbefore, hleaves,
            taken_cons maxsize op hkeep heq⟩

theorem ids_le_step : s.ids ≤ (s.step maxsize v op).ids := by
  have hoffer : ∀ env, (s.offer maxsize env).ids = s.ids := by
    intro env
    unfold offer
    split
    · split <;> rfl
    · rfl
  cases op with
  | publish | notify | beat => exact Nat.le_of_eq (hoffer _).symm
  | register => by_cases hids : s.ids = v <;> simp [step, hids]
  | deregister u => by_cases hu : u = v <;> simp [step, hu]
  | get u => by_cases hu : u = v <;> simp [step, hu]

theorem ids_le_run (v : ViewerId) (ops : List HubOp) :
    ∀ s : Seat, s.ids ≤ (ops.foldl (step maxsize v) s).ids := by
  induction ops with
  | nil => exact fun _ => Nat.le_refl _
  | cons op ops ih => exact fun s => Nat.le_trans (ids_le_step maxsize op) (ih _)

/-- A viewer that is still in the hub met no full queue on the way. -/
theorem room_before {before after : List HubOp} (hv : v < s.ids)
    (hin : ((before ++ op :: after).foldl (step maxsize v) s).member = true) :
    ¬ (before.foldl (step maxsize v) s).Leaves maxsize v op := by
  intro hleaves
  have hids := Nat.lt_of_lt_of_le hv (ids_le_run maxsize v before s)
  rw [List.foldl_append, List.foldl_cons] at hin
  have hout : ((before.foldl (step maxsize v) s).step maxsize v op).member = false := by
    cases hmember : (before.foldl (step maxsize v) s).member with
    | false => exact (step_out maxsize op hmember hids).1
    | true =>
        rcases hleaves with rfl | ⟨henv, hfull⟩
        · simp [step]
        · cases op with
          | publish | notify | beat => simp [step, offer, hmember, hfull]
          | register | deregister | get => cases henv
  have hend := (run_out maxsize after hout
    (Nat.lt_of_lt_of_le hids (ids_le_step maxsize op))).1
  rw [hin] at hend
  cases hend

theorem length_step (hmax : 1 ≤ maxsize) (hs : (s.queue.length : Int) ≤ maxsize) :
    ((s.step maxsize v op).queue.length : Int) ≤ maxsize := by
  have hoffer : ∀ env, ((s.offer maxsize env).queue.length : Int) ≤ maxsize := by
    intro env
    unfold offer
    split
    · cases hfull : s.full maxsize with
      | true => exact hs
      | false =>
          have hroom := of_decide_eq_false hfull
          simp only [Bool.false_eq_true, if_false, List.length_append, List.length_singleton]
          omega
    · exact hs
  cases op with
  | publish | notify | beat => exact hoffer _
  | register =>
      by_cases hids : s.ids = v
      · simp [step, hids]
        omega
      · simpa [step, hids] using hs
  | deregister u => by_cases hu : u = v <;> simpa [step, hu] using hs
  | get u =>
      by_cases hu : u = v
      · simp [step, hu]
        omega
      · simpa [step, hu] using hs

theorem length_run (hmax : 1 ≤ maxsize) (ops : List HubOp) :
    ∀ s : Seat, (s.queue.length : Int) ≤ maxsize →
      ((ops.foldl (step maxsize v) s).queue.length : Int) ≤ maxsize := by
  induction ops with
  | nil => exact fun _ hs => hs
  | cons op ops ih => exact fun s hs => ih _ (length_step maxsize op hmax hs)

/-- What other viewers take does not reach the seat. -/
theorem foldl_visible (ops : List HubOp) : ∀ s : Seat,
    (visible v ops).foldl (step maxsize v) s = ops.foldl (step maxsize v) s := by
  induction ops with
  | nil => exact fun _ => rfl
  | cons op ops ih =>
      intro s
      unfold visible at ih ⊢
      cases op with
      | get u =>
          by_cases hu : u = v
          · rw [List.filter_cons_of_pos (by simpa using hu)]
            exact ih _
          · have hsame : s.step maxsize v (.get u) = s := if_neg hu
            rw [List.filter_cons_of_neg (by simpa using hu), List.foldl_cons, hsame]
            exact ih s
      | register | deregister | publish | notify | beat =>
          rw [List.filter_cons_of_pos rfl]
          exact ih _

end Seat

/-! ## The hub -/

theorem Hub.member_iff (h : Hub) (v : ViewerId) : (h.seat v).member = true ↔ v ∈ h.viewers :=
  decide_eq_true_iff

theorem Hub.seat_full {h : Hub} {maxsize : Int} (hmax : h.maxsize = maxsize) (v : ViewerId) :
    (h.seat v).full maxsize = true ↔ h.full v := by
  subst hmax
  exact decide_eq_true_iff

/-- The seat of a viewer that has just registered. -/
theorem Hub.seat_register (h : Hub) : h.register.2.seat h.register.1 = ⟨h.ids + 1, true, []⟩ := by
  have hin : h.ids ∈ h.register.2.viewers := (mem_register h _).2 (Or.inr rfl)
  have hqueue := register_queue h h.ids
  rw [if_pos rfl] at hqueue
  unfold seat
  rw [register_fst, hqueue, decide_eq_true hin]
  rfl

section Runs

variable {maxsize : Int}

/-- The part of a run after a registration. -/
theorem run_registered {before after : List HubOp} {g h : Hub}
    (hbefore : (hubSystem maxsize).run (Hub.new maxsize) before = some g)
    (hrun : (hubSystem maxsize).run (Hub.new maxsize) (before ++ .register :: after) = some h) :
    (hubSystem maxsize).run g.register.2 after = some h := by
  rw [(hubSystem maxsize).run_append, hbefore] at hrun
  exact hrun

/-- And back. -/
theorem run_of_registered {before mid rest : List HubOp} {g h : Hub}
    (hbefore : (hubSystem maxsize).run (Hub.new maxsize) before = some g)
    (hafter : (hubSystem maxsize).run g.register.2 (mid ++ rest) = some h) :
    ∃ g', (hubSystem maxsize).run (Hub.new maxsize) (before ++ .register :: mid) = some g' := by
  rw [(hubSystem maxsize).run_append] at hafter
  obtain ⟨g', hmid, _⟩ := Option.bind_eq_some_iff.1 hafter
  refine ⟨g', ?_⟩
  rw [(hubSystem maxsize).run_append, hbefore]
  exact hmid

/-- What the seat of a registered viewer has become. -/
theorem seat_registered {before after : List HubOp} {g h : Hub}
    (hbefore : (hubSystem maxsize).run (Hub.new maxsize) before = some g)
    (hrun : (hubSystem maxsize).run (Hub.new maxsize) (before ++ .register :: after) = some h) :
    h.seat g.register.1
        = after.foldl (Seat.step maxsize g.register.1) ⟨g.ids + 1, true, []⟩ ∧
      g.register.2.taken g.register.1 after
        = Seat.taken maxsize g.register.1 ⟨g.ids + 1, true, []⟩ after ∧ h.maxsize = maxsize := by
  obtain ⟨_, _, hmax⟩ := Hub.seat_run hbefore g.register.1
  obtain ⟨hseat, htaken, hmax'⟩ := Hub.seat_run (run_registered hbefore hrun) g.register.1
  have hg : g.register.2.maxsize = maxsize := hmax
  rw [hg, Hub.seat_register] at hseat htaken
  exact ⟨hseat, htaken, hmax'.trans hg⟩

/-- **The hub loses nothing silently.** After any operations: no queue is over its bound; each
    viewer still in the hub has taken, or has in its queue, exactly what was offered since it
    registered; each viewer that left has exactly what was offered up to the operation at which it
    left, which told it to go or was the first to meet its full queue; an id is used once; and a
    viewer's membership and its queue do not depend on what the others take. -/
theorem hub_loses_nothing (hmax : 1 ≤ maxsize) {ops : List HubOp} {h : Hub}
    (hrun : (hubSystem maxsize).run (Hub.new maxsize) ops = some h) :
    (∀ v, ((h.queues v).length : Int) ≤ maxsize) ∧
    (∀ before after g v, ops = before ++ .register :: after →
      (hubSystem maxsize).run (Hub.new maxsize) before = some g → g.register.1 = v →
      (v ∈ h.viewers ∧ g.register.2.taken v after ++ h.queues v = offered after) ∨
      (v ∉ h.viewers ∧ ∃ mid op rest g', after = mid ++ op :: rest ∧
        (hubSystem maxsize).run (Hub.new maxsize) (before ++ .register :: mid) = some g' ∧
        v ∈ g'.viewers ∧ (op = .deregister v ∨ op.envelope.isSome = true ∧ g'.full v) ∧
        (∀ mid₁ op₁ mid₂ g₁, mid = mid₁ ++ op₁ :: mid₂ →
          (hubSystem maxsize).run (Hub.new maxsize) (before ++ .register :: mid₁) = some g₁ →
          op₁.envelope.isSome = true → ¬ g₁.full v) ∧
        g.register.2.taken v after ++ h.queues v = offered mid)) ∧
    (∀ before after g, ops = before ++ .register :: after →
      (hubSystem maxsize).run (Hub.new maxsize) before = some g →
      g.register.1 < h.register.1) ∧
    (∀ v ops' h', (hubSystem maxsize).run (Hub.new maxsize) ops' = some h' →
      visible v ops' = visible v ops →
      (v ∈ h'.viewers ↔ v ∈ h.viewers) ∧ h'.queues v = h.queues v) := by
  refine ⟨fun v => ?bound, ?fate, ?fresh, ?alone⟩
  case bound =>
    have hseat := (Hub.seat_run hrun v).1
    have hlength := Seat.length_run maxsize (v := v) hmax ops ((Hub.new maxsize).seat v)
      (by show ((0 : Nat) : Int) ≤ maxsize; omega)
    have heq : (h.seat v).queue
        = (ops.foldl (Seat.step maxsize v) ((Hub.new maxsize).seat v)).queue :=
      congrArg Seat.queue hseat
    rw [← heq] at hlength
    exact hlength
  case fate =>
    rintro before after g v rfl hbefore rfl
    obtain ⟨hseat, htaken, -⟩ := seat_registered hbefore hrun
    have hids : g.register.1 < (⟨g.ids + 1, true, []⟩ : Seat).ids := Nat.lt_succ_self _
    have hmem := h.member_iff g.register.1
    have hqueue : h.queues g.register.1 = (h.seat g.register.1).queue := rfl
    rw [hseat] at hmem hqueue
    rw [htaken, hqueue]
    rcases Seat.run_member maxsize after rfl hids with
      ⟨hin, heq⟩ | ⟨hout, mid, op, rest, rfl, hmid, hleaves, heq⟩
    · exact Or.inl ⟨hmem.1 hin, heq⟩
    · obtain ⟨g', hg'⟩ := run_of_registered hbefore (run_registered hbefore hrun)
      obtain ⟨hseat', -, hmax'⟩ := seat_registered hbefore hg'
      refine Or.inr ⟨fun hin => ?_, mid, op, rest, g', rfl, hg', ?_, ?_, ?_, heq⟩
      · rw [hmem.2 hin] at hout
        cases hout
      · rw [← g'.member_iff, hseat']
        exact hmid
      · rw [← hseat'] at hleaves
        exact hleaves.imp_right (fun hfull => ⟨hfull.1, (Hub.seat_full hmax' _).1 hfull.2⟩)
      · rintro mid₁ op₁ mid₂ g₁ rfl hg₁ henv hfull
        obtain ⟨hseat₁, -, hmax₁⟩ := seat_registered hbefore hg₁
        refine Seat.room_before maxsize op₁ hids hmid (Or.inr ⟨henv, ?_⟩)
        rw [← hseat₁]
        exact (Hub.seat_full hmax₁ _).2 hfull
  case fresh =>
    rintro before after g rfl hbefore
    have hids := congrArg Seat.ids (seat_registered hbefore hrun).1
    have hle := Seat.ids_le_run maxsize g.register.1 after ⟨g.ids + 1, true, []⟩
    rw [← hids] at hle
    exact hle
  case alone =>
    intro v ops' h' hrun' hvisible
    have hsame : h'.seat v = h.seat v := by
      rw [(Hub.seat_run hrun' v).1, (Hub.seat_run hrun v).1, ← Seat.foldl_visible _ ops',
        ← Seat.foldl_visible _ ops, hvisible]
    have hmem := congrArg Seat.member hsame
    refine ⟨?_, congrArg Seat.queue hsame⟩
    rw [← h'.member_iff, ← h.member_iff, hmem]

end Runs

/-- The second viewer takes nothing, and its queue has room for one envelope. -/
def sleepyViewer : List HubOp :=
  [.register, .register, .publish 1 (py "a"), .get 0, .publish 2 (py "b")]

theorem sleepyViewer_dropped : ∃ h, (hubSystem 1).run (Hub.new 1) sleepyViewer = some h ∧
    h.viewers = [0] ∧ h.queues 1 = [⟨some 1, py "a"⟩] ∧ ∀ v, ((h.queues v).length : Int) ≤ 1 :=
  ⟨_, rfl, by decide, rfl, (@hub_loses_nothing 1 (by decide) sleepyViewer _ rfl).1⟩

end RexHunter
