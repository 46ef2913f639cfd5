import Mathlib.Data.List.Nodup
import Mathlib.Logic.Function.Basic
import RexHunter.Lib.Text

set_option autoImplicit false

/-! # The in-process broadcast hub (`hub.py`)

One bounded queue per connected viewer. A committed event is *offered* to every queue and never
awaited: a viewer whose queue is full is dropped from the hub, and keeps only what its queue already
holds. `Hub.viewers` is the key list of the `_viewers` dict; the queue objects live in
`Hub.queues`, because a stream goes on draining its queue after the hub has dropped the viewer. -/

namespace RexHunter

/-- One item on a viewer queue (`Envelope`): `id` is the global event cursor, `none` for a
    notification and for a heartbeat; a heartbeat's `data` is empty. -/
structure Envelope where
  id : Option Nat
  data : PyStr
deriving DecidableEq, Repr

/-- A viewer id: `n` stands for the decimal string `str(n)` that `register` hands out. -/
abbrev ViewerId : Type := Nat

/-- `Hub`. The keys of a dict are distinct, and ids are issued by a counter; both facts are fields,
    so that no operation can break them. -/
structure Hub where
  maxsize : Int
  viewers : List ViewerId
  queues : ViewerId → List Envelope
  ids : Nat
  nodup : viewers.Nodup
  issued : ∀ v ∈ viewers, v < ids

namespace Hub

/-- `Hub(maxsize=…)`: no viewer yet. -/
def new (maxsize : Int) : Hub where
  maxsize := maxsize
  viewers := []
  queues := fun _ => []
  ids := 0
  nodup := List.nodup_nil
  issued := by simp

/-- `asyncio.Queue.full`: a `maxsize` of zero or less means an unbounded queue. -/
def full (h : Hub) (v : ViewerId) : Prop := 0 < h.maxsize ∧ h.maxsize ≤ (h.queues v).length

instance (h : Hub) (v : ViewerId) : Decidable (h.full v) := by unfold full; infer_instance

/-- `register`: a fresh id and an empty queue. -/
def register (h : Hub) : ViewerId × Hub :=
  (h.ids,
    { h with
      viewers := h.viewers ++ [h.ids]
      queues := Function.update h.queues h.ids []
      ids := h.ids + 1
      nodup := by
        refine h.nodup.append (List.nodup_singleton _) ?_
        rw [List.disjoint_singleton]
        exact fun hmem => Nat.lt_irrefl _ (h.issued _ hmem)
      issued := by
        intro v hv
        rcases List.mem_append.1 hv with hv | hv
        · exact Nat.lt_succ_of_lt (h.issued v hv)
        · rw [List.mem_singleton.1 hv]; exact Nat.lt_succ_self _ })

/-- `deregister`: `dict.pop(viewer_id, None)`. -/
def deregister (h : Hub) (v : ViewerId) : Hub :=
  { h with
    viewers := h.viewers.filter (· ≠ v)
    nodup := h.nodup.filter _
    issued := fun u hu => h.issued u (List.mem_of_mem_filter hu) }

/-- `queue.put_nowait(envelope)`; `none` is `QueueFull`. -/
def putNowait (h : Hub) (v : ViewerId) (env : Envelope) : Option Hub :=
  if h.full v then none
  else some { h with queues := Function.update h.queues v (h.queues v ++ [env]) }

/-- The loop body of `_offer` for one viewer. -/
def offerTo (env : Envelope) (h : Hub) (v : ViewerId) : Hub :=
  match h.putNowait v env with
  | some h' => h'
  | none => h.deregister v

/-- `_offer`: over a copy of the items, since a drop mutates the dict. -/
def offer (h : Hub) (env : Envelope) : Hub := h.viewers.foldl (offerTo env) h

def publish (h : Hub) (eventId : Nat) (payload : PyStr) : Hub := h.offer ⟨some eventId, payload⟩

def notify (h : Hub) (payload : PyStr) : Hub := h.offer ⟨none, payload⟩

/-- `_beat`: one keep-alive to every queue, by the same lossy path. -/
def beat (h : Hub) : Hub := h.offer ⟨none, []⟩

/-- `queue.get_nowait()` on a non-empty queue: the envelope and the hub with it removed. -/
def takeFrom (h : Hub) (v : ViewerId) : Option (Envelope × Hub) :=
  match h.queues v with
  | [] => none
  | env :: rest => some (env, { h with queues := Function.update h.queues v rest })

/-! ## What one offer does

`offer` is a fold over the viewers it started with; each viewer is treated once, and treating one
viewer leaves the queue and the membership of every other alone. -/

theorem offerTo_ids (env : Envelope) (h : Hub) (v : ViewerId) :
    (offerTo env h v).ids = h.ids ∧ (offerTo env h v).maxsize = h.maxsize := by
  unfold offerTo putNowait
  by_cases hf : h.full v
  · simp [hf, deregister]
  · simp [hf]

theorem offerTo_viewers (env : Envelope) (h : Hub) (v : ViewerId) :
    (offerTo env h v).viewers = h.viewers.filter (fun u => decide (¬ (u = v ∧ h.full v))) := by
  unfold offerTo putNowait
  by_cases hf : h.full v
  · simp [hf, deregister]
  · simp [hf]

theorem offerTo_queues (env : Envelope) (h : Hub) (v u : ViewerId) :
    (offerTo env h v).queues u
      = if u = v ∧ ¬ h.full v then h.queues u ++ [env] else h.queues u := by
  unfold offerTo putNowait
  by_cases hf : h.full v
  · simp [hf, deregister]
  · by_cases huv : u = v
    · subst huv; simp [hf]
    · simp [hf, huv]

theorem offerTo_full_of_ne (env : Envelope) (h : Hub) {v u : ViewerId} (hne : u ≠ v) :
    (offerTo env h v).full u ↔ h.full u := by
  unfold full
  rw [(offerTo_ids env h v).2, offerTo_queues, if_neg (fun hc => hne hc.1)]

theorem foldl_offerTo (env : Envelope) (vs : List ViewerId) :
    ∀ h : Hub, vs.Nodup →
      (vs.foldl (offerTo env) h).ids = h.ids ∧
      (vs.foldl (offerTo env) h).maxsize = h.maxsize ∧
      (vs.foldl (offerTo env) h).viewers
        = h.viewers.filter (fun u => decide (¬ (u ∈ vs ∧ h.full u))) ∧
      ∀ u, (vs.foldl (offerTo env) h).queues u
        = if u ∈ vs ∧ ¬ h.full u then h.queues u ++ [env] else h.queues u := by
  induction vs with
  | nil =>
      intro h _
      refine ⟨rfl, rfl, ?_, fun u => ?_⟩
      · simp
      · simp
  | cons v vs ih =>
      intro h hnodup
      obtain ⟨hv, hvs⟩ := List.nodup_cons.1 hnodup
      obtain ⟨hids, hmax, hview, hqueue⟩ := ih (offerTo env h v) hvs
      have hfull : ∀ u ∈ vs, ((offerTo env h v).full u ↔ h.full u) := fun u hu =>
        offerTo_full_of_ne env h (fun he => hv (he ▸ hu))
      refine ⟨hids.trans (offerTo_ids env h v).1, hmax.trans (offerTo_ids env h v).2, ?_, ?_⟩
      · rw [List.foldl_cons, hview, offerTo_viewers, List.filter_filter]
        refine List.filter_congr (fun u _ => ?_)
        simp only [List.mem_cons]
        by_cases huv : u = v
        · subst huv; simp [hv]
        · by_cases hu : u ∈ vs
          · simp [huv, hu, hfull u hu]
          · simp [huv, hu]
      · intro u
        rw [List.foldl_cons, hqueue, offerTo_queues]
        by_cases huv : u = v
        · subst huv; simp [hv]
        · by_cases hu : u ∈ vs
          · simp [huv, hu, hfull u hu]
          · simp [huv, hu]

@[simp] theorem offer_ids (h : Hub) (env : Envelope) : (h.offer env).ids = h.ids :=
  (foldl_offerTo env h.viewers h h.nodup).1

@[simp] theorem offer_maxsize (h : Hub) (env : Envelope) : (h.offer env).maxsize = h.maxsize :=
  (foldl_offerTo env h.viewers h h.nodup).2.1

/-- **An offer drops exactly the viewers whose queue is full.** -/
theorem mem_offer (h : Hub) (env : Envelope) (v : ViewerId) :
    v ∈ (h.offer env).viewers ↔ v ∈ h.viewers ∧ ¬ h.full v := by
  unfold offer
  rw [(foldl_offerTo env h.viewers h h.nodup).2.2.1, List.mem_filter]
  simp only [decide_eq_true_eq, not_and]
  exact ⟨fun hv => ⟨hv.1, hv.2 hv.1⟩, fun hv => ⟨hv.1, fun _ => hv.2⟩⟩

/-- **Every viewer that survives an offer got the envelope, at the end of its queue.** -/
theorem offer_queue (h : Hub) (env : Envelope) {v : ViewerId} (hv : v ∈ (h.offer env).viewers) :
    (h.offer env).queues v = h.queues v ++ [env] := by
  have hmem := (mem_offer h env v).1 hv
  unfold offer
  rw [(foldl_offerTo env h.viewers h h.nodup).2.2.2, if_pos hmem]

/-- A viewer outside the hub gets nothing: its queue can only drain. -/
theorem offer_queue_of_not_mem (h : Hub) (env : Envelope) {v : ViewerId}
    (hv : v ∉ (h.offer env).viewers) : (h.offer env).queues v = h.queues v := by
  have hmem := mt (mem_offer h env v).2 hv
  unfold offer
  rw [(foldl_offerTo env h.viewers h h.nodup).2.2.2, if_neg hmem]

@[simp] theorem register_fst (h : Hub) : h.register.1 = h.ids := rfl

theorem mem_register (h : Hub) (v : ViewerId) :
    v ∈ h.register.2.viewers ↔ v ∈ h.viewers ∨ v = h.ids := by
  simp [register]

theorem register_queue (h : Hub) (v : ViewerId) :
    h.register.2.queues v = if v = h.ids then [] else h.queues v := by
  by_cases hv : v = h.ids
  · subst hv; simp [register]
  · simp [register, hv]

theorem mem_deregister (h : Hub) (u v : ViewerId) :
    u ∈ (h.deregister v).viewers ↔ u ∈ h.viewers ∧ u ≠ v := by
  simp [deregister]

end Hub

end RexHunter
