import Mathlib.Algebra.GroupWithZero.Nat
import Mathlib.Data.List.Infix
import Mathlib.Data.List.Induction
import RexHunter.Lib.Coro

set_option autoImplicit false

/-! # One task on one database connection

A connection holds the committed database and, once a statement has written, an implicit
transaction on top of it; reads of the same connection see the transaction. Each await of the task
is a point where the environment may interfere (`Fault`): the awaited operation may raise, with or
without the whole transaction being rolled back, and the task may be cancelled there, in which case
the operation, queued on the connection's worker thread, may execute all the same. The faults are a
schedule in the session's state, so a theorem about every schedule is a theorem about every
execution. The trace records which await met which fate; conditions on a run are conditions on its
steps, and the trace determines the connection (`Replays`). -/

/-- The committed database and the open transaction, if any. -/
structure Conn (D : Type) where
  committed : D
  tx : Option D
deriving DecidableEq, Repr

namespace Conn

variable {D : Type}

/-- A connection that has just been opened. -/
def opened (d : D) : Conn D := ⟨d, none⟩

/-- What the connection reads. -/
def view (c : Conn D) : D := c.tx.getD c.committed

/-- A write inside the implicit transaction. -/
def write (c : Conn D) (d : D) : Conn D := { c with tx := some d }

def commit (c : Conn D) : Conn D := opened c.view

/-- `ROLLBACK`; closing the connection does the same. -/
def rollback (c : Conn D) : Conn D := opened c.committed

@[simp] theorem view_opened (d : D) : (opened d).view = d := rfl

@[simp] theorem committed_opened (d : D) : (opened d).committed = d := rfl

@[simp] theorem view_write (c : Conn D) (d : D) : (c.write d).view = d := rfl

@[simp] theorem committed_write (c : Conn D) (d : D) : (c.write d).committed = c.committed := rfl

@[simp] theorem view_commit (c : Conn D) : c.commit.view = c.view := rfl

@[simp] theorem committed_commit (c : Conn D) : c.commit.committed = c.view := rfl

@[simp] theorem view_rollback (c : Conn D) : c.rollback.view = c.committed := rfl

@[simp] theorem committed_rollback (c : Conn D) : c.rollback.committed = c.committed := rfl

end Conn

/-- What the environment does to one await. -/
inductive Fault (ε : Type) where
  | none
  | raise (e : ε) (rolledBack : Bool)
  | cancel (executed : Bool)
deriving DecidableEq, Repr

/-- What became of one await: `cancelled true` is a cancelled await whose operation executed. -/
inductive Fate where
  | done
  | raised (rolledBack : Bool)
  | cancelled (executed : Bool)
deriving DecidableEq, Repr

/-- The operation took effect. -/
def Fate.effective : Fate → Bool
  | done => true
  | raised _ => false
  | cancelled executed => executed

/-- The await ended with a `CancelledError`. -/
def Fate.isCancelled : Fate → Bool
  | cancelled _ => true
  | _ => false

/-- The operations of a session: statements, transaction control, and everything that does not
    touch the connection. -/
inductive SqlOp (S X : Type) where
  | execute (s : S)
  | commit
  | rollback
  | other (x : X)
deriving DecidableEq, Repr

/-- One step of a run: where in the program, which operation, what became of it. -/
structure Step (F O : Type) where
  frame : F
  op : O
  fate : Fate
deriving DecidableEq, Repr

/-- A session: the connection of one task, the faults still to come, the part of the program the
    task is in (`frame`, and whether that part is shielded from cancellation), its trace, and its
    variables. -/
structure Session (D O ε F γ : Type) where
  conn : Conn D
  faults : List (Fault ε)
  frame : F
  shielded : Bool
  trace : List (Step F O)
  vars : γ

namespace Session

variable {D O ε F γ α : Type}

/-- The fault that meets the next await. A cancellation only interrupts the wait for a shielded
    operation, which runs on to its end. -/
def nextFault (w : Session D O ε F γ) : Fault ε :=
  match w.faults with
  | [] => .none
  | .cancel ex :: _ => if w.shielded then .none else .cancel ex
  | f :: _ => f

/-- The session after an await. -/
def landed (w : Session D O ε F γ) (op : O) (fate : Fate) (c : Conn D) : Session D O ε F γ :=
  { w with conn := c, faults := w.faults.tail, trace := w.trace ++ [⟨w.frame, op, fate⟩] }

/-- Await an operation on the connection. -/
def await (op : O) (act : Conn D → Except ε (α × Conn D)) : Coro (Session D O ε F γ) ε α :=
  Coro.ofExec fun w =>
    match w.nextFault with
    | .none =>
        match act w.conn with
        | .ok (a, c) => (.ok a, w.landed op .done c)
        | .error e => (.error (.raised e), w.landed op (.raised false) w.conn)
    | .raise e rolledBack =>
        (.error (.raised e),
          w.landed op (.raised rolledBack) (if rolledBack then w.conn.rollback else w.conn))
    | .cancel executed =>
        match executed, act w.conn with
        | true, .ok (_, c) => (.error .cancelled, w.landed op (.cancelled true) c)
        | _, _ => (.error .cancelled, w.landed op (.cancelled false) w.conn)

/-- The session after a step without an await, which may have raised. -/
def noted (w : Session D O ε F γ) (op : O) (passed : Bool) : Session D O ε F γ :=
  { w with trace := w.trace ++ [⟨w.frame, op, if passed then .done else .raised false⟩] }

/-- A step without an await, which may raise by itself. -/
def attempt (op : O) (r : Except ε α) : Coro (Session D O ε F γ) ε α :=
  Coro.ofExec fun w =>
    match r with
    | .ok a => (.ok a, w.noted op true)
    | .error e => (.error (.raised e), w.noted op false)

/-- Run a part of the program under its name. -/
def inFrame (f : F) (m : Coro (Session D O ε F γ) ε α) : Coro (Session D O ε F γ) ε α :=
  Coro.ofExec fun w =>
    match m.exec { w with frame := f } with
    | (r, t) => (r, { t with frame := w.frame })

/-- `asyncio.shield`, waited for until it is done. -/
def shield (m : Coro (Session D O ε F γ) ε α) : Coro (Session D O ε F γ) ε α :=
  Coro.ofExec fun w =>
    match m.exec { w with shielded := true } with
    | (r, t) => (r, { t with shielded := w.shielded })

/-- Draw from the variables. -/
def useVars (f : γ → α × γ) : Coro (Session D O ε F γ) ε α :=
  Coro.ofExec fun w => (.ok (f w.vars).1, { w with vars := (f w.vars).2 })

/-- Drawing from the variables cannot fail, and changes nothing else. -/
theorem useVars_triple {P : Session D O ε F γ → Prop} {R : Exn ε → Session D O ε F γ → Prop}
    {f : γ → α × γ} (h : ∀ w v, P w → P { w with vars := v }) :
    Coro.Triple P (useVars f) (fun _ => P) R :=
  fun w hw => h w _ hw

/-- A part of the program, where neither side of the rule speaks about the frame. -/
theorem inFrame_triple {P : Session D O ε F γ → Prop} {Q : α → Session D O ε F γ → Prop}
    {R : Exn ε → Session D O ε F γ → Prop} {f : F} {m : Coro (Session D O ε F γ) ε α}
    (hP : ∀ w g, P w → P { w with frame := g }) (hQ : ∀ a w g, Q a w → Q a { w with frame := g })
    (hR : ∀ e w g, R e w → R e { w with frame := g })
    (hm : Coro.Triple (fun w => w.frame = f ∧ P w) m Q R) : Coro.Triple P (inFrame f m) Q R := by
  intro w hw
  have hms := hm { w with frame := f } ⟨rfl, hP w f hw⟩
  unfold inFrame
  simp only [Coro.exec_ofExec]
  cases hrun : m.exec { w with frame := f } with
  | mk r t =>
      rw [hrun] at hms
      cases r with
      | ok a => exact hQ a t w.frame hms
      | error e => exact hR e t w.frame hms

/-- A shielded part of the program, where neither side of the rule speaks about the shield. -/
theorem shield_triple {P : Session D O ε F γ → Prop} {Q : α → Session D O ε F γ → Prop}
    {R : Exn ε → Session D O ε F γ → Prop} {m : Coro (Session D O ε F γ) ε α}
    (hP : ∀ w b, P w → P { w with shielded := b })
    (hQ : ∀ a w b, Q a w → Q a { w with shielded := b })
    (hR : ∀ e w b, R e w → R e { w with shielded := b })
    (hm : Coro.Triple (fun w => w.shielded = true ∧ P w) m Q R) : Coro.Triple P (shield m) Q R := by
  intro w hw
  have hms := hm { w with shielded := true } ⟨rfl, hP w true hw⟩
  unfold shield
  simp only [Coro.exec_ofExec]
  cases hrun : m.exec { w with shielded := true } with
  | mk r t =>
      rw [hrun] at hms
      cases r with
      | ok a => exact hQ a t w.shielded hms
      | error e => exact hR e t w.shielded hms

/-! ## The operations of the connection -/

/-- `conn.execute` of a writing statement: `step` is its effect on the database and its result. -/
def execute (step : D → Except ε (α × D)) (c : Conn D) : Except ε (α × Conn D) :=
  match step c.view with
  | .ok (a, d) => .ok (a, c.write d)
  | .error e => .error e

/-- `conn.execute` and the fetch of a SELECT. -/
def query (read : D → α) (c : Conn D) : Except ε (α × Conn D) := .ok (read c.view, c)

/-- `conn.commit`. -/
def commit (c : Conn D) : Except ε (PUnit × Conn D) := .ok (⟨⟩, c.commit)

/-- `conn.rollback`. -/
def rollback (c : Conn D) : Except ε (PUnit × Conn D) := .ok (⟨⟩, c.rollback)

/-- An await that does not touch the connection. -/
def elsewhere (r : Except ε α) (c : Conn D) : Except ε (α × Conn D) :=
  match r with
  | .ok a => .ok (a, c)
  | .error e => .error e

theorem execute_ok {step : D → Except ε (α × D)} {c c' : Conn D} {a : α}
    (h : execute step c = .ok (a, c')) : ∃ d, step c.view = .ok (a, d) ∧ c' = c.write d := by
  unfold execute at h
  cases hstep : step c.view with
  | ok p =>
      rw [hstep] at h
      cases h
      exact ⟨p.2, rfl, rfl⟩
  | error e =>
      rw [hstep] at h
      cases h

theorem elsewhere_ok {r : Except ε α} {c c' : Conn D} {a : α}
    (h : elsewhere r c = .ok (a, c')) : r = .ok a ∧ c' = c := by
  cases r with
  | ok b =>
      cases h
      exact ⟨rfl, rfl⟩
  | error e => cases h

/-! ## The rules of an await -/

/-- What an await can do to the connection, with the fate it is recorded under. -/
inductive Landing (act : Conn D → Except ε (α × Conn D)) (c₀ : Conn D) : Fate → Conn D → Prop where
  | done (a : α) (c : Conn D) (h : act c₀ = .ok (a, c)) : Landing act c₀ .done c
  | raised : Landing act c₀ (.raised false) c₀
  | rolledBack : Landing act c₀ (.raised true) c₀.rollback
  | skipped : Landing act c₀ (.cancelled false) c₀
  | executed (a : α) (c : Conn D) (h : act c₀ = .ok (a, c)) : Landing act c₀ (.cancelled true) c

/-- **An await, case by case.** A shielded await is not cancelled. -/
theorem await_cases (op : O) (act : Conn D → Except ε (α × Conn D)) (w : Session D O ε F γ) :
    (∃ a c, act w.conn = .ok (a, c) ∧ (await op act).exec w = (.ok a, w.landed op .done c)) ∨
    ∃ e fate c, fate ≠ .done ∧ (w.shielded = true → ∀ ex, fate ≠ .cancelled ex) ∧
      Landing act w.conn fate c ∧ (await op act).exec w = (.error e, w.landed op fate c) := by
  have hraised : ∀ b, w.shielded = true → ∀ ex, Fate.raised b ≠ .cancelled ex :=
    fun _ _ _ h => nomatch h
  unfold await
  simp only [Coro.exec_ofExec]
  cases hf : w.nextFault with
  | none =>
      cases hact : act w.conn with
      | ok p => exact Or.inl ⟨p.1, p.2, rfl, rfl⟩
      | error e => exact Or.inr ⟨_, _, _, by simp, hraised false, Landing.raised, rfl⟩
  | raise e rolledBack =>
      cases rolledBack with
      | false => exact Or.inr ⟨_, _, _, by simp, hraised false, Landing.raised, rfl⟩
      | true => exact Or.inr ⟨_, _, _, by simp, hraised true, Landing.rolledBack, rfl⟩
  | cancel executed =>
      have hopen : w.shielded = true → ∀ b ex, Fate.cancelled b ≠ .cancelled ex := by
        intro hshield
        unfold nextFault at hf
        rw [hshield] at hf
        split at hf
        · cases hf
        · cases hf
        · next hne _ => exact (hne executed hf).elim
      cases hact : act w.conn with
      | ok p =>
          cases executed with
          | false =>
              exact Or.inr ⟨_, _, _, by simp, fun hs => hopen hs false, Landing.skipped, rfl⟩
          | true =>
              exact Or.inr ⟨_, _, _, by simp, fun hs => hopen hs true,
                Landing.executed p.1 p.2 hact, rfl⟩
      | error e =>
          cases executed with
          | false =>
              exact Or.inr ⟨_, _, _, by simp, fun hs => hopen hs false, Landing.skipped, rfl⟩
          | true =>
              exact Or.inr ⟨_, _, _, by simp, fun hs => hopen hs false, Landing.skipped, rfl⟩

/-- An await is one step of the trace. -/
theorem await_trace (op : O) (act : Conn D → Except ε (α × Conn D)) (w : Session D O ε F γ) :
    ∃ fate, ((await op act).exec w).2.trace = w.trace ++ [⟨w.frame, op, fate⟩] := by
  rcases await_cases op act w with ⟨a, c, _, hrun⟩ | ⟨e, fate, c, _, _, _, hrun⟩
  · rw [hrun]
    exact ⟨.done, rfl⟩
  · rw [hrun]
    exact ⟨fate, rfl⟩

/-- The rule for an await, where only the trace matters. -/
theorem await_triple_trace {J : List (Step F O) → Prop} {Q : α → List (Step F O) → Prop}
    {R : Exn ε → List (Step F O) → Prop} {op : O} {act : Conn D → Except ε (α × Conn D)}
    (hok : ∀ trace frame a, J trace → Q a (trace ++ [⟨frame, op, .done⟩]))
    (hraised : ∀ trace frame e b, J trace → R (.raised e) (trace ++ [⟨frame, op, .raised b⟩]))
    (hcancelled : ∀ trace frame ex, J trace → R .cancelled (trace ++ [⟨frame, op, .cancelled ex⟩])) :
    Coro.Triple (fun w : Session D O ε F γ => J w.trace) (await op act) (fun a w => Q a w.trace)
      (fun e w => R e w.trace) := by
  intro w hw
  unfold await
  simp only [Coro.exec_ofExec]
  cases w.nextFault with
  | none =>
      cases act w.conn with
      | ok p => exact hok _ _ _ hw
      | error e => exact hraised _ _ _ _ hw
  | raise e rolledBack => exact hraised _ _ _ _ hw
  | cancel executed =>
      cases act w.conn with
      | ok p =>
          cases executed with
          | false => exact hcancelled _ _ _ hw
          | true => exact hcancelled _ _ _ hw
      | error e =>
          cases executed with
          | false => exact hcancelled _ _ _ hw
          | true => exact hcancelled _ _ _ hw

/-- The rule for an await whose failures depend on whether it is shielded. -/
theorem await_triple_shielded {P : Session D O ε F γ → Prop} {Q : α → Session D O ε F γ → Prop}
    {R : Exn ε → Session D O ε F γ → Prop} {op : O} {act : Conn D → Except ε (α × Conn D)}
    (hok : ∀ w a c, P w → act w.conn = .ok (a, c) → Q a (w.landed op .done c))
    (hexn : ∀ w e fate c, P w → fate ≠ .done → (w.shielded = true → ∀ ex, fate ≠ .cancelled ex) →
      Landing act w.conn fate c → R e (w.landed op fate c)) :
    Coro.Triple P (await op act) Q R := by
  intro w hw
  rcases await_cases op act w with ⟨a, c, hact, hrun⟩ | ⟨e, fate, c, hfate, hshield, hland, hrun⟩
  · rw [hrun]
    exact hok w a c hw hact
  · rw [hrun]
    exact hexn w e fate c hw hfate hshield hland

theorem await_triple {P : Session D O ε F γ → Prop} {Q : α → Session D O ε F γ → Prop}
    {R : Exn ε → Session D O ε F γ → Prop} {op : O} {act : Conn D → Except ε (α × Conn D)}
    (hok : ∀ w a c, P w → act w.conn = .ok (a, c) → Q a (w.landed op .done c))
    (hexn : ∀ w e fate c, P w → fate ≠ .done → Landing act w.conn fate c →
      R e (w.landed op fate c)) :
    Coro.Triple P (await op act) Q R :=
  await_triple_shielded hok (fun w e fate c hw hfate _ hland => hexn w e fate c hw hfate hland)

theorem await_keeps {I : Session D O ε F γ → Prop} {op : O}
    {act : Conn D → Except ε (α × Conn D)}
    (h : ∀ w fate c, I w → Landing act w.conn fate c → I (w.landed op fate c)) :
    Coro.Keeps I (await op act) :=
  Coro.Keeps.of_triple (await_triple
    (fun w a c hw hact => h w .done c hw (Landing.done a c hact))
    (fun w _ fate c hw _ hland => h w fate c hw hland))

/-- An await that no fault meets does what the operation does. -/
theorem await_calm {P : Session D O ε F γ → Prop} {Q : α → Session D O ε F γ → Prop}
    {R : Exn ε → Session D O ε F γ → Prop} {op : O} {act : Conn D → Except ε (α × Conn D)}
    (h : ∀ w, P w → ∃ a c, act w.conn = .ok (a, c) ∧ Q a (w.landed op .done c)) :
    Coro.Triple (fun w => w.faults = [] ∧ P w) (await op act)
      (fun a w => w.faults = [] ∧ Q a w) R := by
  rintro w ⟨hcalm, hw⟩
  obtain ⟨a, c, hact, hQ⟩ := h w hw
  have hrun : (await op act).exec w = (.ok a, w.landed op .done c) := by
    unfold await nextFault
    simp only [Coro.exec_ofExec, hcalm, hact]
  rw [hrun]
  refine ⟨?_, hQ⟩
  show w.faults.tail = []
  rw [hcalm]
  rfl

/-! ## Atomic writes

While a transaction is open every way out but a commit leaves the committed database alone. -/

/-- The committed database is `d`, the connection reads `v`. -/
def Writing (d v : D) (w : Session D O ε F γ) : Prop := w.conn.committed = d ∧ w.conn.view = v

theorem execute_writing {d v : D} {op : O} {step : D → Except ε (α × D)} :
    Coro.Triple (Writing d v) (await op (execute step) : Coro (Session D O ε F γ) ε α)
      (fun a w => ∃ v', step v = .ok (a, v') ∧ Writing d v' w) (fun _ w => w.conn.committed = d) := by
  refine await_triple ?_ ?_
  · intro w a c hw hact
    obtain ⟨v', hstep, hc⟩ := execute_ok hact
    rw [hw.2] at hstep
    rw [hc]
    exact ⟨v', hstep, hw.1, rfl⟩
  · intro w e fate c hw _ hland
    cases hland with
    | done a c hact =>
        obtain ⟨v', _, hc⟩ := execute_ok hact
        rw [hc]
        exact hw.1
    | raised => exact hw.1
    | rolledBack => exact hw.1
    | skipped => exact hw.1
    | executed a c hact =>
        obtain ⟨v', _, hc⟩ := execute_ok hact
        rw [hc]
        exact hw.1

theorem commit_writing {d v : D} {op : O} :
    Coro.Triple (Writing d v) (await op commit : Coro (Session D O ε F γ) ε PUnit)
      (fun _ => Writing v v) (fun _ w => w.conn.committed = d ∨ w.conn.committed = v) := by
  refine await_triple ?_ ?_
  · intro w a c hw hact
    cases hact
    exact ⟨hw.2, hw.2⟩
  · intro w e fate c hw hfate hland
    cases hland with
    | done => exact absurd rfl hfate
    | raised => exact Or.inl hw.1
    | rolledBack => exact Or.inl hw.1
    | skipped => exact Or.inl hw.1
    | executed a c hact =>
        cases hact
        exact Or.inr hw.2

theorem rollback_writing {d v : D} {op : O} :
    Coro.Triple (Writing d v) (await op rollback : Coro (Session D O ε F γ) ε PUnit)
      (fun _ => Writing d d) (fun _ w => w.conn.committed = d) := by
  refine await_triple ?_ ?_
  · intro w a c hw hact
    cases hact
    exact ⟨hw.1, hw.1⟩
  · intro w e fate c hw hfate hland
    cases hland with
    | done => exact absurd rfl hfate
    | raised => exact hw.1
    | rolledBack => exact hw.1
    | skipped => exact hw.1
    | executed a c hact =>
        cases hact
        exact hw.1

theorem attempt_writing {d v : D} {op : O} {r : Except ε α} :
    Coro.Triple (Writing d v) (attempt op r : Coro (Session D O ε F γ) ε α)
      (fun _ => Writing d v) (fun _ w => w.conn.committed = d) := by
  intro w hw
  cases r with
  | ok a => exact hw
  | error e => exact hw.1

theorem useVars_writing {d v : D} {f : γ → α × γ} {R : Exn ε → Session D O ε F γ → Prop} :
    Coro.Triple (Writing d v) (useVars f : Coro (Session D O ε F γ) ε α)
      (fun _ => Writing d v) R :=
  useVars_triple (fun _ _ hw => hw)

/-! ## Programs

A program is built from the operations of the connection, steps that do not touch it, and the
variables. A session predicate that the steps of a set `A` of operations keep is kept by every
program whose operations lie in `A`: one lemma for each function of the program then serves every
such predicate. -/

section Programs

variable {S X R : Type} (exec : S → D → Except ε (R × D))

/-- What a step leaves of the connection. -/
def after (op : SqlOp S X) (fate : Fate) (c : Conn D) : Conn D :=
  match fate with
  | .raised true => c.rollback
  | .raised false => c
  | .cancelled false => c
  | _ =>
      match op with
      | .execute s =>
          match exec s c.view with
          | .ok (_, d) => c.write d
          | .error _ => c
      | .commit => c.commit
      | .rollback => c.rollback
      | .other _ => c

/-- A statement takes effect only if the database accepts it. -/
def Possible (op : SqlOp S X) (fate : Fate) (c : Conn D) : Prop :=
  ∀ s, op = .execute s → fate.effective → ∃ r d, exec s c.view = .ok (r, d)

/-- The steps of operations in `A` keep `I`, and `I` ignores the variables. -/
structure Closed (A : SqlOp S X → Prop) (I : Session D (SqlOp S X) ε F γ → Prop) : Prop where
  step : ∀ w op fate, A op → I w → Possible exec op fate w.conn →
    I (w.landed op fate (after exec op fate w.conn))
  noted : ∀ w x passed, A (.other x) → I w → I (w.noted (.other x) passed)
  vars : ∀ w v, I w → I { w with vars := v }

/-- `I` ignores which part of the program the task is in. -/
structure Frameless (I : Session D O ε F γ → Prop) : Prop where
  frame : ∀ w f, I w → I { w with frame := f }
  shielded : ∀ w b, I w → I { w with shielded := b }

variable {exec} {A : SqlOp S X → Prop} {I : Session D (SqlOp S X) ε F γ → Prop}

theorem Closed.mono {B : SqlOp S X → Prop} (h : Closed exec A I) (hB : ∀ op, B op → A op) :
    Closed exec B I :=
  { h with
    step := fun w op fate hop => h.step w op fate (hB op hop)
    noted := fun w x passed hop => h.noted w x passed (hB _ hop) }

theorem Closed.and {J : Session D (SqlOp S X) ε F γ → Prop} (hI : Closed exec A I)
    (hJ : Closed exec A J) : Closed exec A (fun w => I w ∧ J w) where
  step := fun w op fate hop hw hpossible =>
    ⟨hI.step w op fate hop hw.1 hpossible, hJ.step w op fate hop hw.2 hpossible⟩
  noted := fun w x passed hop hw => ⟨hI.noted w x passed hop hw.1, hJ.noted w x passed hop hw.2⟩
  vars := fun w v hw => ⟨hI.vars w v hw.1, hJ.vars w v hw.2⟩

theorem Frameless.and {J : Session D (SqlOp S X) ε F γ → Prop} (hI : Frameless I)
    (hJ : Frameless J) : Frameless (fun w => I w ∧ J w) where
  frame := fun w f hw => ⟨hI.frame w f hw.1, hJ.frame w f hw.2⟩
  shielded := fun w b hw => ⟨hI.shielded w b hw.1, hJ.shielded w b hw.2⟩

/-- A property of the trace alone. -/
theorem closed_trace {J : List (Step F (SqlOp S X)) → Prop}
    (h : ∀ trace st, A st.op → J trace → J (trace ++ [st])) :
    Closed exec A (fun w : Session D (SqlOp S X) ε F γ => J w.trace) where
  step := fun w _ _ hop hw _ => h w.trace _ hop hw
  noted := fun w _ _ hop hw => h w.trace _ hop hw
  vars := fun _ _ hw => hw

theorem frameless_trace (J : List (Step F (SqlOp S X)) → Prop) :
    Frameless (fun w : Session D (SqlOp S X) ε F γ => J w.trace) :=
  ⟨fun _ _ hw => hw, fun _ _ hw => hw⟩

/-- What the invariant says of the trace held of every part of the run before. -/
theorem Closed.prefixes {J : List (Step F (SqlOp S X)) → Prop} (h : Closed exec A I)
    (hJ : ∀ w, I w → J w.trace) :
    Closed exec A (fun w : Session D (SqlOp S X) ε F γ => I w ∧ ∀ pre, pre <+: w.trace → J pre) := by
  have hsnoc : ∀ (w : Session D (SqlOp S X) ε F γ) st, J (w.trace ++ [st]) →
      (∀ pre, pre <+: w.trace → J pre) → ∀ pre, pre <+: w.trace ++ [st] → J pre := by
    intro w st hlast hw pre hpre
    rcases List.prefix_concat_iff.1 hpre with rfl | hpre
    · exact hlast
    · exact hw pre hpre
  refine ⟨?_, ?_, fun w v hw => ⟨h.vars w v hw.1, hw.2⟩⟩
  · intro w op fate hop hw hpossible
    have hnext := h.step w op fate hop hw.1 hpossible
    exact ⟨hnext, hsnoc w _ (hJ _ hnext) hw.2⟩
  · intro w x passed hop hw
    have hnext := h.noted w x passed hop hw.1
    exact ⟨hnext, hsnoc w _ (hJ _ hnext) hw.2⟩

theorem Frameless.prefixes {J : List (Step F (SqlOp S X)) → Prop} (h : Frameless I) :
    Frameless (fun w : Session D (SqlOp S X) ε F γ => I w ∧ ∀ pre, pre <+: w.trace → J pre) :=
  h.and (frameless_trace (fun trace => ∀ pre, pre <+: trace → J pre))

/-- Each element of the list came after a list with which it is in this relation. -/
def Before {α : Type} (P : List α → α → Prop) (l : List α) : Prop :=
  ∀ pre x post, l = pre ++ x :: post → P pre x

theorem before_nil {α : Type} (P : List α → α → Prop) : Before P [] := by
  intro pre x post h
  cases pre <;> cases h

theorem Before.snoc {α : Type} {P : List α → α → Prop} {l : List α} {x : α} (h : Before P l)
    (hx : P l x) : Before P (l ++ [x]) := by
  intro pre y post hl
  rcases List.eq_nil_or_concat post with rfl | ⟨post', last, rfl⟩
  · obtain ⟨rfl, hlast⟩ := List.append_inj' hl rfl
    cases hlast
    exact hx
  · rw [List.concat_eq_append, ← List.cons_append, ← List.append_assoc] at hl
    exact h pre y post' (List.append_inj' hl rfl).1

/-- What the invariant says of a step and the trace before it held of every step. -/
theorem Closed.before {P : List (Step F (SqlOp S X)) → Step F (SqlOp S X) → Prop}
    (h : Closed exec A I)
    (hP : ∀ w op fate, A op → I w → P w.trace ⟨w.frame, op, fate⟩) :
    Closed exec A (fun w : Session D (SqlOp S X) ε F γ => I w ∧ Before P w.trace) where
  step w op fate hop hw hpossible :=
    ⟨h.step w op fate hop hw.1 hpossible, hw.2.snoc (hP w op fate hop hw.1)⟩
  noted w x passed hop hw := ⟨h.noted w x passed hop hw.1, hw.2.snoc (hP w _ _ hop hw.1)⟩
  vars w v hw := ⟨h.vars w v hw.1, hw.2⟩

/-- A session predicate that is only promised while every step so far meets `G`. -/
def Given (G : Step F (SqlOp S X) → Prop) (I : Session D (SqlOp S X) ε F γ → Prop)
    (w : Session D (SqlOp S X) ε F γ) : Prop :=
  (∀ st ∈ w.trace, G st) → I w

/-- What holds after a step that meets `G` need only be shown for that step. -/
theorem Given.snoc {G : Step F (SqlOp S X) → Prop} {I J : Session D (SqlOp S X) ε F γ → Prop}
    {w t : Session D (SqlOp S X) ε F γ} {st : Step F (SqlOp S X)} (hw : Given G I w)
    (htrace : t.trace = w.trace ++ [st]) (h : G st → I w → J t) : Given G J t := by
  intro hall
  rw [htrace] at hall
  exact h (hall st (List.mem_append_right _ (List.mem_singleton_self st)))
    (hw (fun st' hst' => hall st' (List.mem_append_left _ hst')))

/-- After a step that does not meet `G` nothing is promised any more. -/
theorem Given.void {G : Step F (SqlOp S X) → Prop} {J : Session D (SqlOp S X) ε F γ → Prop}
    {w t : Session D (SqlOp S X) ε F γ} {st : Step F (SqlOp S X)}
    (htrace : t.trace = w.trace ++ [st]) (hst : ¬ G st) : Given G J t := by
  intro hall
  rw [htrace] at hall
  exact absurd (hall st (List.mem_append_right _ (List.mem_singleton_self st))) hst

/-- An await whose operation must complete for `G` to go on holding. -/
theorem await_given {G : Step F (SqlOp S X) → Prop} {I : Session D (SqlOp S X) ε F γ → Prop}
    {Q : α → Session D (SqlOp S X) ε F γ → Prop}
    {E : Exn ε → Session D (SqlOp S X) ε F γ → Prop} {op : SqlOp S X}
    {act : Conn D → Except ε (α × Conn D)}
    (hop : ∀ frame fate, G ⟨frame, op, fate⟩ → fate = .done)
    (hok : ∀ w a c, I w → act w.conn = .ok (a, c) → Q a (w.landed op .done c)) :
    Coro.Triple (Given G I) (await op act) (fun a => Given G (Q a)) (fun e => Given G (E e)) := by
  refine await_triple ?_ ?_
  · intro w a c hw hact
    exact hw.snoc rfl (fun _ hI => hok w a c hI hact)
  · intro w e fate c _ hfate _
    exact Given.void rfl (fun hst => hfate (hop _ _ hst))

theorem Closed.given (h : Closed exec A I) (G : Step F (SqlOp S X) → Prop) :
    Closed exec A (Given G I) where
  step := fun w op fate hop hw hpossible =>
    hw.snoc rfl (fun _ hI => h.step w op fate hop hI hpossible)
  noted := fun w x passed hop hw => hw.snoc rfl (fun _ hI => h.noted w x passed hop hI)
  vars := fun w v hw hall => h.vars w v (hw hall)

theorem Frameless.given (h : Frameless I) (G : Step F (SqlOp S X) → Prop) :
    Frameless (Given G I) where
  frame := fun w f hw hall => h.frame w f (hw hall)
  shielded := fun w b hw hall => h.shielded w b (hw hall)

theorem Closed.execute (h : Closed exec A I) {s : S} (hs : A (.execute s)) :
    Coro.Keeps I (await (.execute s) (Session.execute (exec s))) := by
  refine await_keeps (fun w fate c hw hland => ?_)
  cases hland with
  | done a c hact =>
      obtain ⟨d, hd, hc⟩ := execute_ok hact
      have hafter : after exec (.execute s : SqlOp S X) .done w.conn = c := by
        simp only [after, hd, hc]
      rw [← hafter]
      exact h.step w _ _ hs hw (fun s' hs' _ => by cases hs'; exact ⟨a, d, hd⟩)
  | raised => exact h.step w _ (.raised false) hs hw (fun _ _ he => absurd he (by decide))
  | rolledBack => exact h.step w _ (.raised true) hs hw (fun _ _ he => absurd he (by decide))
  | skipped => exact h.step w _ (.cancelled false) hs hw (fun _ _ he => absurd he (by decide))
  | executed a c hact =>
      obtain ⟨d, hd, hc⟩ := execute_ok hact
      have hafter : after exec (.execute s : SqlOp S X) (.cancelled true) w.conn = c := by
        simp only [after, hd, hc]
      rw [← hafter]
      exact h.step w _ _ hs hw (fun s' hs' _ => by cases hs'; exact ⟨a, d, hd⟩)

/-- An operation other than a statement, whose effect is the one its name says. -/
theorem Closed.control (h : Closed exec A I) {op : SqlOp S X}
    {act : Conn D → Except ε (α × Conn D)} (hop : A op) (hne : ∀ s, op ≠ .execute s)
    (hact : ∀ c a c', act c = .ok (a, c') → c' = after exec op .done c) :
    Coro.Keeps I (await op act) := by
  have hpossible : ∀ fate (c : Conn D), Possible exec op fate c :=
    fun _ _ s hs _ => absurd hs (hne s)
  have hsame : ∀ c, after exec op (.cancelled true) c = after exec op .done c := fun _ => rfl
  refine await_keeps (fun w fate c hw hland => ?_)
  cases hland with
  | done a c hc =>
      rw [hact w.conn a c hc]
      exact h.step w op .done hop hw (hpossible _ _)
  | raised => exact h.step w op (.raised false) hop hw (hpossible _ _)
  | rolledBack => exact h.step w op (.raised true) hop hw (hpossible _ _)
  | skipped => exact h.step w op (.cancelled false) hop hw (hpossible _ _)
  | executed a c hc =>
      rw [hact w.conn a c hc, ← hsame]
      exact h.step w op (.cancelled true) hop hw (hpossible _ _)

theorem Closed.commit (h : Closed exec A I) (hop : A .commit) :
    Coro.Keeps I (await .commit Session.commit) :=
  h.control hop nofun (fun _ _ _ hc => by cases hc; rfl)

theorem Closed.rollback (h : Closed exec A I) (hop : A .rollback) :
    Coro.Keeps I (await .rollback Session.rollback) :=
  h.control hop nofun (fun _ _ _ hc => by cases hc; rfl)

theorem Closed.query (h : Closed exec A I) {x : X} {read : D → α} (hop : A (.other x)) :
    Coro.Keeps I (await (.other x) (Session.query read)) :=
  h.control hop nofun (fun _ _ _ hc => by cases hc; rfl)

theorem Closed.elsewhere (h : Closed exec A I) {x : X} {r : Except ε α} (hop : A (.other x)) :
    Coro.Keeps I (await (.other x) (Session.elsewhere r)) :=
  h.control hop nofun (fun _ _ _ hc => (elsewhere_ok hc).2)

theorem Closed.attempt (h : Closed exec A I) {x : X} {r : Except ε α} (hop : A (.other x)) :
    Coro.Keeps I (attempt (.other x) r) := by
  intro w hw
  cases r with
  | ok a => exact h.noted w x true hop hw
  | error e => exact h.noted w x false hop hw

theorem Closed.useVars (h : Closed exec A I) {f : γ → α × γ} : Coro.Keeps I (useVars f) :=
  fun w hw => h.vars w _ hw

theorem Frameless.inFrame (h : Frameless I) {f : F}
    {m : Coro (Session D (SqlOp S X) ε F γ) ε α} (hm : Coro.Keeps I m) :
    Coro.Keeps I (inFrame f m) :=
  fun w hw => h.frame _ w.frame (hm _ (h.frame w f hw))

theorem Frameless.shield (h : Frameless I) {m : Coro (Session D (SqlOp S X) ε F γ) ε α}
    (hm : Coro.Keeps I m) : Coro.Keeps I (shield m) :=
  fun w hw => h.shielded _ w.shielded (hm _ (h.shielded w true hw))

/-! ## The trace determines the connection -/

/-- The statements a trace has committed, and those of the transaction it leaves open. -/
def enter (l : List S × List S) (st : Step F (SqlOp S X)) : List S × List S :=
  match st.fate with
  | .raised true => (l.1, [])
  | .raised false => l
  | .cancelled false => l
  | _ =>
      match st.op with
      | .execute s => (l.1, l.2 ++ [s])
      | .commit => (l.1 ++ l.2, [])
      | .rollback => (l.1, [])
      | .other _ => l

def ledger (trace : List (Step F (SqlOp S X))) : List S × List S := trace.foldl enter ([], [])

/-- The statements a session has made durable, in order. -/
def durable (trace : List (Step F (SqlOp S X))) : List S := (ledger trace).1

/-- The statements a session has run and not undone, in order. -/
def written (trace : List (Step F (SqlOp S X))) : List S := (ledger trace).1 ++ (ledger trace).2

theorem ledger_snoc (trace : List (Step F (SqlOp S X))) (st : Step F (SqlOp S X)) :
    ledger (trace ++ [st]) = enter (ledger trace) st := by
  simp [ledger, List.foldl_append]

variable (exec) in
/-- Run statements one after the other. -/
def execAll : List S → D → Option D
  | [], d => some d
  | s :: ss, d =>
      match exec s d with
      | .ok (_, d') => execAll ss d'
      | .error _ => none

/-- What a step can do to the statements of a trace: nothing, drop the open transaction, commit
    it, or add to it. -/
theorem enter_cases (l : List S × List S) (st : Step F (SqlOp S X)) :
    enter l st = l ∨ enter l st = (l.1, []) ∨ enter l st = (l.1 ++ l.2, []) ∨
      ∃ s, st.op = .execute s ∧ enter l st = (l.1, l.2 ++ [s]) := by
  unfold enter
  split
  · exact Or.inr (Or.inl rfl)
  · exact Or.inl rfl
  · exact Or.inl rfl
  split
  · next s hs => exact Or.inr (Or.inr (Or.inr ⟨s, hs, rfl⟩))
  · exact Or.inr (Or.inr (Or.inl rfl))
  · exact Or.inr (Or.inl rfl)
  · exact Or.inl rfl

/-- What a step commits does not depend on what has been committed before. -/
theorem enter_fst (l : List S × List S) (st : Step F (SqlOp S X)) :
    (enter l st).1 = l.1 ++ (enter ([], l.2) st).1 := by
  unfold enter
  split
  · exact (List.append_nil _).symm
  · exact (List.append_nil _).symm
  · exact (List.append_nil _).symm
  split
  · exact (List.append_nil _).symm
  · rfl
  · exact (List.append_nil _).symm
  · exact (List.append_nil _).symm

/-- What has been made durable stays. -/
theorem durable_extends (trace more : List (Step F (SqlOp S X))) :
    durable trace <+: durable (trace ++ more) := by
  induction more using List.reverseRecOn with
  | nil =>
      rw [List.append_nil]
  | append_singleton more st ih =>
      rw [← List.append_assoc]
      refine ih.trans ?_
      unfold durable
      rw [ledger_snoc]
      rcases enter_cases (ledger (trace ++ more)) st with h | h | h | ⟨s, _, h⟩
      · rw [h]
      · rw [h]
      · rw [h]
        exact List.prefix_append _ _
      · rw [h]

/-- The statements a trace has run are among its operations. -/
theorem mem_written {trace : List (Step F (SqlOp S X))} {s : S} (h : s ∈ written trace) :
    ∃ st ∈ trace, st.op = .execute s := by
  induction trace using List.reverseRecOn generalizing s with
  | nil => cases h
  | append_singleton trace st ih =>
      have hold : ∀ s' ∈ written trace, ∃ st' ∈ trace ++ [st], st'.op = .execute s' := by
        intro s' hs'
        obtain ⟨st', hst', hop⟩ := ih hs'
        exact ⟨st', List.mem_append_left _ hst', hop⟩
      unfold written at h hold
      rw [ledger_snoc] at h
      rcases enter_cases (ledger trace) st with henter | henter | henter | ⟨s', hop, henter⟩
      · rw [henter] at h
        exact hold s h
      · rw [henter, List.append_nil] at h
        exact hold s (List.mem_append_left _ h)
      · rw [henter, List.append_nil] at h
        exact hold s h
      · rw [henter, ← List.append_assoc] at h
        rcases List.mem_append.1 h with h | h
        · exact hold s h
        · rw [List.mem_singleton.1 h]
          exact ⟨st, List.mem_append_right _ (List.mem_singleton_self st), hop⟩

/-- The statements a trace has run came one after the other: at the step of one of them the ones
    before it had been run. -/
theorem written_split {trace : List (Step F (SqlOp S X))} {l r : List S} {s : S}
    (h : written trace = l ++ s :: r) :
    ∃ pre st post, trace = pre ++ st :: post ∧ st.op = .execute s ∧ written pre = l := by
  induction trace using List.reverseRecOn generalizing r with
  | nil => simp [written, ledger] at h
  | append_singleton trace last ih =>
      have hold : ∀ r', written trace = l ++ s :: r' →
          ∃ pre st post, trace ++ [last] = pre ++ st :: post ∧ st.op = .execute s ∧
            written pre = l := by
        intro r' hr'
        obtain ⟨pre, st, post, rfl, hst⟩ := ih hr'
        exact ⟨pre, st, post ++ [last], List.append_assoc .., hst⟩
      unfold written at h hold
      rw [ledger_snoc] at h
      rcases enter_cases (ledger trace) last with henter | henter | henter | ⟨s', hop, henter⟩
      · rw [henter] at h
        exact hold r h
      · rw [henter, List.append_nil] at h
        refine hold (r ++ (ledger trace).2) ?_
        rw [h, List.append_assoc, List.cons_append]
      · rw [henter, List.append_nil] at h
        exact hold r h
      · rw [henter, ← List.append_assoc] at h
        rcases List.eq_nil_or_concat r with rfl | ⟨r', s'', rfl⟩
        · obtain ⟨hl, hs⟩ := List.append_inj' h rfl
          cases hs
          exact ⟨trace, last, [], rfl, hop, hl⟩
        · rw [List.concat_eq_append, ← List.cons_append, ← List.append_assoc] at h
          exact hold r' (List.append_inj' h rfl).1

/-- What the statements a trace has run weigh, the trace weighs. -/
theorem sum_written_le (weight : SqlOp S X → Nat) (trace : List (Step F (SqlOp S X))) :
    ((written trace).map (fun s => weight (.execute s))).sum
      ≤ (trace.map (fun st => weight st.op)).sum := by
  induction trace using List.reverseRecOn with
  | nil => exact Nat.le_refl 0
  | append_singleton trace st ih =>
      unfold written at ih ⊢
      rw [List.map_append, List.sum_append] at ih
      rw [ledger_snoc]
      rcases enter_cases (ledger trace) st with h | h | h | ⟨s, hop, h⟩
      · simp only [h, List.map_append, List.sum_append]
        omega
      · simp only [h, List.append_nil, List.map_append, List.sum_append]
        omega
      · simp only [h, List.append_nil, List.map_append, List.sum_append]
        omega
      · simp only [h, List.map_append, List.sum_append, List.map_cons, List.map_nil,
          List.sum_cons, List.sum_nil, hop]
        omega

theorem execAll_append (l m : List S) (d : D) :
    execAll exec (l ++ m) d = (execAll exec l d).bind (execAll exec m) := by
  induction l generalizing d with
  | nil => rfl
  | cons s l ih =>
      simp only [List.cons_append, execAll]
      cases exec s d with
      | ok p => exact ih p.2
      | error e => rfl

variable (exec) in
/-- The committed database is the initial one with the committed statements run on it, and the
    connection reads that with the open transaction's statements run on top. -/
def Replays (d : D) (w : Session D (SqlOp S X) ε F γ) : Prop :=
  execAll exec (ledger w.trace).1 d = some w.conn.committed ∧
  execAll exec (ledger w.trace).2 w.conn.committed = some w.conn.view

/-- What the connection reads are the statements it has run. -/
theorem Replays.written {d : D} {w : Session D (SqlOp S X) ε F γ} (h : Replays exec d w) :
    execAll exec (Session.written w.trace) d = some w.conn.view := by
  unfold Session.written
  rw [execAll_append, h.1]
  exact h.2

theorem frameless_replays (d : D) :
    Frameless (Replays exec d : Session D (SqlOp S X) ε F γ → Prop) :=
  ⟨fun _ _ hw => hw, fun _ _ hw => hw⟩

/-- **The trace determines the connection.** -/
theorem replays_closed (d : D) :
    Closed exec (fun _ => True) (Replays exec d : Session D (SqlOp S X) ε F γ → Prop) where
  step := by
    rintro w op fate - ⟨hcommitted, hview⟩ hpossible
    have hkeep : Replays exec d w := ⟨hcommitted, hview⟩
    have heffective : fate = .done ∨ fate = .cancelled true →
        Replays exec d (w.landed op fate (after exec op fate w.conn)) := by
      intro hfate
      have hafter : after exec op fate w.conn = after exec op .done w.conn := by
        rcases hfate with rfl | rfl <;> rfl
      have henter : enter (ledger w.trace) ⟨w.frame, op, fate⟩
          = enter (ledger w.trace) ⟨w.frame, op, .done⟩ := by
        rcases hfate with rfl | rfl <;> rfl
      simp only [Replays, landed, ledger_snoc, hafter, henter]
      cases op with
      | execute s =>
          obtain ⟨r, d', hd'⟩ := hpossible s rfl (by rcases hfate with rfl | rfl <;> rfl)
          simp only [after, hd', enter, Conn.committed_write, Conn.view_write]
          refine ⟨hcommitted, ?_⟩
          rw [execAll_append, hview]
          simp only [Option.bind_some, execAll, hd']
      | commit =>
          refine ⟨?_, rfl⟩
          show execAll exec ((ledger w.trace).1 ++ (ledger w.trace).2) d = some w.conn.view
          rw [execAll_append, hcommitted]
          exact hview
      | rollback => exact ⟨hcommitted, rfl⟩
      | other x => exact ⟨hcommitted, hview⟩
    cases fate with
    | done => exact heffective (Or.inl rfl)
    | raised rolledBack =>
        cases rolledBack with
        | false =>
            simp only [Replays, landed, ledger_snoc]
            exact hkeep
        | true =>
            simp only [Replays, landed, ledger_snoc]
            exact ⟨hcommitted, rfl⟩
    | cancelled executed =>
        cases executed with
        | false =>
            simp only [Replays, landed, ledger_snoc]
            exact hkeep
        | true => exact heffective (Or.inr rfl)
  noted := by
    intro w x passed _ hw
    cases passed with
    | true =>
        simp only [Replays, noted, ledger_snoc]
        exact hw
    | false =>
        simp only [Replays, noted, ledger_snoc]
        exact hw
  vars := fun _ _ hw => hw

end Programs

end Session
