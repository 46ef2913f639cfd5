import Mathlib.Data.List.Lex
import Mathlib.Data.List.Sort
import Mathlib.Order.Fin.Basic
import RexHunter.Implementation.Cost
import RexHunter.Implementation.Database

set_option autoImplicit false

/-! # The projection reducer (`view.py`)

One fold of log rows, fed by the global `id` cursor or by the `seq` cursor of one run. Accumulators
are mutable objects, so they live on a heap: `fold` fills a new one and `fold_from` a deep copy. -/

namespace RexHunter

/-- `LogRow`. -/
structure LogRow where
  id : Nat
  seq : Nat
  runId : PyStr
  createdAt : PyStr
  event : TrajectoryEvent
deriving DecidableEq, Repr

/-- `Phase` of the terrarium. -/
inductive DayPhase where
  | day
  | night
deriving DecidableEq, Repr

structure PreyCard where
  preyId : PyStr
  territory : PyStr
  posting : PyStr
  status : PreyStatus
  reason : Option PyStr
  provenance : Option PyStr
deriving DecidableEq, Repr

structure RunView where
  runId : PyStr
  currentTool : Option PyStr
  thinking : PyStr
  spentUsd : ℚ
  preyCount : Nat
  errorCount : Nat
  turns : Nat
  territory : Option PyStr
  outcome : Option RunOutcome
  costCeilingUsd : Option ℚ
  maxIterations : Option Int
deriving DecidableEq, Repr

structure TerritoryView where
  territory : PyStr
  latestOutcome : Option RunOutcome
  lastStartedAt : Option PyStr
deriving DecidableEq, Repr

structure ViewState where
  highWater : Nat
  runs : List RunView
  pen : List PreyCard
  spentUsd : ℚ
  phase : DayPhase
  territories : List TerritoryView
  daemonSpendCeilingUsd : Option ℚ
deriving DecidableEq, Repr

/-! ## The fold -/

/-- `_RunAcc`. -/
structure RunAcc where
  openTool : Option PyStr
  thinking : PyStr
  preyCount : Nat
  errorCount : Nat
  turns : Nat
  usage : List UsageEvent
deriving DecidableEq, Repr

/-- `_RunAcc()`. -/
def RunAcc.new : RunAcc := ⟨none, [], 0, 0, 0, []⟩

/-- `Accumulator`; the runs are in first-seen order. -/
structure Accumulator where
  highWater : Nat
  runs : List (PyStr × RunAcc)
  pen : List PreyCard
deriving DecidableEq, Repr

/-- `Accumulator()`. -/
def Accumulator.new : Accumulator := ⟨0, [], []⟩

/-- What `_apply` does to the state of the row's run. -/
def RunAcc.apply (run : RunAcc) : TrajectoryEvent → RunAcc
  | .toolCall e => { run with openTool := some e.tool, turns := run.turns + 1 }
  | .toolResult _ => { run with openTool := none }
  | .error e =>
      { run with
        errorCount := run.errorCount + 1
        openTool := if some e.tool = run.openTool then none else run.openTool }
  | .preyCaptured _ => { run with preyCount := run.preyCount + 1 }
  | .thinkingDelta e => { run with thinking := run.thinking ++ e.text }
  | .usage e => { run with usage := run.usage ++ [e] }
  | .sniff _ => run

/-- The card a capture adds to the pen. -/
def TrajectoryEvent.card : TrajectoryEvent → Option PreyCard
  | .preyCaptured e =>
      some ⟨e.preyId, e.territory, decodeReplace e.rawPosting, .awaitingVerdict, none, none⟩
  | _ => none

/-- `acc.runs.get(run_id)`. -/
def runOf (runs : List (PyStr × RunAcc)) (runId : PyStr) : Option RunAcc :=
  (runs.find? (fun e => e.1 = runId)).map Prod.snd

/-- `acc.runs[run_id] = run`. -/
def setRun (runs : List (PyStr × RunAcc)) (runId : PyStr) (run : RunAcc) :
    List (PyStr × RunAcc) :=
  match runs with
  | [] => [(runId, run)]
  | e :: es => if e.1 = runId then (runId, run) :: es else e :: setRun es runId run

/-- `_apply`. -/
def Accumulator.apply (acc : Accumulator) (row : LogRow) : Accumulator :=
  { acc with
    runs := setRun acc.runs row.runId (((runOf acc.runs row.runId).getD .new).apply row.event)
    pen := acc.pen ++ row.event.card.toList }

/-- `step`. -/
def Accumulator.step (acc : Accumulator) (row : LogRow) : Accumulator :=
  if row.id ≤ acc.highWater then acc else ({ acc with highWater := row.id } : Accumulator).apply row

/-! ## Accumulators on the heap -/

/-- The accumulators made so far; an address is a position. -/
structure Heap where
  cells : List Accumulator

namespace Heap

/-- The accumulator at an address. -/
def read (h : Heap) (a : Nat) : Option Accumulator := h.cells[a]?

/-- A new object, and its address. -/
def alloc (h : Heap) (acc : Accumulator) : Nat × Heap := (h.cells.length, ⟨h.cells ++ [acc]⟩)

/-- `step(acc, row)`, in place. -/
def step (a : Nat) (h : Heap) (row : LogRow) : Heap := ⟨h.cells.modify a (·.step row)⟩

/-- `fold`. -/
def fold (h : Heap) (rows : List LogRow) : Nat × Heap :=
  let (a, h) := h.alloc .new
  (a, rows.foldl (step a) h)

/-- `fold_from`, on a deep copy; there is none of an object that does not exist. -/
def foldFrom (h : Heap) (a : Nat) (rows : List LogRow) : Option (Nat × Heap) :=
  match h.read a with
  | none => none
  | some acc =>
      let (b, h) := h.alloc acc
      some (b, rows.foldl (step b) h)

end Heap

/-! ## The snapshot -/

/-- `_phase`, by the hour of the clock. -/
def phaseAt (hour : Nat) : DayPhase := if 6 ≤ hour ∧ hour < 18 then .day else .night

/-- The view of one run; the `runs` columns are overlaid later. -/
def RunAcc.view (runId : PyStr) (run : RunAcc) : RunView where
  runId := runId
  currentTool := run.openTool
  thinking := run.thinking
  spentUsd := foldCost (run.usage.map .usage)
  preyCount := run.preyCount
  errorCount := run.errorCount
  turns := run.turns
  territory := none
  outcome := none
  costCeilingUsd := none
  maxIterations := none

/-- `finalize`. -/
def finalize (acc : Accumulator) (hour : Nat) (daemonSpendCeilingUsd : Option ℚ)
    (schedule : List PyStr) : ViewState where
  highWater := acc.highWater
  runs := acc.runs.map (fun e => e.2.view e.1)
  pen := acc.pen
  spentUsd := foldCost ((acc.runs.flatMap (fun e => e.2.usage)).map .usage)
  phase := phaseAt hour
  territories := (schedule.insertionSort (· ≤ ·)).map (fun t => ⟨t, none, none⟩)
  daemonSpendCeilingUsd := daemonSpendCeilingUsd

/-- `project`. -/
def project (rows : List LogRow) (hour : Nat) (daemonSpendCeilingUsd : Option ℚ)
    (schedule : List PyStr) : ViewState :=
  finalize (rows.foldl Accumulator.step .new) hour daemonSpendCeilingUsd schedule

end RexHunter
