import Mathlib.Algebra.Order.Field.Rat
import RexHunter.Implementation.Events

set_option autoImplicit false

/-! # Cost accounting (`cost.py`)

Cost is folded from the run's usage events each time it is needed. Amounts are exact. -/

namespace RexHunter

/-- `PRICE_PER_MTOK`: input and output dollars per million tokens. -/
def pricePerMtok : List (PyStr × ℚ × ℚ) := [(py "claude-sonnet-5", 3, 15)]

/-- `_FALLBACK_PRICE_PER_MTOK`. -/
def fallbackPricePerMtok : ℚ × ℚ := (15, 75)

/-- `PRICE_PER_MTOK.get(model, _FALLBACK_PRICE_PER_MTOK)`. -/
def priceOf (model : PyStr) : ℚ × ℚ :=
  match pricePerMtok.find? (fun entry => entry.1 = model) with
  | some entry => entry.2
  | none => fallbackPricePerMtok

/-- `cost_of`. -/
def costOf (usage : UsageEvent) : ℚ :=
  usage.inputTokens / 1000000 * (priceOf usage.model).1
    + usage.outputTokens / 1000000 * (priceOf usage.model).2

/-- `fold_cost`. -/
def foldCost (events : List TrajectoryEvent) : ℚ :=
  ((events.filterMap TrajectoryEvent.usage?).map costOf).sum

end RexHunter
