import Mathlib.Data.List.Sort
import InterviewScheduler.Engine.Scoring

/-! # Explanation of a scored slot

`explain.py`: the two factors that contributed most, and one trade-off if a factor is weak. -/

namespace InterviewScheduler.Engine

namespace Factor

/-- The factor's name, the key of `as_dict` and of the phrase tables. -/
def name : Factor → String
  | timezoneFairness => "timezone_fairness"
  | workingHoursComfort => "working_hours_comfort"
  | schedulingProximity => "scheduling_proximity"
  | workloadBalance => "workload_balance"
  | bufferQuality => "buffer_quality"

/-- `FACTOR_NAMES`, in the order of the source. -/
def all : List Factor :=
  [timezoneFairness, workingHoursComfort, schedulingProximity, workloadBalance, bufferQuality]

/-- `_STRENGTH_PHRASE`. -/
def strengthPhrase : Factor → String
  | timezoneFairness => "balanced timezone fairness across participants"
  | workingHoursComfort => "comfortable working-hours placement"
  | schedulingProximity => "how soon it can happen"
  | workloadBalance => "light interviewer workload"
  | bufferQuality => "generous buffer time on both sides"

/-- `_TRADEOFF_PHRASE`. -/
def tradeoffPhrase : Factor → String
  | timezoneFairness => "less balanced across time zones than other options"
  | workingHoursComfort => "close to the edge of the working day for someone"
  | schedulingProximity => "later than the earliest available option"
  | workloadBalance => "on a day an interviewer already has interviews"
  | bufferQuality => "with only the minimum buffer on at least one side"

end Factor

/-- `breakdown.as_dict()[n]`. -/
def ScoreBreakdown.value (b : ScoreBreakdown) : Factor → ℚ
  | .timezoneFairness => b.timezoneFairness
  | .workingHoursComfort => b.workingHoursComfort
  | .schedulingProximity => b.schedulingProximity
  | .workloadBalance => b.workloadBalance
  | .bufferQuality => b.bufferQuality

/-- `getattr(weights, n)`. -/
def ScoringWeights.value (w : ScoringWeights) : Factor → ℚ
  | .timezoneFairness => w.timezoneFairness
  | .workingHoursComfort => w.workingHoursComfort
  | .schedulingProximity => w.schedulingProximity
  | .workloadBalance => w.workloadBalance
  | .bufferQuality => w.bufferQuality

/-- `_TRADEOFF_THRESHOLD`, the float of 0.6. -/
def tradeoffThreshold (fl : Floats := .exact) : ℚ := fl.round (6 / 10)

/-- The order of the keys `(x, n)`: by the number, then by the factor's name. -/
def keyLE (key : Factor → ℚ) (a b : Factor) : Prop :=
  key a < key b ∨ (key a = key b ∧ a.name ≤ b.name)

instance (key : Factor → ℚ) : DecidableRel (keyLE key) := fun a b =>
  inferInstanceAs (Decidable (key a < key b ∨ (key a = key b ∧ a.name ≤ b.name)))

/-- `min(FACTOR_NAMES, key=lambda n: (values[n], n))`. -/
def weakest (values : Factor → ℚ) : Factor :=
  Factor.all.foldl (fun best n => if keyLE values best n then best else n) .timezoneFairness

def buildExplanation (breakdown : ScoreBreakdown) (weights : ScoringWeights) (fl : Floats := .exact) :
    String × List Factor :=
  let values := breakdown.value
  let contributions := Factor.all.insertionSort (keyLE fun n => -fl.mul (weights.value n) (values n))
  let top := contributions.take 2
  let strengths := match top with
    | [a, b] => a.strengthPhrase ++ " and " ++ b.strengthPhrase
    | a :: _ => a.strengthPhrase
    | [] => ""
  let sentence := "Strong " ++ strengths ++ "."
  let weak := weakest values
  if values weak < tradeoffThreshold fl ∧ weak ∉ top then
    (sentence ++ " Trade-off: " ++ weak.tradeoffPhrase ++ ".", top)
  else (sentence, top)

end InterviewScheduler.Engine
