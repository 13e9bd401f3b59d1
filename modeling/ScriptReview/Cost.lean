import ScriptReview.Category
import ScriptReview.Failure
import ScriptReview.Metrics
import ScriptReview.Number.Rounding
import ScriptReview.Number.Total

namespace ScriptReview

/-- Maps a value from the band between `low` and `high` to 0 to 100, clamped at both ends. -/
def normalize (value low high : Int) : Except RoundingError Int :=
  if value ≤ low then .ok 0
  else if high ≤ value then .ok 100
  else (Binary64.quotient (value - low) (high - low) * Binary64.ofInt 100).roundHalfUp

inductive CostLevel where
  | low
  | medium
  | high
  deriving DecidableEq

namespace CostLevel

def ofScore (score : Int) : CostLevel :=
  if score ≤ 33 then low else if score ≤ 66 then medium else high

def name : CostLevel → String
  | low => "LOW"
  | medium => "MEDIUM"
  | high => "HIGH"

def all : List (String × CostLevel) :=
  [low, medium, high].map fun l => (l.name, l)

end CostLevel

inductive CostFactor where
  | nesting
  | complexity
  | length
  | security
  deriving DecidableEq

namespace CostFactor

/-- The order decides which of two equal contributions is named. -/
def all : List CostFactor := [nesting, complexity, length, security]

def name : CostFactor → String
  | nesting => "nesting_depth"
  | complexity => "cyclomatic_complexity"
  | length => "function_length"
  | security => "security_deductions"

def title : CostFactor → String
  | nesting => "deep nesting"
  | complexity => "high cyclomatic complexity"
  | length => "long functions"
  | security => "security concerns"

def weight : CostFactor → Binary64
  | nesting => .ofRat (1 / 4)
  | complexity => .ofRat (3 / 10)
  | length => .ofRat (1 / 5)
  | security => .ofRat (1 / 4)

def band : CostFactor → Int × Int
  | nesting => (0, 8)
  | complexity => (1, 25)
  | length => (0, 100)
  | security => (0, Category.maxScore)

def rawValue (m : Metrics) (securityScore : Int) : CostFactor → Int
  | nesting => m.maxNesting
  | complexity => m.maxComplexity
  | length => m.maxLength
  | security => Category.maxScore - securityScore

end CostFactor

structure CostShare where
  rawValue : Int
  normalized : Fin 101
  weight : Binary64
  contribution : Nat
  deriving DecidableEq

namespace CostShare

def decode : Decoder CostShare :=
  .model "RCIFactor" fun fs =>
    CostShare.mk <$> Decoder.required "raw_value" .int fs <*>
      Decoder.required "normalized" (.natUpTo 100) fs <*>
      Decoder.required "weight" .real fs <*>
      Decoder.required "contribution" .nat fs

def toJson (s : CostShare) : Json :=
  .record [("raw_value", .int s.rawValue), ("normalized", .int s.normalized.val),
    ("weight", .real s.weight), ("contribution", .int s.contribution)]

/-- A computed share, held to the same bounds as one that is read. -/
def make (rawValue normalized : Int) (weight : Binary64) (contribution : Int) :
    Checked CostShare :=
  decode (.record [("raw_value", .int rawValue), ("normalized", .int normalized),
    ("weight", .real weight), ("contribution", .int contribution)])

end CostShare

structure ReviewCost where
  level : CostLevel
  score : Fin 101
  factors : Dictionary CostShare
  explanation : Text
  formula : Text
  deriving DecidableEq

namespace ReviewCost

def standardFormula : Text :=
  "rci = Σ round(normalize(raw, band) × weight), clamped to 0-100"

def rounded (r : Except RoundingError Int) : Except Failure Int :=
  r.mapError fun _ => .unroundable

def share (m : Metrics) (securityScore : Int) (f : CostFactor) :
    Except Failure (CostFactor × CostShare) := do
  let raw := f.rawValue m securityScore
  let normalized ← rounded (normalize raw f.band.1 f.band.2)
  let contribution ← rounded (Binary64.ofInt normalized * f.weight).roundHalfUp
  let s ← match CostShare.make raw normalized f.weight contribution with
    | .valid s => .ok s
    | .faulty fs => .error (.invalid fs)
  return (f, s)

def largest (first : CostFactor × CostShare) (rest : List (CostFactor × CostShare)) :
    CostFactor × CostShare :=
  rest.foldl (fun best s => if best.2.contribution < s.2.contribution then s else best) first

def explain (level : CostLevel) (score : Fin 101) (top : CostFactor × CostShare) : Text :=
  let title := Text.ofString top.1.title
  let points := title ++ " (" ++ Text.number top.2.contribution ++ " points). "
  match level with
  | .low =>
    "This code is straightforward to review (RCI: " ++ Text.number score.val ++
      "). Largest contributor: " ++ points ++
      "Clear structure and manageable complexity allow single-pass review."
  | .medium =>
    "This code requires moderate review effort (RCI: " ++ Text.number score.val ++
      "). Main contributor: " ++ title ++
      ". Reviewer may need to re-read sections for full understanding."
  | .high =>
    "This code demands significant review effort (RCI: " ++ Text.number score.val ++
      "). Primary concern: " ++ points ++
      "Expect detailed commenting or potential rejection."

def ofMetrics (m : Metrics) (securityScore : Int) : Except Failure ReviewCost := do
  let nesting ← share m securityScore .nesting
  let complexity ← share m securityScore .complexity
  let length ← share m securityScore .length
  let security ← share m securityScore .security
  let others := [complexity, length, security]
  let sum := total ((nesting :: others).map fun s => s.2.contribution)
  let score : Fin 101 := ⟨min 100 sum, by omega⟩
  let level := CostLevel.ofScore score.val
  return {
    level, score
    factors := .ofList ((nesting :: others).map fun s => (Text.ofString s.1.name, s.2))
    explanation := explain level score (largest nesting others)
    formula := standardFormula }

def unparsable : ReviewCost where
  level := .high
  score := 100
  factors := .empty
  explanation := "Code cannot be parsed due to syntax errors."
  formula := standardFormula

def toJson (c : ReviewCost) : Json :=
  .record [("level", .string c.level.name), ("score", .int c.score.val),
    ("factors", .dictionary CostShare.toJson c.factors),
    ("human_explanation", .string c.explanation), ("formula", .string c.formula)]

def decode : Decoder ReviewCost :=
  .model "RCIResult" fun fs =>
    ReviewCost.mk <$> Decoder.required "level" (.member CostLevel.all) fs <*>
      Decoder.required "score" (.natUpTo 100) fs <*>
      Decoder.withDefault "factors" (.dictionary CostShare.decode) .empty fs <*>
      Decoder.withDefault "human_explanation" .text [] fs <*>
      Decoder.withDefault "formula" .text standardFormula fs

end ReviewCost

end ScriptReview
