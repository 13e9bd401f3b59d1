import ScriptReview.Analysis
import ScriptReview.Text.Folded

namespace ScriptReview

inductive Decision where
  | notReady
  | needsRefactor
  | ready
  deriving DecidableEq

namespace Decision

def name : Decision → String
  | notReady => "NOT_READY_FOR_REVIEW"
  | needsRefactor => "NEEDS_REFACTOR"
  | ready => "READY_FOR_HUMAN_REVIEW"

def all : List (String × Decision) :=
  [notReady, needsRefactor, ready].map fun d => (d.name, d)

end Decision

structure ReadinessDetails where
  totalScore : Int
  categoryScores : Dictionary Int
  failedCategories : List Text
  hasCriticalDeductions : Bool
  overrideMode : Text
  deriving DecidableEq

structure Readiness where
  decision : Decision
  reason : Text
  details : ReadinessDetails
  deriving DecidableEq

namespace Readiness

def rejectTotal : Nat := 65

def rejectCategory : Nat := 10

def refactorMax : Nat := 80

def attentionCategory : Nat := 20

def defaultMode : Text := "severity"

def criticalWords : List Text := ["eval", "function()", "child_process", "hardcoded secret"]

/-- In comment mode the words of the security comments count; in every other mode the severity of
the critical issues does. -/
def hasCriticalDeductions (a : Analysis) (mode : Text) : Bool :=
  if mode = Text.ofString "comment" then
    a.security.comments.any fun c => criticalWords.any fun w => c.lowered.hasPart w
  else a.criticalIssues.any Issue.isCritical

def failedCategories (a : Analysis) : List Category :=
  Category.all.filter fun c => a.score c < rejectCategory

def rejectReason (a : Analysis) : Text :=
  let low : List Text :=
    if a.totalScore.val < rejectTotal then
      ["Total score " ++ Text.number a.totalScore.val ++ " is below minimum threshold (" ++
        Text.number rejectTotal ++ ")"]
    else []
  let cited := (failedCategories a).map fun c =>
    Text.ofString c.name ++ ": " ++ Text.number (a.score c)
  let weak : List Text :=
    if cited.isEmpty then []
    else
      ["Critical deficiencies in: " ++ Text.joinWith ", " cited ++ " (minimum: " ++
        Text.number rejectCategory ++ ")"]
  Text.joinWith ". " (low ++ weak) ++ ". Code requires significant improvements before review."

def refactorReason (a : Analysis) : Text :=
  "Total score " ++ Text.number a.totalScore.val ++ " indicates code needs refactoring (" ++
    Text.number ((refactorMax : Int) - a.totalScore.val) ++ " points below optimal). " ++
    "Address flagged issues to improve maintainability before human review."

def criticalReason (a : Analysis) : Text :=
  "Total score " ++ Text.number a.totalScore.val ++
    " is good, but critical security issues detected. " ++
    "Address security concerns before human review."

def readyReason (a : Analysis) : Text :=
  "Code quality score " ++ Text.number a.totalScore.val ++
    "/100 meets standards for human review." ++
    if a.score a.weakest < attentionCategory then
      " Reviewer should pay attention to " ++ Text.ofString a.weakest.name ++ " (" ++
        Text.number (a.score a.weakest) ++ "/" ++ Text.number Category.maxScore ++ ")."
    else ""

def ofAnalysis (a : Analysis) (mode : Text) : Readiness :=
  let critical := hasCriticalDeductions a mode
  let details : ReadinessDetails := {
    totalScore := a.totalScore.val
    categoryScores := a.scoresByName
    failedCategories := (failedCategories a).map fun c => Text.ofString c.name
    hasCriticalDeductions := critical
    overrideMode := mode }
  if a.totalScore.val < rejectTotal || !(failedCategories a).isEmpty then
    ⟨.notReady, rejectReason a, details⟩
  else if a.totalScore.val ≤ refactorMax then ⟨.needsRefactor, refactorReason a, details⟩
  else if critical then ⟨.needsRefactor, criticalReason a, details⟩
  else ⟨.ready, readyReason a, details⟩

def unparsable (a : Analysis) (mode : Text) : Readiness where
  decision := .notReady
  reason := "Code has syntax errors and cannot be analyzed."
  details := {
    totalScore := 0
    categoryScores := a.scoresByName
    failedCategories := Category.all.map fun c => Text.ofString c.name
    hasCriticalDeductions := false
    overrideMode := mode }

def toJson (r : Readiness) : Json :=
  .record [("decision", .string r.decision.name), ("reason", .string r.reason),
    ("details", .record [("total_score", .int r.details.totalScore),
      ("category_scores", .dictionary .int r.details.categoryScores),
      ("failed_categories", .texts r.details.failedCategories),
      ("has_critical_deductions", .bool r.details.hasCriticalDeductions),
      ("override_mode", .string r.details.overrideMode)])]

def decodeDetails : Decoder ReadinessDetails :=
  .model "DecisionDetails" fun fs =>
    ReadinessDetails.mk <$> Decoder.required "total_score" .int fs <*>
      Decoder.withDefault "category_scores" (.dictionary .int) .empty fs <*>
      Decoder.withDefault "failed_categories" (.list .text) [] fs <*>
      Decoder.withDefault "has_critical_deductions" .bool false fs <*>
      Decoder.withDefault "override_mode" .text defaultMode fs

def decode : Decoder Readiness :=
  .model "DecisionResult" fun fs =>
    Readiness.mk <$> Decoder.required "decision" (.member Decision.all) fs <*>
      Decoder.required "reason" .text fs <*>
      Decoder.required "details" decodeDetails fs

def mode (j : Json) : Checked Text :=
  (Decoder.text j).under (.key "override_mode")

end Readiness

end ScriptReview
