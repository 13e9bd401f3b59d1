import ScriptReview.Analysis
import ScriptReview.Json.Shown

namespace ScriptReview

inductive Verdict where
  | approve
  | approveWithNits
  | requestChanges
  | blockMerge
  deriving DecidableEq

namespace Verdict

def name : Verdict → String
  | approve => "APPROVE"
  | approveWithNits => "APPROVE_WITH_NITS"
  | requestChanges => "REQUEST_CHANGES"
  | blockMerge => "BLOCK_MERGE"

def all : List (String × Verdict) :=
  [approve, approveWithNits, requestChanges, blockMerge].map fun v => (v.name, v)

def label : Verdict → String
  | approve => "Approve"
  | approveWithNits => "Approve with Nits"
  | requestChanges => "Request Changes"
  | blockMerge => "Block Merge"

def icon : Verdict → String
  | approve => "✅"
  | approveWithNits => "🟡"
  | requestChanges => "🟠"
  | blockMerge => "🛑"

def color : Verdict → String
  | approve => "#22c55e"
  | approveWithNits => "#eab308"
  | requestChanges => "#f97316"
  | blockMerge => "#ef4444"

def description : Verdict → String
  | approve => "Code quality meets standards. Ready to merge."
  | approveWithNits => "Minor issues found. Can proceed but consider addressing."
  | requestChanges => "Issues need attention before merging."
  | blockMerge => "Critical issues detected. Must be resolved."

def approveMin : Nat := 85

def nitsMin : Nat := 75

def changesMin : Nat := 65

def ofScore (score : Int) : Verdict :=
  if approveMin ≤ score then approve
  else if nitsMin ≤ score then approveWithNits
  else if changesMin ≤ score then requestChanges
  else blockMerge

def ofJson (j : Json) : Except Text Verdict :=
  match Decoder.member all j with
  | .valid v => .ok v
  | .faulty _ => .error (j.shown ++ " is not a valid Verdict")

end Verdict

structure IssueSummary where
  file : Text
  issue : Text
  deriving DecidableEq

structure VerdictDetails where
  scoreBased : Verdict
  wasOverridden : Bool
  criticalCount : Int
  criticalIssues : List IssueSummary
  thresholds : Dictionary Int
  deriving DecidableEq

structure VerdictReport where
  verdict : Verdict
  explanation : Text
  overrideReason : Option Text
  details : VerdictDetails
  deriving DecidableEq

namespace VerdictReport

def significantCategory : Nat := 15

def thresholds : Dictionary Int :=
  .ofList [("approve_min", Verdict.approveMin), ("approve_with_nits_min", Verdict.nitsMin),
    ("request_changes_min", Verdict.changesMin)]

def ruleLabel (ruleId : Text) : Text :=
  if ruleId = Text.ofString "eval_usage" then "eval() usage"
  else if ruleId = Text.ofString "function_constructor" then "Function() constructor"
  else if ruleId = Text.ofString "child_process_exec" then "child_process usage"
  else "critical security issue"

def distinctFrom (seen : List Text) : List Text → List Text
  | [] => []
  | t :: rest =>
    if seen.contains t then distinctFrom seen rest else t :: distinctFrom (t :: seen) rest

def labels (issues : List Issue) : List Text :=
  distinctFrom [] (issues.map fun i => ruleLabel i.ruleId)

def headline (score : Int) (v : Verdict) : Text :=
  "Score: " ++ Text.number score ++ "/100 - Verdict: " ++ Text.ofString v.name

def advice (v : Verdict) (a : Analysis) : Text :=
  match v with
  | .approveWithNits =>
    " Pay attention to " ++ Text.ofString a.weakest.name ++ " (" ++
      Text.number (a.score a.weakest) ++ "/" ++ Text.number Category.maxScore ++ ")."
  | .requestChanges =>
    let weak := Category.all.filter fun c => a.score c < significantCategory
    if weak.isEmpty then []
    else " Focus on: " ++ Text.joinWith ", " (weak.map fun c => Text.ofString c.focus) ++ "."
  | _ => []

def explain (v : Verdict) (score : Int) (scores : Option Analysis) : Text :=
  let description := Text.ofString v.description
  if v = .blockMerge then
    headline score v ++ ". Score is below minimum threshold (" ++ Text.number Verdict.changesMin ++
      "). " ++ description
  else
    headline score v ++ ". " ++ description ++
      match scores with
      | some a => advice v a
      | none => []

/-- The verdict on a total score and its critical issues. An issue without a file of its own belongs
to `filename`; `scores` name the weak categories. -/
def ofScore (score : Int) (critical : List Issue) (scores : Option Analysis) (filename : Text) :
    VerdictReport :=
  let scored := Verdict.ofScore score
  if critical.isEmpty then {
    verdict := scored
    explanation := explain scored score scores
    overrideReason := none
    details := ⟨scored, false, 0, [], thresholds⟩ }
  else {
    verdict := .blockMerge
    explanation := headline score .blockMerge
    overrideReason :=
      some ("Critical security issues detected: " ++ Text.joinWith ", " (labels critical))
    details := {
      scoreBased := scored
      wasOverridden := true
      criticalCount := critical.length
      criticalIssues := critical.map fun i => ⟨i.filename.getD filename, i.comment⟩
      thresholds := .empty } }

def ofAnalysis (a : Analysis) : VerdictReport :=
  ofScore a.totalScore.val a.criticalIssues (some a) a.filename

def summaryJson (s : IssueSummary) : Json :=
  .record [("file", .string s.file), ("issue", .string s.issue)]

def toJson (r : VerdictReport) : Json :=
  .record [("verdict", .string r.verdict.name), ("explanation", .string r.explanation),
    ("override_reason", .ofOption .string r.overrideReason),
    ("details", .record [("score_based_verdict", .string r.details.scoreBased.name),
      ("was_overridden", .bool r.details.wasOverridden),
      ("critical_issue_count", .int r.details.criticalCount),
      ("critical_issues", .array (r.details.criticalIssues.map summaryJson)),
      ("thresholds", .dictionary .int r.details.thresholds)])]

def decodeSummary : Decoder IssueSummary :=
  .model "CriticalIssueSummary" fun fs =>
    IssueSummary.mk <$> Decoder.required "file" .text fs <*> Decoder.required "issue" .text fs

def decodeDetails : Decoder VerdictDetails :=
  .model "VerdictDetails" fun fs =>
    VerdictDetails.mk <$> Decoder.required "score_based_verdict" (.member Verdict.all) fs <*>
      Decoder.withDefault "was_overridden" .bool false fs <*>
      Decoder.withDefault "critical_issue_count" .int 0 fs <*>
      Decoder.withDefault "critical_issues" (.list decodeSummary) [] fs <*>
      Decoder.withDefault "thresholds" (.dictionary .int) .empty fs

def decode : Decoder VerdictReport :=
  .model "VerdictResult" fun fs =>
    VerdictReport.mk <$> Decoder.required "verdict" (.member Verdict.all) fs <*>
      Decoder.required "explanation" .text fs <*>
      Decoder.withDefault "override_reason" (.optional .text) none fs <*>
      Decoder.required "details" decodeDetails fs

end VerdictReport

structure Badge where
  label : Text
  icon : Text
  color : Text
  text : Text
  deriving DecidableEq

namespace Badge

def ofVerdict (v : Verdict) (score : Int) : Badge where
  label := v.label
  icon := v.icon
  color := v.color
  text :=
    Text.ofString v.icon ++ " " ++ Text.ofString v.label ++ " (" ++ Text.number score ++ "/100)"

def toJson (b : Badge) : Json :=
  .record [("label", .string b.label), ("icon", .string b.icon), ("color", .string b.color),
    ("text", .string b.text)]

def decode : Decoder Badge :=
  .model "VerdictBadge" fun fs =>
    Badge.mk <$> Decoder.required "label" .text fs <*> Decoder.required "icon" .text fs <*>
      Decoder.required "color" .text fs <*> Decoder.required "text" .text fs

end Badge

end ScriptReview
