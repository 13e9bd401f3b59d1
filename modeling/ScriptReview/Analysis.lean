import ScriptReview.Category
import ScriptReview.Issue
import ScriptReview.Number.Total

namespace ScriptReview

structure CategoryScore where
  score : Fin (Category.maxScore + 1)
  comments : List Text
  deriving DecidableEq

namespace CategoryScore

def penaltySum (issues : List Issue) : Nat :=
  total (issues.map (·.penalty))

/-- The points left of `maxScore`, at least none; more than a category can hold is a fault. -/
def ofIssues (maxScore : Int) (issues : List Issue) : Checked CategoryScore :=
  let score := maxScore - penaltySum issues
  if h : score.toNat < Category.maxScore + 1 then .valid ⟨⟨score.toNat, h⟩, issues.map (·.comment)⟩
  else Checked.under (.key "score") (.fault (.above Category.maxScore) (.int score))

def toJson (s : CategoryScore) : Json :=
  .record [("score", .int s.score.val), ("comments", .texts s.comments)]

def decode : Decoder CategoryScore :=
  .model "CategoryScore" fun fs =>
    CategoryScore.mk <$> Decoder.required "score" (.natUpTo Category.maxScore) fs <*>
      Decoder.withDefault "comments" (.list .text) [] fs

end CategoryScore

def Analysis.maxTotal : Nat := 4 * Category.maxScore

/-- The scores of one source, or of several taken together. `error` holds the parser's message if
there was nothing to score. -/
structure Analysis where
  filename : Text
  readability : CategoryScore
  complexity : CategoryScore
  edgeCases : CategoryScore
  security : CategoryScore
  totalScore : Fin (Analysis.maxTotal + 1)
  criticalIssues : List Issue
  error : Option Text
  deriving DecidableEq

namespace Analysis

def defaultFilename : Text := "code.js"

def category (a : Analysis) : Category → CategoryScore
  | .readability => a.readability
  | .complexity => a.complexity
  | .edgeCases => a.edgeCases
  | .security => a.security

def score (a : Analysis) (c : Category) : Nat :=
  (a.category c).score.val

def scoresByName (a : Analysis) : Dictionary Int :=
  .ofList (Category.all.map fun c => (Text.ofString c.name, (a.score c : Int)))

def weakest (a : Analysis) : Category :=
  [Category.complexity, .edgeCases, .security].foldl
    (fun best c => if a.score c < a.score best then c else best) .readability

def sum (scores : Category → CategoryScore) : Fin (maxTotal + 1) :=
  ⟨total (Category.all.map fun c => (scores c).score.val), by
    have h := fun c => (scores c).score.isLt
    have := h .readability
    have := h .complexity
    have := h .edgeCases
    have := h .security
    simp only [Category.all, List.map_cons, List.map_nil, total_cons, total_nil, maxTotal]
    omega⟩

def ofScores (filename : Text) (scores : Category → CategoryScore) (critical : List Issue)
    (error : Option Text) : Analysis where
  filename := filename
  readability := scores .readability
  complexity := scores .complexity
  edgeCases := scores .edgeCases
  security := scores .security
  totalScore := sum scores
  criticalIssues := critical
  error := error

def failed (filename message : Text) : Analysis :=
  ofScores filename (fun _ => ⟨0, ["Unable to analyze: " ++ message]⟩) [] (some message)

def toJson (a : Analysis) : Json :=
  .record [("filename", .string a.filename), ("readability", a.readability.toJson),
    ("complexity", a.complexity.toJson), ("edge_cases", a.edgeCases.toJson),
    ("security", a.security.toJson), ("total_score", .int a.totalScore.val),
    ("critical_issues", .array (a.criticalIssues.map Issue.toJson)),
    ("error", .ofOption .string a.error)]

def decode : Decoder Analysis :=
  .model "AnalysisResult" fun fs =>
    Analysis.mk <$> Decoder.withDefault "filename" .text defaultFilename fs <*>
      Decoder.required "readability" CategoryScore.decode fs <*>
      Decoder.required "complexity" CategoryScore.decode fs <*>
      Decoder.required "edge_cases" CategoryScore.decode fs <*>
      Decoder.required "security" CategoryScore.decode fs <*>
      Decoder.required "total_score" (.natUpTo maxTotal) fs <*>
      Decoder.withDefault "critical_issues" (.list Issue.decode) [] fs <*>
      Decoder.withDefault "error" (.optional .text) none fs

end Analysis

end ScriptReview
