import ScriptReview.Engine
import ScriptReview.Fingerprint
import ScriptReview.Report
import ScriptReview.Tree.Breakage

namespace ScriptReview

inductive ReviewError where
  | refused (why : Refusal)
  | internal (cause : Failure)

def SourceTree.parseFile (grammar : Grammar) (filename code : Text) :
    Except Failure (Except Text SourceTree) :=
  match SourceTree.parse grammar (Language.ofFilename filename) code with
  | .ok tree => .ok (.ok tree)
  | .error (.broken message) => .ok (.error message)
  | .error .unencodable => .error .unencodable

namespace Analysis

def ofCode (grammar : Grammar) (engine : Engine) (filename code : Text) :
    Except Failure Analysis := do
  match ← SourceTree.parseFile grammar filename code with
  | .error message => return failed filename message
  | .ok tree => ofTree engine filename tree

def ofSubmission (grammar : Grammar) (filename : Text) (source : Json) :
    Except ReviewError Analysis := do
  let code ← (Submission.check source).mapError .refused
  (ofCode grammar .standard filename code).mapError .internal

end Analysis

namespace Batch

def aggregatedName : Text := "aggregated"

def average (results : List Analysis) (c : Category) : Except Failure CategoryScore := do
  let sum := total (results.map fun a => a.score c)
  let mean := (Binary64.quotient sum results.length).roundHalfUp
  let score ← mean.mapError fun _ => Failure.unroundable
  let comments := results.flatMap fun a =>
    (a.category c).comments.map fun comment => "[" ++ a.filename ++ "] " ++ comment
  if h : 0 ≤ score ∧ score.toNat < Category.maxScore + 1 then return ⟨⟨score.toNat, h.2⟩, comments⟩
  else .error (.invalid [⟨if score < 0 then .below 0 else .above Category.maxScore,
    [.key "score"], .int score⟩])

def attributed (results : List Analysis) : List Issue :=
  results.flatMap fun a => a.criticalIssues.map fun i => { i with filename := some a.filename }

def ofResults (results : List Analysis) : Except Failure Batch := do
  let readability ← average results .readability
  let complexity ← average results .complexity
  let edgeCases ← average results .edgeCases
  let security ← average results .security
  let scores : Category → CategoryScore
    | .readability => readability
    | .complexity => complexity
    | .edgeCases => edgeCases
    | .security => security
  let critical := attributed results
  return ⟨results, .ofScores aggregatedName scores critical none, critical⟩

/-- The scores of files as one change. The first file that is refused refuses the change. -/
def ofFiles (grammar : Grammar) (files : List FileInput) : Except ReviewError Batch := do
  if files.isEmpty then .error (.refused .noFiles)
  else
    let results ← files.mapM fun f => Analysis.ofSubmission grammar f.filename (.string f.content)
    (ofResults results).mapError .internal

end Batch

/-- How sources are reviewed: what parses them, what looks for issues, and in which mode findings
hold a decision back. -/
structure Reviewer where
  grammar : Grammar
  engine : Engine
  mode : Text

namespace Reviewer

def fingerprint (t : Text) : Except Failure Text :=
  match Fingerprint.ofText? t with
  | some h => .ok h
  | none => .error .unencodable

def reportBroken (r : Reviewer) (filename code message : Text) (elapsed : Binary64) :
    Except Failure Report := do
  let analysis := Analysis.failed filename message
  let verdict := VerdictReport.ofAnalysis analysis
  return {
    filename, analysis, verdict, elapsed
    metrics := none
    decision := Readiness.unparsable analysis r.mode
    reviewCost := .unparsable
    badge := .ofVerdict verdict.verdict analysis.totalScore.val
    fingerprint := ← fingerprint code }

def reportTree (r : Reviewer) (filename code : Text) (tree : SourceTree) (elapsed : Binary64) :
    Except Failure Report := do
  let analysis ← Analysis.ofTree r.engine filename tree
  let metrics ← Metrics.ofTree tree
  let verdict := VerdictReport.ofAnalysis analysis
  return {
    filename, analysis, verdict, elapsed
    metrics := some metrics
    decision := Readiness.ofAnalysis analysis r.mode
    reviewCost := ← ReviewCost.ofMetrics metrics analysis.security.score.val
    badge := .ofVerdict verdict.verdict analysis.totalScore.val
    fingerprint := ← fingerprint code }

def report (r : Reviewer) (filename code : Text) (elapsed : Binary64) : Except Failure Report := do
  match ← SourceTree.parseFile r.grammar filename code with
  | .error message => r.reportBroken filename code message elapsed
  | .ok tree => r.reportTree filename code tree elapsed

/-- The review of one submission, with the milliseconds it took where they are measured. -/
def review (r : Reviewer) (filename : Text) (source : Json) (elapsed : Binary64 := .finite 0) :
    Except ReviewError Report := do
  let code ← (Submission.check source).mapError .refused
  (r.report filename code elapsed).mapError .internal

/-- The review of several files as one change. They are always scored by the standard engine. -/
def reviewFiles (r : Reviewer) (files : List FileInput) (elapsed : Binary64 := .finite 0) :
    Except ReviewError BatchReport := do
  let batch ← Batch.ofFiles r.grammar files
  let a := batch.aggregated
  let verdict := VerdictReport.ofScore a.totalScore.val batch.criticalIssues (some a) "unknown"
  let hash ← (fingerprint (Fingerprint.bundle files)).mapError .internal
  return {
    batch, verdict, elapsed
    decision := Readiness.ofAnalysis a r.mode
    badge := .ofVerdict verdict.verdict a.totalScore.val
    fingerprint := hash }

end Reviewer

/-- A review whose mode is given as submitted. A mode that is no text is an internal error, found
only once the submission has been accepted. -/
def Reviewer.withMode (grammar : Grammar) (engine : Engine) (mode : Json)
    (run : Reviewer → Except ReviewError α) : Except ReviewError α :=
  match Readiness.mode mode with
  | .valid m => run ⟨grammar, engine, m⟩
  | .faulty fs =>
    match run ⟨grammar, engine, Readiness.defaultMode⟩ with
    | .error (.refused why) => .error (.refused why)
    | _ => .error (.internal (.invalid fs))

end ScriptReview
