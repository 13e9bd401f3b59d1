import ScriptReview.Proofs.Cost
import ScriptReview.Proofs.Scores

namespace ScriptReview

namespace Report

structure Describes (report : Report) (tree : SourceTree) : Prop where
  error_eq : report.analysis.error = none
  metrics_eq : ∃ m, Metrics.ofTree tree = .ok m ∧ report.metrics = some m
  category_eq : ∀ c, ∃ issues, Engine.standard c tree = .ok issues ∧
    (report.analysis.score c : Int) =
      max 0 ((Category.maxScore : Int) - CategoryScore.penaltySum issues) ∧
    (report.analysis.category c).comments = issues.map (·.comment) ∧
    (report.analysis.score c = Category.maxScore ↔ (report.analysis.category c).comments = [])
  critical_eq : ∃ issues, Engine.standard .security tree = .ok issues ∧
    report.analysis.criticalIssues = issues.filter Issue.isCritical

structure Rejects (report : Report) : Prop where
  category_eq : ∃ message, message ≠ [] ∧ report.analysis.error = some message ∧
    ∀ c, report.analysis.category c = ⟨0, ["Unable to analyze: " ++ message]⟩
  critical_eq : report.analysis.criticalIssues = []
  metrics_eq : report.metrics = none
  decision_eq : report.decision.decision = .notReady
  cost_eq : report.reviewCost.level = .high ∧ report.reviewCost.score = 100 ∧
    report.reviewCost.factors = .empty
  verdict_eq : report.verdict.verdict = .blockMerge ∧
    report.verdict.details.wasOverridden = false

structure WellFormed (report : Report) (tree : SourceTree) : Prop where
  score_le : ∀ c, report.analysis.score c ≤ Category.maxScore
  total_eq : report.analysis.totalScore.val = total (Category.all.map report.analysis.score)
  describes : tree.root.info.hasError = false → report.Describes tree
  rejects : tree.root.info.hasError = true → report.Rejects

end Report

namespace Analysis

theorem score_le (a : Analysis) (c : Category) : a.score c ≤ Category.maxScore :=
  Nat.le_of_lt_succ (a.category c).score.isLt

theorem totalScore_ofScores (filename : Text) (scores : Category → CategoryScore)
    (critical : List Issue) (error : Option Text) :
    (ofScores filename scores critical error).totalScore.val =
      total (Category.all.map (ofScores filename scores critical error).score) := rfl

structure IsCoherent (a : Analysis) : Prop where
  total_eq : a.totalScore.val = total (Category.all.map a.score)
  critical : ∀ i ∈ a.criticalIssues, i.isCritical = true

theorem isCoherent_ofScores {filename : Text} {scores : Category → CategoryScore}
    {critical : List Issue} {error : Option Text} (h : ∀ i ∈ critical, i.isCritical = true) :
    (ofScores filename scores critical error).IsCoherent :=
  ⟨totalScore_ofScores filename scores critical error, h⟩

/-- In any mode but that of comments, every critical issue holds a source back. -/
theorem IsCoherent.hasCriticalDeductions {a : Analysis} {mode : Text} (h : a.IsCoherent)
    (hmode : mode ≠ Text.ofString "comment") :
    Readiness.hasCriticalDeductions a mode = !a.criticalIssues.isEmpty := by
  rw [Readiness.hasCriticalDeductions, if_neg hmode]
  cases hcritical : a.criticalIssues with
  | nil => rfl
  | cons i critical =>
      have hi : i.isCritical = true := h.critical i (hcritical ▸ List.mem_cons_self)
      simp [hi]

theorem score_scored (filename : Text) (tree : SourceTree) (c : Category) :
    (scored filename tree).score c =
      Category.maxScore - CategoryScore.penaltySum (Engine.found tree c) := by
  rw [score, scored, category_ofScores]
  rfl

theorem comments_scored (filename : Text) (tree : SourceTree) (c : Category) :
    ((scored filename tree).category c).comments = (Engine.found tree c).map (·.comment) := by
  rw [scored, category_ofScores]
  rfl

/-- Every issue costs a point at least, so only a category without issues is full. -/
theorem score_scored_eq_maxScore_iff (filename : Text) (tree : SourceTree) (c : Category) :
    (scored filename tree).score c = Category.maxScore ↔
      ((scored filename tree).category c).comments = [] := by
  have hzero : CategoryScore.penaltySum (Engine.found tree c) = 0 ↔ Engine.found tree c = [] :=
    CategoryScore.penaltySum_eq_zero_iff fun _ => Engine.isProper_of_mem_found
  rw [score_scored, comments_scored, List.map_eq_nil_iff, ← hzero, Category.maxScore]
  omega

end Analysis

namespace Reviewer

variable {r : Reviewer} {filename code : Text} {source : Json} {elapsed : Binary64}

theorem fingerprint_eq_ok (h : code.isScalar = true) : ∃ hash, fingerprint code = .ok hash := by
  obtain ⟨octets, hoctets⟩ := Text.exists_utf8_of_isScalar h
  simp [fingerprint, Fingerprint.ofText?, hoctets]

/-- A tree without errors is reported with the scores its findings leave. -/
theorem review_of_clean (hengine : r.engine = .standard)
    (hcheck : Submission.check source = .ok code)
    (hids : (SourceTree.ofFile r.grammar filename code).root.DistinctIds)
    (hclean : (SourceTree.ofFile r.grammar filename code).root.info.hasError = false) :
    ∃ report, r.review filename source elapsed = .ok report ∧
      report.analysis = .scored filename (.ofFile r.grammar filename code) ∧
      report.metrics = some (.measured (.ofFile r.grammar filename code)) ∧
      report.decision = .ofAnalysis report.analysis r.mode ∧
      report.verdict = .ofAnalysis report.analysis := by
  obtain ⟨-, -, hscalar⟩ := Submission.check_eq_ok_iff.mp hcheck
  obtain ⟨hash, hhash⟩ := fingerprint_eq_ok hscalar
  obtain ⟨cost, -, hcost, -⟩ := ReviewCost.ofMetrics_eq_ok
    (.measured (.ofFile r.grammar filename code))
    (Analysis.scored filename (.ofFile r.grammar filename code)).security.score.val
  simp [review, hcheck, report, SourceTree.parseFile_of_clean hscalar hclean, reportTree, hengine,
    Analysis.ofTree_eq_ok filename hids, Metrics.ofTree_eq_ok hids, hcost, hhash]

theorem review_of_broken (hcheck : Submission.check source = .ok code)
    (hbroken : (SourceTree.ofFile r.grammar filename code).root.info.hasError = true) :
    ∃ message, message ≠ [] ∧ ∃ report, r.review filename source elapsed = .ok report ∧
      report.analysis = .failed filename message ∧ report.metrics = none ∧
      report.decision = .unparsable report.analysis r.mode ∧ report.reviewCost = .unparsable ∧
      report.verdict = .ofAnalysis report.analysis := by
  obtain ⟨-, -, hscalar⟩ := Submission.check_eq_ok_iff.mp hcheck
  obtain ⟨hash, hhash⟩ := fingerprint_eq_ok hscalar
  obtain ⟨message, hne, hparse⟩ := SourceTree.parseFile_of_broken hscalar hbroken
  refine ⟨message, hne, ?_⟩
  simp [review, hcheck, report, hparse, reportBroken, hhash]

end Reviewer

namespace Report

theorem describes_of_eq_scored {report : Report} {filename : Text} {tree : SourceTree}
    (hids : tree.root.DistinctIds) (hanalysis : report.analysis = .scored filename tree)
    (hmetrics : report.metrics = some (.measured tree)) : report.Describes tree where
  error_eq := by rw [hanalysis]; rfl
  metrics_eq := ⟨_, Metrics.ofTree_eq_ok hids, hmetrics⟩
  category_eq c := by
    refine ⟨_, Engine.standard_eq_ok hids c, ?_, ?_, ?_⟩
    · rw [hanalysis, Analysis.score_scored]
      omega
    · rw [hanalysis, Analysis.comments_scored]
    · rw [hanalysis]
      exact Analysis.score_scored_eq_maxScore_iff filename tree c
  critical_eq := ⟨_, Engine.standard_eq_ok hids .security, by rw [hanalysis]; rfl⟩

end Report

/-- Every accepted source is reviewed, and its report is well formed. -/
theorem Reviewer.review_eq_ok_wellFormed (grammar : Grammar) (mode filename : Text)
    (elapsed : Binary64) {source : Json} {code : Text} (hcheck : Submission.check source = .ok code)
    (hids : (SourceTree.ofFile grammar filename code).root.DistinctIds) :
    ∃ report, Reviewer.review ⟨grammar, .standard, mode⟩ filename source elapsed = .ok report ∧
      report.WellFormed (.ofFile grammar filename code) := by
  cases herror : (SourceTree.ofFile grammar filename code).root.info.hasError with
  | false =>
      obtain ⟨report, hreview, hanalysis, hmetrics, -, -⟩ :=
        review_of_clean (r := ⟨grammar, .standard, mode⟩) rfl hcheck hids herror
      refine ⟨report, hreview, Analysis.score_le _, ?_, fun _ => ?_, fun h => ?_⟩
      · rw [hanalysis]
        exact Analysis.totalScore_ofScores _ _ _ _
      · exact Report.describes_of_eq_scored hids hanalysis hmetrics
      · simp [herror] at h
  | true =>
      obtain ⟨message, hne, report, hreview, hanalysis, hmetrics, hdecision, hcost, hverdict⟩ :=
        review_of_broken (r := ⟨grammar, .standard, mode⟩) hcheck herror
      refine ⟨report, hreview, Analysis.score_le _, ?_, fun h => ?_, fun _ => ?_⟩
      · rw [hanalysis]
        exact Analysis.totalScore_ofScores _ _ _ _
      · simp [herror] at h
      · refine ⟨⟨message, hne, by rw [hanalysis]; rfl, fun c => ?_⟩, by rw [hanalysis]; rfl,
          hmetrics, by rw [hdecision]; rfl, by rw [hcost]; exact ⟨rfl, rfl, rfl⟩, ?_⟩
        · rw [hanalysis]
          exact Analysis.category_ofScores _ _ _ _ c
        · rw [hverdict, hanalysis]
          exact ⟨rfl, rfl⟩

def Node.inline (id : Nat) (kind : String) (field : Option String) (start stop : Nat)
    (children : List Node) : Node :=
  .mk ⟨id, kind, field, true, false, false, false, start, stop, 0, start, 0⟩ children

def Node.evalCall : Node :=
  .inline 0 "program" none 0 7
    [.inline 1 "expression_statement" none 0 7
      [.inline 2 "call_expression" none 0 7
        [.inline 3 "identifier" (some "function") 0 4 [],
          .inline 4 "arguments" (some "arguments") 4 7 [.inline 5 "identifier" none 5 6 []]]]]

theorem Reviewer.review_evalCall_wellFormed :
    Submission.check (.string "eval(x)") = .ok "eval(x)" ∧ Node.evalCall.DistinctIds ∧
      ∃ report, Reviewer.review ⟨fun _ _ => .evalCall, .standard, "severity"⟩ "a.js"
          (.string "eval(x)") (.finite 0) = .ok report ∧
        report.WellFormed (.ofFile (fun _ _ => .evalCall) "a.js" "eval(x)") := by
  have hcheck : Submission.check (.string "eval(x)") = .ok "eval(x)" := rfl
  have hids : Node.evalCall.DistinctIds := by decide +kernel
  have h := review_eq_ok_wellFormed (fun _ _ => .evalCall) "severity" "a.js" (.finite 0) hcheck hids
  exact ⟨hcheck, hids, h⟩

def Node.shellBinding (arguments : List Node) : Node :=
  .inline 2 "variable_declarator" none 6 44
    [.inline 3 "identifier" (some "name") 6 11 [],
      .inline 4 "call_expression" (some "value") 14 44
        [.inline 5 "identifier" (some "function") 14 21 [],
          .inline 6 "arguments" (some "arguments") 21 44 arguments]]

def Node.shellExec : Node :=
  .inline 8 "call_expression" none 45 57
    [.inline 9 "member_expression" (some "function") 45 55
        [.inline 10 "identifier" (some "object") 45 50 [],
          .inline 11 "property_identifier" (some "property") 51 55 []],
      .inline 12 "arguments" (some "arguments") 55 57 []]

def Node.shellCall (arguments : List Node) : Node :=
  .inline 0 "program" none 0 58
    [.inline 1 "lexical_declaration" none 0 45 [.shellBinding arguments],
      .inline 7 "expression_statement" none 45 58 [.shellExec]]

def Node.hiddenArguments : List Node :=
  [.inline 13 "comment" none 22 27 [], .inline 14 "string" none 28 43 []]

def Text.hiddenModule : Text := "const shell = require(/*c*/ 'child_process');shell.exec();"

def SourceTree.hiddenModule : SourceTree :=
  .ofFile (fun _ _ => .shellCall Node.hiddenArguments) "a.js" .hiddenModule

end ScriptReview
