import ScriptReview.Proofs.Findings.Agreement
import ScriptReview.Proofs.Number.Halves
import ScriptReview.Proofs.Reports

namespace ScriptReview

namespace Readiness

/-- A decision sees the scores, their total and whether there are critical deductions. -/
theorem ofAnalysis_congr {a b : Analysis} {mode : Text} (hscore : ∀ c, a.score c = b.score c)
    (htotal : a.totalScore = b.totalScore)
    (hcritical : hasCriticalDeductions a mode = hasCriticalDeductions b mode) :
    ofAnalysis a mode = ofAnalysis b mode := by
  have hfun : a.score = b.score := funext hscore
  have hweakest : a.weakest = b.weakest := by rw [Analysis.weakest, hfun, Analysis.weakest]
  have hnames : a.scoresByName = b.scoresByName := by
    rw [Analysis.scoresByName, hfun, Analysis.scoresByName]
  have hfailed : failedCategories a = failedCategories b := by
    rw [failedCategories, hfun, failedCategories]
  simp only [ofAnalysis, rejectReason, refactorReason, criticalReason, readyReason, hfun, htotal,
    hcritical, hweakest, hnames, hfailed]

end Readiness

namespace VerdictReport

theorem explain_congr {a b : Analysis} (hscore : ∀ c, a.score c = b.score c) (v : Verdict)
    (score : Int) : explain v score (some a) = explain v score (some b) := by
  have hfun : a.score = b.score := funext hscore
  have hweakest : a.weakest = b.weakest := by rw [Analysis.weakest, hfun, Analysis.weakest]
  simp only [explain, advice, hfun, hweakest]

/-- Issues under the name of their file are listed as those without a name are. -/
theorem ofScore_attributed {a b : Analysis} (hscore : ∀ c, a.score c = b.score c)
    (hplain : ∀ i ∈ a.criticalIssues, i.filename = none) (score : Int) (other : Text) :
    ofScore score (Batch.attributed [a]) (some b) other =
      ofScore score a.criticalIssues (some a) a.filename := by
  have hattributed : Batch.attributed [a] =
      a.criticalIssues.map fun i => { i with filename := some a.filename } := by
    simp [Batch.attributed]
  have hlabels : labels (Batch.attributed [a]) = labels a.criticalIssues := by
    rw [labels, hattributed, List.map_map]
    rfl
  have hsummaries : ((Batch.attributed [a]).map fun i =>
      (⟨i.filename.getD other, i.comment⟩ : IssueSummary)) =
      a.criticalIssues.map fun i => ⟨i.filename.getD a.filename, i.comment⟩ := by
    rw [hattributed, List.map_map]
    apply List.map_congr_left
    intro i hi
    simp [hplain i hi]
  have hempty : (Batch.attributed [a]).isEmpty = a.criticalIssues.isEmpty := by
    rw [hattributed, List.isEmpty_map]
  have hlength : (Batch.attributed [a]).length = a.criticalIssues.length := by
    rw [hattributed, List.length_map]
  simp only [ofScore, hempty, hlabels, hsummaries, hlength, explain_congr hscore]

end VerdictReport

theorem Binary64.roundHalfUp_quotient_one {n : ℕ} (hn : n < 2 ^ 52) :
    (quotient n 1).roundHalfUp = .ok n := by
  have hself : (2 * n + 1) / (2 * 1) = n := by omega
  have hround : (quotient n (1 : ℕ)).roundHalfUp = .ok ((2 * n + 1) / (2 * 1) : ℕ) :=
    roundHalfUp_quotient one_pos (p := 0) le_rfl (by rw [hself]; omega)
  rwa [hself] at hround

namespace Batch

def alone (a : Analysis) : Batch where
  files := [a]
  aggregated := .ofScores aggregatedName
    (fun c => ⟨(a.category c).score,
      (a.category c).comments.map fun comment => "[" ++ a.filename ++ "] " ++ comment⟩)
    (attributed [a]) none
  criticalIssues := attributed [a]

theorem average_singleton (a : Analysis) (c : Category) :
    average [a] c = .ok ⟨(a.category c).score,
      (a.category c).comments.map fun comment => "[" ++ a.filename ++ "] " ++ comment⟩ := by
  have hlt : a.score c < Category.maxScore + 1 := (a.category c).score.isLt
  have hmean : (Binary64.quotient (total [a.score c] : Nat) ([a].length : Nat)).roundHalfUp =
      .ok (a.score c : Int) :=
    Binary64.roundHalfUp_quotient_one (hlt.trans (by decide))
  have hbound : 0 ≤ (a.score c : Int) ∧ (a.score c : Int).toNat < Category.maxScore + 1 := by omega
  simp only [average, List.map_cons, List.map_nil, hmean, mapError_ok, ok_bind]
  rw [dif_pos hbound]
  simp [Analysis.score]

theorem ofResults_singleton (a : Analysis) : ofResults [a] = .ok (alone a) := by
  simp only [ofResults, average_singleton, ok_bind, pure_eq_ok, alone]
  congr 3
  funext c
  cases c <;> rfl

theorem files_of_ofResults {results : List Analysis} {batch : Batch}
    (h : ofResults results = .ok batch) : batch.files = results := by
  obtain ⟨scores, -, rfl⟩ := exists_scores_of_ofResults h
  rfl

theorem forall₂_files_of_ofFiles {grammar : Grammar} {files : List FileInput} {batch : Batch}
    (h : ofFiles grammar files = .ok batch) :
    List.Forall₂ (fun f a => Analysis.ofSubmission grammar f.filename (.string f.content) = .ok a)
      files batch.files := by
  obtain ⟨results, hresults, h⟩ := exists_results_of_ofFiles h
  rw [files_of_ofResults h]
  exact forall₂_of_mapM_eq_ok hresults

theorem score_alone (a : Analysis) (c : Category) : (alone a).aggregated.score c = a.score c := by
  rw [Analysis.score, alone, Analysis.category_ofScores]
  rfl

end Batch

namespace Analysis

/-- Scores of one source: their total is their sum, and no issue names a file. -/
structure IsSingle (a : Analysis) : Prop where
  total_eq : a.totalScore = sum a.category
  filename_eq : ∀ i ∈ a.criticalIssues, i.filename = none

theorem sum_category_ofScores (filename : Text) (scores : Category → CategoryScore)
    (critical : List Issue) (error : Option Text) :
    sum (ofScores filename scores critical error).category = sum scores := by
  congr 1
  funext c
  exact category_ofScores filename scores critical error c

theorem isSingle_failed (filename message : Text) : (failed filename message).IsSingle :=
  ⟨(sum_category_ofScores _ _ _ _).symm, List.forall_mem_nil _⟩

theorem isSingle_of_ofTree {filename : Text} {tree : SourceTree} {a : Analysis}
    (h : ofTree .standard filename tree = .ok a) : a.IsSingle ∧ a.filename = filename := by
  obtain ⟨scores, -, rfl⟩ := eq_ofScores_of_ofTree h
  refine ⟨⟨(sum_category_ofScores _ _ _ _).symm, fun i hi => ?_⟩, rfl⟩
  exact (Engine.isProper_security (List.mem_filter.mp hi).1).filename_eq

theorem totalScore_alone {a : Analysis} (h : a.IsSingle) :
    (Batch.alone a).aggregated.totalScore = a.totalScore := by
  rw [h.total_eq]
  rfl

end Analysis

theorem Readiness.hasCriticalDeductions_alone (a : Analysis) {mode : Text}
    (hmode : mode ≠ Text.ofString "comment") :
    hasCriticalDeductions (Batch.alone a).aggregated mode = hasCriticalDeductions a mode := by
  have hattributed : (Batch.alone a).aggregated.criticalIssues =
      a.criticalIssues.map fun i => { i with filename := some a.filename } := by
    simp [Batch.alone, Batch.attributed, Analysis.ofScores]
  rw [hasCriticalDeductions, if_neg hmode, hasCriticalDeductions, if_neg hmode, hattributed,
    List.any_map]
  rfl

namespace Reviewer

variable {r : Reviewer} {filename code : Text} {elapsed elapsed' : Binary64}

theorem map_analysis_reportTree (hengine : r.engine = .standard) (hcode : code.isScalar = true)
    (tree : SourceTree) :
    (r.reportTree filename code tree elapsed).map Report.analysis =
      Analysis.ofTree .standard filename tree := by
  cases h : Analysis.ofTree .standard filename tree with
  | error e =>
      rw [reportTree, hengine, h]
      rfl
  | ok a =>
      obtain ⟨found, hfound, -⟩ := bind_eq_ok_iff.mp h
      obtain ⟨readability, -, hfound⟩ := bind_eq_ok_iff.mp hfound
      obtain ⟨complexity, hcomplexity, -⟩ := bind_eq_ok_iff.mp hfound
      obtain ⟨m, hm⟩ := Metrics.exists_ofTree_eq_ok hcomplexity
      obtain ⟨cost, -, hcost, -⟩ := ReviewCost.ofMetrics_eq_ok m a.security.score.val
      obtain ⟨hash, hhash⟩ := fingerprint_eq_ok hcode
      simp only [reportTree, hengine, h, hm, hcost, hhash, ok_bind, pure_eq_ok]
      rfl

theorem map_analysis_report (hengine : r.engine = .standard) (hcode : code.isScalar = true) :
    (r.report filename code elapsed).map Report.analysis =
      Analysis.ofCode r.grammar .standard filename code := by
  rw [report, Analysis.ofCode]
  cases SourceTree.parseFile r.grammar filename code with
  | error e => rfl
  | ok parsed =>
      cases parsed with
      | ok tree => exact map_analysis_reportTree hengine hcode tree
      | error message =>
          obtain ⟨hash, hhash⟩ := fingerprint_eq_ok hcode
          simp only [ok_bind, reportBroken, hhash]
          rfl

theorem map_analysis_review (hengine : r.engine = .standard) (source : Json) :
    (r.review filename source elapsed).map Report.analysis =
      Analysis.ofSubmission r.grammar filename source := by
  rw [review, Analysis.ofSubmission]
  cases hcheck : Submission.check source with
  | error why => rfl
  | ok code =>
      obtain ⟨-, -, hscalar⟩ := Submission.check_eq_ok_iff.mp hcheck
      have hreport : (r.report filename code elapsed).map Report.analysis = _ :=
        map_analysis_report hengine hscalar
      rw [mapError_ok, ok_bind, ok_bind, ← hreport]
      cases r.report filename code elapsed <;> rfl

/-- What a review says besides the scores follows from them. -/
theorem judgement_of_review {source : Json} {report : Report}
    (hcheck : Submission.check source = .ok code)
    (h : r.review filename source elapsed = .ok report) :
    report.verdict = .ofAnalysis report.analysis ∧
      report.badge = .ofVerdict report.verdict.verdict report.analysis.totalScore.val ∧
      ((∃ message, SourceTree.parseFile r.grammar filename code = .ok (.error message) ∧
          report.analysis = .failed filename message ∧ report.decision.decision = .notReady) ∨
        report.decision = .ofAnalysis report.analysis r.mode) := by
  rw [review, hcheck, mapError_ok, ok_bind, mapError_eq_ok_iff] at h
  obtain ⟨parsed, hparsed, h⟩ := bind_eq_ok_iff.mp h
  cases parsed with
  | error message =>
      obtain ⟨hash, -, h⟩ := bind_eq_ok_iff.mp h
      cases h
      exact ⟨rfl, rfl, .inl ⟨message, hparsed, rfl, rfl⟩⟩
  | ok tree =>
      obtain ⟨analysis, -, h⟩ := bind_eq_ok_iff.mp h
      obtain ⟨metrics, -, h⟩ := bind_eq_ok_iff.mp h
      obtain ⟨cost, -, h⟩ := bind_eq_ok_iff.mp h
      obtain ⟨hash, -, h⟩ := bind_eq_ok_iff.mp h
      cases h
      exact ⟨rfl, rfl, .inr rfl⟩

theorem forall₂_files_of_reviewFiles {files : List FileInput} {report : BatchReport}
    (h : r.reviewFiles files elapsed' = .ok report) :
    List.Forall₂ (fun f a => Analysis.ofSubmission r.grammar f.filename (.string f.content) = .ok a)
      files report.batch.files := by
  obtain ⟨batch, hbatch, h⟩ := bind_eq_ok_iff.mp h
  obtain ⟨hash, -, h⟩ := bind_eq_ok_iff.mp h
  cases h
  exact Batch.forall₂_files_of_ofFiles hbatch

theorem ofFiles_singleton (grammar : Grammar) (f : FileInput) :
    Batch.ofFiles grammar [f] =
      (Analysis.ofSubmission grammar f.filename (.string f.content)).map Batch.alone := by
  rw [Batch.ofFiles, mapM_singleton]
  cases Analysis.ofSubmission grammar f.filename (.string f.content) with
  | error e => rfl
  | ok a =>
      change (Batch.ofResults [a]).mapError _ = _
      rw [Batch.ofResults_singleton]
      rfl

theorem exists_fingerprint_bundle {files : List FileInput}
    (hnames : ∀ f ∈ files, f.filename.isScalar = true)
    (hcontents : ∀ f ∈ files, f.content.isScalar = true) :
    ∃ hash, fingerprint (Fingerprint.bundle files) = .ok hash := by
  apply fingerprint_eq_ok
  apply Text.isScalar_joinWith rfl
  intro t ht
  obtain ⟨f, hf, rfl⟩ := List.mem_map.mp ht
  simp only [Text.isScalar_append, hnames f hf, hcontents f hf, Bool.and_true]
  rfl

theorem isSingle_of_ofSubmission {grammar : Grammar} {source : Json} {a : Analysis}
    (h : Analysis.ofSubmission grammar filename source = .ok a) :
    a.IsSingle ∧ a.filename = filename := by
  obtain ⟨code, -, h⟩ := bind_eq_ok_iff.mp h
  rw [mapError_eq_ok_iff, Analysis.ofCode] at h
  obtain ⟨parsed, -, h⟩ := bind_eq_ok_iff.mp h
  cases parsed with
  | error message =>
      cases h
      exact ⟨Analysis.isSingle_failed filename message, rfl⟩
  | ok tree => exact Analysis.isSingle_of_ofTree h

def reportAlone (r : Reviewer) (a : Analysis) (elapsed : Binary64) (hash : Text) : BatchReport where
  batch := .alone a
  decision := .ofAnalysis (Batch.alone a).aggregated r.mode
  verdict := .ofAnalysis a
  badge := .ofVerdict (VerdictReport.ofAnalysis a).verdict a.totalScore.val
  fingerprint := hash
  elapsed := elapsed

theorem reviewFiles_singleton {f : FileInput} {a : Analysis}
    (h : Analysis.ofSubmission r.grammar f.filename (.string f.content) = .ok a) :
    r.reviewFiles [f] elapsed' =
      ((fingerprint (Fingerprint.bundle [f])).mapError .internal).map
        (r.reportAlone a elapsed') := by
  obtain ⟨hsingle, -⟩ := isSingle_of_ofSubmission h
  have hverdict : VerdictReport.ofScore a.totalScore.val (Batch.alone a).criticalIssues
      (some (Batch.alone a).aggregated) "unknown" = .ofAnalysis a :=
    VerdictReport.ofScore_attributed (fun c => (Batch.score_alone a c).symm) hsingle.filename_eq _ _
  have hofFiles : Batch.ofFiles r.grammar [f] = .ok (.alone a) := by
    rw [ofFiles_singleton, h]
    rfl
  simp only [reviewFiles, hofFiles, ok_bind, Analysis.totalScore_alone hsingle, hverdict]
  cases fingerprint (Fingerprint.bundle [f]) <;> rfl

theorem reviewFiles_of_review_error (hengine : r.engine = .standard) {f : FileInput}
    {e : ReviewError} (h : r.review f.filename (.string f.content) elapsed = .error e) :
    r.reviewFiles [f] elapsed' = .error e := by
  have hsubmission : (r.review f.filename (.string f.content) elapsed).map Report.analysis = _ :=
    map_analysis_review hengine (.string f.content)
  rw [h] at hsubmission
  rw [reviewFiles, ofFiles_singleton, ← hsubmission]
  rfl

end Reviewer

structure BatchReport.Matches (b : BatchReport) (report : Report) : Prop where
  verdict : b.verdict = report.verdict
  badge : b.badge = report.badge
  score : ∀ c, b.batch.aggregated.score c = report.analysis.score c
  total : b.batch.aggregated.totalScore = report.analysis.totalScore
  decision : b.decision.decision = report.decision.decision

namespace Reviewer

variable {r : Reviewer} {elapsed elapsed' : Binary64}

theorem ofSubmission_of_review (hengine : r.engine = .standard) {filename : Text} {source : Json}
    {report : Report} (h : r.review filename source elapsed = .ok report) :
    Analysis.ofSubmission r.grammar filename source = .ok report.analysis := by
  rw [← map_analysis_review hengine, h]
  rfl

theorem decision_alone_failed (filename message : Text) (mode : Text) :
    (Readiness.ofAnalysis (Batch.alone (.failed filename message)).aggregated mode).decision =
      .notReady := by
  have htotal : (Batch.alone (.failed filename message)).aggregated.totalScore = 0 :=
    Analysis.totalScore_alone (Analysis.isSingle_failed filename message)
  rw [Readiness.ofAnalysis, htotal]
  rfl

theorem matches_reportAlone (hengine : r.engine = .standard)
    (hmode : r.mode ≠ Text.ofString "comment") {f : FileInput} {report : Report}
    (h : r.review f.filename (.string f.content) elapsed = .ok report) (hash : Text) :
    (r.reportAlone report.analysis elapsed' hash).Matches report ∧
      ((SourceTree.ofFile r.grammar f.filename f.content).root.info.hasError = false →
        (r.reportAlone report.analysis elapsed' hash).decision = report.decision) := by
  have hsubmission := ofSubmission_of_review hengine h
  obtain ⟨hsingle, -⟩ := isSingle_of_ofSubmission hsubmission
  obtain ⟨code, hcode, -⟩ := bind_eq_ok_iff.mp hsubmission
  have hcheck := mapError_eq_ok_iff.mp hcode
  obtain ⟨heq, -, hscalar⟩ := Submission.check_eq_ok_iff.mp hcheck
  cases heq
  obtain ⟨hverdict, hbadge, hdecision⟩ := judgement_of_review hcheck h
  have hsame : Readiness.ofAnalysis (Batch.alone report.analysis).aggregated r.mode =
      .ofAnalysis report.analysis r.mode :=
    Readiness.ofAnalysis_congr (Batch.score_alone _) (Analysis.totalScore_alone hsingle)
      (Readiness.hasCriticalDeductions_alone _ hmode)
  refine ⟨⟨hverdict.symm, ?_, Batch.score_alone _, Analysis.totalScore_alone hsingle, ?_⟩, ?_⟩
  · rw [hbadge, hverdict]
    rfl
  · rcases hdecision with ⟨message, -, hfailed, hnot⟩ | hdecision
    · rw [hnot, hfailed]
      exact decision_alone_failed f.filename message r.mode
    · rw [hdecision]
      exact congrArg Readiness.decision hsame
  · intro hclean
    rcases hdecision with ⟨message, hparse, -⟩ | hdecision
    · cases hparse.symm.trans (SourceTree.parseFile_of_clean hscalar hclean)
    · rw [hdecision]
      exact hsame

/-- A change of one file is reviewed where the file is, if its name can be hashed. -/
theorem exists_reviewFiles_singleton (hengine : r.engine = .standard) {f : FileInput}
    {report : Report} (h : r.review f.filename (.string f.content) elapsed = .ok report)
    (hname : f.filename.isScalar = true) : ∃ b, r.reviewFiles [f] elapsed' = .ok b := by
  have hsubmission := ofSubmission_of_review hengine h
  obtain ⟨code, hcode, -⟩ := bind_eq_ok_iff.mp hsubmission
  obtain ⟨heq, -, hscalar⟩ := Submission.check_eq_ok_iff.mp (mapError_eq_ok_iff.mp hcode)
  cases heq
  obtain ⟨hash, hhash⟩ := exists_fingerprint_bundle (List.forall_mem_singleton.mpr hname)
    (List.forall_mem_singleton.mpr hscalar)
  rw [reviewFiles_singleton hsubmission, hhash]
  exact ⟨_, rfl⟩

theorem eq_reportAlone_of_reviewFiles (hengine : r.engine = .standard) {f : FileInput}
    {b : BatchReport} (h : r.reviewFiles [f] elapsed' = .ok b) :
    ∃ report hash, r.review f.filename (.string f.content) elapsed = .ok report ∧
      b = r.reportAlone report.analysis elapsed' hash := by
  cases hreport : r.review f.filename (.string f.content) elapsed with
  | error e => cases h.symm.trans (reviewFiles_of_review_error hengine hreport)
  | ok report =>
      rw [reviewFiles_singleton (ofSubmission_of_review hengine hreport)] at h
      cases hhash : fingerprint (Fingerprint.bundle [f]) with
      | error e =>
          rw [hhash] at h
          cases h
      | ok hash =>
          rw [hhash] at h
          cases h
          exact ⟨report, hash, rfl, rfl⟩

end Reviewer

/-- The analysis of a source is what its review reports, what is refused there is refused here for
the same reason, and the files of a change are analysed like sources of their own. A change of one
file gets the judgement of that file, for which its name has to be text that can be hashed. -/
theorem Reviewer.paths_agree (grammar : Grammar) (mode : Text) (elapsed elapsed' : Binary64) :
    let r : Reviewer := ⟨grammar, .standard, mode⟩
    (∀ filename source, (r.review filename source elapsed).map Report.analysis =
      Analysis.ofSubmission grammar filename source) ∧
    (∀ files report, r.reviewFiles files elapsed' = .ok report →
      List.Forall₂ (fun f a => Analysis.ofSubmission grammar f.filename (.string f.content) = .ok a)
        files report.batch.files) ∧
    (mode ≠ Text.ofString "comment" → ∀ f : FileInput,
      (∀ e, r.review f.filename (.string f.content) elapsed = .error e →
        r.reviewFiles [f] elapsed' = .error e) ∧
      (∀ report, r.review f.filename (.string f.content) elapsed = .ok report →
        f.filename.isScalar = true → ∃ b, r.reviewFiles [f] elapsed' = .ok b) ∧
      ∀ b, r.reviewFiles [f] elapsed' = .ok b →
        ∃ report, r.review f.filename (.string f.content) elapsed = .ok report ∧ b.Matches report ∧
          ((SourceTree.ofFile grammar f.filename f.content).root.info.hasError = false →
            b.decision = report.decision)) := by
  intro r
  refine ⟨fun filename source => map_analysis_review rfl source,
    fun files report => forall₂_files_of_reviewFiles, fun hmode f => ⟨?_, ?_, ?_⟩⟩
  · intro e he
    exact reviewFiles_of_review_error rfl he
  · intro report hreport hname
    exact exists_reviewFiles_singleton rfl hreport hname
  · intro b hb
    obtain ⟨report, hash, hreport, rfl⟩ := eq_reportAlone_of_reviewFiles rfl hb
    exact ⟨report, hreport, matches_reportAlone rfl hmode hreport hash⟩

theorem Reviewer.paths_agree_evalCall :
    ∃ report b, Reviewer.review ⟨fun _ _ => .evalCall, .standard, "severity"⟩ "a.js"
        (.string "eval(x)") (.finite 1) = .ok report ∧
      Reviewer.reviewFiles ⟨fun _ _ => .evalCall, .standard, "severity"⟩ [⟨"a.js", "eval(x)"⟩]
        (.finite 2) = .ok b ∧
      b.Matches report ∧ b.decision = report.decision := by
  obtain ⟨-, -, halone⟩ := paths_agree (fun _ _ => .evalCall) "severity" (.finite 1) (.finite 2)
  obtain ⟨-, hreturns, hmatches⟩ := halone (by decide) ⟨"a.js", "eval(x)"⟩
  have hcheck : Submission.check (.string "eval(x)") = .ok "eval(x)" := rfl
  have hids : Node.evalCall.DistinctIds := by decide +kernel
  obtain ⟨report, hreport, -⟩ := @review_of_clean ⟨fun _ _ => .evalCall, .standard, "severity"⟩
    "a.js" "eval(x)" (.string "eval(x)") (.finite 1) rfl hcheck hids rfl
  obtain ⟨b, hb⟩ := hreturns report hreport rfl
  obtain ⟨other, hother, hmatch, hdecision⟩ := hmatches b hb
  cases hreport.symm.trans hother
  exact ⟨report, b, hreport, hb, hmatch, hdecision rfl⟩

end ScriptReview
