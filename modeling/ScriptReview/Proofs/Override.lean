import ScriptReview.Proofs.Findings.Readings
import ScriptReview.Proofs.Reports

namespace ScriptReview

namespace Text

theorem hasPart_iff_infix {t part : Text} : t.hasPart part = true ↔ part <:+: t := by
  induction t with
  | nil => simp [hasPart]
  | cons s t ih => simp [hasPart, ih, List.infix_cons_iff]

theorem lowered_append (t u : Text) : (t ++ u).lowered = t.lowered ++ u.lowered := by
  simp [lowered]

end Text

namespace Readiness

def isAlarming (comment : Text) : Bool :=
  criticalWords.any fun w => comment.lowered.hasPart w

theorem isAlarming_append {t u : Text} (h : isAlarming t = true ∨ isAlarming u = true) :
    isAlarming (t ++ u) = true := by
  simp only [isAlarming, List.any_eq_true, Text.hasPart_iff_infix, Text.lowered_append] at h ⊢
  rcases h with ⟨w, hw, h⟩ | ⟨w, hw, h⟩
  · exact ⟨w, hw, h.trans (List.prefix_append _ _).isInfix⟩
  · exact ⟨w, hw, h.trans (List.suffix_append _ _).isInfix⟩

end Readiness

open Readiness ShellCommand

theorem DynamicCode.isAlarming_comment {tree : SourceTree} {n : Node} {i : Issue}
    (h : issue? tree n = some i) : isAlarming i.comment = true := by
  rcases issue?_cases h with ⟨name, rfl | rfl, rfl⟩ | rfl
  · exact isAlarming_append (.inl (isAlarming_append (.inl (by decide +kernel))))
  · exact isAlarming_append (.inl (isAlarming_append (.inl (by decide +kernel))))
  · exact isAlarming_append (.inl (isAlarming_append (.inl (by decide +kernel))))

theorem ShellCommand.isAlarming_comment {tree : SourceTree} {b : Bindings} {n : Node} {i : Issue}
    (h : issue? tree b n = some i) : isAlarming i.comment = true := by
  obtain ⟨method, rfl⟩ := issue?_cases h
  refine isAlarming_append (.inl (isAlarming_append (.inl (isAlarming_append (.inl ?_)))))
  exact isAlarming_append (.inl (by decide +kernel))

/-- Every critical issue of a tree says so in words. -/
theorem Engine.isAlarming_of_isCritical {tree : SourceTree} {i : Issue} (h : i ∈ security tree)
    (hi : i.isCritical = true) : isAlarming i.comment = true := by
  have hmem := List.mem_filter.mpr ⟨h, hi⟩
  rw [filter_isCritical_security, List.mem_append] at hmem
  rcases hmem with hmem | hmem
  · obtain ⟨n, -, hn⟩ := exists_of_mem_filterMap_walk hmem
    exact DynamicCode.isAlarming_comment hn
  · obtain ⟨n, -, hn⟩ := exists_of_mem_filterMap_walk hmem
    exact ShellCommand.isAlarming_comment hn

namespace Analysis

structure IsAlarming (a : Analysis) : Prop where
  critical : ∃ i ∈ a.criticalIssues, i.isCritical = true
  comment : ∃ c ∈ a.security.comments, isAlarming c = true

theorem IsAlarming.hasCriticalDeductions {a : Analysis} (h : a.IsAlarming) (mode : Text) :
    hasCriticalDeductions a mode = true := by
  rw [Readiness.hasCriticalDeductions]
  split
  · exact List.any_eq_true.mpr h.comment
  · exact List.any_eq_true.mpr h.critical

/-- The critical issues of an analysis are some exactly in case of danger, and alarming then. -/
structure Flags (a : Analysis) (danger : Prop) : Prop where
  critical_iff : a.criticalIssues ≠ [] ↔ danger
  alarming : danger → a.IsAlarming

theorem IsAlarming.decision_ne_ready {a : Analysis} (h : a.IsAlarming) (mode : Text) :
    (Readiness.ofAnalysis a mode).decision ≠ .ready := by
  have hcritical := h.hasCriticalDeductions mode
  unfold Readiness.ofAnalysis
  dsimp only
  rw [hcritical]
  split
  · simp
  · split <;> simp

end Analysis

theorem Readiness.hasCriticalDeductions_ofAnalysis (a : Analysis) (mode : Text) :
    (Readiness.ofAnalysis a mode).details.hasCriticalDeductions =
      Readiness.hasCriticalDeductions a mode := by
  unfold Readiness.ofAnalysis
  dsimp only
  split_ifs <;> rfl

structure HoldsBack (verdict : VerdictReport) (readiness : Readiness) (danger : Prop) : Prop where
  overridden_iff : verdict.details.wasOverridden = true ↔ danger
  verdict_eq : danger → verdict.verdict = .blockMerge
  decision_ne : danger → readiness.decision ≠ .ready
  critical_eq : danger → readiness.details.hasCriticalDeductions = true

theorem Analysis.Flags.holdsBack {a : Analysis} {danger : Prop} (h : a.Flags danger) (score : Int)
    (scores : Option Analysis) (filename mode : Text) :
    HoldsBack (.ofScore score a.criticalIssues scores filename) (.ofAnalysis a mode) danger where
  overridden_iff := by
    rw [← h.critical_iff]
    cases a.criticalIssues with
    | nil => simp [VerdictReport.ofScore]
    | cons i critical => simp [VerdictReport.ofScore]
  verdict_eq hd := by simp [VerdictReport.ofScore, h.critical_iff.mpr hd]
  decision_ne hd := (h.alarming hd).decision_ne_ready mode
  critical_eq hd := by
    rw [hasCriticalDeductions_ofAnalysis]
    exact (h.alarming hd).hasCriticalDeductions mode

/-- What a verdict and a decision make of danger of which a part shows: exactly the part that shows
is held back, and that is all of it if what shows covers the whole. -/
structure HoldsBackShown (verdict : VerdictReport) (readiness : Readiness)
    (shown danger covered : Prop) : Prop where
  holdsBack : HoldsBack verdict readiness shown
  danger_of_overridden : verdict.details.wasOverridden = true → danger
  holdsBack_of_covered : covered → HoldsBack verdict readiness danger

theorem HoldsBack.holdsBackShown {verdict : VerdictReport} {readiness : Readiness}
    {shown danger covered : Prop} (h : HoldsBack verdict readiness shown)
    (hsound : shown → danger) (hcomplete : covered → danger → shown) :
    HoldsBackShown verdict readiness shown danger covered where
  holdsBack := h
  danger_of_overridden hover := hsound (h.overridden_iff.mp hover)
  holdsBack_of_covered hcovered := by
    have hiff : shown ↔ danger := ⟨hsound, hcomplete hcovered⟩
    exact propext hiff ▸ h

namespace Analysis

/-- The scores of a tree flag its danger, whether or not its ids are distinct. -/
theorem flags_of_ofTree {filename : Text} {tree : SourceTree} {a : Analysis}
    (h : ofTree .standard filename tree = .ok a) : a.Flags (tree.IsDangerous (.plain tree)) := by
  have hcomments := security_comments_of_ofTree h
  obtain ⟨scores, -, rfl⟩ := eq_ofScores_of_ofTree h
  have hiff : (Engine.security tree).filter Issue.isCritical ≠ [] ↔
      tree.IsDangerous (.plain tree) := Engine.critical_ne_nil_iff
  refine ⟨hiff, fun hd => ?_⟩
  obtain ⟨i, hi⟩ := List.exists_mem_of_ne_nil _ (hiff.mpr hd)
  obtain ⟨hmem, hcritical⟩ := List.mem_filter.mp hi
  exact ⟨⟨i, hi, hcritical⟩, i.comment, hcomments ▸ List.mem_map_of_mem hmem,
    Engine.isAlarming_of_isCritical hmem hcritical⟩

theorem flags_failed (filename message : Text) : (failed filename message).Flags False :=
  ⟨by simp [failed, ofScores], False.elim⟩

end Analysis

def FileInput.tree (grammar : Grammar) (f : FileInput) : SourceTree :=
  .ofFile grammar f.filename f.content

def FileInput.IsDangerous (grammar : Grammar) (reading : SourceTree → Reading) (f : FileInput) :
    Prop :=
  (f.tree grammar).root.info.hasError = false ∧
    (f.tree grammar).IsDangerous (reading (f.tree grammar))

theorem Analysis.flags_of_ofSubmission {grammar : Grammar} {f : FileInput} {a : Analysis}
    (h : ofSubmission grammar f.filename (.string f.content) = .ok a) :
    a.Flags (f.IsDangerous grammar Reading.plain) := by
  obtain ⟨code, hcode, h⟩ := bind_eq_ok_iff.mp h
  obtain ⟨heq, -, hscalar⟩ := Submission.check_eq_ok_iff.mp (mapError_eq_ok_iff.mp hcode)
  cases heq
  rw [mapError_eq_ok_iff, ofCode] at h
  cases herror : (SourceTree.ofFile grammar f.filename f.content).root.info.hasError with
  | false =>
      rw [SourceTree.parseFile_of_clean hscalar herror, ok_bind] at h
      simpa [FileInput.IsDangerous, FileInput.tree, herror] using flags_of_ofTree h
  | true =>
      obtain ⟨message, -, hparse⟩ := SourceTree.parseFile_of_broken hscalar herror
      rw [hparse, ok_bind] at h
      cases h
      simpa [FileInput.IsDangerous, FileInput.tree, herror] using flags_failed f.filename message

namespace Batch

theorem attributed_ne_nil_iff {results : List Analysis} :
    attributed results ≠ [] ↔ ∃ a ∈ results, a.criticalIssues ≠ [] := by
  simp [attributed, List.flatMap_eq_nil_iff]

/-- Averaging keeps the critical issues and the security comments of every file. -/
theorem ofResults_eq_ok {results : List Analysis} {batch : Batch}
    (h : ofResults results = .ok batch) :
    batch.criticalIssues = batch.aggregated.criticalIssues ∧
      batch.aggregated.criticalIssues = attributed results ∧
      batch.aggregated.security.comments = results.flatMap fun a =>
        a.security.comments.map fun comment => "[" ++ a.filename ++ "] " ++ comment := by
  obtain ⟨scores, haverage, rfl⟩ := exists_scores_of_ofResults h
  refine ⟨rfl, rfl, ?_⟩
  obtain ⟨score, -, hsecurity⟩ := bind_eq_ok_iff.mp (haverage .security)
  split at hsecurity
  · exact congrArg CategoryScore.comments (Except.ok.inj hsecurity).symm
  · cases hsecurity

theorem isAlarming_aggregated {results : List Analysis} {batch : Batch}
    (h : ofResults results = .ok batch) {a : Analysis} (ha : a ∈ results)
    (halarm : a.IsAlarming) : batch.aggregated.IsAlarming := by
  obtain ⟨-, hcritical, hcomments⟩ := ofResults_eq_ok h
  obtain ⟨⟨i, hi, hisCritical⟩, c, hc, halarming⟩ := halarm
  refine ⟨⟨{ i with filename := some a.filename }, ?_, hisCritical⟩,
    "[" ++ a.filename ++ "] " ++ c, ?_, isAlarming_append (.inr halarming)⟩
  · rw [hcritical]
    exact List.mem_flatMap.mpr ⟨a, ha, List.mem_map_of_mem hi⟩
  · rw [hcomments]
    exact List.mem_flatMap.mpr ⟨a, ha, List.mem_map_of_mem hc⟩

theorem flags_ofFiles {grammar : Grammar} {files : List FileInput} {batch : Batch}
    (h : ofFiles grammar files = .ok batch) :
    batch.criticalIssues = batch.aggregated.criticalIssues ∧
      batch.aggregated.Flags (∃ f ∈ files, f.IsDangerous grammar Reading.plain) := by
  obtain ⟨results, hresults, h⟩ := exists_results_of_ofFiles h
  have hall := forall₂_of_mapM_eq_ok hresults
  obtain ⟨hbatch, hcritical, -⟩ := ofResults_eq_ok h
  refine ⟨hbatch, ?_, fun hd => ?_⟩
  · rw [hcritical, attributed_ne_nil_iff]
    refine (exists_mem_iff_of_forall₂ (fun f a hfa => ?_) hall).symm
    exact (Analysis.flags_of_ofSubmission hfa).critical_iff.symm
  · have halarm : ∃ a ∈ results, a.criticalIssues ≠ [] ∧ a.IsAlarming := by
      refine (exists_mem_iff_of_forall₂ (fun f a hfa => ?_) hall).mp hd
      have hflags := Analysis.flags_of_ofSubmission hfa
      exact ⟨fun hf => ⟨hflags.critical_iff.mpr hf, hflags.alarming hf⟩,
        fun ha => hflags.critical_iff.mp ha.1⟩
    obtain ⟨a, ha, -, halarming⟩ := halarm
    exact isAlarming_aggregated h ha halarming

end Batch

namespace Reviewer

variable {r : Reviewer} {elapsed : Binary64}

theorem reviewFiles_holdsBack {files : List FileInput} {report : BatchReport}
    (h : r.reviewFiles files elapsed = .ok report) :
    HoldsBack report.verdict report.decision
      (∃ f ∈ files, f.IsDangerous r.grammar Reading.plain) := by
  obtain ⟨batch, hbatch, h⟩ := bind_eq_ok_iff.mp h
  obtain ⟨hash, -, h⟩ := bind_eq_ok_iff.mp h
  cases h
  obtain ⟨hcritical, hflags⟩ := Batch.flags_ofFiles hbatch
  dsimp only
  rw [hcritical]
  exact hflags.holdsBack _ _ _ _

theorem review_holdsBack (hengine : r.engine = .standard) {filename code : Text} {source : Json}
    {report : Report} (hcheck : Submission.check source = .ok code)
    (hclean : (SourceTree.ofFile r.grammar filename code).root.info.hasError = false)
    (h : r.review filename source elapsed = .ok report) :
    HoldsBack report.verdict report.decision
      ((SourceTree.ofFile r.grammar filename code).IsDangerous
        (.plain (.ofFile r.grammar filename code))) := by
  obtain ⟨-, -, hscalar⟩ := Submission.check_eq_ok_iff.mp hcheck
  rw [review, hcheck, mapError_ok, ok_bind, mapError_eq_ok_iff, Reviewer.report,
    SourceTree.parseFile_of_clean hscalar hclean, ok_bind] at h
  simp only [reportTree, hengine] at h
  obtain ⟨analysis, hanalysis, h⟩ := bind_eq_ok_iff.mp h
  obtain ⟨metrics, -, h⟩ := bind_eq_ok_iff.mp h
  obtain ⟨cost, -, h⟩ := bind_eq_ok_iff.mp h
  obtain ⟨hash, -, h⟩ := bind_eq_ok_iff.mp h
  cases h
  exact (Analysis.flags_of_ofTree hanalysis).holdsBack _ _ _ _

end Reviewer

theorem FileInput.IsDangerous.of_covers {grammar : Grammar} {r s : SourceTree → Reading}
    {files : List FileInput}
    (h : ∀ f ∈ files, (r (f.tree grammar)).Covers (s (f.tree grammar)) (f.tree grammar))
    (hs : ∃ f ∈ files, f.IsDangerous grammar s) : ∃ f ∈ files, f.IsDangerous grammar r := by
  obtain ⟨f, hf, hclean, hdanger⟩ := hs
  exact ⟨f, hf, hclean, hdanger.of_covers (h f hf)⟩

/-- A verdict is overridden for code that the plain reading finds dangerous, and no mode finds such
code ready. That is all dangerous code where the plain reading covers the full one. -/
theorem Reviewer.review_overridden_iff_dangerous (grammar : Grammar) (mode filename : Text)
    (elapsed : Binary64) {source : Json} {code : Text} {tree : SourceTree}
    (hcheck : Submission.check source = .ok code) (htree : tree = .ofFile grammar filename code)
    (hclean : tree.root.info.hasError = false) :
    (tree.root.DistinctIds →
      ∃ report, Reviewer.review ⟨grammar, .standard, mode⟩ filename source elapsed = .ok report) ∧
    (∀ report, Reviewer.review ⟨grammar, .standard, mode⟩ filename source elapsed = .ok report →
      HoldsBackShown report.verdict report.decision (tree.IsDangerous (.plain tree))
        (tree.IsDangerous (.full tree)) ((Reading.plain tree).Covers (.full tree) tree)) ∧
    ∀ files report, Reviewer.reviewFiles ⟨grammar, .standard, mode⟩ files elapsed = .ok report →
      HoldsBackShown report.verdict report.decision
        (∃ f ∈ files, f.IsDangerous grammar Reading.plain)
        (∃ f ∈ files, f.IsDangerous grammar Reading.full)
        (∀ f ∈ files, (Reading.plain (f.tree grammar)).Covers (.full (f.tree grammar))
          (f.tree grammar)) := by
  subst htree
  refine ⟨fun hids => ?_, fun report h => ?_, fun files report h => ?_⟩
  · obtain ⟨report, h, -⟩ :=
      review_of_clean (r := ⟨grammar, .standard, mode⟩) rfl hcheck hids hclean
    exact ⟨report, h⟩
  · have hholds := review_holdsBack (r := ⟨grammar, .standard, mode⟩) rfl hcheck hclean h
    exact hholds.holdsBackShown (.of_covers (Reading.full_covers_plain _)) .of_covers
  · have hholds := reviewFiles_holdsBack (r := ⟨grammar, .standard, mode⟩) h
    exact hholds.holdsBackShown
      (FileInput.IsDangerous.of_covers fun f _ => Reading.full_covers_plain _)
      FileInput.IsDangerous.of_covers

def Text.lateImport : Text := "run(x);import\x7bexec as run\x7dfrom'child_process'"

def Node.lateImport : Node :=
  .inline 0 "program" none 0 45
    [.inline 1 "expression_statement" none 0 7
      [.inline 2 "call_expression" none 0 6
        [.inline 3 "identifier" (some "function") 0 3 [],
          .inline 4 "arguments" (some "arguments") 3 6 [.inline 5 "identifier" none 4 5 []]]],
    .inline 6 "import_statement" none 7 45
      [.inline 7 "import_clause" none 13 26
        [.inline 8 "named_imports" none 13 26
          [.inline 9 "import_specifier" none 14 25
            [.inline 10 "identifier" (some "name") 14 18 [],
              .inline 11 "identifier" (some "alias") 22 25 []]]],
        .inline 12 "string" (some "source") 30 45 []]]

def SourceTree.lateImport : SourceTree :=
  .ofFile (fun _ _ => .lateImport) "a.mjs" .lateImport

theorem ShellCommand.showsTies_lateImport : ShowsTies .lateImport where
  argument := by decide +kernel
  shorthand := by decide +kernel
  renamed := by decide +kernel
  named := by decide +kernel
  clause := by decide +kernel

theorem Reviewer.review_lateImport_overridden :
    Submission.check (.string .lateImport) = .ok .lateImport ∧
      SourceTree.lateImport.root.info.hasError = false ∧
      (Reading.plain .lateImport).Covers (.full .lateImport) .lateImport ∧
      SourceTree.lateImport.IsDangerous (.full .lateImport) ∧
      ∃ report, Reviewer.review ⟨fun _ _ => .lateImport, .standard, "comment"⟩ "a.mjs"
          (.string .lateImport) (.finite 1) = .ok report ∧
        report.verdict.details.wasOverridden = true ∧ report.verdict.verdict = .blockMerge ∧
        report.decision.decision ≠ .ready := by
  have hcheck : Submission.check (.string .lateImport) = .ok .lateImport := rfl
  have hshown : SourceTree.lateImport.IsDangerous (.plain .lateImport) :=
    Engine.critical_ne_nil_iff.mp (by decide +kernel)
  have htree : SourceTree.lateImport = .ofFile (fun _ _ => .lateImport) "a.mjs" .lateImport := rfl
  have hcovers := showsTies_lateImport.plain_covers_full
  have hdanger := hshown.of_covers (Reading.full_covers_plain _)
  obtain ⟨hexists, hholds, -⟩ :=
    review_overridden_iff_dangerous (fun _ _ => .lateImport) "comment" "a.mjs" (.finite 1) hcheck
      htree rfl
  obtain ⟨report, hreport⟩ := hexists (by decide +kernel)
  have h := (hholds report hreport).holdsBack_of_covered hcovers
  exact ⟨hcheck, rfl, hcovers, hdanger, report, hreport, h.overridden_iff.mpr hdanger,
    h.verdict_eq hdanger, h.decision_ne hdanger⟩

/-- The full reading finds the call of a module that is required with a comment before its name. -/
theorem SourceTree.isDangerous_hiddenModule : hiddenModule.IsDangerous (.full hiddenModule) := by
  have hcall : hiddenModule.root.Reaches .shellExec :=
    (Node.Reaches.refl.child (.tail _ (.head _))).child (.head _)
  have hbinding : hiddenModule.root.Reaches (.shellBinding Node.hiddenArguments) :=
    (Node.Reaches.refl.child (.head _)).child (.head _)
  have hrequires : ∃ value, (Node.shellBinding Node.hiddenArguments).child? "value" = some value ∧
      Requires hiddenModule value :=
    ⟨_, rfl, ⟨rfl, _, rfl, rfl, by decide +kernel⟩, _, rfl, rfl, by decide +kernel⟩
  obtain ⟨value, hvalue, hrequires⟩ := hrequires
  have hbinds : (Reading.full hiddenModule).Binds hiddenModule (.shellBinding Node.hiddenArguments)
      (.module "shell") := .whole value _ rfl hvalue hrequires rfl rfl
  exact ⟨_, hcall, .inr ⟨rfl, _, rfl, .member _ rfl (by decide +kernel) rfl
    (.bound _ rfl hbinding hbinds)⟩⟩

/-- Dangerous code whose verdict is not overridden: a comment hides the module that is required. -/
theorem Reviewer.review_hiddenModule_notOverridden :
    ¬ ∀ (grammar : Grammar) (filename code : Text) (report : Report),
      (SourceTree.ofFile grammar filename code).root.info.hasError = false →
      Reviewer.review ⟨grammar, .standard, "severity"⟩ filename (.string code) (.finite 0) =
        .ok report →
      (report.verdict.details.wasOverridden = true ↔
        (SourceTree.ofFile grammar filename code).IsDangerous
          (.full (.ofFile grammar filename code))) := by
  intro h
  have hcheck : Submission.check (.string .hiddenModule) = .ok .hiddenModule := rfl
  have hids : SourceTree.hiddenModule.root.DistinctIds := by decide +kernel
  obtain ⟨report, hreport, -⟩ := @review_of_clean
    ⟨fun _ _ => .shellCall Node.hiddenArguments, .standard, "severity"⟩ "a.js" .hiddenModule
    (.string .hiddenModule) (.finite 0) rfl hcheck hids rfl
  have hshown : ¬ SourceTree.hiddenModule.IsDangerous (.plain .hiddenModule) :=
    mt Engine.critical_ne_nil_iff.mpr (by decide +kernel)
  have hover := (h _ _ _ report rfl hreport).mpr SourceTree.isDangerous_hiddenModule
  exact hshown ((review_holdsBack rfl hcheck rfl hreport).overridden_iff.mp hover)

end ScriptReview
