import ScriptReview.Proofs.Engines
import ScriptReview.Proofs.MoreFindings
import ScriptReview.Proofs.Override

namespace ScriptReview

namespace Analysis

theorem isCoherent_of_ofCode {grammar : Grammar} {filename code : Text} {a : Analysis}
    (h : ofCode grammar .standard filename code = .ok a) : a.IsCoherent := by
  obtain ⟨parsed, -, h⟩ := bind_eq_ok_iff.mp h
  cases parsed with
  | error message =>
      cases h
      exact isCoherent_ofScores (List.forall_mem_nil _)
  | ok tree =>
      obtain ⟨scores, -, rfl⟩ := eq_ofScores_of_ofTree h
      exact isCoherent_ofScores fun i hi => (List.mem_filter.mp hi).2

theorem isCoherent_of_ofSubmission {grammar : Grammar} {filename : Text} {source : Json}
    {a : Analysis} (h : ofSubmission grammar filename source = .ok a) : a.IsCoherent := by
  obtain ⟨code, -, h⟩ := bind_eq_ok_iff.mp h
  exact isCoherent_of_ofCode (mapError_eq_ok_iff.mp h)

end Analysis

namespace Batch

theorem isCritical_of_mem_attributed {results : List Analysis} (h : ∀ a ∈ results, a.IsCoherent) :
    ∀ i ∈ attributed results, i.isCritical = true := by
  intro i hi
  obtain ⟨a, ha, hi⟩ := List.mem_flatMap.mp hi
  obtain ⟨j, hj, rfl⟩ := List.mem_map.mp hi
  exact (h a ha).critical j hj

theorem isCoherent_of_ofResults {results : List Analysis} {batch : Batch}
    (hresults : ∀ a ∈ results, a.IsCoherent) (h : ofResults results = .ok batch) :
    batch.aggregated.IsCoherent := by
  obtain ⟨scores, -, rfl⟩ := exists_scores_of_ofResults h
  exact Analysis.isCoherent_ofScores (isCritical_of_mem_attributed hresults)

theorem isCoherent_of_ofFiles {grammar : Grammar} {files : List FileInput} {batch : Batch}
    (h : ofFiles grammar files = .ok batch) : batch.aggregated.IsCoherent := by
  obtain ⟨results, hresults, h⟩ := exists_results_of_ofFiles h
  have hall := forall_mem_of_mapM hresults fun _ _ _ => Analysis.isCoherent_of_ofSubmission
  exact isCoherent_of_ofResults hall h

end Batch

theorem Verdict.ofScore_eq_approve_iff {s : Int} : ofScore s = .approve ↔ (approveMin : Int) ≤ s := by
  rw [ofScore]
  split_ifs with happrove
  · exact iff_of_true rfl happrove
  all_goals exact iff_of_false nofun happrove

theorem Verdict.ofScore_of_nitsMin_le {s : Int} (h : (nitsMin : Int) ≤ s) :
    ofScore s = .approve ∨ ofScore s = .approveWithNits := by
  rw [ofScore]
  split_ifs
  · exact .inl rfl
  · exact .inr rfl

namespace VerdictReport

variable {score : Int} {critical : List Issue} {scores : Option Analysis} {filename : Text}

theorem wasOverridden_ofScore :
    (ofScore score critical scores filename).details.wasOverridden = !critical.isEmpty := by
  rw [ofScore]
  split <;> simp_all

theorem verdict_eq_approve_iff :
    (ofScore score critical scores filename).verdict = .approve ↔
      critical = [] ∧ (Verdict.approveMin : Int) ≤ score := by
  rw [verdict_ofScore]
  cases critical with
  | nil => simp [Verdict.ofScore_eq_approve_iff]
  | cons i critical => simp

end VerdictReport

/-- With so many points in all there are enough of them in each category. -/
theorem Analysis.IsCoherent.rejectCategory_le {a : Analysis} (h : a.IsCoherent)
    (htotal : Verdict.approveMin ≤ a.totalScore.val) (c : Category) :
    Readiness.rejectCategory ≤ a.score c := by
  have hsum := h.total_eq
  have hreadability := a.score_le .readability
  have hcomplexity := a.score_le .complexity
  have hedgeCases := a.score_le .edgeCases
  have hsecurity := a.score_le .security
  simp only [Category.all, List.map_cons, List.map_nil, total_cons, total_nil] at hsum
  rw [Verdict.approveMin] at htotal
  rw [Category.maxScore] at hreadability hcomplexity hedgeCases hsecurity
  rw [Readiness.rejectCategory]
  cases c <;> omega

structure Concord (a : Analysis) (readiness : Readiness) (verdict : VerdictReport) : Prop where
  approve_iff : verdict.verdict = .approve ↔ readiness.decision = .ready ∧ 85 ≤ a.totalScore.val
  ready : readiness.decision = .ready →
    (verdict.verdict = .approve ∨ verdict.verdict = .approveWithNits) ∧ ∀ c, 10 ≤ a.score c
  held : verdict.verdict = .blockMerge ∨ verdict.verdict = .requestChanges →
    readiness.decision ≠ .ready
  critical_eq : readiness.details.hasCriticalDeductions = verdict.details.wasOverridden

/-- The first two parts give the third. -/
theorem Concord.of_ready {a : Analysis} {readiness : Readiness} {verdict : VerdictReport}
    (happrove : verdict.verdict = .approve ↔ readiness.decision = .ready ∧ 85 ≤ a.totalScore.val)
    (hready : readiness.decision = .ready →
      (verdict.verdict = .approve ∨ verdict.verdict = .approveWithNits) ∧ ∀ c, 10 ≤ a.score c)
    (hcritical : readiness.details.hasCriticalDeductions = verdict.details.wasOverridden) :
    Concord a readiness verdict := by
  refine ⟨happrove, hready, ?_, hcritical⟩
  intro hheld h
  rcases (hready h).1 with hv | hv
  · rw [hv] at hheld
    rcases hheld with hheld | hheld <;> cases hheld
  · rw [hv] at hheld
    rcases hheld with hheld | hheld <;> cases hheld

namespace Analysis

variable {a : Analysis}

theorem IsCoherent.concord (h : a.IsCoherent) {mode : Text} (hmode : mode ≠ Text.ofString "comment")
    (scores : Option Analysis) (filename : Text) :
    Concord a (.ofAnalysis a mode) (.ofScore a.totalScore.val a.criticalIssues scores filename) := by
  have hcritical := h.hasCriticalDeductions hmode
  have hclear : Readiness.hasCriticalDeductions a mode = false ↔ a.criticalIssues = [] := by
    rw [hcritical, Bool.not_eq_false', List.isEmpty_iff]
  apply Concord.of_ready
  · rw [VerdictReport.verdict_eq_approve_iff, Readiness.decision_eq_ready_iff, hclear]
    constructor
    · rintro ⟨hnone, happrove⟩
      have happrove : Verdict.approveMin ≤ a.totalScore.val := by exact_mod_cast happrove
      have hmax : Readiness.refactorMax < Verdict.approveMin := by decide
      exact ⟨⟨hmax.trans_le happrove, h.rejectCategory_le happrove, hnone⟩, happrove⟩
    · rintro ⟨⟨-, -, hnone⟩, happrove⟩
      exact ⟨hnone, by exact_mod_cast happrove⟩
  · rw [Readiness.decision_eq_ready_iff, hclear]
    rintro ⟨htotal, hcategories, hnone⟩
    refine ⟨?_, hcategories⟩
    have hmin : Verdict.nitsMin ≤ Readiness.refactorMax := by decide
    have hnits : (Verdict.nitsMin : Int) ≤ a.totalScore.val := by
      exact_mod_cast hmin.trans htotal.le
    rw [VerdictReport.verdict_ofScore, if_pos (List.isEmpty_iff.mpr hnone)]
    exact Verdict.ofScore_of_nitsMin_le hnits
  · rw [Readiness.hasCriticalDeductions_ofAnalysis, VerdictReport.wasOverridden_ofScore, hcritical]

/-- A source that cannot be parsed has no points and is not ready. -/
theorem concord_unparsable {grammar : Grammar} {filename : Text} {source : Json}
    (h : ofSubmission grammar filename source = .ok a) (herror : a.error ≠ none) (mode : Text)
    (scores : Option Analysis) (name : Text) :
    Concord a (.unparsable a mode) (.ofScore a.totalScore.val a.criticalIssues scores name) := by
  obtain ⟨code, -, h⟩ := bind_eq_ok_iff.mp h
  obtain ⟨parsed, -, h⟩ := bind_eq_ok_iff.mp (mapError_eq_ok_iff.mp h)
  cases parsed with
  | error message =>
      cases h
      have hzero : (failed filename message).totalScore.val = 0 := rfl
      refine Concord.of_ready (iff_of_false ?_ nofun) nofun rfl
      rw [VerdictReport.verdict_eq_approve_iff, hzero]
      exact fun happrove => absurd happrove.2 (by decide)
  | ok tree =>
      obtain ⟨scores, -, rfl⟩ := eq_ofScores_of_ofTree h
      exact absurd rfl herror

theorem ofSubmission_of_broken {grammar : Grammar} {f : FileInput} (h : f.IsAccepted)
    (hbroken : (SourceTree.ofFile grammar f.filename f.content).root.info.hasError = true) :
    ∃ a, ofSubmission grammar f.filename (.string f.content) = .ok a ∧ a.error ≠ none := by
  obtain ⟨message, hfailed⟩ := exists_ofSubmission_eq_failed h hbroken
  exact ⟨failed f.filename message, hfailed, Option.some_ne_none message⟩

end Analysis

/-- The decision that goes by severity and the verdict fit together for every source that is scored,
whether or not it can be parsed, and for all files that are scored together. -/
theorem Analysis.concord_scored (grammar : Grammar) (scores : Option Analysis) (name : Text) :
    (∀ filename source a, Analysis.ofSubmission grammar filename source = .ok a →
      Concord a (.ofAnalysis a "severity")
        (.ofScore a.totalScore.val a.criticalIssues scores name) ∧
      (a.error ≠ none → Concord a (.unparsable a "severity")
        (.ofScore a.totalScore.val a.criticalIssues scores name))) ∧
    ∀ files batch, Batch.ofFiles grammar files = .ok batch →
      Concord batch.aggregated (.ofAnalysis batch.aggregated "severity")
        (.ofScore batch.aggregated.totalScore.val batch.aggregated.criticalIssues scores name) := by
  have hmode : ("severity" : Text) ≠ Text.ofString "comment" := by decide
  refine ⟨fun filename source a h => ⟨?_, fun herror => ?_⟩, fun files batch h => ?_⟩
  · exact (isCoherent_of_ofSubmission h).concord hmode scores name
  · exact concord_unparsable h herror "severity" scores name
  · exact (Batch.isCoherent_of_ofFiles h).concord hmode scores name

def Grammar.callOrBroken : Grammar := fun _ code =>
  if code = Text.ofString "(" then
    .mk ⟨0, "program", none, true, false, false, true, 0, 1, 0, 0, 0⟩
      [.mk ⟨1, "ERROR", none, true, true, false, true, 0, 1, 0, 0, 0⟩ []]
  else .evalCall

theorem Analysis.concord_callOrBroken :
    ∃ a b batch,
      ofSubmission .callOrBroken "a.js" (.string "eval(x)") = .ok a ∧
      ofSubmission .callOrBroken "b.js" (.string "(") = .ok b ∧ b.error ≠ none ∧
      Batch.ofFiles .callOrBroken [⟨"a.js", "eval(x)"⟩, ⟨"b.js", "("⟩] = .ok batch ∧
      Concord a (.ofAnalysis a "severity") (.ofAnalysis a) ∧
      Concord b (.unparsable b "severity") (.ofAnalysis b) ∧
      Concord batch.aggregated (.ofAnalysis batch.aggregated "severity")
        (.ofAnalysis batch.aggregated) := by
  obtain ⟨a, ha⟩ : ∃ a, ofSubmission .callOrBroken "a.js" (.string "eval(x)") = .ok a :=
    exists_ofSubmission_eq_ok (f := ⟨"a.js", "eval(x)"⟩) rfl (by decide +kernel)
  obtain ⟨b, hb, herror⟩ :
      ∃ b, ofSubmission .callOrBroken "b.js" (.string "(") = .ok b ∧ b.error ≠ none :=
    ofSubmission_of_broken (f := ⟨"b.js", "("⟩) rfl rfl
  obtain ⟨batch, hbatch⟩ : ∃ batch,
      Batch.ofFiles .callOrBroken [⟨"a.js", "eval(x)"⟩, ⟨"b.js", "("⟩] = .ok batch := by
    rcases Batch.ofFiles_cases Grammar.callOrBroken
      (List.cons_ne_nil ⟨"a.js", "eval(x)"⟩ [⟨"b.js", "("⟩]) with ⟨-, batch, h, -⟩ | ⟨f, hf, e, he, -⟩
    · exact ⟨batch, h⟩
    · rcases List.mem_pair.mp hf with rfl | rfl
      · exact absurd (ha.symm.trans he) nofun
      · exact absurd (hb.symm.trans he) nofun
  refine ⟨a, b, batch, ha, hb, herror, hbatch, ?_, ?_, ?_⟩
  · exact ((concord_scored .callOrBroken (some a) a.filename).1 _ _ a ha).1
  · exact ((concord_scored .callOrBroken (some b) b.filename).1 _ _ b hb).2 herror
  · exact (concord_scored .callOrBroken (some batch.aggregated) batch.aggregated.filename).2 _ _ hbatch

end ScriptReview
