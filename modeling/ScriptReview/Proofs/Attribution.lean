import ScriptReview.Proofs.Concord
import ScriptReview.Proofs.Encodable

namespace ScriptReview

theorem flatMap_eq_of_forall₂ {α β γ : Type} {R : α → β → Prop} {f : α → List γ} {g : β → List γ}
    (hfg : ∀ x y, R x y → f x = g y) {xs : List α} {ys : List β} (h : List.Forall₂ R xs ys) :
    xs.flatMap f = ys.flatMap g := by
  induction h with
  | nil => rfl
  | cons hxy _ ih => rw [List.flatMap_cons, List.flatMap_cons, hfg _ _ hxy, ih]

structure ListsFirst (all listed : List Text) : Prop where
  nodup : listed.Nodup
  mem_iff : ∀ t, t ∈ listed ↔ t ∈ all
  inOrder : listed.Pairwise fun t u => all.idxOf t < all.idxOf u

namespace VerdictReport

theorem mem_distinctFrom {seen ts : List Text} {t : Text} :
    t ∈ distinctFrom seen ts ↔ t ∈ ts ∧ t ∉ seen := by
  induction ts generalizing seen with
  | nil => simp [distinctFrom]
  | cons u ts ih =>
      rw [distinctFrom]
      split_ifs with hu
      · have hseen : u ∈ seen := by simpa using hu
        rw [ih, List.mem_cons]
        constructor
        · exact fun h => ⟨.inr h.1, h.2⟩
        · rintro ⟨rfl | ht, hnot⟩
          · exact absurd hseen hnot
          · exact ⟨ht, hnot⟩
      · have hseen : u ∉ seen := by simpa using hu
        rw [List.mem_cons, ih, List.mem_cons]
        by_cases htu : t = u
        · simp [htu, hseen]
        · simp [htu]

theorem ne_of_mem_distinctFrom {seen ts : List Text} {t u : Text} (ht : t ∈ seen)
    (hu : u ∈ distinctFrom seen ts) : t ≠ u := by
  rintro rfl
  exact (mem_distinctFrom.mp hu).2 ht

theorem pairwise_distinctFrom (seen ts : List Text) :
    (distinctFrom seen ts).Pairwise fun t u => ts.idxOf t < ts.idxOf u := by
  induction ts generalizing seen with
  | nil => exact .nil
  | cons v ts ih =>
      -- whether `v` is listed or not, it has been seen before the rest is listed
      have hlater {seen' : List Text} (hv : v ∈ seen') :
          (distinctFrom seen' ts).Pairwise fun t u => (v :: ts).idxOf t < (v :: ts).idxOf u := by
        refine (ih seen').imp_of_mem fun ht hu hlt => ?_
        rw [List.idxOf_cons_ne _ (ne_of_mem_distinctFrom hv ht),
          List.idxOf_cons_ne _ (ne_of_mem_distinctFrom hv hu)]
        exact Nat.succ_lt_succ hlt
      rw [distinctFrom]
      split_ifs with hseen
      · exact hlater (by simpa using hseen)
      · refine .cons (fun u hu => ?_) (hlater List.mem_cons_self)
        rw [List.idxOf_cons_self,
          List.idxOf_cons_ne _ (ne_of_mem_distinctFrom List.mem_cons_self hu)]
        exact Nat.succ_pos _

theorem listsFirst_labels (issues : List Issue) :
    ListsFirst (issues.map fun i => ruleLabel i.ruleId) (labels issues) := by
  have horder := pairwise_distinctFrom [] (issues.map fun i => ruleLabel i.ruleId)
  refine ⟨horder.imp fun hlt heq => ?_, fun t => ?_, horder⟩
  · exact absurd (heq ▸ hlt) (lt_irrefl _)
  · simp [labels, mem_distinctFrom]

end VerdictReport

namespace FileInput

variable {grammar : Grammar} {f : FileInput}

def critical (grammar : Grammar) (f : FileInput) : List Issue :=
  if (SourceTree.ofFile grammar f.filename f.content).root.info.hasError then []
  else (Engine.security (.ofFile grammar f.filename f.content)).filter Issue.isCritical

def criticalIn (grammar : Grammar) (files : List FileInput) : List (FileInput × Issue) :=
  files.flatMap fun f => (f.critical grammar).map fun i => (f, i)

structure ListedBy (grammar : Grammar) (f : FileInput) (a : Analysis) : Prop where
  filename_eq : a.filename = f.filename
  critical_eq : a.criticalIssues = f.critical grammar
  broken : a.error ≠ none → a.criticalIssues = []

theorem listedBy_of_ofSubmission {a : Analysis}
    (h : Analysis.ofSubmission grammar f.filename (.string f.content) = .ok a) :
    f.ListedBy grammar a := by
  have haccepted := isAccepted_of_ofSubmission h
  cases herror : (SourceTree.ofFile grammar f.filename f.content).root.info.hasError with
  | true =>
      obtain ⟨message, hfailed⟩ := Analysis.exists_ofSubmission_eq_failed haccepted herror
      cases h.symm.trans hfailed
      refine ⟨rfl, ?_, fun _ => rfl⟩
      rw [critical, if_pos herror]
      rfl
  | false =>
      rw [Analysis.ofSubmission_eq_ofCode haccepted, mapError_eq_ok_iff, Analysis.ofCode,
        SourceTree.parseFile_of_clean haccepted.isScalar herror, ok_bind] at h
      obtain ⟨scores, -, rfl⟩ := Analysis.eq_ofScores_of_ofTree h
      refine ⟨rfl, ?_, fun hbroken => absurd rfl hbroken⟩
      rw [critical, herror, if_neg Bool.false_ne_true]
      rfl

end FileInput

namespace VerdictReport

variable {score : Int} {critical : List Issue} {scores : Option Analysis} {filename : Text}

theorem criticalIssues_ofScore :
    (ofScore score critical scores filename).details.criticalIssues =
      critical.map fun i => ⟨i.filename.getD filename, i.comment⟩ := by
  rw [ofScore]
  split_ifs with hempty
  · rw [List.isEmpty_iff.mp hempty]
    rfl
  · rfl

theorem criticalCount_ofScore :
    (ofScore score critical scores filename).details.criticalCount = critical.length := by
  rw [ofScore]
  split_ifs with hempty
  · rw [List.isEmpty_iff.mp hempty]
    rfl
  · rfl

theorem overrideReason_ofScore :
    (ofScore score critical scores filename).overrideReason =
      if critical = [] then none
      else
        some ("Critical security issues detected: " ++ Text.joinWith ", " (labels critical)) := by
  simp only [ofScore, List.isEmpty_iff]
  split_ifs <;> rfl

end VerdictReport

/-- The analyses and the report of a change list the critical issues of its files, each under the
name of its file. -/
structure BatchReport.Attributes (report : BatchReport) (grammar : Grammar)
    (files : List FileInput) : Prop where
  files_eq : List.Forall₂ (FileInput.ListedBy grammar) files report.batch.files
  batch_eq : report.batch.criticalIssues =
    (FileInput.criticalIn grammar files).map fun v => { v.2 with filename := some v.1.filename }
  aggregated_eq : report.batch.aggregated.criticalIssues = report.batch.criticalIssues
  verdict_eq : report.verdict.details.criticalIssues =
    (FileInput.criticalIn grammar files).map fun v => ⟨v.1.filename, v.2.comment⟩
  count_eq : report.verdict.details.criticalCount = (FileInput.criticalIn grammar files).length
  reason_none : FileInput.criticalIn grammar files = [] → report.verdict.overrideReason = none
  reason_some : FileInput.criticalIn grammar files ≠ [] →
    ∃ labels, ListsFirst
        ((FileInput.criticalIn grammar files).map fun v => VerdictReport.ruleLabel v.2.ruleId)
        labels ∧
      report.verdict.overrideReason =
        some ("Critical security issues detected: " ++ Text.joinWith ", " labels)

theorem Batch.attributed_eq_map {grammar : Grammar} {files : List FileInput}
    {results : List Analysis} (h : List.Forall₂ (FileInput.ListedBy grammar) files results) :
    attributed results = (FileInput.criticalIn grammar files).map fun v =>
      { v.2 with filename := some v.1.filename } := by
  rw [FileInput.criticalIn, List.map_flatMap, attributed]
  refine (flatMap_eq_of_forall₂ (fun f a hfa => ?_) h).symm
  rw [hfa.filename_eq, hfa.critical_eq, List.map_map]
  rfl

/-- No critical issue of a change is lost, listed twice or put under another file. -/
theorem Reviewer.reviewFiles_attributes (r : Reviewer) (files : List FileInput)
    (elapsed : Binary64) (report : BatchReport) (h : r.reviewFiles files elapsed = .ok report) :
    report.Attributes r.grammar files := by
  have hfiles := (forall₂_files_of_reviewFiles h).imp fun f a =>
    FileInput.listedBy_of_ofSubmission
  obtain ⟨batch, hbatch, h⟩ := bind_eq_ok_iff.mp h
  obtain ⟨hash, -, h⟩ := bind_eq_ok_iff.mp h
  cases h
  obtain ⟨results, -, hresults⟩ := Batch.exists_results_of_ofFiles hbatch
  obtain ⟨hsame, hattributed, -⟩ := Batch.ofResults_eq_ok hresults
  have hcritical : batch.criticalIssues = (FileInput.criticalIn r.grammar files).map fun v =>
      { v.2 with filename := some v.1.filename } := by
    rw [hsame, hattributed, ← Batch.files_of_ofResults hresults]
    exact Batch.attributed_eq_map hfiles
  refine ⟨hfiles, hcritical, hsame.symm, ?_, ?_, fun hnone => ?_, fun hsome => ?_⟩
  · rw [VerdictReport.criticalIssues_ofScore, hcritical, List.map_map]
    rfl
  · rw [VerdictReport.criticalCount_ofScore, hcritical, List.length_map]
  · rw [VerdictReport.overrideReason_ofScore, hcritical, hnone]
    rfl
  · have hfirst := VerdictReport.listsFirst_labels batch.criticalIssues
    refine ⟨VerdictReport.labels batch.criticalIssues, ?_, ?_⟩
    · rw [hcritical, List.map_map] at hfirst
      rwa [hcritical]
    · rw [VerdictReport.overrideReason_ofScore, if_neg]
      simpa [hcritical] using hsome

/-- Two files of one name with the same issue, and between them one that does not parse. -/
theorem Reviewer.attributes_callOrBroken :
    ∃ report,
      Reviewer.reviewFiles ⟨.callOrBroken, .standard, "severity"⟩
        [⟨"a.js", "eval(x)"⟩, ⟨"b.js", "("⟩, ⟨"a.js", "eval(x)"⟩] (.finite 1) = .ok report ∧
      report.batch.criticalIssues.map (·.filename) =
        List.replicate 2 (some (Text.ofString "a.js")) ∧
      report.verdict.details.criticalCount = 2 ∧
      report.verdict.overrideReason =
        some "Critical security issues detected: eval() usage" := by
  have hfiles : ∀ f ∈ [FileInput.mk "a.js" "eval(x)", ⟨"b.js", "("⟩, ⟨"a.js", "eval(x)"⟩],
      f.IsAccepted ∧ f.filename.isScalar = true ∧
        (SourceTree.ofFile .callOrBroken f.filename f.content).root.DistinctIds := by
    simp only [List.forall_mem_cons]
    exact ⟨⟨rfl, rfl, by decide +kernel⟩, ⟨rfl, rfl, by decide +kernel⟩,
      ⟨rfl, rfl, by decide +kernel⟩, List.forall_mem_nil _⟩
  obtain ⟨report, h⟩ := exists_reviewFiles_eq_ok ⟨.callOrBroken, .standard, "severity"⟩ (.finite 1)
    (List.cons_ne_nil _ _) (fun f hf => (hfiles f hf).1) (fun f hf => (hfiles f hf).2.1)
    fun f hf => (hfiles f hf).2.2
  have hattributes := reviewFiles_attributes _ _ _ report h
  obtain ⟨labels, hfirst, hreason⟩ := hattributes.reason_some (by decide +kernel)
  refine ⟨report, h, ?_, ?_, ?_⟩
  · rw [hattributes.batch_eq]
    decide +kernel
  · rw [hattributes.count_eq]
    decide +kernel
  · have hlabels : labels.Perm ["eval() usage"] := by
      refine (List.perm_ext_iff_of_nodup hfirst.nodup (List.nodup_singleton _)).mpr fun t => ?_
      have hsame : (FileInput.criticalIn .callOrBroken
          [⟨"a.js", "eval(x)"⟩, ⟨"b.js", "("⟩, ⟨"a.js", "eval(x)"⟩]).map
          (fun v => VerdictReport.ruleLabel v.2.ruleId) =
          List.replicate 2 (Text.ofString "eval() usage") := by decide +kernel
      rw [hfirst.mem_iff, hsame]
      simp
    rw [hreason, List.perm_singleton.mp hlabels]
    rfl

end ScriptReview
