import ScriptReview.Proofs.Bundles
import ScriptReview.Proofs.Engines
import ScriptReview.Proofs.Findings.Encodable
import ScriptReview.Review

namespace ScriptReview

open Json (isScalar_record isScalar_array_map isScalar_texts isScalar_ofOption isScalar_dictionary)

theorem Issue.IsScalar.toJson {i : Issue} (h : i.IsScalar) : i.toJson.isScalar = true := by
  rw [Issue.toJson, isScalar_record, List.forall_mem_append]
  constructor
  · simp only [List.forall_mem_cons]
    refine ⟨h.rule, rfl, h.comment, ?_, ?_, List.forall_mem_nil _⟩
    · exact isScalar_ofOption.2 fun s _ => Text.isScalar_ofString s.name
    · exact isScalar_ofOption.2 fun _ _ => rfl
  · split
    · rename_i f hf
      exact List.forall_mem_singleton.2 (h.filename f hf)
    · exact List.forall_mem_nil _

/-- A source has the grammar's tree, or the message that describes where this tree breaks. -/
theorem SourceTree.parseFile_cases {grammar : Grammar} {filename code : Text}
    {parsed : Except Text SourceTree} (h : parseFile grammar filename code = .ok parsed) :
    (∃ bytes, parsed =
      .error (Breakage.describe bytes (grammar (.ofFilename filename) code))) ∨
    ∃ tree, parsed = .ok tree ∧ tree.root = grammar (.ofFilename filename) code := by
  rw [parseFile, parse] at h
  cases hoctets : code.utf8? with
  | none =>
      rw [hoctets] at h
      cases h
  | some octets =>
      rw [hoctets] at h
      dsimp only at h
      split_ifs at h
      · cases h
        exact .inl ⟨_, rfl⟩
      · cases h
        exact .inr ⟨_, rfl, rfl⟩

namespace Analysis

structure IsScalar (a : Analysis) : Prop where
  filename : a.filename.isScalar = true
  comments : ∀ c, ∀ t ∈ (a.category c).comments, t.isScalar = true
  critical : ∀ i ∈ a.criticalIssues, i.IsScalar
  error : ∀ t ∈ a.error, t.isScalar = true

theorem isScalar_categoryScore {s : CategoryScore} (h : ∀ t ∈ s.comments, t.isScalar = true) :
    s.toJson.isScalar = true := by
  rw [CategoryScore.toJson, isScalar_record]
  simp only [List.forall_mem_cons]
  exact ⟨rfl, isScalar_texts.2 h, List.forall_mem_nil _⟩

theorem IsScalar.toJson {a : Analysis} (h : a.IsScalar) : a.toJson.isScalar = true := by
  rw [Analysis.toJson, isScalar_record]
  simp only [List.forall_mem_cons]
  exact ⟨h.filename, isScalar_categoryScore (h.comments .readability),
    isScalar_categoryScore (h.comments .complexity), isScalar_categoryScore (h.comments .edgeCases),
    isScalar_categoryScore (h.comments .security), rfl,
    isScalar_array_map.2 fun i hi => (h.critical i hi).toJson, isScalar_ofOption.2 h.error,
    List.forall_mem_nil _⟩

theorem isScalar_scored {filename : Text} (h : filename.isScalar = true) (tree : SourceTree) :
    (scored filename tree).IsScalar where
  filename := h
  comments c t ht := by
    rw [comments_scored] at ht
    obtain ⟨i, hi, rfl⟩ := List.mem_map.1 ht
    exact (Engine.isScalar_of_mem_found hi).comment
  critical i hi := Engine.isScalar_security (List.mem_filter.1 hi).1
  error := nofun

theorem isScalar_failed {filename message : Text} (h : filename.isScalar = true)
    (hmessage : message.isScalar = true) : (failed filename message).IsScalar where
  filename := h
  comments c t ht := by
    rw [failed, category_ofScores, List.mem_singleton] at ht
    simp [ht, Text.isScalar_append, hmessage]
  critical := List.forall_mem_nil _
  error t ht := by
    cases ht
    exact hmessage

theorem isScalar_of_ofSubmission {grammar : Grammar} {filename : Text} {source : Json}
    {a : Analysis} (hids : ∀ language code, (grammar language code).DistinctIds)
    (hfilename : filename.isScalar = true) (h : ofSubmission grammar filename source = .ok a) :
    a.IsScalar := by
  obtain ⟨code, -, h⟩ := bind_eq_ok_iff.1 h
  rw [mapError_eq_ok_iff, ofCode] at h
  obtain ⟨parsed, hparsed, h⟩ := bind_eq_ok_iff.1 h
  rcases SourceTree.parseFile_cases hparsed with ⟨bytes, rfl⟩ | ⟨tree, rfl, hroot⟩
  · cases h
    exact isScalar_failed hfilename (Breakage.isScalar_describe _ _)
  · have hdistinct : tree.root.DistinctIds := hroot ▸ hids _ _
    dsimp only at h
    rw [ofTree_eq_ok filename hdistinct] at h
    cases h
    exact isScalar_scored hfilename tree

end Analysis

namespace Readiness

theorem isScalar_rejectReason (a : Analysis) : (rejectReason a).isScalar = true := by
  have hcited : ∀ t ∈ (failedCategories a).map (fun c =>
      Text.ofString c.name ++ ": " ++ Text.number (a.score c)), Text.isScalar t = true := by
    rw [List.forall_mem_map]
    intro c _
    simp [Text.isScalar_append]
  have hreasons := Text.isScalar_joinWith (Text.isScalar_ofString ", ") hcited
  simp only [rejectReason, Text.isScalar_append, Text.isScalar_ofString, Bool.and_true]
  apply Text.isScalar_joinWith (Text.isScalar_ofString ". ")
  rw [List.forall_mem_append]
  constructor
  · split_ifs
    · simp [Text.isScalar_append]
    · exact List.forall_mem_nil _
  · split_ifs
    · exact List.forall_mem_nil _
    · simpa [Text.isScalar_append] using hreasons

theorem isScalar_reason_ofAnalysis (a : Analysis) (mode : Text) :
    (ofAnalysis a mode).reason.isScalar = true := by
  unfold ofAnalysis
  dsimp only
  split_ifs
  · exact isScalar_rejectReason a
  · simp [refactorReason, Text.isScalar_append]
  · simp [criticalReason, Text.isScalar_append]
  · simp only [readyReason]
    split_ifs <;> simp [Text.isScalar_append]

theorem overrideMode_ofAnalysis (a : Analysis) (mode : Text) :
    (ofAnalysis a mode).details.overrideMode = mode ∧
      (ofAnalysis a mode).details.failedCategories =
        (failedCategories a).map fun c => Text.ofString c.name := by
  unfold ofAnalysis
  dsimp only
  split_ifs <;> exact ⟨rfl, rfl⟩

theorem isScalar_toJson {r : Readiness} (hreason : r.reason.isScalar = true)
    (hfailed : ∃ cs : List Category,
      r.details.failedCategories = cs.map fun c => Text.ofString c.name)
    (hmode : r.details.overrideMode.isScalar = true) : r.toJson.isScalar = true := by
  obtain ⟨cs, hcs⟩ := hfailed
  rw [toJson, isScalar_record]
  simp only [List.forall_mem_cons]
  refine ⟨Text.isScalar_ofString _, hreason, isScalar_record.2 ?_, List.forall_mem_nil _⟩
  simp only [List.forall_mem_cons]
  refine ⟨rfl, isScalar_dictionary (fun _ => rfl) _, ?_, rfl, hmode, List.forall_mem_nil _⟩
  rw [hcs, isScalar_texts, List.forall_mem_map]
  exact fun c _ => Text.isScalar_ofString c.name

theorem isScalar_ofAnalysis (a : Analysis) {mode : Text} (h : mode.isScalar = true) :
    (ofAnalysis a mode).toJson.isScalar = true := by
  obtain ⟨hmode, hfailed⟩ := overrideMode_ofAnalysis a mode
  exact isScalar_toJson (isScalar_reason_ofAnalysis a mode) ⟨_, hfailed⟩ (by rw [hmode, h])

theorem isScalar_unparsable (a : Analysis) {mode : Text} (h : mode.isScalar = true) :
    (unparsable a mode).toJson.isScalar = true :=
  isScalar_toJson (Text.isScalar_ofString _) ⟨_, rfl⟩ h

end Readiness

namespace VerdictReport

theorem isScalar_ruleLabel (rule : Text) : (ruleLabel rule).isScalar = true := by
  rw [ruleLabel]
  split_ifs <;> simp

theorem distinctFrom_sublist (seen ts : List Text) : (distinctFrom seen ts).Sublist ts := by
  induction ts generalizing seen with
  | nil => exact .slnil
  | cons t ts ih =>
      rw [distinctFrom]
      split_ifs
      · exact (ih seen).cons t
      · exact (ih (t :: seen)).cons_cons t

theorem isScalar_labels (issues : List Issue) : ∀ t ∈ labels issues, t.isScalar = true := by
  intro t ht
  obtain ⟨i, -, rfl⟩ := List.mem_map.1 ((distinctFrom_sublist _ _).subset ht)
  exact isScalar_ruleLabel i.ruleId

theorem isScalar_advice (v : Verdict) (a : Analysis) : (advice v a).isScalar = true := by
  cases v with
  | approve | blockMerge => rfl
  | approveWithNits => simp [advice, Text.isScalar_append]
  | requestChanges =>
      simp only [advice]
      split_ifs
      · rfl
      · have hfocus : ∀ t ∈ (Category.all.filter fun c => a.score c < significantCategory).map
            (fun c => Text.ofString c.focus), Text.isScalar t = true := by
          rw [List.forall_mem_map]
          exact fun c _ => Text.isScalar_ofString c.focus
        simp [Text.isScalar_append, Text.isScalar_joinWith (Text.isScalar_ofString ", ") hfocus]

theorem isScalar_explain (v : Verdict) (score : Int) (scores : Option Analysis) :
    (explain v score scores).isScalar = true := by
  simp only [explain, headline]
  split_ifs
  · simp [Text.isScalar_append]
  · cases scores with
    | none => simp [Text.isScalar_append]
    | some a => simp [Text.isScalar_append, isScalar_advice]

theorem isScalar_toJson {r : VerdictReport} (hexplanation : r.explanation.isScalar = true)
    (hreason : ∀ t ∈ r.overrideReason, t.isScalar = true)
    (hissues : ∀ s ∈ r.details.criticalIssues, s.file.isScalar = true ∧ s.issue.isScalar = true) :
    r.toJson.isScalar = true := by
  rw [toJson, isScalar_record]
  simp only [List.forall_mem_cons]
  refine ⟨Text.isScalar_ofString _, hexplanation, isScalar_ofOption.2 hreason, isScalar_record.2 ?_,
    List.forall_mem_nil _⟩
  simp only [List.forall_mem_cons]
  refine ⟨Text.isScalar_ofString _, rfl, rfl, isScalar_array_map.2 fun s hs => ?_,
    isScalar_dictionary (fun _ => rfl) _, List.forall_mem_nil _⟩
  rw [summaryJson, isScalar_record]
  simp only [List.forall_mem_cons]
  exact ⟨(hissues s hs).1, (hissues s hs).2, List.forall_mem_nil _⟩

theorem isScalar_ofScore (score : Int) {critical : List Issue} (scores : Option Analysis)
    {filename : Text} (hcritical : ∀ i ∈ critical, i.IsScalar)
    (hfilename : filename.isScalar = true) :
    (ofScore score critical scores filename).toJson.isScalar = true := by
  unfold ofScore
  dsimp only
  split_ifs
  · exact isScalar_toJson (isScalar_explain _ _ _) nofun (List.forall_mem_nil _)
  · apply isScalar_toJson
    · simp [headline, Text.isScalar_append]
    · rintro t ⟨⟩
      simp [Text.isScalar_append,
        Text.isScalar_joinWith (Text.isScalar_ofString ", ") (isScalar_labels critical)]
    · rw [List.forall_mem_map]
      intro i hi
      refine ⟨?_, (hcritical i hi).comment⟩
      cases hfile : i.filename with
      | none => exact hfilename
      | some f => exact (hcritical i hi).filename f hfile

end VerdictReport

theorem Badge.isScalar_ofVerdict (v : Verdict) (score : Int) :
    (ofVerdict v score).toJson.isScalar = true := by
  rw [toJson, isScalar_record]
  simp [ofVerdict, Json.isScalar, Text.isScalar_append]

namespace ReviewCost

theorem isScalar_toJson {c : ReviewCost} (hexplanation : c.explanation.isScalar = true)
    (hformula : c.formula.isScalar = true) : c.toJson.isScalar = true := by
  have hshare : ∀ s : CostShare, s.toJson.isScalar = true := by
    intro s
    rw [CostShare.toJson, isScalar_record]
    simp [Json.isScalar]
  rw [toJson, isScalar_record]
  simp only [List.forall_mem_cons]
  exact ⟨Text.isScalar_ofString _, rfl, isScalar_dictionary hshare _, hexplanation, hformula,
    List.forall_mem_nil _⟩

theorem isScalar_explain (level : CostLevel) (score : Fin 101) (top : CostFactor × CostShare) :
    (explain level score top).isScalar = true := by
  cases level <;> simp [explain, Text.isScalar_append]

theorem isScalar_ofMetrics {m : Metrics} {securityScore : Int} {c : ReviewCost}
    (h : ofMetrics m securityScore = .ok c) : c.toJson.isScalar = true := by
  obtain ⟨nesting, -, h⟩ := bind_eq_ok_iff.1 h
  obtain ⟨complexity, -, h⟩ := bind_eq_ok_iff.1 h
  obtain ⟨length, -, h⟩ := bind_eq_ok_iff.1 h
  obtain ⟨security, -, h⟩ := bind_eq_ok_iff.1 h
  cases h
  exact isScalar_toJson (isScalar_explain _ _ _) (Text.isScalar_ofString _)

theorem isScalar_unparsable : unparsable.toJson.isScalar = true :=
  isScalar_toJson (Text.isScalar_ofString _) (Text.isScalar_ofString _)

end ReviewCost

theorem Metrics.isScalar_toJson (m : Metrics) : m.toJson.isScalar = true := by
  rw [toJson, isScalar_record]
  simp [Json.isScalar]

namespace Reviewer

variable {r : Reviewer}

theorem isScalar_of_fingerprint {t hash : Text} (h : fingerprint t = .ok hash) :
    hash.isScalar = true := by
  rw [fingerprint, Fingerprint.ofText?] at h
  cases hoctets : t.utf8? with
  | none =>
      rw [hoctets] at h
      cases h
  | some octets =>
      rw [hoctets] at h
      cases h
      exact Text.isScalar_map_char _

/-- A report can be encoded if the name of the file and the mode can. -/
theorem isScalar_of_review (hengine : r.engine = .standard) (hmode : r.mode.isScalar = true)
    (hids : ∀ language code, (r.grammar language code).DistinctIds) {filename : Text}
    (hfilename : filename.isScalar = true) {source : Json} {elapsed : Binary64} {report : Report}
    (h : r.review filename source elapsed = .ok report) :
    report.analysis.IsScalar ∧ report.toJson.isScalar = true := by
  have hanalysis : report.analysis.IsScalar :=
    Analysis.isScalar_of_ofSubmission hids hfilename (ofSubmission_of_review hengine h)
  refine ⟨hanalysis, ?_⟩
  obtain ⟨code, -, h⟩ := bind_eq_ok_iff.1 h
  rw [mapError_eq_ok_iff] at h
  obtain ⟨parsed, -, h⟩ := bind_eq_ok_iff.1 h
  rw [Report.toJson, isScalar_record]
  simp only [List.forall_mem_cons]
  cases parsed with
  | error message =>
      obtain ⟨hash, hhash, h⟩ := bind_eq_ok_iff.1 h
      cases h
      exact ⟨hfilename, hanalysis.toJson, rfl, Readiness.isScalar_unparsable _ hmode,
        ReviewCost.isScalar_unparsable,
        VerdictReport.isScalar_ofScore _ _ hanalysis.critical hanalysis.filename,
        Badge.isScalar_ofVerdict _ _, isScalar_of_fingerprint hhash, rfl, List.forall_mem_nil _⟩
  | ok tree =>
      obtain ⟨analysis, -, h⟩ := bind_eq_ok_iff.1 h
      obtain ⟨metrics, -, h⟩ := bind_eq_ok_iff.1 h
      obtain ⟨cost, hcost, h⟩ := bind_eq_ok_iff.1 h
      obtain ⟨hash, hhash, h⟩ := bind_eq_ok_iff.1 h
      cases h
      exact ⟨hfilename, hanalysis.toJson, metrics.isScalar_toJson,
        Readiness.isScalar_ofAnalysis _ hmode, ReviewCost.isScalar_ofMetrics hcost,
        VerdictReport.isScalar_ofScore _ _ hanalysis.critical hanalysis.filename,
        Badge.isScalar_ofVerdict _ _, isScalar_of_fingerprint hhash, rfl, List.forall_mem_nil _⟩

end Reviewer

namespace Batch

theorem isScalar_of_average {results : List Analysis} (h : ∀ a ∈ results, a.IsScalar) {c : Category}
    {s : CategoryScore} (hs : average results c = .ok s) : ∀ t ∈ s.comments, t.isScalar = true := by
  obtain ⟨score, -, hs⟩ := bind_eq_ok_iff.1 hs
  split_ifs at hs
  cases hs
  intro t ht
  obtain ⟨a, ha, ht⟩ := List.mem_flatMap.1 ht
  obtain ⟨comment, hcomment, rfl⟩ := List.mem_map.1 ht
  simp [Text.isScalar_append, (h a ha).filename, (h a ha).comments c comment hcomment]

theorem isScalar_attributed {results : List Analysis} (h : ∀ a ∈ results, a.IsScalar) :
    ∀ i ∈ attributed results, i.IsScalar := by
  intro i hi
  obtain ⟨a, ha, hi⟩ := List.mem_flatMap.1 hi
  obtain ⟨i, hcritical, rfl⟩ := List.mem_map.1 hi
  have hissue := (h a ha).critical i hcritical
  refine ⟨hissue.rule, hissue.comment, ?_⟩
  rintro f ⟨⟩
  exact (h a ha).filename

theorem isScalar_of_ofResults {results : List Analysis} (h : ∀ a ∈ results, a.IsScalar)
    {batch : Batch} (hbatch : ofResults results = .ok batch) :
    batch.files = results ∧ batch.aggregated.IsScalar ∧ ∀ i ∈ batch.criticalIssues, i.IsScalar := by
  obtain ⟨scores, haverage, rfl⟩ := exists_scores_of_ofResults hbatch
  refine ⟨rfl, ⟨Text.isScalar_ofString _, fun c => ?_, isScalar_attributed h, nofun⟩,
    isScalar_attributed h⟩
  rw [Analysis.category_ofScores]
  exact isScalar_of_average h (haverage c)

end Batch

/-- The report on a change can be encoded if the names of its files and the mode can. -/
theorem Reviewer.isScalar_of_reviewFiles {r : Reviewer} (hmode : r.mode.isScalar = true)
    (hids : ∀ language code, (r.grammar language code).DistinctIds) {files : List FileInput}
    (hnames : ∀ f ∈ files, f.filename.isScalar = true) {elapsed : Binary64} {report : BatchReport}
    (h : r.reviewFiles files elapsed = .ok report) : report.toJson.isScalar = true := by
  obtain ⟨batch, hbatch, h⟩ := bind_eq_ok_iff.1 h
  obtain ⟨hash, hhash, h⟩ := bind_eq_ok_iff.1 h
  cases h
  rw [mapError_eq_ok_iff] at hhash
  obtain ⟨results, hresults, hbatch⟩ := Batch.exists_results_of_ofFiles hbatch
  have hscalar : ∀ a ∈ results, a.IsScalar := forall_mem_of_mapM hresults fun f hf a ha =>
    Analysis.isScalar_of_ofSubmission hids (hnames f hf) ha
  obtain ⟨hfiles, haggregated, hcritical⟩ := Batch.isScalar_of_ofResults hscalar hbatch
  rw [BatchReport.toJson, isScalar_record]
  simp only [List.forall_mem_cons]
  refine ⟨isScalar_array_map.2 fun a ha => ?_, haggregated.toJson,
    isScalar_array_map.2 fun i hi => (hcritical i hi).toJson, Readiness.isScalar_ofAnalysis _ hmode,
    VerdictReport.isScalar_ofScore _ _ hcritical (Text.isScalar_ofString _),
    Badge.isScalar_ofVerdict _ _, isScalar_of_fingerprint hhash, rfl, rfl, List.forall_mem_nil _⟩
  exact (hscalar a (hfiles ▸ ha)).toJson

namespace Fingerprint

theorem isScalar_remainder {files : List FileInput} (h : (remainder files).isScalar = true) :
    ∀ f ∈ files, f.filename.isScalar = true := by
  induction files with
  | nil => exact List.forall_mem_nil _
  | cons f files ih =>
      simp only [remainder, Text.isScalar_append, Text.isScalar_cons, Bool.and_eq_true] at h
      exact List.forall_mem_cons.2 ⟨h.2.1, ih h.2.2.2.2⟩

theorem isScalar_bundle {files : List FileInput} (h : (bundle files).isScalar = true) :
    ∀ f ∈ files, f.filename.isScalar = true := by
  cases files with
  | nil => exact List.forall_mem_nil _
  | cons f files =>
      simp only [bundle_cons, Text.isScalar_append, Text.isScalar_cons, Bool.and_eq_true] at h
      exact List.forall_mem_cons.2 ⟨h.2.1, isScalar_remainder h.2.2.2.2⟩

/-- A change has no fingerprint if the name of one of its files cannot be encoded. -/
theorem fingerprint_bundle_of_not_scalar {files : List FileInput} {f : FileInput} (hf : f ∈ files)
    (hname : f.filename.isScalar = false) :
    Reviewer.fingerprint (bundle files) = .error .unencodable := by
  rw [Reviewer.fingerprint, ofText?]
  cases hoctets : (bundle files).utf8? with
  | none => rfl
  | some octets =>
      obtain ⟨cs, hcs, -⟩ := Text.exists_chars_of_utf8? hoctets
      have hscalar := isScalar_bundle (hcs ▸ Text.isScalar_map_char cs) f hf
      cases hname.symm.trans hscalar

end Fingerprint

theorem Report.isScalar_filename {p : Report} (h : p.toJson.isScalar = true) :
    p.filename.isScalar = true := by
  rw [toJson, Json.isScalar_record, List.forall_mem_cons] at h
  exact h.1

theorem Reviewer.filename_of_review {r : Reviewer} {filename : Text} {source : Json}
    {elapsed : Binary64} {report : Report} (h : r.review filename source elapsed = .ok report) :
    report.filename = filename := by
  obtain ⟨code, -, h⟩ := bind_eq_ok_iff.1 h
  rw [mapError_eq_ok_iff] at h
  obtain ⟨parsed, -, h⟩ := bind_eq_ok_iff.1 h
  cases parsed with
  | error message =>
      obtain ⟨hash, -, h⟩ := bind_eq_ok_iff.1 h
      cases h
      rfl
  | ok tree =>
      obtain ⟨analysis, -, h⟩ := bind_eq_ok_iff.1 h
      obtain ⟨metrics, -, h⟩ := bind_eq_ok_iff.1 h
      obtain ⟨cost, -, h⟩ := bind_eq_ok_iff.1 h
      obtain ⟨hash, -, h⟩ := bind_eq_ok_iff.1 h
      cases h
      rfl

theorem Review.isScalar_toJson_iff {r : Review} :
    r.toJson.isScalar = true ↔ r.id.isScalar = true ∧ r.code.isScalar = true ∧
      r.scores.toJson.isScalar = true ∧ ∀ p ∈ r.report, p.toJson.isScalar = true := by
  have hcreated : r.createdAt.written.isScalar = true := Text.isScalar_map_char _
  rw [toJson, Json.isScalar_record]
  simp only [List.forall_mem_cons, Json.isScalar_ofOption]
  simp [Json.isScalar, hcreated]

end ScriptReview
