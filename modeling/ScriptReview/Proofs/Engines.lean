import ScriptReview.Proofs.Batches

namespace ScriptReview

def FileInput.IsAccepted (f : FileInput) : Prop :=
  Submission.check (.string f.content) = .ok f.content

theorem FileInput.IsAccepted.isScalar {f : FileInput} (h : f.IsAccepted) :
    f.content.isScalar = true :=
  (Submission.check_eq_ok_iff.mp h).2.2

theorem FileInput.isAccepted_of_ofSubmission {grammar : Grammar} {f : FileInput} {a : Analysis}
    (ha : Analysis.ofSubmission grammar f.filename (.string f.content) = .ok a) : f.IsAccepted := by
  obtain ⟨code, hcode, -⟩ := bind_eq_ok_iff.mp ha
  have hcheck := mapError_eq_ok_iff.mp hcode
  cases (Submission.check_eq_ok_iff.mp hcheck).1
  exact hcheck

/-- The engine scores a file as the standard one does, or gives up where that one does. -/
def Engine.ScoresLike (engine : Engine) (grammar : Grammar) (f : FileInput) : Prop :=
  ∀ a, Analysis.ofCode grammar engine f.filename f.content = .ok a ↔
    Analysis.ofCode grammar .standard f.filename f.content = .ok a

def FileInput.IsMeasured (grammar : Grammar) (f : FileInput) : Prop :=
  ∀ tree, SourceTree.parseFile grammar f.filename f.content = .ok (.ok tree) →
    ∃ m, Metrics.ofTree tree = .ok m

theorem FileInput.isMeasured_of_ofCode {grammar : Grammar} {f : FileInput} {a : Analysis}
    (h : Analysis.ofCode grammar .standard f.filename f.content = .ok a) :
    f.IsMeasured grammar := by
  intro tree htree
  rw [Analysis.ofCode, htree, ok_bind] at h
  obtain ⟨found, hfound, -⟩ := bind_eq_ok_iff.mp h
  obtain ⟨readability, -, hfound⟩ := bind_eq_ok_iff.mp hfound
  obtain ⟨complexity, hcomplexity, -⟩ := bind_eq_ok_iff.mp hfound
  exact Metrics.exists_ofTree_eq_ok hcomplexity

namespace Analysis

variable {grammar : Grammar} {f : FileInput}

theorem ofSubmission_eq_ofCode (h : f.IsAccepted) :
    ofSubmission grammar f.filename (.string f.content) =
      (ofCode grammar .standard f.filename f.content).mapError .internal := by
  rw [ofSubmission, h]
  rfl

theorem internal_of_ofSubmission {e : ReviewError} (h : f.IsAccepted)
    (he : ofSubmission grammar f.filename (.string f.content) = .error e) :
    ∃ cause, e = .internal cause := by
  rw [ofSubmission_eq_ofCode h] at he
  cases hcode : ofCode grammar .standard f.filename f.content with
  | ok a => simp [hcode] at he
  | error cause =>
      rw [hcode] at he
      exact ⟨cause, (Except.error.inj he).symm⟩

theorem ofSubmission_of_clean (grammar : Grammar) (h : f.IsAccepted)
    (hids : (SourceTree.ofFile grammar f.filename f.content).root.DistinctIds)
    (hclean : (SourceTree.ofFile grammar f.filename f.content).root.info.hasError = false) :
    ofSubmission grammar f.filename (.string f.content) =
      .ok (scored f.filename (.ofFile grammar f.filename f.content)) := by
  rw [ofSubmission_eq_ofCode h, ofCode, SourceTree.parseFile_of_clean h.isScalar hclean, ok_bind]
  exact congrArg _ (ofTree_eq_ok f.filename hids)

theorem exists_ofSubmission_eq_failed (h : f.IsAccepted)
    (hbroken : (SourceTree.ofFile grammar f.filename f.content).root.info.hasError = true) :
    ∃ message, ofSubmission grammar f.filename (.string f.content) =
      .ok (failed f.filename message) := by
  obtain ⟨message, -, hparse⟩ := SourceTree.parseFile_of_broken h.isScalar hbroken
  rw [ofSubmission_eq_ofCode h, ofCode, hparse, ok_bind]
  exact ⟨message, rfl⟩

/-- The standard engine scores every accepted file whose nodes have ids of their own. -/
theorem exists_ofSubmission_eq_ok (h : f.IsAccepted)
    (hids : (SourceTree.ofFile grammar f.filename f.content).root.DistinctIds) :
    ∃ a, ofSubmission grammar f.filename (.string f.content) = .ok a := by
  cases herror : (SourceTree.ofFile grammar f.filename f.content).root.info.hasError with
  | false => exact ⟨_, ofSubmission_of_clean grammar h hids herror⟩
  | true =>
      obtain ⟨message, hfailed⟩ := exists_ofSubmission_eq_failed h herror
      exact ⟨_, hfailed⟩

end Analysis

theorem Batch.exists_ofFiles_eq_ok (grammar : Grammar) {files : List FileInput} (hne : files ≠ [])
    (hfiles : ∀ f ∈ files, f.IsAccepted)
    (hids : ∀ f ∈ files, (SourceTree.ofFile grammar f.filename f.content).root.DistinctIds) :
    ∃ batch, ofFiles grammar files = .ok batch := by
  rcases ofFiles_cases grammar hne with ⟨results, batch, hbatch, -⟩ | ⟨f, hf, e, he, -⟩
  · exact ⟨batch, hbatch⟩
  · obtain ⟨a, ha⟩ := Analysis.exists_ofSubmission_eq_ok (hfiles f hf) (hids f hf)
    cases he.symm.trans ha

namespace Reviewer

variable {r : Reviewer} {f : FileInput} {a : Analysis} {elapsed : Binary64}

def Scores (r : Reviewer) (f : FileInput) (a : Analysis) : Prop :=
  ∀ elapsed, ∃ report, r.review f.filename (.string f.content) elapsed = .ok report ∧
    report.analysis = a

def FailsOn (r : Reviewer) (f : FileInput) : Prop :=
  ∀ elapsed, ∃ cause, r.review f.filename (.string f.content) elapsed = .error (.internal cause)

/-- A change and its files are reviewed alike: the change fails exactly if a file does, and
otherwise lists the scores that the files have alone. -/
structure ReviewsAlike (r : Reviewer) (files : List FileInput) : Prop where
  fails_iff : ∀ elapsed, (∃ cause, r.reviewFiles files elapsed = .error (.internal cause)) ↔
    ∃ f ∈ files, r.FailsOn f
  files_eq : files ≠ [] → (¬ ∃ f ∈ files, r.FailsOn f) → ∀ elapsed,
    ∃ b, r.reviewFiles files elapsed = .ok b ∧ List.Forall₂ r.Scores files b.batch.files

theorem review_eq_report (h : f.IsAccepted) :
    r.review f.filename (.string f.content) elapsed =
      (r.report f.filename f.content elapsed).mapError .internal := by
  rw [review, h]
  rfl

theorem exists_reportTree_iff {filename code : Text} (hcode : code.isScalar = true)
    (tree : SourceTree) :
    (∃ report, r.reportTree filename code tree elapsed = .ok report ∧ report.analysis = a) ↔
      Analysis.ofTree r.engine filename tree = .ok a ∧ ∃ m, Metrics.ofTree tree = .ok m := by
  constructor
  · rintro ⟨report, h, rfl⟩
    obtain ⟨analysis, hanalysis, h⟩ := bind_eq_ok_iff.mp h
    obtain ⟨m, hm, h⟩ := bind_eq_ok_iff.mp h
    obtain ⟨cost, -, h⟩ := bind_eq_ok_iff.mp h
    obtain ⟨hash, -, h⟩ := bind_eq_ok_iff.mp h
    cases h
    exact ⟨hanalysis, m, hm⟩
  · rintro ⟨ha, m, hm⟩
    obtain ⟨cost, -, hcost, -⟩ := ReviewCost.ofMetrics_eq_ok m a.security.score.val
    obtain ⟨hash, hhash⟩ := fingerprint_eq_ok hcode
    simp only [reportTree, ha, hm, hcost, hhash, ok_bind, pure_eq_ok]
    exact ⟨_, rfl, rfl⟩

theorem exists_review_iff (h : f.IsAccepted) :
    (∃ report, r.review f.filename (.string f.content) elapsed = .ok report ∧
        report.analysis = a) ↔
      Analysis.ofCode r.grammar r.engine f.filename f.content = .ok a ∧ f.IsMeasured r.grammar := by
  simp only [review_eq_report h, mapError_eq_ok_iff, report, Analysis.ofCode, FileInput.IsMeasured]
  cases SourceTree.parseFile r.grammar f.filename f.content with
  | error e => simp
  | ok parsed =>
      cases parsed with
      | ok tree => simpa using exists_reportTree_iff h.isScalar tree
      | error message =>
          obtain ⟨hash, hhash⟩ := fingerprint_eq_ok h.isScalar
          simp [reportBroken, hhash]

theorem scores_iff (h : f.IsAccepted) :
    r.Scores f a ↔ Analysis.ofCode r.grammar r.engine f.filename f.content = .ok a ∧
      f.IsMeasured r.grammar :=
  ⟨fun hscores => (exists_review_iff h).mp (hscores (.finite 0)),
    fun ha _ => (exists_review_iff h).mpr ha⟩

theorem scores_iff_ofSubmission (h : f.IsAccepted) (hlike : r.engine.ScoresLike r.grammar f) :
    r.Scores f a ↔ Analysis.ofSubmission r.grammar f.filename (.string f.content) = .ok a := by
  rw [scores_iff h, Analysis.ofSubmission_eq_ofCode h, mapError_eq_ok_iff, hlike a]
  exact and_iff_left_of_imp FileInput.isMeasured_of_ofCode

theorem scoresLike_of_scores (h : f.IsAccepted) (hscores : r.Scores f a)
    (ha : Analysis.ofSubmission r.grammar f.filename (.string f.content) = .ok a) :
    r.engine.ScoresLike r.grammar f := by
  have hengine := ((scores_iff h).mp hscores).1
  rw [Analysis.ofSubmission_eq_ofCode h, mapError_eq_ok_iff] at ha
  intro b
  rw [hengine, ha]

theorem not_failsOn_of_scores (h : r.Scores f a) : ¬ r.FailsOn f := by
  intro hfails
  obtain ⟨cause, hcause⟩ := hfails (.finite 0)
  obtain ⟨report, hreport, -⟩ := h (.finite 0)
  cases hreport.symm.trans hcause

theorem failsOn_of_not_scores (h : f.IsAccepted) (hnot : ∀ a, ¬ r.Scores f a) : r.FailsOn f := by
  intro elapsed
  cases hreport : r.report f.filename f.content elapsed with
  | error cause => exact ⟨cause, by rw [review_eq_report h, hreport]; rfl⟩
  | ok report =>
      have hreview : r.review f.filename (.string f.content) elapsed = .ok report := by
        rw [review_eq_report h, hreport, mapError_ok]
      have hscores := (exists_review_iff h).mp ⟨report, hreview, rfl⟩
      exact absurd ((scores_iff h).mpr hscores) (hnot report.analysis)

variable {files : List FileInput}

/-- The files of a change are the standard engine's, whatever the reviewer's engine is: either all
of them are scored, or the change fails like one of them. -/
theorem reviewFiles_cases (r : Reviewer) (elapsed : Binary64) (hne : files ≠ [])
    (hfiles : ∀ f ∈ files, f.IsAccepted) (hnames : ∀ f ∈ files, f.filename.isScalar = true) :
    (∃ b, r.reviewFiles files elapsed = .ok b ∧ List.Forall₂
      (fun f a => Analysis.ofSubmission r.grammar f.filename (.string f.content) = .ok a)
      files b.batch.files) ∨
    ∃ f ∈ files, ∃ cause, r.reviewFiles files elapsed = .error (.internal cause) ∧
      Analysis.ofSubmission r.grammar f.filename (.string f.content) = .error (.internal cause) := by
  rcases Batch.ofFiles_cases r.grammar hne with
    ⟨results, batch, hbatch, hresults, hall⟩ | ⟨f, hf, e, he, hfailed⟩
  · obtain ⟨hash, hhash⟩ := exists_fingerprint_bundle hnames fun f hf => (hfiles f hf).isScalar
    left
    simp only [reviewFiles, hbatch, hhash, mapError_ok, ok_bind, pure_eq_ok]
    refine ⟨_, rfl, ?_⟩
    rwa [Batch.files_of_ofResults hresults]
  · obtain ⟨cause, rfl⟩ := Analysis.internal_of_ofSubmission (hfiles f hf) he
    exact .inr ⟨f, hf, cause, by rw [reviewFiles, hfailed]; rfl, he⟩

/-- Files that the standard engine scores are reviewed as a change. -/
theorem exists_reviewFiles_eq_ok (r : Reviewer) (elapsed : Binary64) (hne : files ≠ [])
    (hfiles : ∀ f ∈ files, f.IsAccepted) (hnames : ∀ f ∈ files, f.filename.isScalar = true)
    (hids : ∀ f ∈ files, (SourceTree.ofFile r.grammar f.filename f.content).root.DistinctIds) :
    ∃ b, r.reviewFiles files elapsed = .ok b := by
  rcases reviewFiles_cases r elapsed hne hfiles hnames with ⟨b, hb, -⟩ | ⟨f, hf, cause, -, he⟩
  · exact ⟨b, hb⟩
  · obtain ⟨a, ha⟩ := Analysis.exists_ofSubmission_eq_ok (hfiles f hf) (hids f hf)
    cases he.symm.trans ha

theorem reviewFiles_alike (elapsed : Binary64) (hne : files ≠ [])
    (hfiles : ∀ f ∈ files, f.IsAccepted) (hnames : ∀ f ∈ files, f.filename.isScalar = true)
    (hlike : ∀ f ∈ files, r.engine.ScoresLike r.grammar f) :
    (∃ b, r.reviewFiles files elapsed = .ok b ∧ List.Forall₂ r.Scores files b.batch.files ∧
      ¬ ∃ f ∈ files, r.FailsOn f) ∨
    ∃ cause, r.reviewFiles files elapsed = .error (.internal cause) ∧ ∃ f ∈ files, r.FailsOn f := by
  rcases reviewFiles_cases r elapsed hne hfiles hnames with
    ⟨b, hb, hall⟩ | ⟨f, hf, cause, hfailed, he⟩
  · have hmem := (List.forall₂_and_left (p := fun f => f.IsAccepted ∧
      r.engine.ScoresLike r.grammar f) _ _).mpr ⟨fun f hf => ⟨hfiles f hf, hlike f hf⟩, hall⟩
    have hscores : List.Forall₂ r.Scores files b.batch.files :=
      hmem.imp fun f a h => (scores_iff_ofSubmission h.1.1 h.1.2).mpr h.2
    refine .inl ⟨b, hb, hscores, ?_⟩
    rw [exists_mem_iff_of_forall₂ (q := fun _ => False) _ hscores]
    · simp
    · intro f a h
      exact iff_false_intro (not_failsOn_of_scores h)
  · refine .inr ⟨cause, hfailed, f, hf, failsOn_of_not_scores (hfiles f hf) fun a ha => ?_⟩
    cases he.symm.trans ((scores_iff_ofSubmission (hfiles f hf) (hlike f hf)).mp ha)

theorem reviewsAlike_of_scoresLike (hfiles : ∀ f ∈ files, f.IsAccepted)
    (hnames : ∀ f ∈ files, f.filename.isScalar = true)
    (hlike : ∀ f ∈ files, r.engine.ScoresLike r.grammar f) : r.ReviewsAlike files := by
  by_cases hne : files = []
  · subst hne
    have hrefused (elapsed : Binary64) : r.reviewFiles [] elapsed = .error (.refused .noFiles) :=
      rfl
    exact ⟨by simp [hrefused], fun h => absurd rfl h⟩
  refine ⟨fun elapsed => ?_, fun _ hnone elapsed => ?_⟩
  · rcases reviewFiles_alike elapsed hne hfiles hnames hlike with
      ⟨b, hb, -, hnone⟩ | ⟨cause, hcause, hfails⟩
    · refine ⟨fun ⟨cause, hcause⟩ => ?_, fun hfails => absurd hfails hnone⟩
      cases hb.symm.trans hcause
    · exact ⟨fun _ => hfails, fun _ => ⟨cause, hcause⟩⟩
  · rcases reviewFiles_alike elapsed hne hfiles hnames hlike with
      ⟨b, hb, hscores, -⟩ | ⟨cause, -, hfails⟩
    · exact ⟨b, hb, hscores⟩
    · exact absurd hfails hnone

theorem scoresLike_of_reviewsAlike (hfiles : ∀ f ∈ files, f.IsAccepted)
    (hnames : ∀ f ∈ files, f.filename.isScalar = true)
    (hids : ∀ f ∈ files, (SourceTree.ofFile r.grammar f.filename f.content).root.DistinctIds)
    (h : r.ReviewsAlike files) : ∀ f ∈ files, r.engine.ScoresLike r.grammar f := by
  intro f hf
  have hne : files ≠ [] := List.ne_nil_of_mem hf
  obtain ⟨b, hb⟩ := exists_reviewFiles_eq_ok r (.finite 0) hne hfiles hnames hids
  have hnone : ¬ ∃ f ∈ files, r.FailsOn f := by
    rw [← h.fails_iff (.finite 0)]
    rintro ⟨cause, hcause⟩
    cases hb.symm.trans hcause
  obtain ⟨other, hother, hscores⟩ := h.files_eq hne hnone (.finite 0)
  cases hb.symm.trans hother
  have hboth := (List.forall₂_and_left (p := FileInput.IsAccepted) _ _).mpr ⟨hfiles, hscores⟩
  have hlike := hboth.mp (fun f a h ha => (⟨scoresLike_of_scores h.1 h.2 ha, trivial⟩ :
    r.engine.ScoresLike r.grammar f ∧ True)) (forall₂_files_of_reviewFiles hb)
  exact ((List.forall₂_and_left _ _).mp hlike).1 f hf

end Reviewer

/-- A change and its files are reviewed alike if the engine scores each file like the standard one,
and, where ids tell the nodes of each tree apart, under no other engine. -/
theorem Reviewer.reviewsAlike_iff_scoresLike (grammar : Grammar) (engine : Engine) (mode : Text)
    {files : List FileInput} (hfiles : ∀ f ∈ files, f.IsAccepted)
    (hnames : ∀ f ∈ files, f.filename.isScalar = true) :
    ((∀ f ∈ files, engine.ScoresLike grammar f) →
      Reviewer.ReviewsAlike ⟨grammar, engine, mode⟩ files) ∧
    ((∀ f ∈ files, (SourceTree.ofFile grammar f.filename f.content).root.DistinctIds) →
      (Reviewer.ReviewsAlike ⟨grammar, engine, mode⟩ files ↔
        ∀ f ∈ files, engine.ScoresLike grammar f)) := by
  have hif : (∀ f ∈ files, engine.ScoresLike grammar f) →
      Reviewer.ReviewsAlike ⟨grammar, engine, mode⟩ files :=
    fun hlike => reviewsAlike_of_scoresLike hfiles hnames hlike
  refine ⟨hif, fun hids => ⟨fun h => ?_, hif⟩⟩
  exact scoresLike_of_reviewsAlike (r := ⟨grammar, engine, mode⟩) hfiles hnames hids h

def Engine.lenient : Engine := fun _ _ => .ok []

def Node.plainCall : Node :=
  .inline 0 "program" none 0 4
    [.inline 1 "expression_statement" none 0 4
      [.inline 2 "call_expression" none 0 4
        [.inline 3 "identifier" (some "function") 0 2 [],
          .inline 4 "arguments" (some "arguments") 2 4 []]]]

theorem Engine.scoresLike_lenient :
    Engine.lenient.ScoresLike (fun _ _ => .plainCall) ⟨"a.js", "go()"⟩ := by
  have hids : Node.plainCall.DistinctIds := by decide +kernel
  have hfound (c : Category) : standard c (.ofFile (fun _ _ => .plainCall) "a.js" "go()") =
      lenient c (.ofFile (fun _ _ => .plainCall) "a.js" "go()") := by
    rw [standard_eq_ok hids]
    apply congrArg Except.ok
    cases c <;> decide +kernel
  have hparse : SourceTree.parseFile (fun _ _ => .plainCall) "a.js" "go()" =
      .ok (.ok (.ofFile (fun _ _ => .plainCall) "a.js" "go()")) :=
    SourceTree.parseFile_of_clean rfl rfl
  intro a
  simp only [Analysis.ofCode, hparse, ok_bind, Analysis.ofTree, run, hfound]

theorem Reviewer.reviewsAlike_lenient :
    FileInput.IsAccepted ⟨"a.js", "go()"⟩ ∧
      Engine.lenient.ScoresLike (fun _ _ => .plainCall) ⟨"a.js", "go()"⟩ ∧
      Reviewer.ReviewsAlike ⟨fun _ _ => .plainCall, .lenient, "severity"⟩ [⟨"a.js", "go()"⟩] := by
  have haccepted : FileInput.IsAccepted ⟨"a.js", "go()"⟩ := rfl
  obtain ⟨halike, -⟩ := reviewsAlike_iff_scoresLike (fun _ _ => .plainCall) .lenient "severity"
    (List.forall_mem_singleton.mpr haccepted) (List.forall_mem_singleton.mpr rfl)
  exact ⟨haccepted, Engine.scoresLike_lenient,
    halike (List.forall_mem_singleton.mpr Engine.scoresLike_lenient)⟩

def Reviewer.failing : Reviewer :=
  ⟨fun _ _ => .plainCall, Engine.standard.failingIn .complexity, "severity"⟩

/-- An engine that gives up fails a source, and not the change that consists of this source. -/
theorem Reviewer.not_reviewsAlike_failing :
    ¬ ∀ (r : Reviewer) (files : List FileInput), (∀ f ∈ files, f.IsAccepted) →
      (∀ f ∈ files, f.filename.isScalar = true) → r.ReviewsAlike files := by
  intro h
  have haccepted : FileInput.IsAccepted ⟨"a.js", "go()"⟩ := rfl
  have hfiles := List.forall_mem_singleton.mpr haccepted
  have hnames : ∀ f ∈ [FileInput.mk "a.js" "go()"], f.filename.isScalar = true :=
    List.forall_mem_singleton.mpr rfl
  have hfails : failing.FailsOn ⟨"a.js", "go()"⟩ := by
    apply failsOn_of_not_scores haccepted
    intro a ha
    have hparse : SourceTree.parseFile failing.grammar "a.js" "go()" =
        .ok (.ok (.ofFile failing.grammar "a.js" "go()")) :=
      SourceTree.parseFile_of_clean rfl rfl
    have hcode := ((scores_iff haccepted).mp ha).1
    simp only [Analysis.ofCode, hparse, ok_bind] at hcode
    simp [Analysis.ofTree, Engine.run, Engine.failingIn, Engine.standard, failing] at hcode
  obtain ⟨cause, hcause⟩ :=
    ((h failing _ hfiles hnames).fails_iff (.finite 0)).mpr ⟨_, List.mem_singleton_self _, hfails⟩
  rcases reviewFiles_cases failing (.finite 0) (List.cons_ne_nil _ _) hfiles hnames with
    ⟨b, hb, -⟩ | ⟨f, hf, e, -, he⟩
  · cases hb.symm.trans hcause
  · have hids : Node.plainCall.DistinctIds := by decide +kernel
    cases List.mem_singleton.mp hf
    cases he.symm.trans (Analysis.ofSubmission_of_clean failing.grammar haccepted hids rfl)

end ScriptReview
