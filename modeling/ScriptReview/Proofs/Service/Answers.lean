import ScriptReview.Proofs.Encodable
import ScriptReview.Proofs.History
import ScriptReview.Service

namespace ScriptReview

theorem Stamp.isScalar_counted (n : Nat) : (Stamp.counted n).id.isScalar = true := by
  simp only [counted, Text.isScalar_map_char]

namespace Session

def onEmptyLog : Session := ⟨.holding [], 0⟩

/-- A review that was saved can be encoded. -/
theorem isScalar_of_save {s s' : Session} {stamps : Nat → Stamp} {code : Json} {scores : Analysis}
    {report : Option Report} {review : Review}
    (h : s.save stamps code scores report = (s', .ok review)) :
    review.toJson.isScalar = true ∧ review.report = report := by
  rw [save, Archive.save] at h
  cases htext : (Decoder.text code).under (.key "code") with
  | faulty fs =>
      rw [htext] at h
      cases h
  | valid text =>
      rw [htext] at h
      dsimp only at h
      rw [Archive.append] at h
      cases hopened : s.archive.opened with
      | error e =>
          rw [hopened] at h
          cases h
      | ok contents =>
          rw [hopened] at h
          dsimp only at h
          split_ifs at h with hscalar
          · cases h
            rw [Review.written, Json.isScalar_compact] at hscalar
            exact ⟨hscalar, rfl⟩
          · cases h

/-- A log that can be opened takes every review that can be encoded. -/
theorem save_eq_ok {s : Session} {contents : Text} (hopened : s.archive.opened = .ok contents)
    {stamps : Nat → Stamp} (hid : (stamps (s.issued + 1)).id.isScalar = true) {code : Text}
    (hcode : code.isScalar = true) {scores : Analysis} (hscores : scores.toJson.isScalar = true)
    {report : Report} (hreport : report.toJson.isScalar = true) :
    ∃ s' review, s.save stamps (.string code) scores (some report) = (s', .ok review) := by
  let stamp := stamps (s.issued + 1)
  let review : Review := ⟨stamp.id, code, scores, some report, stamp.createdAt⟩
  have happend : s.archive.save stamp (.string code) scores (some report) =
      s.archive.append review := rfl
  have hscalar : review.written.isScalar = true := by
    rw [Review.written, Json.isScalar_compact, Review.isScalar_toJson_iff]
    refine ⟨hid, hcode, hscores, ?_⟩
    rintro p ⟨⟩
    exact hreport
  rw [save, happend, Archive.append, hopened]
  simp only [hscalar, if_true]
  exact ⟨_, review, rfl⟩

end Session

namespace Service

/-- What the service is set up with: the standard engine, a grammar whose nodes have ids of their
own, and a mode and stamps that can be encoded. -/
structure Config.IsSound (config : Config) : Prop where
  engine : config.reviewer.engine = .standard
  distinct : ∀ language code, (config.reviewer.grammar language code).DistinctIds
  mode : config.reviewer.mode.isScalar = true
  stamps : ∀ n, (config.stamps n).id.isScalar = true

namespace Response

theorem status_sendable (r : Response) :
    r.sendable.status = if r.body.isScalar then r.status else 500 := by
  rw [sendable]
  split_ifs <;> rfl

theorem isScalar_error {status : Nat} {message : Text} :
    (error status message).body.isScalar = message.isScalar := by
  rw [Bool.eq_iff_iff, error, Json.isScalar_record]
  simp [Json.isScalar]

end Response

/-- A checked text is accepted, refused as it is, or too large. -/
theorem checkSize_cases (settings : Settings) (code label : Text) :
    (checkSize settings code label = .ok () ∧ Submission.checkText code = .ok code) ∨
    (∃ size, checkSize settings code label = .error (.tooLarge label size settings.maxCodeBytes) ∧
      Submission.checkText code = .ok code) ∨
    ∃ why, checkSize settings code label = .error why ∧ Submission.checkText code = .error why ∧
      (why = .blank ∨ why = .unencodable) := by
  rw [checkSize, Submission.checkText]
  split_ifs with hblank hscalar
  · exact .inr (.inr ⟨_, rfl, rfl, .inl rfl⟩)
  · exact .inr (.inr ⟨_, rfl, rfl, .inr rfl⟩)
  · rw [ok_bind]
    dsimp only
    split_ifs
    · exact .inr (.inl ⟨_, rfl, rfl⟩)
    · exact .inl ⟨rfl, rfl⟩

inductive Analyzed (config : Config) (s : Session) (r : AnalyzeRequest) : Session → Response → Prop
  | refused {why : Refusal} (hsize : checkSize config.settings r.code r.filename = .error why) :
      Analyzed config s r s (.ofRefusal why)
  | failed {e : ReviewError} (hsize : checkSize config.settings r.code r.filename = .ok ())
      (hreview : reviewOf config s r = .error e) :
      Analyzed config s r s (.ofReviewError e)
  | unparsed {report : Report} {message : Text}
      (hsize : checkSize config.settings r.code r.filename = .ok ())
      (hreview : reviewOf config s r = .ok report)
      (herror : report.analysis.error = some message) :
      Analyzed config s r s ⟨422, .record [("error", .string message),
        ("scores", report.analysis.toJson), ("report", report.toJson)]⟩
  | saved {report : Report} {s' : Session} {review : Review}
      (hsize : checkSize config.settings r.code r.filename = .ok ())
      (hreview : reviewOf config s r = .ok report)
      (herror : report.analysis.error = none)
      (hsave : s.save config.stamps (.string r.code) report.analysis (some report) =
        (s', .ok review)) : Analyzed config s r s' ⟨201, review.toJson⟩
  | unsaved {report : Report} {s' : Session} {e : ArchiveError}
      (hsize : checkSize config.settings r.code r.filename = .ok ())
      (hreview : reviewOf config s r = .ok report)
      (herror : report.analysis.error = none)
      (hsave : s.save config.stamps (.string r.code) report.analysis (some report) =
        (s', .error e)) : Analyzed config s r s' .unexpected

theorem analyzed_analyze (config : Config) (s : Session) (r : AnalyzeRequest) :
    Analyzed config s r (analyze config s r).1 (analyze config s r).2 := by
  rw [analyze]
  cases hsize : checkSize config.settings r.code r.filename with
  | error why => exact .refused hsize
  | ok _ =>
      cases hreview : reviewOf config s r with
      | error e => exact .failed hsize hreview
      | ok report =>
          cases herror : report.analysis.error with
          | some message =>
              simp only [herror]
              exact .unparsed hsize hreview herror
          | none =>
              simp only [herror]
              cases hsave : s.save config.stamps (.string r.code) report.analysis (some report) with
              | mk s' saved =>
                  cases saved with
                  | ok review => exact .saved hsize hreview herror hsave
                  | error e => exact .unsaved hsize hreview herror hsave

theorem checkText_of_checkSize {settings : Settings} {code label : Text}
    (h : checkSize settings code label = .ok ()) : Submission.checkText code = .ok code := by
  rcases checkSize_cases settings code label with ⟨-, hcheck⟩ | ⟨_, hsize, -⟩ | ⟨_, hsize, -⟩
  · exact hcheck
  · cases h.symm.trans hsize
  · cases h.symm.trans hsize

/-- A refused text is answered as a fault of the client if the name that the answer cites can be
encoded. -/
theorem status_of_checkSize {settings : Settings} {code label : Text} {why : Refusal}
    (h : checkSize settings code label = .error why) :
    (Submission.checkText code = .error why ∧ (Response.ofRefusal why).sendable.status = 400) ∨
    (Submission.checkText code = .ok code ∧
      (Response.ofRefusal why).sendable.status = if label.isScalar then 413 else 500) := by
  rcases checkSize_cases settings code label with
    ⟨hsize, -⟩ | ⟨size, hsize, hcheck⟩ | ⟨_, hsize, hcheck, hwhy⟩
  · cases h.symm.trans hsize
  · cases h.symm.trans hsize
    refine .inr ⟨hcheck, ?_⟩
    rw [Response.ofRefusal, Response.status_sendable, Response.isScalar_error]
    simp [Refusal.message, Text.isScalar_append, Response.error]
  · cases h.symm.trans hsize
    refine .inl ⟨hcheck, ?_⟩
    rcases hwhy with rfl | rfl
    · rfl
    · rfl

section Analyze

variable {config : Config} {s : Session} {r : AnalyzeRequest}

/-- A code that is refused as it is. -/
theorem status_analyze_of_refused (hcode : Submission.checkText r.code ≠ .ok r.code) :
    (analyze config s r).2.sendable.status = 400 := by
  rw [analyze]
  cases hsize : checkSize config.settings r.code r.filename with
  | ok _ => exact absurd (checkText_of_checkSize hsize) hcode
  | error why =>
      rcases status_of_checkSize hsize with ⟨-, hstatus⟩ | ⟨hcheck, -⟩
      · exact hstatus
      · exact absurd hcheck hcode

variable (hconfig : config.IsSound)

include hconfig

/-- A source that passes the check is reviewed. -/
theorem review_ne_error (hsize : checkSize config.settings r.code r.filename = .ok ())
    (e : ReviewError) : reviewOf config s r ≠ .error e := by
  have hcheck : Submission.check (.string r.code) = .ok r.code := checkText_of_checkSize hsize
  obtain ⟨report, hreport, -⟩ := Reviewer.review_eq_ok_wellFormed config.reviewer.grammar
    config.reviewer.mode r.filename (config.elapsed (s.issued + 1)) hcheck (hconfig.distinct _ _)
  rw [← hconfig.engine] at hreport
  intro herror
  cases herror.symm.trans hreport

variable {s' : Session} {response : Response}

/-- The answer for a name that can be encoded, as long as the log can be opened. -/
theorem Analyzed.status_of_scalar (h : Analyzed config s r s' response) {contents : Text}
    (hopened : s.archive.opened = .ok contents) (hname : r.filename.isScalar = true) :
    response.sendable.status ∈ [201, 400, 413, 422] := by
  cases h with
  | refused hsize =>
      rcases status_of_checkSize hsize with ⟨-, hstatus⟩ | ⟨-, hstatus⟩
      · simp [hstatus]
      · simp [hstatus, hname]
  | failed hsize hreview => exact absurd hreview (review_ne_error hconfig hsize _)
  | unparsed hsize hreview herror =>
      obtain ⟨hanalysis, hreport⟩ := Reviewer.isScalar_of_review hconfig.engine hconfig.mode
        hconfig.distinct hname hreview
      have hmessage := hanalysis.error _ herror
      rw [Response.status_sendable, if_pos]
      · simp
      · rw [Json.isScalar_record]
        simp only [List.forall_mem_cons]
        exact ⟨hmessage, hanalysis.toJson, hreport, List.forall_mem_nil _⟩
  | saved hsize hreview herror hsave =>
      rw [Response.status_sendable, if_pos (Session.isScalar_of_save hsave).1]
      simp
  | unsaved hsize hreview herror hsave =>
      obtain ⟨hanalysis, hreport⟩ := Reviewer.isScalar_of_review hconfig.engine hconfig.mode
        hconfig.distinct hname hreview
      have haccepted : FileInput.IsAccepted ⟨r.filename, r.code⟩ := checkText_of_checkSize hsize
      obtain ⟨s', review, hsaved⟩ := Session.save_eq_ok hopened (hconfig.stamps _)
        haccepted.isScalar hanalysis.toJson hreport
      cases hsave.symm.trans hsaved

/-- A source that passes and parses is stored. -/
theorem Analyzed.status_of_clean (h : Analyzed config s r s' response) {contents : Text}
    (hopened : s.archive.opened = .ok contents) (hname : r.filename.isScalar = true)
    (hsize : checkSize config.settings r.code r.filename = .ok ())
    (hclean : (config.reviewer.grammar (.ofFilename r.filename) r.code).info.hasError = false) :
    response.sendable.status = 201 := by
  have hstatus := h.status_of_scalar hconfig hopened hname
  cases h with
  | refused hrefused => cases hsize.symm.trans hrefused
  | failed _ hreview => exact absurd hreview (review_ne_error hconfig hsize _)
  | unparsed _ hreview herror =>
      have hcheck : Submission.check (.string r.code) = .ok r.code := checkText_of_checkSize hsize
      obtain ⟨report, hreport, hanalysis, -⟩ :=
        Reviewer.review_of_clean hconfig.engine hcheck (hconfig.distinct _ _) hclean
      cases hreview.symm.trans hreport
      rw [hanalysis] at herror
      cases herror
  | saved _ _ _ hsave => rw [Response.status_sendable, if_pos (Session.isScalar_of_save hsave).1]
  | unsaved => exact absurd hstatus (by decide)

/-- The answer for an accepted code and a name that cannot be encoded. -/
theorem Analyzed.status_of_not_scalar (h : Analyzed config s r s' response)
    (hcode : Submission.checkText r.code = .ok r.code) (hname : r.filename.isScalar = false) :
    response.sendable.status = 500 := by
  have hunnamed {report : Report}
      (hreview : reviewOf config s r = .ok report) :
      report.toJson.isScalar ≠ true := by
    intro hreport
    have hscalar := Report.isScalar_filename hreport
    rw [Reviewer.filename_of_review hreview, hname] at hscalar
    cases hscalar
  cases h with
  | refused hsize =>
      rcases status_of_checkSize hsize with ⟨hcheck, -⟩ | ⟨-, hstatus⟩
      · cases hcode.symm.trans hcheck
      · simpa [hname] using hstatus
  | failed hsize hreview => exact absurd hreview (review_ne_error hconfig hsize _)
  | unparsed hsize hreview herror =>
      rw [Response.status_sendable, if_neg]
      intro hbody
      simp only [Json.isScalar_record, List.forall_mem_cons] at hbody
      exact hunnamed hreview hbody.2.2.1
  | saved hsize hreview herror hsave =>
      obtain ⟨hscalar, hreport⟩ := Session.isScalar_of_save hsave
      exact absurd ((Review.isScalar_toJson_iff.1 hscalar).2.2.2 _ hreport) (hunnamed hreview)
  | unsaved => rfl

end Analyze

section AnalyzeFiles

variable {config : Config} {files : List FileInput} {elapsed : Binary64}

def Passes (config : Config) (f : FileInput) : Prop :=
  checkSize config.settings f.content f.filename = .ok ()

theorem Passes.isAccepted {f : FileInput} (h : Passes config f) : f.IsAccepted :=
  checkText_of_checkSize h

theorem analyzeFiles_of_tooMany (h : config.settings.maxFiles < files.length) :
    (analyzeFiles config files elapsed).sendable.status = 400 := by
  have hmessage :
      (Refusal.tooManyFiles files.length config.settings.maxFiles).message.isScalar := by
    simp [Refusal.message, Text.isScalar_append]
  rw [analyzeFiles, if_pos h, Response.status_sendable, if_pos]
  · rfl
  · rwa [Response.ofRefusal, Response.isScalar_error]
    nofun

/-- The first file that does not pass answers for the change. -/
theorem analyzeFiles_of_refused (hcount : files.length ≤ config.settings.maxFiles)
    {before after : List FileInput} {f : FileInput} (hfiles : files = before ++ f :: after)
    (hbefore : ∀ g ∈ before, Passes config g) {why : Refusal}
    (hsize : checkSize config.settings f.content f.filename = .error why) :
    analyzeFiles config files elapsed = .ofRefusal why := by
  rw [analyzeFiles, if_neg hcount.not_gt, hfiles, forM_eq_error hbefore hsize]

theorem analyzeFiles_of_error (hcount : files.length ≤ config.settings.maxFiles)
    (hfiles : ∀ f ∈ files, Passes config f) {e : ReviewError}
    (h : config.reviewer.reviewFiles files elapsed = .error e) :
    analyzeFiles config files elapsed = .ofReviewError e := by
  simp only [analyzeFiles, if_neg hcount.not_gt, forM_eq_ok hfiles, h]

theorem analyzeFiles_of_ok (hcount : files.length ≤ config.settings.maxFiles)
    (hfiles : ∀ f ∈ files, Passes config f) {report : BatchReport}
    (h : config.reviewer.reviewFiles files elapsed = .ok report) :
    analyzeFiles config files elapsed = ⟨200, report.toJson⟩ := by
  simp only [analyzeFiles, if_neg hcount.not_gt, forM_eq_ok hfiles, h]

/-- All files pass, but one of them has a name that cannot be encoded. -/
theorem status_analyzeFiles_of_not_scalar (hcount : files.length ≤ config.settings.maxFiles)
    (hfiles : ∀ f ∈ files, Passes config f) {f : FileInput} (hf : f ∈ files)
    (hname : f.filename.isScalar = false) :
    (analyzeFiles config files elapsed).sendable.status = 500 := by
  have hinternal :
      ∃ cause, config.reviewer.reviewFiles files elapsed = .error (.internal cause) := by
    rw [Reviewer.reviewFiles]
    rcases Batch.ofFiles_cases config.reviewer.grammar (List.ne_nil_of_mem hf) with
      ⟨_, batch, hbatch, -⟩ | ⟨g, hg, e, he, hfailed⟩
    · rw [hbatch, Fingerprint.fingerprint_bundle_of_not_scalar hf hname]
      exact ⟨_, rfl⟩
    · obtain ⟨cause, rfl⟩ := Analysis.internal_of_ofSubmission (hfiles g hg).isAccepted he
      rw [hfailed]
      exact ⟨cause, rfl⟩
  obtain ⟨cause, hcause⟩ := hinternal
  rw [analyzeFiles_of_error hcount hfiles hcause]
  rfl

/-- All files pass, and their names can be encoded. -/
theorem status_analyzeFiles_of_scalar (hconfig : config.IsSound)
    (hcount : files.length ≤ config.settings.maxFiles) (hfiles : ∀ f ∈ files, Passes config f)
    (hnames : ∀ f ∈ files, f.filename.isScalar = true) :
    (analyzeFiles config files elapsed).sendable.status = if files = [] then 400 else 200 := by
  split_ifs with hne
  · subst hne
    rw [analyzeFiles_of_error hcount hfiles rfl]
    rfl
  · obtain ⟨report, hreport⟩ := config.reviewer.exists_reviewFiles_eq_ok elapsed hne
      (fun f hf => (hfiles f hf).isAccepted) hnames fun f _ => hconfig.distinct _ _
    rw [analyzeFiles_of_ok hcount hfiles hreport, Response.status_sendable,
      if_pos (Reviewer.isScalar_of_reviewFiles hconfig.mode hconfig.distinct hnames hreport)]

/-- Some file is accepted under a name that cannot be encoded, and the files before it pass. The
request stops at this file, which is too large, or gets past all of them. -/
def Stumbles (config : Config) (files : List FileInput) : Prop :=
  files.length ≤ config.settings.maxFiles ∧ ∃ before f after, files = before ++ f :: after ∧
    (∀ g ∈ before, Passes config g) ∧ f.IsAccepted ∧ f.filename.isScalar = false ∧
    (Passes config f → ∀ g ∈ after, Passes config g)

theorem Stumbles.status (h : Stumbles config files) :
    (analyzeFiles config files elapsed).sendable.status = 500 := by
  obtain ⟨hcount, before, f, after, hfiles, hbefore, haccepted, hname, hafter⟩ := h
  cases hsize : checkSize config.settings f.content f.filename with
  | ok _ =>
      have hall : ∀ g ∈ files, Passes config g := by
        rw [hfiles, List.forall_mem_append, List.forall_mem_cons]
        exact ⟨hbefore, hsize, hafter hsize⟩
      exact status_analyzeFiles_of_not_scalar hcount hall (by simp [hfiles]) hname
  | error why =>
      rw [analyzeFiles_of_refused hcount hfiles hbefore hsize]
      rcases status_of_checkSize hsize with ⟨hcheck, -⟩ | ⟨-, hstatus⟩
      · cases haccepted.symm.trans hcheck
      · simpa [hname] using hstatus

theorem status_analyzeFiles_of_not_stumbles (hconfig : config.IsSound) (elapsed : Binary64)
    (h : ¬ Stumbles config files) :
    (analyzeFiles config files elapsed).sendable.status ∈ [200, 400, 413] := by
  rcases lt_or_ge config.settings.maxFiles files.length with hmany | hcount
  · simp [analyzeFiles_of_tooMany hmany]
  rcases forall_ok_or_first_error (fun f : FileInput =>
    checkSize config.settings f.content f.filename) files with
    hall | ⟨before, f, after, why, hfiles, hbefore, hsize⟩
  · have hnames : ∀ f ∈ files, f.filename.isScalar = true := by
      intro f hf
      by_contra hname
      obtain ⟨before, after, rfl⟩ := List.append_of_mem hf
      rw [List.forall_mem_append, List.forall_mem_cons] at hall
      exact h ⟨hcount, before, f, after, rfl, hall.1, checkText_of_checkSize hall.2.1,
        Bool.eq_false_iff.2 hname, fun _ => hall.2.2⟩
    rw [status_analyzeFiles_of_scalar hconfig hcount hall hnames]
    split_ifs <;> simp
  · rw [analyzeFiles_of_refused hcount hfiles hbefore hsize]
    rcases status_of_checkSize hsize with ⟨-, hstatus⟩ | ⟨hcheck, hstatus⟩
    · simp [hstatus]
    · have hname : f.filename.isScalar = true := by
        by_contra hname
        refine h ⟨hcount, before, f, after, hfiles, hbefore, hcheck, Bool.eq_false_iff.2 hname, ?_⟩
        intro hpasses
        cases hsize.symm.trans hpasses
      simp [hstatus, hname]

end AnalyzeFiles

theorem handle_analyze {config : Config} {s : Session} {p : Payload} {r : AnalyzeRequest}
    (h : body decodeAnalyze p = .ok r) :
    (handle config s ⟨"POST", "/analyze", p⟩).2 = (analyze config s r).2.sendable := by
  have hendpoint : Endpoint.ofRequest? (Text.ofString "/analyze") = some .analyze := rfl
  have hallows : Endpoint.analyze.allows "POST" = true := rfl
  rw [handle]
  simp only [hendpoint, hallows, if_true, serve, h]

theorem handle_analyzeFiles {config : Config} {s : Session} {p : Payload} {files : List FileInput}
    (h : body decodeFiles p = .ok files) :
    (handle config s ⟨"POST", "/analyze/files", p⟩).2 =
      (analyzeFiles config files (config.elapsed (s.issued + 1))).sendable := by
  have hendpoint : Endpoint.ofRequest? (Text.ofString "/analyze/files") = some .analyzeFiles := rfl
  have hallows : Endpoint.analyzeFiles.allows "POST" = true := rfl
  rw [handle]
  simp only [hendpoint, hallows, if_true, serve, h]

/-- An accepted request ends as an unexpected error exactly if the name of a file stops an encoder:
the code of this file is accepted, the name is not checked, and no refusal comes before it. -/
theorem unexpected_iff_unencodable_name {config : Config} (hconfig : config.IsSound) {s : Session}
    {contents : Text} (hopened : s.archive.opened = .ok contents) (p : Payload) :
    (∀ r, body decodeAnalyze p = .ok r →
      let status := (handle config s ⟨"POST", "/analyze", p⟩).2.status
      (status = 500 ↔ Submission.checkText r.code = .ok r.code ∧ r.filename.isScalar = false) ∧
        (status ≠ 500 → status ∈ [201, 400, 413, 422])) ∧
    ∀ files, body decodeFiles p = .ok files →
      let status := (handle config s ⟨"POST", "/analyze/files", p⟩).2.status
      (status = 500 ↔ Stumbles config files) ∧ (status ≠ 500 → status ∈ [200, 400, 413]) := by
  constructor
  · intro r hr
    dsimp only
    rw [handle_analyze hr]
    have hdone := analyzed_analyze config s r
    cases hname : r.filename.isScalar with
    | true =>
        have hstatus := hdone.status_of_scalar hconfig hopened hname
        refine ⟨⟨?_, nofun⟩, fun _ => hstatus⟩
        intro h
        simp [h] at hstatus
    | false =>
        by_cases hcode : Submission.checkText r.code = .ok r.code
        · simp [hdone.status_of_not_scalar hconfig hcode hname, hcode]
        · simp [status_analyze_of_refused hcode, hcode]
  · intro files hfiles
    dsimp only
    rw [handle_analyzeFiles hfiles]
    by_cases h : Stumbles config files
    · simp [h, h.status]
    · have hstatus := status_analyzeFiles_of_not_stumbles hconfig (config.elapsed (s.issued + 1)) h
      refine ⟨⟨?_, fun hstumbles => absurd hstumbles h⟩, fun _ => hstatus⟩
      intro h
      simp [h] at hstatus

def countingConfig : Config where
  settings := .defaults
  reviewer := ⟨fun _ _ => .evalCall, .standard, "severity"⟩
  stamps := .counted
  elapsed _ := .finite (49 / 4)

theorem isSound_countingConfig : countingConfig.IsSound := by
  have hids : Node.evalCall.DistinctIds := by decide +kernel
  exact ⟨rfl, fun _ _ => hids, Text.isScalar_ofString "severity", Stamp.isScalar_counted⟩

def sourcePayload (r : AnalyzeRequest) : Payload :=
  .json (.record [("code", .string r.code), ("filename", .string r.filename)])

def filesPayload (files : List FileInput) : Payload :=
  .json (.record [("files", .array (files.map fun f =>
    .record [("filename", .string f.filename), ("content", .string f.content)]))])

theorem body_sourcePayload (r : AnalyzeRequest) :
    body decodeAnalyze (sourcePayload r) = .ok r := by
  have hdecode : decodeAnalyze (.record [("code", .string r.code),
      ("filename", .string r.filename)]) = .valid r := by
    rw [decodeAnalyze, Decoder.fields_record,
      Decoder.required_record rfl (Decoder.text_string r.code),
      Decoder.withDefault_record rfl (Decoder.text_string r.filename)]
    rfl
  rw [body, sourcePayload, payload, mapError_ok, ok_bind, hdecode]
  rfl

theorem body_filesPayload (files : List FileInput) :
    body decodeFiles (filesPayload files) = .ok files := by
  have hfile : ∀ f ∈ files, FileInput.decodeWith .notFields
      (.record [("filename", .string f.filename), ("content", .string f.content)]) = .valid f := by
    intro f _
    rw [FileInput.decodeWith, Decoder.fields_record,
      Decoder.required_record rfl (Decoder.text_string f.filename),
      Decoder.required_record rfl (Decoder.text_string f.content)]
    rfl
  have hdecode : decodeFiles (.record [("files", .array (files.map fun f =>
      .record [("filename", .string f.filename), ("content", .string f.content)]))]) =
      .valid files := by
    rw [decodeFiles, Decoder.fields_record,
      Decoder.withDefault_record rfl (Decoder.list_array hfile)]
  rw [body, filesPayload, payload, mapError_ok, ok_bind, hdecode]
  rfl

theorem answers_encodable_names :
    countingConfig.IsSound ∧ Session.onEmptyLog.archive.opened = .ok [] ∧
      (handle countingConfig .onEmptyLog
        ⟨"POST", "/analyze", sourcePayload ⟨"eval(x)", "a.js"⟩⟩).2.status ∈ [201, 400, 413, 422] ∧
      (handle countingConfig .onEmptyLog
        ⟨"POST", "/analyze/files", filesPayload [⟨"a.js", "eval(x)"⟩]⟩).2.status ∈
          [200, 400, 413] := by
  have hopened : Session.onEmptyLog.archive.opened = .ok [] := rfl
  refine ⟨isSound_countingConfig, hopened, ?_, ?_⟩
  · obtain ⟨hstatus, hother⟩ := (unexpected_iff_unencodable_name isSound_countingConfig hopened
      (sourcePayload ⟨"eval(x)", "a.js"⟩)).1 _ (body_sourcePayload _)
    apply hother
    rw [Ne, hstatus]
    simp
  · obtain ⟨hstatus, hother⟩ := (unexpected_iff_unencodable_name isSound_countingConfig hopened
      (filesPayload [⟨"a.js", "eval(x)"⟩])).2 _ (body_filesPayload _)
    apply hother
    rw [Ne, hstatus]
    rintro ⟨-, before, f, after, hfiles, -, -, hname, -⟩
    have hf : f ∈ [(⟨"a.js", "eval(x)"⟩ : FileInput)] := hfiles ▸ List.mem_append_right _ (.head _)
    rw [List.mem_singleton.1 hf] at hname
    simp at hname

/-- An accepted source under a name that is a lone surrogate. -/
theorem unexpected_surrogate_name :
    body decodeAnalyze (sourcePayload ⟨"eval(x)", [.surrogate 0]⟩) =
        .ok ⟨"eval(x)", [.surrogate 0]⟩ ∧
      (handle countingConfig .onEmptyLog
        ⟨"POST", "/analyze", sourcePayload ⟨"eval(x)", [.surrogate 0]⟩⟩).2.status = 500 ∧
      body decodeFiles (filesPayload [⟨[.surrogate 0], "eval(x)"⟩]) =
        .ok [⟨[.surrogate 0], "eval(x)"⟩] ∧
      (handle countingConfig .onEmptyLog
        ⟨"POST", "/analyze/files", filesPayload [⟨[.surrogate 0], "eval(x)"⟩]⟩).2.status = 500 := by
  refine ⟨body_sourcePayload _, ?_, body_filesPayload _, ?_⟩
  · rw [handle_analyze (body_sourcePayload _)]
    exact (analyzed_analyze _ _ _).status_of_not_scalar isSound_countingConfig rfl rfl
  · rw [handle_analyzeFiles (body_filesPayload _)]
    apply Stumbles.status
    exact ⟨by decide, [], _, [], rfl, List.forall_mem_nil _, rfl, rfl,
      fun _ => List.forall_mem_nil _⟩

end Service

end ScriptReview
