import ScriptReview.Proofs.Findings.Issues
import ScriptReview.Reviewing

namespace ScriptReview

namespace Text

theorem exists_utf8_of_isScalar {t : Text} (h : t.isScalar = true) :
    ∃ octets, t.utf8? = some octets := by
  induction t with
  | nil => exact ⟨[], rfl⟩
  | cons s t ih =>
      cases s with
      | surrogate u => simp [isScalar, Symbol.isScalar] at h
      | char c =>
          obtain ⟨octets, hoctets⟩ := ih (by simpa [isScalar, Symbol.isScalar] using h)
          exact ⟨String.utf8EncodeChar c ++ octets, by simp [utf8?, hoctets]⟩

theorem isScalar_append (t u : Text) : (t ++ u).isScalar = (t.isScalar && u.isScalar) :=
  List.all_append

theorem isScalar_joinWith {separator : Text} {items : List Text}
    (hseparator : separator.isScalar = true) (h : ∀ t ∈ items, t.isScalar = true) :
    (joinWith separator items).isScalar = true := by
  fun_induction joinWith separator items with
  | case1 => rfl
  | case2 item => exact h item (by simp)
  | case3 item rest _ ih =>
      have hitem := h item (by simp)
      have hrest := ih fun t ht => h t (by simp [ht])
      simp [isScalar_append, hitem, hseparator, hrest]

end Text

namespace Submission

theorem check_eq_ok_iff {source : Json} {code : Text} :
    check source = .ok code ↔
      source = .string code ∧ code.isBlank = false ∧ code.isScalar = true := by
  cases source with
  | string t =>
      change checkText t = _ ↔ _
      rw [checkText]
      split_ifs with hblank hscalar
      · simp only [Json.string.injEq, false_iff]
        rintro ⟨rfl, h, -⟩
        simp [hblank] at h
      · simp only [Json.string.injEq, false_iff]
        rintro ⟨rfl, -, h⟩
        simp [h] at hscalar
      · simp only [Except.ok.injEq, Json.string.injEq]
        constructor
        · rintro rfl
          exact ⟨rfl, by simpa using hblank, by simpa using hscalar⟩
        · exact fun h => h.1
  | _ => simp [check]

end Submission

namespace Breakage

theorem describe_ne_nil (bytes : Array UInt8) (root : Node) : describe bytes root ≠ [] := by
  have hhead (s : String) (t : Text) (hs : s ≠ "") : Text.ofString s ++ t ≠ [] := by
    simp [Text.ofString, hs]
  unfold describe describeNode
  dsimp only
  split
  · split_ifs
    · rw [List.append_assoc]
      exact hhead _ _ (by decide)
    · exact hhead _ _ (by decide)
    · rw [List.append_assoc]
      exact hhead _ _ (by decide)
  · simpa using hhead "Syntax Error: Unexpected token" [] (by decide)

end Breakage

namespace SourceTree

def ofFile (grammar : Grammar) (filename code : Text) : SourceTree where
  root := grammar (Language.ofFilename filename) code
  bytes := (code.utf8?.getD []).toArray
  language := Language.ofFilename filename

variable {grammar : Grammar} {filename code : Text}

theorem parseFile_of_clean (hcode : code.isScalar = true)
    (h : (ofFile grammar filename code).root.info.hasError = false) :
    parseFile grammar filename code = .ok (.ok (ofFile grammar filename code)) := by
  obtain ⟨octets, hoctets⟩ := Text.exists_utf8_of_isScalar hcode
  simp only [ofFile] at h
  simp [parseFile, parse, hoctets, h, ofFile]

theorem parseFile_of_broken (hcode : code.isScalar = true)
    (h : (ofFile grammar filename code).root.info.hasError = true) :
    ∃ message, message ≠ [] ∧ parseFile grammar filename code = .ok (.error message) := by
  obtain ⟨octets, hoctets⟩ := Text.exists_utf8_of_isScalar hcode
  simp only [ofFile] at h
  refine ⟨_, Breakage.describe_ne_nil octets.toArray (grammar (.ofFilename filename) code), ?_⟩
  simp [parseFile, parse, hoctets, h]

end SourceTree

namespace CategoryScore

def left (issues : List Issue) : CategoryScore where
  score := ⟨Category.maxScore - penaltySum issues, by omega⟩
  comments := issues.map (·.comment)

theorem ofIssues_eq (issues : List Issue) :
    ofIssues Category.maxScore issues = .valid (left issues) := by
  have hscore : ((Category.maxScore : Int) - penaltySum issues).toNat =
      Category.maxScore - penaltySum issues := by omega
  simp only [ofIssues, hscore]
  rw [dif_pos (by omega)]
  rfl

theorem penaltySum_eq_zero_iff {issues : List Issue} (h : ∀ i ∈ issues, i.IsProper) :
    penaltySum issues = 0 ↔ issues = [] := by
  cases issues with
  | nil => simp [penaltySum]
  | cons i issues =>
      have hpos := (h i (by simp)).penalty_pos
      simp [penaltySum]
      omega

end CategoryScore

namespace Analysis

def scored (filename : Text) (tree : SourceTree) : Analysis :=
  ofScores filename (fun c => CategoryScore.left (Engine.found tree c))
    ((Engine.security tree).filter Issue.isCritical) none

@[simp] theorem category_ofScores (filename : Text) (scores : Category → CategoryScore)
    (critical : List Issue) (error : Option Text) (c : Category) :
    (ofScores filename scores critical error).category c = scores c := by
  cases c <;> rfl

theorem ofTree_eq_ok {tree : SourceTree} (filename : Text) (h : tree.root.DistinctIds) :
    ofTree .standard filename tree = .ok (scored filename tree) := by
  have hok := Engine.standard_eq_ok h
  simp only [ofTree, Engine.run, hok, ok_bind, pure_eq_ok, CategoryScore.ofIssues_eq,
    Checked.orFail, scored]
  congr 2
  funext c
  cases c <;> rfl

/-- Whatever the ids are, the scores of a tree tell its security issues. -/
theorem eq_ofScores_of_ofTree {filename : Text} {tree : SourceTree} {a : Analysis}
    (h : ofTree .standard filename tree = .ok a) :
    ∃ scores : Category → CategoryScore, scores .security = .left (Engine.security tree) ∧
      a = ofScores filename scores ((Engine.security tree).filter Issue.isCritical) none := by
  simp only [ofTree, Engine.run, Engine.standard, ok_bind, pure_eq_ok, CategoryScore.ofIssues_eq,
    Checked.orFail] at h
  obtain ⟨found, hfound, h⟩ := bind_eq_ok_iff.mp h
  obtain ⟨complexity, -, hfound⟩ := bind_eq_ok_iff.mp hfound
  cases hfound
  cases h
  exact ⟨_, rfl, rfl⟩

theorem security_comments_of_ofTree {filename : Text} {tree : SourceTree} {a : Analysis}
    (h : ofTree .standard filename tree = .ok a) :
    a.security.comments = (Engine.security tree).map (·.comment) := by
  obtain ⟨scores, hscores, rfl⟩ := eq_ofScores_of_ofTree h
  exact congrArg CategoryScore.comments hscores

end Analysis

/-- What averaging makes of some files. -/
theorem Batch.exists_scores_of_ofResults {results : List Analysis} {batch : Batch}
    (h : ofResults results = .ok batch) :
    ∃ scores : Category → CategoryScore, (∀ c, average results c = .ok (scores c)) ∧
      batch = ⟨results, .ofScores aggregatedName scores (attributed results) none,
        attributed results⟩ := by
  obtain ⟨readability, hreadability, h⟩ := bind_eq_ok_iff.mp h
  obtain ⟨complexity, hcomplexity, h⟩ := bind_eq_ok_iff.mp h
  obtain ⟨edgeCases, hedgeCases, h⟩ := bind_eq_ok_iff.mp h
  obtain ⟨security, hsecurity, h⟩ := bind_eq_ok_iff.mp h
  cases h
  refine ⟨_, fun c => ?_, rfl⟩
  cases c with
  | readability => exact hreadability
  | complexity => exact hcomplexity
  | edgeCases => exact hedgeCases
  | security => exact hsecurity

theorem Batch.ne_nil_of_ofFiles {grammar : Grammar} {files : List FileInput} {batch : Batch}
    (h : ofFiles grammar files = .ok batch) : files ≠ [] := by
  rintro rfl
  cases h

theorem Batch.exists_results_of_ofFiles {grammar : Grammar} {files : List FileInput} {batch : Batch}
    (h : ofFiles grammar files = .ok batch) :
    ∃ results, files.mapM (fun f => Analysis.ofSubmission grammar f.filename (.string f.content)) =
      .ok results ∧ ofResults results = .ok batch := by
  rw [ofFiles] at h
  split at h
  · cases h
  · obtain ⟨results, hresults, h⟩ := bind_eq_ok_iff.mp h
    exact ⟨results, hresults, mapError_eq_ok_iff.mp h⟩

end ScriptReview
