import Mathlib.Data.List.Perm.Basic
import ScriptReview.Proofs.Concord
import ScriptReview.Proofs.Encodable

namespace ScriptReview

def roundedMean (ns : List Nat) : Nat :=
  (2 * total ns + ns.length) / (2 * ns.length)

theorem mul_length_le_total {bound : Nat} {ns : List Nat} (h : ∀ n ∈ ns, bound ≤ n) :
    bound * ns.length ≤ total ns := by
  induction ns with
  | nil => simp
  | cons n ns ih =>
      have hn := h n List.mem_cons_self
      have hns := ih fun m hm => h m (List.mem_cons_of_mem n hm)
      rw [total_cons, List.length_cons, Nat.mul_succ]
      omega

section

variable {ns : List Nat}

theorem roundedMean_le {bound : Nat} (hne : ns ≠ []) (h : ∀ n ∈ ns, n ≤ bound) :
    roundedMean ns ≤ bound := by
  have hlength := List.length_pos_of_ne_nil hne
  have htotal := total_le_mul h
  rw [roundedMean, ← Nat.lt_succ_iff, Nat.div_lt_iff_lt_mul (by omega), Nat.mul_left_comm,
    Nat.succ_mul bound]
  omega

theorem le_roundedMean {bound : Nat} (hne : ns ≠ []) (h : ∀ n ∈ ns, bound ≤ n) :
    bound ≤ roundedMean ns := by
  have hlength := List.length_pos_of_ne_nil hne
  have htotal := mul_length_le_total h
  rw [roundedMean, Nat.le_div_iff_mul_le (by omega), Nat.mul_left_comm]
  omega

theorem exists_mem_le_roundedMean (hne : ns ≠ []) : ∃ n ∈ ns, n ≤ roundedMean ns := by
  by_contra! h
  exact absurd (le_roundedMean hne h) (Nat.not_succ_le_self _)

theorem exists_mem_roundedMean_le (hne : ns ≠ []) : ∃ n ∈ ns, roundedMean ns ≤ n := by
  by_contra! h
  obtain ⟨n, hn⟩ := List.exists_mem_of_ne_nil ns hne
  have hpos := h n hn
  have hbelow := roundedMean_le hne fun m hm => Nat.le_sub_one_of_lt (h m hm)
  omega

theorem abs_roundedMean_sub_le (hne : ns ≠ []) :
    |(roundedMean ns : ℚ) - total ns / ns.length| ≤ 1 / 2 := by
  have hlength : 0 < ns.length := List.length_pos_of_ne_nil hne
  have hlow : roundedMean ns * (2 * ns.length) ≤ 2 * total ns + ns.length := Nat.div_mul_le_self _ _
  have hhigh : 2 * total ns + ns.length ≤ (roundedMean ns + 1) * (2 * ns.length) :=
    ((Nat.lt_mul_div_succ _ (by omega)).trans_eq (Nat.mul_comm _ _)).le
  have hcast : (0 : ℚ) < ns.length := by exact_mod_cast hlength
  have hlow' : (roundedMean ns : ℚ) * (2 * ns.length) ≤ 2 * total ns + ns.length := by
    exact_mod_cast hlow
  have hhigh' : 2 * total ns + ns.length ≤ ((roundedMean ns : ℚ) + 1) * (2 * ns.length) := by
    exact_mod_cast hhigh
  have hmean : (total ns : ℚ) / ns.length * ns.length = total ns := div_mul_cancel₀ _ hcast.ne'
  rw [abs_sub_le_iff]
  constructor
  · refine le_of_mul_le_mul_right ?_ hcast
    linarith
  · refine le_of_mul_le_mul_right ?_ hcast
    linarith

end

namespace Batch

variable {results : List Analysis}

/-- The score of a category is the double that the division gives, rounded; no other part of the
analyses decides about it. -/
theorem roundHalfUp_of_average {c : Category} {s : CategoryScore} (h : average results c = .ok s) :
    (Binary64.quotient (total (results.map fun a => a.score c) : ℕ)
      (results.length : ℕ)).roundHalfUp = .ok (s.score.val : ℤ) := by
  obtain ⟨score, hscore, h⟩ := bind_eq_ok_iff.mp h
  rw [mapError_eq_ok_iff] at hscore
  split at h
  · rename_i hbound
    cases h
    rw [hscore, Int.toNat_of_nonneg hbound.1]
  · cases h

theorem score_of_average {c : Category} {s : CategoryScore} (h : average results c = .ok s)
    (hne : results ≠ []) (hlength : results.length ≤ 2 ^ 40) :
    s.score.val = roundedMean (results.map fun a => a.score c) := by
  have hmean : roundedMean (results.map fun a => a.score c) ≤ Category.maxScore := by
    apply roundedMean_le (by simpa using hne)
    rw [List.forall_mem_map]
    exact fun a _ => a.score_le c
  rw [Category.maxScore] at hmean
  rw [roundedMean, List.length_map] at hmean ⊢
  -- 26 * 2 ^ 41 is the precision that the mean of the points needs, and a double has 2 ^ 53
  have hround := Binary64.roundHalfUp_quotient (s := total (results.map fun a => a.score c))
    (List.length_pos_of_ne_nil hne) hlength (by omega)
  exact_mod_cast Except.ok.inj ((roundHalfUp_of_average h).symm.trans hround)

theorem score_eq_of_average_perm {others : List Analysis} (h : others.Perm results) {c : Category}
    {s t : CategoryScore} (ht : average others c = .ok t) (hs : average results c = .ok s) :
    t.score = s.score := by
  have hround := roundHalfUp_of_average ht
  rw [total_eq_of_perm (h.map _), h.length_eq, roundHalfUp_of_average hs] at hround
  apply Fin.ext
  exact_mod_cast (Except.ok.inj hround).symm

end Batch

namespace Analysis

structure Averages (a : Analysis) (files : List Analysis) : Prop where
  score_eq : ∀ c, a.score c =
    (2 * total (files.map (·.score c)) + files.length) / (2 * files.length)
  least : ∀ c, ∃ f ∈ files, f.score c ≤ a.score c
  greatest : ∀ c, ∃ f ∈ files, a.score c ≤ f.score c
  total_eq : a.totalScore.val = total (Category.all.map a.score)
  total_near :
    |(a.totalScore.val : ℚ) - total (files.map (·.totalScore.val)) / files.length| ≤ 2

/-- The points of some files can be summed by category first. -/
theorem total_map_totalScore {files : List Analysis} (h : ∀ f ∈ files, f.IsCoherent) :
    total (files.map (·.totalScore.val)) =
      total (Category.all.map fun c => total (files.map (·.score c))) := by
  induction files with
  | nil => rfl
  | cons f files ih =>
      rw [List.forall_mem_cons] at h
      rw [List.map_cons, total_cons, ih h.2, h.1.total_eq]
      simp only [Category.all, List.map_cons, List.map_nil, total_cons, total_nil]
      omega

/-- Each of the four means is off by a half at most. -/
theorem abs_total_sub_le {a : Analysis} {files : List Analysis} (hne : files ≠ [])
    (hfiles : ∀ f ∈ files, f.IsCoherent)
    (htotal : a.totalScore.val = total (Category.all.map a.score))
    (hscore : ∀ c, a.score c = roundedMean (files.map (·.score c))) :
    |(a.totalScore.val : ℚ) - total (files.map (·.totalScore.val)) / files.length| ≤ 2 := by
  have hclose (c : Category) :
      |(a.score c : ℚ) - total (files.map (·.score c)) / files.length| ≤ 1 / 2 := by
    have hmap : files.map (·.score c) ≠ [] := by simpa using hne
    rw [hscore c]
    simpa using abs_roundedMean_sub_le hmap
  have hreadability := abs_le.mp (hclose .readability)
  have hcomplexity := abs_le.mp (hclose .complexity)
  have hedgeCases := abs_le.mp (hclose .edgeCases)
  have hsecurity := abs_le.mp (hclose .security)
  rw [htotal, total_map_totalScore hfiles]
  simp only [Category.all, List.map_cons, List.map_nil, total_cons, total_nil]
  push_cast
  simp only [add_div, zero_div]
  rw [abs_le]
  constructor <;> linarith

structure JudgedLike (a b : Analysis) : Prop where
  score_eq : ∀ c, a.score c = b.score c
  total_eq : a.totalScore = b.totalScore
  decision_eq : ∀ mode, Readiness.ofAnalysis a mode = Readiness.ofAnalysis b mode

end Analysis

namespace Batch

variable {results : List Analysis} {batch : Batch}

theorem averages_of_ofResults (h : ofResults results = .ok batch) (hne : results ≠ [])
    (hlength : results.length ≤ 2 ^ 40) (hresults : ∀ a ∈ results, a.IsCoherent) :
    batch.aggregated.Averages results := by
  have htotal := (isCoherent_of_ofResults hresults h).total_eq
  obtain ⟨scores, haverage, rfl⟩ := exists_scores_of_ofResults h
  have hscore (c : Category) :
      (Analysis.ofScores aggregatedName scores (attributed results) none).score c =
        roundedMean (results.map (·.score c)) := by
    rw [Analysis.score, Analysis.category_ofScores]
    exact score_of_average (haverage c) hne hlength
  have hmap (c : Category) : results.map (·.score c) ≠ [] := by simpa using hne
  refine ⟨fun c => ?_, fun c => ?_, fun c => ?_, htotal,
    Analysis.abs_total_sub_le hne hresults htotal hscore⟩
  · rw [hscore c, roundedMean, List.length_map]
  · obtain ⟨n, hn, hle⟩ := exists_mem_le_roundedMean (hmap c)
    obtain ⟨f, hf, rfl⟩ := List.mem_map.mp hn
    exact ⟨f, hf, hle.trans_eq (hscore c).symm⟩
  · obtain ⟨n, hn, hle⟩ := exists_mem_roundedMean_le (hmap c)
    obtain ⟨f, hf, rfl⟩ := List.mem_map.mp hn
    exact ⟨f, hf, (hscore c).trans_le hle⟩

theorem averages_of_ofFiles {grammar : Grammar} {files : List FileInput}
    (h : ofFiles grammar files = .ok batch) (hlength : files.length ≤ 2 ^ 40) :
    batch.aggregated.Averages batch.files := by
  have hne := ne_nil_of_ofFiles h
  obtain ⟨results, hresults, h⟩ := exists_results_of_ofFiles h
  have hall := forall₂_of_mapM_eq_ok hresults
  rw [files_of_ofResults h]
  apply averages_of_ofResults h
  · rintro rfl
    exact hne (List.forall₂_nil_right_iff.mp hall)
  · exact hall.length_eq ▸ hlength
  · exact forall_mem_of_mapM hresults fun _ _ _ => Analysis.isCoherent_of_ofSubmission

theorem hasCriticalDeductions_of_perm {others : List Analysis} {other : Batch}
    (hperm : others.Perm results) (hother : ofResults others = .ok other)
    (h : ofResults results = .ok batch) (mode : Text) :
    Readiness.hasCriticalDeductions other.aggregated mode =
      Readiness.hasCriticalDeductions batch.aggregated mode := by
  obtain ⟨-, hcritical, hcomments⟩ := ofResults_eq_ok h
  obtain ⟨-, hcritical', hcomments'⟩ := ofResults_eq_ok hother
  rw [Readiness.hasCriticalDeductions, Readiness.hasCriticalDeductions, hcritical, hcritical',
    hcomments, hcomments']
  split
  · exact (hperm.flatMap_right _).any_eq
  · exact (hperm.flatMap_right _).any_eq

theorem judgedLike_of_perm {others : List Analysis} {other : Batch}
    (hperm : others.Perm results) (hother : ofResults others = .ok other)
    (h : ofResults results = .ok batch) : other.aggregated.JudgedLike batch.aggregated := by
  have hcritical := hasCriticalDeductions_of_perm hperm hother h
  obtain ⟨scores, haverage, rfl⟩ := exists_scores_of_ofResults h
  obtain ⟨scores', haverage', rfl⟩ := exists_scores_of_ofResults hother
  have hscore (c : Category) : (scores' c).score = (scores c).score :=
    score_eq_of_average_perm hperm (haverage' c) (haverage c)
  have hscores (c : Category) :
      (Analysis.ofScores aggregatedName scores' (attributed others) none).score c =
        (Analysis.ofScores aggregatedName scores (attributed results) none).score c := by
    simp only [Analysis.score, Analysis.category_ofScores, hscore c]
  have htotal : Analysis.sum scores' = Analysis.sum scores := by
    simp only [Analysis.sum, hscore]
  exact ⟨hscores, htotal, fun mode => Readiness.ofAnalysis_congr hscores htotal (hcritical mode)⟩

theorem error_of_ofFiles {grammar : Grammar} {files : List FileInput} (hne : files ≠ [])
    {e : ReviewError} (h : ofFiles grammar files = .error e) :
    ∃ f ∈ files, Analysis.ofSubmission grammar f.filename (.string f.content) = .error e := by
  rcases ofFiles_cases grammar hne with ⟨-, batch, hbatch, -⟩ | ⟨f, hf, e', he, hfailed⟩
  · cases h.symm.trans hbatch
  · cases h.symm.trans hfailed
    exact ⟨f, hf, he⟩

/-- The files of a change in another order are scored one by one as before. -/
theorem exists_ofFiles_of_perm {grammar : Grammar} {files others : List FileInput}
    (hperm : others.Perm files) (h : ofFiles grammar files = .ok batch) :
    ∃ other, ofFiles grammar others = .ok other ∧
      other.aggregated.JudgedLike batch.aggregated := by
  have hempty : others.isEmpty = false := by
    simpa [hperm.isEmpty_eq] using ne_nil_of_ofFiles h
  obtain ⟨results, hresults, h⟩ := exists_results_of_ofFiles h
  obtain ⟨results', hall, hperm'⟩ :=
    List.perm_comp_forall₂ hperm (forall₂_of_mapM_eq_ok hresults)
  obtain ⟨other, hother⟩ := exists_ofResults_eq_ok results'
  refine ⟨other, ?_, judgedLike_of_perm hperm' hother h⟩
  rw [ofFiles, hempty, mapM_eq_ok_of_forall₂ hall]
  simp [hother]

end Batch

/-- Whether a change has a fingerprint does not depend on the order of its files. -/
theorem Reviewer.exists_fingerprint_of_perm {files others : List FileInput} {hash : Text}
    (hperm : others.Perm files) (hfiles : ∀ f ∈ files, f.IsAccepted)
    (h : fingerprint (Fingerprint.bundle files) = .ok hash) :
    ∃ other, fingerprint (Fingerprint.bundle others) = .ok other := by
  apply exists_fingerprint_bundle
  · intro f hf
    by_contra hname
    have hfailed := Fingerprint.fingerprint_bundle_of_not_scalar (hperm.mem_iff.mp hf)
      (Bool.eq_false_iff.mpr hname)
    cases h.symm.trans hfailed
  · exact fun f hf => (hfiles f (hperm.mem_iff.mp hf)).isScalar

theorem Reviewer.exists_reviewFiles_of_perm {r : Reviewer} {files others : List FileInput}
    {elapsed : Binary64} {report : BatchReport} (hperm : others.Perm files)
    (hfiles : ∀ f ∈ files, f.IsAccepted) (h : r.reviewFiles files elapsed = .ok report)
    (elapsed' : Binary64) :
    ∃ other, r.reviewFiles others elapsed' = .ok other ∧ other.decision = report.decision := by
  obtain ⟨batch, hbatch, h⟩ := bind_eq_ok_iff.mp h
  obtain ⟨hash, hhash, h⟩ := bind_eq_ok_iff.mp h
  cases h
  obtain ⟨other, hother, hlike⟩ := Batch.exists_ofFiles_of_perm hperm hbatch
  obtain ⟨hash', hhash'⟩ := exists_fingerprint_of_perm hperm hfiles (mapError_eq_ok_iff.mp hhash)
  simp only [reviewFiles, hother, hhash', mapError_ok, ok_bind, pure_eq_ok]
  exact ⟨_, rfl, hlike.decision_eq r.mode⟩

/-- The scores of a change are exact means, and no order of its files changes them or the decision.
Averaging never fails: where a change is not scored, one of its files is not. -/
theorem Batch.averages_in_any_order (grammar : Grammar) {files : List FileInput}
    (hne : files ≠ []) (hlength : files.length ≤ 2 ^ 40) (hfiles : ∀ f ∈ files, f.IsAccepted) :
    (∀ e, ofFiles grammar files = .error e →
      ∃ f ∈ files, Analysis.ofSubmission grammar f.filename (.string f.content) = .error e) ∧
    ((∀ f ∈ files, (SourceTree.ofFile grammar f.filename f.content).root.DistinctIds) →
      ∃ batch, ofFiles grammar files = .ok batch) ∧
    ∀ batch, ofFiles grammar files = .ok batch →
      List.Forall₂
        (fun f a => Analysis.ofSubmission grammar f.filename (.string f.content) = .ok a)
        files batch.files ∧
      batch.aggregated.Averages batch.files ∧
      ∀ others : List FileInput, others.Perm files →
        (∃ other, ofFiles grammar others = .ok other ∧
          other.aggregated.JudgedLike batch.aggregated) ∧
        ∀ engine mode elapsed elapsed' report,
          Reviewer.reviewFiles ⟨grammar, engine, mode⟩ files elapsed = .ok report →
          ∃ other, Reviewer.reviewFiles ⟨grammar, engine, mode⟩ others elapsed' = .ok other ∧
            other.decision = report.decision := by
  refine ⟨fun e => error_of_ofFiles hne, exists_ofFiles_eq_ok grammar hne hfiles, fun batch h => ?_⟩
  refine ⟨forall₂_files_of_ofFiles h, averages_of_ofFiles h hlength, fun others hperm => ?_⟩
  refine ⟨exists_ofFiles_of_perm hperm h, fun engine mode elapsed elapsed' report hreport => ?_⟩
  exact Reviewer.exists_reviewFiles_of_perm hperm hfiles hreport elapsed'

/-- Four halves rounded up: with one of its two files broken, a change has two points more than its
files have on average. -/
theorem Batch.averages_callOrBroken :
    (∀ f ∈ [FileInput.mk "a.js" "eval(x)", ⟨"b.js", "("⟩], f.IsAccepted) ∧
      ∃ batch other,
        ofFiles .callOrBroken [⟨"a.js", "eval(x)"⟩, ⟨"b.js", "("⟩] = .ok batch ∧
        Category.all.map batch.aggregated.score = [13, 13, 13, 9] ∧
        batch.aggregated.totalScore.val = 48 ∧ total (batch.files.map (·.totalScore.val)) = 92 ∧
        ofFiles .callOrBroken [⟨"b.js", "("⟩, ⟨"a.js", "eval(x)"⟩] = .ok other ∧
        other.aggregated.JudgedLike batch.aggregated := by
  have hfiles : ∀ f ∈ [FileInput.mk "a.js" "eval(x)", ⟨"b.js", "("⟩], f.IsAccepted :=
    List.forall_mem_cons.mpr ⟨rfl, List.forall_mem_singleton.mpr rfl⟩
  obtain ⟨-, hexists, hbatch⟩ :=
    averages_in_any_order .callOrBroken (List.cons_ne_nil _ _) (by decide) hfiles
  obtain ⟨batch, h⟩ := hexists (by decide +kernel)
  obtain ⟨hall, haverages, horder⟩ := hbatch batch h
  obtain ⟨⟨other, hother, hlike⟩, -⟩ := horder [⟨"b.js", "("⟩, ⟨"a.js", "eval(x)"⟩] (.swap _ _ _)
  obtain ⟨a, hscored, hscores, htotal⟩ : ∃ a,
      Analysis.ofSubmission .callOrBroken "a.js" (.string "eval(x)") = .ok a ∧
        Category.all.map a.score = [25, 25, 25, 17] ∧ a.totalScore.val = 92 :=
    ⟨_, Analysis.ofSubmission_of_clean .callOrBroken (f := ⟨"a.js", "eval(x)"⟩) rfl
      (by decide +kernel) rfl, by decide +kernel, by decide +kernel⟩
  obtain ⟨message, hfailed⟩ : ∃ message,
      Analysis.ofSubmission .callOrBroken "b.js" (.string "(") = .ok (.failed "b.js" message) :=
    Analysis.exists_ofSubmission_eq_failed (f := ⟨"b.js", "("⟩) rfl rfl
  obtain ⟨files, aggregated, critical⟩ := batch
  obtain _ | ⟨ha, _ | ⟨hb, ⟨⟩⟩⟩ := hall
  cases ha.symm.trans hscored
  cases hb.symm.trans hfailed
  have hmeans : Category.all.map aggregated.score = [13, 13, 13, 9] := by
    have hzero (c : Category) : (Analysis.failed "b.js" message).score c = 0 := by cases c <;> rfl
    simp only [Category.all, List.map_cons, List.map_nil, List.cons.injEq] at hscores ⊢
    simp [haverages.score_eq, hscores, hzero]
  refine ⟨hfiles, _, other, h, hmeans, ?_, ?_, hother, hlike⟩
  · rw [haverages.total_eq]
    exact congrArg total hmeans
  · have hzero : (Analysis.failed "b.js" message).totalScore.val = 0 := rfl
    simp [htotal, hzero]

end ScriptReview
