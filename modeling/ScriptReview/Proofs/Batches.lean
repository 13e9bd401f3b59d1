import ScriptReview.Proofs.Paths

namespace ScriptReview

theorem total_le_mul {bound : Nat} {ns : List Nat} (h : ∀ n ∈ ns, n ≤ bound) :
    total ns ≤ bound * ns.length := by
  induction ns with
  | nil => simp
  | cons n ns ih =>
      have hn := h n List.mem_cons_self
      have hns := ih fun m hm => h m (List.mem_cons_of_mem n hm)
      rw [total_cons, List.length_cons, Nat.mul_succ]
      omega

theorem Binary64.between_quotient {bound n k : ℕ} (hbound : bound ≤ 2 ^ 52) (h : n ≤ bound * k) :
    Between 0 bound (quotient n k) := by
  apply between_ofRat_nat hbound
  · positivity
  · push_cast
    apply div_le_of_le_mul₀ (by positivity) (by positivity)
    exact_mod_cast h

namespace Batch

theorem exists_average_eq_ok (results : List Analysis) (c : Category) :
    ∃ s, average results c = .ok s := by
  have hsum : total (results.map fun a => a.score c) ≤ Category.maxScore * results.length := by
    rw [← List.length_map fun a : Analysis => a.score c]
    apply total_le_mul
    intro n hn
    obtain ⟨a, -, rfl⟩ := List.mem_map.mp hn
    exact a.score_le c
  have hmean := Binary64.between_quotient (by decide) hsum
  obtain ⟨k, hk, hround⟩ := hmean.roundHalfUp (by decide)
  have hbound : 0 ≤ (k : Int) ∧ (k : Int).toNat < Category.maxScore + 1 := by omega
  simp only [average, hround, mapError_ok, ok_bind]
  rw [dif_pos hbound]
  exact ⟨_, rfl⟩

theorem exists_ofResults_eq_ok (results : List Analysis) : ∃ batch, ofResults results = .ok batch := by
  obtain ⟨readability, hreadability⟩ := exists_average_eq_ok results .readability
  obtain ⟨complexity, hcomplexity⟩ := exists_average_eq_ok results .complexity
  obtain ⟨edgeCases, hedgeCases⟩ := exists_average_eq_ok results .edgeCases
  obtain ⟨security, hsecurity⟩ := exists_average_eq_ok results .security
  simp only [ofResults, hreadability, hcomplexity, hedgeCases, hsecurity, ok_bind, pure_eq_ok]
  exact ⟨_, rfl⟩

/-- A change is scored if each of its files is, and fails like one of them otherwise. -/
theorem ofFiles_cases (grammar : Grammar) {files : List FileInput} (hne : files ≠ []) :
    (∃ results batch, ofFiles grammar files = .ok batch ∧ ofResults results = .ok batch ∧
      List.Forall₂ (fun f a => Analysis.ofSubmission grammar f.filename (.string f.content) = .ok a)
        files results) ∨
    ∃ f ∈ files, ∃ e, Analysis.ofSubmission grammar f.filename (.string f.content) = .error e ∧
      ofFiles grammar files = .error e := by
  have hempty : files.isEmpty = false := by simpa using hne
  simp only [ofFiles, hempty, Bool.false_eq_true, if_false]
  rcases mapM_cases (fun f : FileInput =>
    Analysis.ofSubmission grammar f.filename (.string f.content)) files with
    ⟨results, hresults⟩ | ⟨f, hf, e, he, hfiles⟩
  · obtain ⟨batch, hbatch⟩ := exists_ofResults_eq_ok results
    refine .inl ⟨results, batch, ?_, hbatch, forall₂_of_mapM_eq_ok hresults⟩
    rw [hresults, ok_bind, hbatch, mapError_ok]
  · refine .inr ⟨f, hf, e, he, ?_⟩
    rw [hfiles, error_bind]

end Batch

end ScriptReview
