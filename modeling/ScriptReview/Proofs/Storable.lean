import ScriptReview.Proofs.Records
import ScriptReview.Reviewing

namespace ScriptReview

open Json (IsDecimal)

theorem Json.isDecimal_zero : IsDecimal (.finite 0) :=
  ⟨0, "0", by decide, by decide, rfl, by decide +kernel⟩

theorem CostFactor.isDecimal_weight (f : CostFactor) : IsDecimal f.weight := by
  cases f with
  | nesting => exact ⟨0, "25", by decide, by decide, by decide +kernel, by decide +kernel⟩
  | complexity => exact ⟨0, "3", by decide, by decide, by decide +kernel, by decide +kernel⟩
  | length => exact ⟨0, "2", by decide, by decide, by decide +kernel, by decide +kernel⟩
  | security => exact ⟨0, "25", by decide, by decide, by decide +kernel, by decide +kernel⟩

theorem Dictionary.isScalar_empty {α : Type} : (empty : Dictionary α).IsScalar :=
  nofun

theorem Dictionary.isScalar_ofList {α : Type} {es : List (Text × α)}
    (h : ∀ e ∈ es, e.1.isScalar = true) : (ofList es).IsScalar :=
  fun e he => h e (Entries.mem_of_mem_joined he)

theorem Analysis.isScalar_scoresByName (a : Analysis) : a.scoresByName.IsScalar := by
  apply Dictionary.isScalar_ofList
  intro e he
  obtain ⟨c, -, rfl⟩ := List.mem_map.1 he
  exact Text.isScalar_ofString c.name

theorem Readiness.categoryScores_ofAnalysis (a : Analysis) (mode : Text) :
    (ofAnalysis a mode).details.categoryScores = a.scoresByName := by
  unfold ofAnalysis
  dsimp only
  split_ifs <;> rfl

theorem VerdictReport.isScalar_thresholds (a : Analysis) :
    (ofAnalysis a).details.thresholds.IsScalar := by
  unfold ofAnalysis ofScore
  dsimp only
  split_ifs
  · apply Dictionary.isScalar_ofList
    simp
  · exact Dictionary.isScalar_empty

theorem ReviewCost.isPlain_unparsable : unparsable.IsPlain :=
  ⟨Dictionary.isScalar_empty, nofun⟩

/-- The factors of an index are shares under the names of their factors. -/
theorem ReviewCost.shares_of_ofMetrics {m : Metrics} {securityScore : Int} {c : ReviewCost}
    (h : ofMetrics m securityScore = .ok c) :
    ∀ e ∈ c.factors.entries, ∃ f : CostFactor,
      e.1 = Text.ofString f.name ∧ IsShare m securityScore f e.2 := by
  obtain ⟨c', shares, hc, hfactors, hshares⟩ := ofMetrics_eq_ok m securityScore
  cases hc.symm.trans h
  intro e he
  rw [hfactors] at he
  obtain ⟨f, -, rfl⟩ := List.mem_map.1 (Entries.mem_of_mem_joined he)
  exact ⟨f, rfl, hshares f⟩

theorem ReviewCost.isPlain_ofMetrics {m : Metrics} {securityScore : Int} {c : ReviewCost}
    (h : ofMetrics m securityScore = .ok c) : c.IsPlain := by
  constructor
  · intro e he
    obtain ⟨f, hname, -⟩ := shares_of_ofMetrics h e he
    rw [hname]
    exact Text.isScalar_ofString f.name
  · intro e he
    obtain ⟨f, -, hshare⟩ := shares_of_ofMetrics h e he
    rw [hshare.weight]
    exact f.isDecimal_weight

namespace Reviewer

theorem isPlain_of_review {r : Reviewer} {filename : Text} {source : Json} {elapsed : Binary64}
    {report : Report} (h : r.review filename source elapsed = .ok report)
    (hissues : report.analysis.IsPlain) (helapsed : IsDecimal elapsed) : report.IsPlain := by
  obtain ⟨code, -, h⟩ := bind_eq_ok_iff.1 h
  rw [mapError_eq_ok_iff] at h
  obtain ⟨parsed, -, h⟩ := bind_eq_ok_iff.1 h
  cases parsed with
  | error message =>
      obtain ⟨hash, -, h⟩ := bind_eq_ok_iff.1 h
      cases h
      exact ⟨hissues, Analysis.isScalar_scoresByName _, ReviewCost.isPlain_unparsable,
        VerdictReport.isScalar_thresholds _, helapsed⟩
  | ok tree =>
      obtain ⟨analysis, -, h⟩ := bind_eq_ok_iff.1 h
      obtain ⟨metrics, -, h⟩ := bind_eq_ok_iff.1 h
      obtain ⟨cost, hcost, h⟩ := bind_eq_ok_iff.1 h
      obtain ⟨hash, -, h⟩ := bind_eq_ok_iff.1 h
      cases h
      have hscores := Analysis.isScalar_scoresByName analysis
      rw [← Readiness.categoryScores_ofAnalysis analysis r.mode] at hscores
      exact ⟨hissues, hscores, ReviewCost.isPlain_ofMetrics hcost,
        VerdictReport.isScalar_thresholds analysis, helapsed⟩

end Reviewer

end ScriptReview
