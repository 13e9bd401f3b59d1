import ScriptReview.Proofs.Order.Outcome

namespace ScriptReview

def Decision.rank : Decision → Nat
  | notReady => 0
  | needsRefactor => 1
  | ready => 2

def Verdict.rank : Verdict → Nat
  | blockMerge => 0
  | requestChanges => 1
  | approveWithNits => 2
  | approve => 3

namespace Analysis

def leaving (filename : Text) (found : Category → List Issue) : Analysis :=
  ofScores filename (fun c => .left (found c)) ((found .security).filter Issue.isCritical) none

theorem ofTree_eq_leaving {engine : Engine} {tree : SourceTree} {found : Category → List Issue}
    (h : ∀ c, engine c tree = .ok (found c)) (filename : Text) :
    ofTree engine filename tree = .ok (leaving filename found) := by
  simp only [ofTree, Engine.run, h, ok_bind, pure_eq_ok, CategoryScore.ofIssues_eq, Checked.orFail,
    leaving]
  congr 2
  funext c
  cases c <;> rfl

/-- The outcome `y` is in no respect better than `x`. -/
structure NoBetter (y x : Analysis) : Prop where
  score : ∀ c, y.score c ≤ x.score c
  totalScore : y.totalScore ≤ x.totalScore
  decision : ∀ mode, (Readiness.ofAnalysis y mode).decision.rank ≤
    (Readiness.ofAnalysis x mode).decision.rank
  verdict : (VerdictReport.ofAnalysis y).verdict.rank ≤ (VerdictReport.ofAnalysis x).verdict.rank
  cost : ∀ m, ∃ c c', ReviewCost.ofMetrics m x.security.score.val = .ok c ∧
    ReviewCost.ofMetrics m y.security.score.val = .ok c' ∧ c.score ≤ c'.score

theorem totalScore_leaving (filename : Text) (found : Category → List Issue) :
    (leaving filename found).totalScore.val =
      total (Category.all.map (leaving filename found).score) :=
  totalScore_ofScores _ _ _ _

end Analysis

theorem CategoryScore.penaltySum_le_of_sublist {few many : List Issue} (h : few.Sublist many) :
    penaltySum few ≤ penaltySum many :=
  total_le_of_sublist (h.map Issue.penalty)

theorem any_of_sublist {α : Type} {p : α → Bool} {xs ys : List α} (h : xs.Sublist ys)
    (hxs : xs.any p = true) : ys.any p = true := by
  obtain ⟨x, hx, hp⟩ := List.any_eq_true.1 hxs
  exact List.any_eq_true.2 ⟨x, h.subset hx, hp⟩

theorem Decision.rank_le {d d' : Decision} (hreject : d' = .notReady → d = .notReady)
    (hready : d = .ready → d' = .ready) : d.rank ≤ d'.rank := by
  cases d' with
  | notReady => rw [hreject rfl]
  | needsRefactor =>
      cases d with
      | ready => cases hready rfl
      | _ => decide
  | ready => cases d <;> decide

theorem Verdict.rank_ofScore (s : Int) :
    (ofScore s).rank = (if (changesMin : Int) ≤ s then 1 else 0) +
      (if (nitsMin : Int) ≤ s then 1 else 0) + (if (approveMin : Int) ≤ s then 1 else 0) := by
  have hnits : (changesMin : Int) ≤ nitsMin := by decide
  have happrove : (nitsMin : Int) ≤ approveMin := by decide
  unfold ofScore
  by_cases h : (approveMin : Int) ≤ s
  · rw [if_pos h, if_pos h, if_pos (happrove.trans h), if_pos (hnits.trans (happrove.trans h))]
    rfl
  · by_cases h' : (nitsMin : Int) ≤ s
    · rw [if_neg h, if_neg h, if_pos h', if_pos h', if_pos (hnits.trans h')]
      rfl
    · by_cases h'' : (changesMin : Int) ≤ s <;> simp [h, h', h'', rank]

theorem Verdict.rank_ofScore_mono {s t : Int} (h : s ≤ t) :
    (ofScore s).rank ≤ (ofScore t).rank := by
  rw [rank_ofScore, rank_ofScore]
  gcongr <;> split_ifs <;> omega

namespace Readiness

theorem failedCategories_isEmpty (a : Analysis) :
    (failedCategories a).isEmpty = true ↔ ∀ c, rejectCategory ≤ a.score c := by
  rw [List.isEmpty_iff, failedCategories, List.filter_eq_nil_iff]
  constructor
  · intro h c
    have hc : c ∈ Category.all := by cases c <;> decide
    simpa using h c hc
  · intro h c _
    simpa using h c

theorem decision_eq_notReady_iff (a : Analysis) (mode : Text) :
    (ofAnalysis a mode).decision = .notReady ↔
      a.totalScore.val < rejectTotal ∨ ∃ c, a.score c < rejectCategory := by
  have hfailed : (failedCategories a).isEmpty = false ↔ ∃ c, a.score c < rejectCategory := by
    rw [← Bool.not_eq_true, failedCategories_isEmpty]
    push Not
    rfl
  unfold ofAnalysis
  dsimp only
  split_ifs with hreject
  · rw [Bool.or_eq_true, decide_eq_true_iff, Bool.not_eq_true', hfailed] at hreject
    exact iff_of_true rfl hreject
  all_goals
    rw [Bool.or_eq_true, decide_eq_true_iff, Bool.not_eq_true', hfailed] at hreject
    exact iff_of_false nofun hreject

theorem decision_eq_ready_iff (a : Analysis) (mode : Text) :
    (ofAnalysis a mode).decision = .ready ↔ refactorMax < a.totalScore.val ∧
      (∀ c, rejectCategory ≤ a.score c) ∧ hasCriticalDeductions a mode = false := by
  have hmax : rejectTotal ≤ refactorMax := by decide
  rw [← failedCategories_isEmpty]
  unfold ofAnalysis
  dsimp only
  split_ifs with hreject htotal hcritical
  · rw [Bool.or_eq_true, decide_eq_true_iff, Bool.not_eq_true'] at hreject
    refine iff_of_false nofun ?_
    rintro ⟨hhigh, hempty, -⟩
    rcases hreject with hlow | hfailed
    · omega
    · rw [hempty] at hfailed
      cases hfailed
  · exact iff_of_false nofun fun h => absurd h.1 (by omega)
  · exact iff_of_false nofun fun h => by simp [hcritical] at h
  · rw [Bool.or_eq_true, not_or, Bool.not_eq_true', Bool.not_eq_false] at hreject
    exact iff_of_true rfl ⟨by omega, hreject.2, by simpa using hcritical⟩

/-- A decision falls as points fall, and as critical deductions come in. -/
theorem rank_ofAnalysis_le {x y : Analysis} {mode : Text} (hscore : ∀ c, y.score c ≤ x.score c)
    (htotal : y.totalScore.val ≤ x.totalScore.val)
    (hcritical : hasCriticalDeductions x mode = true → hasCriticalDeductions y mode = true) :
    (ofAnalysis y mode).decision.rank ≤ (ofAnalysis x mode).decision.rank := by
  apply Decision.rank_le
  · rw [decision_eq_notReady_iff, decision_eq_notReady_iff]
    rintro (hx | ⟨c, hc⟩)
    · exact .inl (htotal.trans_lt hx)
    · exact .inr ⟨c, (hscore c).trans_lt hc⟩
  · rw [decision_eq_ready_iff, decision_eq_ready_iff]
    rintro ⟨hy, hcategories, hclear⟩
    refine ⟨hy.trans_le htotal, fun c => (hcategories c).trans (hscore c), ?_⟩
    rw [← Bool.not_eq_true] at hclear ⊢
    exact fun hx => hclear (hcritical hx)

end Readiness

namespace Analysis

variable {few many : Category → List Issue} (filename : Text)

theorem score_leaving (found : Category → List Issue) (c : Category) :
    (leaving filename found).score c =
      Category.maxScore - CategoryScore.penaltySum (found c) := by
  rw [score, leaving, category_ofScores]
  rfl

theorem hasCriticalDeductions_leaving_of_sublist
    (h : (few .security).Sublist (many .security)) {mode : Text}
    (hfew : Readiness.hasCriticalDeductions (leaving filename few) mode = true) :
    Readiness.hasCriticalDeductions (leaving filename many) mode = true := by
  rw [Readiness.hasCriticalDeductions] at hfew ⊢
  split_ifs at hfew ⊢
  · exact any_of_sublist (h.map Issue.comment) hfew
  · exact any_of_sublist (h.filter Issue.isCritical) hfew

theorem noBetter_leaving (h : ∀ c, (few c).Sublist (many c)) :
    (leaving filename many).NoBetter (leaving filename few) := by
  have hscore : ∀ c, (leaving filename many).score c ≤ (leaving filename few).score c := by
    intro c
    rw [score_leaving, score_leaving]
    exact Nat.sub_le_sub_left (CategoryScore.penaltySum_le_of_sublist (h c)) _
  have htotal : (leaving filename many).totalScore.val ≤ (leaving filename few).totalScore.val := by
    have hreadability := hscore .readability
    have hcomplexity := hscore .complexity
    have hedgeCases := hscore .edgeCases
    have hsecurity := hscore .security
    rw [totalScore_leaving, totalScore_leaving]
    simp only [Category.all, List.map_cons, List.map_nil, total_cons, total_nil]
    omega
  refine ⟨hscore, htotal, fun mode => ?_, ?_, fun m => ?_⟩
  · exact Readiness.rank_ofAnalysis_le hscore htotal
      (hasCriticalDeductions_leaving_of_sublist filename (h .security))
  · rw [VerdictReport.ofAnalysis, VerdictReport.verdict_ofScore, VerdictReport.ofAnalysis,
      VerdictReport.verdict_ofScore]
    have hfilter : ((few .security).filter Issue.isCritical).Sublist
        ((many .security).filter Issue.isCritical) := (h .security).filter _
    by_cases hempty : (leaving filename many).criticalIssues.isEmpty = true
    · have hfew : (leaving filename few).criticalIssues = [] :=
        List.eq_nil_of_sublist_nil (List.isEmpty_iff.1 hempty ▸ hfilter)
      rw [if_pos hempty, if_pos (List.isEmpty_iff.2 hfew)]
      exact Verdict.rank_ofScore_mono (by exact_mod_cast htotal)
    · rw [if_neg hempty]
      exact Nat.zero_le _
  · apply ReviewCost.score_ofMetrics_mono
    intro f
    cases f with
    | nesting | complexity | length => exact le_rfl
    | security =>
        have hsecurity : (leaving filename many).security.score.val ≤
            (leaving filename few).security.score.val := hscore .security
        simp only [CostFactor.rawValue]
        omega

/-- Whatever two engines are, if one finds in each category what the other finds and possibly more,
both score the tree and the outcome under the one is in no respect better. -/
theorem noBetter_of_sublist {engine engine' : Engine} {tree : SourceTree}
    (hfew : ∀ c, engine c tree = .ok (few c)) (hmany : ∀ c, engine' c tree = .ok (many c))
    (h : ∀ c, (few c).Sublist (many c)) :
    ∃ x y, ofTree engine filename tree = .ok x ∧ ofTree engine' filename tree = .ok y ∧
      y.NoBetter x :=
  ⟨_, _, ofTree_eq_leaving hfew filename, ofTree_eq_leaving hmany filename,
    noBetter_leaving filename h⟩

def warning : Issue := .severe "eval_usage" 0 .critical 1 "Dangerous eval() usage"

def warningEngine : Engine := fun c tree => (Engine.standard c tree).map (warning :: ·)

theorem noBetter_warningEngine :
    let tree : SourceTree := .ofFile (fun _ _ => .evalCall) "a.js" "eval(x)"
    (∀ c, (Engine.found tree c).Sublist (warning :: Engine.found tree c)) ∧
      ∃ x y, ofTree .standard "a.js" tree = .ok x ∧ ofTree warningEngine "a.js" tree = .ok y ∧
        y.NoBetter x := by
  intro tree
  have hids : tree.root.DistinctIds := by decide +kernel
  have hsublist : ∀ c, (Engine.found tree c).Sublist (warning :: Engine.found tree c) :=
    fun c => List.sublist_cons_self _ _
  have hmany : ∀ c, warningEngine c tree = .ok (warning :: Engine.found tree c) := by
    intro c
    rw [warningEngine, Engine.standard_eq_ok hids]
    rfl
  exact ⟨hsublist, noBetter_of_sublist "a.js" (Engine.standard_eq_ok hids) hmany hsublist⟩

end Analysis

end ScriptReview
