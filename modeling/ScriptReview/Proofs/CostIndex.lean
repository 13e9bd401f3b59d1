import Mathlib.Data.List.Induction
import ScriptReview.Proofs.Cost
import ScriptReview.Proofs.Number.Halves

namespace ScriptReview

theorem total_map_le {α : Type} {f g : α → ℕ} {xs : List α} (h : ∀ x ∈ xs, f x ≤ g x) :
    total (xs.map f) ≤ total (xs.map g) := by
  induction xs with
  | nil => rfl
  | cons x xs ih =>
      rw [List.forall_mem_cons] at h
      exact Nat.add_le_add h.1 (ih h.2)

namespace CostFactor

def percent : CostFactor → ℕ
  | nesting => 25
  | complexity => 30
  | length => 20
  | security => 25

theorem total_percent : total (all.map percent) = 100 := rfl

/-- Where a weight is not exact, it is off by less than rounding a product makes up for. -/
theorem exists_weight_eq (f : CostFactor) :
    ∃ w : ℚ, f.weight = .finite w ∧ (f.percent : ℚ) / 100 - w < w / 2 ^ 54 ∧
      w ≤ f.percent / 100 + 1 / 2 ^ 30 := by
  cases f with
  | nesting | security =>
      exact ⟨1 / 4, by decide +kernel, by norm_num [percent], by norm_num [percent]⟩
  | complexity =>
      exact ⟨5404319552844595 / 2 ^ 54, by decide +kernel, by norm_num [percent],
        by norm_num [percent]⟩
  | length =>
      exact ⟨3602879701896397 / 2 ^ 54, by decide +kernel, by norm_num [percent],
        by norm_num [percent]⟩

theorem percent_le (f : CostFactor) : f.percent ≤ 100 := by
  cases f <;> decide

theorem roundHalfUp_weighted (f : CostFactor) {n : ℕ} (hn : n ≤ 100) :
    (Binary64.ofInt n * f.weight).roundHalfUp = .ok ((n * f.percent + 50) / 100 : ℕ) := by
  obtain ⟨w, hw, hlow, hhigh⟩ := f.exists_weight_eq
  rw [hw]
  exact Binary64.roundHalfUp_mul_percent f.percent_le hn hlow hhigh

theorem weight_eq (f : CostFactor) : f.weight = .ofRat (f.percent / 100) := by
  cases f <;> norm_num [weight, percent]

def Leads (contribution : CostFactor → ℕ) (f : CostFactor) : Prop :=
  ∃ before after, all = before ++ f :: after ∧ (∀ g ∈ before, contribution g < contribution f) ∧
    ∀ g ∈ after, contribution g ≤ contribution f

end CostFactor

namespace CostLevel

def rank : CostLevel → ℕ
  | low => 0
  | medium => 1
  | high => 2

theorem rank_ofScore_mono {s t : Int} (h : s ≤ t) : (ofScore s).rank ≤ (ofScore t).rank := by
  unfold ofScore
  split_ifs <;> simp only [rank] <;> omega

end CostLevel

namespace ReviewCost

structure IsExact (m : Metrics) (securityScore : Int) (f : CostFactor) (s : CostShare) : Prop where
  rawValue_eq : s.rawValue = f.rawValue m securityScore
  normalized_eq : normalize s.rawValue f.band.1 f.band.2 = .ok s.normalized.val
  weight_eq : s.weight = .ofRat (f.percent / 100)
  contribution_eq : (s.contribution : ℤ) = ⌊(s.normalized.val : ℚ) * (f.percent / 100) + 1 / 2⌋

theorem floor_weighted (n a : ℕ) : ⌊(n : ℚ) * (a / 100) + 1 / 2⌋ = ((n * a + 50) / 100 : ℕ) := by
  have hsum : (n : ℚ) * (a / 100) + 1 / 2 = (n * a + 50 : ℕ) / (100 : ℕ) := by
    push_cast
    ring
  rw [hsum, Rat.floor_natCast_div_natCast]
  norm_cast

theorem exists_isExact (m : Metrics) (securityScore : Int) (f : CostFactor) :
    ∃ s, IsExact m securityScore f s ∧ share m securityScore f = .ok (f, s) := by
  obtain ⟨n, hn, hnorm⟩ := normalize_eq_ok (f.rawValue m securityScore) f.band.1 f.band.2
  refine ⟨_, ?_, share_of_rounded hn hnorm (f.roundHalfUp_weighted hn)⟩
  exact ⟨rfl, hnorm, f.weight_eq, (floor_weighted n f.percent).symm⟩

/-- A factor contributes at most its weight. -/
theorem IsExact.contribution_le {m : Metrics} {securityScore : Int} {f : CostFactor} {s : CostShare}
    (h : IsExact m securityScore f s) : s.contribution ≤ f.percent := by
  have hn := s.normalized.isLt
  have hcontribution := h.contribution_eq
  rw [floor_weighted, Nat.cast_inj] at hcontribution
  cases f <;> simp only [CostFactor.percent] at hcontribution ⊢ <;> omega

theorem largest_concat (first : CostFactor × CostShare) (rest : List (CostFactor × CostShare))
    (s : CostFactor × CostShare) :
    largest first (rest ++ [s]) =
      if (largest first rest).2.contribution < s.2.contribution then s else largest first rest := by
  rw [largest, List.foldl_concat, largest]

theorem exists_largest_eq (first : CostFactor × CostShare) (rest : List (CostFactor × CostShare)) :
    ∃ before after, first :: rest = before ++ largest first rest :: after ∧
      (∀ s ∈ before, s.2.contribution < (largest first rest).2.contribution) ∧
      ∀ s ∈ after, s.2.contribution ≤ (largest first rest).2.contribution := by
  -- from the end: one more share leads only if it contributes more than the leader of the others
  induction rest using List.reverseRecOn with
  | nil => exact ⟨[], [], rfl, List.forall_mem_nil _, List.forall_mem_nil _⟩
  | append_singleton rest s ih =>
      obtain ⟨before, after, hsplit, hbefore, hafter⟩ := ih
      rw [largest_concat]
      split_ifs with hlead
      · refine ⟨first :: rest, [], rfl, ?_, List.forall_mem_nil _⟩
        rw [hsplit]
        simp only [List.forall_mem_append, List.forall_mem_cons]
        exact ⟨fun t ht => (hbefore t ht).trans hlead, hlead,
          fun t ht => (hafter t ht).trans_lt hlead⟩
      · refine ⟨before, after ++ [s], ?_, hbefore, ?_⟩
        · rw [← List.cons_append, hsplit, List.append_assoc, List.cons_append]
        · rw [List.forall_mem_append, List.forall_mem_singleton]
          exact ⟨hafter, not_lt.mp hlead⟩

theorem exists_leads (shares : CostFactor → CostShare) :
    ∃ f, f.Leads (fun g => (shares g).contribution) ∧
      largest (.nesting, shares .nesting)
        [(.complexity, shares .complexity), (.length, shares .length),
          (.security, shares .security)] = (f, shares f) := by
  obtain ⟨before, after, hsplit, hbefore, hafter⟩ := exists_largest_eq (.nesting, shares .nesting)
    [(.complexity, shares .complexity), (.length, shares .length), (.security, shares .security)]
  generalize largest _ _ = top at hsplit hbefore hafter ⊢
  have hmap : CostFactor.all.map (fun f => (f, shares f)) = before ++ top :: after := hsplit
  obtain ⟨ahead, behind, hall, rfl, hbehind⟩ := List.map_eq_append_iff.mp hmap
  obtain ⟨f, behind, rfl, rfl, rfl⟩ := List.map_eq_cons_iff.mp hbehind
  refine ⟨f, ⟨ahead, behind, hall, fun g hg => ?_, fun g hg => ?_⟩, rfl⟩
  · exact hbefore _ (List.mem_map_of_mem hg)
  · exact hafter _ (List.mem_map_of_mem hg)

theorem title_infix_explain (level : CostLevel) (score : Fin 101) (top : CostFactor × CostShare) :
    Text.ofString top.1.title <:+: explain level score top := by
  have hpoints : Text.ofString top.1.title <:+: Text.ofString top.1.title ++ " (" ++
      Text.number top.2.contribution ++ " points). " := by
    simp only [List.append_assoc]
    exact (List.prefix_append _ _).isInfix
  cases level with
  | low | high => exact hpoints.trans (List.infix_append _ _ _)
  | medium => exact List.infix_append _ _ _

structure Itemizes (c : ReviewCost) (m : Metrics) (securityScore : Int)
    (shares : CostFactor → CostShare) : Prop where
  isExact : ∀ f, IsExact m securityScore f (shares f)
  factors_eq : c.factors = .ofList (CostFactor.all.map fun f => (Text.ofString f.name, shares f))
  score_eq : c.score.val = total (CostFactor.all.map fun f => (shares f).contribution)
  level_eq : c.level = .ofScore c.score.val
  explained : ∃ f, f.Leads (fun g => (shares g).contribution) ∧
    c.explanation = explain c.level c.score (f, shares f) ∧
    Text.ofString f.title <:+: c.explanation

/-- The weights add up to one, so that the sum needs no clamp. -/
theorem total_contribution_le {m : Metrics} {securityScore : Int} {shares : CostFactor → CostShare}
    (h : ∀ f, IsExact m securityScore f (shares f)) :
    total (CostFactor.all.map fun f => (shares f).contribution) ≤ 100 := by
  rw [← CostFactor.total_percent]
  apply total_map_le
  exact fun f _ => (h f).contribution_le

theorem exists_itemizes (m : Metrics) (securityScore : Int) :
    ∃ c shares, ofMetrics m securityScore = .ok c ∧ c.Itemizes m securityScore shares := by
  choose shares hexact hshare using exists_isExact m securityScore
  obtain ⟨f, hleads, htop⟩ := exists_leads shares
  have hsum := total_contribution_le hexact
  simp only [ofMetrics, hshare, ok_bind, pure_eq_ok, htop]
  refine ⟨_, shares, rfl, hexact, rfl, min_eq_right hsum, rfl, f, hleads, rfl, ?_⟩
  exact title_infix_explain _ _ (f, shares f)

theorem rank_level_ofMetrics_mono {m m' : Metrics} {s s' : Int}
    (h : ∀ f : CostFactor, f.rawValue m s ≤ f.rawValue m' s') :
    ∃ c c' : ReviewCost, ofMetrics m s = .ok c ∧ ofMetrics m' s' = .ok c' ∧
      c.score ≤ c'.score ∧ c.level.rank ≤ c'.level.rank := by
  obtain ⟨c, c', hc, hc', hle⟩ := score_ofMetrics_mono h
  obtain ⟨d, shares, hd, hitems⟩ := exists_itemizes m s
  obtain ⟨d', shares', hd', hitems'⟩ := exists_itemizes m' s'
  cases hc.symm.trans hd
  cases hc'.symm.trans hd'
  refine ⟨c, c', hc, hc', hle, ?_⟩
  rw [hitems.level_eq, hitems'.level_eq]
  exact CostLevel.rank_ofScore_mono (by exact_mod_cast hle)

end ReviewCost

/-- Every source has an index. It is the sum of exact contributions, the first of the largest
explains it, and no source that is worse in nothing has a lower one. -/
theorem ReviewCost.itemized_and_monotone (m : Metrics) (securityScore : Int) :
    ∃ c shares, ofMetrics m securityScore = .ok c ∧ c.Itemizes m securityScore shares ∧
      ∀ m' securityScore', m.maxNesting ≤ m'.maxNesting → m.maxComplexity ≤ m'.maxComplexity →
        m.maxLength ≤ m'.maxLength → securityScore' ≤ securityScore →
        ∃ c', ofMetrics m' securityScore' = .ok c' ∧ c.score ≤ c'.score ∧
          c.level.rank ≤ c'.level.rank := by
  obtain ⟨c, shares, hc, hitems⟩ := exists_itemizes m securityScore
  refine ⟨c, shares, hc, hitems, fun m' s' hnesting hcomplexity hlength hsecurity => ?_⟩
  have hraw (f : CostFactor) : f.rawValue m securityScore ≤ f.rawValue m' s' := by
    cases f <;> simp only [CostFactor.rawValue] <;> omega
  obtain ⟨d, c', hd, hc', hscore, hlevel⟩ := rank_level_ofMetrics_mono hraw
  cases hc.symm.trans hd
  exact ⟨c', hc', hscore, hlevel⟩

/-- A contribution of nine and a half is rounded up, a tie goes to the first factor, and values
beyond their bands reach the top of the index. -/
theorem ReviewCost.itemized_tie :
    ∃ c c', ofMetrics ⟨3, 1, 0, 1⟩ 15 = .ok c ∧ c.score = 20 ∧
      c.explanation = explain .low 20 (.nesting, ⟨3, 38, .ofRat (1 / 4), 10⟩) ∧
      ofMetrics ⟨20, 80, 500, 1⟩ (-3) = .ok c' ∧ c'.score = 100 ∧ c.score ≤ c'.score ∧
      c.level.rank ≤ c'.level.rank := by
  obtain ⟨c, shares, hc, -, hmono⟩ := itemized_and_monotone ⟨3, 1, 0, 1⟩ 15
  obtain ⟨c', hc', hscore, hlevel⟩ :=
    hmono ⟨20, 80, 500, 1⟩ (-3) (by decide) (by decide) (by decide) (by decide)
  have hlow : (ofMetrics ⟨3, 1, 0, 1⟩ 15).toOption.map (fun c => (c.score, c.explanation)) =
      some (20, explain .low 20 (.nesting, ⟨3, 38, .ofRat (1 / 4), 10⟩)) := by decide +kernel
  have hhigh : (ofMetrics ⟨20, 80, 500, 1⟩ (-3)).toOption.map score = some 100 := by decide +kernel
  rw [hc] at hlow
  rw [hc'] at hhigh
  obtain ⟨hvalue, hexplanation⟩ := Prod.mk.inj (Option.some.inj hlow)
  exact ⟨c, c', hc, hvalue, hexplanation, hc', Option.some.inj hhigh, hscore, hlevel⟩

end ScriptReview
