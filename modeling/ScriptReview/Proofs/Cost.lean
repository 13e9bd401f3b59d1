import ScriptReview.Cost
import ScriptReview.Proofs.Json.Decoding
import ScriptReview.Proofs.Number.Monotone
import ScriptReview.Proofs.Outcome

namespace ScriptReview

/-- Two values inside a band are shares of it, in their order. -/
theorem ordered_shares {value value' low high : Int} (hlow : low ≤ value) (h : value ≤ value')
    (hhigh : value' < high) :
    Binary64.Ordered 1 (.quotient (value - low) (high - low))
      (.quotient (value' - low) (high - low)) := by
  have hpos : (0 : ℚ) < high - low := by
    rw [sub_pos]
    exact_mod_cast (by omega : low < high)
  refine Binary64.ordered_ofRat (by omega) ?_ ?_ ?_ <;> push_cast
  · exact div_nonneg (sub_nonneg.2 (by exact_mod_cast hlow)) hpos.le
  · gcongr
  · rw [div_le_one hpos]
    have hv : (value' : ℚ) ≤ high := by exact_mod_cast hhigh.le
    linarith

theorem between_share {value low high : Int} (hlow : low ≤ value) (hhigh : value < high) :
    Binary64.Between 0 (1 : ℕ) (.quotient (value - low) (high - low)) :=
  (ordered_shares hlow le_rfl hhigh).between

theorem between_hundred : Binary64.Between 0 (100 : ℕ) (.ofInt 100) :=
  Binary64.between_ofRat_nat (by omega) (by norm_num) (by norm_num)

theorem normalize_eq_ok (value low high : Int) :
    ∃ n : ℕ, n ≤ 100 ∧ normalize value low high = .ok n := by
  rw [normalize]
  split_ifs with hlow hhigh
  · exact ⟨0, by omega, rfl⟩
  · exact ⟨100, by omega, rfl⟩
  · have hq := between_share (by omega : low ≤ value) (by omega : value < high)
    exact (hq.mul (by omega) between_hundred).roundHalfUp (by omega)

theorem normalize_mono {value value' : Int} (h : value ≤ value') (low high : Int) :
    ∃ n n' : ℕ, n ≤ n' ∧ n' ≤ 100 ∧ normalize value low high = .ok n ∧
      normalize value' low high = .ok n' := by
  obtain ⟨n, hn, hvalue⟩ := normalize_eq_ok value low high
  obtain ⟨n', hn', hvalue'⟩ := normalize_eq_ok value' low high
  by_cases hlow : value ≤ low
  · refine ⟨0, n', by omega, hn', ?_, hvalue'⟩
    rw [normalize, if_pos hlow]
    rfl
  · by_cases hhigh : high ≤ value'
    · refine ⟨n, 100, hn, le_rfl, hvalue, ?_⟩
      rw [normalize, if_neg (by omega), if_pos hhigh]
      rfl
    · have hq := ordered_shares (by omega : low ≤ value) h (by omega : value' < high)
      rw [normalize, if_neg hlow, if_neg (by omega), normalize, if_neg (by omega), if_neg hhigh]
      obtain ⟨k, l, hkl, hl, hk, hround⟩ :=
        (hq.mul (by omega) between_hundred.ordered).roundHalfUp (by omega)
      exact ⟨k, l, hkl, hl, hk, hround⟩

namespace CostFactor

theorem between_weight (f : CostFactor) : Binary64.Between 0 (1 : ℕ) f.weight := by
  cases f <;> exact Binary64.between_ofRat_nat (by omega) (by norm_num) (by norm_num)

end CostFactor

namespace CostShare

open Decoder

theorem decode_toJson (s : CostShare) : decode s.toJson = .valid s := by
  rw [decode, toJson, model_record, required_record rfl (int_int s.rawValue),
    required_record rfl (natUpTo_int s.normalized), required_record rfl (real_real s.weight),
    required_record rfl (nat_int s.contribution)]
  rfl

theorem make_eq_valid (raw : Int) {n : ℕ} (hn : n ≤ 100) (w : Binary64) (k : ℕ) :
    make raw n w k = .valid ⟨raw, ⟨n, by omega⟩, w, k⟩ :=
  decode_toJson ⟨raw, ⟨n, by omega⟩, w, k⟩

end CostShare

namespace ReviewCost

structure IsShare (m : Metrics) (securityScore : Int) (f : CostFactor) (s : CostShare) : Prop where
  rawValue : s.rawValue = f.rawValue m securityScore
  weight : s.weight = f.weight
  contribution : s.contribution ≤ 100

theorem share_of_rounded {m : Metrics} {securityScore : Int} {f : CostFactor} {n k : ℕ}
    (hn : n ≤ 100)
    (hnorm : normalize (f.rawValue m securityScore) f.band.1 f.band.2 = .ok n)
    (hround : (Binary64.ofInt n * f.weight).roundHalfUp = .ok k) :
    share m securityScore f =
      .ok (f, ⟨f.rawValue m securityScore, ⟨n, by omega⟩, f.weight, k⟩) := by
  simp [share, rounded, hnorm, hround, CostShare.make_eq_valid _ hn]

/-- Every share is found. -/
theorem share_eq_ok (m : Metrics) (securityScore : Int) (f : CostFactor) :
    ∃ s, IsShare m securityScore f s ∧ share m securityScore f = .ok (f, s) := by
  obtain ⟨n, hn, hnorm⟩ := normalize_eq_ok (f.rawValue m securityScore) f.band.1 f.band.2
  have hint : Binary64.Between 0 (100 : ℕ) (.ofInt n) :=
    Binary64.between_ofRat_nat (by omega) (by positivity) (by exact_mod_cast hn)
  obtain ⟨k, hk, hround⟩ := (hint.mul (by omega) f.between_weight).roundHalfUp (by omega)
  exact ⟨_, ⟨rfl, rfl, by omega⟩, share_of_rounded hn hnorm hround⟩

theorem share_mono {m m' : Metrics} {s s' : Int} {f : CostFactor}
    (h : f.rawValue m s ≤ f.rawValue m' s') :
    ∃ x y : CostShare, share m s f = .ok (f, x) ∧ share m' s' f = .ok (f, y) ∧
      x.contribution ≤ y.contribution := by
  obtain ⟨n, n', hnn, hn', hnorm, hnorm'⟩ := normalize_mono h f.band.1 f.band.2
  have hint : Binary64.Ordered 100 (.ofInt n) (.ofInt n') :=
    Binary64.ordered_ofRat (by omega) (by positivity) (by exact_mod_cast hnn)
      (by exact_mod_cast hn')
  obtain ⟨k, l, hkl, -, hk, hl⟩ :=
    (hint.mul (by omega) f.between_weight.ordered).roundHalfUp (by omega)
  exact ⟨_, _, share_of_rounded (hnn.trans hn') hnorm hk, share_of_rounded hn' hnorm' hl, hkl⟩

/-- A source that is worse in no factor costs no less. -/
theorem score_ofMetrics_mono {m m' : Metrics} {s s' : Int}
    (h : ∀ f : CostFactor, f.rawValue m s ≤ f.rawValue m' s') :
    ∃ c c' : ReviewCost, ofMetrics m s = .ok c ∧ ofMetrics m' s' = .ok c' ∧
      c.score ≤ c'.score := by
  choose x y hx hy hle using fun f => share_mono (h f)
  simp only [ofMetrics, hx, hy, ok_bind, pure_eq_ok]
  refine ⟨_, _, rfl, rfl, ?_⟩
  have hnesting := hle .nesting
  have hcomplexity := hle .complexity
  have hlength := hle .length
  have hsecurity := hle .security
  simp only [Fin.mk_le_mk, List.map_cons, List.map_nil, total_cons, total_nil]
  omega

/-- The index is found, with one share for each factor. -/
theorem ofMetrics_eq_ok (m : Metrics) (securityScore : Int) :
    ∃ (c : ReviewCost) (shares : CostFactor → CostShare), ofMetrics m securityScore = .ok c ∧
      c.factors = .ofList (CostFactor.all.map fun f => (Text.ofString f.name, shares f)) ∧
      ∀ f, IsShare m securityScore f (shares f) := by
  choose shares hshares hshare using share_eq_ok m securityScore
  simp only [ofMetrics, hshare, ok_bind, pure_eq_ok]
  exact ⟨_, shares, rfl, rfl, hshares⟩

end ReviewCost

end ScriptReview
