import ScriptReview.Proofs.Number.Bounds

/-!
Rounding with halves upwards is exact where it could only go wrong just below a half: a number that
keeps a distance from the next half which its precision can show is not lifted onto it. Quotients of
integers keep such a distance, the larger the smaller the divisor is. A number that should be a half
and is held too small is lifted onto it if it is nearer than any precision can show.
-/

namespace ScriptReview.Binary64

theorem isMagnitude_sub_gap {k p : ℕ} (hk : 0 < k) (h : k * 2 ^ p ≤ 2 ^ 53) (d : ℕ) (hd : d ≤ 53) :
    IsMagnitude ((k - 1 / 2 ^ p) / 2 ^ d) := by
  have hone : 1 ≤ k * 2 ^ p := Nat.mul_pos hk (by positivity)
  have hp : p ≤ 53 := by
    rw [← Nat.pow_le_pow_iff_right (a := 2) (by omega)]
    exact (Nat.le_mul_of_pos_left _ hk).trans h
  have hgap := isMagnitude_div_pow (k := k * 2 ^ p - 1) (p := p + d) (by omega) (by omega)
  convert hgap using 1
  push_cast [hone]
  rw [pow_add]
  field_simp

theorem roundHalfUp_finite {q : ℚ} {k p : ℕ} (hk : (k + 1) * 2 ^ p ≤ 2 ^ 53) (hlow : k ≤ q + 1 / 2)
    (hhigh : q + 1 / 2 ≤ k + 1 - 1 / 2 ^ p) : roundHalfUp (.finite q) = .ok k := by
  have hpos : (0 : ℚ) < 1 / 2 ^ p := by positivity
  have hbound : k + 1 ≤ 2 ^ 53 := (Nat.le_mul_of_pos_right _ (by positivity)).trans hk
  have hbelow : IsMagnitude k := by
    simpa using isMagnitude_div_pow (k := k) (p := 0) (by omega) (by omega)
  have habove := isMagnitude_sub_gap (Nat.succ_pos k) hk 0 (by omega)
  push_cast at habove
  rw [pow_zero, div_one] at habove
  obtain ⟨r, hr, hkr, hrk⟩ := between_ofRat hbelow habove hlow hhigh
  have hle : (k : ℤ) ≤ r.floor := Rat.le_floor_iff.mpr (by exact_mod_cast hkr)
  have hlt : r.floor < k + 1 := by
    rw [Rat.floor_lt_iff]
    push_cast
    linarith
  have hround : roundHalfUp (.finite q) = (ofRat (q + 1 / 2)).floor := rfl
  rw [hround, hr, Binary64.floor, show r.floor = k by omega]

/-- Both roundings keep the bounds: the halves are numbers, and so is what stands one gap below. -/
theorem Between.roundHalfUp_eq {x : Binary64} {k p : ℕ} (hk : (k + 1) * 2 ^ (p + 1) ≤ 2 ^ 53)
    (h : Between ((2 * k - 1 : ℕ) / 2) (((2 * k + 1 : ℕ) - 1 / 2 ^ p) / 2) x) :
    x.roundHalfUp = .ok k := by
  obtain ⟨r, rfl, hlow, hhigh⟩ := h
  apply roundHalfUp_finite hk
  · have hcast : (2 * k : ℚ) - 1 ≤ (2 * k - 1 : ℕ) := by
      rw [sub_le_iff_le_add]
      exact_mod_cast Nat.le_add_of_sub_le le_rfl
    linarith
  · have hgap : (1 : ℚ) / 2 ^ (p + 1) = 1 / 2 ^ p / 2 := by
      rw [pow_succ]
      field_simp
    push_cast at hhigh
    linarith

theorem isMagnitude_bounds {k p : ℕ} (hk : (k + 1) * 2 ^ (p + 1) ≤ 2 ^ 53) :
    IsMagnitude ((2 * k - 1 : ℕ) / 2) ∧ IsMagnitude (((2 * k + 1 : ℕ) - 1 / 2 ^ p) / 2) := by
  have hpow : 0 < 2 ^ p := by positivity
  have hscale : (k + 1) * 2 ^ (p + 1) = (2 * k + 1) * 2 ^ p + 2 ^ p := by ring
  constructor
  · apply isMagnitude_half
    have := Nat.le_mul_of_pos_right (2 * k + 1) hpow
    omega
  · simpa using isMagnitude_sub_gap (k := 2 * k + 1) (by omega) (by omega) 1 (by omega)

theorem half_le {q : ℚ} {k : ℕ} (hq : 0 ≤ q) (h : k ≤ q + 1 / 2) :
    ((2 * k - 1 : ℕ) : ℚ) / 2 ≤ q := by
  by_cases hzero : k = 0
  · simpa [hzero] using hq
  · push_cast [show 1 ≤ 2 * k by omega]
    linarith

theorem le_next {q : ℚ} {k p : ℕ} (h : q + 1 / 2 ≤ k + 1 - 1 / 2 ^ (p + 1)) :
    q ≤ ((2 * k + 1 : ℕ) - 1 / 2 ^ p) / 2 := by
  have hgap : (1 : ℚ) / 2 ^ (p + 1) = 1 / 2 ^ p / 2 := by
    rw [pow_succ]
    field_simp
  push_cast
  linarith

theorem roundHalfUp_ofRat {q : ℚ} {k p : ℕ} (hk : (k + 1) * 2 ^ (p + 1) ≤ 2 ^ 53) (hq : 0 ≤ q)
    (hlow : k ≤ q + 1 / 2) (hhigh : q + 1 / 2 ≤ k + 1 - 1 / 2 ^ (p + 1)) :
    (ofRat q).roundHalfUp = .ok k := by
  obtain ⟨hhalf, hnext⟩ := isMagnitude_bounds hk
  apply Between.roundHalfUp_eq hk
  exact between_ofRat hhalf hnext (half_le hq hlow) (le_next hhigh)

/-- The quotient of `s` and `n` is at least `1 / (2 * n)` away from the half above it. -/
theorem roundHalfUp_quotient {s n p : ℕ} (hn : 0 < n) (hnp : n ≤ 2 ^ p)
    (hk : ((2 * s + n) / (2 * n) + 1) * 2 ^ (p + 1) ≤ 2 ^ 53) :
    (quotient s n).roundHalfUp = .ok ((2 * s + n) / (2 * n) : ℕ) := by
  have hbelow : (2 * s + n) / (2 * n) * (2 * n) ≤ 2 * s + n := Nat.div_mul_le_self _ _
  have habove : 2 * s + n + 1 ≤ ((2 * s + n) / (2 * n) + 1) * (2 * n) :=
    (Nat.lt_mul_div_succ _ (by omega)).trans_eq (Nat.mul_comm _ _)
  generalize (2 * s + n) / (2 * n) = k at hk hbelow habove ⊢
  have hn' : (0 : ℚ) < n := by exact_mod_cast hn
  have hmean : (s : ℚ) / n + 1 / 2 = (2 * s + n) / (2 * n) := by field_simp
  apply roundHalfUp_ofRat hk
  · positivity
  · push_cast
    rw [hmean, le_div_iff₀ (by positivity)]
    exact_mod_cast hbelow
  · have hgap : (1 : ℚ) / 2 ^ (p + 1) ≤ 1 / (2 * n) := by
      rw [pow_succ, mul_comm]
      gcongr
      exact_mod_cast hnp
    have hlt : (2 * s + n : ℚ) / (2 * n) ≤ k + 1 - 1 / (2 * n) := by
      rw [le_sub_iff_add_le, ← add_div, div_le_iff₀ (by positivity)]
      exact_mod_cast habove
    push_cast
    linarith

/-! A number just below a half is restored to it by rounding. -/

theorem le_nearestEven {q : ℚ} {m : ℤ} (h : m - 1 / 2 < q) : m ≤ nearestEven q := by
  have hfloor : m - 1 ≤ q.floor := by
    rw [Rat.le_floor_iff]
    push_cast
    linarith
  rcases hfloor.eq_or_lt with heq | hlt
  · have hexcess : (1 : ℚ) / 2 < q - q.floor := by
      rw [← heq]
      push_cast
      linarith
    rw [nearestEven, if_neg hexcess.not_gt, if_pos hexcess]
    omega
  · exact (Int.le_of_sub_one_lt hlt).trans (floor_le_nearestEven q)

theorem lt_mul_spacing {q : ℚ} (hq : 0 < q) : q < 2 ^ 53 * spacing q := by
  have hle : (2 : ℚ) ^ (binade q - 52) ≤ spacing q := by
    rw [spacing, Rat.abs_of_nonneg hq.le]
    exact zpow_le_zpow_right₀ one_le_two (le_max_left _ _)
  calc q < 2 ^ (binade q + 1) := (binade_bounds hq).2
    _ = 2 ^ 53 * 2 ^ (binade q - 52) := by
      rw [show (2 : ℚ) ^ 53 = 2 ^ (53 : ℤ) by norm_cast, ← zpow_add₀ two_ne_zero]
      congr 1
      ring
    _ ≤ 2 ^ 53 * spacing q := by gcongr

theorem le_nearest_of_near {q r : ℚ} (hq : 0 < q) (hr : IsMagnitude r) (h : r - q < q / 2 ^ 54) :
    r ≤ nearest q := by
  rcases hr.multiple_or_le q with ⟨m, rfl⟩ | ⟨hle, hs⟩
  · have hspacing := lt_mul_spacing hq
    have hpos := spacing_pos q
    have hm : m ≤ nearestEven (q / spacing q) := by
      apply le_nearestEven
      rw [lt_div_iff₀ hpos]
      linarith
    rw [nearest]
    gcongr
  · exact le_nearest hq hr (hle.trans (le_of_spacing_eq hq hs))

theorem between_ofRat_of_near {low high q : ℚ} (hl : IsMagnitude low) (hh : IsMagnitude high)
    (hq : 0 < q) (h : low - q < q / 2 ^ 54) (h' : q ≤ high) : Between low high (ofRat q) := by
  have hlow := le_nearest_of_near hq hl h
  have hhigh := nearest_le hq hh h'
  exact ⟨nearest q, ofRat_eq hq (hhigh.trans_lt hh.1) (hl.nonneg.trans hlow), hlow, hhigh⟩

/-- What should be `e` is rounded like `e`, also where `e` is a half and `q` is held too small. -/
theorem roundHalfUp_ofRat_of_near {q e : ℚ} {k p : ℕ} (hk : (k + 1) * 2 ^ (p + 1) ≤ 2 ^ 53)
    (hq : 0 < q) (he : 0 ≤ e) (hnear : e - q < q / 2 ^ 54) (hlow : k ≤ e + 1 / 2)
    (hhigh : q + 1 / 2 ≤ k + 1 - 1 / 2 ^ (p + 1)) : (ofRat q).roundHalfUp = .ok k := by
  obtain ⟨hhalf, hnext⟩ := isMagnitude_bounds hk
  have hhalf_le := half_le he hlow
  apply Between.roundHalfUp_eq hk
  apply between_ofRat_of_near hhalf hnext hq _ (le_next hhigh)
  linarith

theorem ofInt_natCast {n : ℕ} (hn : n ≤ 2 ^ 52) : ofInt n = .finite n := by
  have hmagnitude := isMagnitude_natCast n hn
  obtain ⟨q, hq, hlow, hhigh⟩ := between_ofRat hmagnitude hmagnitude le_rfl le_rfl
  rw [ofInt, Int.cast_natCast, hq, le_antisymm hhigh hlow]

theorem roundHalfUp_mul_percent {w : ℚ} {a n : ℕ} (ha : a ≤ 100) (hn : n ≤ 100)
    (hlow : (a : ℚ) / 100 - w < w / 2 ^ 54) (hhigh : w ≤ a / 100 + 1 / 2 ^ 30) :
    (ofInt n * .finite w).roundHalfUp = .ok ((n * a + 50) / 100 : ℕ) := by
  have hmul : ofInt n * .finite w = ofRat (n * w) := by
    rw [ofInt_natCast (by omega)]
    rfl
  have hbelow : (n * a + 50) / 100 * 100 ≤ n * a + 50 := Nat.div_mul_le_self _ _
  have habove : n * a + 50 + 1 ≤ ((n * a + 50) / 100 + 1) * 100 :=
    (Nat.lt_mul_div_succ _ (by omega)).trans_eq (Nat.mul_comm _ _)
  have hproduct := Nat.mul_le_mul hn ha
  generalize (n * a + 50) / 100 = k at hbelow habove ⊢
  have hk : (k + 1) * 2 ^ (6 + 1) ≤ 2 ^ 53 := by omega
  have hexact : (k : ℚ) ≤ n * (a / 100) + 1 / 2 := by
    have : (k : ℚ) * 100 ≤ n * a + 50 := by exact_mod_cast hbelow
    linarith
  have hnext : (n : ℚ) * w + 1 / 2 ≤ k + 1 - 1 / 2 ^ (6 + 1) := by
    have : (n : ℚ) * a + 50 + 1 ≤ (k + 1) * 100 := by exact_mod_cast habove
    have : (n : ℚ) * w ≤ n * (a / 100 + 1 / 2 ^ 30) := by gcongr
    have : (n : ℚ) ≤ 100 := by exact_mod_cast hn
    linarith
  rw [hmul]
  -- a product of zero is exact, and no other number is near it
  rcases Nat.eq_zero_or_pos n with rfl | hpos
  · apply roundHalfUp_ofRat hk (by simp) _ hnext
    simpa using hexact
  · have hn' : (0 : ℚ) < n := by exact_mod_cast hpos
    have ha' : (0 : ℚ) ≤ a / 100 := by positivity
    have hw : 0 < w := by linarith
    apply roundHalfUp_ofRat_of_near hk (mul_pos hn' hw) (mul_nonneg hn'.le ha') _ hexact hnext
    have hscaled := mul_lt_mul_of_pos_left hlow hn'
    linarith

end ScriptReview.Binary64
