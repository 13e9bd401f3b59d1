import ScriptReview.Proofs.Number.Bounds

namespace ScriptReview.Binary64

theorem binade_mono {q r : ℚ} (hq : 0 < q) (h : q ≤ r) : binade q ≤ binade r := by
  have hlow := (binade_bounds hq).1
  have hhigh := (binade_bounds (hq.trans_le h)).2
  have hlt : (2 : ℚ) ^ binade q < 2 ^ (binade r + 1) := hlow.trans_lt (h.trans_lt hhigh)
  rw [zpow_lt_zpow_iff_right₀ one_lt_two] at hlt
  omega

theorem nearest_mono_of_spacing_eq {q r : ℚ} (h : q ≤ r) (hs : spacing q = spacing r) :
    nearest q ≤ nearest r := by
  have hpos := spacing_pos r
  have hle : nearestEven (q / spacing r) ≤ nearestEven (r / spacing r) := by
    apply nearestEven_mono
    gcongr
  rw [nearest, nearest, hs]
  gcongr

/-- Where the spacing grows between two numbers, a power of two stands between them and between what
they are rounded to. -/
theorem nearest_mono {q r : ℚ} (hq : 0 < q) (h : q ≤ r) (hr : r < 2 ^ (1024 : ℤ)) :
    nearest q ≤ nearest r := by
  have hr' : 0 < r := hq.trans_le h
  by_cases hs : spacing q = spacing r
  · exact nearest_mono_of_spacing_eq h hs
  · have hbinade := binade_mono hq h
    have hexp : max (binade q - 52) (-1074) ≠ max (binade r - 52) (-1074) := by
      rintro heq
      apply hs
      rw [spacing, spacing, Rat.abs_of_nonneg hq.le, Rat.abs_of_nonneg hr'.le, heq]
    obtain ⟨hlow, -⟩ := binade_bounds hr'
    have hpower : IsMagnitude (2 ^ binade r) :=
      ⟨hlow.trans_lt hr, 1, binade r, by omega, by omega, by simp⟩
    have hbelow : q ≤ 2 ^ binade r := by
      have hle : (2 : ℚ) ^ (binade q + 1) ≤ 2 ^ binade r :=
        zpow_le_zpow_right₀ one_le_two (by omega)
      exact (binade_bounds hq).2.le.trans hle
    exact (nearest_le hq hpower hbelow).trans (le_nearest hr' hpower hlow)

def Ordered (n : ℕ) (x y : Binary64) : Prop :=
  ∃ p q, x = .finite p ∧ y = .finite q ∧ 0 ≤ p ∧ p ≤ q ∧ q ≤ n

theorem Between.ordered {n : ℕ} {x : Binary64} (h : Between 0 n x) : Ordered n x x := by
  obtain ⟨q, hx, hlow, hhigh⟩ := h
  exact ⟨q, q, hx, hx, hlow, le_rfl, hhigh⟩

theorem Ordered.between {n : ℕ} {x y : Binary64} (h : Ordered n x y) : Between 0 n x := by
  obtain ⟨p, q, hx, -, hp, hpq, hq⟩ := h
  exact ⟨p, hx, hp, hpq.trans hq⟩

theorem natCast_lt_zpow {n : ℕ} (hn : n ≤ 2 ^ 52) : (n : ℚ) < 2 ^ (1024 : ℤ) :=
  (isMagnitude_natCast n hn).1

theorem ordered_ofRat {n : ℕ} (hn : n ≤ 2 ^ 52) {q r : ℚ} (hq : 0 ≤ q) (h : q ≤ r) (hr : r ≤ n) :
    Ordered n (ofRat q) (ofRat r) := by
  obtain ⟨y, hy, hylow, hyhigh⟩ := between_ofRat_nat hn (hq.trans h) hr
  rcases hq.eq_or_lt with rfl | hpos
  · exact ⟨0, y, by simp [ofRat], hy, le_rfl, hylow, hyhigh⟩
  · have hlt := hr.trans_lt (natCast_lt_zpow hn)
    have hmono := nearest_mono hpos h hlt
    have hzero := isMagnitude_natCast 0 (by omega)
    have hnonneg : 0 ≤ nearest q := le_nearest hpos (by simpa using hzero) hpos.le
    have htop := nearest_le (hpos.trans_le h) (isMagnitude_natCast n hn) hr
    have hltr := htop.trans_lt (natCast_lt_zpow hn)
    exact ⟨nearest q, nearest r, ofRat_eq hpos (hmono.trans_lt hltr) hnonneg,
      ofRat_eq (hpos.trans_le h) hltr (hnonneg.trans hmono), hnonneg, hmono, htop⟩

theorem Ordered.mul {n m : ℕ} (hnm : n * m ≤ 2 ^ 52) {x y x' y' : Binary64} (h : Ordered n x y)
    (h' : Ordered m x' y') : Ordered (n * m) (x * x') (y * y') := by
  obtain ⟨p, q, rfl, rfl, hp, hpq, hq⟩ := h
  obtain ⟨p', q', rfl, rfl, hp', hpq', hq'⟩ := h'
  have hq0 : 0 ≤ q := hp.trans hpq
  refine ordered_ofRat hnm (mul_nonneg hp hp') (mul_le_mul hpq hpq' hp' hq0) ?_
  push_cast
  exact mul_le_mul hq hq' (hp'.trans hpq') (by positivity)

theorem Ordered.roundHalfUp {n : ℕ} (hn : n < 2 ^ 52) {x y : Binary64} (h : Ordered n x y) :
    ∃ k l : ℕ, k ≤ l ∧ l ≤ n ∧ x.roundHalfUp = .ok k ∧ y.roundHalfUp = .ok l := by
  obtain ⟨p, q, rfl, rfl, hp, hpq, hq⟩ := h
  obtain ⟨k, -, hk⟩ := Between.roundHalfUp hn ⟨p, rfl, hp, hpq.trans hq⟩
  obtain ⟨l, hl, hround⟩ := Between.roundHalfUp hn ⟨q, rfl, hp.trans hpq, hq⟩
  have hsum : Ordered (n + 1) (ofRat (p + 1 / 2)) (ofRat (q + 1 / 2)) := by
    refine ordered_ofRat (by omega) (by linarith) (by linarith) ?_
    push_cast
    linarith
  obtain ⟨p', q', hp', hq', -, hpq', -⟩ := hsum
  have hfloor : ∀ {a b : ℚ} {z : ℕ}, ofRat (a + 1 / 2) = .finite b →
      Binary64.roundHalfUp (.finite a) = .ok (z : Int) → b.floor = z := by
    intro a b z hb hz
    change (ofRat (a + 1 / 2)).floor = _ at hz
    rw [hb] at hz
    exact Except.ok.inj hz
  have hle := Rat.floor_monotone hpq'
  rw [hfloor hp' hk, hfloor hq' hround] at hle
  exact ⟨k, l, by exact_mod_cast hle, hl, hk, hround⟩

end ScriptReview.Binary64
