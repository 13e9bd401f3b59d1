import Mathlib.Algebra.Order.Field.Power
import Mathlib.Data.Rat.Floor
import Mathlib.Tactic.Linarith
import Mathlib.Tactic.Positivity
import Mathlib.Tactic.Ring
import ScriptReview.Number.Rounding

namespace ScriptReview.Binary64

theorem floor_le_nearestEven (q : ℚ) : q.floor ≤ nearestEven q := by
  unfold nearestEven
  dsimp only
  split_ifs <;> omega

theorem nearestEven_le_floor_add_one (q : ℚ) : nearestEven q ≤ q.floor + 1 := by
  unfold nearestEven
  dsimp only
  split_ifs <;> omega

theorem nearestEven_mono {q r : ℚ} (h : q ≤ r) : nearestEven q ≤ nearestEven r := by
  rcases (Rat.floor_monotone h).lt_or_eq with hlt | heq
  · have := nearestEven_le_floor_add_one q
    have := floor_le_nearestEven r
    omega
  · unfold nearestEven
    dsimp only
    rw [heq]
    split_ifs <;> first | omega | linarith

@[simp] theorem nearestEven_intCast (n : ℤ) : nearestEven (n : ℚ) = n := by
  simp [nearestEven]

theorem zpow_log2_le {n : ℕ} (h : n ≠ 0) : (2 : ℚ) ^ (n.log2 : ℤ) ≤ n := by
  rw [zpow_natCast]
  exact_mod_cast Nat.log2_self_le h

theorem lt_zpow_log2 (n : ℕ) : (n : ℚ) < 2 ^ ((n.log2 : ℤ) + 1) := by
  rw [show (n.log2 : ℤ) + 1 = ((n.log2 + 1 : ℕ) : ℤ) from rfl, zpow_natCast]
  exact_mod_cast Nat.lt_log2_self

theorem binade_bounds {q : ℚ} (hq : 0 < q) : 2 ^ binade q ≤ q ∧ q < 2 ^ (binade q + 1) := by
  have hnum : (q.num.natAbs : ℚ) = q * q.den := by
    rw [Rat.mul_den_eq_num, ← Int.natAbs_of_nonneg (Rat.num_nonneg.2 hq.le)]
    rfl
  have hden : (0 : ℚ) < q.den := by exact_mod_cast q.den_pos
  have hn := zpow_log2_le (n := q.num.natAbs) (by have := Rat.num_pos.2 hq; omega)
  have hn' := lt_zpow_log2 q.num.natAbs
  have hd := zpow_log2_le (n := q.den) q.den_pos.ne'
  have hd' := lt_zpow_log2 q.den
  rw [hnum] at hn hn'
  unfold binade
  dsimp only
  set a : ℤ := (q.num.natAbs.log2 : ℤ)
  set b : ℤ := (q.den.log2 : ℤ)
  have above : q < 2 ^ (a - b + 1) := by
    have h : q * 2 ^ b < 2 ^ (a + 1) := lt_of_le_of_lt (by gcongr) hn'
    rw [← lt_div_iff₀ (by positivity), ← zpow_sub₀ two_ne_zero] at h
    rwa [show a - b + 1 = a + 1 - b by ring]
  have below : (2 : ℚ) ^ (a - b - 1) < q := by
    have h : (2 : ℚ) ^ a < q * 2 ^ (b + 1) := lt_of_le_of_lt hn (by gcongr)
    rw [← div_lt_iff₀ (by positivity), ← zpow_sub₀ two_ne_zero] at h
    rwa [show a - b - 1 = a - (b + 1) by ring]
  split_ifs with h
  · exact ⟨h, above⟩
  · rw [sub_add_cancel]
    exact ⟨below.le, not_le.1 h⟩

theorem spacing_pos (q : ℚ) : 0 < spacing q := by
  rw [spacing]
  positivity

def nearest (q : ℚ) : ℚ :=
  (nearestEven (q / spacing q) : ℚ) * spacing q

theorem ofRat_eq {q : ℚ} (hq : 0 < q) (h : nearest q < 2 ^ (1024 : ℤ)) (h' : 0 ≤ nearest q) :
    ofRat q = .finite (nearest q) := by
  rw [ofRat]
  rw [if_neg hq.ne']
  exact if_neg (by rw [← nearest, Rat.abs_of_nonneg h']; exact not_le.2 h)

/-- A magnitude of at most 53 significant bits within the range of finite numbers. -/
def IsMagnitude (r : ℚ) : Prop :=
  r < 2 ^ (1024 : ℤ) ∧ ∃ (k : ℕ) (e : ℤ), k ≤ 2 ^ 53 ∧ -1074 ≤ e ∧ r = k * 2 ^ e

theorem IsMagnitude.nonneg {r : ℚ} (h : IsMagnitude r) : 0 ≤ r := by
  obtain ⟨-, k, e, -, -, rfl⟩ := h
  positivity

/-- A magnitude that `spacing q` does not divide is at most `2 ^ 52` spacings, the least number of
the binade of `q`. -/
theorem IsMagnitude.multiple_or_le {r : ℚ} (h : IsMagnitude r) (q : ℚ) :
    (∃ m : ℤ, r = m * spacing q) ∨
      (r ≤ 2 ^ 52 * spacing q ∧ spacing q = 2 ^ (binade q.abs - 52)) := by
  obtain ⟨-, k, e, hk, he, rfl⟩ := h
  rw [spacing]
  rcases le_or_gt (max (binade q.abs - 52) (-1074)) e with hle | hlt
  · left
    obtain ⟨d, hd⟩ := Int.eq_ofNat_of_zero_le (sub_nonneg.2 hle)
    refine ⟨k * 2 ^ d, ?_⟩
    rw [show e = d + max (binade q.abs - 52) (-1074) by omega, zpow_add₀ two_ne_zero]
    push_cast
    rw [zpow_natCast, mul_assoc]
  · right
    have hmax : max (binade q.abs - 52) (-1074) = binade q.abs - 52 := by omega
    rw [hmax] at hlt ⊢
    refine ⟨?_, rfl⟩
    have hk' : (k : ℚ) ≤ 2 ^ 53 := by exact_mod_cast hk
    calc (k : ℚ) * 2 ^ e
        ≤ 2 ^ 53 * 2 ^ (binade q.abs - 52 - 1) := by
          gcongr
          · norm_num
          · omega
      _ = 2 ^ 52 * 2 ^ (binade q.abs - 52) := by
          rw [zpow_sub_one₀ two_ne_zero]
          ring

theorem le_of_spacing_eq {q : ℚ} (hq : 0 < q) (h : spacing q = 2 ^ (binade q.abs - 52)) :
    2 ^ 52 * spacing q ≤ q := by
  have hb := (binade_bounds hq).1
  rw [h, Rat.abs_of_nonneg hq.le]
  calc (2 : ℚ) ^ 52 * 2 ^ (binade q - 52)
      = 2 ^ binade q := by
        rw [show (2 : ℚ) ^ 52 = 2 ^ (52 : ℤ) by norm_cast, ← zpow_add₀ two_ne_zero]
        congr 1
        ring
    _ ≤ q := hb

theorem nearest_le_of_multiple {q : ℚ} {m : ℤ} (h : q ≤ m * spacing q) :
    nearest q ≤ m * spacing q := by
  have hs := spacing_pos q
  have hm := nearestEven_mono ((div_le_iff₀ hs).2 h)
  rw [nearestEven_intCast] at hm
  rw [nearest]
  gcongr

theorem le_nearest_of_multiple {q : ℚ} {m : ℤ} (h : m * spacing q ≤ q) :
    m * spacing q ≤ nearest q := by
  have hs := spacing_pos q
  have hm := nearestEven_mono ((le_div_iff₀ hs).2 h)
  rw [nearestEven_intCast] at hm
  rw [nearest]
  gcongr

theorem nearest_le {q r : ℚ} (hq : 0 < q) (hr : IsMagnitude r) (h : q ≤ r) : nearest q ≤ r := by
  rcases hr.multiple_or_le q with ⟨m, rfl⟩ | ⟨hle, hs⟩
  · exact nearest_le_of_multiple h
  · have heq : r = ((2 ^ 52 : ℤ) : ℚ) * spacing q := by
      push_cast
      exact le_antisymm hle ((le_of_spacing_eq hq hs).trans h)
    rw [heq] at h ⊢
    exact nearest_le_of_multiple h

theorem le_nearest {q r : ℚ} (hq : 0 < q) (hr : IsMagnitude r) (h : r ≤ q) : r ≤ nearest q := by
  rcases hr.multiple_or_le q with ⟨m, rfl⟩ | ⟨hle, hs⟩
  · exact le_nearest_of_multiple h
  · have hlow : ((2 ^ 52 : ℤ) : ℚ) * spacing q ≤ nearest q :=
      le_nearest_of_multiple (by push_cast; exact le_of_spacing_eq hq hs)
    push_cast at hlow
    exact hle.trans hlow

def Between (low high : ℚ) (x : Binary64) : Prop :=
  ∃ q, x = .finite q ∧ low ≤ q ∧ q ≤ high

theorem between_ofRat {low high q : ℚ} (hl : IsMagnitude low) (hh : IsMagnitude high)
    (h : low ≤ q) (h' : q ≤ high) : Between low high (ofRat q) := by
  rcases (hl.nonneg.trans h).eq_or_lt with rfl | hq
  · exact ⟨0, by simp [ofRat], h, h'⟩
  · have hlow := le_nearest hq hl h
    have hhigh := nearest_le hq hh h'
    exact ⟨nearest q, ofRat_eq hq (hhigh.trans_lt hh.1) (hl.nonneg.trans hlow), hlow, hhigh⟩

theorem isMagnitude_div_pow {k p : ℕ} (hk : k ≤ 2 ^ 53) (hp : p ≤ 1074) :
    IsMagnitude (k / 2 ^ p) := by
  refine ⟨?_, k, -p, hk, by omega, by rw [zpow_neg, zpow_natCast, div_eq_mul_inv]⟩
  calc (k : ℚ) / 2 ^ p ≤ k := div_le_self (by positivity) (one_le_pow₀ one_le_two)
    _ ≤ 2 ^ 53 := by exact_mod_cast hk
    _ = 2 ^ (53 : ℤ) := by norm_cast
    _ < 2 ^ (1024 : ℤ) := zpow_lt_zpow_right₀ one_lt_two (by norm_num)

theorem isMagnitude_half (k : ℕ) (h : k ≤ 2 ^ 53) : IsMagnitude (k / 2) := by
  simpa using isMagnitude_div_pow h (show 1 ≤ 1074 by omega)

theorem isMagnitude_natCast (k : ℕ) (h : k ≤ 2 ^ 52) : IsMagnitude k := by
  have := isMagnitude_half (2 * k) (by omega)
  push_cast at this
  rwa [mul_div_cancel_left₀ _ two_ne_zero] at this

theorem between_ofRat_nat {n : ℕ} (hn : n ≤ 2 ^ 52) {q : ℚ} (h : 0 ≤ q) (h' : q ≤ n) :
    Between 0 n (ofRat q) := by
  have hzero := isMagnitude_natCast 0 (by omega)
  push_cast at hzero
  exact between_ofRat hzero (isMagnitude_natCast n hn) h h'

theorem Between.mul {n m : ℕ} (hnm : n * m ≤ 2 ^ 52) {x y : Binary64} (hx : Between 0 n x)
    (hy : Between 0 m y) : Between 0 (n * m : ℕ) (x * y) := by
  obtain ⟨q, rfl, hq, hq'⟩ := hx
  obtain ⟨r, rfl, hr, hr'⟩ := hy
  refine between_ofRat_nat hnm (mul_nonneg hq hr) ?_
  push_cast
  exact mul_le_mul hq' hr' hr (by positivity)

theorem Between.roundHalfUp {n : ℕ} (hn : n < 2 ^ 52) {x : Binary64} (h : Between 0 n x) :
    ∃ k : ℕ, k ≤ n ∧ x.roundHalfUp = .ok k := by
  obtain ⟨q, rfl, hq, hq'⟩ := h
  have hhalf := isMagnitude_half 1 (by omega)
  have htop := isMagnitude_half (2 * n + 1) (by omega)
  have hb : Between ((1 : ℕ) / 2) ((2 * n + 1 : ℕ) / 2) (ofRat (q + 1 / 2)) :=
    between_ofRat hhalf htop (by push_cast; linarith) (by push_cast; linarith)
  obtain ⟨r, hr, hlow, hhigh⟩ := hb
  push_cast at hlow hhigh
  have hnonneg : 0 ≤ r.floor := by
    rw [Rat.le_floor_iff]
    push_cast
    linarith
  have hle : r.floor < n + 1 := by
    rw [Rat.floor_lt_iff]
    push_cast
    linarith
  refine ⟨r.floor.toNat, by omega, ?_⟩
  have hround : Binary64.roundHalfUp (.finite q) = (ofRat (q + 1 / 2)).floor := rfl
  rw [hround, hr, Binary64.floor, Int.toNat_of_nonneg hnonneg]

end ScriptReview.Binary64
