import ScriptReview.Proofs.Cost

/-!
Normalization with every operation watched. Quotients are total here, and a sum or a product beyond
the largest number goes on as an infinity, so that a computation could run past a fault and still
end in an integer. The watched run stops at the first fault; it meets none, whatever the value and
the band.
-/

namespace ScriptReview

inductive ArithmeticFault where
  | zeroDivisor
  | outOfRange
  deriving DecidableEq

namespace Binary64

def inRange (x : Binary64) : Except ArithmeticFault Binary64 :=
  if x.isFinite then .ok x else .error .outOfRange

def watchedQuotient (a b : Int) : Except ArithmeticFault Binary64 :=
  if b = 0 then .error .zeroDivisor else (quotient a b).inRange

theorem Between.inRange {low high : ℚ} {x : Binary64} (h : Between low high x) :
    x.inRange = .ok x := by
  obtain ⟨q, rfl, -⟩ := h
  rfl

theorem watchedQuotient_of_between {a b : Int} {low high : ℚ} (hb : b ≠ 0)
    (h : Between low high (quotient a b)) : watchedQuotient a b = .ok (quotient a b) := by
  rw [watchedQuotient, if_neg hb, h.inRange]

-- Neither premise can be left out.
example : watchedQuotient 1 0 = .error .zeroDivisor := by decide +kernel

example : watchedQuotient (2 ^ 1024) 1 = .error .outOfRange := by decide +kernel

theorem Between.add_half {n : ℕ} (hn : n < 2 ^ 52) {x : Binary64} (h : Between 0 n x) :
    Between 0 (n + 1 : ℕ) (x + half) := by
  obtain ⟨q, rfl, hq, hq'⟩ := h
  have hsum : Between 0 (n + 1 : ℕ) (ofRat (q + 1 / 2)) := by
    refine between_ofRat_nat (by omega) (by linarith) ?_
    push_cast
    linarith
  exact hsum

theorem Between.floor {low high : ℚ} {x : Binary64} (h : Between low high x) :
    x.floor = .ok x.toRat.floor := by
  obtain ⟨q, rfl, -⟩ := h
  rfl

end Binary64

open Binary64

def watchedNormalize (value low high : Int) : Except ArithmeticFault Int :=
  if value ≤ low then .ok 0
  else if high ≤ value then .ok 100
  else do
    let share ← watchedQuotient (value - low) (high - low)
    let percent ← (share * ofInt 100).inRange
    let lifted ← (percent + half).inRange
    return lifted.toRat.floor

/-- The two early returns leave only bands that are not empty, so no fault is left to meet. -/
theorem watchedNormalize_eq_ok {value low high n : Int} (h : normalize value low high = .ok n) :
    watchedNormalize value low high = .ok n := by
  rw [normalize] at h
  rw [watchedNormalize]
  split_ifs at h ⊢ with hlow hhigh
  · exact congrArg Except.ok (Except.ok.inj h)
  · exact congrArg Except.ok (Except.ok.inj h)
  · have hband : high - low ≠ 0 := by omega
    have hshare := between_share (by omega : low ≤ value) (by omega : value < high)
    have hpercent := hshare.mul (by omega) between_hundred
    have hlifted := hpercent.add_half (by omega)
    rw [roundHalfUp, hlifted.floor] at h
    rw [watchedQuotient_of_between hband hshare, ok_bind, hpercent.inRange, ok_bind,
      hlifted.inRange, ok_bind, pure_eq_ok, Except.ok.inj h]

theorem normalize_safe_and_monotone (low high : Int) :
    ∃ f : Int → Int, (∀ value value', value ≤ value' → f value ≤ f value') ∧
      ∀ value, 0 ≤ f value ∧ f value ≤ 100 ∧
        normalize value low high = .ok (f value) ∧
        watchedNormalize value low high = .ok (f value) := by
  choose f hf hok using fun value => normalize_eq_ok value low high
  have hmono (value value' : Int) (h : value ≤ value') : (f value : Int) ≤ f value' := by
    obtain ⟨n, n', hle, -, hn, hn'⟩ := normalize_mono h low high
    rw [hok] at hn hn'
    have hvalue : (f value : Int) = n := Except.ok.inj hn
    have hvalue' : (f value' : Int) = n' := Except.ok.inj hn'
    omega
  refine ⟨fun value => f value, hmono, fun value => ?_⟩
  have hbound : (f value : Int) ≤ 100 := by exact_mod_cast hf value
  exact ⟨Int.natCast_nonneg _, hbound, hok value, watchedNormalize_eq_ok (hok value)⟩

end ScriptReview
