import ScriptReview.Proofs.Log
import ScriptReview.Proofs.Storable

namespace ScriptReview

theorem exists_common_threshold {α : Type} {P : α → ℕ → Prop} {xs : List α}
    (h : ∀ x ∈ xs, ∃ n, ∀ m, n ≤ m → P x m) : ∃ n, ∀ m, n ≤ m → ∀ x ∈ xs, P x m := by
  induction xs with
  | nil => exact ⟨0, fun m _ => List.forall_mem_nil _⟩
  | cons x xs ih =>
      rw [List.forall_mem_cons] at h
      obtain ⟨k, hk⟩ := h.1
      obtain ⟨l, hl⟩ := ih h.2
      refine ⟨max k l, fun m hm => ?_⟩
      rw [List.forall_mem_cons]
      exact ⟨hk m (by omega), hl m (by omega)⟩

/-- No value is too long for every reader. -/
theorem Json.Regular.exists_integersWithin {depth : Nat} {j : Json} (h : Regular depth j) :
    ∃ n, ∀ m, n ≤ m → j.integersWithin m = true := by
  induction h with
  | null => exact ⟨0, fun m _ => rfl⟩
  | bool b => exact ⟨0, fun m _ => rfl⟩
  | int n => exact ⟨_, fun m hm => decide_eq_true hm⟩
  | real hx => exact ⟨0, fun m _ => rfl⟩
  | string t => exact ⟨0, fun m _ => rfl⟩
  | array hjs ih =>
      obtain ⟨n, hn⟩ := exists_common_threshold ih
      exact ⟨n, fun m hm => itemsWithin_iff.2 (hn m hm)⟩
  | object hkeys hfs ih =>
      obtain ⟨n, hn⟩ := exists_common_threshold ih
      exact ⟨n, fun m hm => fieldsWithin_iff.2 (hn m hm)⟩

/-- A report whose issues name no file, whose dictionaries have names without lone surrogates, and
whose reals are weights of cost factors and a time of zero. -/
structure Report.IsOrdinary (r : Report) : Prop where
  issues : r.analysis.IsPlain
  scores : r.decision.details.categoryScores.IsScalar
  factors : r.reviewCost.factors.IsScalar
  thresholds : r.verdict.details.thresholds.IsScalar
  weights : ∀ e ∈ r.reviewCost.factors.entries, ∃ f : CostFactor, e.2.weight = f.weight
  elapsed : r.elapsed = .finite 0

theorem Report.IsOrdinary.isPlain {r : Report} (h : r.IsOrdinary) : r.IsPlain where
  analysis := h.issues
  scores := h.scores
  cost := by
    refine ⟨h.factors, fun e he => ?_⟩
    obtain ⟨f, hf⟩ := h.weights e he
    exact hf ▸ f.isDecimal_weight
  thresholds := h.thresholds
  elapsed := h.elapsed ▸ Json.isDecimal_zero

structure Review.IsOrdinary (r : Review) : Prop where
  issues : r.scores.IsPlain
  report : ∀ p ∈ r.report, p.IsOrdinary
  createdAt : r.createdAt.IsUtc

theorem Review.IsOrdinary.isPlain {r : Review} (h : r.IsOrdinary) : r.IsPlain :=
  ⟨h.issues, fun p hp => (h.report p hp).isPlain, h.createdAt⟩

namespace Review

structure IsReadBack (r : Review) : Prop where
  unbroken : ∀ s ∈ r.written, s ≠ .char '\n' ∧ s ≠ .char '\r'
  stripped : r.written.strip = r.written
  decoded : ∀ limits : Json.Limits, 6 ≤ limits.depth →
    r.toJson.integersWithin limits.digits = true →
    (Json.parse limits r.written).map Review.decode = .ok (.valid r)

theorem isReadBack_of_isPlain {r : Review} (h : r.IsPlain) : r.IsReadBack where
  unbroken s hs := by
    have hline := isNewline_written h s hs
    constructor <;> rintro rfl <;> cases hline
  stripped := r.strip_written
  decoded limits hdepth hdigits := by
    rw [parse_written h hdepth, (overlong?_eq_none_iff h).2 hdigits]
    exact congrArg Except.ok (decode_toJson h)

end Review

/-- Every line holds its review and nothing that splits or shortens it, so the log of any reviews is
read as these reviews in order: by every reader from some number of digits on, and by the archive's
own reader if no integer is beyond its limit. -/
theorem Archive.log_reads_back {rs : List Review} (h : ∀ r ∈ rs, r.IsOrdinary) :
    (∀ r ∈ rs, r.IsReadBack) ∧
      (∃ digits, ∀ limits : Json.Limits, digits ≤ limits.digits → 6 ≤ limits.depth →
        readLogWithin limits (logOf rs) = .ok rs) ∧
      ((∀ r ∈ rs, r.toJson.integersWithin Json.Limits.standard.digits = true) →
        readLog (logOf rs) = .ok rs) := by
  have hplain : ∀ r ∈ rs, r.IsPlain := fun r hr => (h r hr).isPlain
  refine ⟨fun r hr => Review.isReadBack_of_isPlain (hplain r hr), ?_, fun hdigits => ?_⟩
  · have hthreshold : ∀ r ∈ rs, ∃ n, ∀ m, n ≤ m → r.toJson.integersWithin m = true := by
      intro r hr
      have hregular : Json.Regular 6 r.toJson := Review.regular_toJson (hplain r hr)
      exact hregular.exists_integersWithin
    obtain ⟨n, hn⟩ := exists_common_threshold hthreshold
    refine ⟨n, fun limits hlimits hdepth => ?_⟩
    rw [readLogWithin_logOf hplain hdepth, (overlong?_eq_none_iff hplain).2 (hn _ hlimits)]
    rfl
  · rw [readLog_logOf hplain, (overlong?_eq_none_iff hplain).2 hdigits]
    rfl

def Report.partlyCosted : Report where
  filename := "a.js"
  analysis := .failed "a.js" "m"
  metrics := some ⟨2, 7, 41, 1⟩
  decision := .unparsable (.failed "a.js" "m") "severity"
  reviewCost :=
    ⟨.low, ⟨8, by decide⟩,
      .ofList [("cyclomatic_complexity", ⟨7, ⟨25, by decide⟩, CostFactor.complexity.weight, 8⟩)],
      "x", "y"⟩
  verdict := .ofAnalysis (.failed "a.js" "m")
  badge := .ofVerdict .blockMerge 0
  fingerprint := "00"
  elapsed := .finite 0

/-- Quotes, a backslash, controls, and what other readers take for blanks or ends of lines. -/
def Review.unusual : Review where
  id := "0"
  code := "\"\\\x00\r\n\u0085\u2028\ufeff😀\x7f"
  scores := .failed "\n" "\t"
  report := some .partlyCosted
  createdAt := ⟨2024, 2, 29, 23, 59, 59, 5, some 0⟩

theorem Report.isOrdinary_partlyCosted : Report.partlyCosted.IsOrdinary where
  issues := List.forall_mem_nil _
  scores := Analysis.isScalar_scoresByName _
  factors := Dictionary.isScalar_ofList (by decide)
  thresholds := VerdictReport.isScalar_thresholds _
  weights e he := by
    have hshare := Entries.mem_of_mem_joined he
    rw [List.mem_singleton] at hshare
    exact ⟨.complexity, by rw [hshare]⟩
  elapsed := rfl

theorem Review.isOrdinary_unusual : Review.unusual.IsOrdinary where
  issues := List.forall_mem_nil _
  report p hp := by
    cases hp
    exact Report.isOrdinary_partlyCosted
  createdAt := ⟨by decide, by decide, by decide, rfl⟩

theorem Archive.unusual_log_reads_back :
    (∀ r ∈ [Review.unusual, Review.unusual], r.IsOrdinary) ∧
      readLog (logOf [.unusual, .unusual]) = .ok [.unusual, .unusual] := by
  have hordinary : ∀ r ∈ [Review.unusual, Review.unusual], r.IsOrdinary := by
    simp only [List.forall_mem_cons]
    exact ⟨Review.isOrdinary_unusual, Review.isOrdinary_unusual, List.forall_mem_nil _⟩
  obtain ⟨-, -, hread⟩ := log_reads_back hordinary
  exact ⟨hordinary, hread (by decide +kernel)⟩

end ScriptReview
