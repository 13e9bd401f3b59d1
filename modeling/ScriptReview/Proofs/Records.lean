import ScriptReview.Proofs.Cost
import ScriptReview.Proofs.Instants
import ScriptReview.Proofs.Json.Decoding
import ScriptReview.Proofs.Json.RoundTrip
import ScriptReview.Review

namespace ScriptReview

namespace Json

variable {depth : Nat}

theorem Regular.record {fs : List (String × Json)} (hkeys : (fs.map Prod.fst).Nodup)
    (hfs : ∀ f ∈ fs, Regular depth f.2) : Regular (depth + 1) (.record fs) := by
  apply Regular.object
  · rw [List.map_map]
    have hnodup := hkeys.map Text.ofString_injective
    rwa [List.map_map] at hnodup
  · intro f hf
    obtain ⟨g, hg, rfl⟩ := List.mem_map.1 hf
    exact hfs g hg

theorem Regular.ofOption {α : Type} {f : α → Json} {o : Option α}
    (h : ∀ a ∈ o, Regular depth (f a)) : Regular depth (.ofOption f o) := by
  cases o with
  | none => exact .null
  | some a => exact h a rfl

theorem Regular.map {α : Type} {f : α → Json} {as : List α} (h : ∀ a ∈ as, Regular depth (f a)) :
    Regular (depth + 1) (.array (as.map f)) := by
  apply Regular.array
  intro j hj
  obtain ⟨a, ha, rfl⟩ := List.mem_map.1 hj
  exact h a ha

theorem Regular.texts (ts : List Text) : Regular (depth + 1) (.texts ts) :=
  .map fun t _ => .string t

theorem Regular.dictionary {α : Type} {f : α → Json} {d : Dictionary α}
    (hscalar : ∀ e ∈ d.entries, e.1.isScalar = true)
    (h : ∀ e ∈ d.entries, Regular depth (f e.2)) : Regular (depth + 1) (.dictionary f d) := by
  rw [Json.dictionary, d.renamed_patched hscalar]
  apply Regular.object
  · rw [List.map_map]
    exact d.distinct
  · intro g hg
    obtain ⟨e, he, rfl⟩ := List.mem_map.1 hg
    exact h e he

end Json

open Decoder
open Json (Regular IsDecimal)

variable {depth : Nat}

theorem Severity.lookup_name (s : Severity) : Severity.all.lookup s.name = some s := by
  cases s <;> rfl

namespace Issue

theorem decode_toJson {i : Issue} (h : i.filename = none) : decode i.toJson = .valid i := by
  obtain ⟨ruleId, penalty, comment, severity, line, filename⟩ := i
  subst h
  have hseverity : optional (member Severity.all)
      (.ofOption (fun s : Severity => .string s.name) severity) = .valid severity :=
    optional_ofOption fun s _ => ⟨nofun, member_string s.lookup_name⟩
  have hline : optional int (.ofOption .int line) = .valid line :=
    optional_ofOption fun n _ => ⟨nofun, int_int n⟩
  rw [decode, toJson, model_record, required_record rfl (text_string ruleId),
    required_record rfl (nat_int penalty), required_record rfl (text_string comment),
    withDefault_record rfl hseverity, withDefault_record rfl hline]
  rfl

theorem regular_toJson {i : Issue} (h : i.filename = none) : Regular (depth + 1) i.toJson := by
  rw [toJson, h]
  apply Regular.record (by simp)
  simp only [List.append_nil, List.forall_mem_cons]
  exact ⟨.string _, .int _, .string _, .ofOption fun s _ => .string _, .ofOption fun n _ => .int n,
    nofun⟩

end Issue

namespace CategoryScore

theorem decode_toJson (s : CategoryScore) : decode s.toJson = .valid s := by
  rw [decode, toJson, model_record, required_record rfl (natUpTo_int s.score),
    withDefault_record rfl (list_texts s.comments)]
  rfl

theorem regular_toJson (s : CategoryScore) : Regular (depth + 2) s.toJson := by
  apply Regular.record (by simp)
  simp only [List.forall_mem_cons]
  exact ⟨.int _, .texts _, nofun⟩

end CategoryScore

namespace Analysis

def IsPlain (a : Analysis) : Prop :=
  ∀ i ∈ a.criticalIssues, i.filename = none

theorem decode_toJson {a : Analysis} (h : a.IsPlain) : decode a.toJson = .valid a := by
  have hissues : list Issue.decode (.array (a.criticalIssues.map Issue.toJson)) =
      .valid a.criticalIssues := list_array fun i hi => Issue.decode_toJson (h i hi)
  have herror : optional text (.ofOption .string a.error) = .valid a.error :=
    optional_ofOption fun t _ => ⟨nofun, text_string t⟩
  rw [decode, toJson, model_record, withDefault_record rfl (text_string a.filename),
    required_record rfl a.readability.decode_toJson, required_record rfl a.complexity.decode_toJson,
    required_record rfl a.edgeCases.decode_toJson, required_record rfl a.security.decode_toJson,
    required_record rfl (natUpTo_int a.totalScore), withDefault_record rfl hissues,
    withDefault_record rfl herror]
  rfl

theorem regular_toJson {a : Analysis} (h : a.IsPlain) : Regular (depth + 3) a.toJson := by
  apply Regular.record (by simp)
  simp only [List.forall_mem_cons]
  exact ⟨.string _, a.readability.regular_toJson, a.complexity.regular_toJson,
    a.edgeCases.regular_toJson, a.security.regular_toJson, .int _,
    .map fun i hi => Issue.regular_toJson (h i hi), .ofOption fun t _ => .string t, nofun⟩

end Analysis

namespace Metrics

theorem decode_toJson (m : Metrics) : decode m.toJson = .valid m := by
  rw [decode, toJson, model_record, withDefault_record rfl (nat_int m.maxNesting),
    withDefault_record rfl (nat_int m.maxComplexity), withDefault_record rfl (nat_int m.maxLength),
    withDefault_record rfl (nat_int m.functionCount)]
  rfl

theorem regular_toJson (m : Metrics) : Regular (depth + 1) m.toJson := by
  apply Regular.record (by simp)
  simp only [List.forall_mem_cons]
  exact ⟨.int _, .int _, .int _, .int _, nofun⟩

end Metrics

def Dictionary.IsScalar {α : Type} (d : Dictionary α) : Prop :=
  ∀ e ∈ d.entries, e.1.isScalar = true

theorem Decision.lookup_name (d : Decision) : Decision.all.lookup d.name = some d := by
  cases d <;> rfl

namespace Readiness

theorem decode_toJson {r : Readiness} (h : r.details.categoryScores.IsScalar) :
    decode r.toJson = .valid r := by
  obtain ⟨decision, reason, details⟩ := r
  have hscores : dictionary int (.dictionary .int details.categoryScores) =
      .valid details.categoryScores := dictionary_dictionary h fun e _ => int_int e.2
  have hdetails : decodeDetails (.record [("total_score", .int details.totalScore),
      ("category_scores", .dictionary .int details.categoryScores),
      ("failed_categories", .texts details.failedCategories),
      ("has_critical_deductions", .bool details.hasCriticalDeductions),
      ("override_mode", .string details.overrideMode)]) = .valid details := by
    rw [decodeDetails, model_record, required_record rfl (int_int details.totalScore),
      withDefault_record rfl hscores, withDefault_record rfl (list_texts details.failedCategories),
      withDefault_record rfl (bool_bool details.hasCriticalDeductions),
      withDefault_record rfl (text_string details.overrideMode)]
    rfl
  rw [decode, toJson, model_record, required_record rfl (member_string decision.lookup_name),
    required_record rfl (text_string reason), required_record rfl hdetails]
  rfl

theorem regular_toJson {r : Readiness} (h : r.details.categoryScores.IsScalar) :
    Regular (depth + 3) r.toJson := by
  apply Regular.record (by simp)
  simp only [List.forall_mem_cons]
  refine ⟨.string _, .string _, .record (by simp) ?_, nofun⟩
  simp only [List.forall_mem_cons]
  exact ⟨.int _, .dictionary h fun e _ => .int e.2, .texts _, .bool _, .string _, nofun⟩

end Readiness

namespace CostShare

theorem regular_toJson {s : CostShare} (h : IsDecimal s.weight) :
    Regular (depth + 1) s.toJson := by
  apply Regular.record (by simp)
  simp only [List.forall_mem_cons]
  exact ⟨.int _, .int _, .real h, .int _, nofun⟩

end CostShare

theorem CostLevel.lookup_name (l : CostLevel) : CostLevel.all.lookup l.name = some l := by
  cases l <;> rfl

namespace ReviewCost

structure IsPlain (c : ReviewCost) : Prop where
  names : c.factors.IsScalar
  weights : ∀ e ∈ c.factors.entries, IsDecimal e.2.weight

theorem decode_toJson {c : ReviewCost} (h : c.IsPlain) : decode c.toJson = .valid c := by
  have hfactors : dictionary CostShare.decode (.dictionary CostShare.toJson c.factors) =
      .valid c.factors := dictionary_dictionary h.names fun e _ => e.2.decode_toJson
  rw [decode, toJson, model_record, required_record rfl (member_string c.level.lookup_name),
    required_record rfl (natUpTo_int c.score), withDefault_record rfl hfactors,
    withDefault_record rfl (text_string c.explanation),
    withDefault_record rfl (text_string c.formula)]
  rfl

theorem regular_toJson {c : ReviewCost} (h : c.IsPlain) : Regular (depth + 3) c.toJson := by
  apply Regular.record (by simp)
  simp only [List.forall_mem_cons]
  exact ⟨.string _, .int _,
    .dictionary h.names fun e he => CostShare.regular_toJson (h.weights e he), .string _, .string _,
    nofun⟩

end ReviewCost

theorem Verdict.lookup_name (v : Verdict) : Verdict.all.lookup v.name = some v := by
  cases v <;> rfl

namespace VerdictReport

theorem decodeSummary_summaryJson (s : IssueSummary) :
    decodeSummary (summaryJson s) = .valid s := by
  rw [decodeSummary, summaryJson, model_record, required_record rfl (text_string s.file),
    required_record rfl (text_string s.issue)]
  rfl

theorem decode_toJson {r : VerdictReport} (h : r.details.thresholds.IsScalar) :
    decode r.toJson = .valid r := by
  obtain ⟨verdict, explanation, overrideReason, details⟩ := r
  have hissues : list decodeSummary (.array (details.criticalIssues.map summaryJson)) =
      .valid details.criticalIssues := list_array fun s _ => decodeSummary_summaryJson s
  have hthresholds : dictionary int (.dictionary .int details.thresholds) =
      .valid details.thresholds := dictionary_dictionary h fun e _ => int_int e.2
  have hdetails : decodeDetails (.record [
      ("score_based_verdict", .string details.scoreBased.name),
      ("was_overridden", .bool details.wasOverridden),
      ("critical_issue_count", .int details.criticalCount),
      ("critical_issues", .array (details.criticalIssues.map summaryJson)),
      ("thresholds", .dictionary .int details.thresholds)]) = .valid details := by
    rw [decodeDetails, model_record,
      required_record rfl (member_string details.scoreBased.lookup_name),
      withDefault_record rfl (bool_bool details.wasOverridden),
      withDefault_record rfl (int_int details.criticalCount), withDefault_record rfl hissues,
      withDefault_record rfl hthresholds]
    rfl
  have hreason : optional text (.ofOption .string overrideReason) = .valid overrideReason :=
    optional_ofOption fun t _ => ⟨nofun, text_string t⟩
  rw [decode, toJson, model_record, required_record rfl (member_string verdict.lookup_name),
    required_record rfl (text_string explanation), withDefault_record rfl hreason,
    required_record rfl hdetails]
  rfl

theorem regular_toJson {r : VerdictReport} (h : r.details.thresholds.IsScalar) :
    Regular (depth + 4) r.toJson := by
  have hsummary : ∀ s : IssueSummary, Regular (depth + 1) (summaryJson s) := by
    intro s
    apply Regular.record (by simp)
    simp only [List.forall_mem_cons]
    exact ⟨.string _, .string _, nofun⟩
  apply Regular.record (by simp)
  simp only [List.forall_mem_cons]
  refine ⟨.string _, .string _, .ofOption fun t _ => .string t, .record (by simp) ?_, nofun⟩
  simp only [List.forall_mem_cons]
  exact ⟨.string _, .bool _, .int _, .map fun s _ => hsummary s, .dictionary h fun e _ => .int e.2,
    nofun⟩

end VerdictReport

namespace Badge

theorem decode_toJson (b : Badge) : decode b.toJson = .valid b := by
  rw [decode, toJson, model_record, required_record rfl (text_string b.label),
    required_record rfl (text_string b.icon), required_record rfl (text_string b.color),
    required_record rfl (text_string b.text)]
  rfl

theorem regular_toJson (b : Badge) : Regular (depth + 1) b.toJson := by
  apply Regular.record (by simp)
  simp only [List.forall_mem_cons]
  exact ⟨.string _, .string _, .string _, .string _, nofun⟩

end Badge

namespace Report

structure IsPlain (r : Report) : Prop where
  analysis : r.analysis.IsPlain
  scores : r.decision.details.categoryScores.IsScalar
  cost : r.reviewCost.IsPlain
  thresholds : r.verdict.details.thresholds.IsScalar
  elapsed : IsDecimal r.elapsed

theorem decode_toJson {r : Report} (h : r.IsPlain) : decode r.toJson = .valid r := by
  have hmetrics : optional Metrics.decode (.ofOption Metrics.toJson r.metrics) = .valid r.metrics :=
    optional_ofOption fun m _ => ⟨nofun, m.decode_toJson⟩
  rw [decode, toJson, model_record, required_record rfl (text_string r.filename),
    required_record rfl (Analysis.decode_toJson h.analysis), withDefault_record rfl hmetrics,
    required_record rfl (Readiness.decode_toJson h.scores),
    required_record rfl (ReviewCost.decode_toJson h.cost),
    required_record rfl (VerdictReport.decode_toJson h.thresholds),
    required_record rfl r.badge.decode_toJson, required_record rfl (text_string r.fingerprint),
    withDefault_record rfl (real_real r.elapsed)]
  rfl

theorem regular_toJson {r : Report} (h : r.IsPlain) : Regular (depth + 5) r.toJson := by
  apply Regular.record (by simp)
  simp only [List.forall_mem_cons]
  exact ⟨.string _, Analysis.regular_toJson h.analysis, .ofOption fun m _ => m.regular_toJson,
    Readiness.regular_toJson h.scores, ReviewCost.regular_toJson h.cost,
    VerdictReport.regular_toJson h.thresholds, r.badge.regular_toJson, .string _, .real h.elapsed,
    nofun⟩

end Report

namespace Review

structure IsPlain (r : Review) : Prop where
  scores : r.scores.IsPlain
  report : ∀ p ∈ r.report, p.IsPlain
  createdAt : r.createdAt.IsUtc

theorem decode_toJson {r : Review} (h : r.IsPlain) : decode r.toJson = .valid r := by
  have hreport : optional Report.decode (.ofOption Report.toJson r.report) = .valid r.report :=
    optional_ofOption fun p hp => ⟨nofun, Report.decode_toJson (h.report p hp)⟩
  have hinstant : decodeInstant (.string r.createdAt.written) = .valid r.createdAt := by
    rw [decodeInstant, Instant.read?_written h.createdAt]
  rw [decode, toJson, model_record, required_record rfl (text_string r.id),
    required_record rfl (text_string r.code), required_record rfl (Analysis.decode_toJson h.scores),
    withDefault_record rfl hreport, required_record rfl hinstant]
  rfl

theorem regular_toJson {r : Review} (h : r.IsPlain) : Regular (depth + 6) r.toJson := by
  apply Regular.record (by simp)
  simp only [List.forall_mem_cons]
  exact ⟨.string _, .string _, Analysis.regular_toJson h.scores,
    .ofOption fun p hp => Report.regular_toJson (h.report p hp), .string _, nofun⟩

end Review

end ScriptReview
