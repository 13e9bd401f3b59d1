import ScriptReview.Cost
import ScriptReview.Readiness
import ScriptReview.Verdict

namespace ScriptReview

structure Report where
  filename : Text
  analysis : Analysis
  metrics : Option Metrics
  decision : Readiness
  reviewCost : ReviewCost
  verdict : VerdictReport
  badge : Badge
  fingerprint : Text
  elapsed : Binary64
  deriving DecidableEq

namespace Report

def toJson (r : Report) : Json :=
  .record [("filename", .string r.filename), ("analysis", r.analysis.toJson),
    ("metrics", .ofOption Metrics.toJson r.metrics), ("decision", r.decision.toJson),
    ("review_cost", r.reviewCost.toJson), ("verdict", r.verdict.toJson),
    ("badge", r.badge.toJson), ("proof_hash", .string r.fingerprint),
    ("analysis_time_ms", .real r.elapsed)]

def decode : Decoder Report :=
  .model "ReviewReport" fun fs =>
    Report.mk <$> Decoder.required "filename" .text fs <*>
      Decoder.required "analysis" Analysis.decode fs <*>
      Decoder.withDefault "metrics" (.optional Metrics.decode) none fs <*>
      Decoder.required "decision" Readiness.decode fs <*>
      Decoder.required "review_cost" ReviewCost.decode fs <*>
      Decoder.required "verdict" VerdictReport.decode fs <*>
      Decoder.required "badge" Badge.decode fs <*>
      Decoder.required "proof_hash" .text fs <*>
      Decoder.withDefault "analysis_time_ms" .real (.finite 0) fs

end Report

structure Batch where
  files : List Analysis
  aggregated : Analysis
  criticalIssues : List Issue

namespace Batch

def toJson (b : Batch) : Json :=
  .record [("files", .array (b.files.map Analysis.toJson)), ("aggregated", b.aggregated.toJson),
    ("critical_issues", .array (b.criticalIssues.map Issue.toJson))]

end Batch

structure BatchReport where
  batch : Batch
  decision : Readiness
  verdict : VerdictReport
  badge : Badge
  fingerprint : Text
  elapsed : Binary64

namespace BatchReport

def toJson (r : BatchReport) : Json :=
  .record [("files", .array (r.batch.files.map Analysis.toJson)),
    ("aggregated", r.batch.aggregated.toJson),
    ("critical_issues", .array (r.batch.criticalIssues.map Issue.toJson)),
    ("decision", r.decision.toJson), ("verdict", r.verdict.toJson), ("badge", r.badge.toJson),
    ("proof_hash", .string r.fingerprint), ("file_count", .int r.batch.files.length),
    ("analysis_time_ms", .real r.elapsed)]

end BatchReport

end ScriptReview
