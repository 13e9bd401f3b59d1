import ScriptReview.Instant
import ScriptReview.Json.Writer
import ScriptReview.Report
import ScriptReview.Text.Hex

namespace ScriptReview

structure Review where
  id : Text
  code : Text
  scores : Analysis
  report : Option Report
  createdAt : Instant
  deriving DecidableEq

structure Summary where
  id : Text
  totalScore : Nat
  createdAt : Instant
  deriving DecidableEq

namespace Review

def toJson (r : Review) : Json :=
  .record [("id", .string r.id), ("code", .string r.code), ("scores", r.scores.toJson),
    ("report", .ofOption Report.toJson r.report), ("created_at", .string r.createdAt.written)]

def decodeInstant : Decoder Instant := fun j =>
  match j with
  | .string t =>
    match Instant.read? t with
    | some i => .valid i
    | none => .fault .notInstant j
  | _ => .fault .notInstant j

def decode : Decoder Review :=
  .model "Review" fun fs =>
    Review.mk <$> Decoder.required "id" .text fs <*> Decoder.required "code" .text fs <*>
      Decoder.required "scores" Analysis.decode fs <*>
      Decoder.withDefault "report" (.optional Report.decode) none fs <*>
      Decoder.required "created_at" decodeInstant fs

def summary (r : Review) : Summary :=
  ⟨r.id, r.scores.totalScore.val, r.createdAt⟩

def written (r : Review) : Text :=
  r.toJson.compact

end Review

namespace Summary

def toJson (s : Summary) : Json :=
  .record [("id", .string s.id), ("total_score", .int s.totalScore),
    ("created_at", .string s.createdAt.written)]

end Summary

structure Stamp where
  id : Text
  createdAt : Instant

namespace Stamp

def epoch : Instant := ⟨2024, 1, 1, 0, 0, 0, 0, some 0⟩

/-- Stamps that count: the number as 32 hexadecimal digits, and a second from each to the next. -/
def counted (n : Nat) : Stamp where
  id := (Hex.digits 32 n).map .char
  createdAt := epoch.secondsLater n

end Stamp

end ScriptReview
