import ScriptReview.Json.Decoder

namespace ScriptReview

inductive Severity where
  | critical
  | high
  | medium
  deriving DecidableEq

namespace Severity

def name : Severity → String
  | critical => "CRITICAL"
  | high => "HIGH"
  | medium => "MEDIUM"

def all : List (String × Severity) :=
  [critical, high, medium].map fun s => (s.name, s)

end Severity

/-- One finding. Only security findings have a severity; `filename` is set where the findings of
several files stand together. -/
structure Issue where
  ruleId : Text
  penalty : Nat
  comment : Text
  severity : Option Severity
  line : Option Int
  filename : Option Text
  deriving DecidableEq

namespace Issue

def plain (ruleId : String) (penalty : Nat) (line : Nat) (comment : Text) : Issue :=
  { ruleId := ruleId, penalty, comment, severity := none, line := some line, filename := none }

def severe (ruleId : String) (penalty : Nat) (severity : Severity) (line : Nat) (comment : Text) :
    Issue :=
  { plain ruleId penalty line comment with severity := some severity }

def isCritical (i : Issue) : Bool :=
  i.severity == some .critical

def firstPerLineFrom (seen : List (Option Int)) : List Issue → List Issue
  | [] => []
  | i :: rest =>
    if seen.contains i.line then firstPerLineFrom seen rest
    else i :: firstPerLineFrom (i.line :: seen) rest

def firstPerLine (issues : List Issue) : List Issue :=
  firstPerLineFrom [] issues

def toJson (i : Issue) : Json :=
  .record ([("rule_id", .string i.ruleId), ("penalty", .int i.penalty),
    ("comment", .string i.comment),
    ("severity", .ofOption (fun s => .string s.name) i.severity),
    ("line", .ofOption .int i.line)] ++
    (match i.filename with
    | some f => [("filename", .string f)]
    | none => []))

def decode : Decoder Issue :=
  .model "Issue" fun fs =>
    (fun ruleId penalty comment severity line =>
        { ruleId, penalty, comment, severity, line, filename := none }) <$>
      Decoder.required "rule_id" .text fs <*>
      Decoder.required "penalty" .nat fs <*>
      Decoder.required "comment" .text fs <*>
      Decoder.withDefault "severity" (.optional (.member Severity.all)) none fs <*>
      Decoder.withDefault "line" (.optional .int) none fs

def decodeFiled : Decoder Issue :=
  .model "CriticalIssue" fun fs =>
    (fun (i : Issue) (f : Text) => { i with filename := some f }) <$> decode (.object fs) <*>
      Decoder.withDefault "filename" .text "unknown" fs

/-- An issue with its filename, if it has that field, and one without it otherwise. -/
def decodeEither : Decoder Issue
  | .object fs =>
    if (Json.Fields.get? fs "filename").isSome then decodeFiled (.object fs)
    else decode (.object fs)
  | j => decode j

end Issue

end ScriptReview
