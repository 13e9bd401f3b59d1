import ScriptReview.Json.Decoder
import ScriptReview.Json.Reader
import ScriptReview.Text.Folded

namespace ScriptReview

structure Settings where
  port : Int
  host : Text
  corsOrigins : List Text
  logLevel : Text
  maxCodeBytes : Int
  maxFiles : Int
  reviewsPath : Text
  reviewsListLimit : Int
  decisionOverrideMode : Text

inductive SettingsError where
  | unreadable (setting : String)
  | tooDeep
  | invalid (faults : List Fault)

namespace SettingsError

def message (setting : String) : Text :=
  "error parsing value for field \"" ++ Text.ofString setting ++
    "\" from source \"EnvSettingsSource\""

end SettingsError

namespace Settings

def defaults : Settings where
  port := 3000
  host := "0.0.0.0"
  corsOrigins := ["*"]
  logLevel := "INFO"
  maxCodeBytes := 500000
  maxFiles := 20
  reviewsPath := "reviews.jsonl"
  reviewsListLimit := 50
  decisionOverrideMode := "severity"

abbrev Environment := List (Text × Text)

def envStart : String := "reviewgate_"

def lookup (env : Environment) (setting : String) : Option Text :=
  (env.reverse.find? fun v => v.1.lowered == Text.ofString (envStart ++ setting)).map Prod.snd

def given (env : Environment) (setting : String) : Json.Fields :=
  match lookup env setting with
  | some value => [(Text.ofString setting, .string value)]
  | none => []

/-- The allowed origins are given as JSON; a null leaves the default. -/
def givenOrigins (env : Environment) : Except SettingsError Json.Fields :=
  match lookup env "cors_origins" with
  | none => .ok []
  | some value =>
    match Json.parse .standard value with
    | .error .tooDeep => .error .tooDeep
    | .error _ => .error (.unreadable "cors_origins")
    | .ok .null => .ok []
    | .ok j => .ok [(Text.ofString "cors_origins", j)]

def modes : List String := ["severity", "comment"]

def mode : Decoder Text := fun j =>
  match j with
  | .string t =>
    if (modes.map Text.ofString).contains t then .valid t else .fault (.notLiteral modes) j
  | _ => .fault (.notLiteral modes) j

def decode (fs : Json.Fields) : Checked Settings :=
  Settings.mk <$> Decoder.withDefault "port" .int defaults.port fs <*>
    Decoder.withDefault "host" .text defaults.host fs <*>
    Decoder.withDefault "cors_origins" (.list .text) defaults.corsOrigins fs <*>
    Decoder.withDefault "log_level" .text defaults.logLevel fs <*>
    Decoder.withDefault "max_code_bytes" .int defaults.maxCodeBytes fs <*>
    Decoder.withDefault "max_files" .int defaults.maxFiles fs <*>
    Decoder.withDefault "reviews_path" .text defaults.reviewsPath fs <*>
    Decoder.withDefault "reviews_list_limit" .int defaults.reviewsListLimit fs <*>
    Decoder.withDefault "decision_override_mode" mode defaults.decisionOverrideMode fs

def ofEnvironment (env : Environment) : Except SettingsError Settings := do
  let origins ← givenOrigins env
  let plain := ["port", "host", "log_level", "max_code_bytes", "max_files", "reviews_path",
    "reviews_list_limit", "decision_override_mode"].flatMap (given env)
  (decode (plain ++ origins)).toExcept.mapError .invalid

def toJson (s : Settings) : Json :=
  .record [("port", .int s.port), ("host", .string s.host), ("cors_origins", .texts s.corsOrigins),
    ("log_level", .string s.logLevel), ("max_code_bytes", .int s.maxCodeBytes),
    ("max_files", .int s.maxFiles), ("reviews_path", .string s.reviewsPath),
    ("reviews_list_limit", .int s.reviewsListLimit),
    ("decision_override_mode", .string s.decisionOverrideMode)]

def launch (s : Settings) : Json :=
  .array [.array [.texts ["reviewgate.main:app"],
    .record [("host", .string s.host), ("port", .int s.port)]]]

end Settings

end ScriptReview
