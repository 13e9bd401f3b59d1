import ScriptReview.Json.Writer
import ScriptReview.Settings

namespace ScriptReview

def settingVariables : List String :=
  ["PORT", "HOST", "CORS_ORIGINS", "LOG_LEVEL", "MAX_CODE_BYTES", "MAX_FILES", "REVIEWS_PATH",
    "REVIEWS_LIST_LIMIT", "DECISION_OVERRIDE_MODE"].map ("REVIEWGATE_" ++ ·)

def launchLine (env : Settings.Environment) : Except Text Text :=
  match Settings.ofEnvironment env with
  | .ok settings => .ok settings.launch.compact
  | .error (.unreadable setting) => .error (SettingsError.message setting)
  | .error .tooDeep => .error "maximum recursion depth exceeded"
  | .error (.invalid faults) => .error (Json.array (faults.map Fault.toJson)).compact

def printable (t : Text) : String :=
  String.ofList (t.chars?.getD [])

end ScriptReview

open ScriptReview in
def main : IO UInt32 := do
  let mut env : Settings.Environment := []
  for name in settingVariables do
    if let some value ← IO.getEnv name then
      env := env ++ [(Text.ofString name, Text.ofString value)]
  match launchLine env with
  | .ok line => IO.println (printable line); return 0
  | .error message => IO.eprintln (printable message); return 1
