import ScriptReview.Number.Binary64

namespace ScriptReview

inductive RoundingError where
  | notANumber
  | infinite
  deriving DecidableEq

namespace Binary64

def half : Binary64 := .finite (1 / 2)

def floor : Binary64 → Except RoundingError Int
  | .finite value => .ok value.floor
  | .negativeZero => .ok 0
  | .infinite _ => .error .infinite
  | .notANumber => .error .notANumber

def roundHalfUp (x : Binary64) : Except RoundingError Int :=
  (x + half).floor

end Binary64

end ScriptReview
