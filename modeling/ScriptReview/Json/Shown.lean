import ScriptReview.Json.Basic
import ScriptReview.Number.Shortest
import ScriptReview.Text.Quoted

namespace ScriptReview

namespace Json

def shownExponent (e : Int) : List Char :=
  let digits := Nat.toDigits 10 e.natAbs
  (if e < 0 then '-' else '+') :: (if digits.length < 2 then '0' :: digits else digits)

/-- Positional from `1e-4` on. -/
def shownNumerals : NumeralStyle := ⟨-3, shownExponent⟩

def shownReal : Binary64 → Text
  | .finite q => Binary64.numeral shownNumerals q
  | .negativeZero => "-0.0"
  | .infinite negative => if negative then "-inf" else "inf"
  | .notANumber => "nan"

mutual

def shown : Json → Text
  | .null => "None"
  | .bool true => "True"
  | .bool false => "False"
  | .int value => Text.number value
  | .real value => shownReal value
  | .string value => value.quoted
  | .array items => "[" ++ Text.joinWith ", " (shownItems items) ++ "]"
  | .object fields => "\x7b" ++ Text.joinWith ", " (shownFields fields) ++ "\x7d"

def shownItems : List Json → List Text
  | [] => []
  | item :: rest => item.shown :: shownItems rest

def shownFields : List (Text × Json) → List Text
  | [] => []
  | (key, value) :: rest => (key.quoted ++ ": " ++ value.shown) :: shownFields rest

end

end Json

end ScriptReview
