import ScriptReview.Json.Basic
import ScriptReview.Number.Shortest
import ScriptReview.Text.Hex

namespace ScriptReview

namespace Json

def escaped : Symbol → Text
  | .char c =>
    if c = '"' then "\\\""
    else if c = '\\' then "\\\\"
    else if c.toNat = 0x08 then "\\b"
    else if c.toNat = 0x09 then "\\t"
    else if c.toNat = 0x0A then "\\n"
    else if c.toNat = 0x0C then "\\f"
    else if c.toNat = 0x0D then "\\r"
    else if c.toNat < 0x20 then
      "\\u00" ++ (Hex.digits 2 c.toNat).map Symbol.char
    else [.char c]
  | s => [s]

def writtenString (t : Text) : Text :=
  "\"" ++ t.flatMap escaped ++ "\""

/-- Positional from `1e-5` on, exponents without padding. -/
def numerals : NumeralStyle := ⟨-4, fun e => (toString e).toList⟩

/-- A real that is not finite is written as null. -/
def writtenReal : Binary64 → Text
  | .finite q => Binary64.numeral numerals q
  | .negativeZero => "-0.0"
  | _ => "null"

mutual

def compact : Json → Text
  | .null => "null"
  | .bool true => "true"
  | .bool false => "false"
  | .int value => Text.number value
  | .real value => writtenReal value
  | .string value => writtenString value
  | .array items => "[" ++ compactItems items ++ "]"
  | .object fields => "\x7b" ++ compactFields fields ++ "\x7d"

def compactItems : List Json → Text
  | [] => []
  | [item] => item.compact
  | item :: rest => item.compact ++ "," ++ compactItems rest

def compactFields : List (Text × Json) → Text
  | [] => []
  | [(key, value)] => writtenString key ++ ":" ++ value.compact
  | (key, value) :: rest => writtenString key ++ ":" ++ value.compact ++ "," ++ compactFields rest

end

end Json

end ScriptReview
