import ScriptReview.Number.Binary64
import ScriptReview.Text.Blank
import ScriptReview.Text.Digit

namespace ScriptReview

/-- A decimal numeral: `digits` times ten to `exponent`, with `count` digits written. -/
structure Decimal where
  negative : Bool
  digits : Nat
  count : Nat
  exponent : Int

namespace Decimal

/-- The nearest floating point number to the digits without their sign. Sizes far outside the range
are decided by the exponent alone, which keeps the powers small. -/
def magnitude (d : Decimal) : Binary64 :=
  if d.digits = 0 then .finite 0
  else if d.exponent < -(400 + d.count) then .finite 0
  else if 400 < d.exponent then .infinite false
  else .ofRat (d.digits * (10 : Rat) ^ d.exponent)

def toBinary64 (d : Decimal) : Binary64 :=
  if d.negative then -d.magnitude else d.magnitude

def isDigit (s : Symbol) : Bool :=
  s.satisfies Char.isDigit

def digitChars (t : Text) : List Char :=
  t.filterMap fun
    | .char c => some c
    | .surrogate _ => none

def digitsValue (t : Text) : Nat :=
  Nat.ofDigitChars 10 (digitChars t) 0

def sign : Text → Bool × Text
  | .char '-' :: rest => (true, rest)
  | .char '+' :: rest => (false, rest)
  | t => (false, t)

def lowLine : Symbol := .char '_'

/-- The text without its low lines, each of which has to stand between two digits; `digit` says
whether one came right before the text. -/
def ungroupedAfter? (digit : Bool) : Text → Option Text
  | [] => some []
  | [s] => if s = lowLine then none else some [s]
  | s :: next :: rest =>
    if s = lowLine then
      if digit && isDigit next then ungroupedAfter? false (next :: rest) else none
    else (ungroupedAfter? (isDigit s) (next :: rest)).map (s :: ·)

def ungrouped? (t : Text) : Option Text :=
  ungroupedAfter? false t

/-- The text without its low lines, if there are some inside it and no two are neighbours. -/
def withoutLowLines? (t : Text) : Option Text :=
  if t.contains lowLine && t.head? ≠ some lowLine && t.getLast? ≠ some lowLine && !t.hasPart "__"
  then some (t.filter (· ≠ lowLine))
  else none

/-- A numeral: a sign, then `inf`, `infinity` or `nan` in any case, or digits with a point before,
among or after them, and perhaps an exponent. -/
def numeral? (t : Text) : Option Binary64 :=
  let (negative, body) := sign t
  let name := body.chars?.map fun cs => String.ofList (cs.map Char.toLower)
  if name = some "inf" ∨ name = some "infinity" then some (.infinite negative)
  else if name = some "nan" then some .notANumber
  else
    let mantissa := body.takeWhile fun s => !s.satisfies fun c => c == 'e' || c == 'E'
    let tail := body.drop mantissa.length
    let whole := mantissa.takeWhile fun s => !s.satisfies (· == '.')
    let fraction := (mantissa.drop whole.length).drop 1
    let (down, power) := sign (tail.drop 1)
    if !(whole ++ fraction ++ power).all isDigit then none
    else if (whole.isEmpty && fraction.isEmpty) || (!tail.isEmpty && power.isEmpty) then none
    else
      let e : Int := digitsValue power
      some (toBinary64 {
        negative, digits := digitsValue (whole ++ fraction), count := (whole ++ fraction).length
        exponent := (if down then -e else e) - fraction.length })

def float? (t : Text) : Option Binary64 :=
  (ungrouped? (t.trim.map Symbol.latinDigit)).bind numeral?

end Decimal

end ScriptReview
