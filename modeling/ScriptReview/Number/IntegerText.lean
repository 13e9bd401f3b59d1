import ScriptReview.Number.Decimal

/-!
Integers as text. The written form is a minus sign or none and digits without leading zeros. Around
it a reader may find white space and a plus sign, and in it leading zeros, single low lines and a
fraction of zeros: these are cleaned away first. After a leading zero, low lines go with the zeros
and a minus sign counts as the sign.
-/

namespace ScriptReview

namespace IntegerText

inductive Error where
  | unreadable
  | oversized
  deriving DecidableEq

def maxDigits : Nat := 4300

def minus : Text → Bool × Text
  | .char '-' :: rest => (true, rest)
  | t => (false, t)

def isZero (s : Symbol) : Bool :=
  s.satisfies (· == '0')

def isOversized (t : Text) : Bool :=
  let digits := (minus t).2.takeWhile Decimal.isDigit
  !(digits.take 1).all isZero && maxDigits < digits.length

def literal? (t : Text) : Option Int :=
  let (negative, digits) := minus t
  if digits.isEmpty || !digits.all Decimal.isDigit then none
  else if 1 < digits.length && (digits.take 1).all isZero then none
  else
    let n : Int := Decimal.digitsValue digits
    some (if negative then -n else n)

/-- What follows the zeros and low lines after a leading zero; `last` is the one just passed, and
stands for all of them at a point or at the end. -/
def afterZero? (last : Symbol) : Text → Option Text
  | [] => some [last]
  | s :: rest =>
    if s.satisfies (fun c => c == '0' || c == '_') then afterZero? s rest
    else if Decimal.isDigit s || s = .char '-' then some (s :: rest)
    else if s = .char '.' then some (last :: s :: rest)
    else none

def withoutLeadingZeros? : Text → Option Text
  | [] => none
  | s :: rest =>
    if isZero s then afterZero? s rest
    else if Decimal.isDigit s then some (s :: rest)
    else none

def withoutZeroFraction (t : Text) : Text :=
  let whole := t.takeWhile fun s => !s.satisfies (· == '.')
  let fraction := (t.drop whole.length).drop 1
  if fraction.isEmpty || !fraction.all isZero then t else whole

def cleanDigits? (t : Text) : Option Text :=
  (withoutLeadingZeros? t).map fun u =>
    let whole := withoutZeroFraction u
    (Decimal.withoutLowLines? whole).getD whole

def clean? (t : Text) : Option Text :=
  match t.trim with
  | .char '+' :: rest => cleanDigits? rest
  | .char '-' :: rest => (cleanDigits? rest).map (.char '-' :: ·)
  | u => cleanDigits? u

/-- The integer in a text. Only one that is oversized before cleaning is called so. -/
def read (t : Text) : Except Error Int :=
  if isOversized t then .error .oversized
  else
    match (clean? t).filter (!isOversized ·) |>.bind literal? with
    | some n => .ok n
    | none => .error .unreadable

end IntegerText

end ScriptReview
