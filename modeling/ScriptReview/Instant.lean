import ScriptReview.Number.Decimal

namespace ScriptReview

/-- A date and a time of day; `offset` counts the minutes east of UTC and is absent for a local
time. -/
structure Instant where
  year : Nat
  month : Nat
  day : Nat
  hour : Nat
  minute : Nat
  second : Nat
  microsecond : Nat
  offset : Option Int
  deriving DecidableEq

namespace Instant

def isLeap (year : Nat) : Bool :=
  year % 4 == 0 && (year % 100 != 0 || year % 400 == 0)

def daysIn (year month : Nat) : Nat :=
  if month == 2 then (if isLeap year then 29 else 28)
  else if [4, 6, 9, 11].contains month then 30
  else 31

def isValid (i : Instant) : Bool :=
  1 ≤ i.year && 1 ≤ i.month && i.month ≤ 12 && 1 ≤ i.day && i.day ≤ daysIn i.year i.month &&
    i.hour < 24 && i.minute < 60 && i.second < 60

def zeroPadded (width n : Nat) : List Char :=
  let digits := Nat.toDigits 10 n
  List.replicate (width - digits.length) '0' ++ digits

def offsetText : Option Int → List Char
  | none => []
  | some m =>
    if m = 0 then ['Z']
    else
      (if m < 0 then '-' else '+') :: zeroPadded 2 (m.natAbs / 60) ++
        ':' :: zeroPadded 2 (m.natAbs % 60)

def written (i : Instant) : Text :=
  (zeroPadded 4 i.year ++ '-' :: zeroPadded 2 i.month ++ '-' :: zeroPadded 2 i.day ++
    'T' :: zeroPadded 2 i.hour ++ ':' :: zeroPadded 2 i.minute ++ ':' :: zeroPadded 2 i.second ++
    (if i.microsecond = 0 then [] else '.' :: zeroPadded 6 i.microsecond) ++
    offsetText i.offset).map .char

def digits? (count : Nat) (t : Text) : Option (Nat × Text) :=
  let head := t.take count
  if head.length = count ∧ head.all Decimal.isDigit then
    some (Decimal.digitsValue head, t.drop count)
  else none

def mark? (c : Char) : Text → Option Text
  | s :: rest => if s = .char c then some rest else none
  | [] => none

/-- Six digits of a fraction of any length, the further ones cut off. -/
def fraction? (t : Text) : Option (Nat × Text) :=
  let digits := t.takeWhile Decimal.isDigit
  if digits.isEmpty then none
  else
    let zero : Symbol := .char '0'
    some (Decimal.digitsValue ((digits ++ List.replicate 6 zero).take 6), t.drop digits.length)

def offset? (t : Text) : Option (Option Int) :=
  match t with
  | [] => some none
  | [.char 'Z'] => some (some 0)
  | .char c :: rest =>
    if c == '+' || c == '-' then do
      let (hours, rest) ← digits? 2 rest
      let rest ← mark? ':' rest
      let (minutes, rest) ← digits? 2 rest
      if rest.isEmpty && minutes < 60 && hours < 24 then
        let m : Int := hours * 60 + minutes
        return some (if c == '-' then -m else m)
      else none
    else none
  | _ => none

def seconds? (t : Text) : Option (Nat × Nat × Text) :=
  match mark? ':' t with
  | none => some (0, 0, t)
  | some rest => do
    let (second, rest) ← digits? 2 rest
    match mark? '.' rest with
    | none => return (second, 0, rest)
    | some rest =>
      let (micro, rest) ← fraction? rest
      return (second, micro, rest)

/-- `YYYY-MM-DD`, `T` or a space, `HH:MM`, optional seconds with an optional fraction, and an
optional offset, for a date and time that exist. -/
def read? (t : Text) : Option Instant := do
  let (year, t) ← digits? 4 t
  let t ← mark? '-' t
  let (month, t) ← digits? 2 t
  let t ← mark? '-' t
  let (day, t) ← digits? 2 t
  let t ← (mark? 'T' t).or (mark? ' ' t)
  let (hour, t) ← digits? 2 t
  let t ← mark? ':' t
  let (minute, t) ← digits? 2 t
  let (second, microsecond, t) ← seconds? t
  let offset ← offset? t
  let i : Instant := { year, month, day, hour, minute, second, microsecond, offset }
  if i.isValid then return i else none

def nextDay (i : Instant) : Instant :=
  if i.day < daysIn i.year i.month then { i with day := i.day + 1 }
  else if i.month < 12 then { i with month := i.month + 1, day := 1 }
  else { i with year := i.year + 1, month := 1, day := 1 }

def daysLater : Nat → Instant → Instant
  | 0, i => i
  | n + 1, i => daysLater n i.nextDay

def secondsLater (n : Nat) (i : Instant) : Instant :=
  let total := i.hour * 3600 + i.minute * 60 + i.second + n
  let rest := total % 86400
  daysLater (total / 86400)
    { i with hour := rest / 3600, minute := rest / 60 % 60, second := rest % 60 }

end Instant

end ScriptReview
