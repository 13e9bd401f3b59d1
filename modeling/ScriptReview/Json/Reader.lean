import ScriptReview.Json.Basic
import ScriptReview.Number.Decimal
import ScriptReview.Text.Units

/-!
Reading JSON. Beyond the standard grammar, `NaN`, `Infinity` and `-Infinity` are numbers, an escaped
surrogate may stand alone, and of two equal keys the last one counts. Integers are read up to a
number of digits, and arrays and objects up to a depth of nesting; what is wrong first in the order
of the text is what a reader reports.
-/

namespace ScriptReview

namespace Json

inductive ReadError where
  | malformed
  /-- An integer has more digits than the limit. -/
  | tooLong (digits limit : Nat)
  | tooDeep
  deriving DecidableEq

/-- The most digits of an integer, and the most arrays and objects inside each other. -/
structure Limits where
  digits : Nat
  depth : Nat

namespace Limits

def standard : Limits := ⟨4300, 980⟩

def tooLongMessage (digits limit : Nat) : String :=
  "Exceeds the limit (" ++ toString limit ++
    " digits) for integer string conversion: value has " ++ toString digits ++
    " digits; use sys.set_int_max_str_digits() to increase the limit"

end Limits

/-! A reader gives what it found at the start of a text, and what follows it. -/

def orMalformed (found : Option (α × Text)) : Except ReadError (α × Text) :=
  match found with
  | some r => .ok r
  | none => .error .malformed

def isGap (s : Symbol) : Bool :=
  s.satisfies fun c => c == ' ' || c == '\t' || c == '\n' || c == '\r'

def skipGap (t : Text) : Text :=
  t.dropWhile isGap

def hexValue? (s : Symbol) : Option Nat :=
  match s with
  | .surrogate _ => none
  | .char c =>
    let n := c.toNat
    if 48 ≤ n && n ≤ 57 then some (n - 48)
    else if 97 ≤ n && n ≤ 102 then some (n - 87)
    else if 65 ≤ n && n ≤ 70 then some (n - 55)
    else none

def unit? (a b c d : Symbol) : Option Nat := do
  return (← hexValue? a) * 4096 + (← hexValue? b) * 256 + (← hexValue? c) * 16 + (← hexValue? d)

inductive Piece where
  | plain (s : Symbol)
  | unit (u : Nat)

/-- Two escaped halves of a surrogate pair, one right after the other, are one character. -/
def Piece.join : List Piece → Text
  | [] => []
  | .plain s :: rest => s :: join rest
  | [.unit u] => [Units.lone u]
  | .unit u :: .plain s :: rest => Units.lone u :: s :: join rest
  | .unit u :: .unit v :: rest =>
    if Units.isHigh u && Units.isLow v then .char (Units.joined u v) :: join rest
    else Units.lone u :: join (.unit v :: rest)

def shortEscape? (c : Char) : Option Char :=
  if c = '"' then some '"'
  else if c = '\\' then some '\\'
  else if c = '/' then some '/'
  else if c = 'b' then some (Char.ofNat 0x08)
  else if c = 'f' then some (Char.ofNat 0x0C)
  else if c = 'n' then some '\n'
  else if c = 'r' then some '\r'
  else if c = 't' then some '\t'
  else none

def pieces? : Text → Option (List Piece × Text)
  | [] => none
  | .char '"' :: rest => some ([], rest)
  | .char '\\' :: .char 'u' :: a :: b :: c :: d :: rest => do
    let u ← unit? a b c d
    let (ps, after) ← pieces? rest
    return (.unit u :: ps, after)
  | .char '\\' :: .char e :: rest => do
    let c ← shortEscape? e
    let (ps, after) ← pieces? rest
    return (.plain (.char c) :: ps, after)
  | s :: rest =>
    if s.code < 0x20 || s.code == 0x5C then none
    else do
      let (ps, after) ← pieces? rest
      return (.plain s :: ps, after)

def string? (t : Text) : Option (Text × Text) :=
  (pieces? t).map fun (ps, rest) => (Piece.join ps, rest)

def exponent? : Text → Option (Int × Text)
  | .char e :: rest =>
    if e == 'e' || e == 'E' then
      let (negative, body) := Decimal.sign rest
      let digits := body.takeWhile Decimal.isDigit
      if digits.isEmpty then none
      else
        let n : Int := Decimal.digitsValue digits
        some (if negative then -n else n, body.drop digits.length)
    else none
  | _ => none

def fraction? : Text → Option (Text × Text)
  | .char '.' :: rest =>
    let digits := rest.takeWhile Decimal.isDigit
    if digits.isEmpty then none else some (digits, rest.drop digits.length)
  | _ => none

def whole? (t : Text) : Option (Text × Text) :=
  match t with
  | .char '0' :: rest => some ("0", rest)
  | _ =>
    let digits := t.takeWhile Decimal.isDigit
    if digits.isEmpty then none else some (digits, t.drop digits.length)

/-- An integer if the numeral has neither fraction nor exponent. -/
def number (limits : Limits) (t : Text) : Except ReadError (Json × Text) :=
  let (negative, body) :=
    match t with
    | .char '-' :: rest => (true, rest)
    | _ => (false, t)
  match whole? body with
  | none => .error .malformed
  | some (whole, rest) =>
    let value (fraction : Text) (exponent : Int) : Json :=
      .real (Decimal.toBinary64 {
        negative, digits := Decimal.digitsValue (whole ++ fraction)
        count := (whole ++ fraction).length, exponent := exponent - fraction.length })
    match fraction? rest with
    | some (fraction, after) =>
      match exponent? after with
      | some (e, final) => .ok (value fraction e, final)
      | none => .ok (value fraction 0, after)
    | none =>
      match exponent? rest with
      | some (e, final) => .ok (value [] e, final)
      | none =>
        if limits.digits < whole.length then .error (.tooLong whole.length limits.digits)
        else
          let n : Int := Decimal.digitsValue whole
          .ok (.int (if negative then -n else n), rest)

def after? (word : String) (t : Text) : Option Text :=
  if t.startsWith word then some (t.drop word.length) else none

def word? (t : Text) : Option (Json × Text) :=
  match after? "null" t, after? "true" t, after? "false" t with
  | some rest, _, _ => some (.null, rest)
  | _, some rest, _ => some (.bool true, rest)
  | _, _, some rest => some (.bool false, rest)
  | none, none, none =>
    match after? "NaN" t, after? "Infinity" t, after? "-Infinity" t with
    | some rest, _, _ => some (.real .notANumber, rest)
    | _, some rest, _ => some (.real (.infinite false), rest)
    | _, _, some rest => some (.real (.infinite true), rest)
    | none, none, none => none

mutual

/-- A value at the start of the text, with at most `depth` arrays and objects inside each other.
Every call inside spends one unit of `fuel`. Of two calls inside each other one has passed a symbol,
so twice the length of the text and two more are enough. -/
def value (limits : Limits) : Nat → Nat → Text → Except ReadError (Json × Text)
  | 0, _, _ => .error .malformed
  | fuel + 1, depth, t =>
    match t with
    | .char '"' :: rest => do
      let (s, after) ← orMalformed (string? rest)
      return (.string s, after)
    | .char '[' :: rest =>
      match depth with
      | 0 => .error .tooDeep
      | depth + 1 =>
        match skipGap rest with
        | .char ']' :: after => .ok (.array [], after)
        | inner => do
          let (items, after) ← items limits fuel depth inner
          return (.array items, after)
    | .char '\x7b' :: rest =>
      match depth with
      | 0 => .error .tooDeep
      | depth + 1 =>
        match skipGap rest with
        | .char '\x7d' :: after => .ok (.object [], after)
        | inner => do
          let (fields, after) ← fields limits fuel depth inner
          return (.object (Dictionary.ofList fields).entries, after)
    | _ =>
      match word? t with
      | some r => .ok r
      | none => number limits t

def items (limits : Limits) : Nat → Nat → Text → Except ReadError (List Json × Text)
  | 0, _, _ => .error .malformed
  | fuel + 1, depth, t => do
    let (item, rest) ← value limits fuel depth t
    match skipGap rest with
    | .char ']' :: after => return ([item], after)
    | .char ',' :: more =>
      let (others, after) ← items limits fuel depth (skipGap more)
      return (item :: others, after)
    | _ => .error .malformed

def fields (limits : Limits) : Nat → Nat → Text → Except ReadError (List (Text × Json) × Text)
  | 0, _, _ => .error .malformed
  | fuel + 1, depth, t => do
    let .char '"' :: opened := t | .error .malformed
    let (key, rest) ← orMalformed (string? opened)
    let .char ':' :: body := skipGap rest | .error .malformed
    let (value, rest) ← value limits fuel depth (skipGap body)
    match skipGap rest with
    | .char '\x7d' :: after => return ([(key, value)], after)
    | .char ',' :: more =>
      let (others, after) ← fields limits fuel depth (skipGap more)
      return ((key, value) :: others, after)
    | _ => .error .malformed

end

def parse (limits : Limits) (t : Text) : Except ReadError Json := do
  let (value, rest) ← value limits (2 * t.length + 2) limits.depth (skipGap t)
  if (skipGap rest).isEmpty then return value else .error .malformed

end Json

end ScriptReview
