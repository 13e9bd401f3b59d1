import ScriptReview.Number.Binary64
import ScriptReview.Text.Basic

namespace ScriptReview

/-- Where positional notation starts, by the number of digits before the point (negative for zeros
after it), and how exponents are written. It ends at 16 digits before the point. -/
structure NumeralStyle where
  leastPoint : Int
  exponent : Int → List Char

namespace Shortest

def decade (q : Rat) : Int :=
  let guess : Int := ((Nat.toDigits 10 q.num.natAbs).length : Int) - (Nat.toDigits 10 q.den).length
  if (10 : Rat) ^ guess ≤ q then guess else guess - 1

/-- Of the two neighbours of `q` on the grid of step `10 ^ e`, the nearer one that reads back, and
the even one where both are equally near. -/
def onGrid? (q : Rat) (e : Int) : Option Nat :=
  let unit := (10 : Rat) ^ e
  let near := Binary64.nearestEven (q / unit)
  let far := if near * unit ≤ q then near + 1 else near - 1
  let reads (n : Int) : Bool := Binary64.ofRat (n * unit) == .finite q
  if reads near then some near.toNat
  else if reads far then some far.toNat
  else none

def search (q : Rat) (top : Int) : Nat → Nat × Int
  | 0 => ((q / (10 : Rat) ^ (top - 17)).floor.toNat, top - 17)
  | left + 1 =>
    let e := top - (16 - left : Int)
    match onGrid? q e with
    | some n => (n, e)
    | none => search q top left

def layout (style : NumeralStyle) (digits : List Char) (e : Int) : List Char :=
  let point : Int := digits.length + e
  if style.leastPoint ≤ point && point ≤ 16 then
    if point ≤ 0 then "0.".toList ++ List.replicate (-point).toNat '0' ++ digits
    else if point < digits.length then digits.take point.toNat ++ '.' :: digits.drop point.toNat
    else digits ++ List.replicate (point - digits.length).toNat '0' ++ ".0".toList
  else
    let rest := digits.drop 1
    digits.take 1 ++ (if rest.isEmpty then [] else '.' :: rest) ++ 'e' :: style.exponent (point - 1)

end Shortest

def Binary64.numeral (style : NumeralStyle) (q : Rat) : Text :=
  if q = 0 then "0.0"
  else
    let (n, e) := Shortest.search q.abs (Shortest.decade q.abs) 17
    let digits := Nat.toDigits 10 n
    let kept := (digits.reverse.dropWhile (· == '0')).reverse
    let written := Text.ofString
      (String.ofList (Shortest.layout style kept (e + (digits.length - kept.length : Nat))))
    if q < 0 then "-" ++ written else written

end ScriptReview
