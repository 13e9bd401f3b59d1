namespace ScriptReview

/-- A floating point number. A zero read with a minus sign keeps it; the results of operations are
only rounded afterwards, where the sign of a zero does not show, so they carry none. -/
inductive Binary64 where
  | finite (value : Rat)
  | negativeZero
  | infinite (negative : Bool)
  | notANumber
  deriving DecidableEq

namespace Binary64

def nearestEven (q : Rat) : Int :=
  let below := q.floor
  let excess := q - below
  if excess < 1 / 2 then below
  else if 1 / 2 < excess then below + 1
  else if below % 2 = 0 then below
  else below + 1

def binade (q : Rat) : Int :=
  let guess : Int := (q.num.natAbs.log2 : Int) - (q.den.log2 : Int)
  if (2 : Rat) ^ guess ≤ q then guess else guess - 1

def spacing (q : Rat) : Rat :=
  (2 : Rat) ^ max (binade q.abs - 52) (-1074)

/-- The nearest number, and an infinity from `2 ^ 1024` on. -/
def ofRat (q : Rat) : Binary64 :=
  if q = 0 then .finite 0
  else
    let unit := spacing q
    let value := (nearestEven (q / unit) : Rat) * unit
    if (2 : Rat) ^ (1024 : Int) ≤ value.abs then .infinite (decide (q < 0)) else .finite value

def ofInt (n : Int) : Binary64 :=
  ofRat n

def isFinite : Binary64 → Bool
  | .finite _ => true
  | .negativeZero => true
  | _ => false

def neg : Binary64 → Binary64
  | .finite value => if value = 0 then .negativeZero else .finite (-value)
  | .negativeZero => .finite 0
  | .infinite negative => .infinite !negative
  | .notANumber => .notANumber

instance : Neg Binary64 := ⟨neg⟩

def toRat : Binary64 → Rat
  | .finite value => value
  | _ => 0

def add : Binary64 → Binary64 → Binary64
  | .notANumber, _ => .notANumber
  | _, .notANumber => .notANumber
  | .infinite s, .infinite t => if s = t then .infinite s else .notANumber
  | .infinite s, _ => .infinite s
  | _, .infinite s => .infinite s
  | x, y => ofRat (x.toRat + y.toRat)

instance : Add Binary64 := ⟨add⟩

def scaledInfinity (negative : Bool) (q : Rat) : Binary64 :=
  if q = 0 then .notANumber else .infinite (negative != decide (q < 0))

def mul : Binary64 → Binary64 → Binary64
  | .notANumber, _ => .notANumber
  | _, .notANumber => .notANumber
  | .infinite s, .infinite t => .infinite (s != t)
  | .infinite s, y => scaledInfinity s y.toRat
  | x, .infinite s => scaledInfinity s x.toRat
  | x, y => ofRat (x.toRat * y.toRat)

instance : Mul Binary64 := ⟨mul⟩

def quotient (a b : Int) : Binary64 :=
  ofRat (a / b)

end Binary64

end ScriptReview
