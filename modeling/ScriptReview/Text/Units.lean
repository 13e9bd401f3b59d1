import ScriptReview.Text.Basic

namespace ScriptReview

namespace Units

def isHigh (u : Nat) : Bool :=
  0xD800 ≤ u && u < 0xDC00

def isLow (u : Nat) : Bool :=
  0xDC00 ≤ u && u < 0xE000

def joined (high low : Nat) : Char :=
  Char.ofNat (0x10000 + (high - 0xD800) * 0x400 + (low - 0xDC00))

def lone (u : Nat) : Symbol :=
  if h : 0xD800 ≤ u ∧ u < 0xE000 then .surrogate ⟨u - 0xD800, by omega⟩ else .char (Char.ofNat u)

end Units

def Text.ofUnits : List Nat → Text
  | [] => []
  | [u] => [Units.lone u]
  | u :: v :: rest =>
    if Units.isHigh u && Units.isLow v then .char (Units.joined u v) :: ofUnits rest
    else Units.lone u :: ofUnits (v :: rest)

end ScriptReview
