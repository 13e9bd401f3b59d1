import ScriptReview.Text.Basic

namespace ScriptReview

def blankRanges : List (Nat × Nat) :=
  [(0x09, 0x0D), (0x1C, 0x20), (0x85, 0x85), (0xA0, 0xA0), (0x1680, 0x1680), (0x2000, 0x200A),
    (0x2028, 0x2029), (0x202F, 0x202F), (0x205F, 0x205F), (0x3000, 0x3000)]

def inRanges (ranges : List (Nat × Nat)) (n : Nat) : Bool :=
  ranges.any fun r => r.1 ≤ n && n ≤ r.2

namespace Symbol

def isBlank (s : Symbol) : Bool :=
  inRanges blankRanges s.code

def isWhite (s : Symbol) : Bool :=
  s.isBlank && !(0x1C ≤ s.code && s.code ≤ 0x1F)

end Symbol

namespace Text

def isBlank (t : Text) : Bool :=
  t.all Symbol.isBlank

def strip (t : Text) : Text :=
  ((t.dropWhile Symbol.isBlank).reverse.dropWhile Symbol.isBlank).reverse

def trim (t : Text) : Text :=
  ((t.dropWhile Symbol.isWhite).reverse.dropWhile Symbol.isWhite).reverse

end Text

end ScriptReview
