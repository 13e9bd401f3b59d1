import ScriptReview.Text.Units
import ScriptReview.Text.Utf8

/-!
The encodings a JSON text may be sent in. Its first character is an ASCII one, so the zeros among
the first octets tell which it is, unless a byte order mark does.
-/

namespace ScriptReview

inductive ByteOrder where
  | big
  | little
  deriving DecidableEq

inductive Encoding where
  | utf8
  | utf16 (order : ByteOrder)
  | utf32 (order : ByteOrder)
  deriving DecidableEq

namespace Encoding

def marks : List (List UInt8 × Encoding) :=
  [([0x00, 0x00, 0xFE, 0xFF], .utf32 .big), ([0xFF, 0xFE, 0x00, 0x00], .utf32 .little),
    ([0xFE, 0xFF], .utf16 .big), ([0xFF, 0xFE], .utf16 .little), ([0xEF, 0xBB, 0xBF], .utf8)]

def ofZeros : List UInt8 → Encoding
  | [a, b] => if a = 0 then .utf16 .big else if b = 0 then .utf16 .little else .utf8
  | a :: b :: c :: d :: _ =>
    if a = 0 then if b = 0 then .utf32 .big else .utf16 .big
    else if b = 0 then if c = 0 ∧ d = 0 then .utf32 .little else .utf16 .little
    else .utf8
  | _ => .utf8

def detect (octets : List UInt8) : Encoding × List UInt8 :=
  match marks.find? fun m => m.1.isPrefixOf octets with
  | some (mark, encoding) => (encoding, octets.drop mark.length)
  | none => (ofZeros octets, octets)

def ByteOrder.number (order : ByteOrder) (octets : List UInt8) : Nat :=
  let bigFirst := match order with
    | .big => octets
    | .little => octets.reverse
  bigFirst.foldl (fun n o => n * 256 + o.toNat) 0

def units16? (order : ByteOrder) : List UInt8 → Option (List Nat)
  | [] => some []
  | [_] => none
  | a :: b :: rest => (units16? order rest).map (ByteOrder.number order [a, b] :: ·)

def codes32? (order : ByteOrder) : List UInt8 → Option (List Nat)
  | [] => some []
  | a :: b :: c :: d :: rest =>
    let code := ByteOrder.number order [a, b, c, d]
    if code < 0x110000 then (codes32? order rest).map (code :: ·) else none
  | _ => none

/-- The text in an encoding. Surrogates that stand alone are taken as they are. -/
def decode? : Encoding → List UInt8 → Option Text
  | .utf8, octets => Utf8.decode? octets
  | .utf16 order, octets => (units16? order octets).map Text.ofUnits
  | .utf32 order, octets => (codes32? order octets).map fun codes => codes.map Units.lone

end Encoding

def Text.ofOctets? (octets : List UInt8) : Option Text :=
  let (encoding, rest) := Encoding.detect octets
  encoding.decode? rest

end ScriptReview
