import ScriptReview.Text.Basic

/-!
UTF-8. Encoding fails on a lone surrogate. Decoding never fails: each maximal run of octets that
could start a character and does not finish one becomes U+FFFD.
-/

namespace ScriptReview

namespace Text

def utf8? : Text → Option (List UInt8)
  | [] => some []
  | .char c :: rest => (utf8? rest).map (String.utf8EncodeChar c ++ ·)
  | .surrogate _ :: _ => none

end Text

namespace Utf8

/-- A character under way: the bits read so far, the octets owed and the range of the next one. -/
structure Pending where
  bits : Nat
  owed : Nat
  low : Nat
  high : Nat

abbrev Outcome := Text × Option Pending

def replacement : Symbol := .char (Char.ofNat 0xFFFD)

def start (b : Nat) : Outcome :=
  if b < 0x80 then ([.char (Char.ofNat b)], none)
  else if b < 0xC2 then ([replacement], none)
  else if b < 0xE0 then ([], some ⟨b - 0xC0, 1, 0x80, 0xBF⟩)
  else if b == 0xE0 then ([], some ⟨0, 2, 0xA0, 0xBF⟩)
  else if b == 0xED then ([], some ⟨0xD, 2, 0x80, 0x9F⟩)
  else if b < 0xF0 then ([], some ⟨b - 0xE0, 2, 0x80, 0xBF⟩)
  else if b == 0xF0 then ([], some ⟨0, 3, 0x90, 0xBF⟩)
  else if b < 0xF4 then ([], some ⟨b - 0xF0, 3, 0x80, 0xBF⟩)
  else if b == 0xF4 then ([], some ⟨4, 3, 0x80, 0x8F⟩)
  else ([replacement], none)

def step : Option Pending → Nat → Outcome
  | none, b => start b
  | some p, b =>
    if p.low ≤ b && b ≤ p.high then
      let bits := p.bits * 64 + (b - 0x80)
      if p.owed ≤ 1 then ([.char (Char.ofNat bits)], none)
      else ([], some ⟨bits, p.owed - 1, 0x80, 0xBF⟩)
    else
      let (emitted, next) := start b
      (replacement :: emitted, next)

def decodeFrom : Option Pending → List UInt8 → Text
  | none, [] => []
  | some _, [] => [replacement]
  | p, b :: rest =>
    let (emitted, next) := step p b.toNat
    emitted ++ decodeFrom next rest

def decode (bytes : List UInt8) : Text :=
  decodeFrom none bytes

def decode? (bytes : List UInt8) : Option Text :=
  let t := decode bytes
  if t.utf8? = some bytes then some t else none

end Utf8

namespace Text

/-- The text with three replacement characters for a lone surrogate, one for each of the octets it
would take. -/
def patched (t : Text) : Text :=
  t.flatMap fun s => if s.isScalar then [s] else List.replicate 3 Utf8.replacement

end Text

end ScriptReview
