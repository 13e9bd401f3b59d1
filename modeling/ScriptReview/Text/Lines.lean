import ScriptReview.Text.Basic

namespace ScriptReview

namespace Symbol

/-- Line feed, vertical tab, form feed, carriage return, the separators U+001C to U+001E, next
line, line separator and paragraph separator. -/
def isLineBoundary (s : Symbol) : Bool :=
  (0x0A ≤ s.code && s.code ≤ 0x0D) || (0x1C ≤ s.code && s.code ≤ 0x1E) ||
    s.code == 0x85 || s.code == 0x2028 || s.code == 0x2029

def isNewline (s : Symbol) : Bool :=
  s.code == 0x0A || s.code == 0x0D

end Symbol

namespace Text

def firstLine (t : Text) : Text :=
  t.takeWhile fun s => !s.isLineBoundary

/-- The pieces between line feeds and carriage returns; the pair of both leaves an empty piece. -/
def pieces : Text → List Text
  | [] => [[]]
  | s :: rest =>
    if s.isNewline then [] :: pieces rest
    else
      match pieces rest with
      | [] => [[s]]
      | piece :: others => (s :: piece) :: others

end Text

end ScriptReview
