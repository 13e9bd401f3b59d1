import ScriptReview.Text.Basic

namespace ScriptReview

namespace Symbol

def folds (c : Char) : Symbol → Bool
  | .surrogate _ => false
  | .char d =>
    d.toLower == c ||
      (c == 'i' && (d.toNat == 0x130 || d.toNat == 0x131)) ||
      (c == 's' && d.toNat == 0x17F) ||
      (c == 'k' && d.toNat == 0x212A)

def foldsToLetter : Symbol → Bool
  | .surrogate _ => false
  | .char d => d.isAlpha || [0x130, 0x131, 0x17F, 0x212A].contains d.toNat

end Symbol

namespace Text

def lowered (t : Text) : Text :=
  t.map fun
    | .char c => .char c.toLower
    | s => s

def afterFolded? : List Char → Text → Option Text
  | [], t => some t
  | _ :: _, [] => none
  | c :: word, s :: rest => if s.folds c then afterFolded? word rest else none

def startsFolded (word : String) (t : Text) : Bool :=
  (afterFolded? word.toList t).isSome

def anyEnd (p : Text → Bool) : Text → Bool
  | [] => p []
  | s :: rest => p (s :: rest) || anyEnd p rest

def containsFolded (word : String) (t : Text) : Bool :=
  t.anyEnd (startsFolded word)

end Text

end ScriptReview
