namespace ScriptReview

/-- One unit of text. A lone surrogate has no UTF-8 form, so text that holds one cannot be stored
or hashed. -/
inductive Symbol where
  | char (c : Char)
  | surrogate (unit : Fin 2048)
  deriving DecidableEq

abbrev Text := List Symbol

namespace Symbol

def code : Symbol → Nat
  | .char c => c.toNat
  | .surrogate unit => 0xD800 + unit.val

def isScalar : Symbol → Bool
  | .char _ => true
  | .surrogate _ => false

def satisfies (p : Char → Bool) : Symbol → Bool
  | .char c => p c
  | .surrogate _ => false

end Symbol

namespace Text

def ofString (s : String) : Text :=
  s.toList.map .char

instance : Coe String Text := ⟨ofString⟩

def chars? : Text → Option (List Char)
  | [] => some []
  | .char c :: rest => (chars? rest).map (c :: ·)
  | .surrogate _ :: _ => none

def isScalar (t : Text) : Bool :=
  t.all Symbol.isScalar

def number (n : Int) : Text :=
  ofString (toString n)

def joinWith (separator : Text) : List Text → Text
  | [] => []
  | [item] => item
  | item :: rest => item ++ separator ++ joinWith separator rest

def cited (t : Text) : Text :=
  ofString "'" ++ t ++ ofString "'"

def endsWith (t : Text) (ending : String) : Bool :=
  (ofString ending).isSuffixOf t

def startsWith (t : Text) (start : String) : Bool :=
  (ofString start).isPrefixOf t

def hasPart : Text → Text → Bool
  | [], part => part.isEmpty
  | c :: rest, part => part.isPrefixOf (c :: rest) || hasPart rest part

end Text

end ScriptReview
