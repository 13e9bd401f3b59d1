import ScriptReview.Dictionary
import ScriptReview.Json.Fault
import ScriptReview.Number.IntegerText

/-!
Decoders from JSON to typed values. An integer may also come as a real without fraction or as text;
nothing is converted to text. All faults of an object are found, in the order of its fields.
-/

namespace ScriptReview

abbrev Decoder (α : Type) := Json → Checked α

namespace Decoder

def text : Decoder Text
  | .string t => .valid t
  | other => .fault .notText other

/-- A value read from text, which must be without lone surrogates to be looked at. -/
def reading (f : Text → Checked α) (t : Text) : Checked α :=
  if t.isScalar then f t else .fault .unencodableText (.string t)

def integerText : Text → Checked Int :=
  reading fun t =>
    match IntegerText.read t with
    | .ok n => .valid n
    | .error .unreadable => .fault .unreadableInteger (.string t)
    | .error .oversized => .fault .oversizedInteger (.string t)

def integerReal (x : Binary64) : Checked Int :=
  let q := x.toRat
  if !x.isFinite then .fault .notFinite (.real x)
  else if q.den ≠ 1 then .fault .fractional (.real x)
  else if -0x8000000000000000 < q.num ∧ q.num < 0x8000000000000000 then .valid q.num
  else .fault .oversizedInteger (.real x)

def int : Decoder Int
  | .int n => .valid n
  | .bool b => .valid (if b then 1 else 0)
  | .real x => integerReal x
  | .string t => integerText t
  | other => .fault .notInteger other

def nat : Decoder Nat := fun j =>
  (int j).andThen fun n => if n < 0 then .fault (.below 0) j else .valid n.toNat

def natUpTo (bound : Nat) : Decoder (Fin (bound + 1)) := fun j =>
  (nat j).andThen fun n =>
    if h : n < bound + 1 then .valid ⟨n, h⟩ else .fault (.above bound) j

def trueWords : List String := ["1", "t", "true", "y", "yes", "on"]

def falseWords : List String := ["0", "f", "false", "n", "no", "off"]

def boolText : Text → Checked Bool :=
  reading fun t =>
    let word := String.ofList ((t.chars?.getD []).map Char.toLower)
    if trueWords.contains word then .valid true
    else if falseWords.contains word then .valid false
    else .fault .unreadableBoolean (.string t)

def bool : Decoder Bool
  | .bool b => .valid b
  | .int n =>
    if n = 0 then .valid false
    else if n = 1 then .valid true
    else .fault .unreadableBoolean (.int n)
  | .real x =>
    if x = .finite 0 ∨ x = .negativeZero then .valid false
    else if x = .finite 1 then .valid true
    else .fault .notBoolean (.real x)
  | .string t => boolText t
  | other => .fault .notBoolean other

/-- A numeral with white space around it, or one without that has single low lines inside. -/
def realText : Text → Checked Binary64 :=
  reading fun t =>
    match (Decimal.numeral? t.trim).or ((Decimal.withoutLowLines? t).bind Decimal.numeral?) with
    | some x => .valid x
    | none => .fault .unreadableNumber (.string t)

/-- A number. An integer beyond the range of floating point is none. -/
def real : Decoder Binary64
  | .real x => .valid x
  | .int n =>
    let x := Binary64.ofInt n
    if x.isFinite then .valid x else .fault .notNumber (.int n)
  | .bool b => .valid (.finite (if b then 1 else 0))
  | .string t => realText t
  | other => .fault .notNumber other

def member (values : List (String × α)) : Decoder α
  | .string t =>
    reading (fun t =>
      match values.lookup (String.ofList (t.chars?.getD [])) with
      | some a => .valid a
      | none => .fault (.notMember (values.map Prod.fst)) (.string t)) t
  | other => .fault (.notMember (values.map Prod.fst)) other

def optional (d : Decoder α) : Decoder (Option α)
  | .null => .valid none
  | j => some <$> d j

def itemsFrom (d : Decoder α) : Nat → List Json → Checked (List α)
  | _, [] => .valid []
  | i, j :: rest => List.cons <$> (d j).under (.index i) <*> itemsFrom d (i + 1) rest

def list (d : Decoder α) : Decoder (List α)
  | .array items => itemsFrom d 0 items
  | other => .fault .notList other

def entries (d : Decoder α) : List (Text × Json) → Checked (List (Text × α))
  | [] => .valid []
  | (key, value) :: rest =>
    (fun a as => (key, a) :: as) <$> (d value).under (.key key) <*> entries d rest

def dictionary (d : Decoder α) : Decoder (Dictionary α)
  | .object fields => Dictionary.ofList <$> entries d fields
  | other => .fault .notDictionary other

def required (key : String) (d : Decoder α) (fields : Json.Fields) : Checked α :=
  Checked.under (.key key)
    (match fields.get? key with
    | some value => d value
    | none => .fault .missing (.object fields))

def withDefault (key : String) (d : Decoder α) (default : α) (fields : Json.Fields) : Checked α :=
  match fields.get? key with
  | some value => (d value).under (.key key)
  | none => .valid default

def fields (mismatch : FaultKind) (d : Json.Fields → Checked α) : Decoder α
  | .object fs => d fs
  | other => .fault mismatch other

def model (name : String) (d : Json.Fields → Checked α) : Decoder α :=
  fields (.notModel name) d

end Decoder

end ScriptReview
