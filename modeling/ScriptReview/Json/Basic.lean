import ScriptReview.Dictionary
import ScriptReview.Number.Binary64
import ScriptReview.Text.Utf8

namespace ScriptReview

inductive Json where
  | null
  | bool (value : Bool)
  | int (value : Int)
  | real (value : Binary64)
  | string (value : Text)
  | array (items : List Json)
  | object (fields : List (Text × Json))

namespace Json

instance : Inhabited Json := ⟨.null⟩

abbrev Fields := List (Text × Json)

def Fields.get? (fields : Fields) (key : String) : Option Json :=
  fields.lookup (Text.ofString key)

def ofOption (f : α → Json) : Option α → Json
  | none => .null
  | some a => f a

def texts (items : List Text) : Json :=
  .array (items.map .string)

def dictionary (f : α → Json) (d : Dictionary α) : Json :=
  .object ((d.renamed Text.patched).entries.map fun e => (e.1, f e.2))

def record (fields : List (String × Json)) : Json :=
  .object (fields.map fun f => (Text.ofString f.1, f.2))

mutual

def isScalar : Json → Bool
  | .string value => value.isScalar
  | .array items => areScalar items
  | .object fields => fieldsScalar fields
  | _ => true

def areScalar : List Json → Bool
  | [] => true
  | item :: rest => item.isScalar && areScalar rest

def fieldsScalar : List (Text × Json) → Bool
  | [] => true
  | (key, value) :: rest => key.isScalar && value.isScalar && fieldsScalar rest

end

mutual

def isFinite : Json → Bool
  | .real value => value.isFinite
  | .array items => areFinite items
  | .object fields => fieldsFinite fields
  | _ => true

def areFinite : List Json → Bool
  | [] => true
  | item :: rest => item.isFinite && areFinite rest

def fieldsFinite : List (Text × Json) → Bool
  | [] => true
  | (_, value) :: rest => value.isFinite && fieldsFinite rest

end

end Json

end ScriptReview
