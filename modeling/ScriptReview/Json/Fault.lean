import ScriptReview.Json.Basic

namespace ScriptReview

inductive PathStep where
  | key (name : Text)
  | index (position : Nat)

inductive FaultKind where
  | missing
  | notText
  | unencodableText
  | notInteger
  | unreadableInteger
  | oversizedInteger
  | fractional
  | notFinite
  | below (bound : Int)
  | above (bound : Int)
  | notList
  | notDictionary
  | notBoolean
  | unreadableBoolean
  | notNumber
  | unreadableNumber
  | notInstant
  | notMember (names : List String)
  | notLiteral (names : List String)
  | notModel (name : String)
  | notFields
  | malformed
  deriving DecidableEq

/-- A fault, the path to the offending part and the part itself; a missing field is charged to the
object that lacks it. -/
structure Fault where
  kind : FaultKind
  path : List PathStep
  input : Json

namespace FaultKind

def choices : List String → String
  | [] => ""
  | [name] => "'" ++ name ++ "'"
  | [name, last] => "'" ++ name ++ "' or '" ++ last ++ "'"
  | name :: rest => "'" ++ name ++ "', " ++ choices rest

def label : FaultKind → String
  | missing => "missing"
  | notText => "string_type"
  | unencodableText => "string_unicode"
  | notInteger => "int_type"
  | unreadableInteger => "int_parsing"
  | oversizedInteger => "int_parsing_size"
  | fractional => "int_from_float"
  | notFinite => "finite_number"
  | below _ => "greater_than_equal"
  | above _ => "less_than_equal"
  | notList => "list_type"
  | notDictionary => "dict_type"
  | notBoolean => "bool_type"
  | unreadableBoolean => "bool_parsing"
  | notNumber => "float_type"
  | unreadableNumber => "float_parsing"
  | notInstant => "datetime_parsing"
  | notMember _ => "enum"
  | notLiteral _ => "literal_error"
  | notModel _ => "model_type"
  | notFields => "model_attributes_type"
  | malformed => "json_invalid"

def message : FaultKind → String
  | missing => "Field required"
  | notText => "Input should be a valid string"
  | unencodableText =>
    "Input should be a valid string, unable to parse raw data as a unicode string"
  | notInteger => "Input should be a valid integer"
  | unreadableInteger => "Input should be a valid integer, unable to parse string as an integer"
  | oversizedInteger => "Unable to parse input string as an integer, exceeded maximum size"
  | fractional => "Input should be a valid integer, got a number with a fractional part"
  | notFinite => "Input should be a finite number"
  | below bound => "Input should be greater than or equal to " ++ toString bound
  | above bound => "Input should be less than or equal to " ++ toString bound
  | notList => "Input should be a valid list"
  | notDictionary => "Input should be a valid dictionary"
  | notBoolean => "Input should be a valid boolean"
  | unreadableBoolean => "Input should be a valid boolean, unable to interpret input"
  | notNumber => "Input should be a valid number"
  | unreadableNumber => "Input should be a valid number, unable to parse string as a number"
  | notInstant => "Input should be a valid datetime"
  | notMember names => "Input should be " ++ choices names
  | notLiteral names => "Input should be " ++ choices names
  | notModel name => "Input should be a valid dictionary or instance of " ++ name
  | notFields => "Input should be a valid dictionary or object to extract fields from"
  | malformed => "JSON decode error"

end FaultKind

namespace PathStep

def toJson : PathStep → Json
  | key name => .string name
  | index position => .int position

end PathStep

namespace Fault

def toJson (f : Fault) : Json :=
  .record [("type", .string f.kind.label), ("loc", .array (f.path.map PathStep.toJson)),
    ("msg", .string f.kind.message)]

end Fault

/-- A value that passed every check, or all the faults that were found. -/
inductive Checked (α : Type) where
  | valid (value : α)
  | faulty (faults : List Fault)

namespace Checked

def map (f : α → β) : Checked α → Checked β
  | valid a => valid (f a)
  | faulty fs => faulty fs

def apply : Checked (α → β) → Checked α → Checked β
  | valid f, valid a => valid (f a)
  | valid _, faulty gs => faulty gs
  | faulty fs, valid _ => faulty fs
  | faulty fs, faulty gs => faulty (fs ++ gs)

instance : Applicative Checked where
  pure := valid
  map := map
  seq f a := apply f (a ())

def fault (kind : FaultKind) (input : Json) : Checked α :=
  faulty [⟨kind, [], input⟩]

def under (step : PathStep) : Checked α → Checked α
  | valid a => valid a
  | faulty fs => faulty (fs.map fun f => { f with path := step :: f.path })

def andThen (c : Checked α) (next : α → Checked β) : Checked β :=
  match c with
  | valid a => next a
  | faulty fs => faulty fs

def toOption : Checked α → Option α
  | valid a => some a
  | faulty _ => none

def toExcept : Checked α → Except (List Fault) α
  | valid a => .ok a
  | faulty fs => .error fs

end Checked

end ScriptReview
