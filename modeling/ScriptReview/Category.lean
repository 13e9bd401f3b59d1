import ScriptReview.Json.Decoder

namespace ScriptReview

inductive Category where
  | readability
  | complexity
  | edgeCases
  | security
  deriving DecidableEq

namespace Category

def all : List Category := [readability, complexity, edgeCases, security]

def name : Category → String
  | readability => "readability"
  | complexity => "complexity"
  | edgeCases => "edge_cases"
  | security => "security"

def ofName? (t : Text) : Option Category :=
  all.find? fun c => Text.ofString c.name == t

def focus : Category → String
  | edgeCases => "edge case handling"
  | c => c.name

def maxScore : Nat := 25

end Category

end ScriptReview
