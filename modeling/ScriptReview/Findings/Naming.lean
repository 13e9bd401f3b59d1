import ScriptReview.Issue
import ScriptReview.Tree.Source

namespace ScriptReview

namespace Naming

def minLength : Nat := 3

def allowed : List String :=
  ["i", "j", "k", "n", "x", "y", "z", "id", "fn", "cb", "db", "fs", "os", "e", "ex", "err", "_",
    "__"]

def isDeclared (n parent : Node) : Bool :=
  if parent.kind == Kind.declarator then n.isSame (parent.child? "name")
  else if parent.isFunction then
    n.isSame (parent.child? "name") || n.isSame (parent.child? "parameter")
  else if ["required_parameter", "optional_parameter"].contains parent.kind then
    n.isSame (parent.child? "pattern")
  else parent.kind == "formal_parameters"

def check (tree : SourceTree) (n parent : Node) : List Issue :=
  let name := tree.text n
  if !isDeclared n parent || minLength ≤ name.length || (allowed.map Text.ofString).contains name
  then []
  else
    [.plain "poor_naming" 2 n.line
      ("Variable " ++ name.cited ++ " has a non-descriptive name (" ++ Text.number name.length ++
        " chars). Use meaningful names.")]

end Naming

end ScriptReview
