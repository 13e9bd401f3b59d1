import ScriptReview.Issue
import ScriptReview.Text.Folded
import ScriptReview.Tree.Source

namespace ScriptReview

namespace RequestInput

def requestProperties : List String := ["body", "query", "params"]

def validators : List String := ["validate", "check", "verify", "sanitize", "parse"]

def path? (tree : SourceTree) (n : Node) : Option Text :=
  if n.kind == Kind.member then
    match n.child? "object" with
    | some target =>
      let owner := tree.text target
      let property := tree.textOf (n.child? "property")
      if !target.isIdentifier then none
      else if (owner == Text.ofString "req" &&
            (requestProperties.map Text.ofString).contains property) ||
          (owner == Text.ofString "request" && !property.isEmpty) then
        some (owner ++ "." ++ property)
      else none
    | none => none
  else none

def isValidator (name : Text) : Bool :=
  validators.any fun v => name.startsFolded v

def validates (tree : SourceTree) (parent child : Node) : Bool :=
  if parent.kind == "if_statement" then child.isSame (parent.child? "condition")
  else if parent.kind == "unary_expression" then parent.operator == "typeof"
  else if parent.kind == Kind.call && child.isSame (parent.child? "arguments") then
    (tree.calleeName? (parent.child? "function")).any isValidator
  else false

def validationStep (tree : SourceTree) (parent child : Node) (inside : Bool) : Bool :=
  inside || validates tree parent child

def occurrences (tree : SourceTree) : List (Node × Text × Bool) :=
  (tree.root.walkWith [] false (validationStep tree)).filterMap fun v =>
    (path? tree v.1).map fun path => (v.1, path, v.2)

def issue (n : Node) (path : Text) : Issue :=
  .plain "unchecked_external_input" 3 n.line
    ("External input " ++ path.cited ++ " used at line " ++ Text.number n.line ++
      " without apparent validation.")

def check (tree : SourceTree) : List Issue :=
  let found := occurrences tree
  let validated := (found.filter (·.2.2)).map (·.2.1)
  let uses := found.filter fun o => !validated.contains o.2.1
  Issue.firstPerLine (uses.map fun o => issue o.1 o.2.1)

end RequestInput

end ScriptReview
