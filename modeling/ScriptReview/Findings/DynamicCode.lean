import ScriptReview.Issue
import ScriptReview.Tree.Source

namespace ScriptReview

namespace DynamicCode

def name? (tree : SourceTree) (callee : Option Node) : Option Text :=
  (tree.calleeName? callee).filter fun name =>
    name == Text.ofString "eval" || name == Text.ofString "Function"

def callIssue (n : Node) (name : Text) : Issue :=
  let rule := if name == Text.ofString "eval" then "eval_usage" else "function_constructor"
  .severe rule 8 .critical n.line
    ("Dangerous " ++ name ++ "() usage detected at line " ++ Text.number n.line ++
      ". This can execute arbitrary code and is a major security risk.")

def constructorIssue (n : Node) : Issue :=
  .severe "function_constructor" 8 .critical n.line
    ("Dangerous 'new Function()' usage detected at line " ++ Text.number n.line ++
      ". This is equivalent to eval() and can execute arbitrary code.")

def issue? (tree : SourceTree) (n : Node) : Option Issue :=
  if n.kind == Kind.call then (name? tree (n.child? "function")).map (callIssue n)
  else if n.kind == "new_expression" then
    if name? tree (n.child? "constructor") == some (Text.ofString "Function") then
      some (constructorIssue n)
    else none
  else none

def check (tree : SourceTree) : List Issue :=
  Issue.firstPerLine (tree.walk.filterMap fun v => issue? tree v.1)

end DynamicCode

end ScriptReview
