import ScriptReview.Issue
import ScriptReview.Tree.Source

namespace ScriptReview

namespace AsyncGuard

def ownNodes (body : Node) : List Node :=
  body :: if body.isFunction then [] else body.descendants Kind.functions

def isAwait (n : Node) : Bool :=
  n.kind == "await_expression" || (n.kind == "for_in_statement" && n.hasChildOfKind ["await"])

def isUnguarded (body : Node) : Bool :=
  (ownNodes body).any isAwait && !(ownNodes body).any (·.kind == "try_statement")

def isOffending (n : Node) : Bool :=
  n.isFunction && n.isAsync && (n.child? "body").any isUnguarded

def issue (tree : SourceTree) (v : Node × Option Node) : Issue :=
  .plain "async_without_try" 4 v.1.line
    ("Async function " ++ tree.functionName v.1 v.2 ++ " at line " ++ Text.number v.1.line ++
      " contains await expressions without try/catch error handling.")

def check (tree : SourceTree) : List Issue :=
  (tree.walk.filter fun v => isOffending v.1).map (issue tree)

end AsyncGuard

end ScriptReview
