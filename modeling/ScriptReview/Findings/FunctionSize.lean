import ScriptReview.Issue
import ScriptReview.Tree.Source

namespace ScriptReview

namespace FunctionSize

def maxLines : Int := 40

def maxStatements : Nat := 5

def longFunction (tree : SourceTree) (n : Node) (parent : Option Node) : List Issue :=
  if maxLines < n.lineCount then
    [.plain "long_function" 3 n.line
      ("Function " ++ tree.functionName n parent ++ " is " ++ Text.number n.lineCount ++
        " lines long (max: " ++ Text.number maxLines ++
        "). Consider breaking it into smaller functions.")]
  else []

def statementCount (block : Node) : Nat :=
  (block.namedChildren.filter (·.kind != Kind.comment)).length

def manyStatements (tree : SourceTree) (n : Node) (parent : Option Node) : List Issue :=
  match n.child? "body" with
  | none => []
  | some body =>
    if body.kind == Kind.block && maxStatements < statementCount body then
      [.plain "too_many_statements" 2 n.line
        ("Function " ++ tree.functionName n parent ++ " has " ++
          Text.number (statementCount body) ++ " top-level statements (max: " ++
          Text.number maxStatements ++ "). This may indicate too many responsibilities.")]
    else []

def check (tree : SourceTree) (n : Node) (parent : Option Node) : List Issue :=
  longFunction tree n parent ++ manyStatements tree n parent

end FunctionSize

end ScriptReview
