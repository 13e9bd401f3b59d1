import ScriptReview.Issue
import ScriptReview.Tree.Source

namespace ScriptReview

namespace Nesting

def maxDepth : Nat := 4

def blocks (tree : SourceTree) : List (Node × Nat) :=
  (tree.root.walkWith [] 0 Node.deeper).filter fun v => v.1.kind == Kind.block

def issue (n : Node) (depth : Nat) : Issue :=
  .plain "deep_nesting" 3 n.line
    ("Deep nesting detected at line " ++ Text.number n.line ++ " (depth: " ++ Text.number depth ++
      ", max: " ++ Text.number maxDepth ++
      "). Consider extracting logic or using early returns.")

def check (tree : SourceTree) : List Issue :=
  Issue.firstPerLine
    (((blocks tree).filter fun v => maxDepth < v.2).map fun v => issue v.1 v.2)

end Nesting

end ScriptReview
