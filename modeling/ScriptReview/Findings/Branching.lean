import ScriptReview.Failure
import ScriptReview.Issue
import ScriptReview.Number.Total
import ScriptReview.Tree.Source

/-!
Cyclomatic complexity: one, and one more for every branch, loop, case, logical operator and catch
clause. Nested functions count toward the functions around them; code outside functions is judged
only in a file without functions.
-/

namespace ScriptReview

namespace Branching

def weight (n : Node) : Nat :=
  if n.hasKind Kind.branches || n.isLogical then 1 else 0

def complexity (n : Node) : Nat :=
  1 + total ((n.descendants []).map weight)

def globalComplexity (root : Node) : Nat :=
  1 + total ((root.descendants Kind.functions).map weight)

abbrev Totals := List (Nat × Nat)

def take : List Node → Totals → Except Failure (Nat × Totals)
  | [], pending => .ok (0, pending)
  | n :: rest, pending =>
    match pending.lookup n.id with
    | none => .error (.missingEntry n.id)
    | some total => do
      let (sum, left) ← take rest (pending.filter (·.1 != n.id))
      return (total + sum, left)

/-- The weights of the subtrees whose parent is still to come, and the complexities found. -/
structure Progress where
  pending : Totals
  found : Totals

def advance (p : Progress) (n : Node) : Except Failure Progress := do
  let (inner, left) ← take n.namedChildren p.pending
  return {
    pending := (n.id, weight n + inner) :: left.filter (·.1 != n.id)
    found := if n.isFunction then (n.id, 1 + inner) :: p.found else p.found }

/-- The complexity of every function by node id, in one pass over the tree. -/
def complexities (root : Node) : Except Failure Totals := do
  let final ← root.postorder.foldlM advance ⟨[], []⟩
  return final.found

def lookup (table : Totals) (n : Node) : Except Failure Nat :=
  match table.lookup n.id with
  | some c => .ok c
  | none => .error (.missingEntry n.id)

def penalty (c : Int) : Nat :=
  if c ≤ 5 then 0 else if c ≤ 10 then 3 else if c ≤ 15 then 6 else if c ≤ 20 then 10 else 15

def complexityIssue (tree : SourceTree) (v : Node × Option Node) (c : Nat) : List Issue :=
  if penalty c = 0 then []
  else
    [.plain "cyclomatic_complexity" (penalty c) v.1.line
      ("Function " ++ tree.functionName v.1 v.2 ++ " has cyclomatic complexity of " ++
        Text.number c ++ ". Consider simplifying control flow.")]

def functionIssue (tree : SourceTree) (table : Totals) (v : Node × Option Node) :
    Except Failure (List Issue) := do
  let c ← lookup table v.1
  return complexityIssue tree v c

def globalIssue (tree : SourceTree) : List Issue :=
  let c := globalComplexity tree.root
  if penalty c = 0 then []
  else
    [.plain "global_complexity" (penalty c) 1
      ("Global code has cyclomatic complexity of " ++ Text.number c ++
        ". Consider organizing into functions.")]

def functions (tree : SourceTree) : List (Node × Option Node) :=
  tree.walk.filter fun v => v.1.isFunction

def check (tree : SourceTree) : Except Failure (List Issue) := do
  let table ← complexities tree.root
  let fs := functions tree
  if fs.isEmpty then return globalIssue tree
  else
    let issues ← fs.mapM (functionIssue tree table)
    return issues.flatten

end Branching

end ScriptReview
