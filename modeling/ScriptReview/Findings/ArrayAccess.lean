import ScriptReview.Issue
import ScriptReview.Tree.Source

namespace ScriptReview

namespace ArrayAccess

/-- Whether a child stands in a test or in a logical operand, within its own function. -/
def conditionStep (parent child : Node) (inside : Bool) : Bool :=
  if parent.isFunction then false
  else if parent.hasKind Kind.conditions && child.isSame (parent.child? "condition") then true
  else if parent.isLogical then true
  else inside

def chainKinds : List String := [Kind.member, Kind.subscript, Kind.call]

def exemptStep (parent child : Node) (inside : Bool) : Bool :=
  if inside || parent.hasKind Kind.loops then true
  else if parent.hasKind chainKinds && parent.hasOptionalChain then
    child.isSame ((parent.child? "object").or (parent.child? "function"))
  else false

def lengthOf? (tree : SourceTree) (n : Node) : Option Text :=
  match n.child? "object" with
  | some target =>
    if target.isIdentifier && tree.textOf (n.child? "property") == Text.ofString "length" then
      some (tree.text target)
    else none
  | none => none

def isArrayTest (tree : SourceTree) (callee : Node) : Bool :=
  callee.kind == Kind.member &&
    (callee.child? "object").any (fun owner =>
      owner.isIdentifier && tree.text owner == Text.ofString "Array") &&
    tree.textOf (callee.child? "property") == Text.ofString "isArray"

def testedArray? (tree : SourceTree) (n : Node) : Option Text :=
  if (n.child? "function").any (isArrayTest tree) then
    match (n.child? "arguments").bind (·.namedChildren.head?) with
    | some first => if first.isIdentifier then some (tree.text first) else none
    | none => none
  else none

def comparedToNothing? (tree : SourceTree) (n : Node) : Option Text :=
  match n.child? "left", n.child? "right" with
  | some left, some right =>
    if left.isIdentifier && tree.isNullish right then some (tree.text left)
    else if right.isIdentifier && tree.isNullish left then some (tree.text right)
    else none
  | _, _ => none

def checkedName? (tree : SourceTree) (n : Node) : Option Text :=
  if n.kind == Kind.member then lengthOf? tree n
  else if n.kind == Kind.call then testedArray? tree n
  else if n.kind == Kind.binary && equalityOperators.contains n.operator then
    comparedToNothing? tree n
  else none

def checkedNames (tree : SourceTree) : List Text :=
  (tree.root.walkWith [] false conditionStep).filterMap fun v =>
    if v.2 then checkedName? tree v.1 else none

def accessedName? (tree : SourceTree) (n : Node) : Option Text :=
  if n.kind == Kind.subscript && !n.hasOptionalChain then
    match n.child? "object" with
    | some target => if target.isIdentifier then some (tree.text target) else none
    | none => none
  else none

def issue (n : Node) (name : Text) : Issue :=
  .plain "unchecked_array_access" 3 n.line
    ("Array " ++ name.cited ++ " accessed at line " ++ Text.number n.line ++
      " without prior length or null check.")

def check (tree : SourceTree) : List Issue :=
  let checked := checkedNames tree
  Issue.firstPerLine <|
    (tree.root.walkWith [] false exemptStep).filterMap fun v =>
      match accessedName? tree v.1 with
      | some name => if v.2 || checked.contains name then none else some (issue v.1 name)
      | none => none

end ArrayAccess

end ScriptReview
