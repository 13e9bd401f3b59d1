import ScriptReview.Tree.Source

namespace ScriptReview

namespace UserInput

def roots : List Text := ["req", "request"]

def accessKinds : List String := [Kind.member, Kind.subscript]

/-- Ids of the accesses that start from a request, and of the nodes with such an access in them. -/
structure Reach where
  rooted : List Nat
  reading : List Nat

def isRooted (tree : SourceTree) (rooted : List Nat) (n : Node) : Bool :=
  n.hasKind accessKinds &&
    (n.child? "object").any fun target =>
      rooted.contains target.id || (target.isIdentifier && roots.contains (tree.text target))

def extend (tree : SourceTree) (r : Reach) (n : Node) : Reach :=
  let rooted := if isRooted tree r.rooted n then n.id :: r.rooted else r.rooted
  if rooted.contains n.id || n.namedChildren.any fun c => r.reading.contains c.id then
    ⟨rooted, n.id :: r.reading⟩
  else ⟨rooted, r.reading⟩

def reach (tree : SourceTree) : Reach :=
  tree.root.postorder.foldl (extend tree) ⟨[], []⟩

def nodes (tree : SourceTree) : List Nat :=
  (reach tree).reading

end UserInput

end ScriptReview
