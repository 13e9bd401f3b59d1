import ScriptReview.Tree.Node

namespace ScriptReview

structure ListedNode where
  info : NodeInfo
  childCount : Nat

def ListedNode.gather (row : ListedNode) (following : List Node) : List Node :=
  .mk row.info (following.take row.childCount) :: following.drop row.childCount

def Node.ofListing? (rows : List ListedNode) : Option Node :=
  (rows.foldr ListedNode.gather []).head?

end ScriptReview
