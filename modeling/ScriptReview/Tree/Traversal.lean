import ScriptReview.Tree.Kinds

/-!
Walks over the named nodes of a tree. They keep the nodes still to be visited in a list, so the
depth of a tree costs no call stack; beside each stands the plain recursion that it unfolds.
-/

namespace ScriptReview

namespace Node

variable {σ : Type}

def kept (skip : List String) (n : Node) : List Node :=
  n.namedChildren.filter fun c => !c.hasKind skip

def visits (skip : List String) (step : Node → Node → σ → σ) (v : Node × σ) : List (Node × σ) :=
  (v.1.kept skip).map fun c => (c, step v.1 c v.2)

theorem sizes_kept_lt (skip : List String) (n : Node) : sizes (n.kept skip) < n.size :=
  Nat.lt_of_le_of_lt (sizes_filter_le _ _) (sizes_namedChildren_lt n)

theorem map_fst_visits (skip : List String) (step : Node → Node → σ → σ) (v : Node × σ) :
    (visits skip step v).map Prod.fst = v.1.kept skip := by
  simp [visits, Function.comp_def]

def unfold (skip : List String) (step : Node → Node → σ → σ) :
    List (Node × σ) → List (Node × σ)
  | [] => []
  | v :: rest => v :: unfold skip step (visits skip step v ++ rest)
termination_by pending => sizes (pending.map Prod.fst)
decreasing_by
  rw [List.map_append, map_fst_visits, sizes_append, List.map_cons, sizes]
  have := sizes_kept_lt skip v.1
  omega

/-- Every node in pre-order with a state that `step parent child` carries down the tree. The root
is visited even if its kind is skipped. -/
def walkWith (skip : List String) (initial : σ) (step : Node → Node → σ → σ) (root : Node) :
    List (Node × σ) :=
  unfold skip step [(root, initial)]

def walkSkipping (skip : List String) (root : Node) : List (Node × Option Node) :=
  walkWith skip none (fun parent _ _ => some parent) root

def walk (root : Node) : List (Node × Option Node) :=
  walkSkipping [] root

def descendants (skip : List String) (root : Node) : List Node :=
  (walkSkipping skip root).tail.map Prod.fst

/-- A pending node of a post-order walk counts its subtree twice until it is opened. -/
def weight : List (Node × Bool) → Nat
  | [] => 0
  | (n, opened) :: rest => (if opened then 1 else 2 * n.size) + weight rest

theorem weight_append (xs ys : List (Node × Bool)) :
    weight (xs ++ ys) = weight xs + weight ys := by
  induction xs with
  | nil => simp [weight]
  | cons x xs ih => simp [weight, ih]; omega

theorem weight_unopened (ns : List Node) : weight (ns.map (·, false)) = 2 * sizes ns := by
  induction ns with
  | nil => rfl
  | cons n ns ih => simp [weight, sizes, ih]; omega

/-- A node is opened when it is first met and visited when it is met again. -/
def unfoldAfter : List (Node × Bool) → List Node
  | [] => []
  | (n, true) :: rest => n :: unfoldAfter rest
  | (n, false) :: rest => unfoldAfter (n.namedChildren.map (·, false) ++ (n, true) :: rest)
termination_by pending => weight pending
decreasing_by
  · simp [weight]
  · rw [weight_append, weight_unopened]
    have := sizes_namedChildren_lt n
    simp [weight]
    omega

def postorder (root : Node) : List Node :=
  unfoldAfter [(root, false)]

def deeper (parent _child : Node) (depth : Nat) : Nat :=
  if parent.hasKind Kind.nesting then depth + 1 else depth

mutual

def preorderWith (skip : List String) (step : Node → Node → σ → σ) (s : σ) :
    Node → List (Node × σ)
  | mk i cs => (mk i cs, s) :: preordersWith skip step s (mk i cs) cs

def preordersWith (skip : List String) (step : Node → Node → σ → σ) (s : σ) (parent : Node) :
    List Node → List (Node × σ)
  | [] => []
  | c :: cs =>
    (if c.isNamed && !c.hasKind skip then preorderWith skip step (step parent c s) c else []) ++
      preordersWith skip step s parent cs

end

mutual

def postorderRec : Node → List Node
  | mk i cs => postordersRec cs ++ [mk i cs]

def postordersRec : List Node → List Node
  | [] => []
  | c :: cs => (if c.isNamed then postorderRec c else []) ++ postordersRec cs

end

end Node

end ScriptReview
