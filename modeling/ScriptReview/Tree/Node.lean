namespace ScriptReview

/-- What a node says about itself. Rows and columns count from zero, offsets and columns in UTF-8
octets; `id` tells the nodes of one tree apart. -/
structure NodeInfo where
  id : Nat
  kind : String
  field : Option String
  isNamed : Bool
  isError : Bool
  isMissing : Bool
  hasError : Bool
  startByte : Nat
  endByte : Nat
  startRow : Nat
  startColumn : Nat
  endRow : Nat

inductive Node where
  | mk (info : NodeInfo) (children : List Node)

namespace Node

def info : Node → NodeInfo
  | mk i _ => i

def children : Node → List Node
  | mk _ cs => cs

def id (n : Node) : Nat := n.info.id

def kind (n : Node) : String := n.info.kind

def isNamed (n : Node) : Bool := n.info.isNamed

def namedChildren (n : Node) : List Node :=
  n.children.filter isNamed

def child? (n : Node) (role : String) : Option Node :=
  n.children.find? fun c => c.info.field == some role

def hasKind (n : Node) (kinds : List String) : Bool :=
  kinds.contains n.kind

def line (n : Node) : Nat :=
  n.info.startRow + 1

def lineCount (n : Node) : Int :=
  (n.info.endRow : Int) - n.info.startRow + 1

def isSame (n : Node) : Option Node → Bool
  | some m => n.id == m.id
  | none => false

def hasChildOfKind (n : Node) (kinds : List String) : Bool :=
  n.children.any (·.hasKind kinds)

def operator (n : Node) : String :=
  match n.child? "operator" with
  | some token => token.kind
  | none => ""

def isAsync (n : Node) : Bool :=
  n.hasChildOfKind ["async"]

def hasOptionalChain (n : Node) : Bool :=
  n.hasChildOfKind ["optional_chain", "?."]

mutual

def size : Node → Nat
  | mk _ cs => sizes cs + 1

def sizes : List Node → Nat
  | [] => 0
  | c :: cs => c.size + sizes cs

end

theorem sizes_append (xs ys : List Node) : sizes (xs ++ ys) = sizes xs + sizes ys := by
  induction xs with
  | nil => simp [sizes]
  | cons x xs ih => simp [sizes, ih]; omega

theorem sizes_filter_le (p : Node → Bool) (xs : List Node) : sizes (xs.filter p) ≤ sizes xs := by
  induction xs with
  | nil => simp [sizes]
  | cons x xs ih =>
    rw [List.filter_cons]
    split <;> simp only [sizes] <;> omega

theorem size_eq (n : Node) : n.size = sizes n.children + 1 := by
  cases n; simp [size, children]

theorem sizes_namedChildren_lt (n : Node) : sizes n.namedChildren < n.size := by
  have h := sizes_filter_le isNamed n.children
  rw [size_eq]
  unfold namedChildren
  omega

end Node

end ScriptReview
