import Mathlib.Logic.Embedding.Basic
import ScriptReview.Proofs.Findings.UserInput

namespace ScriptReview

/-- Elements that are told apart before and after a map alike are left over alike. -/
theorem filter_perm_map {α β : Type} {f : α → β} {p : β → Bool} {q : α → Bool} {xs : List β}
    {ys : List α} (h : xs.Perm (ys.map f)) (hpq : ∀ y, p (f y) = q y) :
    (xs.filter p).Perm ((ys.filter q).map f) := by
  have hcomp : p ∘ f = q := funext hpq
  rw [← hcomp, ← List.filter_map]
  exact h.filter p

namespace Node

def isSequence (n : Node) : Bool :=
  n.hasKind ["program", Kind.block]

theorem kind_of_isSequence {n : Node} (h : n.isSequence = true) :
    n.kind = "program" ∨ n.kind = "statement_block" := by
  simpa [isSequence, hasKind, Kind.block] using h

theorem isSequence_eq_false {n : Node} {kind : String} (h : n.kind = kind)
    (hkind : ["program", Kind.block].contains kind = false) : n.isSequence = false := by
  rw [isSequence, hasKind, h, hkind]

theorem isSequence_of_hasKind {n : Node} {kinds : List String} (h : n.hasKind kinds = true)
    (hkinds : ∀ kind ∈ kinds, ["program", Kind.block].contains kind = false) :
    n.isSequence = false :=
  isSequence_eq_false rfl (hkinds n.kind (List.contains_iff_mem.mp h))

/-- An order for the statements of every sequence. Since it may number the nodes anew, it also gives
every node its new id. -/
structure Arrangement where
  order : Node → List Node
  number : Nat ↪ Nat
  order_perm : ∀ n, (order n).Perm n.children
  order_eq : ∀ n, n.isSequence = false → order n = n.children

def arranged (a : Arrangement) (n : Node) : Node :=
  mk { n.info with id := a.number n.id } ((a.order n).attach.map fun c => arranged a c.1)
termination_by n.size
decreasing_by exact size_lt_of_mem_children ((a.order_perm n).subset c.2)

variable {a : Arrangement}

theorem arranged_eq (n : Node) :
    n.arranged a = mk { n.info with id := a.number n.id } ((a.order n).map (arranged a)) := by
  rw [arranged]
  simp

@[simp] theorem info_arranged (n : Node) :
    (n.arranged a).info = { n.info with id := a.number n.id } := by
  rw [arranged_eq, info]

@[simp] theorem id_arranged (n : Node) : (n.arranged a).id = a.number n.id := by
  simp [Node.id]

@[simp] theorem kind_arranged (n : Node) : (n.arranged a).kind = n.kind := by
  simp [kind]

@[simp] theorem isNamed_arranged (n : Node) : (n.arranged a).isNamed = n.isNamed := by
  simp [isNamed]

@[simp] theorem hasKind_arranged (n : Node) (kinds : List String) :
    (n.arranged a).hasKind kinds = n.hasKind kinds := by
  simp [hasKind]

@[simp] theorem line_arranged (n : Node) : (n.arranged a).line = n.line := by
  simp [line]

@[simp] theorem lineCount_arranged (n : Node) : (n.arranged a).lineCount = n.lineCount := by
  simp [lineCount]

@[simp] theorem isFunction_arranged (n : Node) : (n.arranged a).isFunction = n.isFunction := by
  simp [isFunction]

@[simp] theorem isIdentifier_arranged (n : Node) :
    (n.arranged a).isIdentifier = n.isIdentifier := by
  simp [isIdentifier]

@[simp] theorem isSame_arranged (n : Node) (o : Option Node) :
    (n.arranged a).isSame (o.map (arranged a)) = n.isSame o := by
  cases o with
  | none => rfl
  | some m => simp [isSame, Bool.beq_eq_decide_eq]

theorem children_arranged (n : Node) : (n.arranged a).children = (a.order n).map (arranged a) := by
  rw [arranged_eq, children]

theorem children_arranged_perm (n : Node) :
    (n.arranged a).children.Perm (n.children.map (arranged a)) := by
  rw [children_arranged]
  exact (a.order_perm n).map _

theorem namedChildren_arranged_perm (n : Node) :
    (n.arranged a).namedChildren.Perm (n.namedChildren.map (arranged a)) :=
  filter_perm_map (children_arranged_perm n) isNamed_arranged

theorem kept_arranged_perm (skip : List String) (n : Node) :
    ((n.arranged a).kept skip).Perm ((n.kept skip).map (arranged a)) :=
  filter_perm_map (namedChildren_arranged_perm n) fun c => by rw [hasKind_arranged]

@[simp] theorem hasChildOfKind_arranged (n : Node) (kinds : List String) :
    (n.arranged a).hasChildOfKind kinds = n.hasChildOfKind kinds := by
  rw [hasChildOfKind, (children_arranged_perm n).any_eq, List.any_map, hasChildOfKind]
  simp [Function.comp_def]

@[simp] theorem isAsync_arranged (n : Node) : (n.arranged a).isAsync = n.isAsync :=
  hasChildOfKind_arranged n _

@[simp] theorem hasOptionalChain_arranged (n : Node) :
    (n.arranged a).hasOptionalChain = n.hasOptionalChain :=
  hasChildOfKind_arranged n _

theorem children_arranged_of_fixed {n : Node} (h : n.isSequence = false) :
    (n.arranged a).children = n.children.map (arranged a) := by
  rw [children_arranged, a.order_eq n h]

theorem namedChildren_arranged {n : Node} (h : n.isSequence = false) :
    (n.arranged a).namedChildren = n.namedChildren.map (arranged a) := by
  rw [namedChildren, children_arranged_of_fixed h, List.filter_map, namedChildren]
  simp [Function.comp_def]

theorem child?_arranged {n : Node} (h : n.isSequence = false) (role : String) :
    (n.arranged a).child? role = (n.child? role).map (arranged a) := by
  rw [child?, children_arranged_of_fixed h, List.find?_map, child?]
  simp only [Function.comp_def, info_arranged]

theorem operator_arranged {n : Node} (h : n.isSequence = false) :
    (n.arranged a).operator = n.operator := by
  rw [operator, child?_arranged h, operator]
  cases n.child? "operator" <;> simp

@[simp] theorem isLogical_arranged (n : Node) : (n.arranged a).isLogical = n.isLogical := by
  by_cases hk : n.kind = Kind.binary
  · simp [isLogical, operator_arranged (isSequence_eq_false hk rfl)]
  · simp [isLogical, beq_eq_false_iff_ne.mpr hk]

@[simp] theorem isSum_arranged (n : Node) : (n.arranged a).isSum = n.isSum := by
  by_cases hk : n.kind = Kind.binary
  · simp [isSum, operator_arranged (isSequence_eq_false hk rfl)]
  · simp [isSum, beq_eq_false_iff_ne.mpr hk]

section

variable {σ τ : Type}

/-- If one step of a walk does not depend on the arrangement, the walk meets the same nodes in the
same states. -/
theorem walkWith_arranged_perm {f : σ → τ} {step : Node → Node → σ → σ}
    {step' : Node → Node → τ → τ}
    (hstep : ∀ p c s, step' (p.arranged a) (c.arranged a) (f s) = f (step p c s))
    (skip : List String) (s : σ) (n : Node) :
    (walkWith skip (f s) step' (n.arranged a)).Perm
      ((walkWith skip s step n).map fun v => (v.1.arranged a, f v.2)) := by
  induction n using children_induction generalizing s with
  | _ n ih =>
      rw [walkWith_eq, walkWith_eq, List.map_cons, List.map_flatMap]
      apply List.Perm.cons
      refine ((kept_arranged_perm skip n).flatMap_right _).trans ?_
      rw [List.flatMap_map]
      apply List.Perm.flatMap_left
      intro c hc
      rw [hstep]
      exact ih c (mem_children_of_mem_kept hc) _

theorem walkWith_arranged_perm_same {step step' : Node → Node → σ → σ}
    (hstep : ∀ p c s, step' (p.arranged a) (c.arranged a) s = step p c s) (skip : List String)
    (s : σ) (n : Node) :
    (walkWith skip s step' (n.arranged a)).Perm
      ((walkWith skip s step n).map fun v => (v.1.arranged a, v.2)) :=
  walkWith_arranged_perm (f := fun s => s) hstep skip s n

/-- What is found at each node in its state is found in any order. -/
theorem filterMap_walkWith_arranged_perm {β : Type} {step step' : Node → Node → σ → σ}
    (hstep : ∀ p c s, step' (p.arranged a) (c.arranged a) s = step p c s) {s : σ} {n : Node}
    {g g' : Node × σ → Option β}
    (h : ∀ v ∈ walkWith [] s step n, g' (v.1.arranged a, v.2) = g v) :
    ((walkWith [] s step' (n.arranged a)).filterMap g').Perm
      ((walkWith [] s step n).filterMap g) := by
  refine ((walkWith_arranged_perm_same hstep [] s n).filterMap g').trans (.of_eq ?_)
  rw [List.filterMap_map]
  exact List.filterMap_congr h

theorem walkSkipping_arranged_perm (skip : List String) (n : Node) :
    ((n.arranged a).walkSkipping skip).Perm
      ((n.walkSkipping skip).map fun v => (v.1.arranged a, v.2.map (arranged a))) := by
  rw [walkSkipping, walkSkipping]
  refine walkWith_arranged_perm (f := Option.map (arranged a)) ?_ skip none n
  intro p c s
  rfl

theorem preorder_arranged_perm (skip : List String) (n : Node) :
    ((n.arranged a).preorder skip).Perm ((n.preorder skip).map (arranged a)) := by
  have h := (walkSkipping_arranged_perm (a := a) skip n).map Prod.fst
  rw [List.map_map] at h
  rw [preorder, preorder, List.map_map]
  exact h

theorem descendants_arranged_perm (skip : List String) (n : Node) :
    ((n.arranged a).descendants skip).Perm ((n.descendants skip).map (arranged a)) := by
  rw [descendants_eq, descendants_eq, List.map_flatMap]
  refine ((kept_arranged_perm skip n).flatMap_right _).trans ?_
  rw [List.flatMap_map]
  apply List.Perm.flatMap_left
  intro c _
  exact preorder_arranged_perm skip c

theorem nodes_arranged_perm (n : Node) :
    (n.arranged a).nodes.Perm (n.nodes.map (arranged a)) := by
  induction n using children_induction with
  | _ n ih =>
      rw [nodes_eq, nodes_eq, List.map_cons, List.map_flatMap]
      apply List.Perm.cons
      refine ((children_arranged_perm n).flatMap_right _).trans ?_
      rw [List.flatMap_map]
      exact List.Perm.flatMap_left _ ih

theorem reaches_arranged_iff {root m : Node} :
    (root.arranged a).Reaches m ↔ ∃ n, root.Reaches n ∧ n.arranged a = m := by
  rw [← mem_preorder_iff_reaches, (preorder_arranged_perm [] root).mem_iff, List.mem_map]
  simp only [mem_preorder_iff_reaches]

end

theorem AllDistinctIds.arranged {root : Node} (h : root.AllDistinctIds) :
    (root.arranged a).AllDistinctIds := by
  have hids : ((root.arranged a).nodes.map Node.id).Perm ((root.nodes.map Node.id).map a.number) := by
    refine ((nodes_arranged_perm root).map Node.id).trans (.of_eq ?_)
    simp [Function.comp_def]
  exact hids.nodup_iff.mpr (h.map a.number.injective)

end Node

namespace SourceTree

variable {a : Node.Arrangement} {tree : SourceTree}

def arranged (tree : SourceTree) (a : Node.Arrangement) : SourceTree :=
  { tree with root := tree.root.arranged a }

@[simp] theorem root_arranged : (tree.arranged a).root = tree.root.arranged a := rfl

@[simp] theorem text_arranged (n : Node) : (tree.arranged a).text (n.arranged a) = tree.text n := by
  simp [text, arranged]

@[simp] theorem textOf_map_arranged (o : Option Node) :
    (tree.arranged a).textOf (o.map (Node.arranged a)) = tree.textOf o := by
  cases o <;> simp [textOf]

@[simp] theorem stringValue_arranged (n : Node) :
    (tree.arranged a).stringValue (n.arranged a) = tree.stringValue n := by
  simp [stringValue]

@[simp] theorem isNullish_arranged (n : Node) :
    (tree.arranged a).isNullish (n.arranged a) = tree.isNullish n := by
  simp [isNullish]

@[simp] theorem calleeName?_map_arranged (o : Option Node) :
    (tree.arranged a).calleeName? (o.map (Node.arranged a)) = tree.calleeName? o := by
  cases o with
  | none => rfl
  | some n =>
      by_cases hk : n.kind = Kind.member
      · simp [calleeName?, Node.child?_arranged (Node.isSequence_eq_false hk rfl)]
      · simp [calleeName?, hk]

theorem walk_arranged_perm (tree : SourceTree) (a : Node.Arrangement) :
    (tree.arranged a).walk.Perm
      (tree.walk.map fun v => (v.1.arranged a, v.2.map (Node.arranged a))) :=
  Node.walkSkipping_arranged_perm [] tree.root

theorem filterMap_walk_arranged_perm {β : Type} {g g' : Node × Option Node → Option β}
    (h : ∀ v ∈ tree.walk, g' (v.1.arranged a, v.2.map (Node.arranged a)) = g v) :
    ((tree.arranged a).walk.filterMap g').Perm (tree.walk.filterMap g) := by
  refine ((walk_arranged_perm tree a).filterMap g').trans (.of_eq ?_)
  rw [List.filterMap_map]
  exact List.filterMap_congr h

end SourceTree

end ScriptReview
