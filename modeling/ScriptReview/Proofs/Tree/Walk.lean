import Mathlib.Data.List.Perm.Basic
import ScriptReview.Tree.Traversal

namespace ScriptReview.Node

variable {σ : Type}

theorem mem_namedChildren {n c : Node} : c ∈ n.namedChildren ↔ c ∈ n.children ∧ c.isNamed = true :=
  List.mem_filter

theorem size_le_sizes {c : Node} {cs : List Node} (h : c ∈ cs) : c.size ≤ sizes cs := by
  induction cs with
  | nil => simp at h
  | cons d ds ih =>
      rw [sizes]
      rcases List.mem_cons.mp h with rfl | h
      · omega
      · have := ih h
        omega

theorem size_lt_of_mem_children {n c : Node} (h : c ∈ n.children) : c.size < n.size := by
  have := size_le_sizes h
  rw [size_eq n]
  omega

/-- Induction from the children of a node to the node. -/
theorem children_induction {P : Node → Prop} (h : ∀ n, (∀ c ∈ n.children, P c) → P n) (n : Node) :
    P n := by
  induction hs : n.size using Nat.strongRecOn generalizing n with
  | _ k ih =>
      apply h
      intro c hc
      exact ih c.size (hs ▸ size_lt_of_mem_children hc) c rfl

theorem kept_nil (n : Node) : n.kept [] = n.namedChildren := by
  simp [kept, hasKind]

theorem mem_children_of_mem_kept {skip : List String} {n c : Node} (h : c ∈ n.kept skip) :
    c ∈ n.children :=
  (mem_namedChildren.mp (List.mem_filter.mp h).1).1

theorem preordersWith_eq_flatMap (skip : List String) (step : Node → Node → σ → σ) (s : σ)
    (parent : Node) (cs : List Node) :
    preordersWith skip step s parent cs =
      (cs.filter fun c => c.isNamed && !c.hasKind skip).flatMap
        fun c => preorderWith skip step (step parent c s) c := by
  induction cs with
  | nil => rfl
  | cons c cs ih =>
      rw [preordersWith, ih, List.filter_cons]
      split <;> simp

/-- A node comes before the pre-orders of its children. -/
theorem preorderWith_eq (skip : List String) (step : Node → Node → σ → σ) (s : σ) (n : Node) :
    preorderWith skip step s n =
      (n, s) :: (visits skip step (n, s)).flatMap fun v => preorderWith skip step v.2 v.1 := by
  cases n with
  | mk i cs =>
      rw [preorderWith, preordersWith_eq_flatMap]
      simp only [visits, kept, namedChildren, children, List.flatMap_map, List.filter_filter]
      simp only [Bool.and_comm]

/-- The pending nodes of a walk stand for their pre-orders, one after the other. -/
theorem unfold_eq_flatMap (skip : List String) (step : Node → Node → σ → σ)
    (pending : List (Node × σ)) :
    unfold skip step pending = pending.flatMap fun v => preorderWith skip step v.2 v.1 := by
  fun_induction unfold skip step pending with
  | case1 => rfl
  | case2 v rest ih => rw [ih, List.flatMap_append, List.flatMap_cons, preorderWith_eq]; rfl

theorem walkWith_eq_preorderWith (skip : List String) (s : σ) (step : Node → Node → σ → σ)
    (root : Node) : walkWith skip s step root = preorderWith skip step s root := by
  rw [walkWith, unfold_eq_flatMap]
  simp

theorem walkWith_eq (skip : List String) (s : σ) (step : Node → Node → σ → σ) (n : Node) :
    walkWith skip s step n =
      (n, s) :: (n.kept skip).flatMap fun c => walkWith skip (step n c s) step c := by
  simp only [walkWith_eq_preorderWith]
  rw [preorderWith_eq, visits, List.flatMap_map]

def preorder (skip : List String) (root : Node) : List Node :=
  (walkSkipping skip root).map Prod.fst

theorem map_fst_walkWith (skip : List String) (s : σ) (step : Node → Node → σ → σ) (root : Node) :
    (walkWith skip s step root).map Prod.fst = root.preorder skip := by
  rw [preorder, walkSkipping]
  generalize (none : Option Node) = p
  induction root using children_induction generalizing s p with
  | _ n ih =>
      rw [walkWith_eq, walkWith_eq, List.map_cons, List.map_cons, List.map_flatMap,
        List.map_flatMap]
      congr 1
      apply List.flatMap_congr
      intro c hc
      exact ih c (mem_children_of_mem_kept hc) _ _

theorem preorder_eq (skip : List String) (n : Node) :
    n.preorder skip = n :: (n.kept skip).flatMap (preorder skip) := by
  rw [preorder, walkSkipping, walkWith_eq, List.map_cons, List.map_flatMap]
  congr 1
  apply List.flatMap_congr
  intro c _
  exact map_fst_walkWith skip _ _ c

theorem descendants_eq (skip : List String) (n : Node) :
    n.descendants skip = (n.kept skip).flatMap (preorder skip) := by
  rw [descendants, List.map_tail, ← preorder, preorder_eq, List.tail_cons]

theorem map_fst_walk (root : Node) : root.walk.map Prod.fst = root.preorder [] := rfl

theorem mem_preorder_self (skip : List String) (n : Node) : n ∈ n.preorder skip := by
  rw [preorder_eq]
  exact List.mem_cons_self

inductive Reaches (root : Node) : Node → Prop
  | refl : Reaches root root
  | child {n c : Node} : Reaches root n → c ∈ n.namedChildren → Reaches root c

theorem Reaches.trans {a b c : Node} (hab : a.Reaches b) (hbc : b.Reaches c) : a.Reaches c := by
  induction hbc with
  | refl => exact hab
  | child _ hc ih => exact ih.child hc

theorem mem_preorder_of_mem_namedChildren {root n c : Node} (hn : n ∈ root.preorder [])
    (hc : c ∈ n.namedChildren) : c ∈ root.preorder [] := by
  induction root using children_induction with
  | _ r ih =>
      rw [preorder_eq, kept_nil] at hn ⊢
      rw [List.mem_cons, List.mem_flatMap] at hn ⊢
      right
      rcases hn with rfl | ⟨d, hd, hn⟩
      · exact ⟨c, hc, mem_preorder_self [] c⟩
      · exact ⟨d, hd, ih d (mem_namedChildren.mp hd).1 hn⟩

/-- A walk that skips nothing visits exactly the nodes that named children lead to. -/
theorem mem_preorder_iff_reaches {root n : Node} : n ∈ root.preorder [] ↔ root.Reaches n := by
  constructor
  · intro h
    induction root using children_induction with
    | _ r ih =>
        rw [preorder_eq, kept_nil, List.mem_cons, List.mem_flatMap] at h
        rcases h with rfl | ⟨c, hc, h⟩
        · exact .refl
        · exact (Reaches.refl.child hc).trans (ih c (mem_namedChildren.mp hc).1 h)
  · intro h
    induction h with
    | refl => exact mem_preorder_self [] root
    | child _ hc ih => exact mem_preorder_of_mem_namedChildren ih hc

theorem reaches_of_mem_walkWith {root n : Node} {s t : σ} {step : Node → Node → σ → σ}
    (h : (n, t) ∈ walkWith [] s step root) : root.Reaches n := by
  rw [← mem_preorder_iff_reaches, ← map_fst_walkWith [] s step]
  exact List.mem_map_of_mem h

theorem exists_mem_walk_iff {root n : Node} : (∃ p, (n, p) ∈ root.walk) ↔ root.Reaches n := by
  rw [← mem_preorder_iff_reaches, ← map_fst_walk, List.mem_map]
  constructor
  · rintro ⟨p, h⟩
    exact ⟨(n, p), h, rfl⟩
  · rintro ⟨⟨_, p⟩, h, rfl⟩
    exact ⟨p, h⟩

theorem postordersRec_eq_flatMap (cs : List Node) :
    postordersRec cs = (cs.filter isNamed).flatMap postorderRec := by
  induction cs with
  | nil => rfl
  | cons c cs ih =>
      rw [postordersRec, ih, List.filter_cons]
      split <;> simp

/-- A node comes after the post-orders of its children. -/
theorem postorderRec_eq (n : Node) :
    n.postorderRec = n.namedChildren.flatMap postorderRec ++ [n] := by
  cases n with
  | mk i cs => rw [postorderRec, postordersRec_eq_flatMap]; rfl

/-- A node that is already open stands for itself, any other for its post-order. -/
theorem unfoldAfter_eq_flatMap (pending : List (Node × Bool)) :
    unfoldAfter pending =
      pending.flatMap fun v => if v.2 then [v.1] else v.1.postorderRec := by
  fun_induction unfoldAfter pending with
  | case1 => rfl
  | case2 n rest ih => rw [ih]; rfl
  | case3 n rest ih =>
      rw [ih, List.flatMap_append, List.flatMap_map, List.flatMap_cons, List.flatMap_cons]
      simp [postorderRec_eq n]

theorem postorder_eq_postorderRec (root : Node) : root.postorder = root.postorderRec := by
  rw [postorder, unfoldAfter_eq_flatMap]
  simp

theorem postorderRec_perm_preorder (n : Node) : n.postorderRec.Perm (n.preorder []) := by
  induction n using children_induction with
  | _ n ih =>
      rw [postorderRec_eq, preorder_eq, kept_nil]
      refine (List.perm_append_comm).trans (List.Perm.cons n ?_)
      apply List.Perm.flatMap_left
      intro c hc
      exact ih c (mem_namedChildren.mp hc).1

theorem postorder_perm_preorder (root : Node) : root.postorder.Perm (root.preorder []) := by
  rw [postorder_eq_postorderRec]
  exact postorderRec_perm_preorder root

mutual

def nodes : Node → List Node
  | mk i cs => mk i cs :: nodesOf cs

def nodesOf : List Node → List Node
  | [] => []
  | c :: cs => c.nodes ++ nodesOf cs

end

theorem nodesOf_eq_flatMap (cs : List Node) : nodesOf cs = cs.flatMap nodes := by
  induction cs with
  | nil => rfl
  | cons c cs ih => rw [nodesOf, ih, List.flatMap_cons]

theorem nodes_eq (n : Node) : n.nodes = n :: n.children.flatMap nodes := by
  cases n with
  | mk i cs => rw [nodes, nodesOf_eq_flatMap]; rfl

def Contains (root n : Node) : Prop :=
  n ∈ root.nodes

theorem Contains.refl (n : Node) : n.Contains n := by
  rw [Contains, nodes_eq]
  exact List.mem_cons_self

theorem Contains.child {root n c : Node} (h : root.Contains n) (hc : c ∈ n.children) :
    root.Contains c := by
  induction root using children_induction with
  | _ root ih =>
      rw [Contains, nodes_eq] at h ⊢
      refine List.mem_cons_of_mem root (List.mem_flatMap.mpr ?_)
      rcases List.mem_cons.mp h with rfl | h
      · exact ⟨c, hc, Contains.refl c⟩
      · obtain ⟨d, hd, hn⟩ := List.mem_flatMap.mp h
        exact ⟨d, hd, ih d hd hn⟩

theorem Contains.child? {root n c : Node} {role : String} (h : root.Contains n)
    (hc : n.child? role = some c) : root.Contains c :=
  h.child (List.mem_of_find?_eq_some hc)

theorem Reaches.contains {root n : Node} (h : root.Reaches n) : root.Contains n := by
  induction h with
  | refl => exact .refl root
  | child _ hc ih => exact ih.child (mem_namedChildren.mp hc).1

end ScriptReview.Node
