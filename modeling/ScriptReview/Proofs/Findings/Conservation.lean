import ScriptReview.Proofs.Findings.Table
import ScriptReview.Proofs.Order.Points
import ScriptReview.Proofs.Tree.Descent

namespace ScriptReview

namespace Node

variable {root n c : Node} {kinds : List String}

/-- Whether a node of some kinds is reached on a way that leaves the root and passes no other node
of these kinds before it. -/
def isTopmost (kinds : List String) : Node × List Edge → Bool
  | (_, []) => false
  | (n, _ :: above) => n.hasKind kinds && above.all fun e => !e.2.hasKind kinds

def topmost (kinds : List String) (root : Node) : List Node :=
  (root.descents.filter (isTopmost kinds)).map Prod.fst

theorem descents_eq (root : Node) :
    root.descents = (root, []) :: root.namedChildren.flatMap fun c =>
      c.descents.map fun v => (v.1, v.2 ++ [(root, c)]) := by
  have hpushed (start edges : List Edge) :
      carried (fun parent child edges => (parent, child) :: edges) start edges = edges ++ start := by
    induction edges with
    | nil => rfl
    | cons e edges ih => exact congrArg (e :: ·) ih
  rw [descents_eq_walkWith, walkWith_eq, kept_nil]
  congr 1
  apply List.flatMap_congr
  intro c _
  rw [walkWith_eq_map_descents]
  simp only [hpushed]

theorem exists_descents_eq (root : Node) :
    ∃ below, root.descents = (root, []) :: below ∧ ∀ v ∈ below, v.2 ≠ [] := by
  refine ⟨_, descents_eq root, ?_⟩
  intro v hv
  obtain ⟨c, -, hv⟩ := List.mem_flatMap.mp hv
  obtain ⟨u, -, rfl⟩ := List.mem_map.mp hv
  simp

/-- Below a child of these kinds every way passes the child. -/
theorem isTopmost_concat {v : Node × List Edge} (h : v.2 ≠ []) (p c : Node) :
    isTopmost kinds (v.1, v.2 ++ [(p, c)]) = (!c.hasKind kinds && isTopmost kinds v) := by
  obtain ⟨n, edges⟩ := v
  cases edges with
  | nil => exact absurd rfl h
  | cons e edges => simp [isTopmost, Bool.and_comm, Bool.and_left_comm]

theorem topmost_eq (kinds : List String) (root : Node) :
    root.topmost kinds = root.namedChildren.flatMap fun c =>
      if c.hasKind kinds then [c] else c.topmost kinds := by
  have hself (n : Node) : isTopmost kinds (n, []) = false := rfl
  have hchild (n c : Node) : isTopmost kinds (c, [(n, c)]) = c.hasKind kinds := Bool.and_true _
  rw [topmost, descents_eq, List.filter_cons_of_neg (by simp [hself]), List.filter_flatMap,
    List.map_flatMap]
  apply List.flatMap_congr
  intro c _
  obtain ⟨below, hbelow, hne⟩ := exists_descents_eq c
  have hrest : below.filter (isTopmost kinds ∘ fun v => (v.1, v.2 ++ [(root, c)])) =
      below.filter fun v => !c.hasKind kinds && isTopmost kinds v :=
    List.filter_congr fun v hv => isTopmost_concat (hne v hv) root c
  rw [topmost, hbelow, List.filter_map, List.map_map, List.filter_cons, hrest,
    List.filter_cons_of_neg (by simp [hself])]
  by_cases hc : c.hasKind kinds = true
  · simp [hchild, hc]
  · simp [hchild, hc, Function.comp_def]

theorem descendants_eq_flatMap (kinds : List String) (root : Node) :
    root.descendants kinds = root.namedChildren.flatMap fun c =>
      if c.hasKind kinds then [] else c.preorder kinds := by
  rw [descendants_eq, kept]
  induction root.namedChildren with
  | nil => rfl
  | cons c cs ih => by_cases hc : c.hasKind kinds = true <;> simp [hc, ih]

/-- A node below the root is met by the walk that passes over nodes of some kinds, or it stands in
one of the topmost of them, which may be itself. -/
theorem descendants_perm (kinds : List String) (root : Node) :
    (root.descendants []).Perm
      (root.descendants kinds ++ (root.topmost kinds).flatMap (preorder [])) := by
  induction root using children_induction with
  | _ root ih =>
      rw [descendants_eq, kept_nil, descendants_eq_flatMap, topmost_eq, List.flatMap_assoc]
      refine List.Perm.trans ?_ (List.flatMap_append_perm _ _ _).symm
      apply List.Perm.flatMap_left
      intro c hc
      by_cases hkind : c.hasKind kinds = true
      · simp [hkind]
      · simp only [hkind, Bool.false_eq_true, if_false]
        rw [preorder_eq, preorder_eq kinds, ← descendants_eq, ← descendants_eq]
        exact (ih c (mem_namedChildren.mp hc).1).cons c

theorem isFunction_of_mem_topmost (h : n ∈ root.topmost Kind.functions) : n.isFunction = true := by
  obtain ⟨⟨n, edges⟩, hv, rfl⟩ := List.mem_map.mp h
  have htop := (List.mem_filter.mp hv).2
  cases edges with
  | nil => cases htop
  | cons e edges => exact (Bool.and_eq_true_iff.mp htop).1

end Node

namespace Branching

variable {f g : Node}

/-- No kind of node is a function and a branch. -/
theorem weight_of_isFunction (h : f.isFunction = true) : weight f = 0 := by
  have hkinds : ∀ k ∈ Kind.functions, k ∉ Kind.branches ∧ k ≠ Kind.binary := by decide
  have hmem : f.kind ∈ Kind.functions := by simpa [Node.isFunction, Node.hasKind] using h
  obtain ⟨hbranch, hbinary⟩ := hkinds _ hmem
  simp [weight, Node.hasKind, Node.isLogical, hbranch, hbinary]

theorem subtreeWeight_of_isFunction (h : f.isFunction = true) :
    subtreeWeight f = complexity f - 1 := by
  rw [subtreeWeight_eq, weight_of_isFunction h, complexity_eq]
  omega

theorem complexity_le_of_holds (h : f.Holds g) : complexity g ≤ complexity f := by
  obtain ⟨c, hc, hg⟩ := h
  have hinner : (g.descendants []).Sublist (c.preorder []) := by
    have hsub := hg.preorder_sublist
    rw [Node.preorder_eq, ← Node.descendants_eq] at hsub
    exact (List.sublist_cons_self _ _).trans hsub
  have houter : (c.preorder []).Sublist (f.descendants []) := by
    rw [Node.descendants_eq, Node.kept_nil]
    exact List.sublist_flatten_of_mem (List.mem_map_of_mem hc)
  exact Nat.add_le_add_left (total_le_of_sublist ((hinner.trans houter).map weight)) 1

theorem total_weight_descendants (root : Node) :
    total ((root.descendants []).map weight) =
      globalComplexity root - 1 +
        total ((root.topmost Kind.functions).map fun f => complexity f - 1) := by
  have hinner : (root.topmost Kind.functions).map subtreeWeight =
      (root.topmost Kind.functions).map fun f => complexity f - 1 :=
    List.map_congr_left fun f hf => subtreeWeight_of_isFunction (Node.isFunction_of_mem_topmost hf)
  rw [total_eq_of_perm ((Node.descendants_perm Kind.functions root).map weight), List.map_append,
    total_append, total_map_flatMap, globalComplexity, Nat.add_sub_cancel_left, ← hinner]
  rfl

/-- The nodes below the root are those outside functions and those of the topmost functions, so
their branches add up. What is nested in a function never counts more than the function. -/
theorem branches_conserved (root : Node) :
    (root.descendants []).Perm (root.descendants Kind.functions ++
      (root.topmost Kind.functions).flatMap (Node.preorder [])) ∧
    total ((root.descendants []).map weight) = globalComplexity root - 1 +
      total ((root.topmost Kind.functions).map fun f => complexity f - 1) ∧
    ∀ f g : Node, f.Holds g →
      complexity g ≤ complexity f ∧ penalty (complexity g) ≤ penalty (complexity f) := by
  refine ⟨Node.descendants_perm _ root, total_weight_descendants root, ?_⟩
  intro f g hg
  have hle := complexity_le_of_holds hg
  exact ⟨hle, penalty_mono (Int.ofNat_le.mpr hle)⟩

def guardedArrow : Node :=
  .inline 9 "arrow_function" none 25 33
    [.inline 10 "identifier" (some "parameter") 25 26 [],
      .inline 11 "ternary_expression" (some "body") 28 33
        [.inline 12 "identifier" (some "condition") 28 29 [],
          .inline 13 "number" (some "consequence") 30 31 [],
          .inline 14 "number" (some "alternative") 32 33 []]]

def guardedFunction : Node :=
  .inline 4 "function_declaration" (some "consequence") 5 34
    [.inline 5 "identifier" (some "name") 14 15 [],
      .inline 6 "formal_parameters" (some "parameters") 15 17 [],
      .inline 7 "statement_block" (some "body") 17 34
        [.inline 8 "return_statement" none 18 33 [guardedArrow]]]

def guardedFunctions : Node :=
  .inline 0 "program" none 0 34
    [.inline 1 "if_statement" none 0 34
      [.inline 2 "parenthesized_expression" (some "condition") 2 5
          [.inline 3 "identifier" none 3 4 []],
        guardedFunction]]

theorem branches_guardedFunctions :
    guardedFunction.Holds guardedArrow ∧ guardedFunction.isFunction = true ∧
      guardedArrow.isFunction = true ∧ complexity guardedArrow ≤ complexity guardedFunction ∧
      penalty (complexity guardedArrow) ≤ penalty (complexity guardedFunction) ∧
      (guardedFunctions.topmost Kind.functions).map Node.id = [4] ∧
      globalComplexity guardedFunctions = 2 ∧ complexity guardedFunction = 2 ∧
      total ((guardedFunctions.descendants []).map weight) = 2 := by
  obtain ⟨-, hsum, hnested⟩ := branches_conserved guardedFunctions
  have hholds : guardedFunction.Holds guardedArrow :=
    ⟨.inline 7 "statement_block" (some "body") 17 34
        [.inline 8 "return_statement" none 18 33 [guardedArrow]], by
      simp [guardedFunction, Node.inline, Node.namedChildren, Node.children, Node.isNamed, Node.info],
      (Node.Reaches.refl.child (List.mem_singleton_self _)).child (List.mem_singleton_self _)⟩
  obtain ⟨hle, hpenalty⟩ := hnested _ _ hholds
  have hglobal : globalComplexity guardedFunctions = 2 := by decide +kernel
  have htop : (guardedFunctions.topmost Kind.functions).map (fun f => complexity f - 1) = [1] := by
    decide +kernel
  rw [hglobal, htop] at hsum
  exact ⟨hholds, rfl, rfl, hle, hpenalty, by decide +kernel, hglobal, by decide +kernel, hsum⟩

end Branching

end ScriptReview
