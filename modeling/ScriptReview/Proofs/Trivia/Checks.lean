import ScriptReview.Proofs.Findings.Issues
import ScriptReview.Proofs.Trivia.Bare

namespace ScriptReview

open Node hiding id

namespace SourceTree

variable (tree : SourceTree)

@[simp] theorem calleeName?_map_bare (o : Option Node) :
    tree.bare.calleeName? (o.map Node.bare) = tree.calleeName? o := by
  cases o <;> simp [calleeName?]

theorem boundKey?_bare (p : Node) : boundKey? p.bare = (boundKey? p).map Node.bare := by
  simp [boundKey?, Option.map_or]

@[simp] theorem boundName?_bare (p : Node) : tree.bare.boundName? p.bare = tree.boundName? p := by
  unfold boundName?
  rw [kind_bare, child?_bare, boundKey?_bare]
  cases p.child? "name" <;> cases boundKey? p <;> simp

@[simp] theorem functionName_bare (n : Node) (p : Option Node) :
    tree.bare.functionName n.bare (p.map Node.bare) = tree.functionName n p := by
  have hbound : (p.map Node.bare).bind tree.bare.boundName? = p.bind tree.boundName? := by
    cases p <;> simp
  unfold functionName
  rw [child?_bare, hbound]
  cases n.child? "name" <;> simp

@[simp] theorem isNullish_bare (n : Node) : tree.bare.isNullish n.bare = tree.isNullish n := by
  simp [isNullish]

end SourceTree

namespace FunctionSize

theorem statementCount_bare (block : Node) : statementCount block.bare = statementCount block := by
  rw [statementCount, namedChildren_bare, List.filter_map, List.length_map, List.filter_filter,
    statementCount]
  congr 1
  apply List.filter_congr
  intro c _
  cases hc : c.isTrivia with
  | true => simp [kind_of_isTrivia hc, Kind.comment]
  | false => simp

theorem check_bare (tree : SourceTree) (n : Node) (p : Option Node) :
    check tree.bare n.bare (p.map bare) = check tree n p := by
  unfold check longFunction manyStatements
  rw [child?_bare]
  cases n.child? "body" <;> simp [statementCount_bare]

end FunctionSize

namespace Naming

theorem isDeclared_bare (n p : Node) : isDeclared n.bare p.bare = isDeclared n p := by
  simp [isDeclared]

theorem check_bare (tree : SourceTree) (n p : Node) :
    check tree.bare n.bare p.bare = check tree n p := by
  simp [check, isDeclared_bare]

end Naming

namespace Nesting

theorem blocks_bare {tree : SourceTree} (h : tree.root.isTrivia = false) :
    blocks tree.bare = bareVisits (fun depth => depth) (blocks tree) := by
  have hwalk : tree.bare.root.walkWith [] 0 deeper =
      bareVisits (fun depth => depth) (tree.root.walkWith [] 0 deeper) :=
    walkWith_bare_same (fun p c s => by simp [deeper]) [] 0 h
  rw [blocks, hwalk, blocks]
  exact filter_bareVisits fun v _ => by simp

theorem isTrivia_of_mem_blocks {tree : SourceTree} {v : Node × Nat} (h : v ∈ blocks tree) :
    v.1.isTrivia = false := by
  have hkind : v.1.kind = "statement_block" := by simpa [Kind.block] using (List.mem_filter.mp h).2
  simp [isTrivia, hkind, Kind.comment]

theorem check_bare {tree : SourceTree} (h : tree.root.isTrivia = false) :
    check tree.bare = check tree := by
  rw [check]
  rw [blocks_bare h, filter_bareVisits (p := fun v => maxDepth < v.2) (fun v _ => by simp)]
  congr 1
  refine map_bareVisits fun v hv => ⟨?_, by simp [issue]⟩
  exact isTrivia_of_mem_blocks (List.mem_filter.mp hv).1

end Nesting

theorem Engine.readability_bare {tree : SourceTree} (h : tree.root.isTrivia = false) :
    readability tree.bare = readability tree := by
  rw [readability]
  rw [Nesting.check_bare h, SourceTree.walk_bare h]
  congr 1
  refine flatMap_bareVisits (fun v _ _ => ?_) fun v _ ht => ?_
  · have hnames : (v.2.map bare).toList.flatMap (Naming.check tree.bare v.1.bare) =
        v.2.toList.flatMap (Naming.check tree v.1) := by
      cases v.2 <;> simp [Naming.check_bare]
    simp only [isFunction_bare, isIdentifier_bare, FunctionSize.check_bare, hnames]
  · simp [isFunction, isIdentifier, hasKind, kind_of_isTrivia ht, Kind.functions, Kind.identifier]

namespace Branching

theorem total_weight_bare (ns : List Node) :
    total ((ns.filter (!·.isTrivia)).map (weight ∘ bare)) = total (ns.map weight) := by
  induction ns with
  | nil => rfl
  | cons n ns ih =>
      cases hn : n.isTrivia with
      | true =>
          have hw : weight n = 0 := by
            simp [weight, hasKind, isLogical, kind_of_isTrivia hn, Kind.branches, Kind.binary]
          simp [hn, ih, hw]
      | false =>
          have hw : weight n.bare = weight n := by simp [weight]
          simp [hn, ih, hw]

theorem complexity_bare (n : Node) : complexity n.bare = complexity n := by
  rw [complexity, descendants_bare, List.map_map, total_weight_bare, complexity]

theorem globalComplexity_bare (n : Node) : globalComplexity n.bare = globalComplexity n := by
  rw [globalComplexity, descendants_bare, List.map_map, total_weight_bare, globalComplexity]

theorem functions_bare {tree : SourceTree} (h : tree.root.isTrivia = false) :
    functions tree.bare = bareVisits (Option.map bare) (functions tree) := by
  rw [functions, SourceTree.walk_bare h, functions]
  exact filter_bareVisits fun v _ => by simp

theorem isTrivia_of_mem_functions {tree : SourceTree} {v : Node × Option Node}
    (h : v ∈ functions tree) : v.1.isTrivia = false := by
  have hf := (List.mem_filter.mp h).2
  cases ht : v.1.isTrivia with
  | false => rfl
  | true => simp [isFunction, hasKind, kind_of_isTrivia ht, Kind.functions] at hf

/-- What is computed for each function is computed for the same functions. -/
theorem map_functions_bare {β : Type} {tree : SourceTree} (h : tree.root.isTrivia = false)
    {g : Node × Option Node → β} (hg : ∀ v, g (v.1.bare, v.2.map bare) = g v) :
    (functions tree.bare).map g = (functions tree).map g := by
  rw [functions_bare h]
  exact map_bareVisits fun v hv => ⟨isTrivia_of_mem_functions hv, hg v⟩

theorem length_functions_bare {tree : SourceTree} (h : tree.root.isTrivia = false) :
    (functions tree.bare).length = (functions tree).length := by
  simpa using congrArg List.length (map_functions_bare h (g := fun _ => ()) fun _ => rfl)

theorem isEmpty_functions_bare {tree : SourceTree} (h : tree.root.isTrivia = false) :
    (functions tree.bare).isEmpty = (functions tree).isEmpty := by
  rw [Bool.eq_iff_iff, List.isEmpty_iff_length_eq_zero, List.isEmpty_iff_length_eq_zero,
    length_functions_bare h]

theorem findings_bare {tree : SourceTree} (h : tree.root.isTrivia = false) :
    findings tree.bare = findings tree := by
  unfold findings
  rw [isEmpty_functions_bare h]
  split
  · simp [globalIssue, SourceTree.bare, globalComplexity_bare]
  · rw [functions_bare h]
    refine flatMap_bareVisits (fun v _ _ => ?_) fun v hv ht => ?_
    · simp [complexityIssue, complexity_bare]
    · simp [isTrivia_of_mem_functions hv] at ht

end Branching

theorem Metrics.measured_bare {tree : SourceTree} (h : tree.root.isTrivia = false) :
    measured tree.bare = measured tree := by
  have hdepths : (Nesting.blocks tree.bare).map Prod.snd = (Nesting.blocks tree).map Prod.snd := by
    rw [Nesting.blocks_bare h]
    exact map_bareVisits fun v hv => ⟨Nesting.isTrivia_of_mem_blocks hv, rfl⟩
  have hcomplexities := Branching.map_functions_bare h
    (g := fun v => Branching.complexity v.1) fun v => Branching.complexity_bare v.1
  have hlengths := Branching.map_functions_bare h
    (g := fun v => v.1.lineCount.toNat) fun v => by rw [lineCount_bare]
  have hroot : Branching.globalComplexity tree.bare.root = Branching.globalComplexity tree.root :=
    Branching.globalComplexity_bare tree.root
  simp only [measured, hdepths, hcomplexities, hlengths, hroot, Branching.isEmpty_functions_bare h,
    Branching.length_functions_bare h]

end ScriptReview
