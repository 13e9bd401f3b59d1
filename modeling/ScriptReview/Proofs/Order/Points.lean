import ScriptReview.Proofs.Findings.Agreement
import ScriptReview.Proofs.Order.Arranged

namespace ScriptReview

open Node hiding id

theorem total_eq_of_perm {xs ys : List Nat} (h : xs.Perm ys) : total xs = total ys := by
  induction h with
  | nil => rfl
  | cons x _ ih => rw [total_cons, total_cons, ih]
  | swap x y l =>
      simp only [total_cons]
      omega
  | trans _ _ ih₁ ih₂ => exact ih₁.trans ih₂

theorem total_le_of_sublist {xs ys : List Nat} (h : xs.Sublist ys) : total xs ≤ total ys := by
  induction h with
  | slnil => exact le_rfl
  | cons y _ ih => exact ih.trans (Nat.le_add_left _ y)
  | cons_cons x _ ih => exact Nat.add_le_add_left ih x

namespace Issue

/-- How many issues are listed depends on the lines they stand on. -/
theorem length_firstPerLine_of_perm {xs ys : List Issue} (h : (xs.map line).Perm (ys.map line)) :
    (firstPerLine xs).length = (firstPerLine ys).length := by
  have hlines : ((firstPerLine xs).map line).Perm ((firstPerLine ys).map line) := by
    refine (List.perm_ext_iff_of_nodup (nodup_lines_firstPerLineFrom [] xs)
      (nodup_lines_firstPerLineFrom [] ys)).mpr fun l => ?_
    rw [mem_lines_firstPerLineFrom, mem_lines_firstPerLineFrom, h.mem_iff]
  simpa using hlines.length_eq

end Issue

namespace CategoryScore

theorem penaltySum_append (xs ys : List Issue) :
    penaltySum (xs ++ ys) = penaltySum xs + penaltySum ys := by
  rw [penaltySum, List.map_append, total_append, penaltySum, penaltySum]

theorem penaltySum_eq_mul {p : Nat} {issues : List Issue} (h : ∀ i ∈ issues, i.penalty = p) :
    penaltySum issues = issues.length * p := by
  induction issues with
  | nil => simp [penaltySum]
  | cons i issues ih =>
      have hrest := ih fun j hj => h j (List.mem_cons_of_mem i hj)
      rw [penaltySum] at hrest ⊢
      rw [List.map_cons, total_cons, hrest, h i List.mem_cons_self, List.length_cons, Nat.succ_mul,
        Nat.add_comm]

/-- A check whose issues all cost the same costs the same in any order. -/
theorem penaltySum_firstPerLine_of_perm {p : Nat} {xs ys : List Issue}
    (hp : ∀ i ∈ ys, i.penalty = p) (h : xs.Perm ys) :
    penaltySum (Issue.firstPerLine xs) = penaltySum (Issue.firstPerLine ys) := by
  have hx : ∀ i ∈ Issue.firstPerLine xs, i.penalty = p := fun i hi =>
    hp i (h.mem_iff.mp (Issue.mem_of_mem_firstPerLine hi))
  have hy : ∀ i ∈ Issue.firstPerLine ys, i.penalty = p := fun i hi =>
    hp i (Issue.mem_of_mem_firstPerLine hi)
  rw [penaltySum_eq_mul hx, penaltySum_eq_mul hy,
    Issue.length_firstPerLine_of_perm (h.map Issue.line)]

theorem penaltySum_flatMap_walk {tree : SourceTree} {a : Arrangement}
    {g g' : Node × Option Node → List Issue}
    (h : ∀ v, penaltySum (g' (v.1.arranged a, v.2.map (Node.arranged a))) = penaltySum (g v)) :
    penaltySum ((tree.arranged a).walk.flatMap g') = penaltySum (tree.walk.flatMap g) := by
  rw [penaltySum, total_map_flatMap, penaltySum, total_map_flatMap]
  refine (total_eq_of_perm ((SourceTree.walk_arranged_perm tree a).map _)).trans ?_
  rw [List.map_map]
  congr 1
  apply List.map_congr_left
  intro v _
  exact h v

end CategoryScore

open CategoryScore

variable {tree : SourceTree} {a : Arrangement}

namespace FunctionSize

theorem statementCount_arranged (block : Node) :
    statementCount (block.arranged a) = statementCount block := by
  have h : ((block.arranged a).namedChildren.filter (·.kind != Kind.comment)).Perm
      ((block.namedChildren.filter (·.kind != Kind.comment)).map (Node.arranged a)) :=
    filter_perm_map (namedChildren_arranged_perm block) fun c => by rw [kind_arranged]
  rw [statementCount, h.length_eq, List.length_map, statementCount]

theorem penaltySum_check_arranged {n : Node} (hn : n.isFunction = true) (p : Option Node) :
    penaltySum (check (tree.arranged a) (n.arranged a) (p.map (Node.arranged a))) =
      penaltySum (check tree n p) := by
  have hfixed : n.isSequence = false := isSequence_of_hasKind hn (by decide)
  rw [check, penaltySum_append, check, penaltySum_append]
  congr 1
  · rw [longFunction, lineCount_arranged, longFunction]
    split <;> rfl
  · rw [manyStatements, child?_arranged hfixed, manyStatements]
    cases n.child? "body" with
    | none => rfl
    | some body =>
        simp only [Option.map_some, kind_arranged, statementCount_arranged]
        split <;> rfl

end FunctionSize

namespace Naming

theorem isDeclared_arranged (n p : Node) :
    isDeclared (n.arranged a) (p.arranged a) = isDeclared n p := by
  cases hs : p.isSequence with
  | false => simp [isDeclared, child?_arranged hs]
  | true =>
      rcases kind_of_isSequence hs with hk | hk <;>
        simp [isDeclared, isFunction, hasKind, hk, Kind.functions, Kind.declarator]

theorem check_arranged (n p : Node) :
    check (tree.arranged a) (n.arranged a) (p.arranged a) = check tree n p := by
  simp [check, isDeclared_arranged]

end Naming

namespace Nesting

theorem blocks_arranged_perm :
    (blocks (tree.arranged a)).Perm ((blocks tree).map fun v => (v.1.arranged a, v.2)) := by
  have hstep (p c : Node) (s : Nat) : deeper (p.arranged a) (c.arranged a) s = deeper p c s := by
    simp [deeper]
  refine filter_perm_map (walkWith_arranged_perm_same hstep [] 0 tree.root) fun v => ?_
  rw [kind_arranged]

theorem penaltySum_check_arranged :
    penaltySum (check (tree.arranged a)) = penaltySum (check tree) := by
  have hperm : (((blocks (tree.arranged a)).filter fun v => maxDepth < v.2).map
      fun v => issue v.1 v.2).Perm
      (((blocks tree).filter fun v => maxDepth < v.2).map fun v => issue v.1 v.2) := by
    refine ((filter_perm_map blocks_arranged_perm fun v => rfl).map _).trans (.of_eq ?_)
    rw [List.map_map]
    simp [Function.comp_def, issue]
  refine penaltySum_firstPerLine_of_perm (p := 3) (fun i hi => ?_) hperm
  obtain ⟨v, -, rfl⟩ := List.mem_map.mp hi
  rfl

end Nesting

theorem Engine.penaltySum_readability_arranged :
    penaltySum (readability (tree.arranged a)) = penaltySum (readability tree) := by
  rw [readability, penaltySum_append, readability, penaltySum_append,
    Nesting.penaltySum_check_arranged]
  congr 1
  apply penaltySum_flatMap_walk
  rintro ⟨n, p⟩
  have hnames : (p.map (Node.arranged a)).toList.flatMap
      (Naming.check (tree.arranged a) (n.arranged a)) = p.toList.flatMap (Naming.check tree n) := by
    cases p <;> simp [Naming.check_arranged]
  simp only [isFunction_arranged, isIdentifier_arranged, hnames]
  split
  · rename_i hf
    exact FunctionSize.penaltySum_check_arranged hf p
  · rfl

namespace Branching

theorem weight_arranged (n : Node) : weight (n.arranged a) = weight n := by
  simp [weight]

theorem total_weight_arranged (skip : List String) (n : Node) :
    total (((n.arranged a).descendants skip).map weight) =
      total ((n.descendants skip).map weight) := by
  refine (total_eq_of_perm ((descendants_arranged_perm skip n).map weight)).trans ?_
  rw [List.map_map]
  simp only [Function.comp_def, weight_arranged]

theorem complexity_arranged (n : Node) : complexity (n.arranged a) = complexity n := by
  rw [complexity, total_weight_arranged, complexity]

theorem globalComplexity_arranged (n : Node) :
    globalComplexity (n.arranged a) = globalComplexity n := by
  rw [globalComplexity, total_weight_arranged, globalComplexity]

/-- What is computed for each function is computed for the same functions. -/
theorem map_functions_arranged_perm {β : Type} (g : Node → β) (hg : ∀ n, g (n.arranged a) = g n) :
    ((functions (tree.arranged a)).map fun v => g v.1).Perm
      ((functions tree).map fun v => g v.1) := by
  have h : (functions (tree.arranged a)).Perm
      ((functions tree).map fun v => (v.1.arranged a, v.2.map (Node.arranged a))) :=
    filter_perm_map (SourceTree.walk_arranged_perm tree a) fun v => isFunction_arranged v.1
  refine (h.map _).trans (.of_eq ?_)
  rw [List.map_map]
  simp only [Function.comp_def, hg]

theorem length_functions_arranged :
    (functions (tree.arranged a)).length = (functions tree).length := by
  have h : ((functions (tree.arranged a)).map fun _ => ()).Perm ((functions tree).map fun _ => ()) :=
    map_functions_arranged_perm (fun _ => ()) fun _ => rfl
  simpa using h.length_eq

theorem isEmpty_functions_arranged :
    (functions (tree.arranged a)).isEmpty = (functions tree).isEmpty := by
  rw [Bool.eq_iff_iff, List.isEmpty_iff_length_eq_zero, List.isEmpty_iff_length_eq_zero,
    length_functions_arranged]

theorem judged_arranged_perm :
    (judged complexity (tree.arranged a)).Perm (judged complexity tree) := by
  have hglobal : globalComplexity (tree.arranged a).root = globalComplexity tree.root :=
    globalComplexity_arranged tree.root
  rw [judged, isEmpty_functions_arranged, hglobal, judged]
  split
  · exact .refl _
  · exact map_functions_arranged_perm complexity complexity_arranged

theorem penaltySum_findings_arranged :
    penaltySum (findings (tree.arranged a)) = penaltySum (findings tree) := by
  have hpenalties (t : SourceTree) : (findings t).map Issue.penalty =
      ((judged complexity t).map fun c : Nat => penalty c).filter (· ≠ 0) :=
    map_penalty_findingsBy
  rw [penaltySum, hpenalties, penaltySum, hpenalties]
  exact total_eq_of_perm ((judged_arranged_perm.map _).filter _)

end Branching

namespace Metrics

theorem maximum_eq_of_perm {xs ys : List Nat} (h : xs.Perm ys) : maximum xs = maximum ys := by
  apply eq_of_forall_lt_iff
  intro k
  rw [lt_maximum_iff, lt_maximum_iff]
  simp only [h.mem_iff]

theorem measured_arranged : measured (tree.arranged a) = measured tree := by
  have hdepths : ((Nesting.blocks (tree.arranged a)).map Prod.snd).Perm
      ((Nesting.blocks tree).map Prod.snd) := by
    refine (Nesting.blocks_arranged_perm.map Prod.snd).trans (.of_eq ?_)
    rw [List.map_map]
    rfl
  have hlengths : ((Branching.functions (tree.arranged a)).map fun v => v.1.lineCount.toNat).Perm
      ((Branching.functions tree).map fun v => v.1.lineCount.toNat) :=
    Branching.map_functions_arranged_perm (fun n => n.lineCount.toNat)
      fun n => by rw [lineCount_arranged]
  have hcomplexity : (measured (tree.arranged a)).maxComplexity = (measured tree).maxComplexity :=
    Branching.maxComplexity_measuredBy.trans <|
      (maximum_eq_of_perm Branching.judged_arranged_perm).trans
        Branching.maxComplexity_measuredBy.symm
  exact (Metrics.mk.injEq ..).mpr ⟨maximum_eq_of_perm hdepths, hcomplexity,
    maximum_eq_of_perm hlengths, Branching.length_functions_arranged⟩

end Metrics

end ScriptReview
