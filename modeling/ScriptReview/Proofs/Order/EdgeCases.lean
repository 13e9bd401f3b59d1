import ScriptReview.Proofs.Order.Points

namespace ScriptReview

open Node hiding id
open CategoryScore

variable {tree : SourceTree} {a : Arrangement}

namespace AsyncGuard

theorem any_ownNodes_arranged {p : Node → Bool} (hp : ∀ n, p (n.arranged a) = p n) (body : Node) :
    (ownNodes (body.arranged a)).any p = (ownNodes body).any p := by
  rw [ownNodes, List.any_cons, hp, isFunction_arranged, ownNodes, List.any_cons]
  congr 1
  split
  · rfl
  · rw [(descendants_arranged_perm _ body).any_eq, List.any_map]
    simp only [Function.comp_def, hp]

theorem isUnguarded_arranged (body : Node) : isUnguarded (body.arranged a) = isUnguarded body := by
  have hawait : (ownNodes (body.arranged a)).any isAwait = (ownNodes body).any isAwait :=
    any_ownNodes_arranged (fun n => by simp [isAwait]) body
  have htry : (ownNodes (body.arranged a)).any (·.kind == "try_statement") =
      (ownNodes body).any (·.kind == "try_statement") :=
    any_ownNodes_arranged (fun n => by simp) body
  rw [isUnguarded, hawait, htry, isUnguarded]

theorem isOffending_arranged (n : Node) : isOffending (n.arranged a) = isOffending n := by
  cases hs : n.isSequence with
  | false =>
      rw [isOffending, child?_arranged hs, isFunction_arranged, isAsync_arranged, isOffending]
      cases n.child? "body" <;> simp [isUnguarded_arranged]
  | true =>
      rcases kind_of_isSequence hs with hk | hk <;>
        simp [isOffending, isFunction, hasKind, hk, Kind.functions]

theorem penaltySum_check_arranged :
    penaltySum (check (tree.arranged a)) = penaltySum (check tree) := by
  have hcost (t : SourceTree) : ∀ i ∈ check t, i.penalty = 4 := by
    intro i hi
    obtain ⟨v, -, rfl⟩ := List.mem_map.mp hi
    rfl
  have hfound : ((tree.arranged a).walk.filter fun v => isOffending v.1).Perm
      ((tree.walk.filter fun v => isOffending v.1).map
        fun v => (v.1.arranged a, v.2.map (Node.arranged a))) :=
    filter_perm_map (SourceTree.walk_arranged_perm tree a) fun v => isOffending_arranged v.1
  rw [penaltySum_eq_mul (hcost _), penaltySum_eq_mul (hcost _), check, List.length_map,
    hfound.length_eq, List.length_map, check, List.length_map]

end AsyncGuard

namespace ArrayAccess

theorem conditionStep_arranged (p c : Node) (s : Bool) :
    conditionStep (p.arranged a) (c.arranged a) s = conditionStep p c s := by
  cases hs : p.isSequence with
  | false => simp [conditionStep, child?_arranged hs]
  | true =>
      rcases kind_of_isSequence hs with hk | hk <;>
        simp [conditionStep, hasKind, hk, Kind.conditions]

theorem exemptStep_arranged (p c : Node) (s : Bool) :
    exemptStep (p.arranged a) (c.arranged a) s = exemptStep p c s := by
  cases hs : p.isSequence with
  | false => simp [exemptStep, child?_arranged hs, ← Option.map_or]
  | true =>
      rcases kind_of_isSequence hs with hk | hk <;>
        simp [exemptStep, hasKind, hk, chainKinds, Kind.member, Kind.subscript, Kind.call]

theorem lengthOf?_arranged {n : Node} (h : n.isSequence = false) :
    lengthOf? (tree.arranged a) (n.arranged a) = lengthOf? tree n := by
  rw [lengthOf?, child?_arranged h, child?_arranged h, lengthOf?]
  cases n.child? "object" <;> simp

theorem isArrayTest_arranged (f : Node) :
    isArrayTest (tree.arranged a) (f.arranged a) = isArrayTest tree f := by
  by_cases hk : f.kind = Kind.member
  · have hs := isSequence_eq_false hk rfl
    rw [isArrayTest, child?_arranged hs, child?_arranged hs, isArrayTest]
    cases f.child? "object" <;> simp
  · simp [isArrayTest, beq_eq_false_iff_ne.mpr hk]

theorem comparedToNothing?_arranged {n : Node} (h : n.isSequence = false) :
    comparedToNothing? (tree.arranged a) (n.arranged a) = comparedToNothing? tree n := by
  rw [comparedToNothing?, child?_arranged h, child?_arranged h, comparedToNothing?]
  cases n.child? "left" <;> cases n.child? "right" <;> simp

def FixesArgument (tree : SourceTree) (n : Node) : Prop :=
  n.kind = Kind.call → (n.child? "function").any (isArrayTest tree) = true →
    ∀ args, n.child? "arguments" = some args → args.isSequence = false

theorem testedArray?_arranged {n : Node} (hk : n.kind = Kind.call) (hn : FixesArgument tree n) :
    testedArray? (tree.arranged a) (n.arranged a) = testedArray? tree n := by
  have h := isSequence_eq_false hk rfl
  have hcallee : ((n.arranged a).child? "function").any (isArrayTest (tree.arranged a)) =
      (n.child? "function").any (isArrayTest tree) := by
    rw [child?_arranged h]
    cases n.child? "function" <;> simp [isArrayTest_arranged]
  rw [testedArray?, hcallee, child?_arranged h, testedArray?]
  split
  · rename_i ht
    cases ha : n.child? "arguments" with
    | none => rfl
    | some args =>
        simp only [Option.map_some, Option.bind_some, namedChildren_arranged (hn hk ht args ha),
          List.head?_map]
        cases args.namedChildren.head? <;> simp
  · rfl

theorem checkedName?_arranged {n : Node} (hn : FixesArgument tree n) :
    checkedName? (tree.arranged a) (n.arranged a) = checkedName? tree n := by
  cases hs : n.isSequence with
  | false =>
      by_cases hk : n.kind = Kind.call
      · simp [checkedName?, lengthOf?_arranged hs, testedArray?_arranged hk hn,
          operator_arranged hs, comparedToNothing?_arranged hs]
      · simp [checkedName?, hk, lengthOf?_arranged hs, operator_arranged hs,
          comparedToNothing?_arranged hs]
  | true =>
      rcases kind_of_isSequence hs with hk | hk <;>
        simp [checkedName?, hk, Kind.member, Kind.call, Kind.binary]

theorem accessedName?_arranged (n : Node) :
    accessedName? (tree.arranged a) (n.arranged a) = accessedName? tree n := by
  by_cases hk : n.kind = Kind.subscript
  · rw [accessedName?, child?_arranged (isSequence_eq_false hk rfl), kind_arranged,
      hasOptionalChain_arranged, accessedName?]
    cases n.child? "object" <;> simp
  · simp [accessedName?, hk]

theorem checkedNames_arranged_perm (h : ∀ n, tree.root.Reaches n → FixesArgument tree n) :
    (checkedNames (tree.arranged a)).Perm (checkedNames tree) := by
  apply filterMap_walkWith_arranged_perm conditionStep_arranged
  intro v hv
  rw [checkedName?_arranged (h v.1 (reaches_of_mem_walkWith hv))]

theorem penaltySum_check_arranged (h : ∀ n, tree.root.Reaches n → FixesArgument tree n) :
    penaltySum (check (tree.arranged a)) = penaltySum (check tree) := by
  have hchecked (name : Text) : (checkedNames (tree.arranged a)).contains name =
      (checkedNames tree).contains name :=
    (checkedNames_arranged_perm h).contains_eq
  refine penaltySum_firstPerLine_of_perm (p := 3) (fun i hi => ?_)
    (filterMap_walkWith_arranged_perm exemptStep_arranged fun v _ => ?_)
  · obtain ⟨v, -, hv⟩ := List.mem_filterMap.mp hi
    split at hv
    · split at hv
      · cases hv
      · cases hv
        rfl
    · cases hv
  · simp only [accessedName?_arranged, hchecked]
    simp [issue]

end ArrayAccess

namespace RequestInput

theorem path?_arranged (n : Node) : path? (tree.arranged a) (n.arranged a) = path? tree n := by
  by_cases hk : n.kind = Kind.member
  · have hs := isSequence_eq_false hk rfl
    rw [path?, child?_arranged hs, child?_arranged hs, kind_arranged, path?]
    cases n.child? "object" <;> simp
  · simp [path?, hk]

theorem validationStep_arranged (tree : SourceTree) (p c : Node) (s : Bool) :
    validationStep (tree.arranged a) (p.arranged a) (c.arranged a) s =
      validationStep tree p c s := by
  cases hs : p.isSequence with
  | false => simp [validationStep, validates, child?_arranged hs, operator_arranged hs]
  | true =>
      rcases kind_of_isSequence hs with hk | hk <;>
        simp [validationStep, validates, hk, Kind.call]

theorem occurrences_arranged_perm (tree : SourceTree) (a : Arrangement) :
    (occurrences (tree.arranged a)).Perm
      ((occurrences tree).map fun o => (o.1.arranged a, o.2)) := by
  rw [occurrences, occurrences, List.map_filterMap]
  apply filterMap_walkWith_arranged_perm (validationStep_arranged tree)
  intro v _
  simp [path?_arranged, Function.comp_def]

theorem penaltySum_check_arranged :
    penaltySum (check (tree.arranged a)) = penaltySum (check tree) := by
  have hfound := occurrences_arranged_perm tree a
  have hvalidated : (((occurrences (tree.arranged a)).filter (·.2.2)).map (·.2.1)).Perm
      (((occurrences tree).filter (·.2.2)).map (·.2.1)) := by
    refine ((filter_perm_map hfound fun o => rfl).map _).trans (.of_eq ?_)
    rw [List.map_map]
    rfl
  refine penaltySum_firstPerLine_of_perm (p := 3) (fun i hi => ?_)
    (((hfound.filter _).map _).trans (.of_eq ?_))
  · obtain ⟨o, -, rfl⟩ := List.mem_map.mp hi
    rfl
  · rw [List.filter_map, List.map_map]
    simp only [Function.comp_def, hvalidated.contains_eq]
    simp [issue]

end RequestInput

theorem Engine.penaltySum_edgeCases_arranged
    (h : ∀ n, tree.root.Reaches n → ArrayAccess.FixesArgument tree n) :
    penaltySum (edgeCases (tree.arranged a)) = penaltySum (edgeCases tree) := by
  rw [edgeCases, penaltySum_append, penaltySum_append, AsyncGuard.penaltySum_check_arranged,
    ArrayAccess.penaltySum_check_arranged h, RequestInput.penaltySum_check_arranged, edgeCases,
    penaltySum_append, penaltySum_append]

end ScriptReview
