import ScriptReview.Proofs.Trivia.Checks

namespace ScriptReview

open Node hiding id

namespace AsyncGuard

theorem any_ownNodes_bare {p : Node → Bool} (hp : ∀ n, p n.bare = p n)
    (ht : ∀ n, n.isTrivia = true → p n = false) (body : Node) :
    (ownNodes body.bare).any p = (ownNodes body).any p := by
  have hany (ns : List Node) : ((ns.filter (!·.isTrivia)).map bare).any p = ns.any p := by
    induction ns with
    | nil => rfl
    | cons n ns ih =>
        rw [List.any_map] at ih ⊢
        cases hn : n.isTrivia with
        | true => simp [hn, ih, ht n hn]
        | false => simp [hn, ih, hp]
  unfold ownNodes
  rw [List.any_cons, List.any_cons, hp, isFunction_bare, descendants_bare]
  congr 1
  split
  · rfl
  · exact hany _

theorem isUnguarded_bare (body : Node) : isUnguarded body.bare = isUnguarded body := by
  have hawait : (ownNodes body.bare).any isAwait = (ownNodes body).any isAwait := by
    refine any_ownNodes_bare (fun n => ?_) (fun n hn => ?_) body
    · simp [isAwait, hasChildOfKind_bare]
    · simp [isAwait, kind_of_isTrivia hn]
  have htry : (ownNodes body.bare).any (·.kind == "try_statement") =
      (ownNodes body).any (·.kind == "try_statement") := by
    refine any_ownNodes_bare (fun n => ?_) (fun n hn => ?_) body
    · simp
    · simp [kind_of_isTrivia hn]
  rw [isUnguarded, hawait, htry, isUnguarded]

theorem isOffending_bare (n : Node) : isOffending n.bare = isOffending n := by
  rw [isOffending, isFunction_bare, isAsync_bare, child?_bare, isOffending]
  cases n.child? "body" <;> simp [isUnguarded_bare]

theorem isTrivia_of_isOffending {n : Node} (h : isOffending n = true) : n.isTrivia = false := by
  cases ht : n.isTrivia with
  | false => rfl
  | true => simp [isOffending, isFunction, hasKind, kind_of_isTrivia ht, Kind.functions] at h

theorem check_bare {tree : SourceTree} (h : tree.root.isTrivia = false) :
    check tree.bare = check tree := by
  rw [check, SourceTree.walk_bare h, filter_bareVisits fun v _ => isOffending_bare v.1, check]
  refine map_bareVisits fun v hv => ⟨isTrivia_of_isOffending (List.mem_filter.mp hv).2, ?_⟩
  simp [issue]

end AsyncGuard

namespace ArrayAccess

variable (tree : SourceTree)

theorem conditionStep_bare (p c : Node) (s : Bool) :
    conditionStep p.bare c.bare s = conditionStep p c s := by
  simp [conditionStep]

theorem exemptStep_bare (p c : Node) (s : Bool) :
    exemptStep p.bare c.bare s = exemptStep p c s := by
  simp [exemptStep, ← Option.map_or]

theorem lengthOf?_bare (n : Node) : lengthOf? tree.bare n.bare = lengthOf? tree n := by
  unfold lengthOf?
  rw [child?_bare, child?_bare]
  cases n.child? "object" <;> simp

theorem isArrayTest_bare (f : Node) : isArrayTest tree.bare f.bare = isArrayTest tree f := by
  unfold isArrayTest
  rw [child?_bare, child?_bare]
  cases f.child? "object" <;> simp

theorem comparedToNothing?_bare (n : Node) :
    comparedToNothing? tree.bare n.bare = comparedToNothing? tree n := by
  unfold comparedToNothing?
  rw [child?_bare, child?_bare]
  cases n.child? "left" <;> cases n.child? "right" <;> simp

variable {tree}

def showsArgument (tree : SourceTree) (n : Node) : Bool :=
  !(n.child? "function").any (isArrayTest tree) ||
    (n.child? "arguments").all fun args => !args.opensWithComment

theorem testedArray?_bare {n : Node} (h : showsArgument tree n = true) :
    testedArray? tree.bare n.bare = testedArray? tree n := by
  have hcallee : (n.bare.child? "function").any (isArrayTest tree.bare) =
      (n.child? "function").any (isArrayTest tree) := by
    rw [child?_bare]
    cases n.child? "function" <;> simp [isArrayTest_bare]
  unfold testedArray?
  rw [hcallee, child?_bare]
  split
  · rename_i ht
    cases ha : n.child? "arguments" with
    | none => rfl
    | some args =>
        have hhead :=
          head?_namedChildren_bare (n := args) (by simpa [showsArgument, ht, ha] using h)
        simp only [Option.map_some, Option.bind_some, hhead]
        cases args.namedChildren.head? <;> simp
  · rfl

theorem checkedName?_bare {n : Node} (h : showsArgument tree n = true) :
    checkedName? tree.bare n.bare = checkedName? tree n := by
  simp [checkedName?, lengthOf?_bare, testedArray?_bare h, comparedToNothing?_bare]

theorem accessedName?_bare (n : Node) : accessedName? tree.bare n.bare = accessedName? tree n := by
  unfold accessedName?
  rw [kind_bare, hasOptionalChain_bare, child?_bare]
  cases n.child? "object" <;> simp

theorem checkedNames_bare (hroot : tree.root.isTrivia = false)
    (h : ∀ n, tree.root.Reaches n → showsArgument tree n = true) :
    checkedNames tree.bare = checkedNames tree := by
  have hwalk : tree.bare.root.walkWith [] false conditionStep =
      bareVisits (fun s => s) (tree.root.walkWith [] false conditionStep) :=
    walkWith_bare_same conditionStep_bare [] false hroot
  rw [checkedNames, hwalk, checkedNames]
  refine filterMap_bareVisits (fun v hv _ => ?_) fun v _ ht => ?_
  · rw [checkedName?_bare (h v.1 (reaches_of_mem_walkWith hv))]
  · simp [checkedName?, kind_of_isTrivia ht, Kind.member, Kind.call, Kind.binary]

theorem check_bare (hroot : tree.root.isTrivia = false)
    (h : ∀ n, tree.root.Reaches n → showsArgument tree n = true) :
    check tree.bare = check tree := by
  have hwalk : tree.bare.root.walkWith [] false exemptStep =
      bareVisits (fun s => s) (tree.root.walkWith [] false exemptStep) :=
    walkWith_bare_same exemptStep_bare [] false hroot
  simp only [check]
  rw [hwalk, checkedNames_bare hroot h]
  congr 1
  refine filterMap_bareVisits (fun v _ _ => ?_) fun v _ ht => ?_
  · simp [accessedName?_bare, issue]
  · simp [accessedName?, kind_of_isTrivia ht, Kind.subscript]

end ArrayAccess

namespace RequestInput

variable (tree : SourceTree)

theorem path?_bare (n : Node) : path? tree.bare n.bare = path? tree n := by
  unfold path?
  rw [kind_bare, child?_bare, child?_bare]
  cases n.child? "object" <;> simp

theorem validationStep_bare (p c : Node) (s : Bool) :
    validationStep tree.bare p.bare c.bare s = validationStep tree p c s := by
  simp [validationStep, validates]

theorem occurrences_bare {tree : SourceTree} (h : tree.root.isTrivia = false) :
    occurrences tree.bare = (occurrences tree).map fun o => (o.1.bare, o.2) := by
  have hwalk : tree.bare.root.walkWith [] false (validationStep tree.bare) =
      bareVisits (fun s => s) (tree.root.walkWith [] false (validationStep tree)) :=
    walkWith_bare_same (validationStep_bare tree) [] false h
  rw [occurrences, hwalk, occurrences, List.map_filterMap]
  refine filterMap_bareVisits (fun v _ _ => ?_) fun v _ ht => ?_
  · simp [path?_bare, Function.comp_def]
  · simp [path?, kind_of_isTrivia ht, Kind.member]

theorem check_bare {tree : SourceTree} (h : tree.root.isTrivia = false) :
    check tree.bare = check tree := by
  have hissue (o : Node × Text × Bool) : issue o.1.bare o.2.1 = issue o.1 o.2.1 := by
    simp [issue]
  simp only [check, occurrences_bare h, List.filter_map, List.map_map, Function.comp_def, hissue]

end RequestInput

theorem Engine.edgeCases_bare {tree : SourceTree} (hroot : tree.root.isTrivia = false)
    (h : ∀ n, tree.root.Reaches n → ArrayAccess.showsArgument tree n = true) :
    edgeCases tree.bare = edgeCases tree := by
  rw [edgeCases, AsyncGuard.check_bare hroot, ArrayAccess.check_bare hroot h,
    RequestInput.check_bare hroot, edgeCases]

end ScriptReview
