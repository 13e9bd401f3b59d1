import ScriptReview.Proofs.Trivia.Checks

namespace ScriptReview

open Node hiding id

namespace DynamicCode

theorem issue?_bare (tree : SourceTree) (n : Node) : issue? tree.bare n.bare = issue? tree n := by
  have hcall : callIssue n.bare = callIssue n := by
    funext name
    simp [callIssue]
  have hconstructor : constructorIssue n.bare = constructorIssue n := by simp [constructorIssue]
  have hname (o : Option Node) : name? tree.bare (o.map bare) = name? tree o := by
    rw [name?, SourceTree.calleeName?_map_bare, name?]
  unfold issue?
  rw [kind_bare, child?_bare, child?_bare, hname, hname, hcall, hconstructor]

theorem check_bare {tree : SourceTree} (h : tree.root.isTrivia = false) :
    check tree.bare = check tree := by
  rw [check, SourceTree.walk_bare h, check]
  congr 1
  refine filterMap_bareVisits (fun v _ _ => issue?_bare tree v.1) fun v _ ht => ?_
  simp [issue?, kind_of_isTrivia ht, Kind.call]

end DynamicCode

namespace ShellCommand

variable {tree : SourceTree}

def isRequirer (tree : SourceTree) (f : Node) : Bool :=
  f.isIdentifier && tree.text f == Text.ofString "require"

def showsArgument (tree : SourceTree) (n : Node) : Bool :=
  !(n.child? "function").any (isRequirer tree) ||
    (n.child? "arguments").all fun args => !args.opensWithComment

theorem isRequire_bare {n : Node} (h : showsArgument tree n = true) :
    isRequire tree.bare n.bare = isRequire tree n := by
  have hcallee : (n.bare.child? "function").any (isRequirer tree.bare) =
      (n.child? "function").any (isRequirer tree) := by
    rw [child?_bare]
    cases n.child? "function" <;> simp [isRequirer]
  rw [isRequire]
  change (_ && (n.bare.child? "function").any (isRequirer tree.bare) && _) =
    (_ && (n.child? "function").any (isRequirer tree) && _)
  rw [hcallee, kind_bare, child?_bare]
  cases hr : (n.child? "function").any (isRequirer tree) with
  | false => simp
  | true =>
      cases ha : n.child? "arguments" with
      | none => rfl
      | some args =>
          have hhead := head?_namedChildren_bare (n := args)
            (by simpa [showsArgument, hr, ha] using h)
          simp only [Option.map_some, Option.bind_some, hhead]
          cases args.namedChildren.head? <;> simp

theorem bindProperty_bare (b : Bindings) (p : Node) :
    bindProperty tree.bare b p.bare = bindProperty tree b p := by
  unfold bindProperty
  rw [kind_bare, child?_bare, child?_bare]
  cases p.child? "key" <;> cases p.child? "value" <;> simp

theorem bindDeclarator_bare (b : Bindings) (n : Node) :
    bindDeclarator tree.bare b n.bare = bindDeclarator tree b n := by
  unfold bindDeclarator
  rw [child?_bare]
  cases n.child? "name" with
  | none => rfl
  | some target =>
      have hfold : target.bare.namedChildren.foldl (bindProperty tree.bare) b =
          target.namedChildren.foldl (bindProperty tree) b := by
        rw [namedChildren_bare]
        refine foldl_bare (fun b p _ _ => bindProperty_bare b p) (fun b p _ ht => ?_) b
        simp [bindProperty, kind_of_isTrivia ht]
      simp [hfold]

theorem bindSpecifier_bare (b : Bindings) (n : Node) :
    bindSpecifier tree.bare b n.bare = bindSpecifier tree b n := by
  simp [bindSpecifier]

theorem bindImported_bare (b : Bindings) (n : Node) :
    bindImported tree.bare b n.bare = bindImported tree b n := by
  have hnames : (n.bare.namedChildren.filter (·.isIdentifier)).foldl
        (fun b a => b.addModule (tree.bare.text a)) b =
      (n.namedChildren.filter (·.isIdentifier)).foldl (fun b a => b.addModule (tree.text a)) b := by
    rw [namedChildren_bare, List.foldl_filter, List.foldl_filter]
    refine foldl_bare (fun b m _ _ => ?_) (fun b m _ ht => ?_) b
    · simp
    · simp [isIdentifier, kind_of_isTrivia ht, Kind.identifier]
  have hspecifiers : n.bare.namedChildren.foldl (bindSpecifier tree.bare) b =
      n.namedChildren.foldl (bindSpecifier tree) b := by
    rw [namedChildren_bare]
    refine foldl_bare (fun b m _ _ => bindSpecifier_bare b m) (fun b m _ ht => ?_) b
    simp [bindSpecifier, kind_of_isTrivia ht]
  unfold bindImported
  rw [hnames, hspecifiers]
  simp

theorem bindClause_bare (b : Bindings) (n : Node) :
    bindClause tree.bare b n.bare = bindClause tree b n := by
  have hparts : n.bare.namedChildren.foldl (bindImported tree.bare) b =
      n.namedChildren.foldl (bindImported tree) b := by
    rw [namedChildren_bare]
    refine foldl_bare (fun b m _ _ => bindImported_bare b m) (fun b m _ ht => ?_) b
    simp [bindImported, isIdentifier, kind_of_isTrivia ht, Kind.identifier]
  rw [bindClause, hparts, kind_bare, bindClause]

theorem bindNode_bare {n : Node} (h : ∀ c, n.child? "value" = some c → showsArgument tree c = true)
    (b : Bindings) : bindNode tree.bare b n.bare = bindNode tree b n := by
  have hvalue : (n.bare.child? "value").any (isRequire tree.bare) =
      (n.child? "value").any (isRequire tree) := by
    rw [child?_bare]
    cases hc : n.child? "value" with
    | none => rfl
    | some c => simp [isRequire_bare (h c hc)]
  have hsource : ((n.bare.child? "source").any fun s =>
        moduleNames.contains (tree.bare.stringValue s)) =
      (n.child? "source").any fun s => moduleNames.contains (tree.stringValue s) := by
    rw [child?_bare]
    cases n.child? "source" <;> simp
  have hclauses : n.bare.namedChildren.foldl (bindClause tree.bare) b =
      n.namedChildren.foldl (bindClause tree) b := by
    rw [namedChildren_bare]
    refine foldl_bare (fun b m _ _ => bindClause_bare b m) (fun b m _ ht => ?_) b
    simp [bindClause, kind_of_isTrivia ht]
  unfold bindNode
  rw [kind_bare, hvalue, hsource, hclauses, bindDeclarator_bare]

theorem bindings_bare (hroot : tree.root.isTrivia = false)
    (h : ∀ n, tree.root.Contains n → showsArgument tree n = true) :
    bindings tree.bare = bindings tree := by
  have hfold (t : SourceTree) :
      bindings t = (t.walk.map Prod.fst).foldl (bindNode t) .empty := by
    rw [bindings, List.foldl_map]
  rw [hfold, SourceTree.map_fst_walk_bare hroot, hfold]
  refine foldl_bare (fun b n hn _ => ?_) (fun b n _ ht => ?_) _
  · have hreach : tree.root.Reaches n := mem_preorder_iff_reaches.mp hn
    exact bindNode_bare (fun c hc => h c (hreach.contains.child? hc)) b
  · simp [bindNode, kind_of_isTrivia ht, Kind.declarator]

theorem method?_bare {n : Node} (h : ∀ c, n.child? "object" = some c → showsArgument tree c = true)
    (b : Bindings) : method? tree.bare b n.bare = method? tree b n := by
  have hmodule : (n.bare.child? "object").any (isModule tree.bare b) =
      (n.child? "object").any (isModule tree b) := by
    rw [child?_bare]
    cases hc : n.child? "object" with
    | none => rfl
    | some c => simp [isModule, isRequire_bare (h c hc)]
  unfold method?
  rw [hmodule]
  simp

theorem check_bare (hroot : tree.root.isTrivia = false)
    (h : ∀ n, tree.root.Contains n → showsArgument tree n = true) :
    check tree.bare = check tree := by
  simp only [check]
  rw [bindings_bare hroot h, SourceTree.walk_bare hroot]
  congr 1
  refine filterMap_bareVisits (fun v hv _ => ?_) fun v _ ht => ?_
  · have hreach : tree.root.Reaches v.1 := exists_mem_walk_iff.mp ⟨v.2, hv⟩
    have hissue : issue v.1.bare = issue v.1 := by
      funext method
      simp [issue]
    unfold issue?
    rw [kind_bare, child?_bare]
    cases hf : v.1.child? "function" with
    | none => rfl
    | some f =>
        have hcontains := hreach.contains.child? hf
        have hmethod := method?_bare (fun c hc => h c (hcontains.child? hc)) (bindings tree)
        simp only [Option.map_some, Option.bind_some, hmethod, hissue]
  · simp [issue?, kind_of_isTrivia ht, Kind.call]

end ShellCommand

namespace HardcodedSecret

theorem assignment?_bare (n : Node) :
    assignment? n.bare = (assignment? n).map fun p => (p.1.bare, p.2.bare) := by
  unfold assignment?
  simp only [kind_bare, child?_bare]
  cases n.child? "name" <;> cases n.child? "value" <;> cases n.child? "left" <;>
    cases n.child? "right" <;> (split_ifs <;> rfl)

theorem secretName?_bare (tree : SourceTree) (n : Node) :
    secretName? tree.bare n.bare = secretName? tree n := by
  unfold secretName?
  rw [assignment?_bare]
  cases assignment? n with
  | none => rfl
  | some p =>
      have hname := SourceTree.calleeName?_map_bare tree (some p.1)
      rw [Option.map_some] at hname
      simp only [Option.map_some, hname, kind_bare, SourceTree.stringValue_bare]

theorem check_bare {tree : SourceTree} (h : tree.root.isTrivia = false) :
    check tree.bare = check tree := by
  rw [check, SourceTree.walk_bare h, check]
  congr 1
  refine filterMap_bareVisits (fun v _ _ => ?_) fun v _ ht => ?_
  · have hname : nameIssue v.1.bare = nameIssue v.1 := by
      funext name
      simp [nameIssue]
    have hkey : keyIssue v.1.bare = keyIssue v.1 := by simp [keyIssue]
    have hisKey : isKey tree.bare v.1.bare = isKey tree v.1 := by simp [isKey]
    rw [issue?, hisKey, hkey, secretName?_bare, hname, issue?]
  · simp [issue?, isKey, secretName?, assignment?, kind_of_isTrivia ht, Kind.string,
      Kind.declarator]

end HardcodedSecret

end ScriptReview
