import ScriptReview.Proofs.Findings.Danger
import ScriptReview.Proofs.Order.Points
import ScriptReview.Proofs.Trivia.Security

namespace ScriptReview

open Node hiding id
open CategoryScore

variable {tree : SourceTree} {a : Arrangement}

namespace DynamicCode

theorem issue?_arranged (n : Node) : issue? (tree.arranged a) (n.arranged a) = issue? tree n := by
  have hname (o : Option Node) :
      name? (tree.arranged a) (o.map (Node.arranged a)) = name? tree o := by
    rw [name?, SourceTree.calleeName?_map_arranged, name?]
  have hcall : callIssue (n.arranged a) = callIssue n := by
    funext name
    simp [callIssue]
  have hconstructor : constructorIssue (n.arranged a) = constructorIssue n := by
    simp [constructorIssue]
  cases hs : n.isSequence with
  | false =>
      rw [issue?, child?_arranged hs, child?_arranged hs, hname, hname, kind_arranged, hcall,
        hconstructor, issue?]
  | true =>
      rcases kind_of_isSequence hs with hk | hk <;> simp [issue?, hk, Kind.call]

theorem penalty_of_mem_check {i : Issue} (h : i ∈ check tree) : i.penalty = 8 := by
  obtain ⟨n, -, hn⟩ := exists_of_mem_filterMap_walk h
  rcases issue?_cases hn with ⟨name, -, rfl⟩ | rfl <;> rfl

theorem length_check_arranged : (check (tree.arranged a)).length = (check tree).length := by
  have hperm : ((tree.arranged a).walk.filterMap fun v => issue? (tree.arranged a) v.1).Perm
      (tree.walk.filterMap fun v => issue? tree v.1) :=
    SourceTree.filterMap_walk_arranged_perm fun v _ => issue?_arranged v.1
  exact Issue.length_firstPerLine_of_perm (hperm.map Issue.line)

end DynamicCode

namespace ShellCommand

def FixesArgument (tree : SourceTree) (n : Node) : Prop :=
  n.kind = Kind.call → (n.child? "function").any (isRequirer tree) = true →
    ∀ args, n.child? "arguments" = some args → args.isSequence = false

theorem isRequire_arranged {n : Node} (h : FixesArgument tree n) :
    isRequire (tree.arranged a) (n.arranged a) = isRequire tree n := by
  by_cases hk : n.kind = Kind.call
  · have hs := isSequence_eq_false hk rfl
    have hcallee : ((n.arranged a).child? "function").any (isRequirer (tree.arranged a)) =
        (n.child? "function").any (isRequirer tree) := by
      rw [child?_arranged hs]
      cases n.child? "function" <;> simp [isRequirer]
    rw [isRequire]
    change (_ && ((n.arranged a).child? "function").any (isRequirer (tree.arranged a)) && _) =
      (_ && (n.child? "function").any (isRequirer tree) && _)
    rw [hcallee, kind_arranged, child?_arranged hs]
    cases hr : (n.child? "function").any (isRequirer tree) with
    | false => simp
    | true =>
        cases ha : n.child? "arguments" with
        | none => rfl
        | some args =>
            simp only [Option.map_some, Option.bind_some,
              namedChildren_arranged (h hk hr args ha), List.head?_map]
            cases args.namedChildren.head? <;> simp
  · simp [isRequire, beq_eq_false_iff_ne.mpr hk]

theorem bindProperty_arranged (b : Bindings) (p : Node) :
    bindProperty (tree.arranged a) b (p.arranged a) = bindProperty tree b p := by
  cases hs : p.isSequence with
  | false =>
      rw [bindProperty, child?_arranged hs, child?_arranged hs, kind_arranged, bindProperty]
      cases p.child? "key" <;> cases p.child? "value" <;> simp
  | true =>
      rcases kind_of_isSequence hs with hk | hk <;> simp [bindProperty, hk]

theorem foldl_map_arranged {β : Type} {g g' : β → Node → β}
    (h : ∀ b n, g' b (n.arranged a) = g b n) (ns : List Node) (b : β) :
    (ns.map (Node.arranged a)).foldl g' b = ns.foldl g b := by
  rw [List.foldl_map]
  simp only [h]

theorem bindDeclarator_arranged {n : Node} (h : n.isSequence = false) (b : Bindings) :
    bindDeclarator (tree.arranged a) b (n.arranged a) = bindDeclarator tree b n := by
  rw [bindDeclarator, child?_arranged h, bindDeclarator]
  cases n.child? "name" with
  | none => rfl
  | some target =>
      by_cases hk : target.kind = "object_pattern"
      · simp [namedChildren_arranged (isSequence_eq_false hk rfl),
          foldl_map_arranged bindProperty_arranged]
      · simp [hk]

theorem bindSpecifier_arranged (b : Bindings) (n : Node) :
    bindSpecifier (tree.arranged a) b (n.arranged a) = bindSpecifier tree b n := by
  by_cases hk : n.kind = "import_specifier"
  · simp [bindSpecifier, child?_arranged (isSequence_eq_false hk rfl)]
  · simp [bindSpecifier, hk]

theorem bindImported_arranged (b : Bindings) (n : Node) :
    bindImported (tree.arranged a) b (n.arranged a) = bindImported tree b n := by
  cases hs : n.isSequence with
  | false =>
      have hnames : ((n.arranged a).namedChildren.filter (·.isIdentifier)).foldl
            (fun b m => b.addModule ((tree.arranged a).text m)) b =
          (n.namedChildren.filter (·.isIdentifier)).foldl
            (fun b m => b.addModule (tree.text m)) b := by
        rw [namedChildren_arranged hs, List.filter_map]
        simp only [Function.comp_def, isIdentifier_arranged]
        exact foldl_map_arranged (fun b m => by simp) _ b
      have hspecifiers : (n.arranged a).namedChildren.foldl (bindSpecifier (tree.arranged a)) b =
          n.namedChildren.foldl (bindSpecifier tree) b := by
        rw [namedChildren_arranged hs, foldl_map_arranged bindSpecifier_arranged]
      rw [bindImported, hnames, hspecifiers]
      simp [bindImported]
  | true =>
      rcases kind_of_isSequence hs with hk | hk <;> simp [bindImported, isIdentifier, hk,
        Kind.identifier]

theorem bindClause_arranged (b : Bindings) (n : Node) :
    bindClause (tree.arranged a) b (n.arranged a) = bindClause tree b n := by
  by_cases hk : n.kind = "import_clause"
  · simp [bindClause, namedChildren_arranged (isSequence_eq_false hk rfl),
      foldl_map_arranged bindImported_arranged]
  · simp [bindClause, hk]

theorem bindNode_arranged {n : Node} (h : ∀ c, n.child? "value" = some c → FixesArgument tree c)
    (b : Bindings) : bindNode (tree.arranged a) b (n.arranged a) = bindNode tree b n := by
  cases hs : n.isSequence with
  | false =>
      have hvalue : ((n.arranged a).child? "value").any (isRequire (tree.arranged a)) =
          (n.child? "value").any (isRequire tree) := by
        rw [child?_arranged hs]
        cases hc : n.child? "value" with
        | none => rfl
        | some c => simp [isRequire_arranged (h c hc)]
      have hsource : (((n.arranged a).child? "source").any fun s =>
            moduleNames.contains ((tree.arranged a).stringValue s)) =
          (n.child? "source").any fun s => moduleNames.contains (tree.stringValue s) := by
        rw [child?_arranged hs]
        cases n.child? "source" <;> simp
      rw [bindNode, hvalue, hsource, namedChildren_arranged hs,
        foldl_map_arranged bindClause_arranged, kind_arranged, bindDeclarator_arranged hs, bindNode]
  | true =>
      rcases kind_of_isSequence hs with hk | hk <;> simp [bindNode, hk, Kind.declarator]

/-- The same names are bound in any order, though not always to the same method. -/
theorem has_bindings_arranged (h : ∀ n, tree.root.Contains n → FixesArgument tree n) (x : Alias) :
    (bindings (tree.arranged a)).Has x ↔ (bindings tree).Has x := by
  have hbinds {n : Node} (hn : tree.root.Reaches n) :
      (Reading.plain (tree.arranged a)).Binds (tree.arranged a) (n.arranged a) x ↔
        (Reading.plain tree).Binds tree n x := by
    have hnode := bindNode_arranged (a := a) (fun c hc => h c (hn.contains.child? hc)) .empty
    have hiff := has_bindNode (tree.arranged a) .empty (n.arranged a) x
    rw [hnode, has_bindNode] at hiff
    simpa only [Bindings.not_has_empty, false_or] using hiff.symm
  rw [has_bindings_iff, has_bindings_iff]
  constructor
  · rintro ⟨m, hm, hb⟩
    obtain ⟨n, hn, rfl⟩ := reaches_arranged_iff.mp hm
    exact ⟨n, hn, (hbinds hn).mp hb⟩
  · rintro ⟨n, hn, hb⟩
    exact ⟨_, reaches_arranged_iff.mpr ⟨n, hn, rfl⟩, (hbinds hn).mpr hb⟩

theorem isModule_arranged {n : Node} (h : FixesArgument tree n) {b b' : Bindings}
    (hb : ∀ x, b'.Has x ↔ b.Has x) :
    isModule (tree.arranged a) b' (n.arranged a) = isModule tree b n := by
  have hmodule : tree.text n ∈ b'.modules ↔ tree.text n ∈ b.modules := hb (.module (tree.text n))
  simp [isModule, isRequire_arranged h, hmodule]

theorem isSome_method?_arranged {n : Node}
    (h : ∀ c, n.child? "object" = some c → FixesArgument tree c) {b b' : Bindings}
    (hb : ∀ x, b'.Has x ↔ b.Has x) :
    (method? (tree.arranged a) b' (n.arranged a)).isSome = (method? tree b n).isSome := by
  have hlookup : (b'.aliases.lookup (tree.text n)).isSome =
      (b.aliases.lookup (tree.text n)).isSome := by
    rw [Bool.eq_iff_iff, isSome_lookup_iff, isSome_lookup_iff, hb]
  by_cases hk : n.kind = Kind.member
  · have hs := isSequence_eq_false hk rfl
    have hmodule : ((n.child? "object").map (Node.arranged a)).any (isModule (tree.arranged a) b') =
        (n.child? "object").any (isModule tree b) := by
      cases hc : n.child? "object" with
      | none => rfl
      | some c => simp [isModule_arranged (h c hc) hb]
    simp only [method?, hmodule, child?_arranged hs, isIdentifier_arranged, kind_arranged,
      SourceTree.text_arranged, SourceTree.textOf_map_arranged, apply_ite Option.isSome, hlookup]
  · simp [method?, hk, apply_ite Option.isSome, hlookup]

theorem line_issue?_arranged {n : Node} (hn : tree.root.Contains n)
    (h : ∀ n, tree.root.Contains n → FixesArgument tree n) :
    (issue? (tree.arranged a) (bindings (tree.arranged a)) (n.arranged a)).map Issue.line =
      (issue? tree (bindings tree) n).map Issue.line := by
  by_cases hk : n.kind = Kind.call
  · have hs := isSequence_eq_false hk rfl
    simp only [issue?, kind_arranged, child?_arranged hs, hk, beq_self_eq_true, if_true,
      Option.map_map]
    cases hf : n.child? "function" with
    | none => rfl
    | some f =>
        have hsome := isSome_method?_arranged (a := a)
          (fun c hc => h c ((hn.child? hf).child? hc)) (has_bindings_arranged (a := a) h)
        simp only [Option.map_some, Option.bind_some]
        cases hm : method? tree (bindings tree) f with
        | none =>
            rw [hm, Option.isSome_none, Option.isSome_eq_false_iff, Option.isNone_iff_eq_none]
              at hsome
            rw [hsome]
            rfl
        | some method =>
            rw [hm, Option.isSome_some, Option.isSome_iff_exists] at hsome
            obtain ⟨other, hother⟩ := hsome
            rw [hother]
            simp [issue, Issue.severe, Issue.plain]
  · simp [issue?, hk]

theorem penalty_of_mem_check {i : Issue} (h : i ∈ check tree) : i.penalty = 6 := by
  obtain ⟨n, -, hn⟩ := exists_of_mem_filterMap_walk h
  obtain ⟨method, rfl⟩ := issue?_cases hn
  rfl

theorem length_check_arranged (h : ∀ n, tree.root.Contains n → FixesArgument tree n) :
    (check (tree.arranged a)).length = (check tree).length := by
  apply Issue.length_firstPerLine_of_perm
  rw [List.map_filterMap, List.map_filterMap]
  apply SourceTree.filterMap_walk_arranged_perm
  intro v hv
  exact line_issue?_arranged (exists_mem_walk_iff.mp ⟨v.2, hv⟩).contains h

end ShellCommand

namespace HardcodedSecret

theorem assignment?_arranged (n : Node) :
    assignment? (n.arranged a) =
      (assignment? n).map fun p => (p.1.arranged a, p.2.arranged a) := by
  cases hs : n.isSequence with
  | false =>
      simp only [assignment?, kind_arranged, child?_arranged hs]
      cases n.child? "name" <;> cases n.child? "value" <;> cases n.child? "left" <;>
        cases n.child? "right" <;> (split_ifs <;> rfl)
  | true =>
      rcases kind_of_isSequence hs with hk | hk <;> simp [assignment?, hk, Kind.declarator]

theorem secretName?_arranged (n : Node) :
    secretName? (tree.arranged a) (n.arranged a) = secretName? tree n := by
  rw [secretName?, assignment?_arranged, secretName?]
  cases assignment? n with
  | none => rfl
  | some p =>
      have hname : (tree.arranged a).calleeName? (some (p.1.arranged a)) =
          tree.calleeName? (some p.1) :=
        SourceTree.calleeName?_map_arranged (some p.1)
      simp only [Option.map_some, hname, kind_arranged, SourceTree.stringValue_arranged]

theorem issue?_arranged (n : Node) : issue? (tree.arranged a) (n.arranged a) = issue? tree n := by
  have hname : nameIssue (n.arranged a) = nameIssue n := by
    funext name
    simp [nameIssue]
  have hkey : keyIssue (n.arranged a) = keyIssue n := by simp [keyIssue]
  have hisKey : isKey (tree.arranged a) (n.arranged a) = isKey tree n := by simp [isKey]
  rw [issue?, hisKey, hkey, secretName?_arranged, hname, issue?]

theorem penaltySum_check_arranged :
    penaltySum (check (tree.arranged a)) = penaltySum (check tree) := by
  refine penaltySum_firstPerLine_of_perm (p := 5) (fun i hi => ?_)
    (SourceTree.filterMap_walk_arranged_perm fun v _ => issue?_arranged v.1)
  obtain ⟨v, -, hv⟩ := List.mem_filterMap.mp hi
  rcases issue?_cases hv with rfl | ⟨name, rfl⟩ <;> rfl

end HardcodedSecret

end ScriptReview
