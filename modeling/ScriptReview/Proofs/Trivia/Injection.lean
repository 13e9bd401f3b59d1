import ScriptReview.Proofs.Trivia.Security

namespace ScriptReview

open Node hiding id

namespace Node

theorem postorder_of_isTrivia {n : Node} (h : n.isTrivia = true) : n.postorderRec = [n] := by
  rw [postorderRec_eq, namedChildren_of_isTrivia h]
  rfl

theorem postorderRec_bare {n : Node} (hn : n.isTrivia = false) :
    n.bare.postorderRec = (n.postorderRec.filter (!·.isTrivia)).map bare := by
  induction n using children_induction with
  | _ n ih =>
      rw [postorderRec_eq, postorderRec_eq, namedChildren_bare, List.filter_append, List.map_append]
      have hlast : ([n].filter (!·.isTrivia)).map bare = [n.bare] := by simp [hn]
      rw [hlast]
      congr 1
      have hsub : ∀ c ∈ n.namedChildren, c ∈ n.children := fun c hc => (mem_namedChildren.mp hc).1
      generalize n.namedChildren = cs at hsub ⊢
      induction cs with
      | nil => rfl
      | cons c cs ihcs =>
          have hrest := ihcs fun d hd => hsub d (List.mem_cons_of_mem c hd)
          rw [List.flatMap_cons, List.filter_append, List.map_append, ← hrest]
          cases hc : c.isTrivia with
          | true => simp [postorder_of_isTrivia hc, hc]
          | false =>
              rw [← ih c (hsub c List.mem_cons_self) hc]
              simp [hc]

end Node

namespace UserInput

variable {tree : SourceTree}

def Proper (tree : SourceTree) (r : Reach) : Prop :=
  ∀ i ∈ r.rooted ++ r.reading, ∃ n ∈ tree.root.preorder [], n.isTrivia = false ∧ n.id = i

theorem Proper.not_mem {r : Reach} (hr : Proper tree r) (hids : tree.root.DistinctIds) {c : Node}
    (hc : c ∈ tree.root.preorder []) (ht : c.isTrivia = true) : c.id ∉ r.rooted ++ r.reading := by
  intro hmem
  obtain ⟨n, hn, hnt, hid⟩ := hr c.id hmem
  have heq : n = c := List.inj_on_of_nodup_map hids hn hc hid
  rw [heq, ht] at hnt
  cases hnt

theorem isRooted_bare (rooted : List Nat) (n : Node) :
    isRooted tree.bare rooted n.bare = isRooted tree rooted n := by
  rw [isRooted, hasKind_bare, child?_bare, isRooted]
  cases n.child? "object" <;> simp

theorem extend_bare {r : Reach} {n : Node}
    (h : ∀ c ∈ n.namedChildren, c.isTrivia = true → c.id ∉ r.reading) :
    extend tree.bare r n.bare = extend tree r n := by
  have hany : (n.bare.namedChildren.any fun c => r.reading.contains c.id) =
      n.namedChildren.any fun c => r.reading.contains c.id := by
    rw [namedChildren_bare]
    generalize n.namedChildren = cs at h
    induction cs with
    | nil => rfl
    | cons c cs ih =>
        have hrest := ih fun d hd => h d (List.mem_cons_of_mem c hd)
        rw [List.any_map] at hrest ⊢
        cases hc : c.isTrivia with
        | true =>
            have hnot : r.reading.contains c.id = false := by
              simpa using h c List.mem_cons_self hc
            rw [List.filter_cons_of_neg (by simp [hc]), List.any_cons, hnot, hrest]
            rfl
        | false =>
            rw [List.filter_cons_of_pos (by simp [hc]), List.any_cons, List.any_cons, hrest]
            simp
  simp only [extend]
  rw [isRooted_bare, id_bare, hany]

theorem extend_of_isTrivia {r : Reach} {c : Node} (ht : c.isTrivia = true)
    (h : c.id ∉ r.rooted ++ r.reading) : extend tree r c = r := by
  have hrooted : c.id ∉ r.rooted := fun hmem => h (List.mem_append_left _ hmem)
  have haccess : isRooted tree r.rooted c = false := by
    simp [isRooted, hasKind, accessKinds, kind_of_isTrivia ht, Kind.member, Kind.subscript]
  simp [extend, haccess, hrooted, namedChildren_of_isTrivia ht]

theorem eq_or_mem_of_mem_extend {r : Reach} {n : Node} {i : Nat}
    (h : i ∈ (extend tree r n).rooted ++ (extend tree r n).reading) :
    i = n.id ∨ i ∈ r.rooted ++ r.reading := by
  simp only [extend] at h
  split_ifs at h <;> simp only [List.mem_append, List.mem_cons] at h ⊢ <;> tauto

theorem Proper.extend {r : Reach} (hr : Proper tree r) {n : Node} (hn : n ∈ tree.root.preorder [])
    (ht : n.isTrivia = false) : Proper tree (UserInput.extend tree r n) := by
  intro i hi
  rcases eq_or_mem_of_mem_extend hi with rfl | hi
  · exact ⟨n, hn, ht, rfl⟩
  · exact hr i hi

/-- One pass over nodes of the tree, with or without the trivia among them. -/
theorem foldl_extend_bare (hids : tree.root.DistinctIds) {ns : List Node}
    (hns : ∀ n ∈ ns, n ∈ tree.root.preorder []) {r : Reach} (hr : Proper tree r) :
    ((ns.filter (!·.isTrivia)).map bare).foldl (extend tree.bare) r = ns.foldl (extend tree) r := by
  induction ns generalizing r with
  | nil => rfl
  | cons n ns ih =>
      have hn := hns n List.mem_cons_self
      have hrest := fun m hm => hns m (List.mem_cons_of_mem n hm)
      cases ht : n.isTrivia with
      | true =>
          rw [List.filter_cons_of_neg (by simp [ht]), List.foldl_cons, ih hrest hr,
            extend_of_isTrivia ht (hr.not_mem hids hn ht)]
      | false =>
          have hchildren : ∀ c ∈ n.namedChildren, c.isTrivia = true → c.id ∉ r.reading := by
            intro c hc hct hmem
            have hreach := (mem_preorder_iff_reaches.mp hn).child hc
            exact hr.not_mem hids (mem_preorder_iff_reaches.mpr hreach) hct
              (List.mem_append_right _ hmem)
          rw [List.filter_cons_of_pos (by simp [ht]), List.map_cons, List.foldl_cons,
            List.foldl_cons, extend_bare hchildren, ih hrest (hr.extend hn ht)]

theorem nodes_bare (hroot : tree.root.isTrivia = false) (hids : tree.root.DistinctIds) :
    nodes tree.bare = nodes tree := by
  have hmem : ∀ n ∈ tree.root.postorder, n ∈ tree.root.preorder [] := fun n hn =>
    (postorder_perm_preorder tree.root).mem_iff.mp hn
  have hempty : Proper tree ⟨[], []⟩ := by simp [Proper]
  have hpost : tree.bare.root.postorder = (tree.root.postorder.filter (!·.isTrivia)).map bare := by
    rw [postorder_eq_postorderRec, postorder_eq_postorderRec]
    exact postorderRec_bare hroot
  rw [nodes, reach, hpost, foldl_extend_bare hids hmem hempty, nodes, reach]

end UserInput

namespace Node

inductive IsOperand (root : Node) : Node → Prop
  | side {n c : Node} : root.Contains n → n.isSum = true → c ∈ n.sides → IsOperand root c
  | enclosed {n c : Node} : IsOperand root n → n.enclosed? = some c → IsOperand root c

theorem mem_children_of_mem_sides {n c : Node} (h : c ∈ n.sides) : c ∈ n.children := by
  simp only [sides, List.mem_append, Option.mem_toList, child?] at h
  rcases h with h | h
  · exact List.mem_of_find?_eq_some h
  · exact List.mem_of_find?_eq_some h

theorem mem_children_of_enclosed? {n c : Node} (h : n.enclosed? = some c) : c ∈ n.children := by
  rw [enclosed?] at h
  split at h
  · exact (mem_namedChildren.mp (List.mem_of_mem_head? h)).1
  · cases h

theorem IsOperand.contains {root n : Node} (h : root.IsOperand n) : root.Contains n := by
  induction h with
  | side hn _ hc => exact hn.child (mem_children_of_mem_sides hc)
  | enclosed _ hc ih => exact ih.child (mem_children_of_enclosed? hc)

def ShowsOperands (root : Node) : Prop :=
  ∀ n, root.IsOperand n → n.kind = "parenthesized_expression" → n.opensWithComment = false

theorem sides_bare (n : Node) : n.bare.sides = n.sides.map bare := by
  rw [sides, child?_bare, child?_bare, sides, List.map_append]
  cases n.child? "left" <;> cases n.child? "right" <;> rfl

theorem enclosed?_bare {n : Node}
    (h : n.kind = "parenthesized_expression" → n.opensWithComment = false) :
    n.bare.enclosed? = n.enclosed?.map bare := by
  rw [enclosed?, kind_bare, enclosed?]
  split
  · rename_i hk
    exact head?_namedChildren_bare (h (beq_iff_eq.mp hk))
  · rfl

theorem operandsOf_cons (n : Node) (rest : List Node) :
    operandsOf (n :: rest) =
      if n.isSum then operandsOf (n.sides ++ rest)
      else
        match n.enclosed? with
        | some inner => operandsOf (inner :: rest)
        | none => n :: operandsOf rest := by
  rw [operandsOf]
  congr 1
  split <;> simp_all

/-- A pending node is a sum of the tree or an operand in it. -/
theorem operandsOf_bare {root : Node} (hshow : root.ShowsOperands) {pending : List Node}
    (h : ∀ n ∈ pending, (root.Contains n ∧ n.isSum = true) ∨ root.IsOperand n) :
    operandsOf (pending.map bare) = (operandsOf pending).map bare := by
  fun_induction operandsOf pending with
  | case1 => simp [operandsOf]
  | case2 n rest hsum ih =>
      have hcontains : root.Contains n := by
        rcases h n List.mem_cons_self with hn | hn
        · exact hn.1
        · exact hn.contains
      rw [List.map_cons, operandsOf_cons, isSum_bare, if_pos hsum, sides_bare, ← List.map_append]
      refine ih fun c hc => ?_
      rcases List.mem_append.mp hc with hc | hc
      · exact .inr (.side hcontains hsum hc)
      · exact h c (List.mem_cons_of_mem n hc)
  | case3 n rest hsum inner hinner ih =>
      have hn : root.IsOperand n := (h n List.mem_cons_self).resolve_left fun hn => hsum hn.2
      rw [List.map_cons, operandsOf_cons, isSum_bare, if_neg hsum, enclosed?_bare (hshow n hn),
        hinner]
      refine ih fun c hc => ?_
      rcases List.mem_cons.mp hc with rfl | hc
      · exact .inr (hn.enclosed hinner)
      · exact h c (List.mem_cons_of_mem n hc)
  | case4 n rest hsum hnone ih =>
      have hn : root.IsOperand n := (h n List.mem_cons_self).resolve_left fun hn => hsum hn.2
      rw [List.map_cons, operandsOf_cons, isSum_bare, if_neg hsum, enclosed?_bare (hshow n hn),
        hnone, List.map_cons]
      exact congrArg _ (ih fun c hc => h c (List.mem_cons_of_mem n hc))

theorem operands_bare {root n : Node} (hshow : root.ShowsOperands) (hn : root.Contains n)
    (hsum : n.isSum = true) : n.bare.operands = n.operands.map bare := by
  have hpending : ∀ m ∈ [n], (root.Contains m ∧ m.isSum = true) ∨ root.IsOperand m := by
    intro m hm
    rw [List.mem_singleton.mp hm]
    exact .inl ⟨hn, hsum⟩
  exact operandsOf_bare hshow hpending

theorem substitutions_bare (n : Node) : n.bare.substitutions = n.substitutions.map bare := by
  rw [substitutions, namedChildren_bare, List.filter_map, List.filter_filter, substitutions]
  congr 1
  apply List.filter_congr
  intro c _
  cases hc : c.isTrivia with
  | true => simp [kind_of_isTrivia hc, Kind.substitution]
  | false => simp

end Node

namespace Injection

variable {tree : SourceTree}

theorem readsInput_map_bare (input : List Nat) (ns : List Node) :
    readsInput input (ns.map bare) = readsInput input ns := by
  simp [readsInput, List.any_map, Function.comp_def]

theorem isMixed_bare (hshow : tree.root.ShowsOperands) (input : List Nat) {n : Node}
    (hn : tree.root.Contains n) : isMixed input n.bare = isMixed input n := by
  unfold isMixed
  rw [kind_bare, isSum_bare, substitutions_bare, readsInput_map_bare]
  cases hs : n.isSum with
  | false => rfl
  | true => rw [operands_bare hshow hn hs, readsInput_map_bare]

theorem templateParts_bare (stop cursor : Nat) (subs : List Node) :
    tree.bare.templateParts stop cursor (subs.map bare) = tree.templateParts stop cursor subs := by
  induction subs generalizing cursor with
  | nil => rfl
  | cons sub subs ih =>
      rw [List.map_cons, SourceTree.templateParts, SourceTree.templateParts, info_bare, ih]
      rfl

theorem templateText_bare (n : Node) : tree.bare.templateText n.bare = tree.templateText n := by
  have hsubs := substitutions_bare n
  unfold substitutions at hsubs
  rw [SourceTree.templateText, hsubs, templateParts_bare, info_bare, SourceTree.templateText]

theorem literal?_bare (n : Node) : literal? tree.bare n.bare = literal? tree n := by
  simp [literal?, templateText_bare]

theorem issue_bare (n : Node) : issue n.bare = issue n := by
  funext severity problem advice
  simp [issue]

theorem textIssue?_bare (n : Node) : textIssue? n.bare = textIssue? n := by
  funext literal query markup
  simp [textIssue?, issue_bare]

theorem assignmentIssue?_bare (hshow : tree.root.ShowsOperands) (input : List Nat) {n : Node}
    (hn : tree.root.Contains n) :
    assignmentIssue? tree.bare input n.bare = assignmentIssue? tree input n := by
  unfold assignmentIssue?
  rw [child?_bare, child?_bare]
  cases hl : n.child? "left" with
  | none => rfl
  | some target =>
      cases hr : n.child? "right" with
      | none => rfl
      | some value => simp [isMixed_bare hshow input (hn.child? hr), issue_bare]

theorem sumIssue?_bare (hshow : tree.root.ShowsOperands) (input : List Nat) {n : Node}
    (hn : tree.root.Contains n) (hsum : n.isSum = true) (p : Option Node) :
    sumIssue? tree.bare input n.bare (p.map bare) = sumIssue? tree input n p := by
  have hparent : (p.map bare).any isSum = p.any isSum := by cases p <;> simp
  have hliterals : (n.operands.map bare).filterMap (literal? tree.bare) =
      n.operands.filterMap (literal? tree) := by
    rw [List.filterMap_map]
    exact List.filterMap_congr fun m _ => literal?_bare m
  unfold sumIssue?
  rw [hparent, operands_bare hshow hn hsum, readsInput_map_bare, hliterals, textIssue?_bare]

theorem issue?_bare (hshow : tree.root.ShowsOperands) (input : List Nat) {v : Node × Option Node}
    (hn : tree.root.Contains v.1) :
    issue? tree.bare input (v.1.bare, v.2.map bare) = issue? tree input v := by
  have htemplate : templateIssue? tree.bare input v.1.bare = templateIssue? tree input v.1 := by
    simp [templateIssue?, substitutions_bare, readsInput_map_bare, textIssue?_bare,
      templateText_bare]
  unfold issue?
  simp only [kind_bare, isSum_bare]
  rw [assignmentIssue?_bare hshow input hn, htemplate]
  cases hsum : v.1.isSum with
  | false => rfl
  | true => rw [sumIssue?_bare hshow input hn hsum]

theorem check_bare (hroot : tree.root.isTrivia = false) (hids : tree.root.DistinctIds)
    (hshow : tree.root.ShowsOperands) : check tree.bare = check tree := by
  simp only [check]
  rw [UserInput.nodes_bare hroot hids, SourceTree.walk_bare hroot]
  congr 1
  refine filterMap_bareVisits (fun v hv _ => ?_) fun v _ ht => ?_
  · exact issue?_bare hshow _ (exists_mem_walk_iff.mp ⟨v.2, hv⟩).contains
  · simp [issue?, isSum, kind_of_isTrivia ht, Kind.binary, Kind.template]

end Injection

theorem Engine.security_bare {tree : SourceTree} (hroot : tree.root.isTrivia = false)
    (hids : tree.root.DistinctIds)
    (hargs : ∀ n, tree.root.Contains n → ShellCommand.showsArgument tree n = true)
    (hshow : tree.root.ShowsOperands) : security tree.bare = security tree := by
  rw [security, DynamicCode.check_bare hroot, ShellCommand.check_bare hroot hargs,
    HardcodedSecret.check_bare hroot, Injection.check_bare hroot hids hshow, security]

end ScriptReview
