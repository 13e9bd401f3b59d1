import ScriptReview.Proofs.Order.Security
import ScriptReview.Proofs.Trivia.Injection

namespace ScriptReview

open Node hiding id
open CategoryScore

variable {tree : SourceTree} {a : Arrangement}

namespace UserInput

theorem rooted_arranged_iff (n : Node) :
    Rooted (tree.arranged a) (n.arranged a) ↔ Rooted tree n := by
  induction n using children_induction with
  | _ n ih =>
      rw [rooted_iff, rooted_iff, hasKind_arranged]
      refine and_congr_right fun hk => ?_
      rw [child?_arranged (isSequence_of_hasKind hk (by decide))]
      cases ht : n.child? "object" with
      | none => simp
      | some target =>
          have htarget := ih target (List.mem_of_find?_eq_some ht)
          simp [htarget]

theorem reads_arranged_iff (n : Node) : Reads (tree.arranged a) (n.arranged a) ↔ Reads tree n := by
  induction n using children_induction with
  | _ n ih =>
      rw [reads_iff, reads_iff, rooted_arranged_iff]
      refine or_congr_right ?_
      simp only [(namedChildren_arranged_perm n).mem_iff, List.mem_map]
      constructor
      · rintro ⟨_, ⟨c, hc, rfl⟩, hr⟩
        exact ⟨c, hc, (ih c (mem_namedChildren.mp hc).1).mp hr⟩
      · rintro ⟨c, hc, hr⟩
        exact ⟨_, ⟨c, hc, rfl⟩, (ih c (mem_namedChildren.mp hc).1).mpr hr⟩

theorem contains_nodes_arranged (hids : tree.root.AllDistinctIds) (i : Nat) :
    (nodes (tree.arranged a)).contains (a.number i) = (nodes tree).contains i := by
  have harranged : (tree.arranged a).root.AllDistinctIds := hids.arranged
  rw [Bool.eq_iff_iff, List.contains_iff_mem, List.contains_iff_mem, mem_nodes_iff harranged,
    mem_nodes_iff hids]
  constructor
  · rintro ⟨m, hm, hr, hid⟩
    obtain ⟨n, hn, rfl⟩ := reaches_arranged_iff.mp hm
    rw [id_arranged] at hid
    exact ⟨n, hn, (reads_arranged_iff n).mp hr, a.number.injective hid⟩
  · rintro ⟨n, hn, hr, rfl⟩
    exact ⟨_, reaches_arranged_iff.mpr ⟨n, hn, rfl⟩, (reads_arranged_iff n).mpr hr, id_arranged n⟩

end UserInput

namespace Node

theorem isSequence_of_isSum {n : Node} (h : n.isSum = true) : n.isSequence = false := by
  simp only [isSum, Bool.and_eq_true, beq_iff_eq] at h
  exact isSequence_eq_false h.1 rfl

theorem sides_arranged {n : Node} (h : n.isSum = true) :
    (n.arranged a).sides = n.sides.map (Node.arranged a) := by
  have hs := isSequence_of_isSum h
  rw [sides, child?_arranged hs, child?_arranged hs, sides, List.map_append]
  cases n.child? "left" <;> cases n.child? "right" <;> rfl

theorem enclosed?_arranged (n : Node) :
    (n.arranged a).enclosed? = n.enclosed?.map (Node.arranged a) := by
  rw [enclosed?, kind_arranged, enclosed?]
  split
  · rename_i hk
    rw [namedChildren_arranged (isSequence_eq_false (beq_iff_eq.mp hk) rfl), List.head?_map]
  · rfl

theorem operandsOf_arranged (pending : List Node) :
    operandsOf (pending.map (Node.arranged a)) = (operandsOf pending).map (Node.arranged a) := by
  fun_induction operandsOf pending with
  | case1 => simp [operandsOf]
  | case2 n rest hsum ih =>
      rw [List.map_cons, operandsOf_cons, isSum_arranged, if_pos hsum, sides_arranged hsum,
        ← List.map_append, ih]
  | case3 n rest hsum inner hinner ih =>
      rw [List.map_cons, operandsOf_cons, isSum_arranged, if_neg hsum, enclosed?_arranged, hinner]
      exact ih
  | case4 n rest hsum hnone ih =>
      rw [List.map_cons, operandsOf_cons, isSum_arranged, if_neg hsum, enclosed?_arranged, hnone,
        List.map_cons, ← ih]
      rfl

theorem operands_arranged (n : Node) :
    (n.arranged a).operands = n.operands.map (Node.arranged a) :=
  operandsOf_arranged [n]

theorem substitutions_arranged {n : Node} (h : n.kind = Kind.template) :
    (n.arranged a).substitutions = n.substitutions.map (Node.arranged a) := by
  rw [substitutions, namedChildren_arranged (isSequence_eq_false h rfl), List.filter_map,
    substitutions]
  simp [Function.comp_def]

end Node

namespace SourceTree

theorem templateParts_arranged (stop cursor : Nat) (subs : List Node) :
    (tree.arranged a).templateParts stop cursor (subs.map (Node.arranged a)) =
      tree.templateParts stop cursor subs := by
  induction subs generalizing cursor with
  | nil => rfl
  | cons sub subs ih =>
      rw [List.map_cons, templateParts, templateParts, info_arranged, ih]
      rfl

theorem templateText_arranged {n : Node} (h : n.kind = Kind.template) :
    (tree.arranged a).templateText (n.arranged a) = tree.templateText n := by
  have hsubs := substitutions_arranged (a := a) h
  rw [substitutions, substitutions] at hsubs
  rw [templateText, hsubs, templateParts_arranged, info_arranged, templateText]

end SourceTree

namespace Injection

def SameInput (a : Arrangement) (input input' : List Nat) : Prop :=
  ∀ i, input'.contains (a.number i) = input.contains i

variable {input input' : List Nat}

theorem readsInput_arranged (h : SameInput a input input') (ns : List Node) :
    readsInput input' (ns.map (Node.arranged a)) = readsInput input ns := by
  rw [readsInput, List.any_map, readsInput]
  simp only [Function.comp_def, id_arranged, h _]

theorem isMixed_arranged (h : SameInput a input input') (n : Node) :
    isMixed input' (n.arranged a) = isMixed input n := by
  rw [isMixed, kind_arranged, isSum_arranged, operands_arranged, readsInput_arranged h, isMixed]
  split
  · rename_i hk
    rw [substitutions_arranged (beq_iff_eq.mp hk), readsInput_arranged h]
  · rfl

theorem literal?_arranged (n : Node) :
    literal? (tree.arranged a) (n.arranged a) = literal? tree n := by
  rw [literal?, kind_arranged, SourceTree.stringValue_arranged, literal?]
  by_cases hk : n.kind = Kind.template
  · rw [SourceTree.templateText_arranged hk]
  · simp [hk]

theorem issue_arranged (n : Node) : issue (n.arranged a) = issue n := by
  funext severity problem advice
  simp [issue]

theorem textIssue?_arranged (n : Node) : textIssue? (n.arranged a) = textIssue? n := by
  funext literal query markup
  simp [textIssue?, issue_arranged]

theorem assignmentIssue?_arranged (h : SameInput a input input') {n : Node}
    (hs : n.isSequence = false) :
    assignmentIssue? (tree.arranged a) input' (n.arranged a) = assignmentIssue? tree input n := by
  rw [assignmentIssue?, child?_arranged hs, child?_arranged hs, assignmentIssue?]
  cases n.child? "left" with
  | none => rfl
  | some target =>
      cases n.child? "right" with
      | none => rfl
      | some value =>
          by_cases hk : target.kind = Kind.member
          · simp [child?_arranged (isSequence_eq_false hk rfl), isMixed_arranged h, issue_arranged]
          · simp [hk]

theorem sumIssue?_arranged (h : SameInput a input input') (n : Node) (p : Option Node) :
    sumIssue? (tree.arranged a) input' (n.arranged a) (p.map (Node.arranged a)) =
      sumIssue? tree input n p := by
  have hparent : (p.map (Node.arranged a)).any isSum = p.any isSum := by cases p <;> simp
  have hliterals : (n.operands.map (Node.arranged a)).filterMap (literal? (tree.arranged a)) =
      n.operands.filterMap (literal? tree) := by
    rw [List.filterMap_map]
    exact List.filterMap_congr fun m _ => literal?_arranged m
  rw [sumIssue?, hparent, operands_arranged, readsInput_arranged h, hliterals, textIssue?_arranged,
    sumIssue?]

theorem templateIssue?_arranged (h : SameInput a input input') {n : Node}
    (hk : n.kind = Kind.template) :
    templateIssue? (tree.arranged a) input' (n.arranged a) = templateIssue? tree input n := by
  rw [templateIssue?, substitutions_arranged hk, readsInput_arranged h, textIssue?_arranged,
    SourceTree.templateText_arranged hk, templateIssue?]

theorem issue?_arranged (h : SameInput a input input') (v : Node × Option Node) :
    issue? (tree.arranged a) input' (v.1.arranged a, v.2.map (Node.arranged a)) =
      issue? tree input v := by
  cases hs : v.1.isSequence with
  | true =>
      rcases kind_of_isSequence hs with hk | hk <;>
        simp [issue?, isSum, hk, Kind.binary, Kind.template]
  | false =>
      simp only [issue?, kind_arranged, isSum_arranged, assignmentIssue?_arranged h hs,
        sumIssue?_arranged h]
      by_cases hk : v.1.kind = Kind.template
      · rw [templateIssue?_arranged h hk]
      · simp [hk]

theorem penaltySum_check_arranged (hids : tree.root.AllDistinctIds) :
    penaltySum (check (tree.arranged a)) = penaltySum (check tree) := by
  have hinput : SameInput a (UserInput.nodes tree) (UserInput.nodes (tree.arranged a)) :=
    UserInput.contains_nodes_arranged hids
  refine penaltySum_firstPerLine_of_perm (p := 4) (fun i hi => ?_)
    (SourceTree.filterMap_walk_arranged_perm fun v _ => issue?_arranged hinput v)
  obtain ⟨v, -, hv⟩ := List.mem_filterMap.mp hi
  obtain ⟨severity, problem, advice, -, rfl⟩ := issue?_cases hv
  rfl

end Injection

namespace Engine

theorem length_critical_arranged
    (h : ∀ n, tree.root.Contains n → ShellCommand.FixesArgument tree n) :
    ((security (tree.arranged a)).filter Issue.isCritical).length =
      ((security tree).filter Issue.isCritical).length := by
  rw [filter_isCritical_security, filter_isCritical_security, List.length_append,
    List.length_append, DynamicCode.length_check_arranged, ShellCommand.length_check_arranged h]

theorem penaltySum_security_arranged (hids : tree.root.AllDistinctIds)
    (h : ∀ n, tree.root.Contains n → ShellCommand.FixesArgument tree n) :
    penaltySum (security (tree.arranged a)) = penaltySum (security tree) := by
  have hcode (t : SourceTree) : penaltySum (DynamicCode.check t) = (DynamicCode.check t).length * 8 :=
    penaltySum_eq_mul fun _ => DynamicCode.penalty_of_mem_check
  have hshell (t : SourceTree) :
      penaltySum (ShellCommand.check t) = (ShellCommand.check t).length * 6 :=
    penaltySum_eq_mul fun _ => ShellCommand.penalty_of_mem_check
  simp only [security, penaltySum_append, hcode, hshell, DynamicCode.length_check_arranged,
    ShellCommand.length_check_arranged h, HardcodedSecret.penaltySum_check_arranged,
    Injection.penaltySum_check_arranged hids]

end Engine

end ScriptReview
