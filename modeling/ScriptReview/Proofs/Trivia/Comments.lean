import ScriptReview.Proofs.Reports
import ScriptReview.Proofs.Trivia.EdgeCases
import ScriptReview.Proofs.Trivia.Injection

namespace ScriptReview

namespace Node

mutual

def hasPlainComments : Node → Bool
  | mk i cs => (i.kind != Kind.comment || (mk i cs).isTrivia) && havePlainComments cs

def havePlainComments : List Node → Bool
  | [] => true
  | c :: cs => c.hasPlainComments && havePlainComments cs

end

theorem havePlainComments_iff {cs : List Node} :
    havePlainComments cs = true ↔ ∀ c ∈ cs, c.hasPlainComments = true := by
  induction cs with
  | nil => simp [havePlainComments]
  | cons c cs ih => simp [havePlainComments, ih]

theorem hasPlainComments_of_mem {n c : Node} (h : n.hasPlainComments = true)
    (hc : c ∈ n.children) : c.hasPlainComments = true := by
  cases n with
  | mk i cs =>
      rw [hasPlainComments, Bool.and_eq_true] at h
      exact havePlainComments_iff.mp h.2 c hc

theorem isTrivia_iff_of_hasPlainComments {n : Node} (h : n.hasPlainComments = true) :
    n.isTrivia = true ↔ n.kind = "comment" := by
  refine ⟨kind_of_isTrivia, fun hk => ?_⟩
  cases n with
  | mk i cs =>
      change i.kind = "comment" at hk
      rw [hasPlainComments, Bool.and_eq_true] at h
      simpa [hk, Kind.comment] using h.1

theorem withoutComments_eq_bare {n : Node} (h : n.hasPlainComments = true) :
    n.withoutComments = n.bare := by
  induction n using children_induction with
  | _ n ih =>
      have hplain : ∀ c ∈ n.children, c.hasPlainComments = true := fun c =>
        hasPlainComments_of_mem h
      cases n with
      | mk i cs =>
          rw [withoutComments, bare]
          congr 1
          change ∀ c ∈ cs, c.hasPlainComments = true → c.withoutComments = c.bare at ih
          change ∀ c ∈ cs, _ at hplain
          clear h
          induction cs with
          | nil => rfl
          | cons c cs ihcs =>
              have hrest := ihcs (fun d hd => ih d (List.mem_cons_of_mem c hd))
                fun d hd => hplain d (List.mem_cons_of_mem c hd)
              have hc := hplain c List.mem_cons_self
              have hiff := isTrivia_iff_of_hasPlainComments hc
              rw [dropComments, dropTrivia, hrest, ih c List.mem_cons_self hc]
              simp only [Kind.comment, ← hiff]

/-- Where nothing is in parentheses, nothing is hidden there. -/
theorem showsOperands_of_forall {root : Node}
    (h : ∀ n ∈ root.nodes, n.kind ≠ "parenthesized_expression") : root.ShowsOperands :=
  fun n hn hk => absurd hk (h n hn.contains)

theorem distinctIds_bare {n : Node} (hn : n.isTrivia = false) (h : n.DistinctIds) :
    n.bare.DistinctIds := by
  have hpre : n.bare.preorder [] = ((n.preorder []).filter (!·.isTrivia)).map bare := by
    have hwalk : n.bare.walk = bareVisits (Option.map bare) n.walk :=
      walkWith_bare (f := Option.map bare) (fun _ _ _ => rfl) [] none hn
    rw [← map_fst_walk, hwalk, ← map_fst_walk, bareVisits, List.map_map, List.filter_map,
      List.map_map]
    rfl
  have hids : (n.bare.preorder []).map Node.id =
      ((n.preorder []).filter (!·.isTrivia)).map Node.id := by
    rw [hpre, List.map_map]
    exact List.map_congr_left fun c _ => id_bare c
  rw [DistinctIds, hids]
  exact h.sublist (List.filter_sublist.map Node.id)

end Node

namespace SourceTree

def withoutComments (tree : SourceTree) : SourceTree :=
  { tree with root := tree.root.withoutComments }

theorem withoutComments_eq_bare {tree : SourceTree} (h : tree.root.hasPlainComments = true) :
    tree.withoutComments = tree.bare := by
  rw [withoutComments, Node.withoutComments_eq_bare h, bare]

structure SameFindings (tree other : SourceTree) : Prop where
  readability : Engine.standard .readability other = Engine.standard .readability tree
  complexity : Engine.standard .complexity other = Engine.standard .complexity tree
  metrics : Metrics.ofTree other = Metrics.ofTree tree
  edgeCases : (∀ n, tree.root.Reaches n → ArrayAccess.showsArgument tree n = true) →
    Engine.standard .edgeCases other = Engine.standard .edgeCases tree
  security : (∀ n, tree.root.Contains n → ShellCommand.showsArgument tree n = true) →
    tree.root.ShowsOperands → Engine.standard .security other = Engine.standard .security tree

theorem sameFindings_bare {tree : SourceTree} (hids : tree.root.DistinctIds)
    (hroot : tree.root.isTrivia = false) : tree.SameFindings tree.bare where
  readability := congrArg Except.ok (Engine.readability_bare hroot)
  complexity := by
    have hbare : tree.bare.root.DistinctIds := Node.distinctIds_bare hroot hids
    rw [Engine.standard_eq_ok hbare, Engine.standard_eq_ok hids]
    exact congrArg Except.ok (Branching.findings_bare hroot)
  metrics := by
    have hbare : tree.bare.root.DistinctIds := Node.distinctIds_bare hroot hids
    rw [Metrics.ofTree_eq_ok hbare, Metrics.ofTree_eq_ok hids, Metrics.measured_bare hroot]
  edgeCases h := congrArg Except.ok (Engine.edgeCases_bare hroot h)
  security h hshow := congrArg Except.ok (Engine.security_bare hroot hids h hshow)

end SourceTree

/-- Deleting the comments of a tree changes findings only where one hides a first argument or an
operand. -/
theorem SourceTree.sameFindings_withoutComments {tree : SourceTree}
    (hplain : tree.root.hasPlainComments = true) (hids : tree.root.DistinctIds) :
    tree.SameFindings tree.withoutComments := by
  rw [withoutComments_eq_bare hplain]
  cases hroot : tree.root.isTrivia with
  | false => exact sameFindings_bare hids hroot
  | true =>
      have hbare : tree.bare = tree := by rw [bare, Node.bare_of_isTrivia hroot]
      rw [hbare]
      exact ⟨rfl, rfl, rfl, fun _ => rfl, fun _ _ => rfl⟩

def SourceTree.shownModule : SourceTree :=
  .ofFile
    (fun _ _ => .shellCall
      [.inline 13 "string" none 22 37 [], .inline 14 "comment" none 38 43 []])
    "a.js" "const shell = require('child_process' /*c*/);shell.exec();"

theorem SourceTree.sameFindings_shownModule :
    shownModule.root.hasPlainComments = true ∧ shownModule.root.DistinctIds ∧
      (∀ c, Engine.standard c shownModule.withoutComments = Engine.standard c shownModule) ∧
      Metrics.ofTree shownModule.withoutComments = Metrics.ofTree shownModule := by
  have hplain : shownModule.root.hasPlainComments = true := by decide +kernel
  have hids : shownModule.root.DistinctIds := by decide +kernel
  have hcalls : ∀ n ∈ shownModule.root.nodes, ShellCommand.showsArgument shownModule n = true := by
    decide +kernel
  have htests : ∀ n ∈ shownModule.root.nodes, ArrayAccess.showsArgument shownModule n = true := by
    decide +kernel
  have h := sameFindings_withoutComments hplain hids
  refine ⟨hplain, hids, fun c => ?_, h.metrics⟩
  cases c with
  | readability => exact h.readability
  | complexity => exact h.complexity
  | edgeCases => exact h.edgeCases fun n hn => htests n hn.contains
  | security =>
      exact h.security (fun n hn => hcalls n hn)
        (Node.showsOperands_of_forall (by decide +kernel))

/-- A comment before its argument hides a call of `require`, and with it the shell call. -/
theorem SourceTree.security_hiddenModule :
    ¬ ∀ tree : SourceTree, tree.root.hasPlainComments = true → tree.root.DistinctIds →
      Engine.standard .security tree.withoutComments = Engine.standard .security tree := by
  intro h
  have hsame := h hiddenModule (by decide +kernel) (by decide +kernel)
  have heq : Engine.security hiddenModule.withoutComments = Engine.security hiddenModule :=
    Except.ok.inj hsame
  have hfound : Engine.security hiddenModule.withoutComments ≠ Engine.security hiddenModule := by
    decide +kernel
  exact hfound heq

end ScriptReview
