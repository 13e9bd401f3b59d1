import ScriptReview.Proofs.Order.EdgeCases
import ScriptReview.Proofs.Order.Injection
import ScriptReview.Proofs.Paths

namespace ScriptReview

def SourceTree.readsArgument (tree : SourceTree) (n : Node) : Bool :=
  n.kind == Kind.call && (n.child? "function").any fun f =>
    ShellCommand.isRequirer tree f || ArrayAccess.isArrayTest tree f

def SourceTree.FixesArguments (tree : SourceTree) : Prop :=
  ∀ n ∈ tree.root.nodes, tree.readsArgument n = true →
    ((n.child? "arguments").all fun args => !args.isSequence) = true

instance (tree : SourceTree) : Decidable tree.FixesArguments :=
  inferInstanceAs (Decidable (∀ n ∈ tree.root.nodes, _))

theorem SourceTree.FixesArguments.requires {tree : SourceTree} (h : tree.FixesArguments) {n : Node}
    (hn : tree.root.Contains n) : ShellCommand.FixesArgument tree n := by
  intro hk hr args ha
  obtain ⟨f, hf, hrequire⟩ := (Option.any_eq_true _ _).mp hr
  have hall := h n hn (by simp [readsArgument, hk, hf, hrequire])
  simpa [ha] using hall

theorem SourceTree.FixesArguments.tests {tree : SourceTree} (h : tree.FixesArguments) {n : Node}
    (hn : tree.root.Contains n) : ArrayAccess.FixesArgument tree n := by
  intro hk hr args ha
  obtain ⟨f, hf, htest⟩ := (Option.any_eq_true _ _).mp hr
  have hall := h n hn (by simp [readsArgument, hk, hf, htest])
  simpa [ha] using hall

theorem Engine.penaltySum_found_arranged {tree : SourceTree} {a : Node.Arrangement}
    (hids : tree.root.AllDistinctIds) (h : tree.FixesArguments) (c : Category) :
    CategoryScore.penaltySum (found (tree.arranged a) c) =
      CategoryScore.penaltySum (found tree c) := by
  cases c with
  | readability => exact penaltySum_readability_arranged
  | complexity => exact Branching.penaltySum_findings_arranged
  | edgeCases => exact penaltySum_edgeCases_arranged fun n hn => h.tests hn.contains
  | security => exact penaltySum_security_arranged hids fun n hn => h.requires hn

theorem VerdictReport.verdict_ofScore (score : Int) (critical : List Issue)
    (scores : Option Analysis) (filename : Text) :
    (ofScore score critical scores filename).verdict =
      if critical.isEmpty then Verdict.ofScore score else .blockMerge := by
  rw [ofScore]
  split <;> rfl

namespace Analysis

/-- Two sources of which the same becomes, though not always for the same reasons. Decisions are
those that do not look at the wording of comments. -/
structure SameOutcome (x y : Analysis) : Prop where
  score : ∀ c, x.score c = y.score c
  totalScore : x.totalScore = y.totalScore
  criticalCount : x.criticalIssues.length = y.criticalIssues.length
  verdict : (VerdictReport.ofAnalysis x).verdict = (VerdictReport.ofAnalysis y).verdict
  decision : ∀ mode, mode ≠ Text.ofString "comment" →
    (Readiness.ofAnalysis x mode).decision = (Readiness.ofAnalysis y mode).decision

theorem hasCriticalDeductions_scored (filename : Text) (tree : SourceTree) {mode : Text}
    (hmode : mode ≠ Text.ofString "comment") :
    Readiness.hasCriticalDeductions (scored filename tree) mode =
      !(scored filename tree).criticalIssues.isEmpty :=
  (isCoherent_ofScores fun _ hi => (List.mem_filter.mp hi).2).hasCriticalDeductions hmode

theorem sameOutcome_scored {filename : Text} {tree other : SourceTree}
    (hscore : ∀ c, (scored filename tree).score c = (scored filename other).score c)
    (hcritical : (scored filename tree).criticalIssues.length =
      (scored filename other).criticalIssues.length) :
    (scored filename tree).SameOutcome (scored filename other) := by
  have htotal : (scored filename tree).totalScore = (scored filename other).totalScore := by
    apply Fin.ext
    rw [scored, totalScore_ofScores, scored, totalScore_ofScores]
    exact congrArg (fun score => total (Category.all.map score)) (funext hscore)
  have hempty : (scored filename tree).criticalIssues.isEmpty =
      (scored filename other).criticalIssues.isEmpty := by
    rw [Bool.eq_iff_iff, List.isEmpty_iff_length_eq_zero, List.isEmpty_iff_length_eq_zero, hcritical]
  refine ⟨hscore, htotal, hcritical, ?_, fun mode hmode => ?_⟩
  · rw [VerdictReport.ofAnalysis, VerdictReport.verdict_ofScore, VerdictReport.ofAnalysis,
      VerdictReport.verdict_ofScore, htotal, hempty]
  · refine congrArg Readiness.decision (Readiness.ofAnalysis_congr hscore htotal ?_)
    rw [hasCriticalDeductions_scored _ _ hmode, hasCriticalDeductions_scored _ _ hmode, hempty]

end Analysis

/-- Statements in another order, at any depth and with nodes numbered anew, lead to the same scores,
metrics, cost, verdict and decision. -/
theorem SourceTree.sameOutcome_arranged (filename : Text) {tree : SourceTree}
    (hids : tree.root.AllDistinctIds) (hargs : tree.FixesArguments) (a : Node.Arrangement) :
    ∃ x y m cost,
      Analysis.ofTree .standard filename (tree.arranged a) = .ok x ∧
      Analysis.ofTree .standard filename tree = .ok y ∧ x.SameOutcome y ∧
      Metrics.ofTree (tree.arranged a) = .ok m ∧ Metrics.ofTree tree = .ok m ∧
      ReviewCost.ofMetrics m x.security.score.val = .ok cost ∧
      ReviewCost.ofMetrics m y.security.score.val = .ok cost := by
  have harranged : (tree.arranged a).root.AllDistinctIds := hids.arranged
  have hscore : ∀ c, (Analysis.scored filename (tree.arranged a)).score c =
      (Analysis.scored filename tree).score c := by
    intro c
    rw [Analysis.score_scored, Analysis.score_scored, Engine.penaltySum_found_arranged hids hargs]
  have hcritical : (Analysis.scored filename (tree.arranged a)).criticalIssues.length =
      (Analysis.scored filename tree).criticalIssues.length :=
    Engine.length_critical_arranged fun n hn => hargs.requires hn
  have hsecurity : (Analysis.scored filename (tree.arranged a)).security.score.val =
      (Analysis.scored filename tree).security.score.val :=
    hscore .security
  obtain ⟨cost, -, hcost, -⟩ :=
    ReviewCost.ofMetrics_eq_ok (.measured tree) (Analysis.scored filename tree).security.score.val
  refine ⟨_, _, _, cost, Analysis.ofTree_eq_ok filename harranged.distinctIds,
    Analysis.ofTree_eq_ok filename hids.distinctIds, Analysis.sameOutcome_scored hscore hcritical,
    ?_, Metrics.ofTree_eq_ok hids.distinctIds, ?_, hcost⟩
  · rw [Metrics.ofTree_eq_ok harranged.distinctIds, Metrics.measured_arranged]
  · rw [hsecurity, hcost]

def Node.Arrangement.backwards : Node.Arrangement where
  order n := if n.isSequence then n.children.reverse else n.children
  number := .refl Nat
  order_perm n := by
    split
    · exact List.reverse_perm _
    · exact .refl _
  order_eq n h := by simp [h]

def SourceTree.requiredShell (kind : String) : SourceTree :=
  .ofFile
    (fun _ _ => .inline 0 "program" none 0 52
      [.inline 1 "lexical_declaration" none 0 39
        [.inline 2 "variable_declarator" none 6 38
          [.inline 3 "identifier" (some "name") 6 11 [],
            .inline 4 "call_expression" (some "value") 12 38
              [.inline 5 "identifier" (some "function") 12 19 [],
                .inline 6 kind (some "arguments") 19 38
                  [.inline 7 "string" none 20 35 [], .inline 8 "identifier" none 36 37 []]]]],
      .inline 9 "expression_statement" none 39 52
        [.inline 10 "call_expression" none 39 51
          [.inline 11 "member_expression" (some "function") 39 49
              [.inline 12 "identifier" (some "object") 39 44 [],
                .inline 13 "property_identifier" (some "property") 45 49 []],
            .inline 14 "arguments" (some "arguments") 49 51 []]]])
    "a.js" "const shell=require('child_process',x);shell.exec();"

theorem SourceTree.sameOutcome_requiredShell :
    (requiredShell "arguments").root.AllDistinctIds ∧ (requiredShell "arguments").FixesArguments ∧
      ∃ x y, Analysis.ofTree .standard "a.js" ((requiredShell "arguments").arranged .backwards) =
          .ok x ∧
        Analysis.ofTree .standard "a.js" (requiredShell "arguments") = .ok y ∧ x.SameOutcome y := by
  have hids : (requiredShell "arguments").root.AllDistinctIds := by decide +kernel
  have hargs : (requiredShell "arguments").FixesArguments := by decide +kernel
  obtain ⟨x, y, -, -, hx, hy, hsame, -⟩ := sameOutcome_arranged "a.js" hids hargs .backwards
  exact ⟨hids, hargs, x, y, hx, hy, hsame⟩

/-- A block in the place of the arguments tells which module is required only in one order. -/
theorem SourceTree.not_sameOutcome_requiredShell :
    ¬ ∀ (tree : SourceTree) (a : Node.Arrangement), tree.root.kind = "program" →
      tree.root.info.hasError = false → tree.root.AllDistinctIds →
      ∃ x y, Analysis.ofTree .standard "a.js" (tree.arranged a) = .ok x ∧
        Analysis.ofTree .standard "a.js" tree = .ok y ∧ x.SameOutcome y := by
  intro h
  have hids : (requiredShell Kind.block).root.AllDistinctIds := by decide +kernel
  have harranged : ((requiredShell Kind.block).arranged .backwards).root.AllDistinctIds :=
    hids.arranged
  obtain ⟨x, y, hx, hy, hsame⟩ := h (requiredShell Kind.block) .backwards rfl rfl hids
  rw [Analysis.ofTree_eq_ok _ harranged.distinctIds] at hx
  rw [Analysis.ofTree_eq_ok _ hids.distinctIds] at hy
  cases hx
  cases hy
  have hscore : (Analysis.scored "a.js" ((requiredShell Kind.block).arranged .backwards)).score
      .security ≠ (Analysis.scored "a.js" (requiredShell Kind.block)).score .security := by
    decide +kernel
  exact hscore (hsame.score .security)

end ScriptReview
