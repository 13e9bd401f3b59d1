import Mathlib.Data.Set.Card
import ScriptReview.Proofs.Findings.Danger
import ScriptReview.Proofs.Order.Points
import ScriptReview.Proofs.Scores

namespace ScriptReview

abbrev Visit := Node × Option Node

namespace Issue

/-- The lines of the offending visits, each once. What is listed before an issue are the lines that
were offended before the node which it stands for. -/
structure OncePerLine (Offends : Visit → Prop) (visits : List Visit) (issues : List Issue) :
    Prop where
  lines_nodup : (issues.map line).Nodup
  mem_lines_iff : ∀ l, l ∈ issues.map line ↔ ∃ v ∈ visits, Offends v ∧ some (v.1.line : Int) = l
  order : ∀ earlier i later, issues = earlier ++ i :: later →
    ∃ before v after, visits = before ++ v :: after ∧ Offends v ∧ i.line = some (v.1.line : Int) ∧
      ∀ l, l ∈ earlier.map line ↔ ∃ u ∈ before, Offends u ∧ some (u.1.line : Int) = l

theorem exists_split_of_firstPerLineFrom {seen : List (Option Int)} {issues earlier later : List Issue}
    {i : Issue} (h : firstPerLineFrom seen issues = earlier ++ i :: later) :
    ∃ before after, issues = before ++ i :: after ∧
      ∀ l, l ∈ earlier.map line ↔ l ∈ before.map line ∧ l ∉ seen := by
  induction issues generalizing seen earlier with
  | nil => simp [firstPerLineFrom] at h
  | cons k issues ih =>
      rw [firstPerLineFrom] at h
      by_cases hk : k.line ∈ seen
      · rw [if_pos (by simpa using hk)] at h
        obtain ⟨before, after, rfl, hbefore⟩ := ih h
        refine ⟨k :: before, after, rfl, ?_⟩
        intro l
        rw [hbefore, List.map_cons, List.mem_cons]
        constructor
        · rintro ⟨hl, hseen⟩
          exact ⟨.inr hl, hseen⟩
        · rintro ⟨rfl | hl, hseen⟩
          · exact absurd hk hseen
          · exact ⟨hl, hseen⟩
      · rw [if_neg (by simpa using hk)] at h
        cases earlier with
        | nil =>
            obtain ⟨rfl, -⟩ := List.cons.inj h
            exact ⟨[], issues, rfl, by simp⟩
        | cons e earlier =>
            rw [List.cons_append] at h
            obtain ⟨rfl, hrest⟩ := List.cons.inj h
            obtain ⟨before, after, rfl, hbefore⟩ := ih hrest
            refine ⟨k :: before, after, rfl, ?_⟩
            intro l
            rw [List.map_cons, List.mem_cons, hbefore, List.map_cons, List.mem_cons, List.mem_cons]
            by_cases hl : l = k.line
            · simp [hl, hk]
            · simp [hl]

theorem oncePerLine_filterMap {f : Visit → Option Issue} {Offends : Visit → Prop}
    (hsome : ∀ v, (f v).isSome = true ↔ Offends v)
    (hline : ∀ v i, f v = some i → i.line = some (v.1.line : Int)) (visits : List Visit) :
    OncePerLine Offends visits (firstPerLine (visits.filterMap f)) := by
  have hlines (vs : List Visit) (l : Option Int) : l ∈ (vs.filterMap f).map line ↔
      ∃ v ∈ vs, Offends v ∧ some (v.1.line : Int) = l := by
    simp only [List.mem_map, List.mem_filterMap, ← hsome, Option.isSome_iff_exists]
    constructor
    · rintro ⟨i, ⟨v, hv, hi⟩, rfl⟩
      exact ⟨v, hv, ⟨i, hi⟩, (hline v i hi).symm⟩
    · rintro ⟨v, hv, ⟨i, hi⟩, rfl⟩
      exact ⟨i, ⟨v, hv, hi⟩, hline v i hi⟩
  constructor
  case lines_nodup => exact nodup_lines_firstPerLineFrom [] _
  case mem_lines_iff =>
    intro l
    rw [firstPerLine, mem_lines_firstPerLineFrom, hlines, and_iff_left List.not_mem_nil]
  case order =>
    intro earlier i later h
    obtain ⟨found, rest, hfound, hearlier⟩ := exists_split_of_firstPerLineFrom h
    obtain ⟨before, others, rfl, rfl, hrest⟩ := List.filterMap_eq_append_iff.mp hfound
    obtain ⟨skipped, v, after, rfl, hskipped, hv, -⟩ := List.filterMap_eq_cons_iff.mp hrest
    have hnone : skipped.filterMap f = [] := List.filterMap_eq_nil_iff.mpr hskipped
    refine ⟨before ++ skipped, v, after, by simp, (hsome v).mp (by simp [hv]), hline v i hv, ?_⟩
    intro l
    rw [hearlier, and_iff_left List.not_mem_nil, ← hlines, List.filterMap_append, hnone,
      List.append_nil]

end Issue

def SourceTree.offendedLines (tree : SourceTree) (Offends : Visit → Prop) : Set Nat :=
  { l | ∃ v ∈ tree.walk, Offends v ∧ v.1.line = l }

structure Charges (tree : SourceTree) (Offends : Visit → Prop) (rules : List String) (penalty : Nat)
    (critical : Bool) (issues : List Issue) : Prop
    extends Issue.OncePerLine Offends tree.walk issues where
  ruleId_mem : ∀ i ∈ issues, i.ruleId ∈ rules.map Text.ofString
  penalty_eq : ∀ i ∈ issues, i.penalty = penalty
  isCritical_eq : ∀ i ∈ issues, i.isCritical = critical

section Charges

variable {tree : SourceTree} {Offends : Visit → Prop} {rules : List String} {penalty : Nat}
  {critical : Bool} {issues : List Issue}

theorem charges_firstPerLine {f : Visit → Option Issue}
    (hsome : ∀ v, (f v).isSome = true ↔ Offends v)
    (hissue : ∀ v i, f v = some i → i.line = some (v.1.line : Int) ∧
      i.ruleId ∈ rules.map Text.ofString ∧ i.penalty = penalty ∧ i.isCritical = critical) :
    Charges tree Offends rules penalty critical (Issue.firstPerLine (tree.walk.filterMap f)) := by
  have hmem : ∀ i ∈ Issue.firstPerLine (tree.walk.filterMap f),
      i.ruleId ∈ rules.map Text.ofString ∧ i.penalty = penalty ∧ i.isCritical = critical := by
    intro i hi
    obtain ⟨v, -, hv⟩ := List.mem_filterMap.mp (Issue.mem_of_mem_firstPerLine hi)
    exact (hissue v i hv).2
  constructor
  case toOncePerLine => exact Issue.oncePerLine_filterMap hsome (fun v i hi => (hissue v i hi).1) _
  case ruleId_mem => exact fun i hi => (hmem i hi).1
  case penalty_eq => exact fun i hi => (hmem i hi).2.1
  case isCritical_eq => exact fun i hi => (hmem i hi).2.2

theorem Charges.length_eq (h : Charges tree Offends rules penalty critical issues) :
    issues.length = (tree.offendedLines Offends).ncard := by
  have hinjective : Function.Injective fun l : Nat => some (l : Int) := by
    intro l m hlm
    simpa using hlm
  have himage : (fun l : Nat => some (l : Int)) '' tree.offendedLines Offends =
      ((issues.map Issue.line).toFinset : Set (Option Int)) := by
    ext l
    simp only [Set.mem_image, SourceTree.offendedLines, Set.mem_ofPred_eq, List.coe_toFinset,
      h.mem_lines_iff]
    constructor
    · rintro ⟨_, ⟨v, hv, hoffends, rfl⟩, rfl⟩
      exact ⟨v, hv, hoffends, rfl⟩
    · rintro ⟨v, hv, hoffends, rfl⟩
      exact ⟨v.1.line, ⟨v, hv, hoffends, rfl⟩, rfl⟩
  rw [← Set.ncard_image_of_injective _ hinjective, himage, Set.ncard_coe_finset,
    List.toFinset_card_of_nodup h.lines_nodup, List.length_map]

theorem Charges.penaltySum_eq (h : Charges tree Offends rules penalty critical issues) :
    CategoryScore.penaltySum issues = (tree.offendedLines Offends).ncard * penalty := by
  rw [CategoryScore.penaltySum_eq_mul h.penalty_eq, h.length_eq]

end Charges

def NamesSecret (tree : SourceTree) (target value : Node) : Prop :=
  value.kind = "string" ∧ 8 ≤ (tree.stringValue value).length ∧
    ∃ name, tree.Names target name ∧ HardcodedSecret.isSecretName name = true

inductive HoldsSecret (tree : SourceTree) (n : Node) : Prop
  | declared (target value : Node) : n.kind = "variable_declarator" →
      n.child? "name" = some target → n.child? "value" = some value →
      NamesSecret tree target value → HoldsSecret tree n
  | assigned (target value : Node) : n.kind = "assignment_expression" →
      n.child? "left" = some target → n.child? "right" = some value →
      NamesSecret tree target value → HoldsSecret tree n
  | shaped : n.kind = "string" → 20 ≤ (tree.stringValue n).length →
      HardcodedSecret.isKeyShaped (tree.stringValue n) = true → HoldsSecret tree n

namespace HardcodedSecret

variable {tree : SourceTree} {n target value : Node}

theorem assignment?_eq_some_iff :
    assignment? n = some (target, value) ↔
      (n.kind = "variable_declarator" ∧ n.child? "name" = some target ∧
        n.child? "value" = some value) ∨
      (n.kind = "assignment_expression" ∧ n.child? "left" = some target ∧
        n.child? "right" = some value) := by
  rw [assignment?, Kind.declarator]
  by_cases hd : n.kind = "variable_declarator"
  · simp only [hd, beq_self_eq_true, if_true, true_and]
    cases n.child? "name" <;> cases n.child? "value" <;> simp
  · by_cases ha : n.kind = "assignment_expression"
    · have hne : ("assignment_expression" == "variable_declarator") = false := by decide
      simp only [ha, hne, beq_self_eq_true, if_true, Bool.false_eq_true, if_false, true_and]
      cases n.child? "left" <;> cases n.child? "right" <;> simp
    · simp [hd, ha]

theorem isSome_secretName?_iff :
    (secretName? tree n).isSome = true ↔
      ∃ target value, assignment? n = some (target, value) ∧ NamesSecret tree target value := by
  rw [secretName?]
  cases assignment? n with
  | none => simp
  | some parts =>
      obtain ⟨target, value⟩ := parts
      simp only [Option.some.injEq, Prod.mk.injEq]
      rw [Option.isSome_iff_exists]
      simp only [Option.filter_eq_some_iff, SourceTree.calleeName?_eq_some_iff, Option.some.injEq,
        exists_eq_left', Bool.and_eq_true, beq_iff_eq, decide_eq_true_eq]
      constructor
      · rintro ⟨name, hname, ⟨hvalue, hsecret⟩, hlength⟩
        exact ⟨target, value, ⟨rfl, rfl⟩, hvalue, hlength, name, hname, hsecret⟩
      · rintro ⟨_, _, ⟨rfl, rfl⟩, hvalue, hlength, name, hname, hsecret⟩
        exact ⟨name, hname, ⟨hvalue, hsecret⟩, hlength⟩

theorem isKey_iff :
    isKey tree n = true ↔ n.kind = "string" ∧ 20 ≤ (tree.stringValue n).length ∧
      isKeyShaped (tree.stringValue n) = true := by
  simp only [isKey, Bool.and_eq_true, beq_iff_eq, decide_eq_true_eq, and_assoc]
  rfl

theorem isSome_issue?_iff : (issue? tree n).isSome = true ↔ HoldsSecret tree n := by
  have hissue : (issue? tree n).isSome = true ↔
      isKey tree n = true ∨ (secretName? tree n).isSome = true := by
    rw [issue?]
    by_cases hkey : isKey tree n = true
    · simp [hkey]
    · simp [hkey]
  rw [hissue, isKey_iff, isSome_secretName?_iff]
  simp only [assignment?_eq_some_iff]
  constructor
  · rintro (⟨hk, hlength, hshape⟩ | ⟨target, value, ⟨hk, ht, hv⟩ | ⟨hk, ht, hv⟩, hsecret⟩)
    · exact .shaped hk hlength hshape
    · exact .declared target value hk ht hv hsecret
    · exact .assigned target value hk ht hv hsecret
  · rintro (⟨target, value, hk, ht, hv, hsecret⟩ | ⟨target, value, hk, ht, hv, hsecret⟩ |
      ⟨hk, hlength, hshape⟩)
    · exact .inr ⟨target, value, .inl ⟨hk, ht, hv⟩, hsecret⟩
    · exact .inr ⟨target, value, .inr ⟨hk, ht, hv⟩, hsecret⟩
    · exact .inl ⟨hk, hlength, hshape⟩

end HardcodedSecret

namespace Injection

variable {tree : SourceTree} {n : Node} {v : Visit}

def chainText (tree : SourceTree) (n : Node) : Text :=
  Text.joinWith " " (n.operands.filterMap (literal? tree))

def TakesInput (tree : SourceTree) (nodes : List Node) : Prop :=
  ∃ n ∈ nodes, n.id ∈ UserInput.nodes tree

def IsQueryOrMarkup (t : Text) : Prop :=
  isQuery t = true ∨ isMarkup t = true

def Mixes (tree : SourceTree) (n : Node) : Prop :=
  (n.kind = "template_string" ∧ TakesInput tree n.substitutions) ∨
    (n.isSum = true ∧ TakesInput tree n.operands)

/-- User input that is assigned to a part of the document, joined to a query or to markup in the
outermost sum of a chain, or put into the template of one. -/
inductive MixesInput (tree : SourceTree) : Visit → Prop
  | sink {n : Node} {parent : Option Node} (target value : Node) :
      n.kind ∈ ["assignment_expression", "augmented_assignment_expression"] →
      n.child? "left" = some target → n.child? "right" = some value →
      target.kind = "member_expression" → tree.textOf (target.child? "property") ∈ sinks →
      Mixes tree value → MixesInput tree (n, parent)
  | chain {n : Node} {parent : Option Node} : n.isSum = true →
      (∀ p, parent = some p → p.isSum = false) → TakesInput tree n.operands →
      IsQueryOrMarkup (chainText tree n) → MixesInput tree (n, parent)
  | template {n : Node} {parent : Option Node} : n.kind = "template_string" →
      TakesInput tree n.substitutions → IsQueryOrMarkup (tree.templateText n) →
      MixesInput tree (n, parent)

theorem readsInput_iff {nodes : List Node} :
    readsInput (UserInput.nodes tree) nodes = true ↔ TakesInput tree nodes := by
  simp [readsInput, TakesInput]

theorem isMixed_iff : isMixed (UserInput.nodes tree) n = true ↔ Mixes tree n := by
  rw [isMixed, Mixes, Kind.template]
  by_cases hk : n.kind = "template_string"
  · have hsum : n.isSum = false := by simp [Node.isSum, hk, Kind.binary]
    simp [hk, hsum, readsInput_iff]
  · simp [hk, readsInput_iff]

theorem isSome_textIssue?_iff {literal query markup : Text} :
    (textIssue? n literal query markup).isSome = true ↔ IsQueryOrMarkup literal := by
  rw [textIssue?, IsQueryOrMarkup]
  by_cases hquery : isQuery literal = true
  · simp [hquery]
  · by_cases hmarkup : isMarkup literal = true
    · simp [hquery, hmarkup]
    · simp [hquery, hmarkup]

theorem isSome_assignmentIssue?_iff :
    (assignmentIssue? tree (UserInput.nodes tree) n).isSome = true ↔
      ∃ target value, n.child? "left" = some target ∧ n.child? "right" = some value ∧
        target.kind = "member_expression" ∧ tree.textOf (target.child? "property") ∈ sinks ∧
        Mixes tree value := by
  rw [assignmentIssue?]
  cases n.child? "left" with
  | none => simp
  | some target =>
      cases n.child? "right" with
      | none => simp
      | some value =>
          rw [Option.isSome_ite, Bool.and_eq_true, Bool.and_eq_true, beq_iff_eq,
            List.contains_iff_mem, isMixed_iff, and_assoc]
          constructor
          · intro h
            exact ⟨target, value, rfl, rfl, h⟩
          · rintro ⟨_, _, htarget, hvalue, h⟩
            cases htarget
            cases hvalue
            exact h

theorem isSome_sumIssue?_iff {parent : Option Node} :
    (sumIssue? tree (UserInput.nodes tree) n parent).isSome = true ↔
      (∀ p, parent = some p → p.isSum = false) ∧ TakesInput tree n.operands ∧
        IsQueryOrMarkup (chainText tree n) := by
  have houter : parent.any Node.isSum = false ↔ ∀ p, parent = some p → p.isSum = false := by
    cases parent <;> simp
  rw [sumIssue?, ← houter, ← readsInput_iff]
  cases parent.any Node.isSum <;> cases readsInput (UserInput.nodes tree) n.operands <;>
    simp [isSome_textIssue?_iff, chainText]

theorem isSome_templateIssue?_iff :
    (templateIssue? tree (UserInput.nodes tree) n).isSome = true ↔
      TakesInput tree n.substitutions ∧ IsQueryOrMarkup (tree.templateText n) := by
  rw [templateIssue?, ← readsInput_iff]
  cases readsInput (UserInput.nodes tree) n.substitutions <;> simp [isSome_textIssue?_iff]

theorem isSome_issue?_iff :
    (issue? tree (UserInput.nodes tree) v).isSome = true ↔ MixesInput tree v := by
  obtain ⟨n, parent⟩ := v
  rw [issue?, Kind.template]
  by_cases hassign : n.kind ∈ ["assignment_expression", "augmented_assignment_expression"]
  · rw [if_pos (List.contains_iff_mem.mpr hassign), isSome_assignmentIssue?_iff]
    have hsum : n.isSum = false := by
      have hkinds : ∀ k ∈ ["assignment_expression", "augmented_assignment_expression"],
          (k == Kind.binary) = false := by decide
      rw [Node.isSum, hkinds n.kind hassign, Bool.false_and]
    constructor
    · rintro ⟨target, value, htarget, hvalue, hmember, hsink, hmixes⟩
      exact .sink target value hassign htarget hvalue hmember hsink hmixes
    · rintro (⟨target, value, -, htarget, hvalue, hmember, hsink, hmixes⟩ | ⟨hs, -⟩ | ⟨hk, -⟩)
      · exact ⟨target, value, htarget, hvalue, hmember, hsink, hmixes⟩
      · rw [hsum] at hs
        cases hs
      · rw [hk] at hassign
        exact absurd hassign (by decide)
  · rw [if_neg (mt List.contains_iff_mem.mp hassign)]
    by_cases hsum : n.isSum = true
    · rw [if_pos hsum, isSome_sumIssue?_iff]
      constructor
      · rintro ⟨houter, hinput, htext⟩
        exact .chain hsum houter hinput htext
      · rintro (⟨_, _, hk, -⟩ | ⟨-, houter, hinput, htext⟩ | ⟨hk, -⟩)
        · exact absurd hk hassign
        · exact ⟨houter, hinput, htext⟩
        · simp [Node.isSum, hk, Kind.binary] at hsum
    · rw [if_neg hsum]
      by_cases hk : n.kind = "template_string"
      · rw [if_pos (beq_iff_eq.mpr hk), isSome_templateIssue?_iff]
        constructor
        · rintro ⟨hinput, htext⟩
          exact .template hk hinput htext
        · rintro (⟨_, _, hk', -⟩ | ⟨hs, -⟩ | ⟨-, hinput, htext⟩)
          · exact absurd hk' hassign
          · exact absurd hs hsum
          · exact ⟨hinput, htext⟩
      · rw [if_neg (mt beq_iff_eq.mp hk)]
        refine iff_of_false Bool.false_ne_true ?_
        rintro (⟨_, _, hk', -⟩ | ⟨hs, -⟩ | ⟨hk', -⟩)
        · exact hassign hk'
        · exact hsum hs
        · exact hk hk'

end Injection

theorem DynamicCode.charges_check (tree : SourceTree) :
    Charges tree (fun v => RunsText tree v.1) ["eval_usage", "function_constructor"] 8 true
      (check tree) := by
  refine charges_firstPerLine (fun v => isSome_issue?_iff) ?_
  intro v i hi
  rcases issue?_cases hi with ⟨name, rfl | rfl, rfl⟩ | rfl
  · exact ⟨rfl, List.mem_cons_self, rfl, rfl⟩
  · exact ⟨rfl, List.mem_cons_of_mem _ List.mem_cons_self, rfl, rfl⟩
  · exact ⟨rfl, List.mem_cons_of_mem _ List.mem_cons_self, rfl, rfl⟩

theorem ShellCommand.charges_check (tree : SourceTree) :
    Charges tree (fun v => RunsShell tree (.plain tree) v.1) ["child_process_exec"] 6 true
      (check tree) := by
  refine charges_firstPerLine (fun v => isSome_issue?_iff) ?_
  intro v i hi
  obtain ⟨method, rfl⟩ := issue?_cases hi
  exact ⟨rfl, List.mem_cons_self, rfl, rfl⟩

theorem HardcodedSecret.charges_check (tree : SourceTree) :
    Charges tree (fun v => HoldsSecret tree v.1) ["hardcoded_secret"] 5 false (check tree) := by
  refine charges_firstPerLine (fun v => isSome_issue?_iff) ?_
  intro v i hi
  rcases issue?_cases hi with rfl | ⟨name, rfl⟩
  · exact ⟨rfl, List.mem_cons_self, rfl, rfl⟩
  · exact ⟨rfl, List.mem_cons_self, rfl, rfl⟩

theorem Injection.charges_check (tree : SourceTree) :
    Charges tree (MixesInput tree) ["unsanitized_input"] 4 false (check tree) := by
  refine charges_firstPerLine (fun v => isSome_issue?_iff) ?_
  intro v i hi
  obtain ⟨severity, problem, advice, hcritical, rfl⟩ := issue?_cases hi
  refine ⟨rfl, List.mem_cons_self, rfl, ?_⟩
  rw [issue, Issue.isCritical_severe]
  exact beq_eq_false_iff_ne.mpr hcritical

noncomputable def SourceTree.securityPoints (tree : SourceTree) : Int :=
  max 0 (25 - 8 * (tree.offendedLines fun v => RunsText tree v.1).ncard -
    6 * (tree.offendedLines fun v => RunsShell tree (.plain tree) v.1).ncard -
    5 * (tree.offendedLines fun v => HoldsSecret tree v.1).ncard -
    4 * (tree.offendedLines (Injection.MixesInput tree)).ncard)

theorem Engine.left_security (tree : SourceTree) :
    ((CategoryScore.left (security tree)).score.val : Int) = tree.securityPoints := by
  have hsum : CategoryScore.penaltySum (security tree) =
      (tree.offendedLines fun v => RunsText tree v.1).ncard * 8 +
        (tree.offendedLines fun v => RunsShell tree (.plain tree) v.1).ncard * 6 +
        (tree.offendedLines fun v => HoldsSecret tree v.1).ncard * 5 +
        (tree.offendedLines (Injection.MixesInput tree)).ncard * 4 := by
    rw [security, CategoryScore.penaltySum_append, CategoryScore.penaltySum_append,
      CategoryScore.penaltySum_append, (DynamicCode.charges_check tree).penaltySum_eq,
      (ShellCommand.charges_check tree).penaltySum_eq,
      (HardcodedSecret.charges_check tree).penaltySum_eq,
      (Injection.charges_check tree).penaltySum_eq]
  have hleft : (CategoryScore.left (security tree)).score.val =
      25 - CategoryScore.penaltySum (security tree) := rfl
  rw [hleft, hsum, SourceTree.securityPoints]
  omega

/-- The security findings are those of four checks, one after the other. Each check charges the lines
on which its nodes start, each line once, and only the first two are critical; the numbers of these
lines decide how many points are left. -/
theorem Engine.security_chargesLines (tree : SourceTree) :
    ∃ code shell secrets input, standard .security tree = .ok (code ++ shell ++ secrets ++ input) ∧
      Charges tree (fun v => RunsText tree v.1) ["eval_usage", "function_constructor"] 8 true code ∧
      Charges tree (fun v => RunsShell tree (.plain tree) v.1) ["child_process_exec"] 6 true shell ∧
      Charges tree (fun v => HoldsSecret tree v.1) ["hardcoded_secret"] 5 false secrets ∧
      Charges tree (Injection.MixesInput tree) ["unsanitized_input"] 4 false input ∧
      (∃ score, CategoryScore.ofIssues Category.maxScore (code ++ shell ++ secrets ++ input) =
        .valid score ∧ (score.score.val : Int) = tree.securityPoints) ∧
      ∀ filename a, Analysis.ofTree standard filename tree = .ok a →
        (a.security.score.val : Int) = tree.securityPoints := by
  refine ⟨_, _, _, _, rfl, DynamicCode.charges_check tree, ShellCommand.charges_check tree,
    HardcodedSecret.charges_check tree, Injection.charges_check tree,
    ⟨_, CategoryScore.ofIssues_eq _, left_security tree⟩, ?_⟩
  intro filename a ha
  obtain ⟨scores, hscores, rfl⟩ := Analysis.eq_ofScores_of_ofTree ha
  rw [← left_security tree, ← hscores]
  rfl

end ScriptReview
