import ScriptReview.Engine
import ScriptReview.Proofs.Findings.Complexity

namespace ScriptReview

namespace Issue

theorem firstPerLineFrom_sublist (seen : List (Option Int)) (issues : List Issue) :
    (firstPerLineFrom seen issues).Sublist issues := by
  induction issues generalizing seen with
  | nil => simp [firstPerLineFrom]
  | cons i issues ih =>
      rw [firstPerLineFrom]
      split
      · exact (ih seen).cons i
      · exact (ih (i.line :: seen)).cons_cons i

theorem mem_of_mem_firstPerLine {i : Issue} {issues : List Issue} (h : i ∈ firstPerLine issues) :
    i ∈ issues :=
  (firstPerLineFrom_sublist [] issues).subset h

theorem firstPerLine_eq_nil_iff {issues : List Issue} : firstPerLine issues = [] ↔ issues = [] := by
  cases issues with
  | nil => simp [firstPerLine, firstPerLineFrom]
  | cons i issues => simp [firstPerLine, firstPerLineFrom]

theorem mem_lines_firstPerLineFrom {seen : List (Option Int)} {issues : List Issue}
    {l : Option Int} :
    l ∈ (firstPerLineFrom seen issues).map line ↔ l ∈ issues.map line ∧ l ∉ seen := by
  induction issues generalizing seen with
  | nil => simp [firstPerLineFrom]
  | cons i issues ih =>
      rw [firstPerLineFrom]
      by_cases hi : i.line ∈ seen
      · rw [if_pos (by simpa using hi), ih, List.map_cons, List.mem_cons]
        constructor
        · rintro ⟨hl, hseen⟩
          exact ⟨.inr hl, hseen⟩
        · rintro ⟨rfl | hl, hseen⟩
          · exact absurd hi hseen
          · exact ⟨hl, hseen⟩
      · rw [if_neg (by simpa using hi), List.map_cons, List.mem_cons, ih, List.map_cons,
          List.mem_cons, List.mem_cons]
        by_cases hl : l = i.line
        · simp [hl, hi]
        · simp [hl]

theorem nodup_lines_firstPerLineFrom (seen : List (Option Int)) (issues : List Issue) :
    ((firstPerLineFrom seen issues).map line).Nodup := by
  induction issues generalizing seen with
  | nil => exact List.nodup_nil
  | cons i issues ih =>
      rw [firstPerLineFrom]
      split
      · exact ih seen
      · rw [List.map_cons, List.nodup_cons, mem_lines_firstPerLineFrom]
        exact ⟨fun h => h.2 List.mem_cons_self, ih _⟩

structure IsProper (i : Issue) : Prop where
  penalty_pos : 0 < i.penalty
  filename_eq : i.filename = none

theorem isProper_plain (rule : String) {penalty : Nat} (line : Nat) (comment : Text)
    (h : 0 < penalty) : (plain rule penalty line comment).IsProper :=
  ⟨h, rfl⟩

theorem isProper_severe (rule : String) {penalty : Nat} (severity : Severity) (line : Nat)
    (comment : Text) (h : 0 < penalty) : (severe rule penalty severity line comment).IsProper :=
  ⟨h, rfl⟩

theorem isCritical_severe (rule : String) (penalty : Nat) (severity : Severity) (line : Nat)
    (comment : Text) :
    (severe rule penalty severity line comment).isCritical = (severity == .critical) := by
  cases severity <;> rfl

end Issue

theorem exists_of_mem_filterMap_walk {tree : SourceTree} {f : Node → Option Issue} {i : Issue}
    (h : i ∈ Issue.firstPerLine (tree.walk.filterMap fun v => f v.1)) :
    ∃ n, tree.root.Reaches n ∧ f n = some i := by
  obtain ⟨v, hv, hi⟩ := List.mem_filterMap.mp (Issue.mem_of_mem_firstPerLine h)
  exact ⟨v.1, Node.exists_mem_walk_iff.mp ⟨v.2, hv⟩, hi⟩

/-- A check that lists what it finds at each node lists nothing exactly if it finds nothing. -/
theorem firstPerLine_filterMap_walk_ne_nil_iff {tree : SourceTree} {f : Node → Option Issue} :
    Issue.firstPerLine (tree.walk.filterMap fun v => f v.1) ≠ [] ↔
      ∃ n, tree.root.Reaches n ∧ (f n).isSome = true := by
  rw [Ne, Issue.firstPerLine_eq_nil_iff, List.filterMap_eq_nil_iff]
  push Not
  constructor
  · rintro ⟨v, hv, hf⟩
    exact ⟨v.1, Node.exists_mem_walk_iff.mp ⟨v.2, hv⟩, Option.isSome_iff_ne_none.mpr hf⟩
  · rintro ⟨n, hn, hf⟩
    obtain ⟨p, hp⟩ := Node.exists_mem_walk_iff.mpr hn
    exact ⟨(n, p), hp, Option.isSome_iff_ne_none.mp hf⟩

theorem DynamicCode.issue?_cases {tree : SourceTree} {n : Node} {i : Issue}
    (h : issue? tree n = some i) :
    (∃ name, (name = Text.ofString "eval" ∨ name = Text.ofString "Function") ∧
      i = callIssue n name) ∨ i = constructorIssue n := by
  rw [issue?] at h
  split at h
  · obtain ⟨name, hname, rfl⟩ := Option.map_eq_some_iff.mp h
    refine Or.inl ⟨name, ?_, rfl⟩
    simpa using (Option.filter_eq_some_iff.mp hname).2
  · split at h
    · split at h
      · exact Or.inr (Option.some.inj h).symm
      · simp at h
    · simp at h

theorem ShellCommand.issue?_cases {tree : SourceTree} {b : Bindings} {n : Node} {i : Issue}
    (h : issue? tree b n = some i) : ∃ method, i = issue n method := by
  rw [issue?] at h
  split at h
  · obtain ⟨method, _, rfl⟩ := Option.map_eq_some_iff.mp h
    exact ⟨method, rfl⟩
  · simp at h

theorem HardcodedSecret.issue?_cases {tree : SourceTree} {n : Node} {i : Issue}
    (h : issue? tree n = some i) : i = keyIssue n ∨ ∃ name, i = nameIssue n name := by
  rw [issue?] at h
  split at h
  · exact Or.inl (Option.some.inj h).symm
  · obtain ⟨name, _, rfl⟩ := Option.map_eq_some_iff.mp h
    exact Or.inr ⟨name, rfl⟩

namespace Injection

inductive Wording : Severity → Text → Text → Prop where
  | assigned {sink : Text} (h : sink ∈ sinks) :
      Wording .high ("Potential XSS: user input assigned to " ++ sink)
        "Sanitize output before writing to the DOM."
  | query {place : Text}
      (h : place ∈ (["concatenated with SQL", "interpolated in template"] : List Text)) :
      Wording .high ("Potential SQL injection: user input " ++ place) "Use parameterized queries."
  | markup {place : Text}
      (h : place ∈ (["concatenated with HTML", "interpolated in HTML template"] : List Text)) :
      Wording .medium ("Potential XSS: user input " ++ place) "Sanitize output."

theorem textIssue?_wording {n : Node} {literal query markup : Text} {i : Issue}
    (hquery : query ∈ (["concatenated with SQL", "interpolated in template"] : List Text))
    (hmarkup : markup ∈ (["concatenated with HTML", "interpolated in HTML template"] : List Text))
    (h : textIssue? n literal query markup = some i) :
    ∃ severity problem advice, Wording severity problem advice ∧
      i = issue n severity problem advice := by
  rw [textIssue?] at h
  split at h
  · exact ⟨_, _, _, .query hquery, (Option.some.inj h).symm⟩
  · split at h
    · exact ⟨_, _, _, .markup hmarkup, (Option.some.inj h).symm⟩
    · simp at h

theorem issue?_wording {tree : SourceTree} {input : List Nat} {v : Node × Option Node} {i : Issue}
    (h : issue? tree input v = some i) :
    ∃ severity problem advice, Wording severity problem advice ∧
      i = issue v.1 severity problem advice := by
  rw [issue?] at h
  split at h
  · rw [assignmentIssue?] at h
    split at h
    · dsimp only at h
      split at h
      · rename_i hsink
        simp only [Bool.and_eq_true, List.contains_iff_mem] at hsink
        exact ⟨_, _, _, .assigned hsink.1.2, (Option.some.inj h).symm⟩
      · simp at h
    · simp at h
  · split at h
    · rw [sumIssue?] at h
      split at h
      · simp at h
      · exact textIssue?_wording (by simp) (by simp) h
    · split at h
      · rw [templateIssue?] at h
        split at h
        · exact textIssue?_wording (by simp) (by simp) h
        · simp at h
      · simp at h

theorem issue?_cases {tree : SourceTree} {input : List Nat} {v : Node × Option Node} {i : Issue}
    (h : issue? tree input v = some i) :
    ∃ severity problem advice, severity ≠ .critical ∧ i = issue v.1 severity problem advice := by
  obtain ⟨severity, problem, advice, hw, rfl⟩ := issue?_wording h
  exact ⟨severity, problem, advice, by cases hw <;> simp, rfl⟩

end Injection

theorem ArrayAccess.exists_of_mem_check {tree : SourceTree} {i : Issue} (h : i ∈ check tree) :
    ∃ n name, accessedName? tree n = some name ∧ i = issue n name := by
  obtain ⟨v, -, hv⟩ := List.mem_filterMap.mp (Issue.mem_of_mem_firstPerLine h)
  split at hv
  · rename_i name hname
    split at hv
    · cases hv
    · cases hv
      exact ⟨v.1, name, hname, rfl⟩
  · cases hv

namespace Engine

/-- The critical issues are those of code built from text and of shell commands. -/
theorem filter_isCritical_security (tree : SourceTree) :
    (security tree).filter Issue.isCritical =
      DynamicCode.check tree ++ ShellCommand.check tree := by
  have hcode : ∀ i ∈ DynamicCode.check tree, i.isCritical = true := by
    intro i hi
    obtain ⟨n, _, hn⟩ := exists_of_mem_filterMap_walk hi
    rcases DynamicCode.issue?_cases hn with ⟨name, _, rfl⟩ | rfl <;> rfl
  have hshell : ∀ i ∈ ShellCommand.check tree, i.isCritical = true := by
    intro i hi
    obtain ⟨n, _, hn⟩ := exists_of_mem_filterMap_walk hi
    obtain ⟨method, rfl⟩ := ShellCommand.issue?_cases hn
    rfl
  have hsecret : ∀ i ∈ HardcodedSecret.check tree, ¬ i.isCritical = true := by
    intro i hi
    obtain ⟨n, _, hn⟩ := exists_of_mem_filterMap_walk hi
    rcases HardcodedSecret.issue?_cases hn with rfl | ⟨name, rfl⟩ <;>
      simp [Issue.isCritical_severe, HardcodedSecret.keyIssue, HardcodedSecret.nameIssue]
  have hinput : ∀ i ∈ Injection.check tree, ¬ i.isCritical = true := by
    intro i hi
    obtain ⟨v, _, hv⟩ := List.mem_filterMap.mp (Issue.mem_of_mem_firstPerLine hi)
    obtain ⟨severity, problem, advice, hs, rfl⟩ := Injection.issue?_cases hv
    simpa [Issue.isCritical_severe, Injection.issue] using hs
  rw [security, List.filter_append, List.filter_append, List.filter_append,
    List.filter_eq_self.mpr hcode, List.filter_eq_self.mpr hshell,
    List.filter_eq_nil_iff.mpr hsecret, List.filter_eq_nil_iff.mpr hinput]
  simp

theorem isProper_security {tree : SourceTree} {i : Issue} (h : i ∈ security tree) : i.IsProper := by
  simp only [security, List.mem_append] at h
  rcases h with ((h | h) | h) | h
  · obtain ⟨n, _, hn⟩ := exists_of_mem_filterMap_walk h
    rcases DynamicCode.issue?_cases hn with ⟨name, _, rfl⟩ | rfl
    · exact Issue.isProper_severe _ _ _ _ (by decide)
    · exact Issue.isProper_severe _ _ _ _ (by decide)
  · obtain ⟨n, _, hn⟩ := exists_of_mem_filterMap_walk h
    obtain ⟨method, rfl⟩ := ShellCommand.issue?_cases hn
    exact Issue.isProper_severe _ _ _ _ (by decide)
  · obtain ⟨n, _, hn⟩ := exists_of_mem_filterMap_walk h
    rcases HardcodedSecret.issue?_cases hn with rfl | ⟨name, rfl⟩
    · exact Issue.isProper_severe _ _ _ _ (by decide)
    · exact Issue.isProper_severe _ _ _ _ (by decide)
  · obtain ⟨v, _, hv⟩ := List.mem_filterMap.mp (Issue.mem_of_mem_firstPerLine h)
    obtain ⟨severity, problem, advice, _, rfl⟩ := Injection.issue?_cases hv
    exact Issue.isProper_severe _ _ _ _ (by decide)

theorem isProper_edgeCases {tree : SourceTree} {i : Issue} (h : i ∈ edgeCases tree) :
    i.IsProper := by
  simp only [edgeCases, List.mem_append] at h
  rcases h with (h | h) | h
  · obtain ⟨v, _, rfl⟩ := List.mem_map.mp h
    exact Issue.isProper_plain _ _ _ (by decide)
  · obtain ⟨n, name, -, rfl⟩ := ArrayAccess.exists_of_mem_check h
    exact Issue.isProper_plain _ _ _ (by decide)
  · obtain ⟨o, _, rfl⟩ := List.mem_map.mp (Issue.mem_of_mem_firstPerLine h)
    exact Issue.isProper_plain _ _ _ (by decide)

theorem isProper_functionSize {tree : SourceTree} {n : Node} {parent : Option Node} {i : Issue}
    (h : i ∈ FunctionSize.check tree n parent) : i.IsProper := by
  simp only [FunctionSize.check, FunctionSize.longFunction, FunctionSize.manyStatements,
    List.mem_append] at h
  rcases h with h | h
  · split at h
    · rw [List.mem_singleton.mp h]
      exact Issue.isProper_plain _ _ _ (by decide)
    · simp at h
  · split at h
    · simp at h
    · split at h
      · rw [List.mem_singleton.mp h]
        exact Issue.isProper_plain _ _ _ (by decide)
      · simp at h

theorem isProper_naming {tree : SourceTree} {n parent : Node} {i : Issue}
    (h : i ∈ Naming.check tree n parent) : i.IsProper := by
  unfold Naming.check at h
  dsimp only at h
  split at h
  · simp at h
  · rw [List.mem_singleton.mp h]
    exact Issue.isProper_plain _ _ _ (by decide)

theorem isProper_readability {tree : SourceTree} {i : Issue} (h : i ∈ readability tree) :
    i.IsProper := by
  simp only [readability, List.mem_append, List.mem_flatMap] at h
  rcases h with ⟨v, _, h⟩ | h
  · split at h
    · exact isProper_functionSize h
    · split at h
      · obtain ⟨parent, _, h⟩ := List.mem_flatMap.mp h
        exact isProper_naming h
      · simp at h
  · obtain ⟨v, _, rfl⟩ := List.mem_map.mp (Issue.mem_of_mem_firstPerLine h)
    exact Issue.isProper_plain _ _ _ (by decide)

theorem isProper_complexity {tree : SourceTree} {i : Issue} (h : i ∈ Branching.findings tree) :
    i.IsProper := by
  rw [Branching.findings] at h
  split at h
  · unfold Branching.globalIssue at h
    dsimp only at h
    split at h
    · simp at h
    · rename_i hp
      rw [List.mem_singleton.mp h]
      exact Issue.isProper_plain _ _ _ (Nat.pos_of_ne_zero hp)
  · obtain ⟨v, _, h⟩ := List.mem_flatMap.mp h
    rw [Branching.complexityIssue] at h
    split at h
    · simp at h
    · rename_i hp
      rw [List.mem_singleton.mp h]
      exact Issue.isProper_plain _ _ _ (Nat.pos_of_ne_zero hp)

def found (tree : SourceTree) : Category → List Issue
  | .readability => readability tree
  | .complexity => Branching.findings tree
  | .edgeCases => edgeCases tree
  | .security => security tree

theorem standard_eq_ok {tree : SourceTree} (h : tree.root.DistinctIds) (c : Category) :
    standard c tree = .ok (found tree c) := by
  cases c with
  | complexity => exact Branching.check_eq_ok h
  | readability | edgeCases | security => rfl

theorem isProper_of_mem_found {tree : SourceTree} {c : Category} {i : Issue}
    (h : i ∈ found tree c) : i.IsProper := by
  cases c with
  | readability => exact isProper_readability h
  | complexity => exact isProper_complexity h
  | edgeCases => exact isProper_edgeCases h
  | security => exact isProper_security h

end Engine

end ScriptReview
