import ScriptReview.Proofs.Findings.Danger
import ScriptReview.Proofs.Findings.Lines
import ScriptReview.Proofs.Tree.Descent

namespace ScriptReview

namespace Text

def StartsLike (t : Text) (word : String) : Prop :=
  ∃ head rest, t = head ++ rest ∧
    List.Forall₂ (fun c s => Symbol.folds c s = true) word.toList head

theorem isSome_afterFolded?_iff {word : List Char} {t : Text} :
    (afterFolded? word t).isSome = true ↔
      ∃ head rest, t = head ++ rest ∧ List.Forall₂ (fun c s => Symbol.folds c s = true) word head := by
  induction word generalizing t with
  | nil => simp [afterFolded?]
  | cons c word ih =>
      cases t with
      | nil => simp [afterFolded?]
      | cons s t =>
          rw [afterFolded?]
          by_cases hs : s.folds c = true
          · rw [if_pos hs, ih]
            constructor
            · rintro ⟨head, rest, rfl, hall⟩
              exact ⟨s :: head, rest, rfl, .cons hs hall⟩
            · rintro ⟨_, rest, heq, hall⟩
              cases hall with
              | cons _ htail =>
                  obtain ⟨-, rfl⟩ := List.cons.inj heq
                  exact ⟨_, rest, rfl, htail⟩
          · rw [if_neg hs]
            refine iff_of_false nofun ?_
            rintro ⟨_, rest, heq, hall⟩
            cases hall with
            | cons hhead _ =>
                obtain ⟨rfl, -⟩ := List.cons.inj heq
                exact hs hhead

theorem startsFolded_iff {t : Text} {word : String} :
    startsFolded word t = true ↔ t.StartsLike word :=
  isSome_afterFolded?_iff

end Text

namespace RequestInput

inductive Occurs (tree : SourceTree) (n : Node) : Text → Prop
  | short (owner : Node) : n.kind = "member_expression" → n.child? "object" = some owner →
      owner.kind = "identifier" → tree.text owner = Text.ofString "req" →
      tree.textOf (n.child? "property") ∈ (["body", "query", "params"] : List Text) →
      Occurs tree n ("req." ++ tree.textOf (n.child? "property"))
  | long (owner : Node) : n.kind = "member_expression" → n.child? "object" = some owner →
      owner.kind = "identifier" → tree.text owner = Text.ofString "request" →
      tree.textOf (n.child? "property") ≠ [] →
      Occurs tree n ("request." ++ tree.textOf (n.child? "property"))

def NamesValidator (name : Text) : Prop :=
  ∃ word ∈ ["validate", "check", "verify", "sanitize", "parse"], name.StartsLike word

inductive Validation (tree : SourceTree) (p c : Node) : Prop
  | test : p.kind = "if_statement" → c.Fills "condition" p → Validation tree p c
  | operand : p.kind = "unary_expression" → p.operator = "typeof" → Validation tree p c
  | argument (f : Node) (name : Text) : p.kind = "call_expression" → c.Fills "arguments" p →
      p.child? "function" = some f → tree.Names f name → NamesValidator name →
      Validation tree p c

def IsValidated (tree : SourceTree) (path : Text) : Prop :=
  ∃ n edges, tree.root.Descends edges n ∧ Occurs tree n path ∧ ∃ e ∈ edges, Validation tree e.1 e.2

def Unvalidated (tree : SourceTree) (v : Node × List Node.Edge) (i : Issue) : Prop :=
  ∃ path, Occurs tree v.1 path ∧ ¬ IsValidated tree path ∧ i = issue v.1 path

variable {tree : SourceTree} {n p c : Node} {path : Text}

theorem path?_eq_some_iff : path? tree n = some path ↔ Occurs tree n path := by
  have hpath : path? tree n = some path ↔ n.kind = "member_expression" ∧
      ∃ owner, n.child? "object" = some owner ∧ owner.kind = "identifier" ∧
        (tree.text owner = Text.ofString "req" ∧
            tree.textOf (n.child? "property") ∈ requestProperties.map Text.ofString ∨
          tree.text owner = Text.ofString "request" ∧ tree.textOf (n.child? "property") ≠ []) ∧
        tree.text owner ++ "." ++ tree.textOf (n.child? "property") = path := by
    rw [path?, Option.ite_none_right_eq_some, beq_iff_eq]
    refine and_congr_right fun _ => ?_
    cases n.child? "object" with
    | none => simp
    | some owner =>
        simp only [Option.ite_none_left_eq_some, Option.ite_none_right_eq_some, Bool.not_eq_true',
          Bool.not_eq_false, Node.isIdentifier_iff, Bool.or_eq_true, Bool.and_eq_true, beq_iff_eq,
          List.contains_iff_mem, List.isEmpty_eq_false_iff, Option.some.injEq, exists_eq_left']
  rw [hpath]
  constructor
  · rintro ⟨hkind, owner, howner, hident, ⟨hreq, hproperty⟩ | ⟨hrequest, hproperty⟩, rfl⟩
    · rw [hreq]
      exact .short owner hkind howner hident hreq hproperty
    · rw [hrequest]
      exact .long owner hkind howner hident hrequest hproperty
  · rintro (⟨owner, hkind, howner, hident, hreq, hproperty⟩ |
      ⟨owner, hkind, howner, hident, hrequest, hproperty⟩)
    · exact ⟨hkind, owner, howner, hident, .inl ⟨hreq, hproperty⟩, by rw [hreq]; rfl⟩
    · exact ⟨hkind, owner, howner, hident, .inr ⟨hrequest, hproperty⟩, by rw [hrequest]; rfl⟩

theorem isValidator_iff {name : Text} : isValidator name = true ↔ NamesValidator name := by
  rw [isValidator, List.any_eq_true, NamesValidator]
  simp only [validators, Text.startsFolded_iff]

theorem validates_iff : validates tree p c = true ↔ Validation tree p c := by
  rw [validates]
  by_cases hif : p.kind = "if_statement"
  · rw [if_pos (beq_iff_eq.mpr hif), Node.isSame_child?_iff]
    constructor
    · exact .test hif
    · rintro (⟨-, hc⟩ | ⟨hk, -⟩ | ⟨-, -, hk, -⟩)
      · exact hc
      · exact absurd (hif.symm.trans hk) (by decide)
      · exact absurd (hif.symm.trans hk) (by decide)
  · rw [if_neg (by simpa using hif)]
    by_cases hunary : p.kind = "unary_expression"
    · rw [if_pos (beq_iff_eq.mpr hunary), beq_iff_eq]
      constructor
      · exact .operand hunary
      · rintro (⟨hk, -⟩ | ⟨-, ho⟩ | ⟨-, -, hk, -⟩)
        · exact absurd hk hif
        · exact ho
        · exact absurd (hunary.symm.trans hk) (by decide)
    · rw [if_neg (by simpa using hunary), Bool.if_false_right, Bool.and_eq_true, decide_eq_true_iff,
        Bool.and_eq_true, beq_iff_eq, Node.isSame_child?_iff, Option.any_eq_true]
      simp only [SourceTree.calleeName?_eq_some_iff, isValidator_iff]
      constructor
      · rintro ⟨⟨hk, hc⟩, name, ⟨f, hf, hname⟩, hvalidator⟩
        exact .argument f name hk hc hf hname hvalidator
      · rintro (⟨hk, -⟩ | ⟨hk, -⟩ | ⟨f, name, hk, hc, hf, hname, hvalidator⟩)
        · exact absurd hk hif
        · exact absurd hk hunary
        · exact ⟨⟨hk, hc⟩, name, ⟨f, hf, hname⟩, hvalidator⟩

/-- A node is visited as validated exactly if one of the edges that lead to it validates. -/
theorem carried_validationStep_iff (edges : List Node.Edge) :
    Node.carried (validationStep tree) false edges = true ↔
      ∃ e ∈ edges, Validation tree e.1 e.2 := by
  have hstep (p c : Node) (inside : Bool) :
      validationStep tree p c inside = (inside || validates tree p c) := rfl
  have hcarried := Node.carried_eq_true_iff hstep edges
  simpa only [validates_iff] using hcarried

theorem occurrences_eq (tree : SourceTree) :
    occurrences tree = tree.root.descents.filterMap fun v =>
      (path? tree v.1).map fun path =>
        (v.1, path, Node.carried (validationStep tree) false v.2) := by
  rw [occurrences, Node.walkWith_eq_map_descents, List.filterMap_map]
  rfl

def validatedPaths (tree : SourceTree) : List Text :=
  ((occurrences tree).filter (·.2.2)).map (·.2.1)

theorem mem_validatedPaths_iff : path ∈ validatedPaths tree ↔ IsValidated tree path := by
  rw [validatedPaths, occurrences_eq]
  simp only [List.mem_map, List.mem_filter, List.mem_filterMap]
  constructor
  · rintro ⟨o, ⟨⟨v, hv, ho⟩, hvalidated⟩, rfl⟩
    obtain ⟨path, hpath, rfl⟩ := Option.map_eq_some_iff.mp ho
    exact ⟨v.1, v.2, Node.mem_descents_iff.mp hv, path?_eq_some_iff.mp hpath,
      (carried_validationStep_iff v.2).mp hvalidated⟩
  · rintro ⟨n, edges, hdown, hoccurs, hvalidated⟩
    refine ⟨(n, path, true), ⟨⟨(n, edges), Node.mem_descents_iff.mpr hdown, ?_⟩, rfl⟩, rfl⟩
    simp [path?_eq_some_iff.mpr hoccurs, (carried_validationStep_iff edges).mpr hvalidated]

def found? (tree : SourceTree) (n : Node) : Option Issue :=
  ((path? tree n).filter fun path => !(validatedPaths tree).contains path).map (issue n)

theorem found?_eq_some_iff {v : Node × List Node.Edge} {i : Issue} :
    found? tree v.1 = some i ↔ Unvalidated tree v i := by
  simp only [found?, Unvalidated, Option.map_eq_some_iff, Option.filter_eq_some_iff,
    path?_eq_some_iff, Bool.not_eq_true', List.contains_eq_mem, decide_eq_false_iff_not,
    mem_validatedPaths_iff]
  constructor
  · rintro ⟨path, ⟨hoccurs, hfree⟩, rfl⟩
    exact ⟨path, hoccurs, hfree, rfl⟩
  · rintro ⟨path, hoccurs, hfree, rfl⟩
    exact ⟨path, ⟨hoccurs, hfree⟩, rfl⟩

theorem check_eq (tree : SourceTree) :
    check tree = Issue.firstPerLine (tree.root.descents.filterMap fun v => found? tree v.1) := by
  have hcheck : check tree = Issue.firstPerLine
      (((occurrences tree).filter fun o => !(validatedPaths tree).contains o.2.1).map
        fun o => issue o.1 o.2.1) := rfl
  rw [hcheck, occurrences_eq, List.filter_filterMap, List.map_filterMap]
  congr 1
  apply List.filterMap_congr
  intro v _
  rw [found?]
  cases path? tree v.1 with
  | none => rfl
  | some path => by_cases hmem : path ∈ validatedPaths tree <;> simp [Option.filter, hmem]

end RequestInput

end ScriptReview
