import ScriptReview.Proofs.Findings.Danger
import ScriptReview.Proofs.Findings.Lines
import ScriptReview.Proofs.Reports
import ScriptReview.Proofs.Tree.Descent
import ScriptReview.Proofs.Trivia.Bare

namespace ScriptReview

def SourceTree.IsNothing (tree : SourceTree) (n : Node) : Prop :=
  n.kind = "null" ∨ n.kind = "undefined" ∨
    (n.kind = "identifier" ∧ tree.text n = Text.ofString "undefined")

theorem SourceTree.isNullish_iff {tree : SourceTree} {n : Node} :
    tree.isNullish n = true ↔ tree.IsNothing n := by
  simp only [isNullish, Bool.or_eq_true, Bool.and_eq_true, beq_iff_eq, Node.isIdentifier_iff,
    IsNothing, or_assoc]

namespace ArrayAccess

def IsArrayTest (tree : SourceTree) (callee : Node) : Prop :=
  callee.kind = "member_expression" ∧
    (∃ owner, callee.child? "object" = some owner ∧ owner.kind = "identifier" ∧
      tree.text owner = Text.ofString "Array") ∧
    tree.textOf (callee.child? "property") = Text.ofString "isArray"

inductive Checks (tree : SourceTree) (n : Node) (name : Text) : Prop
  | length (target : Node) : n.kind = "member_expression" → n.child? "object" = some target →
      target.kind = "identifier" → tree.text target = name →
      tree.textOf (n.child? "property") = Text.ofString "length" → Checks tree n name
  | test (callee argument : Node) : n.kind = "call_expression" →
      n.child? "function" = some callee → IsArrayTest tree callee →
      n.firstArgument? = some argument → argument.kind = "identifier" →
      tree.text argument = name → Checks tree n name
  | comparison (side other : Node) : n.kind = "binary_expression" →
      n.operator ∈ ["==", "===", "!=", "!=="] →
      (n.child? "left" = some side ∧ n.child? "right" = some other ∨
        n.child? "left" = some other ∧ n.child? "right" = some side) →
      side.kind = "identifier" → tree.text side = name → tree.IsNothing other →
      Checks tree n name

def OpensCondition (p c : Node) : Prop :=
  (p.kind ∈ ["if_statement", "while_statement", "do_statement", "ternary_expression"] ∧
    c.Fills "condition" p) ∨
  (p.kind = "binary_expression" ∧ p.operator ∈ ["&&", "||", "??"])

/-- The way leads into a condition and then through no function: the nodes between the condition and
the end of the way are where its later edges start. -/
def InCondition (edges : List Node.Edge) : Prop :=
  ∃ later p c earlier, edges = later ++ (p, c) :: earlier ∧ OpensCondition p c ∧
    ∀ e ∈ later, e.1.isFunction = false

def Shelters (p c : Node) : Prop :=
  p.kind ∈ ["for_statement", "for_in_statement"] ∨
  (p.kind ∈ ["member_expression", "subscript_expression", "call_expression"] ∧
    p.hasOptionalChain = true ∧
    (c.Fills "object" p ∨ (p.child? "object" = none ∧ c.Fills "function" p)))

def Accesses (tree : SourceTree) (n : Node) (name : Text) : Prop :=
  n.kind = "subscript_expression" ∧ n.hasOptionalChain = false ∧
    ∃ target, n.child? "object" = some target ∧ target.kind = "identifier" ∧
      tree.text target = name

def IsChecked (tree : SourceTree) (name : Text) : Prop :=
  ∃ n edges, tree.root.Descends edges n ∧ InCondition edges ∧ Checks tree n name

def IsPlainlyChecked (tree : SourceTree) (name : Text) : Prop :=
  ∃ n edges, tree.root.Descends edges n ∧ InCondition edges ∧ Checks tree n name ∧
    ¬ n.HidesArgument

def Unchecked (tree : SourceTree) (checked : Text → Prop) (v : Node × List Node.Edge) (i : Issue) :
    Prop :=
  ∃ name, Accesses tree v.1 name ∧ ¬ checked name ∧ (¬ ∃ e ∈ v.2, Shelters e.1 e.2) ∧
    i = issue v.1 name

variable {tree : SourceTree} {n p c : Node} {name : Text}

theorem OpensCondition.isFunction_eq_false (h : OpensCondition p c) : p.isFunction = false := by
  have hkinds : ∀ k ∈ ["if_statement", "while_statement", "do_statement", "ternary_expression",
      "binary_expression"], Kind.functions.contains k = false := by decide
  rcases h with ⟨hk, -⟩ | ⟨hk, -⟩
  · exact hkinds p.kind (List.mem_append_left ["binary_expression"] hk)
  · exact hkinds p.kind (by simp [hk])

theorem conditionStep_iff {inside : Bool} :
    conditionStep p c inside = true ↔
      OpensCondition p c ∨ p.isFunction = false ∧ inside = true := by
  have hopens : OpensCondition p c ↔
      (p.hasKind Kind.conditions && c.isSame (p.child? "condition")) = true ∨
        p.isLogical = true := by
    simp only [Bool.and_eq_true, Node.isSame_child?_iff, Node.hasKind, List.contains_iff_mem,
      Node.isLogical, beq_iff_eq]
    rfl
  rw [conditionStep]
  split_ifs with hf hcondition hlogical
  · refine iff_of_false not_false ?_
    rintro (h | ⟨h, -⟩)
    · rw [h.isFunction_eq_false] at hf
      cases hf
    · rw [h] at hf
      cases hf
  · exact iff_of_true rfl (.inl (hopens.mpr (.inl hcondition)))
  · exact iff_of_true rfl (.inl (hopens.mpr (.inr hlogical)))
  · rw [Bool.not_eq_true] at hf
    simp [hopens, hcondition, hlogical, hf]

theorem inCondition_cons {e : Node.Edge} {edges : List Node.Edge} :
    InCondition (e :: edges) ↔
      OpensCondition e.1 e.2 ∨ e.1.isFunction = false ∧ InCondition edges := by
  constructor
  · rintro ⟨later, p, c, earlier, heq, hopens, hlater⟩
    rcases List.cons_eq_append_iff.mp heq with ⟨rfl, h⟩ | ⟨rest, rfl, rfl⟩
    · cases h
      exact .inl hopens
    · rw [List.forall_mem_cons] at hlater
      exact .inr ⟨hlater.1, rest, p, c, earlier, rfl, hopens, hlater.2⟩
  · rintro (hopens | ⟨hf, later, p, c, earlier, rfl, hopens, hlater⟩)
    · exact ⟨[], e.1, e.2, edges, rfl, hopens, List.forall_mem_nil _⟩
    · exact ⟨e :: later, p, c, earlier, rfl, hopens, List.forall_mem_cons.mpr ⟨hf, hlater⟩⟩

/-- A node is visited as part of a condition exactly if the way to it leads there. -/
theorem carried_conditionStep_iff (edges : List Node.Edge) :
    Node.carried conditionStep false edges = true ↔ InCondition edges := by
  induction edges with
  | nil => simp [Node.carried, InCondition]
  | cons e edges ih => rw [inCondition_cons, ← ih]; exact conditionStep_iff

def shelters (p c : Node) : Bool :=
  p.hasKind Kind.loops || (p.hasKind chainKinds && p.hasOptionalChain &&
    c.isSame ((p.child? "object").or (p.child? "function")))

theorem shelters_iff : shelters p c = true ↔ Shelters p c := by
  have hsame : c.isSame ((p.child? "object").or (p.child? "function")) = true ↔
      c.Fills "object" p ∨ (p.child? "object" = none ∧ c.Fills "function" p) := by
    rw [← Node.isSame_child?_iff, ← Node.isSame_child?_iff]
    cases p.child? "object" <;> simp [Node.isSame]
  simp only [shelters, Bool.or_eq_true, Bool.and_eq_true, hsame, Node.hasKind,
    List.contains_iff_mem, and_assoc]
  rfl

/-- An access is visited as safe exactly if one of the edges that lead to it shelters it. -/
theorem carried_exemptStep_iff (edges : List Node.Edge) :
    Node.carried exemptStep false edges = true ↔ ∃ e ∈ edges, Shelters e.1 e.2 := by
  have hstep (p c : Node) (inside : Bool) : exemptStep p c inside = (inside || shelters p c) := by
    rw [exemptStep, shelters]
    cases inside <;> cases p.hasKind Kind.loops <;>
      cases p.hasKind chainKinds && p.hasOptionalChain <;> simp
  have hcarried := Node.carried_eq_true_iff hstep edges
  simpa only [shelters_iff] using hcarried

theorem lengthOf?_eq_some_iff :
    lengthOf? tree n = some name ↔
      ∃ target, n.child? "object" = some target ∧ target.kind = "identifier" ∧
        tree.text target = name ∧ tree.textOf (n.child? "property") = Text.ofString "length" := by
  rw [lengthOf?]
  cases n.child? "object" with
  | none => simp
  | some target =>
      simp only [Option.ite_none_right_eq_some, Bool.and_eq_true, Node.isIdentifier_iff,
        beq_iff_eq, Option.some.injEq, exists_eq_left']
      tauto

theorem isArrayTest_iff {callee : Node} :
    isArrayTest tree callee = true ↔ IsArrayTest tree callee := by
  simp only [isArrayTest, IsArrayTest, Bool.and_eq_true, beq_iff_eq, Option.any_eq_true,
    Node.isIdentifier_iff, Kind.member, and_assoc]

theorem testedArray?_eq_some_iff (hcall : n.kind = "call_expression") :
    testedArray? tree n = some name ↔
      (∃ callee argument, n.child? "function" = some callee ∧ IsArrayTest tree callee ∧
        n.firstArgument? = some argument ∧ argument.kind = "identifier" ∧
        tree.text argument = name) ∧ ¬ n.HidesArgument := by
  have hfirst : testedArray? tree n = some name ↔
      (n.child? "function").any (isArrayTest tree) = true ∧
        ∃ argument, (n.child? "arguments").bind (·.namedChildren.head?) = some argument ∧
          argument.kind = "identifier" ∧ tree.text argument = name := by
    rw [testedArray?, Option.ite_none_right_eq_some]
    refine and_congr_right fun _ => ?_
    cases (n.child? "arguments").bind (·.namedChildren.head?) with
    | none => simp
    | some first => simp [Node.isIdentifier_iff]
  rw [hfirst, Option.any_eq_true]
  simp only [isArrayTest_iff]
  constructor
  · rintro ⟨⟨callee, hcallee, htest⟩, argument, hhead, hident, hname⟩
    have hcomment : argument.kind ≠ "comment" := by simp [hident]
    obtain ⟨hargument, hshown⟩ := (Node.head?_arguments_eq_some_iff hcall hcomment).mp hhead
    exact ⟨⟨callee, argument, hcallee, htest, hargument, hident, hname⟩, hshown⟩
  · rintro ⟨⟨callee, argument, hcallee, htest, hargument, hident, hname⟩, hshown⟩
    have hcomment : argument.kind ≠ "comment" := by simp [hident]
    exact ⟨⟨callee, hcallee, htest⟩, argument,
      (Node.head?_arguments_eq_some_iff hcall hcomment).mpr ⟨hargument, hshown⟩, hident, hname⟩

theorem text_eq_of_isNothing (hident : n.kind = "identifier") (hnothing : tree.IsNothing n) :
    tree.text n = Text.ofString "undefined" := by
  rcases hnothing with hk | hk | ⟨-, htext⟩
  · exact absurd (hident.symm.trans hk) (by decide)
  · exact absurd (hident.symm.trans hk) (by decide)
  · exact htext

theorem comparedToNothing?_eq_some_iff :
    comparedToNothing? tree n = some name ↔
      ∃ side other, (n.child? "left" = some side ∧ n.child? "right" = some other ∨
          n.child? "left" = some other ∧ n.child? "right" = some side) ∧
        side.kind = "identifier" ∧ tree.text side = name ∧ tree.IsNothing other := by
  rw [comparedToNothing?]
  cases n.child? "left" with
  | none => simp
  | some left =>
    cases n.child? "right" with
    | none => simp
    | some right =>
        have hheld (a b : Node) : (a.isIdentifier && tree.isNullish b) = true ↔
            a.kind = "identifier" ∧ tree.IsNothing b := by
          rw [Bool.and_eq_true, Node.isIdentifier_iff, SourceTree.isNullish_iff]
        simp only [Option.some.injEq]
        split_ifs with hleft hright
        · rw [hheld] at hleft
          constructor
          · intro h
            exact ⟨left, right, .inl ⟨rfl, rfl⟩, hleft.1, Option.some.inj h, hleft.2⟩
          · rintro ⟨side, other, ⟨rfl, rfl⟩ | ⟨rfl, rfl⟩, hident, rfl, hnothing⟩
            · rfl
            -- Each side stands for nothing, so both have the one name that they can have.
            · rw [text_eq_of_isNothing hident hleft.2, text_eq_of_isNothing hleft.1 hnothing]
        · rw [hheld] at hleft hright
          constructor
          · intro h
            exact ⟨right, left, .inr ⟨rfl, rfl⟩, hright.1, Option.some.inj h, hright.2⟩
          · rintro ⟨side, other, ⟨rfl, rfl⟩ | ⟨rfl, rfl⟩, hident, rfl, hnothing⟩
            · exact absurd ⟨hident, hnothing⟩ hleft
            · rfl
        · rw [hheld] at hleft hright
          refine iff_of_false nofun ?_
          rintro ⟨side, other, ⟨rfl, rfl⟩ | ⟨rfl, rfl⟩, hident, -, hnothing⟩
          · exact hleft ⟨hident, hnothing⟩
          · exact hright ⟨hident, hnothing⟩

theorem checkedName?_eq_some_iff :
    checkedName? tree n = some name ↔ Checks tree n name ∧ ¬ n.HidesArgument := by
  rw [checkedName?, Kind.member, Kind.call, Kind.binary]
  by_cases hmember : n.kind = "member_expression"
  · have hshown : ¬ n.HidesArgument := fun h => absurd (hmember.symm.trans h.1) (by decide)
    rw [if_pos (beq_iff_eq.mpr hmember), lengthOf?_eq_some_iff, and_iff_left hshown]
    constructor
    · rintro ⟨target, htarget, hident, hname, hlength⟩
      exact .length target hmember htarget hident hname hlength
    · rintro (⟨target, -, htarget, hident, hname, hlength⟩ | ⟨-, -, hk⟩ | ⟨-, -, hk⟩)
      · exact ⟨target, htarget, hident, hname, hlength⟩
      · exact absurd (hmember.symm.trans hk) (by decide)
      · exact absurd (hmember.symm.trans hk) (by decide)
  · rw [if_neg (mt beq_iff_eq.mp hmember)]
    by_cases hcall : n.kind = "call_expression"
    · rw [if_pos (beq_iff_eq.mpr hcall), testedArray?_eq_some_iff hcall]
      refine and_congr_left fun _ => ⟨?_, ?_⟩
      · rintro ⟨callee, argument, hcallee, htest, hargument, hident, hname⟩
        exact .test callee argument hcall hcallee htest hargument hident hname
      · rintro (⟨-, hk⟩ | ⟨callee, argument, -, hcallee, htest, hargument, hident, hname⟩ |
          ⟨-, -, hk⟩)
        · exact absurd hk hmember
        · exact ⟨callee, argument, hcallee, htest, hargument, hident, hname⟩
        · exact absurd (hcall.symm.trans hk) (by decide)
    · have hshown : ¬ n.HidesArgument := fun h => hcall h.1
      rw [if_neg (mt beq_iff_eq.mp hcall), Option.ite_none_right_eq_some, Bool.and_eq_true,
        beq_iff_eq, List.contains_iff_mem, comparedToNothing?_eq_some_iff, and_iff_left hshown]
      constructor
      · rintro ⟨⟨hk, hoperator⟩, side, other, hsides, hident, hname, hnothing⟩
        exact .comparison side other hk hoperator hsides hident hname hnothing
      · rintro (⟨-, hk⟩ | ⟨-, -, hk⟩ | ⟨side, other, hk, hoperator, hsides, hident, hname, hnothing⟩)
        · exact absurd hk hmember
        · exact absurd hk hcall
        · exact ⟨⟨hk, hoperator⟩, side, other, hsides, hident, hname, hnothing⟩

theorem mem_checkedNames_iff : name ∈ checkedNames tree ↔ IsPlainlyChecked tree name := by
  rw [checkedNames, Node.walkWith_eq_map_descents, List.filterMap_map, List.mem_filterMap]
  simp only [Function.comp_apply, Option.ite_none_right_eq_some, carried_conditionStep_iff,
    checkedName?_eq_some_iff]
  constructor
  · rintro ⟨v, hv, hcondition, hchecks, hshown⟩
    exact ⟨v.1, v.2, Node.mem_descents_iff.mp hv, hcondition, hchecks, hshown⟩
  · rintro ⟨n, edges, hdown, hcondition, hchecks, hshown⟩
    exact ⟨(n, edges), Node.mem_descents_iff.mpr hdown, hcondition, hchecks, hshown⟩

theorem accessedName?_eq_some_iff : accessedName? tree n = some name ↔ Accesses tree n name := by
  rw [accessedName?, Accesses, Option.ite_none_right_eq_some, Bool.and_eq_true, beq_iff_eq,
    Bool.not_eq_true', and_assoc]
  refine and_congr_right fun _ => and_congr_right fun _ => ?_
  cases n.child? "object" with
  | none => simp
  | some target => simp [Node.isIdentifier_iff]

def found? (tree : SourceTree) (v : Node × List Node.Edge) : Option Issue :=
  ((accessedName? tree v.1).filter fun name =>
    !(Node.carried exemptStep false v.2 || (checkedNames tree).contains name)).map (issue v.1)

theorem found?_eq_some_iff {v : Node × List Node.Edge} {i : Issue} :
    found? tree v = some i ↔ Unchecked tree (IsPlainlyChecked tree) v i := by
  simp only [found?, Unchecked, Option.map_eq_some_iff, Option.filter_eq_some_iff,
    accessedName?_eq_some_iff, Bool.not_eq_true', Bool.or_eq_false_iff, List.contains_eq_mem,
    decide_eq_false_iff_not, mem_checkedNames_iff, ← carried_exemptStep_iff, Bool.not_eq_true]
  constructor
  · rintro ⟨name, ⟨haccess, hopen, hfree⟩, rfl⟩
    exact ⟨name, haccess, hfree, hopen, rfl⟩
  · rintro ⟨name, haccess, hfree, hopen, rfl⟩
    exact ⟨name, ⟨haccess, hopen, hfree⟩, rfl⟩

theorem check_eq (tree : SourceTree) :
    check tree = Issue.firstPerLine (tree.root.descents.filterMap (found? tree)) := by
  simp only [check]
  rw [Node.walkWith_eq_map_descents, List.filterMap_map]
  congr 1
  apply List.filterMap_congr
  intro v _
  rw [Function.comp_apply, found?]
  cases accessedName? tree v.1 with
  | none => rfl
  | some name =>
      by_cases hlisted :
          (Node.carried exemptStep false v.2 || (checkedNames tree).contains name) = true
      · simp only [Option.filter, hlisted]
        rfl
      · simp only [Option.filter, hlisted]
        rfl

def ShowsChecks (tree : SourceTree) : Prop :=
  ∀ name, IsChecked tree name → IsPlainlyChecked tree name

theorem isPlainlyChecked_eq (h : ShowsChecks tree) : IsPlainlyChecked tree = IsChecked tree := by
  funext name
  refine propext ⟨?_, h name⟩
  rintro ⟨n, edges, hdown, hcondition, hchecks, -⟩
  exact ⟨n, edges, hdown, hcondition, hchecks⟩

theorem showsChecks_of_forall (h : ∀ n ∈ tree.root.nodes, ¬ n.HidesArgument) : ShowsChecks tree := by
  rintro name ⟨n, edges, hdown, hcondition, hchecks⟩
  exact ⟨n, edges, hdown, hcondition, hchecks, h n hdown.reaches.contains⟩

/-- The check for element access lists the lines on which an array is accessed that is checked
nowhere in the file, and each line once, with the array that is accessed there first. What a test
for an array holds after a comment counts as checked only if it is checked elsewhere too. -/
theorem unchecked_firstOnLines (tree : SourceTree) :
    ∃ issues, Engine.standard .edgeCases tree = .ok issues ∧
      Issue.FirstOnLines (Unchecked tree (IsPlainlyChecked tree)) tree.root.descents
        (Issue.ofRule "unchecked_array_access" issues) ∧
      (ShowsChecks tree → Issue.FirstOnLines (Unchecked tree (IsChecked tree)) tree.root.descents
        (Issue.ofRule "unchecked_array_access" issues)) := by
  have hlisted : Issue.FirstOnLines (Unchecked tree (IsPlainlyChecked tree)) tree.root.descents
      (Issue.ofRule "unchecked_array_access" (Engine.edgeCases tree)) := by
    rw [Engine.ofRule_arrayAccess, check_eq]
    exact Issue.firstOnLines_filterMap fun _ _ _ => found?_eq_some_iff
  refine ⟨Engine.edgeCases tree, rfl, hlisted, fun hshown => ?_⟩
  rwa [isPlainlyChecked_eq hshown] at hlisted

def arrayTest (arguments : List Node) : Node :=
  .inline 3 "call_expression" none 3 24
    [.inline 4 "member_expression" (some "function") 3 16
        [.inline 5 "identifier" (some "object") 3 8 [],
          .inline 6 "property_identifier" (some "property") 9 16 []],
      .inline 7 "arguments" (some "arguments") 16 24 arguments]

def guardCondition (arguments : List Node) : Node :=
  .inline 2 "parenthesized_expression" (some "condition") 2 25 [arrayTest arguments]

def guardStatement (arguments : List Node) : Node :=
  .inline 1 "if_statement" none 0 27
    [guardCondition arguments, .inline 8 "statement_block" (some "consequence") 25 27 []]

def elementAccess (id start : Nat) : Node :=
  .inline id "expression_statement" none start (start + 5)
    [.inline (id + 1) "subscript_expression" none start (start + 4)
      [.inline (id + 2) "identifier" (some "object") start (start + 1) [],
        .inline (id + 3) "number" (some "index") (start + 2) (start + 3) []]]

def shownTest : SourceTree :=
  .ofFile
    (fun _ _ => .inline 0 "program" none 0 37
      [guardStatement [.inline 9 "identifier" none 17 18 [], .inline 10 "comment" none 18 23 []],
        elementAccess 11 27, elementAccess 15 32])
    "a.js" "if(Array.isArray(a/*c*/)){}a[0];b[0];"

theorem unchecked_shownTest :
    ShowsChecks shownTest ∧
      ∃ issues, Engine.standard .edgeCases shownTest = .ok issues ∧
        Issue.FirstOnLines (Unchecked shownTest (IsChecked shownTest)) shownTest.root.descents
          (Issue.ofRule "unchecked_array_access" issues) := by
  have hshown : ShowsChecks shownTest := showsChecks_of_forall (by decide +kernel)
  obtain ⟨issues, hissues, -, hlisted⟩ := unchecked_firstOnLines shownTest
  exact ⟨hshown, issues, hissues, hlisted hshown⟩

def hiddenArguments : List Node :=
  [.inline 9 "comment" none 17 22 [], .inline 10 "identifier" none 22 23 []]

def hiddenTest : SourceTree :=
  .ofFile
    (fun _ _ => .inline 0 "program" none 0 32
      [guardStatement hiddenArguments, elementAccess 11 27])
    "a.js" "if(Array.isArray(/*c*/a)){}a[0];"

theorem isChecked_hiddenTest : IsChecked hiddenTest (Text.ofString "a") := by
  have hguard := (@Node.Descends.refl hiddenTest.root).child
    (c := guardStatement hiddenArguments) List.mem_cons_self
  have hcondition := hguard.child (c := guardCondition hiddenArguments) List.mem_cons_self
  have htest := hcondition.child (c := arrayTest hiddenArguments) List.mem_cons_self
  refine ⟨_, _, htest, ⟨[_], _, _, _, rfl, .inl ⟨by decide, _, rfl, rfl⟩, by decide +kernel⟩, ?_⟩
  refine .test _ _ rfl rfl ⟨rfl, ⟨_, rfl, rfl, ?_⟩, ?_⟩ rfl rfl ?_ <;> decide +kernel

/-- The comment hides from the check what is tested. -/
theorem unchecked_hiddenTest :
    ¬ ∀ tree : SourceTree, ∃ issues, Engine.standard .edgeCases tree = .ok issues ∧
      Issue.FirstOnLines (Unchecked tree (IsChecked tree)) tree.root.descents
        (Issue.ofRule "unchecked_array_access" issues) := by
  intro h
  obtain ⟨issues, hissues, hlisted⟩ := h hiddenTest
  obtain rfl : Engine.edgeCases hiddenTest = issues := Except.ok.inj hissues
  have hline : some 1 ∈
      (Issue.ofRule "unchecked_array_access" (Engine.edgeCases hiddenTest)).map Issue.line := by
    decide +kernel
  obtain ⟨v, hv, i, ⟨name, haccess, hfree, -⟩, -⟩ := (hlisted.mem_lines_iff _).mp hline
  have hnames : ∀ n ∈ hiddenTest.root.nodes,
      accessedName? hiddenTest n ∈ [none, some (Text.ofString "a")] := by
    decide +kernel
  have hname := hnames v.1 (Node.mem_descents_iff.mp hv).reaches.contains
  rw [accessedName?_eq_some_iff.mpr haccess] at hname
  obtain rfl : name = Text.ofString "a" := by simpa using hname
  exact hfree isChecked_hiddenTest

end ArrayAccess

end ScriptReview
