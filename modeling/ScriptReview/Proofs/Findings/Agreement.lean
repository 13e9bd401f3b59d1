import Mathlib.Order.MinMax
import ScriptReview.Proofs.Findings.Issues

namespace ScriptReview

namespace Metrics

theorem foldl_max_eq (xs : List Nat) (k : Nat) : xs.foldl max k = max k (maximum xs) := by
  induction xs generalizing k with
  | nil => simp [maximum]
  | cons x xs ih =>
      rw [maximum, List.foldl_cons, List.foldl_cons, ih, ih (max 0 x)]
      omega

theorem maximum_cons (x : Nat) (xs : List Nat) : maximum (x :: xs) = max x (maximum xs) := by
  rw [maximum, List.foldl_cons, foldl_max_eq]
  omega

theorem lt_maximum_iff {k : Nat} {xs : List Nat} : k < maximum xs ↔ ∃ x ∈ xs, k < x := by
  induction xs with
  | nil => simp [maximum]
  | cons x xs ih => rw [maximum_cons, lt_max_iff, ih, List.exists_mem_cons_iff]

theorem lt_maximum_map_iff {α : Type} {f : α → Nat} {k : Nat} {xs : List α} :
    k < maximum (xs.map f) ↔ ∃ x ∈ xs, k < f x := by
  rw [lt_maximum_iff]
  simp

theorem le_maximum {x : Nat} {xs : List Nat} (h : x ∈ xs) : x ≤ maximum xs := by
  by_contra hlt
  exact absurd (lt_maximum_iff.mpr ⟨x, h, Nat.not_le.mp hlt⟩) (lt_irrefl _)

theorem maximum_mem {xs : List Nat} (h : xs ≠ []) : maximum xs ∈ xs := by
  induction xs with
  | nil => exact absurd rfl h
  | cons x xs ih =>
      rw [maximum_cons]
      by_cases hxs : xs = []
      · simp [hxs, maximum]
      · rcases max_choice x (maximum xs) with hmax | hmax
        · simp [hmax]
        · rw [hmax]
          exact List.mem_cons_of_mem x (ih hxs)

end Metrics

namespace Branching

theorem penalty_eq_zero_iff {c : Int} : penalty c = 0 ↔ c ≤ 5 := by
  unfold penalty
  split_ifs <;> simp_all

theorem penalty_mono {c d : Int} (h : c ≤ d) : penalty c ≤ penalty d := by
  unfold penalty
  split_ifs <;> omega

/-! What a pass leaves in its table, whether or not the ids of the nodes are distinct. -/

theorem found_of_advance {p q : Progress} {n : Node} (h : advance p n = .ok q) :
    ∃ entries : Totals, q.found = entries ++ p.found ∧
      entries.map Prod.fst = ([n].filter Node.isFunction).map Node.id ∧
      ∀ e ∈ entries, 1 ≤ e.2 := by
  obtain ⟨⟨inner, left⟩, -, h⟩ := bind_eq_ok_iff.mp h
  cases h
  by_cases hf : n.isFunction = true
  · exact ⟨[(n.id, 1 + inner)], by simp [hf], by simp [hf], by simp⟩
  · exact ⟨[], by simp [hf], by simp [hf], List.forall_mem_nil _⟩

theorem found_of_foldlM {ns : List Node} {p q : Progress} (h : ns.foldlM advance p = .ok q) :
    ∃ entries : Totals, q.found = entries ++ p.found ∧
      (∀ n ∈ ns, n.isFunction = true → n.id ∈ entries.map Prod.fst) ∧ ∀ e ∈ entries, 1 ≤ e.2 := by
  induction ns generalizing p with
  | nil =>
      cases h
      exact ⟨[], rfl, List.forall_mem_nil _, List.forall_mem_nil _⟩
  | cons n ns ih =>
      rw [List.foldlM_cons] at h
      obtain ⟨r, hr, h⟩ := bind_eq_ok_iff.mp h
      obtain ⟨own, hown, hkeys, hpos⟩ := found_of_advance hr
      obtain ⟨entries, hentries, hmem, hle⟩ := ih h
      refine ⟨entries ++ own, by rw [hentries, hown, List.append_assoc], ?_, ?_⟩
      · intro m hm hf
        rw [List.map_append, hkeys, List.mem_append]
        rcases List.mem_cons.mp hm with rfl | hm
        · exact .inr (by simp [hf])
        · exact .inl (hmem m hm hf)
      · rw [List.forall_mem_append]
        exact ⟨hle, hpos⟩

def entryOf (table : Totals) (n : Node) : Nat :=
  (table.lookup n.id).getD 0

theorem exists_lookup {table : Totals} {n : Node} (h : n.id ∈ table.map Prod.fst) :
    ∃ c, table.lookup n.id = some c ∧ (n.id, c) ∈ table := by
  have hsome : (table.lookup n.id).isSome = true := by
    obtain ⟨e, he, hid⟩ := List.mem_map.mp h
    exact List.lookup_isSome_iff.mpr ⟨e, he, by simp [hid]⟩
  obtain ⟨c, hc⟩ := Option.isSome_iff_exists.mp hsome
  obtain ⟨before, after, htable, -⟩ := List.lookup_eq_some_iff.mp hc
  exact ⟨c, hc, by simp [htable]⟩

theorem lookup_eq_entryOf {table : Totals} {n : Node} (h : n.id ∈ table.map Prod.fst) :
    lookup table n = .ok (entryOf table n) := by
  obtain ⟨c, hc, -⟩ := exists_lookup h
  simp [lookup, entryOf, hc]

theorem one_le_entryOf {table : Totals} {n : Node} (h : n.id ∈ table.map Prod.fst)
    (hpos : ∀ e ∈ table, 1 ≤ e.2) : 1 ≤ entryOf table n := by
  obtain ⟨c, hc, hmem⟩ := exists_lookup h
  rw [entryOf, hc]
  exact hpos _ hmem

structure Covers (table : Totals) (tree : SourceTree) : Prop where
  mem : ∀ v ∈ functions tree, v.1.id ∈ table.map Prod.fst
  one_le : ∀ v ∈ functions tree, 1 ≤ entryOf table v.1

theorem covers_of_complexities {tree : SourceTree} {table : Totals}
    (h : complexities tree.root = .ok table) : Covers table tree := by
  obtain ⟨q, hq, h⟩ := bind_eq_ok_iff.mp h
  cases h
  obtain ⟨entries, hentries, hmem, hpos⟩ := found_of_foldlM hq
  rw [List.append_nil] at hentries
  have hkeys : ∀ v ∈ functions tree, v.1.id ∈ q.found.map Prod.fst := by
    intro v hv
    obtain ⟨hr, hf⟩ := mem_functions hv
    have hpost : v.1 ∈ tree.root.postorder :=
      (Node.postorder_perm_preorder tree.root).mem_iff.mpr (Node.mem_preorder_iff_reaches.mpr hr)
    rw [hentries]
    exact hmem v.1 hpost hf
  exact ⟨hkeys, fun v hv => one_le_entryOf (hkeys v hv) (hentries ▸ hpos)⟩

def findingsBy (complexityOf : Node → Nat) (tree : SourceTree) : List Issue :=
  if (functions tree).isEmpty then globalIssue tree
  else (functions tree).flatMap fun v => complexityIssue tree v (complexityOf v.1)

theorem check_eq_findingsBy {tree : SourceTree} {table : Totals}
    (h : complexities tree.root = .ok table) :
    check tree = .ok (findingsBy (entryOf table) tree) := by
  have hissue : ∀ v ∈ functions tree, functionIssue tree table v =
      .ok (complexityIssue tree v (entryOf table v.1)) := by
    intro v hv
    rw [functionIssue, lookup_eq_entryOf ((covers_of_complexities h).mem v hv), ok_bind, pure_eq_ok]
  simp only [check, h, ok_bind, pure_eq_ok, findingsBy, mapM_eq_ok hissue, List.flatMap_def]
  split <;> rfl

end Branching

def Metrics.measuredBy (complexityOf : Node → Nat) (tree : SourceTree) : Metrics where
  maxNesting := maximum ((Nesting.blocks tree).map Prod.snd)
  maxComplexity :=
    if (Branching.functions tree).isEmpty then Branching.globalComplexity tree.root
    else maximum ((Branching.functions tree).map fun v => complexityOf v.1)
  maxLength := maximum ((Branching.functions tree).map fun v => v.1.lineCount.toNat)
  functionCount := (Branching.functions tree).length

theorem Metrics.ofTree_eq_measuredBy {tree : SourceTree} {table : Branching.Totals}
    (h : Branching.complexities tree.root = .ok table) :
    ofTree tree = .ok (measuredBy (Branching.entryOf table) tree) := by
  have hlookup : ∀ n ∈ (Branching.functions tree).map Prod.fst,
      Branching.lookup table n = .ok (Branching.entryOf table n) := by
    intro n hn
    obtain ⟨v, hv, rfl⟩ := List.mem_map.mp hn
    exact Branching.lookup_eq_entryOf ((Branching.covers_of_complexities h).mem v hv)
  simp only [ofTree, h, ok_bind, mapM_eq_ok hlookup, pure_eq_ok, List.map_map, List.isEmpty_map,
    List.length_map, measuredBy]
  rfl

theorem Metrics.exists_ofTree_eq_ok {tree : SourceTree} {issues : List Issue}
    (h : Branching.check tree = .ok issues) : ∃ m, ofTree tree = .ok m := by
  obtain ⟨table, htable, -⟩ := bind_eq_ok_iff.mp h
  exact ⟨_, ofTree_eq_measuredBy htable⟩

namespace Engine

theorem ruleId_of_mem_functionSize {tree : SourceTree} {n : Node} {parent : Option Node} {i : Issue}
    (h : i ∈ FunctionSize.check tree n parent) :
    i.ruleId = Text.ofString "long_function" ∧ FunctionSize.maxLines < n.lineCount ∨
      i.ruleId = Text.ofString "too_many_statements" := by
  simp only [FunctionSize.check, FunctionSize.longFunction, FunctionSize.manyStatements,
    List.mem_append] at h
  rcases h with h | h
  · split at h
    · rename_i hlong
      rw [List.mem_singleton.mp h]
      exact .inl ⟨rfl, hlong⟩
    · simp at h
  · split at h
    · simp at h
    · split at h
      · rw [List.mem_singleton.mp h]
        exact .inr rfl
      · simp at h

theorem ruleId_of_mem_naming {tree : SourceTree} {n parent : Node} {i : Issue}
    (h : i ∈ Naming.check tree n parent) : i.ruleId = Text.ofString "poor_naming" := by
  unfold Naming.check at h
  dsimp only at h
  split at h
  · simp at h
  · rw [List.mem_singleton.mp h]
    rfl

theorem ruleId_of_mem_nesting {tree : SourceTree} {i : Issue} (h : i ∈ Nesting.check tree) :
    i.ruleId = Text.ofString "deep_nesting" := by
  obtain ⟨v, -, rfl⟩ := List.mem_map.mp (Issue.mem_of_mem_firstPerLine h)
  rfl

/-- What readability finds is about the size of a function, about a name or about a block. -/
theorem mem_readability_cases {tree : SourceTree} {i : Issue} (h : i ∈ readability tree) :
    (∃ v ∈ Branching.functions tree, i ∈ FunctionSize.check tree v.1 v.2) ∨
      i.ruleId = Text.ofString "poor_naming" ∨ i ∈ Nesting.check tree := by
  simp only [readability, List.mem_append, List.mem_flatMap] at h
  rcases h with ⟨v, hv, h⟩ | h
  · split at h
    · rename_i hf
      exact .inl ⟨v, List.mem_filter.mpr ⟨hv, hf⟩, h⟩
    · split at h
      · obtain ⟨parent, -, h⟩ := List.mem_flatMap.mp h
        exact .inr (.inl (ruleId_of_mem_naming h))
      · simp at h
  · exact .inr (.inr h)

theorem exists_deepNesting_iff {tree : SourceTree} :
    (∃ i ∈ readability tree, i.ruleId = Text.ofString "deep_nesting") ↔
      ∃ v ∈ Nesting.blocks tree, Nesting.maxDepth < v.2 := by
  have hcheck : Nesting.check tree ≠ [] ↔ ∃ v ∈ Nesting.blocks tree, Nesting.maxDepth < v.2 := by
    simp [Nesting.check, Issue.firstPerLine_eq_nil_iff]
  rw [← hcheck]
  constructor
  · rintro ⟨i, hi, hrule⟩
    rcases mem_readability_cases hi with ⟨v, -, hsize⟩ | hname | hblock
    · rcases ruleId_of_mem_functionSize hsize with ⟨hlong, -⟩ | hmany
      · exact absurd (hlong.symm.trans hrule) (by decide)
      · exact absurd (hmany.symm.trans hrule) (by decide)
    · exact absurd (hname.symm.trans hrule) (by decide)
    · exact List.ne_nil_of_mem hblock
  · intro h
    obtain ⟨i, hi⟩ := List.exists_mem_of_ne_nil _ h
    exact ⟨i, List.mem_append_right _ hi, ruleId_of_mem_nesting hi⟩

theorem exists_longFunction_iff {tree : SourceTree} :
    (∃ i ∈ readability tree, i.ruleId = Text.ofString "long_function") ↔
      ∃ v ∈ Branching.functions tree, FunctionSize.maxLines < v.1.lineCount := by
  constructor
  · rintro ⟨i, hi, hrule⟩
    rcases mem_readability_cases hi with ⟨v, hv, hsize⟩ | hname | hblock
    · rcases ruleId_of_mem_functionSize hsize with ⟨-, hlong⟩ | hmany
      · exact ⟨v, hv, hlong⟩
      · exact absurd (hmany.symm.trans hrule) (by decide)
    · exact absurd (hname.symm.trans hrule) (by decide)
    · exact absurd ((ruleId_of_mem_nesting hblock).symm.trans hrule) (by decide)
  · rintro ⟨v, hv, hlong⟩
    obtain ⟨hw, hf⟩ := List.mem_filter.mp hv
    have hissue : ∃ i ∈ FunctionSize.longFunction tree v.1 v.2,
        i.ruleId = Text.ofString "long_function" := by
      rw [FunctionSize.longFunction, if_pos hlong]
      exact ⟨_, List.mem_singleton_self _, rfl⟩
    obtain ⟨i, hi, hrule⟩ := hissue
    refine ⟨i, List.mem_append_left _ (List.mem_flatMap.mpr ⟨v, hw, ?_⟩), hrule⟩
    rw [if_pos hf]
    exact List.mem_append_left _ hi

end Engine

namespace Branching

variable {complexityOf : Node → Nat} {tree : SourceTree}

def judged (complexityOf : Node → Nat) (tree : SourceTree) : List Nat :=
  if (functions tree).isEmpty then [globalComplexity tree.root]
  else (functions tree).map fun v => complexityOf v.1

theorem map_penalty_complexityIssue (v : Node × Option Node) (c : Nat) :
    (complexityIssue tree v c).map Issue.penalty = [penalty c].filter (· ≠ 0) := by
  rw [complexityIssue]
  split_ifs with h <;> simp [h, Issue.plain]

theorem map_penalty_globalIssue :
    (globalIssue tree).map Issue.penalty =
      [penalty (globalComplexity tree.root)].filter (· ≠ 0) := by
  unfold globalIssue
  dsimp only
  split_ifs with h <;> simp [h, Issue.plain]

/-- Whatever is judged costs its penalty, unless that is nothing. -/
theorem map_penalty_findingsBy :
    (findingsBy complexityOf tree).map Issue.penalty =
      ((judged complexityOf tree).map fun c : Nat => penalty c).filter (· ≠ 0) := by
  rw [findingsBy, judged]
  split
  · exact map_penalty_globalIssue
  · induction functions tree with
    | nil => rfl
    | cons v vs ih =>
        rw [List.flatMap_cons, List.map_append, ih, map_penalty_complexityIssue, List.map_cons,
          List.map_cons, ← List.filter_append]
        rfl

theorem maxComplexity_measuredBy :
    (Metrics.measuredBy complexityOf tree).maxComplexity =
      Metrics.maximum (judged complexityOf tree) := by
  rw [Metrics.measuredBy, judged]
  split <;> simp [Metrics.maximum]

theorem findingsBy_ne_nil_iff :
    findingsBy complexityOf tree ≠ [] ↔
      5 < (Metrics.measuredBy complexityOf tree).maxComplexity := by
  have hcost : ∀ c : Nat, penalty c ≠ 0 ↔ 5 < c := by
    intro c
    rw [Ne, penalty_eq_zero_iff]
    omega
  rw [maxComplexity_measuredBy, Metrics.lt_maximum_iff, Ne, ← List.map_eq_nil_iff,
    map_penalty_findingsBy, List.filter_eq_nil_iff]
  simp [hcost]

/-- The worst complexity has an issue of its own, and no issue costs more. -/
theorem largest_penalty_findingsBy (h : findingsBy complexityOf tree ≠ []) :
    penalty (Metrics.measuredBy complexityOf tree).maxComplexity ∈
        (findingsBy complexityOf tree).map Issue.penalty ∧
      ∀ i ∈ findingsBy complexityOf tree,
        i.penalty ≤ penalty (Metrics.measuredBy complexityOf tree).maxComplexity := by
  have hbeyond := findingsBy_ne_nil_iff.mp h
  rw [maxComplexity_measuredBy] at hbeyond ⊢
  have hne : judged complexityOf tree ≠ [] := by
    intro hnil
    simp [hnil, Metrics.maximum] at hbeyond
  constructor
  · rw [map_penalty_findingsBy, List.mem_filter, decide_eq_true_eq, Ne, penalty_eq_zero_iff]
    exact ⟨List.mem_map_of_mem (Metrics.maximum_mem hne), by omega⟩
  · intro i hi
    have hmem : i.penalty ∈ (findingsBy complexityOf tree).map Issue.penalty :=
      List.mem_map_of_mem hi
    rw [map_penalty_findingsBy] at hmem
    obtain ⟨c, hc, hpenalty⟩ := List.mem_map.mp (List.mem_filter.mp hmem).1
    rw [← hpenalty]
    exact penalty_mono (Int.ofNat_le.mpr (Metrics.le_maximum hc))

theorem one_le_maxComplexity (h : ∀ v ∈ functions tree, 1 ≤ complexityOf v.1) :
    1 ≤ (Metrics.measuredBy complexityOf tree).maxComplexity := by
  have hne : judged complexityOf tree ≠ [] := by
    rw [judged]
    split <;> simp_all
  rw [maxComplexity_measuredBy]
  have hmem := Metrics.maximum_mem hne
  generalize Metrics.maximum (judged complexityOf tree) = c at hmem ⊢
  rw [judged] at hmem
  split at hmem
  · rw [List.mem_singleton.mp hmem, globalComplexity]
    omega
  · obtain ⟨v, hv, rfl⟩ := List.mem_map.mp hmem
    exact h v hv

def IsIssueOf (v : Node × Option Node) (c : Nat) (i : Issue) : Prop :=
  i.ruleId = Text.ofString "cyclomatic_complexity" ∧ i.line = some (v.1.line : Int) ∧
    i.penalty = penalty c

theorem complexityIssue_cases (v : Node × Option Node) (c : Nat) :
    complexityIssue tree v c = [] ∨ ∃ i, complexityIssue tree v c = [i] ∧ IsIssueOf v c i := by
  rw [complexityIssue]
  split
  · exact .inl rfl
  · exact .inr ⟨_, rfl, rfl, rfl, rfl⟩

/-- Every issue belongs to a function of its own. -/
theorem exists_sublist_forall₂ (vs : List (Node × Option Node)) :
    ∃ fs, fs.Sublist vs ∧ List.Forall₂ (fun v i => IsIssueOf v (complexityOf v.1) i) fs
      (vs.flatMap fun v => complexityIssue tree v (complexityOf v.1)) := by
  induction vs with
  | nil => exact ⟨[], .slnil, .nil⟩
  | cons v vs ih =>
      obtain ⟨fs, hsub, hissues⟩ := ih
      rw [List.flatMap_cons]
      rcases complexityIssue_cases v (complexityOf v.1) with hnil | ⟨i, hi, hissue⟩
      · rw [hnil]
        exact ⟨fs, hsub.cons v, hissues⟩
      · rw [hi]
        exact ⟨v :: fs, hsub.cons_cons v, .cons hissue hissues⟩

theorem findingsBy_of_functionCount (h : (Metrics.measuredBy complexityOf tree).functionCount ≠ 0) :
    findingsBy complexityOf tree =
      (functions tree).flatMap fun v => complexityIssue tree v (complexityOf v.1) := by
  have hsome : ¬ (functions tree).isEmpty = true := by
    simpa [Metrics.measuredBy] using h
  rw [findingsBy, if_neg hsome]

theorem isIssueOf_of_mem (h : (Metrics.measuredBy complexityOf tree).functionCount ≠ 0)
    {i : Issue} (hi : i ∈ findingsBy complexityOf tree) :
    ∃ v, IsIssueOf v (complexityOf v.1) i := by
  rw [findingsBy_of_functionCount h] at hi
  obtain ⟨v, -, hv⟩ := List.mem_flatMap.mp hi
  rcases complexityIssue_cases v (complexityOf v.1) with hnil | ⟨j, hj, hissue⟩
  · rw [hnil] at hv
    cases hv
  · rw [hj, List.mem_singleton] at hv
    exact ⟨v, hv ▸ hissue⟩

theorem globalIssue_cases :
    globalIssue tree = [] ∨
      ∃ i, globalIssue tree = [i] ∧ i.ruleId = Text.ofString "global_complexity" := by
  unfold globalIssue
  dsimp only
  split
  · exact .inl rfl
  · exact .inr ⟨_, rfl, rfl⟩

end Branching

structure Metrics.Agrees (m : Metrics) (tree : SourceTree) (issues : List Issue) : Prop where
  nesting : (∃ i ∈ Engine.readability tree, i.ruleId = Text.ofString "deep_nesting") ↔
    4 < m.maxNesting
  length : (∃ i ∈ Engine.readability tree, i.ruleId = Text.ofString "long_function") ↔
    40 < m.maxLength
  complexity : issues ≠ [] ↔ 5 < m.maxComplexity
  largest : issues ≠ [] → (∃ i ∈ issues, i.penalty = Branching.penalty m.maxComplexity) ∧
    ∀ i ∈ issues, i.penalty ≤ Branching.penalty m.maxComplexity
  global : issues ≠ [] → (m.functionCount = 0 ↔
    ∃ i, issues = [i] ∧ i.ruleId = Text.ofString "global_complexity")
  perFunction : m.functionCount ≠ 0 → ∃ fs, fs.Sublist (Branching.functions tree) ∧
    List.Forall₂ (fun v i => i.ruleId = Text.ofString "cyclomatic_complexity" ∧
      i.line = some (v.1.line : Int)) fs issues
  positive : 1 ≤ m.maxComplexity

namespace Metrics

variable {complexityOf : Node → Nat} {tree : SourceTree}

theorem exists_long_iff :
    (∃ v ∈ Branching.functions tree, FunctionSize.maxLines < v.1.lineCount) ↔
      40 < (measuredBy complexityOf tree).maxLength := by
  have hlines : ∀ v : Node × Option Node,
      40 < v.1.lineCount.toNat ↔ FunctionSize.maxLines < v.1.lineCount := by
    intro v
    rw [FunctionSize.maxLines]
    omega
  simp only [measuredBy, lt_maximum_map_iff, hlines]

theorem agrees_measuredBy (h : ∀ v ∈ Branching.functions tree, 1 ≤ complexityOf v.1) :
    (measuredBy complexityOf tree).Agrees tree (Branching.findingsBy complexityOf tree) where
  nesting := Engine.exists_deepNesting_iff.trans lt_maximum_map_iff.symm
  length := Engine.exists_longFunction_iff.trans exists_long_iff
  complexity := Branching.findingsBy_ne_nil_iff
  largest hne := by
    obtain ⟨hmem, hle⟩ := Branching.largest_penalty_findingsBy hne
    exact ⟨List.mem_map.mp hmem, hle⟩
  global hne := by
    constructor
    · intro hcount
      have hnone : (Branching.functions tree).isEmpty = true := by
        simpa [measuredBy] using hcount
      rw [Branching.findingsBy, if_pos hnone] at hne ⊢
      exact Branching.globalIssue_cases.resolve_left hne
    · rintro ⟨i, hi, hrule⟩
      by_contra hcount
      have hmem : i ∈ Branching.findingsBy complexityOf tree := by simp [hi]
      obtain ⟨v, hv⟩ := Branching.isIssueOf_of_mem hcount hmem
      exact absurd (hv.1.symm.trans hrule) (by decide)
  perFunction hcount := by
    rw [Branching.findingsBy_of_functionCount hcount]
    obtain ⟨fs, hsub, hissues⟩ := Branching.exists_sublist_forall₂ (Branching.functions tree)
    exact ⟨fs, hsub, hissues.imp fun v i hi => ⟨hi.1, hi.2.1⟩⟩
  positive := Branching.one_le_maxComplexity h

end Metrics

/-- The metrics of a tree and what its checks find say the same. Only the table of complexities can
fail, for both of them alike, and only where two nodes have the same id. -/
theorem Metrics.agrees_or_fails (tree : SourceTree) :
    (∃ m issues, ofTree tree = .ok m ∧ Engine.standard .complexity tree = .ok issues ∧
      m.Agrees tree issues) ∨
    ∃ e, ofTree tree = .error e ∧ Engine.standard .complexity tree = .error e ∧
      ¬ tree.root.DistinctIds := by
  cases htable : Branching.complexities tree.root with
  | ok table =>
      have hcovers := Branching.covers_of_complexities htable
      exact .inl ⟨_, _, ofTree_eq_measuredBy htable, Branching.check_eq_findingsBy htable,
        agrees_measuredBy hcovers.one_le⟩
  | error e =>
      refine .inr ⟨e, ?_, ?_, fun hids => ?_⟩
      · rw [ofTree, htable]
        rfl
      · rw [Engine.standard, Branching.check, htable]
        rfl
      · cases htable.symm.trans (Branching.complexities_eq_ok hids)

end ScriptReview
