import ScriptReview.Proofs.Encodable
import ScriptReview.Proofs.Findings.UserInput
import ScriptReview.Proofs.Storable

namespace ScriptReview

namespace Json

def IsModest (j : Json) : Prop :=
  j.integersWithin Limits.standard.digits = true

theorem isModest_int {n : Int} (h : n.natAbs < 10 ^ 10) : (int n).IsModest := by
  have hdigits : (Nat.toDigits 10 n.natAbs).length ≤ 10 :=
    (Nat.length_toDigits_le_iff (by omega) (by omega)).2 h
  rw [IsModest, integersWithin, decide_eq_true_eq]
  exact hdigits.trans (by decide)

theorem isModest_record {fs : List (String × Json)} :
    (record fs).IsModest ↔ ∀ f ∈ fs, f.2.IsModest := by
  rw [IsModest, record, integersWithin, fieldsWithin_iff, List.forall_mem_map]
  rfl

theorem isModest_array_map {α : Type} {f : α → Json} {as : List α} :
    (array (as.map f)).IsModest ↔ ∀ a ∈ as, (f a).IsModest := by
  rw [IsModest, integersWithin, itemsWithin_iff, List.forall_mem_map]
  rfl

theorem isModest_texts (ts : List Text) : (texts ts).IsModest :=
  isModest_array_map.2 fun _ _ => rfl

theorem isModest_ofOption {α : Type} {f : α → Json} {o : Option α} (h : ∀ a ∈ o, (f a).IsModest) :
    (ofOption f o).IsModest := by
  cases o with
  | none => rfl
  | some a => exact h a rfl

theorem isModest_dictionary {α : Type} {f : α → Json} {d : Dictionary α}
    (h : ∀ e ∈ d.entries, (f e.2).IsModest) : (dictionary f d).IsModest := by
  rw [IsModest, dictionary, integersWithin, fieldsWithin_iff, List.forall_mem_map]
  intro e he
  obtain ⟨e', he', rfl⟩ := List.mem_map.1 (Entries.mem_of_mem_joined he)
  exact h e' he'

end Json

open Json (IsModest isModest_int isModest_record isModest_array_map isModest_texts isModest_ofOption
  isModest_dictionary)

namespace Node

/-- Rows and nodes are counted in 32 bits. -/
structure IsSmall (root : Node) : Prop where
  size : root.size ≤ 2 ^ 32
  rows : ∀ n, root.Reaches n → n.info.startRow < 2 ^ 32 ∧ n.info.endRow < 2 ^ 32

theorem length_flatMap_le_sizes {α : Type} {f : Node → List α} {ns : List Node}
    (h : ∀ n ∈ ns, (f n).length ≤ n.size) : (ns.flatMap f).length ≤ sizes ns := by
  induction ns with
  | nil => exact le_rfl
  | cons n ns ih =>
      rw [List.forall_mem_cons] at h
      rw [List.flatMap_cons, List.length_append, sizes]
      exact Nat.add_le_add h.1 (ih h.2)

/-- A walk visits no node twice. -/
theorem length_preorder_le (skip : List String) (n : Node) : (n.preorder skip).length ≤ n.size := by
  induction n using children_induction with
  | _ n ih =>
      rw [preorder_eq, List.length_cons]
      have hkept : ((n.kept skip).flatMap (preorder skip)).length ≤ sizes (n.kept skip) :=
        length_flatMap_le_sizes fun c hc => ih c (mem_children_of_mem_kept hc)
      exact hkept.trans_lt (sizes_kept_lt skip n)

theorem length_walk_le (root : Node) : root.walk.length ≤ root.size := by
  have hlength := root.length_preorder_le []
  rwa [← map_fst_walk, List.length_map] at hlength

/-- No node lies deeper than there are nodes. -/
theorem lt_of_mem_walkWith_deeper {n m : Node} {s depth : Nat}
    (h : (m, depth) ∈ n.walkWith [] s deeper) : depth < s + n.size := by
  induction n using children_induction generalizing s with
  | _ n ih =>
      rw [walkWith_eq, List.mem_cons, List.mem_flatMap] at h
      rcases h with h | ⟨c, hc, h⟩
      · cases h
        rw [size_eq]
        omega
      · have hchild := mem_children_of_mem_kept hc
        have hsize := size_lt_of_mem_children hchild
        have hdepth := ih c hchild h
        have hstep : deeper n c s ≤ s + 1 := by
          rw [deeper]
          split_ifs <;> omega
        omega

end Node

namespace Branching

theorem weight_le_one (n : Node) : weight n ≤ 1 := by
  rw [weight]
  split_ifs <;> omega

/-- Each node adds at most one. -/
theorem one_add_weights_le_size (skip : List String) (n : Node) :
    1 + total ((n.descendants skip).map weight) ≤ n.size := by
  have hweights : ∀ w ∈ (n.descendants skip).map weight, w ≤ 1 :=
    List.forall_mem_map.2 fun m _ => weight_le_one m
  have htotal := total_le_mul hweights
  have hlength := n.length_preorder_le skip
  rw [Node.preorder_eq, List.length_cons, ← Node.descendants_eq] at hlength
  rw [List.length_map] at htotal
  omega

end Branching

namespace Metrics

structure IsSmall (m : Metrics) : Prop where
  nesting : m.maxNesting ≤ 2 ^ 32
  complexity : m.maxComplexity ≤ 2 ^ 32
  length : m.maxLength ≤ 2 ^ 32
  functions : m.functionCount ≤ 2 ^ 32

theorem maximum_map_le {α : Type} {f : α → Nat} {bound : Nat} {xs : List α}
    (h : ∀ x ∈ xs, f x ≤ bound) : maximum (xs.map f) ≤ bound := by
  by_contra hlt
  obtain ⟨x, hx, hfx⟩ := lt_maximum_map_iff.1 (not_le.1 hlt)
  exact absurd (h x hx) (not_le.2 hfx)

theorem isSmall_measured {tree : SourceTree} (h : tree.root.IsSmall) : (measured tree).IsSmall where
  nesting := by
    refine maximum_map_le fun v hv => ?_
    have hdepth := Node.lt_of_mem_walkWith_deeper (List.mem_filter.1 hv).1
    have hsize := h.size
    omega
  complexity := by
    rw [measured]
    dsimp only
    split_ifs
    · exact (Branching.one_add_weights_le_size _ _).trans h.size
    · refine maximum_map_le fun v hv => ?_
      have hsize := (Branching.mem_functions hv).1.contains.size_le
      exact (Branching.one_add_weights_le_size _ _).trans (hsize.trans h.size)
  length := by
    refine maximum_map_le fun v hv => ?_
    obtain ⟨-, hend⟩ := h.rows v.1 (Branching.mem_functions hv).1
    rw [Node.lineCount]
    omega
  functions := (List.length_filter_le _ _).trans (tree.root.length_walk_le.trans h.size)

theorem IsSmall.toJson {m : Metrics} (h : m.IsSmall) : m.toJson.IsModest := by
  obtain ⟨hnesting, hcomplexity, hlength, hfunctions⟩ := h
  rw [Metrics.toJson, isModest_record]
  simp only [List.forall_mem_cons]
  exact ⟨isModest_int (by omega), isModest_int (by omega), isModest_int (by omega),
    isModest_int (by omega), List.forall_mem_nil _⟩

end Metrics

namespace Issue

theorem isModest_severe (rule : String) {penalty line : Nat} (severity : Severity) (comment : Text)
    (hpenalty : penalty < 10 ^ 10) (hline : line < 10 ^ 10) :
    (severe rule penalty severity line comment).toJson.IsModest := by
  rw [toJson, isModest_record]
  simp only [List.forall_mem_append, List.forall_mem_cons]
  refine ⟨⟨rfl, isModest_int hpenalty, rfl, isModest_ofOption fun _ _ => rfl,
    isModest_ofOption ?_, List.forall_mem_nil _⟩, List.forall_mem_nil _⟩
  rintro n ⟨⟩
  exact isModest_int hline

theorem length_firstPerLine_walk_le (tree : SourceTree) (f : Node → Option Issue) :
    (firstPerLine (tree.walk.filterMap fun v => f v.1)).length ≤ tree.root.size := by
  have hfirst := (firstPerLineFrom_sublist [] (tree.walk.filterMap fun v => f v.1)).length_le
  have hfound := List.length_filterMap_le (fun v : Node × Option Node => f v.1) tree.walk
  exact hfirst.trans (hfound.trans (tree.root.length_walk_le))

end Issue

namespace Engine

variable {tree : SourceTree}

theorem isModest_of_critical (h : tree.root.IsSmall) {i : Issue}
    (hi : i ∈ (security tree).filter Issue.isCritical) : i.toJson.IsModest := by
  have hline {n : Node} (hn : tree.root.Reaches n) : n.line < 10 ^ 10 := by
    have hrow := (h.rows n hn).1
    rw [Node.line]
    omega
  rw [filter_isCritical_security, List.mem_append] at hi
  rcases hi with hi | hi
  · obtain ⟨n, hn, hissue⟩ := exists_of_mem_filterMap_walk hi
    rcases DynamicCode.issue?_cases hissue with ⟨name, -, rfl⟩ | rfl
    · exact Issue.isModest_severe _ _ _ (by decide) (hline hn)
    · exact Issue.isModest_severe _ _ _ (by decide) (hline hn)
  · obtain ⟨n, hn, hissue⟩ := exists_of_mem_filterMap_walk hi
    obtain ⟨method, rfl⟩ := ShellCommand.issue?_cases hissue
    exact Issue.isModest_severe _ _ _ (by decide) (hline hn)

theorem length_critical_lt (h : tree.root.IsSmall) :
    ((security tree).filter Issue.isCritical).length < 10 ^ 10 := by
  have hcode := Issue.length_firstPerLine_walk_le tree (DynamicCode.issue? tree)
  have hshell := Issue.length_firstPerLine_walk_le tree
    (ShellCommand.issue? tree (ShellCommand.bindings tree))
  have hsize := h.size
  rw [filter_isCritical_security, List.length_append, DynamicCode.check, ShellCommand.check]
  omega

end Engine

namespace Analysis

theorem isModest_toJson {a : Analysis} (h : ∀ i ∈ a.criticalIssues, i.toJson.IsModest) :
    a.toJson.IsModest := by
  have hscore : ∀ s : CategoryScore, s.toJson.IsModest := by
    intro s
    have hbound : s.score.val < 26 := s.score.isLt
    rw [CategoryScore.toJson, isModest_record]
    simp only [List.forall_mem_cons]
    exact ⟨isModest_int (by omega), isModest_texts _, List.forall_mem_nil _⟩
  have htotal : a.totalScore.val < 101 := a.totalScore.isLt
  rw [toJson, isModest_record]
  simp only [List.forall_mem_cons]
  exact ⟨rfl, hscore _, hscore _, hscore _, hscore _, isModest_int (by omega),
    isModest_array_map.2 h, isModest_ofOption fun _ _ => rfl, List.forall_mem_nil _⟩

theorem isModest_failed (filename message : Text) : (failed filename message).toJson.IsModest :=
  isModest_toJson (List.forall_mem_nil _)

theorem isModest_scoresByName (a : Analysis) : (Json.dictionary .int a.scoresByName).IsModest := by
  apply isModest_dictionary
  intro e he
  obtain ⟨c, -, rfl⟩ := List.mem_map.1 (Entries.mem_of_mem_joined he)
  have hscore := a.score_le c
  rw [Category.maxScore] at hscore
  exact isModest_int (by omega)

end Analysis

namespace Readiness

theorem isModest_toJson {r : Readiness} (htotal : r.details.totalScore.natAbs < 10 ^ 10)
    (hscores : (Json.dictionary .int r.details.categoryScores).IsModest) : r.toJson.IsModest := by
  rw [toJson, isModest_record]
  simp only [List.forall_mem_cons]
  refine ⟨rfl, rfl, isModest_record.2 ?_, List.forall_mem_nil _⟩
  simp only [List.forall_mem_cons]
  exact ⟨isModest_int htotal, hscores, isModest_texts _, rfl, rfl, List.forall_mem_nil _⟩

theorem totalScore_ofAnalysis (a : Analysis) (mode : Text) :
    (ofAnalysis a mode).details.totalScore = a.totalScore.val := by
  unfold ofAnalysis
  dsimp only
  split_ifs <;> rfl

theorem isModest_ofAnalysis (a : Analysis) (mode : Text) :
    (ofAnalysis a mode).toJson.IsModest := by
  have htotal : a.totalScore.val < 101 := a.totalScore.isLt
  apply isModest_toJson
  · rw [totalScore_ofAnalysis]
    omega
  · rw [categoryScores_ofAnalysis]
    exact a.isModest_scoresByName

theorem isModest_unparsable (a : Analysis) (mode : Text) : (unparsable a mode).toJson.IsModest :=
  isModest_toJson (by simp [unparsable]) a.isModest_scoresByName

end Readiness

namespace VerdictReport

theorem isModest_toJson {r : VerdictReport} (hcount : r.details.criticalCount.natAbs < 10 ^ 10)
    (hthresholds : (Json.dictionary .int r.details.thresholds).IsModest) : r.toJson.IsModest := by
  rw [toJson, isModest_record]
  simp only [List.forall_mem_cons]
  refine ⟨rfl, rfl, isModest_ofOption fun _ _ => rfl, isModest_record.2 ?_, List.forall_mem_nil _⟩
  simp only [List.forall_mem_cons]
  refine ⟨rfl, rfl, isModest_int hcount, isModest_array_map.2 fun s _ => ?_, hthresholds,
    List.forall_mem_nil _⟩
  rfl

theorem isModest_thresholds : (Json.dictionary .int thresholds).IsModest := by
  rw [IsModest]
  decide +kernel

theorem isModest_ofScore (score : Int) {critical : List Issue} (scores : Option Analysis)
    (filename : Text) (hcritical : critical.length < 10 ^ 10) :
    (ofScore score critical scores filename).toJson.IsModest := by
  unfold ofScore
  dsimp only
  split_ifs
  · exact isModest_toJson (by simp) isModest_thresholds
  · exact isModest_toJson hcritical (isModest_dictionary nofun)

end VerdictReport

theorem Badge.isModest_toJson (b : Badge) : b.toJson.IsModest := rfl

namespace ReviewCost

theorem isModest_toJson {c : ReviewCost}
    (h : ∀ e ∈ c.factors.entries, e.2.rawValue.natAbs < 10 ^ 10 ∧ e.2.contribution ≤ 100) :
    c.toJson.IsModest := by
  have hscore : c.score.val < 101 := c.score.isLt
  rw [toJson, isModest_record]
  simp only [List.forall_mem_cons]
  refine ⟨rfl, isModest_int (by omega), isModest_dictionary fun e he => ?_, rfl, rfl,
    List.forall_mem_nil _⟩
  obtain ⟨hraw, hcontribution⟩ := h e he
  have hnormalized : e.2.normalized.val < 101 := e.2.normalized.isLt
  rw [CostShare.toJson, isModest_record]
  simp only [List.forall_mem_cons]
  exact ⟨isModest_int hraw, isModest_int (by omega), rfl, isModest_int (by omega),
    List.forall_mem_nil _⟩

theorem isModest_ofMetrics {m : Metrics} (hm : m.IsSmall) {a : Analysis} {c : ReviewCost}
    (h : ofMetrics m a.security.score.val = .ok c) : c.toJson.IsModest := by
  have hsecurity : a.security.score.val < 26 := a.security.score.isLt
  obtain ⟨hnesting, hcomplexity, hlength, -⟩ := hm
  apply isModest_toJson
  intro e he
  obtain ⟨f, -, hshare⟩ := shares_of_ofMetrics h e he
  refine ⟨?_, hshare.contribution⟩
  rw [hshare.rawValue]
  cases f with
  | nesting | complexity | length =>
      simp only [CostFactor.rawValue]
      omega
  | security =>
      simp only [CostFactor.rawValue, Category.maxScore]
      omega

theorem isModest_unparsable : unparsable.toJson.IsModest :=
  isModest_toJson nofun

end ReviewCost

/-- A reviewer reports on small trees in modest numbers. -/
theorem Reviewer.isModest_of_review {r : Reviewer} (hengine : r.engine = .standard)
    (hids : ∀ language code, (r.grammar language code).DistinctIds)
    (hsmall : ∀ language code, (r.grammar language code).IsSmall) {filename : Text} {source : Json}
    {elapsed : Binary64} {report : Report} (h : r.review filename source elapsed = .ok report) :
    report.analysis.toJson.IsModest ∧ report.toJson.IsModest := by
  obtain ⟨code, -, h⟩ := bind_eq_ok_iff.1 h
  rw [mapError_eq_ok_iff] at h
  obtain ⟨parsed, hparsed, h⟩ := bind_eq_ok_iff.1 h
  rcases SourceTree.parseFile_cases hparsed with ⟨bytes, rfl⟩ | ⟨tree, rfl, hroot⟩
  · obtain ⟨hash, -, h⟩ := bind_eq_ok_iff.1 h
    cases h
    have hanalysis := Analysis.isModest_failed filename
      (Breakage.describe bytes (r.grammar (.ofFilename filename) code))
    refine ⟨hanalysis, isModest_record.2 ?_⟩
    simp only [List.forall_mem_cons]
    exact ⟨rfl, hanalysis, rfl, Readiness.isModest_unparsable _ _, ReviewCost.isModest_unparsable,
      VerdictReport.isModest_ofScore _ _ _ (Nat.pow_pos (by omega)), Badge.isModest_toJson _, rfl,
      rfl, List.forall_mem_nil _⟩
  · have hdistinct : tree.root.DistinctIds := hroot ▸ hids _ _
    have htree : tree.root.IsSmall := hroot ▸ hsmall _ _
    obtain ⟨analysis, hscored, h⟩ := bind_eq_ok_iff.1 h
    obtain ⟨metrics, hmeasured, h⟩ := bind_eq_ok_iff.1 h
    obtain ⟨cost, hcost, h⟩ := bind_eq_ok_iff.1 h
    obtain ⟨hash, -, h⟩ := bind_eq_ok_iff.1 h
    rw [hengine, Analysis.ofTree_eq_ok filename hdistinct] at hscored
    rw [Metrics.ofTree_eq_ok hdistinct] at hmeasured
    cases hscored
    cases hmeasured
    cases h
    have hmetrics := Metrics.isSmall_measured htree
    have hanalysis : (Analysis.scored filename tree).toJson.IsModest :=
      Analysis.isModest_toJson fun i hi => Engine.isModest_of_critical htree hi
    refine ⟨hanalysis, isModest_record.2 ?_⟩
    simp only [List.forall_mem_cons]
    exact ⟨rfl, hanalysis, hmetrics.toJson, Readiness.isModest_ofAnalysis _ _,
      ReviewCost.isModest_ofMetrics hmetrics hcost,
      VerdictReport.isModest_ofScore _ _ _ (Engine.length_critical_lt htree),
      Badge.isModest_toJson _, rfl, rfl, List.forall_mem_nil _⟩

end ScriptReview
