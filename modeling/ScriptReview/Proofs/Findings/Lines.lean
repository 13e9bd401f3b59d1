import ScriptReview.Proofs.Findings.Issues

namespace ScriptReview

namespace Issue

variable {α : Type}

/-- The issues that visits have, one for each line and always the first. -/
structure FirstOnLines (Has : α → Issue → Prop) (visits : List α) (issues : List Issue) :
    Prop where
  lines_nodup : (issues.map line).Nodup
  mem_lines_iff : ∀ l, l ∈ issues.map line ↔ ∃ v ∈ visits, ∃ i, Has v i ∧ i.line = l
  first : ∀ i ∈ issues, ∃ before v after, visits = before ++ v :: after ∧ Has v i ∧
    ∀ u ∈ before, ∀ j, Has u j → j.line ≠ i.line

theorem exists_append_of_mem_firstPerLineFrom {seen : List (Option Int)} {issues : List Issue}
    {i : Issue} (h : i ∈ firstPerLineFrom seen issues) :
    ∃ before after, issues = before ++ i :: after ∧ ∀ j ∈ before, j.line ≠ i.line := by
  induction issues generalizing seen with
  | nil => simp [firstPerLineFrom] at h
  | cons k issues ih =>
      rw [firstPerLineFrom] at h
      -- What is kept of the rest stands on none of the lines seen before it.
      have hnew {seen' : List (Option Int)} (hi : i ∈ firstPerLineFrom seen' issues) :
          i.line ∉ seen' :=
        (mem_lines_firstPerLineFrom.mp (List.mem_map_of_mem hi)).2
      split at h
      · rename_i hseen
        obtain ⟨before, after, rfl, hbefore⟩ := ih h
        refine ⟨k :: before, after, rfl, List.forall_mem_cons.mpr ⟨fun hk => ?_, hbefore⟩⟩
        exact hnew h (hk ▸ by simpa using hseen)
      · rcases List.mem_cons.mp h with rfl | h
        · exact ⟨[], issues, rfl, List.forall_mem_nil _⟩
        · obtain ⟨before, after, rfl, hbefore⟩ := ih h
          refine ⟨k :: before, after, rfl, List.forall_mem_cons.mpr ⟨fun hk => ?_, hbefore⟩⟩
          exact hnew h (hk ▸ List.mem_cons_self)

theorem firstOnLines_filterMap {f : α → Option Issue} {Has : α → Issue → Prop} {visits : List α}
    (h : ∀ v ∈ visits, ∀ i, f v = some i ↔ Has v i) :
    FirstOnLines Has visits (firstPerLine (visits.filterMap f)) where
  lines_nodup := nodup_lines_firstPerLineFrom [] _
  mem_lines_iff l := by
    rw [firstPerLine, mem_lines_firstPerLineFrom]
    simp only [List.mem_map, List.mem_filterMap, List.not_mem_nil, not_false_eq_true, and_true]
    constructor
    · rintro ⟨i, ⟨v, hv, hi⟩, hl⟩
      exact ⟨v, hv, i, (h v hv i).mp hi, hl⟩
    · rintro ⟨v, hv, i, hi, hl⟩
      exact ⟨i, ⟨v, hv, (h v hv i).mpr hi⟩, hl⟩
  first i hi := by
    obtain ⟨earlier, later, hfound, hearlier⟩ := exists_append_of_mem_firstPerLineFrom hi
    obtain ⟨before, rest, hvisits, hbefore, hrest⟩ := List.filterMap_eq_append_iff.mp hfound
    obtain ⟨skipped, v, after, rfl, hskipped, hv, -⟩ := List.filterMap_eq_cons_iff.mp hrest
    subst hvisits
    refine ⟨before ++ skipped, v, after, by simp, (h v (by simp) i).mp hv, fun u hu j hj => ?_⟩
    have huj : f u = some j := by
      refine (h u ?_ j).mpr hj
      rcases List.mem_append.mp hu with hu | hu <;> simp [hu]
    rcases List.mem_append.mp hu with hu | hu
    · exact hearlier j (hbefore ▸ List.mem_filterMap.mpr ⟨u, hu, huj⟩)
    · rw [hskipped u hu] at huj
      cases huj

def ofRule (rule : String) (issues : List Issue) : List Issue :=
  issues.filter fun i => i.ruleId == Text.ofString rule

theorem ofRule_append (rule : String) (xs ys : List Issue) :
    ofRule rule (xs ++ ys) = ofRule rule xs ++ ofRule rule ys :=
  List.filter_append xs ys

theorem ofRule_eq_self {rule : String} {issues : List Issue}
    (h : ∀ i ∈ issues, i.ruleId = Text.ofString rule) : ofRule rule issues = issues := by
  rw [ofRule, List.filter_eq_self]
  exact fun i hi => beq_iff_eq.mpr (h i hi)

theorem ofRule_eq_nil {rule other : String} {issues : List Issue}
    (h : ∀ i ∈ issues, i.ruleId = Text.ofString other)
    (hne : Text.ofString other ≠ Text.ofString rule) : ofRule rule issues = [] := by
  rw [ofRule, List.filter_eq_nil_iff]
  intro i hi
  rw [h i hi, beq_iff_eq]
  exact hne

end Issue

theorem AsyncGuard.ruleId_of_mem_check {tree : SourceTree} {i : Issue} (h : i ∈ check tree) :
    i.ruleId = Text.ofString "async_without_try" := by
  obtain ⟨v, -, rfl⟩ := List.mem_map.mp h
  rfl

theorem ArrayAccess.ruleId_of_mem_check {tree : SourceTree} {i : Issue} (h : i ∈ check tree) :
    i.ruleId = Text.ofString "unchecked_array_access" := by
  obtain ⟨n, name, -, rfl⟩ := exists_of_mem_check h
  rfl

theorem RequestInput.ruleId_of_mem_check {tree : SourceTree} {i : Issue} (h : i ∈ check tree) :
    i.ruleId = Text.ofString "unchecked_external_input" := by
  obtain ⟨o, -, rfl⟩ := List.mem_map.mp (Issue.mem_of_mem_firstPerLine h)
  rfl

theorem Engine.ofRule_asyncGuard (tree : SourceTree) :
    Issue.ofRule "async_without_try" (edgeCases tree) = AsyncGuard.check tree := by
  rw [edgeCases, Issue.ofRule_append, Issue.ofRule_append,
    Issue.ofRule_eq_self fun _ => AsyncGuard.ruleId_of_mem_check,
    Issue.ofRule_eq_nil (fun _ => ArrayAccess.ruleId_of_mem_check) (by decide),
    Issue.ofRule_eq_nil (fun _ => RequestInput.ruleId_of_mem_check) (by decide)]
  simp

theorem Engine.ofRule_arrayAccess (tree : SourceTree) :
    Issue.ofRule "unchecked_array_access" (edgeCases tree) = ArrayAccess.check tree := by
  rw [edgeCases, Issue.ofRule_append, Issue.ofRule_append,
    Issue.ofRule_eq_nil (fun _ => AsyncGuard.ruleId_of_mem_check) (by decide),
    Issue.ofRule_eq_self fun _ => ArrayAccess.ruleId_of_mem_check,
    Issue.ofRule_eq_nil (fun _ => RequestInput.ruleId_of_mem_check) (by decide)]
  simp

end ScriptReview
