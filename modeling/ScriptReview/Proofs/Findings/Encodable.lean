import ScriptReview.Proofs.Json.Encodable

namespace ScriptReview

namespace SourceTree

variable (tree : SourceTree)

@[simp] theorem isScalar_slice (bytes : Array UInt8) (start stop : Nat) :
    (slice bytes start stop).isScalar = true :=
  Utf8.isScalar_decode _

@[simp] theorem isScalar_text (n : Node) : (tree.text n).isScalar = true :=
  isScalar_slice _ _ _

@[simp] theorem isScalar_textOf (n : Option Node) : (tree.textOf n).isScalar = true := by
  cases n with
  | none => rfl
  | some n => exact tree.isScalar_text n

@[simp] theorem isScalar_stringValue (n : Node) : (tree.stringValue n).isScalar = true := by
  simp only [stringValue]
  split_ifs
  · have hsublist : ((tree.text n).drop 1).dropLast.Sublist (tree.text n) :=
      (List.dropLast_sublist _).trans (List.drop_sublist _ _)
    exact Text.isScalar_of_sublist hsublist (tree.isScalar_text n)
  · rfl

theorem isScalar_of_calleeName? {callee : Option Node} {name : Text}
    (h : tree.calleeName? callee = some name) : name.isScalar = true := by
  cases callee with
  | none => cases h
  | some n =>
      simp only [calleeName?] at h
      split_ifs at h
      · cases h
        exact tree.isScalar_text n
      · cases h
        exact tree.isScalar_textOf _

theorem isScalar_of_boundName? {parent : Node} {name : Text}
    (h : tree.boundName? parent = some name) : name.isScalar = true := by
  rw [boundName?] at h
  split_ifs at h
  · split at h
    · split_ifs at h
      cases h
      exact tree.isScalar_text _
    · cases h
  · obtain ⟨key, -, rfl⟩ := Option.map_eq_some_iff.1 h
    split_ifs <;> simp

@[simp] theorem isScalar_functionName (n : Node) (parent : Option Node) :
    (tree.functionName n parent).isScalar = true := by
  rw [functionName]
  split
  · simp
  · split
    · rename_i name hname
      obtain ⟨p, -, hbound⟩ := Option.bind_eq_some_iff.1 hname
      rw [Text.isScalar_cited]
      exact tree.isScalar_of_boundName? hbound
    · simp [Text.isScalar_append]

end SourceTree

namespace Breakage

theorem isScalar_snippet {t : Text} (h : t.isScalar = true) : (snippet t).isScalar = true := by
  have hstrip : t.strip.Sublist t := by
    have hright : ((t.dropWhile Symbol.isBlank).reverse.dropWhile Symbol.isBlank).reverse.Sublist
        (t.dropWhile Symbol.isBlank).reverse.reverse := (List.dropWhile_sublist _).reverse
    rw [List.reverse_reverse] at hright
    exact hright.trans (List.dropWhile_sublist _)
  have hline : (t.strip.firstLine.take 20).Sublist t :=
    (List.take_sublist _ _).trans ((List.takeWhile_sublist _).trans hstrip)
  exact Text.isScalar_of_sublist hline h

/-- The parser's message can be held, whatever it quotes. -/
theorem isScalar_describe (bytes : Array UInt8) (root : Node) :
    (describe bytes root).isScalar = true := by
  unfold describe describeNode position
  dsimp only
  split
  · split_ifs
    · simp [Text.isScalar_append]
    · simp [Text.isScalar_append]
    · simp [Text.isScalar_append, isScalar_snippet]
  · simp

end Breakage

namespace Issue

structure IsScalar (i : Issue) : Prop where
  rule : i.ruleId.isScalar = true
  comment : i.comment.isScalar = true
  filename : ∀ f ∈ i.filename, f.isScalar = true

theorem isScalar_plain {rule : String} {penalty line : Nat} {comment : Text}
    (h : comment.isScalar = true) : (plain rule penalty line comment).IsScalar :=
  ⟨Text.isScalar_ofString rule, h, nofun⟩

theorem isScalar_severe {rule : String} {penalty line : Nat} {severity : Severity} {comment : Text}
    (h : comment.isScalar = true) : (severe rule penalty severity line comment).IsScalar :=
  ⟨Text.isScalar_ofString rule, h, nofun⟩

end Issue

namespace ShellCommand

theorem isScalar_of_mem_methods {method : Text} (h : method ∈ methods) :
    method.isScalar = true := by
  have hall : ∀ m ∈ methods, Text.isScalar m = true := by decide
  exact hall method h

def Bindings.Named (b : Bindings) : Prop :=
  ∀ e ∈ b.aliases, e.2 ∈ methods

theorem Bindings.Named.addMethod {b : Bindings} (h : b.Named) (name method : Text) :
    (b.addMethod name method).Named := by
  rw [Bindings.addMethod]
  split_ifs with hmethod
  · rw [Bindings.Named, List.forall_mem_cons]
    exact ⟨by simpa using hmethod, h⟩
  · exact h

variable {tree : SourceTree} {b : Bindings}

theorem Bindings.Named.bindProperty (h : b.Named) (n : Node) :
    (bindProperty tree b n).Named := by
  rw [ShellCommand.bindProperty]
  split_ifs
  · exact h.addMethod _ _
  · split
    · split_ifs
      · exact h.addMethod _ _
      · exact h
    · exact h
  · exact h

theorem Bindings.Named.bindDeclarator (h : b.Named) (n : Node) :
    (bindDeclarator tree b n).Named := by
  rw [ShellCommand.bindDeclarator]
  split
  · exact h
  · split_ifs
    · exact h
    · exact List.foldlRecOn _ _ h fun b hb n _ => hb.bindProperty n
    · exact h

theorem Bindings.Named.bindSpecifier (h : b.Named) (n : Node) :
    (bindSpecifier tree b n).Named := by
  rw [ShellCommand.bindSpecifier]
  split_ifs
  · exact h.addMethod _ _
  · exact h

theorem Bindings.Named.bindImported (h : b.Named) (n : Node) :
    (bindImported tree b n).Named := by
  rw [ShellCommand.bindImported]
  split_ifs
  · exact h
  · exact List.foldlRecOn _ _ h fun b hb n _ => hb
  · exact List.foldlRecOn _ _ h fun b hb n _ => hb.bindSpecifier n
  · exact h

theorem Bindings.Named.bindClause (h : b.Named) (n : Node) : (bindClause tree b n).Named := by
  rw [ShellCommand.bindClause]
  split_ifs
  · exact List.foldlRecOn _ _ h fun b hb n _ => hb.bindImported n
  · exact h

theorem Bindings.Named.bindNode (h : b.Named) (n : Node) : (bindNode tree b n).Named := by
  rw [ShellCommand.bindNode]
  split_ifs
  · exact h.bindDeclarator n
  · exact h
  · exact List.foldlRecOn _ _ h fun b hb n _ => hb.bindClause n
  · exact h
  · exact h

theorem named_bindings (tree : SourceTree) : (bindings tree).Named :=
  List.foldlRecOn _ _ nofun fun _ hb v _ => hb.bindNode v.1

theorem mem_methods_of_method? (h : b.Named) {callee : Node} {method : Text}
    (hmethod : method? tree b callee = some method) : method ∈ methods := by
  rw [method?] at hmethod
  split_ifs at hmethod
  · obtain ⟨before, after, haliases, -⟩ := List.lookup_eq_some_iff.1 hmethod
    exact h _ (haliases ▸ List.mem_append_right before List.mem_cons_self)
  · dsimp only at hmethod
    split_ifs at hmethod with hmem
    cases hmethod
    rw [Bool.and_eq_true, List.contains_iff_mem] at hmem
    exact hmem.1

end ShellCommand

namespace Engine

open Issue (isScalar_plain isScalar_severe)

variable {tree : SourceTree} {i : Issue}

theorem isScalar_dynamicCode (h : i ∈ DynamicCode.check tree) : i.IsScalar := by
  obtain ⟨n, -, hn⟩ := exists_of_mem_filterMap_walk h
  rcases DynamicCode.issue?_cases hn with ⟨name, rfl | rfl, rfl⟩ | rfl
  · exact isScalar_severe (by simp [Text.isScalar_append])
  · exact isScalar_severe (by simp [Text.isScalar_append])
  · exact isScalar_severe (by simp [Text.isScalar_append])

theorem isScalar_shellCommand (h : i ∈ ShellCommand.check tree) : i.IsScalar := by
  obtain ⟨n, -, hn⟩ := exists_of_mem_filterMap_walk h
  rw [ShellCommand.issue?] at hn
  split_ifs at hn
  obtain ⟨method, hmethod, rfl⟩ := Option.map_eq_some_iff.1 hn
  obtain ⟨callee, -, hmethod⟩ := Option.bind_eq_some_iff.1 hmethod
  have hmem := ShellCommand.mem_methods_of_method? (ShellCommand.named_bindings tree) hmethod
  have hscalar := ShellCommand.isScalar_of_mem_methods hmem
  exact isScalar_severe (by simp [Text.isScalar_append, hscalar])

theorem isScalar_hardcodedSecret (h : i ∈ HardcodedSecret.check tree) : i.IsScalar := by
  obtain ⟨n, -, hn⟩ := exists_of_mem_filterMap_walk h
  rw [HardcodedSecret.issue?] at hn
  split_ifs at hn
  · cases hn
    exact isScalar_severe (by simp [Text.isScalar_append])
  · obtain ⟨name, hname, rfl⟩ := Option.map_eq_some_iff.1 hn
    rw [HardcodedSecret.secretName?] at hname
    split at hname
    · cases hname
    · have hscalar := tree.isScalar_of_calleeName? (Option.filter_eq_some_iff.1 hname).1
      exact isScalar_severe (by simp [Text.isScalar_append, hscalar])

theorem isScalar_injection (h : i ∈ Injection.check tree) : i.IsScalar := by
  obtain ⟨v, -, hv⟩ := List.mem_filterMap.1 (Issue.mem_of_mem_firstPerLine h)
  obtain ⟨severity, problem, advice, hwording, rfl⟩ := Injection.issue?_wording hv
  have hsinks : ∀ sink ∈ Injection.sinks, Text.isScalar sink = true := by decide
  apply isScalar_severe
  cases hwording with
  | assigned hsink => simp [Text.isScalar_append, hsinks _ hsink]
  | query hplace =>
      simp only [List.mem_cons, List.not_mem_nil, or_false] at hplace
      rcases hplace with rfl | rfl <;> simp [Text.isScalar_append]
  | markup hplace =>
      simp only [List.mem_cons, List.not_mem_nil, or_false] at hplace
      rcases hplace with rfl | rfl <;> simp [Text.isScalar_append]

theorem isScalar_security (h : i ∈ security tree) : i.IsScalar := by
  simp only [security, List.mem_append] at h
  rcases h with ((h | h) | h) | h
  · exact isScalar_dynamicCode h
  · exact isScalar_shellCommand h
  · exact isScalar_hardcodedSecret h
  · exact isScalar_injection h

theorem isScalar_asyncGuard (h : i ∈ AsyncGuard.check tree) : i.IsScalar := by
  obtain ⟨v, -, rfl⟩ := List.mem_map.1 h
  exact isScalar_plain (by simp [Text.isScalar_append])

theorem isScalar_arrayAccess (h : i ∈ ArrayAccess.check tree) : i.IsScalar := by
  obtain ⟨n, name, hname, rfl⟩ := ArrayAccess.exists_of_mem_check h
  have hscalar : name.isScalar = true := by
    rw [ArrayAccess.accessedName?] at hname
    split_ifs at hname
    split at hname
    · split_ifs at hname
      cases hname
      exact tree.isScalar_text _
    · cases hname
  exact isScalar_plain (by simp [Text.isScalar_append, hscalar])

theorem isScalar_of_path? {n : Node} {path : Text} (h : RequestInput.path? tree n = some path) :
    path.isScalar = true := by
  rw [RequestInput.path?] at h
  split_ifs at h
  split at h
  · dsimp only at h
    split_ifs at h
    cases h
    simp [Text.isScalar_append]
  · cases h

theorem isScalar_requestInput (h : i ∈ RequestInput.check tree) : i.IsScalar := by
  obtain ⟨o, ho, rfl⟩ := List.mem_map.1 (Issue.mem_of_mem_firstPerLine h)
  obtain ⟨v, -, hv⟩ := List.mem_filterMap.1 (List.mem_filter.1 ho).1
  obtain ⟨path, hpath, rfl⟩ := Option.map_eq_some_iff.1 hv
  exact isScalar_plain (by simp [Text.isScalar_append, isScalar_of_path? hpath])

theorem isScalar_edgeCases (h : i ∈ edgeCases tree) : i.IsScalar := by
  simp only [edgeCases, List.mem_append] at h
  rcases h with (h | h) | h
  · exact isScalar_asyncGuard h
  · exact isScalar_arrayAccess h
  · exact isScalar_requestInput h

theorem isScalar_functionSize {n : Node} {parent : Option Node}
    (h : i ∈ FunctionSize.check tree n parent) : i.IsScalar := by
  simp only [FunctionSize.check, FunctionSize.longFunction, FunctionSize.manyStatements,
    List.mem_append] at h
  rcases h with h | h
  · split_ifs at h
    · rw [List.mem_singleton.1 h]
      exact isScalar_plain (by simp [Text.isScalar_append])
    · cases h
  · split at h
    · cases h
    · split_ifs at h
      · rw [List.mem_singleton.1 h]
        exact isScalar_plain (by simp [Text.isScalar_append])
      · cases h

theorem isScalar_naming {n parent : Node} (h : i ∈ Naming.check tree n parent) : i.IsScalar := by
  unfold Naming.check at h
  dsimp only at h
  split_ifs at h
  · cases h
  · rw [List.mem_singleton.1 h]
    exact isScalar_plain (by simp [Text.isScalar_append])

theorem isScalar_readability (h : i ∈ readability tree) : i.IsScalar := by
  simp only [readability, List.mem_append, List.mem_flatMap] at h
  rcases h with ⟨v, -, h⟩ | h
  · split_ifs at h
    · exact isScalar_functionSize h
    · obtain ⟨parent, -, h⟩ := List.mem_flatMap.1 h
      exact isScalar_naming h
    · cases h
  · obtain ⟨v, -, rfl⟩ := List.mem_map.1 (Issue.mem_of_mem_firstPerLine h)
    exact isScalar_plain (by simp [Text.isScalar_append])

theorem isScalar_complexity (h : i ∈ Branching.findings tree) : i.IsScalar := by
  rw [Branching.findings] at h
  split_ifs at h
  · unfold Branching.globalIssue at h
    dsimp only at h
    split_ifs at h
    · cases h
    · rw [List.mem_singleton.1 h]
      exact isScalar_plain (by simp [Text.isScalar_append])
  · obtain ⟨v, -, h⟩ := List.mem_flatMap.1 h
    rw [Branching.complexityIssue] at h
    split_ifs at h
    · cases h
    · rw [List.mem_singleton.1 h]
      exact isScalar_plain (by simp [Text.isScalar_append])

/-- Whatever the standard engine finds can be held in UTF-8. -/
theorem isScalar_of_mem_found {c : Category} (h : i ∈ found tree c) : i.IsScalar := by
  cases c with
  | readability => exact isScalar_readability h
  | complexity => exact isScalar_complexity h
  | edgeCases => exact isScalar_edgeCases h
  | security => exact isScalar_security h

end Engine

end ScriptReview
