import ScriptReview.Proofs.Findings.Danger

namespace ScriptReview

namespace ShellCommand

variable {tree : SourceTree} {n p : Node} {a : Alias}

theorem plain_requires_iff : Plain.Requires tree n ↔ Requires tree n ∧ ¬ n.HidesArgument := by
  constructor
  · rintro ⟨hcalls, first, hfirst, hstring, hmodule⟩
    have hcomment : first.kind ≠ "comment" := by simp [hstring]
    obtain ⟨hargument, hshown⟩ :=
      (Node.head?_arguments_eq_some_iff hcalls.1 hcomment).mp hfirst
    exact ⟨⟨hcalls, first, hargument, hstring, hmodule⟩, hshown⟩
  · rintro ⟨⟨hcalls, first, hargument, hstring, hmodule⟩, hshown⟩
    have hcomment : first.kind ≠ "comment" := by simp [hstring]
    have hfirst := (Node.head?_arguments_eq_some_iff hcalls.1 hcomment).mpr ⟨hargument, hshown⟩
    exact ⟨hcalls, first, hfirst, hstring, hmodule⟩

/-! What the plain reading finds, the full one finds in the same place. -/

theorem bindsProperty_of_plain (h : Plain.BindsProperty tree p a) : BindsProperty tree p a := by
  cases h with
  | shorthand hkind hmethod => exact .shorthand p .itself hkind hmethod
  | renamed key value hkind hkey hvalue hident hmethod =>
      exact .renamed key value value hkind hkey hvalue .itself hident ⟨_, hmethod, .inl rfl⟩

theorem bindsImported_of_plain (h : Plain.BindsImported tree n a) : BindsImported tree n a := by
  cases h with
  | whole hkind => exact .whole hkind
  | namespaced name hkind hname hident => exact .namespaced name hkind hname hident
  | named specifier hkind hmem hspecifier hmethod =>
      cases hname : specifier.child? "name" with
      | none =>
          rw [hname] at hmethod
          have hempty : ([] : Text) ∉ methods := by decide
          exact absurd hmethod hempty
      | some name =>
          rw [hname] at hmethod
          exact .named specifier name hkind hmem hspecifier hname ⟨_, hmethod, .inl rfl⟩

theorem Reading.full_binds (h : (plain tree).Binds tree n a) : (full tree).Binds tree n a := by
  cases h with
  | whole value target hkind hvalue hrequires hname hident =>
      exact .whole value target hkind hvalue (plain_requires_iff.mp hrequires).1 hname hident
  | destructured value target property hkind hvalue hrequires hname hpattern hmem hbinds =>
      exact .destructured value target property hkind hvalue (plain_requires_iff.mp hrequires).1
        hname hpattern hmem (bindsProperty_of_plain hbinds)
  | imported hkind himports =>
      obtain ⟨hsource, clause, hclause, hkind', part, hpart, hbinds⟩ := himports
      have hpart' : ∃ part ∈ clause.namedChildren, BindsImported tree part a :=
        ⟨part, hpart, bindsImported_of_plain hbinds⟩
      exact .imported hkind (.inl ⟨hsource, clause, hclause, hkind', hpart'⟩)

theorem Reading.full_covers_plain (tree : SourceTree) : (full tree).Covers (plain tree) tree where
  requires _ _ h := (plain_requires_iff.mp h).1
  binds n _ hn h := ⟨n, hn, full_binds h⟩

/-- No node ties a name to the process module in a way that the plain reading passes over. -/
structure ShowsTies (tree : SourceTree) : Prop where
  argument : ∀ n ∈ tree.root.nodes, tree.textOf (n.child? "function") = Text.ofString "require" →
    ¬ n.HidesArgument
  shorthand : ∀ n ∈ tree.root.nodes, n.kind ≠ "object_assignment_pattern"
  renamed : ∀ n ∈ tree.root.nodes, n.kind = "pair_pattern" →
    (∀ key ∈ n.child? "key", key.kind ≠ "string") ∧
      ∀ value ∈ n.child? "value", value.kind ≠ "assignment_pattern"
  named : ∀ n ∈ tree.root.nodes, n.kind = "import_specifier" → ∀ name ∈ n.child? "name",
    name.kind ≠ "string" ∧ tree.text name ≠ Text.ofString "default"
  clause : ∀ n ∈ tree.root.nodes, n.kind ≠ "import_require_clause"

namespace ShowsTies

variable (h : ShowsTies tree)
include h

theorem requires (hn : tree.root.Contains n) (hr : Requires tree n) : Plain.Requires tree n := by
  refine plain_requires_iff.mpr ⟨hr, h.argument n hn ?_⟩
  obtain ⟨⟨-, f, hf, -, htext⟩, -⟩ := hr
  rw [hf]
  exact htext

theorem bindsProperty (hp : tree.root.Contains p) (hb : BindsProperty tree p a) :
    Plain.BindsProperty tree p a := by
  cases hb with
  | shorthand name htargets hkind hmethod =>
      cases htargets with
      | itself => exact .shorthand hkind hmethod
      | left _ hdefault => exact absurd hdefault (h.shorthand p hp)
  | renamed key value target hkind hkey hvalue htargets hident hspells =>
      obtain ⟨hunquoted, hplain⟩ := h.renamed p hp hkind
      obtain ⟨m, hmethod, rfl | ⟨hquoted, -⟩⟩ := hspells
      · cases htargets with
        | itself => exact .renamed key value hkind hkey hvalue hident hmethod
        | left _ hdefault => exact absurd hdefault (hplain value hvalue)
      · exact absurd hquoted (hunquoted key hkey)

theorem bindsImported (hn : tree.root.Contains n) (hb : BindsImported tree n a) :
    Plain.BindsImported tree n a := by
  cases hb with
  | whole hkind => exact .whole hkind
  | namespaced name hkind hname hident => exact .namespaced name hkind hname hident
  | named specifier name hkind hmem hspecifier hname hspells =>
      have hcontains := hn.child (Node.mem_namedChildren.mp hmem).1
      obtain ⟨m, hmethod, rfl | ⟨hquoted, -⟩⟩ := hspells
      · refine .named specifier hkind hmem hspecifier ?_
        rw [hname]
        exact hmethod
      · exact absurd hquoted (h.named specifier hcontains hspecifier name hname).1
  | default specifier name hkind hmem hspecifier hname hspells =>
      have hcontains := hn.child (Node.mem_namedChildren.mp hmem).1
      obtain ⟨hunquoted, hother⟩ := h.named specifier hcontains hspecifier name hname
      rcases hspells with htext | ⟨hquoted, -⟩
      · exact absurd htext hother
      · exact absurd hquoted hunquoted

theorem binds (hn : tree.root.Contains n) (hb : (Reading.full tree).Binds tree n a) :
    (Reading.plain tree).Binds tree n a := by
  cases hb with
  | whole value target hkind hvalue hrequires hname hident =>
      have hrequires' := h.requires (hn.child? hvalue) hrequires
      exact .whole value target hkind hvalue hrequires' hname hident
  | destructured value target property hkind hvalue hrequires hname hpattern hmem hbinds =>
      have hrequires' := h.requires (hn.child? hvalue) hrequires
      have hcontains := (hn.child? hname).child (Node.mem_namedChildren.mp hmem).1
      exact .destructured value target property hkind hvalue hrequires' hname hpattern hmem
        (h.bindsProperty hcontains hbinds)
  | imported hkind himports =>
      rcases himports with ⟨hsource, clause, hclause, hkind', part, hpart, hbinds⟩ |
        ⟨clause, hclause, hrequire, -⟩
      · have hcontains := hn.child (Node.mem_namedChildren.mp hclause).1
        have hcontains' := hcontains.child (Node.mem_namedChildren.mp hpart).1
        have hpart' : ∃ part ∈ clause.namedChildren, Plain.BindsImported tree part a :=
          ⟨part, hpart, h.bindsImported hcontains' hbinds⟩
        exact .imported hkind ⟨hsource, clause, hclause, hkind', hpart'⟩
      · have hcontains := hn.child (Node.mem_namedChildren.mp hclause).1
        exact absurd hrequire (h.clause clause hcontains)

theorem plain_covers_full : (Reading.plain tree).Covers (.full tree) tree where
  requires _ hn hr := h.requires hn hr
  binds n _ hn hb := ⟨n, hn, h.binds hn.contains hb⟩

end ShowsTies

end ShellCommand

open ShellCommand

variable {tree : SourceTree} {r s : Reading}

/-! What is dangerous by one reading is dangerous by any reading that covers it. -/

theorem ShellCommand.StandsForModule.of_covers {owner : Node} (h : r.Covers s tree)
    (howner : tree.root.Contains owner) (hs : StandsForModule tree s owner) :
    StandsForModule tree r owner := by
  cases hs with
  | customary hident hname => exact .customary hident hname
  | bound binder hident hbinder hbinds =>
      obtain ⟨other, hother, hbinds'⟩ := h.binds binder _ hbinder hbinds
      exact .bound other hident hother hbinds'
  | required hrequires => exact .required (h.requires owner howner hrequires)

theorem RunsShell.of_covers {n : Node} (h : r.Covers s tree) (hn : tree.root.Contains n)
    (hs : RunsShell tree s n) : RunsShell tree r n := by
  obtain ⟨hcall, f, hf, hmethod⟩ := hs
  refine ⟨hcall, f, hf, ?_⟩
  cases hmethod with
  | bound binder hident hbinder hbinds =>
      obtain ⟨other, hother, hbinds'⟩ := h.binds binder _ hbinder hbinds
      exact .bound other hident hother hbinds'
  | member owner hmember hproperty howner hmodule =>
      have hcontains := (hn.child? hf).child? howner
      exact .member owner hmember hproperty howner (hmodule.of_covers h hcontains)

theorem SourceTree.IsDangerous.of_covers (h : r.Covers s tree) (hs : tree.IsDangerous s) :
    tree.IsDangerous r := by
  obtain ⟨n, hn, htext | hshell⟩ := hs
  · exact ⟨n, hn, .inl htext⟩
  · exact ⟨n, hn, .inr (hshell.of_covers h hn.contains)⟩

end ScriptReview
