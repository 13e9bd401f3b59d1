import ScriptReview.Proofs.Findings.Issues
import ScriptReview.Proofs.Trivia.Bare

namespace ScriptReview

def SourceTree.Names (tree : SourceTree) (n : Node) (name : Text) : Prop :=
  (n.kind = "identifier" ∧ tree.text n = name) ∨
    (n.kind = "member_expression" ∧ tree.textOf (n.child? "property") = name)

inductive RunsText (tree : SourceTree) (n : Node) : Prop
  | call (f : Node) : n.kind = "call_expression" → n.child? "function" = some f →
      (tree.Names f "eval" ∨ tree.Names f "Function") → RunsText tree n
  | construction (f : Node) : n.kind = "new_expression" → n.child? "constructor" = some f →
      tree.Names f "Function" → RunsText tree n

/-- The argument that a call passes first. A comment is none. -/
def Node.firstArgument? (call : Node) : Option Node :=
  (call.child? "arguments").bind fun args => args.namedChildren.find? (·.kind != "comment")

def Node.HidesArgument (n : Node) : Prop :=
  n.kind = "call_expression" ∧ (n.child? "arguments").any opensWithComment = true

instance (n : Node) : Decidable n.HidesArgument :=
  inferInstanceAs (Decidable (_ ∧ _))

/-- What comes first in the arguments is the first argument, unless it is a comment. -/
theorem Node.head?_arguments_eq_some_iff {n argument : Node} (hcall : n.kind = "call_expression")
    (hargument : argument.kind ≠ "comment") :
    (n.child? "arguments").bind (·.namedChildren.head?) = some argument ↔
      n.firstArgument? = some argument ∧ ¬ n.HidesArgument := by
  simp only [firstArgument?, HidesArgument, hcall, true_and]
  cases n.child? "arguments" with
  | none => simp
  | some args =>
      simp only [Option.bind_some, Option.any_some, opensWithComment, Kind.comment]
      cases args.namedChildren with
      | nil => simp
      | cons c rest =>
          by_cases hc : c.kind = "comment"
          · have hne : c ≠ argument := fun h => hargument (h ▸ hc)
            simp [hc, hne]
          · simp [hc]

/-- What a place in a pattern binds: itself, or what stands there before a default value. -/
inductive Node.Targets (defaulted : String) (place : Node) : Node → Prop
  | itself : Node.Targets defaulted place place
  | left (target : Node) : place.kind = defaulted → place.child? "left" = some target →
      Node.Targets defaulted place target

def SourceTree.Spells (tree : SourceTree) (n : Node) (name : Text) : Prop :=
  tree.text n = name ∨ (n.kind = "string" ∧ tree.stringValue n = name)

namespace ShellCommand

inductive Alias where
  | module (name : Text)
  | method (name : Text)

/-- What in a file is taken for a tie to the process module: the calls that require it, and what a
property of a pattern or an import statement binds to it. -/
structure Reading where
  requires : Node → Prop
  property : Node → Alias → Prop
  imports : Node → Alias → Prop

def CallsRequire (tree : SourceTree) (n : Node) : Prop :=
  n.kind = "call_expression" ∧ ∃ f, n.child? "function" = some f ∧ f.kind = "identifier" ∧
    tree.text f = Text.ofString "require"

def localName (tree : SourceTree) (specifier : Node) : Text :=
  if tree.textOf (specifier.child? "alias") = [] then tree.textOf (specifier.child? "name")
  else tree.textOf (specifier.child? "alias")

def ImportsPart (tree : SourceTree) (binds : Node → Alias → Prop) (n : Node) (a : Alias) : Prop :=
  (∃ source, n.child? "source" = some source ∧ tree.stringValue source ∈ moduleNames) ∧
    ∃ clause ∈ n.namedChildren, clause.kind = "import_clause" ∧
      ∃ part ∈ clause.namedChildren, binds part a

/-! What the file says, whatever comments, default values and quotes stand in it. -/

structure Requires (tree : SourceTree) (n : Node) : Prop where
  calls : CallsRequire tree n
  argument : ∃ first, n.firstArgument? = some first ∧ first.kind = "string" ∧
    tree.stringValue first ∈ moduleNames

inductive BindsProperty (tree : SourceTree) (p : Node) : Alias → Prop
  | shorthand (name : Node) : Node.Targets "object_assignment_pattern" p name →
      name.kind = "shorthand_property_identifier_pattern" → tree.text name ∈ methods →
      BindsProperty tree p (.method (tree.text name))
  | renamed (key value target : Node) : p.kind = "pair_pattern" → p.child? "key" = some key →
      p.child? "value" = some value → Node.Targets "assignment_pattern" value target →
      target.kind = "identifier" → (∃ m ∈ methods, tree.Spells key m) →
      BindsProperty tree p (.method (tree.text target))

inductive BindsImported (tree : SourceTree) (n : Node) : Alias → Prop
  | whole : n.kind = "identifier" → BindsImported tree n (.module (tree.text n))
  | namespaced (name : Node) : n.kind = "namespace_import" → name ∈ n.namedChildren →
      name.kind = "identifier" → BindsImported tree n (.module (tree.text name))
  | named (specifier name : Node) : n.kind = "named_imports" → specifier ∈ n.namedChildren →
      specifier.kind = "import_specifier" → specifier.child? "name" = some name →
      (∃ m ∈ methods, tree.Spells name m) →
      BindsImported tree n (.method (localName tree specifier))
  | default (specifier name : Node) : n.kind = "named_imports" → specifier ∈ n.namedChildren →
      specifier.kind = "import_specifier" → specifier.child? "name" = some name →
      tree.Spells name "default" →
      BindsImported tree n (.module (localName tree specifier))

def ImportsRequired (tree : SourceTree) (n : Node) (a : Alias) : Prop :=
  ∃ clause ∈ n.namedChildren, clause.kind = "import_require_clause" ∧
    (∃ source, clause.child? "source" = some source ∧ tree.stringValue source ∈ moduleNames) ∧
    ∃ name ∈ clause.namedChildren, name.kind = "identifier" ∧ a = .module (tree.text name)

def Reading.full (tree : SourceTree) : Reading where
  requires := Requires tree
  property := BindsProperty tree
  imports n a := ImportsPart tree (BindsImported tree) n a ∨ ImportsRequired tree n a

/-! What the check looks at: the first node between the parentheses, properties without default
values, and names as they are written. -/

namespace Plain

structure Requires (tree : SourceTree) (n : Node) : Prop where
  calls : CallsRequire tree n
  argument : ∃ first, (n.child? "arguments").bind (·.namedChildren.head?) = some first ∧
    first.kind = "string" ∧ tree.stringValue first ∈ moduleNames

inductive BindsProperty (tree : SourceTree) (p : Node) : Alias → Prop
  | shorthand : p.kind = "shorthand_property_identifier_pattern" → tree.text p ∈ methods →
      BindsProperty tree p (.method (tree.text p))
  | renamed (key value : Node) : p.kind = "pair_pattern" → p.child? "key" = some key →
      p.child? "value" = some value → value.kind = "identifier" → tree.text key ∈ methods →
      BindsProperty tree p (.method (tree.text value))

inductive BindsImported (tree : SourceTree) (n : Node) : Alias → Prop
  | whole : n.kind = "identifier" → BindsImported tree n (.module (tree.text n))
  | namespaced (name : Node) : n.kind = "namespace_import" → name ∈ n.namedChildren →
      name.kind = "identifier" → BindsImported tree n (.module (tree.text name))
  | named (specifier : Node) : n.kind = "named_imports" → specifier ∈ n.namedChildren →
      specifier.kind = "import_specifier" → tree.textOf (specifier.child? "name") ∈ methods →
      BindsImported tree n (.method (localName tree specifier))

end Plain

def Reading.plain (tree : SourceTree) : Reading where
  requires := Plain.Requires tree
  property := Plain.BindsProperty tree
  imports := ImportsPart tree (Plain.BindsImported tree)

inductive Reading.Binds (r : Reading) (tree : SourceTree) (n : Node) : Alias → Prop
  | whole (value target : Node) : n.kind = "variable_declarator" → n.child? "value" = some value →
      r.requires value → n.child? "name" = some target → target.kind = "identifier" →
      Reading.Binds r tree n (.module (tree.text target))
  | destructured (value target property : Node) {a : Alias} : n.kind = "variable_declarator" →
      n.child? "value" = some value → r.requires value → n.child? "name" = some target →
      target.kind = "object_pattern" → property ∈ target.namedChildren →
      r.property property a → Reading.Binds r tree n a
  | imported {a : Alias} : n.kind = "import_statement" → r.imports n a → Reading.Binds r tree n a

inductive StandsForModule (tree : SourceTree) (r : Reading) (owner : Node) : Prop
  | customary : owner.kind = "identifier" → tree.text owner ∈ customaryNames →
      StandsForModule tree r owner
  | bound (binder : Node) : owner.kind = "identifier" → tree.root.Reaches binder →
      r.Binds tree binder (.module (tree.text owner)) → StandsForModule tree r owner
  | required : r.requires owner → StandsForModule tree r owner

inductive IsShellMethod (tree : SourceTree) (r : Reading) (f : Node) : Prop
  | bound (binder : Node) : f.kind = "identifier" → tree.root.Reaches binder →
      r.Binds tree binder (.method (tree.text f)) → IsShellMethod tree r f
  | member (owner : Node) : f.kind = "member_expression" →
      tree.textOf (f.child? "property") ∈ methods → f.child? "object" = some owner →
      StandsForModule tree r owner → IsShellMethod tree r f

/-- Whatever another reading finds in the file, this one finds too, if need be elsewhere. -/
structure Reading.Covers (r s : Reading) (tree : SourceTree) : Prop where
  requires : ∀ n, tree.root.Contains n → s.requires n → r.requires n
  binds : ∀ n a, tree.root.Reaches n → s.Binds tree n a →
    ∃ m, tree.root.Reaches m ∧ r.Binds tree m a

end ShellCommand

def RunsShell (tree : SourceTree) (r : ShellCommand.Reading) (n : Node) : Prop :=
  n.kind = "call_expression" ∧
    ∃ f, n.child? "function" = some f ∧ ShellCommand.IsShellMethod tree r f

/-- Some node that named children lead to runs code built from text or a shell command. -/
def SourceTree.IsDangerous (tree : SourceTree) (r : ShellCommand.Reading) : Prop :=
  ∃ n, tree.root.Reaches n ∧ (RunsText tree n ∨ RunsShell tree r n)

theorem Node.isIdentifier_iff {n : Node} : n.isIdentifier = true ↔ n.kind = "identifier" :=
  beq_iff_eq

theorem Node.isIdentifier_eq_false {n : Node} (h : n.kind ≠ "identifier") :
    n.isIdentifier = false :=
  Bool.eq_false_iff.mpr fun hi => h (isIdentifier_iff.mp hi)

theorem SourceTree.calleeName?_eq_some_iff {tree : SourceTree} {callee : Option Node}
    {name : Text} :
    tree.calleeName? callee = some name ↔ ∃ f, callee = some f ∧ tree.Names f name := by
  cases callee with
  | none => simp [calleeName?]
  | some f =>
      simp only [calleeName?, Node.isIdentifier, Kind.identifier, Kind.member, Names,
        Option.some.injEq, exists_eq_left']
      by_cases hi : f.kind = "identifier"
      · simp [hi]
      · by_cases hm : f.kind = "member_expression" <;> simp [hi, hm]

namespace DynamicCode

theorem name?_eq_some_iff {tree : SourceTree} {callee : Option Node} {name : Text} :
    name? tree callee = some name ↔
      (∃ f, callee = some f ∧ tree.Names f name) ∧
        (name = Text.ofString "eval" ∨ name = Text.ofString "Function") := by
  rw [name?, Option.filter_eq_some_iff, SourceTree.calleeName?_eq_some_iff]
  simp

theorem isSome_issue?_iff {tree : SourceTree} {n : Node} :
    (issue? tree n).isSome = true ↔ RunsText tree n := by
  rw [issue?]
  by_cases hc : n.kind = "call_expression"
  · simp only [hc, Kind.call, beq_self_eq_true, if_true, Option.isSome_map]
    rw [Option.isSome_iff_exists]
    constructor
    · rintro ⟨name, hname⟩
      obtain ⟨⟨f, hf, hn⟩, rfl | rfl⟩ := name?_eq_some_iff.mp hname
      · exact .call f hc hf (.inl hn)
      · exact .call f hc hf (.inr hn)
    · rintro (⟨f, _, hf, hn | hn⟩ | ⟨f, hk, _⟩)
      · exact ⟨_, name?_eq_some_iff.mpr ⟨⟨f, hf, hn⟩, .inl rfl⟩⟩
      · exact ⟨_, name?_eq_some_iff.mpr ⟨⟨f, hf, hn⟩, .inr rfl⟩⟩
      · simp [hc] at hk
  · by_cases hk : n.kind = "new_expression"
    · have hcall : ("new_expression" == Kind.call) = false := by decide
      simp only [hk, hcall, beq_self_eq_true, if_true, Bool.false_eq_true, if_false, beq_iff_eq,
        apply_ite Option.isSome, Option.isSome_some, Option.isSome_none]
      constructor
      · intro h
        split at h
        · rename_i hname
          obtain ⟨⟨f, hf, hn⟩, _⟩ := name?_eq_some_iff.mp hname
          exact .construction f hk hf hn
        · simp at h
      · rintro (⟨f, hk', _⟩ | ⟨f, _, hf, hn⟩)
        · exact absurd hk' hc
        · rw [if_pos (name?_eq_some_iff.mpr ⟨⟨f, hf, hn⟩, .inr rfl⟩)]
    · simp only [Kind.call, beq_iff_eq, hc, hk, if_false, Option.isSome_none, Bool.false_eq_true,
        false_iff]
      rintro (⟨_, h, _⟩ | ⟨_, h, _⟩)
      · exact hc h
      · exact hk h

theorem check_ne_nil_iff {tree : SourceTree} :
    check tree ≠ [] ↔ ∃ n, tree.root.Reaches n ∧ RunsText tree n := by
  rw [check, firstPerLine_filterMap_walk_ne_nil_iff]
  simp only [isSome_issue?_iff]

end DynamicCode

namespace ShellCommand

theorem isRequire_iff {tree : SourceTree} {n : Node} :
    isRequire tree n = true ↔ Plain.Requires tree n := by
  simp only [isRequire, Node.isIdentifier, Kind.call, Kind.identifier, Kind.string,
    Bool.and_eq_true, beq_iff_eq, Option.any_eq_true, List.contains_eq_mem, decide_eq_true_eq]
  constructor
  · rintro ⟨⟨hk, f, hf, hi, ht⟩, first, hh, hs, hm⟩
    exact ⟨⟨hk, f, hf, hi, ht⟩, first, hh, hs, hm⟩
  · rintro ⟨⟨hk, f, hf, hi, ht⟩, first, hh, hs, hm⟩
    exact ⟨⟨hk, f, hf, hi, ht⟩, first, hh, hs, hm⟩

def Bindings.Has (b : Bindings) : Alias → Prop
  | .module name => name ∈ b.modules
  | .method name => name ∈ b.aliases.map Prod.fst

theorem Bindings.not_has_empty (a : Alias) : ¬ Bindings.empty.Has a := by
  cases a <;> simp [Has, empty]

theorem Bindings.has_addModule {b : Bindings} {name : Text} {a : Alias} :
    (b.addModule name).Has a ↔ b.Has a ∨ a = .module name := by
  cases a with
  | module m => simp [Has, addModule, or_comm]
  | method m => simp [Has, addModule]

theorem Bindings.has_addMethod {b : Bindings} {name method : Text} {a : Alias} :
    (b.addMethod name method).Has a ↔ b.Has a ∨ (method ∈ methods ∧ a = .method name) := by
  rw [addMethod]
  by_cases hm : method ∈ methods
  · cases a with
    | module m => simp [Has, hm]
    | method m => simp [Has, hm, or_comm]
  · simp [hm]

/-- If each item adds its own aliases to a table, all of them together add all of these. -/
theorem has_foldl {α : Type} {f : Bindings → α → Bindings} {P : α → Alias → Prop}
    (h : ∀ b x a, (f b x).Has a ↔ b.Has a ∨ P x a) (xs : List α) (b : Bindings) (a : Alias) :
    (xs.foldl f b).Has a ↔ b.Has a ∨ ∃ x ∈ xs, P x a := by
  induction xs generalizing b with
  | nil => simp
  | cons x xs ih => rw [List.foldl_cons, ih, h, or_assoc]; simp

theorem has_bindProperty (tree : SourceTree) (b : Bindings) (p : Node) (a : Alias) :
    (bindProperty tree b p).Has a ↔ b.Has a ∨ Plain.BindsProperty tree p a := by
  rw [bindProperty]
  by_cases hs : p.kind = "shorthand_property_identifier_pattern"
  · simp only [hs, beq_self_eq_true, if_true, Bindings.has_addMethod]
    refine or_congr_right ⟨?_, ?_⟩
    · rintro ⟨hm, rfl⟩
      exact .shorthand hs hm
    · rintro (⟨_, hm⟩ | ⟨_, _, hk, _⟩)
      · exact ⟨hm, rfl⟩
      · simp [hs] at hk
  · by_cases hp : p.kind = "pair_pattern"
    · have hne : ("pair_pattern" == "shorthand_property_identifier_pattern") = false := by decide
      simp only [hp, hne, beq_self_eq_true, if_true, Bool.false_eq_true, if_false]
      split
      · rename_i key value hkey hvalue
        split
        · rename_i hi
          rw [Bindings.has_addMethod]
          refine or_congr_right ⟨?_, ?_⟩
          · rintro ⟨hm, rfl⟩
            exact .renamed key value hp hkey hvalue (Node.isIdentifier_iff.mp hi) hm
          · rintro (⟨hk, _⟩ | ⟨key', value', _, hkey', hvalue', _, hm⟩)
            · exact absurd hk hs
            · obtain rfl : key = key' := Option.some.inj (hkey ▸ hkey')
              obtain rfl : value = value' := Option.some.inj (hvalue ▸ hvalue')
              exact ⟨hm, rfl⟩
        · rename_i hi
          refine (or_iff_left ?_).symm
          rintro (⟨hk, _⟩ | ⟨key', value', _, _, hvalue', hi', _⟩)
          · exact hs hk
          · obtain rfl : value = value' := Option.some.inj (hvalue ▸ hvalue')
            exact hi (Node.isIdentifier_iff.mpr hi')
      · rename_i hnone
        refine (or_iff_left ?_).symm
        rintro (⟨hk, _⟩ | ⟨key', value', _, hkey', hvalue', _⟩)
        · exact hs hk
        · exact hnone key' value' hkey' hvalue'
    · simp only [beq_iff_eq, hs, hp, if_false]
      refine (or_iff_left ?_).symm
      rintro (⟨hk, _⟩ | ⟨_, _, hk, _⟩)
      · exact hs hk
      · exact hp hk

theorem has_bindSpecifier (tree : SourceTree) (b : Bindings) (n : Node) (a : Alias) :
    (bindSpecifier tree b n).Has a ↔ b.Has a ∨ (n.kind = "import_specifier" ∧
      tree.textOf (n.child? "name") ∈ methods ∧ a = .method (localName tree n)) := by
  rw [bindSpecifier, localName]
  by_cases hk : n.kind = "import_specifier"
  · simp [hk, Bindings.has_addMethod]
  · simp [hk]

theorem has_bindImported (tree : SourceTree) (b : Bindings) (n : Node) (a : Alias) :
    (bindImported tree b n).Has a ↔ b.Has a ∨ Plain.BindsImported tree n a := by
  rw [bindImported]
  by_cases hi : n.kind = "identifier"
  · simp only [Node.isIdentifier_iff.mpr hi, if_true, Bindings.has_addModule]
    refine or_congr_right ⟨?_, ?_⟩
    · rintro rfl
      exact .whole hi
    · rintro (_ | ⟨_, hk, _⟩ | ⟨_, hk, _⟩)
      · rfl
      · simp [hi] at hk
      · simp [hi] at hk
  · have hi' := Node.isIdentifier_eq_false hi
    by_cases hn : n.kind = "namespace_import"
    · simp only [hi', hn, beq_self_eq_true, if_true, Bool.false_eq_true, if_false]
      rw [has_foldl (P := fun x a => a = .module (tree.text x))
        fun b x a => Bindings.has_addModule]
      refine or_congr_right ⟨?_, ?_⟩
      · rintro ⟨x, hx, rfl⟩
        obtain ⟨hx, hxi⟩ := List.mem_filter.mp hx
        exact .namespaced x hn hx (Node.isIdentifier_iff.mp hxi)
      · rintro (hk | ⟨x, _, hx, hxi⟩ | ⟨_, hk, _⟩)
        · exact absurd hk hi
        · exact ⟨x, List.mem_filter.mpr ⟨hx, Node.isIdentifier_iff.mpr hxi⟩, rfl⟩
        · simp [hn] at hk
    · by_cases hm : n.kind = "named_imports"
      · have hne : ("named_imports" == "namespace_import") = false := by decide
        simp only [hi', hm, hne, beq_self_eq_true, if_true, Bool.false_eq_true, if_false]
        rw [has_foldl (has_bindSpecifier tree)]
        refine or_congr_right ⟨?_, ?_⟩
        · rintro ⟨x, hx, hk, hmethod, rfl⟩
          exact .named x hm hx hk hmethod
        · rintro (hk | ⟨_, hk, _⟩ | ⟨x, _, hx, hk, hmethod⟩)
          · exact absurd hk hi
          · exact absurd hk hn
          · exact ⟨x, hx, hk, hmethod, rfl⟩
      · simp only [hi', beq_iff_eq, hn, hm, Bool.false_eq_true, if_false]
        refine (or_iff_left ?_).symm
        rintro (hk | ⟨_, hk, _⟩ | ⟨_, hk, _⟩)
        · exact hi hk
        · exact hn hk
        · exact hm hk

theorem has_bindClause (tree : SourceTree) (b : Bindings) (n : Node) (a : Alias) :
    (bindClause tree b n).Has a ↔
      b.Has a ∨
        (n.kind = "import_clause" ∧ ∃ part ∈ n.namedChildren, Plain.BindsImported tree part a) := by
  rw [bindClause]
  by_cases hk : n.kind = "import_clause"
  · simp [hk, has_foldl (has_bindImported tree)]
  · simp [hk]

theorem has_bindDeclarator (tree : SourceTree) (b : Bindings) (n : Node) (a : Alias) :
    (bindDeclarator tree b n).Has a ↔ b.Has a ∨ ∃ target, n.child? "name" = some target ∧
      ((target.kind = "identifier" ∧ a = .module (tree.text target)) ∨
        (target.kind = "object_pattern" ∧
          ∃ p ∈ target.namedChildren, Plain.BindsProperty tree p a)) := by
  rw [bindDeclarator]
  cases hname : n.child? "name" with
  | none => simp
  | some target =>
      simp only [Option.some.injEq, exists_eq_left']
      by_cases hi : target.kind = "identifier"
      · simp [Node.isIdentifier_iff.mpr hi, hi, Bindings.has_addModule]
      · have hi' := Node.isIdentifier_eq_false hi
        by_cases ho : target.kind = "object_pattern"
        · simp [hi', ho, has_foldl (has_bindProperty tree)]
        · simp [hi', hi, ho]

theorem has_ite {c : Bool} {b b' : Bindings} {a : Alias} {Q : Prop} (h : b'.Has a ↔ b.Has a ∨ Q) :
    (if c then b' else b).Has a ↔ b.Has a ∨ (c = true ∧ Q) := by
  cases c <;> simp [h]

theorem binds_declarator_iff {tree : SourceTree} {n : Node} {a : Alias}
    (hk : n.kind = "variable_declarator") :
    (Reading.plain tree).Binds tree n a ↔ (n.child? "value").any (isRequire tree) = true ∧
      ∃ target, n.child? "name" = some target ∧
        ((target.kind = "identifier" ∧ a = .module (tree.text target)) ∨
          (target.kind = "object_pattern" ∧
            ∃ p ∈ target.namedChildren, Plain.BindsProperty tree p a)) := by
  have hplain (v : Node) : isRequire tree v = true ↔ (Reading.plain tree).requires v :=
    isRequire_iff
  simp only [Option.any_eq_true, hplain]
  constructor
  · rintro (⟨v, t, _, hv, hr, ht, hi⟩ | ⟨v, t, p, _, hv, hr, ht, ho, hp, hb⟩ | ⟨hk', _⟩)
    · exact ⟨⟨v, hv, hr⟩, t, ht, .inl ⟨hi, rfl⟩⟩
    · exact ⟨⟨v, hv, hr⟩, t, ht, .inr ⟨ho, p, hp, hb⟩⟩
    · simp [hk] at hk'
  · rintro ⟨⟨v, hv, hr⟩, t, ht, ⟨hi, rfl⟩ | ⟨ho, p, hp, hb⟩⟩
    · exact .whole v t hk hv hr ht hi
    · exact .destructured v t p hk hv hr ht ho hp hb

theorem binds_import_iff {tree : SourceTree} {n : Node} {a : Alias}
    (hk : n.kind = "import_statement") :
    (Reading.plain tree).Binds tree n a ↔
      ((n.child? "source").any fun s => moduleNames.contains (tree.stringValue s)) = true ∧
        ∃ clause ∈ n.namedChildren, clause.kind = "import_clause" ∧
          ∃ part ∈ clause.namedChildren, Plain.BindsImported tree part a := by
  simp only [Option.any_eq_true, List.contains_eq_mem, decide_eq_true_eq]
  constructor
  · rintro (⟨_, _, hk', _⟩ | ⟨_, _, _, hk', _⟩ | ⟨_, h⟩)
    · simp [hk] at hk'
    · simp [hk] at hk'
    · exact h
  · exact fun h => .imported hk h

theorem has_bindNode (tree : SourceTree) (b : Bindings) (n : Node) (a : Alias) :
    (bindNode tree b n).Has a ↔ b.Has a ∨ (Reading.plain tree).Binds tree n a := by
  rw [bindNode]
  by_cases hd : n.kind = "variable_declarator"
  · simp only [hd, Kind.declarator, beq_self_eq_true, if_true]
    rw [has_ite (has_bindDeclarator tree b n a), binds_declarator_iff hd]
  · by_cases hi : n.kind = "import_statement"
    · have hne : ("import_statement" == Kind.declarator) = false := by decide
      simp only [hi, hne, beq_self_eq_true, if_true, Bool.false_eq_true, if_false]
      rw [has_ite (has_foldl (has_bindClause tree) _ b a), binds_import_iff hi]
    · simp only [beq_iff_eq, Kind.declarator, hd, hi, if_false]
      refine (or_iff_left ?_).symm
      rintro (⟨_, _, hk, _⟩ | ⟨_, _, _, hk, _⟩ | ⟨hk, _⟩)
      · exact hd hk
      · exact hd hk
      · exact hi hk

/-- The table holds what some node of the file binds, wherever in the file it stands. -/
theorem has_bindings_iff {tree : SourceTree} {a : Alias} :
    (bindings tree).Has a ↔ ∃ n, tree.root.Reaches n ∧ (Reading.plain tree).Binds tree n a := by
  rw [bindings, has_foldl (P := fun v a => (Reading.plain tree).Binds tree v.1 a)
    fun b v a => has_bindNode tree b v.1 a]
  simp only [Bindings.not_has_empty, false_or]
  constructor
  · rintro ⟨v, hv, hb⟩
    exact ⟨v.1, Node.exists_mem_walk_iff.mp ⟨v.2, hv⟩, hb⟩
  · rintro ⟨n, hn, hb⟩
    obtain ⟨p, hp⟩ := Node.exists_mem_walk_iff.mpr hn
    exact ⟨(n, p), hp, hb⟩

theorem isSome_lookup_iff {b : Bindings} {name : Text} :
    (b.aliases.lookup name).isSome = true ↔ b.Has (.method name) := by
  rw [List.lookup_isSome_iff]
  simp only [Bindings.Has, List.mem_map, beq_iff_eq]
  exact ⟨fun ⟨p, hp, h⟩ => ⟨p, hp, h.symm⟩, fun ⟨p, hp, h⟩ => ⟨p, hp, h.symm⟩⟩

theorem isModule_iff {tree : SourceTree} {owner : Node} :
    isModule tree (bindings tree) owner = true ↔ StandsForModule tree (.plain tree) owner := by
  simp only [isModule, Bool.or_eq_true, Bool.and_eq_true, Node.isIdentifier_iff, isRequire_iff,
    List.contains_eq_mem, decide_eq_true_eq, List.mem_append]
  have hmodule : tree.text owner ∈ (bindings tree).modules ↔
      ∃ n, tree.root.Reaches n ∧ (Reading.plain tree).Binds tree n (.module (tree.text owner)) :=
    has_bindings_iff (a := .module (tree.text owner))
  constructor
  · rintro (⟨hi, hb | hc⟩ | hr)
    · obtain ⟨n, hn, hb⟩ := hmodule.mp hb
      exact .bound n hi hn hb
    · exact .customary hi hc
    · exact .required hr
  · rintro (⟨hi, hc⟩ | ⟨n, hi, hn, hb⟩ | hr)
    · exact .inl ⟨hi, .inr hc⟩
    · exact .inl ⟨hi, .inl (hmodule.mpr ⟨n, hn, hb⟩)⟩
    · exact .inr hr

theorem isSome_method?_iff {tree : SourceTree} {f : Node} :
    (method? tree (bindings tree) f).isSome = true ↔ IsShellMethod tree (.plain tree) f := by
  rw [method?]
  by_cases hi : f.kind = "identifier"
  · rw [if_pos (Node.isIdentifier_iff.mpr hi), isSome_lookup_iff, has_bindings_iff]
    constructor
    · rintro ⟨b, hb, hbinds⟩
      exact .bound b hi hb hbinds
    · rintro (⟨b, _, hb, hbinds⟩ | ⟨_, hm, _⟩)
      · exact ⟨b, hb, hbinds⟩
      · simp [hi] at hm
  · simp only [Node.isIdentifier_eq_false hi, Bool.false_eq_true, if_false]
    by_cases hm : f.kind = "member_expression"
    · simp only [hm, Kind.member, beq_self_eq_true, if_true, apply_ite Option.isSome,
        Option.isSome_some, Option.isSome_none, Bool.and_eq_true, List.contains_eq_mem,
        decide_eq_true_eq, Option.any_eq_true, isModule_iff, ite_eq_left_iff, Bool.false_eq_true,
        imp_false, not_not]
      constructor
      · rintro ⟨hmethod, owner, howner, hmodule⟩
        exact .member owner hm hmethod howner hmodule
      · rintro (⟨_, hk, _⟩ | ⟨owner, _, hmethod, howner, hmodule⟩)
        · exact absurd hk hi
        · exact ⟨hmethod, owner, howner, hmodule⟩
    · simp only [Kind.member, beq_iff_eq, hm, if_false, Option.isSome_none, Bool.false_eq_true,
        false_iff]
      rintro (⟨_, hk, _⟩ | ⟨_, hk, _⟩)
      · exact hi hk
      · exact hm hk

theorem isSome_issue?_iff {tree : SourceTree} {n : Node} :
    (issue? tree (bindings tree) n).isSome = true ↔ RunsShell tree (.plain tree) n := by
  rw [issue?, RunsShell]
  by_cases hc : n.kind = "call_expression"
  · cases hf : n.child? "function" with
    | none => simp [hc, Kind.call]
    | some f => simp [hc, Kind.call, isSome_method?_iff]
  · simp [hc, Kind.call]

theorem check_ne_nil_iff {tree : SourceTree} :
    check tree ≠ [] ↔ ∃ n, tree.root.Reaches n ∧ RunsShell tree (.plain tree) n := by
  simp only [check]
  rw [firstPerLine_filterMap_walk_ne_nil_iff]
  simp only [isSome_issue?_iff]

end ShellCommand

/-- The critical issues of a tree are some exactly if it is dangerous. -/
theorem Engine.critical_ne_nil_iff {tree : SourceTree} :
    (Engine.security tree).filter Issue.isCritical ≠ [] ↔ tree.IsDangerous (.plain tree) := by
  rw [Engine.filter_isCritical_security, Ne, List.append_eq_nil_iff, not_and_or]
  change DynamicCode.check tree ≠ [] ∨ ShellCommand.check tree ≠ [] ↔ _
  rw [DynamicCode.check_ne_nil_iff, ShellCommand.check_ne_nil_iff, SourceTree.IsDangerous]
  constructor
  · rintro (⟨n, hn, h⟩ | ⟨n, hn, h⟩)
    · exact ⟨n, hn, .inl h⟩
    · exact ⟨n, hn, .inr h⟩
  · rintro ⟨n, hn, h | h⟩
    · exact .inl ⟨n, hn, h⟩
    · exact .inr ⟨n, hn, h⟩

end ScriptReview
