import ScriptReview.Issue
import ScriptReview.Tree.Source

namespace ScriptReview

namespace ShellCommand

def moduleNames : List Text := ["child_process", "node:child_process"]

def customaryNames : List Text := ["child_process", "cp"]

def methods : List Text := ["exec", "execSync", "spawn", "spawnSync", "fork"]

/-- Local names of the module, and local names of its methods with what they stand for; of two
bindings of one name the later comes first. -/
structure Bindings where
  modules : List Text
  aliases : List (Text × Text)

namespace Bindings

def empty : Bindings := ⟨[], []⟩

def addModule (b : Bindings) (name : Text) : Bindings :=
  { b with modules := name :: b.modules }

/-- Binds a local name to a method; other exports of the module do not count. -/
def addMethod (b : Bindings) (name method : Text) : Bindings :=
  if methods.contains method then { b with aliases := (name, method) :: b.aliases } else b

end Bindings

def isRequire (tree : SourceTree) (n : Node) : Bool :=
  n.kind == Kind.call &&
    (n.child? "function").any (fun callee =>
      callee.isIdentifier && tree.text callee == Text.ofString "require") &&
    ((n.child? "arguments").bind (·.namedChildren.head?)).any fun first =>
      first.kind == Kind.string && moduleNames.contains (tree.stringValue first)

def bindProperty (tree : SourceTree) (b : Bindings) (property : Node) : Bindings :=
  if property.kind == "shorthand_property_identifier_pattern" then
    b.addMethod (tree.text property) (tree.text property)
  else if property.kind == "pair_pattern" then
    match property.child? "key", property.child? "value" with
    | some key, some value =>
      if value.isIdentifier then b.addMethod (tree.text value) (tree.text key) else b
    | _, _ => b
  else b

def bindDeclarator (tree : SourceTree) (b : Bindings) (n : Node) : Bindings :=
  match n.child? "name" with
  | none => b
  | some target =>
    if target.isIdentifier then b.addModule (tree.text target)
    else if target.kind == "object_pattern" then
      target.namedChildren.foldl (bindProperty tree) b
    else b

def bindSpecifier (tree : SourceTree) (b : Bindings) (specifier : Node) : Bindings :=
  if specifier.kind == "import_specifier" then
    let imported := tree.textOf (specifier.child? "name")
    let renamed := tree.textOf (specifier.child? "alias")
    b.addMethod (if renamed.isEmpty then imported else renamed) imported
  else b

def bindImported (tree : SourceTree) (b : Bindings) (n : Node) : Bindings :=
  if n.isIdentifier then b.addModule (tree.text n)
  else if n.kind == "namespace_import" then
    (n.namedChildren.filter (·.isIdentifier)).foldl (fun b a => b.addModule (tree.text a)) b
  else if n.kind == "named_imports" then n.namedChildren.foldl (bindSpecifier tree) b
  else b

def bindClause (tree : SourceTree) (b : Bindings) (clause : Node) : Bindings :=
  if clause.kind == "import_clause" then clause.namedChildren.foldl (bindImported tree) b else b

def bindNode (tree : SourceTree) (b : Bindings) (n : Node) : Bindings :=
  if n.kind == Kind.declarator then
    if (n.child? "value").any (isRequire tree) then bindDeclarator tree b n else b
  else if n.kind == "import_statement" then
    if (n.child? "source").any fun s => moduleNames.contains (tree.stringValue s) then
      n.namedChildren.foldl (bindClause tree) b
    else b
  else b

def bindings (tree : SourceTree) : Bindings :=
  tree.walk.foldl (fun b v => bindNode tree b v.1) .empty

def isModule (tree : SourceTree) (b : Bindings) (owner : Node) : Bool :=
  (owner.isIdentifier && (b.modules ++ customaryNames).contains (tree.text owner)) ||
    isRequire tree owner

def method? (tree : SourceTree) (b : Bindings) (callee : Node) : Option Text :=
  if callee.isIdentifier then b.aliases.lookup (tree.text callee)
  else if callee.kind == Kind.member then
    let method := tree.textOf (callee.child? "property")
    if methods.contains method && (callee.child? "object").any (isModule tree b) then some method
    else none
  else none

def issue (n : Node) (method : Text) : Issue :=
  .severe "child_process_exec" 6 .critical n.line
    ("Shell command execution via child_process." ++ method ++ "() at line " ++
      Text.number n.line ++ ". Ensure input is sanitized to prevent command injection.")

def issue? (tree : SourceTree) (b : Bindings) (n : Node) : Option Issue :=
  if n.kind == Kind.call then
    ((n.child? "function").bind (method? tree b)).map (issue n)
  else none

def check (tree : SourceTree) : List Issue :=
  let b := bindings tree
  Issue.firstPerLine (tree.walk.filterMap fun v => issue? tree b v.1)

end ShellCommand

end ScriptReview
