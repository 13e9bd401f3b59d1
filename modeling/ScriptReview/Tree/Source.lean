import ScriptReview.Text.Utf8
import ScriptReview.Tree.Traversal

namespace ScriptReview

inductive Language where
  | tsx
  | typescript
  deriving DecidableEq

namespace Language

def name : Language → String
  | tsx => "tsx"
  | typescript => "typescript"

def ofName? (t : Text) : Option Language :=
  if t = "tsx" then some tsx else if t = "typescript" then some typescript else none

/-- Only TypeScript files other than declaration files need the grammar with angle-bracket
casts. -/
def ofFilename (filename : Text) : Language :=
  if (filename.endsWith ".ts" || filename.endsWith ".mts" || filename.endsWith ".cts") &&
      !filename.endsWith ".d.ts" then typescript
  else tsx

end Language

structure SourceTree where
  root : Node
  bytes : Array UInt8
  language : Language

namespace SourceTree

/-- The text between two offsets, cut off at the end of the source and empty if they cross. -/
def slice (bytes : Array UInt8) (start stop : Nat) : Text :=
  Utf8.decode (bytes.extract start stop).toList

def text (tree : SourceTree) (n : Node) : Text :=
  slice tree.bytes n.info.startByte n.info.endByte

def textOf (tree : SourceTree) : Option Node → Text
  | some n => tree.text n
  | none => []

def walk (tree : SourceTree) : List (Node × Option Node) :=
  tree.root.walk

def stringValue (tree : SourceTree) (n : Node) : Text :=
  let raw := tree.text n
  if 2 ≤ raw.length then (raw.drop 1).dropLast else []

def templateParts (tree : SourceTree) (stop cursor : Nat) : List Node → Text
  | [] => slice tree.bytes cursor (max cursor (stop - 1))
  | sub :: rest =>
    slice tree.bytes cursor sub.info.startByte ++ tree.templateParts stop sub.info.endByte rest

def templateText (tree : SourceTree) (n : Node) : Text :=
  tree.templateParts n.info.endByte (n.info.startByte + 1)
    (n.namedChildren.filter (·.kind == Kind.substitution))

def isNullish (tree : SourceTree) (n : Node) : Bool :=
  n.kind == "null" || n.kind == "undefined" ||
    (n.isIdentifier && tree.text n == Text.ofString "undefined")

def calleeName? (tree : SourceTree) : Option Node → Option Text
  | none => none
  | some n =>
    if n.isIdentifier then some (tree.text n)
    else if n.kind == Kind.member then some (tree.textOf (n.child? "property"))
    else none

def boundKey? (parent : Node) : Option Node :=
  ((parent.child? "key").or (parent.child? "name")).or (parent.child? "property")

def boundName? (tree : SourceTree) (parent : Node) : Option Text :=
  if parent.kind == Kind.declarator then
    match parent.child? "name" with
    | some target => if target.isIdentifier then some (tree.text target) else none
    | none => none
  else if ["pair", "public_field_definition", "field_definition"].contains parent.kind then
    (boundKey? parent).map fun key =>
      if key.kind == Kind.string then tree.stringValue key else tree.text key
  else none

/-- How a finding cites a function: its own name, the name it is bound to, or its line. -/
def functionName (tree : SourceTree) (n : Node) (parent : Option Node) : Text :=
  match n.child? "name" with
  | some name => (tree.text name).cited
  | none =>
    match parent.bind tree.boundName? with
    | some name => name.cited
    | none => "anonymous at line " ++ Text.number n.line

end SourceTree

end ScriptReview
