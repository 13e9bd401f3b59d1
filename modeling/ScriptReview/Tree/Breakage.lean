import ScriptReview.Text.Blank
import ScriptReview.Text.Lines
import ScriptReview.Tree.Source

namespace ScriptReview

namespace Node

def isBroken (n : Node) : Bool :=
  n.info.isError || n.info.isMissing

def suspects (n : Node) : List Node :=
  n.children.filter fun c => c.info.hasError || c.info.isMissing

theorem sizes_suspects_lt (n : Node) : sizes n.suspects < n.size := by
  have h := sizes_filter_le (fun c => c.info.hasError || c.info.isMissing) n.children
  rw [size_eq]
  unfold suspects
  omega

def searchBroken : List Node → Option Node
  | [] => none
  | n :: rest => if n.isBroken then some n else searchBroken (n.suspects ++ rest)
termination_by pending => sizes pending
decreasing_by
  rw [sizes_append, sizes]
  have := sizes_suspects_lt n
  omega

def firstBroken (root : Node) : Option Node :=
  searchBroken [root]

end Node

namespace Breakage

def snippet (t : Text) : Text :=
  t.strip.firstLine.take 20

def position (n : Node) : Text :=
  " (" ++ Text.number n.line ++ ":" ++ Text.number n.info.startColumn ++ ")"

def describeNode (bytes : Array UInt8) (n : Node) : Text :=
  if n.info.isMissing then "Syntax Error: Missing " ++ Text.cited n.kind ++ position n
  else
    let quoted := snippet (SourceTree.slice bytes n.info.startByte n.info.endByte)
    if quoted.isEmpty then "Syntax Error: Unexpected token" ++ position n
    else "Syntax Error: Unexpected token " ++ quoted.cited ++ position n

def describe (bytes : Array UInt8) (root : Node) : Text :=
  match root.firstBroken with
  | some n => describeNode bytes n
  | none => "Syntax Error: Unexpected token"

end Breakage

abbrev Grammar := Language → Text → Node

inductive ParseError where
  | unencodable
  | broken (message : Text)

def SourceTree.parse (grammar : Grammar) (language : Language) (code : Text) :
    Except ParseError SourceTree :=
  match code.utf8? with
  | none => .error .unencodable
  | some octets =>
    let bytes := octets.toArray
    let root := grammar language code
    if root.info.hasError then .error (.broken (Breakage.describe bytes root))
    else .ok ⟨root, bytes, language⟩

end ScriptReview
