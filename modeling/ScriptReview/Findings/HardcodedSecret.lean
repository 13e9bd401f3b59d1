import ScriptReview.Issue
import ScriptReview.Text.Blank
import ScriptReview.Text.Folded
import ScriptReview.Tree.Source

namespace ScriptReview

namespace HardcodedSecret

def minSecretLength : Nat := 8

def minKeyLength : Nat := 20

def words : List String := ["secret", "password", "passwd", "token", "auth", "credential"]

def pairs : List (String × String) := [("api", "key"), ("private", "key")]

def isJoint (s : Symbol) : Bool :=
  s.satisfies fun c => c == '_' || c == '-'

def startsWithPair (first second : String) (t : Text) : Bool :=
  match Text.afterFolded? first.toList t with
  | none => false
  | some rest =>
    rest.startsFolded second || (rest.head?.any isJoint && Text.startsFolded second (rest.drop 1))

def isSecretName (name : Text) : Bool :=
  words.any (name.containsFolded ·) ||
    pairs.any fun p => name.anyEnd (startsWithPair p.1 p.2)

def isAlphanumeric (s : Symbol) : Bool :=
  s.satisfies Char.isAlphanum

def isRun (p : Symbol → Bool) (t : Text) : Bool :=
  !t.isEmpty && t.all p

def after? (start : String) (t : Text) : Option Text :=
  if t.startsWith start then some (t.drop start.length) else none

def isOpaque (t : Text) : Bool :=
  32 ≤ t.length && t.all isAlphanumeric

/-- A mode between the first mark and the key proper is optional. -/
def isPaymentKey (t : Text) : Bool :=
  match (after? "sk_" t).or (after? "pk_" t) with
  | none => false
  | some rest =>
    isRun isAlphanumeric (((after? "live_" rest).or (after? "test_" rest)).getD rest)

def isForgeToken (t : Text) : Bool :=
  (after? "ghp_" t).any (isRun isAlphanumeric)

def isChatToken (t : Text) : Bool :=
  match after? "xox" t with
  | some (kind :: dash :: rest) =>
    kind.satisfies (fun c => ['b', 'a', 'p', 'r', 's'].contains c) && dash == .char '-' &&
      isRun (fun s => isAlphanumeric s || s == .char '-') rest
  | _ => false

def isAccessKeyId (t : Text) : Bool :=
  (after? "AKIA" t).any fun rest =>
    rest.length == 16 && rest.all fun s => s.satisfies fun c => c.isUpper || c.isDigit

def isCloudKey (t : Text) : Bool :=
  (after? "AIza" t).any fun rest =>
    rest.length == 35 && rest.all fun s => isAlphanumeric s || isJoint s

/-- A key shape describes the whole text, or all of it but one line feed at the end. -/
def isWholly (shape : Text → Bool) (t : Text) : Bool :=
  shape t || (t.getLast? == some (.char '\n') && shape t.dropLast)

def isBearerSymbol (s : Symbol) : Bool :=
  isAlphanumeric s || s.foldsToLetter ||
    s.satisfies fun c => ['.', '_', '~', '+', '/', '-'].contains c

def startsWithBearer (t : Text) : Bool :=
  match Text.afterFolded? "bearer".toList t with
  | none => false
  | some rest =>
    rest.head?.any Symbol.isBlank && ((rest.dropWhile Symbol.isBlank).head?.any isBearerSymbol)

def isKeyShaped (t : Text) : Bool :=
  [isOpaque, isPaymentKey, isForgeToken, isChatToken, isAccessKeyId, isCloudKey].any
      (isWholly · t) ||
    t.anyEnd startsWithBearer

def assignment? (n : Node) : Option (Node × Node) :=
  let parts :=
    if n.kind == Kind.declarator then some (n.child? "name", n.child? "value")
    else if n.kind == "assignment_expression" then some (n.child? "left", n.child? "right")
    else none
  match parts with
  | some (some target, some value) => some (target, value)
  | _ => none

def secretName? (tree : SourceTree) (n : Node) : Option Text :=
  match assignment? n with
  | none => none
  | some (target, value) =>
    (tree.calleeName? (some target)).filter fun name =>
      value.kind == Kind.string && isSecretName name &&
        minSecretLength ≤ (tree.stringValue value).length

def isKey (tree : SourceTree) (n : Node) : Bool :=
  n.kind == Kind.string && minKeyLength ≤ (tree.stringValue n).length &&
    isKeyShaped (tree.stringValue n)

def nameIssue (n : Node) (name : Text) : Issue :=
  .severe "hardcoded_secret" 5 .high n.line
    ("Potential hardcoded secret in variable " ++ name.cited ++ " at line " ++
      Text.number n.line ++ ". Use environment variables instead.")

def keyIssue (n : Node) : Issue :=
  .severe "hardcoded_secret" 5 .high n.line
    ("Potential hardcoded API key or token detected at line " ++ Text.number n.line ++
      ". Use environment variables instead.")

def issue? (tree : SourceTree) (n : Node) : Option Issue :=
  if isKey tree n then some (keyIssue n) else (secretName? tree n).map (nameIssue n)

def check (tree : SourceTree) : List Issue :=
  Issue.firstPerLine (tree.walk.filterMap fun v => issue? tree v.1)

end HardcodedSecret

end ScriptReview
