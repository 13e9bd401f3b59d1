import ScriptReview.Findings.UserInput
import ScriptReview.Issue
import ScriptReview.Text.Folded
import ScriptReview.Text.Word

namespace ScriptReview

namespace Node

theorem sizes_find_le (p : Node → Bool) (xs : List Node) :
    sizes (xs.find? p).toList ≤ sizes xs := by
  induction xs with
  | nil => simp [sizes]
  | cons x xs ih =>
    rw [List.find?_cons]
    split
    · simp [sizes]
    · simp only [sizes]
      omega

theorem sizes_find_find_le (p q : Node → Bool) (h : ∀ n, p n = true → q n = false)
    (xs : List Node) :
    sizes (xs.find? p).toList + sizes (xs.find? q).toList ≤ sizes xs := by
  induction xs with
  | nil => simp [sizes]
  | cons x xs ih =>
    have hp := sizes_find_le p xs
    have hq := sizes_find_le q xs
    rw [List.find?_cons, List.find?_cons]
    cases hpx : p x
    · cases hqx : q x <;> simp [sizes] <;> omega
    · simp [h x hpx, sizes]; omega

def sides (n : Node) : List Node :=
  (n.child? "left").toList ++ (n.child? "right").toList

theorem sizes_sides_lt (n : Node) : sizes n.sides < n.size := by
  have h := sizes_find_find_le (fun c => c.info.field == some "left")
    (fun c => c.info.field == some "right")
    (fun n h => by simp at h ⊢; simp [h]) n.children
  rw [size_eq, sides, sizes_append]
  unfold child?
  omega

def enclosed? (n : Node) : Option Node :=
  if n.kind == "parenthesized_expression" then n.namedChildren.head? else none

theorem size_enclosed_lt {n c : Node} (h : n.enclosed? = some c) : c.size < n.size := by
  have hlt := sizes_namedChildren_lt n
  unfold enclosed? at h
  split at h
  · cases hc : n.namedChildren with
    | nil => simp [hc] at h
    | cons d ds =>
      simp [hc] at h
      rw [hc, sizes, h] at hlt
      omega
  · simp at h

def operandsOf : List Node → List Node
  | [] => []
  | n :: rest =>
    if n.isSum then operandsOf (n.sides ++ rest)
    else
      match _h : n.enclosed? with
      | some inner => operandsOf (inner :: rest)
      | none => n :: operandsOf rest
termination_by pending => sizes pending
decreasing_by
  · rw [sizes_append, sizes]
    have := sizes_sides_lt n
    omega
  · simp only [sizes]
    have := size_enclosed_lt ‹_›
    omega
  · simp only [sizes, size_eq]
    omega

def operands (n : Node) : List Node :=
  operandsOf [n]

def substitutions (n : Node) : List Node :=
  n.namedChildren.filter (·.kind == Kind.substitution)

end Node

namespace Injection

def sinks : List Text := ["innerHTML", "outerHTML", "textContent"]

def queryWords : List String := ["select", "insert", "update", "delete", "from", "where"]

def startsWithQueryWord (t : Text) : Bool :=
  queryWords.any fun w =>
    match Text.afterFolded? w.toList t with
    | some rest => !rest.head?.any Symbol.isWord
    | none => false

/-- Whether a query word stands in the text; `inWord` says that a word reaches up to its start. -/
def hasQueryWord (inWord : Bool) : Text → Bool
  | [] => false
  | s :: rest => (!inWord && startsWithQueryWord (s :: rest)) || hasQueryWord s.isWord rest

def isQuery (t : Text) : Bool :=
  hasQueryWord false t

def isMarkup (t : Text) : Bool :=
  t.anyEnd fun
    | .char '<' :: s :: _ => s.foldsToLetter
    | _ => false

def readsInput (input : List Nat) (nodes : List Node) : Bool :=
  nodes.any fun n => input.contains n.id

def isMixed (input : List Nat) (n : Node) : Bool :=
  if n.kind == Kind.template then readsInput input n.substitutions
  else n.isSum && readsInput input n.operands

def literal? (tree : SourceTree) (n : Node) : Option Text :=
  if n.kind == Kind.string then some (tree.stringValue n)
  else if n.kind == Kind.template then some (tree.templateText n)
  else none

def issue (n : Node) (severity : Severity) (problem advice : Text) : Issue :=
  .severe "unsanitized_input" 4 severity n.line
    (problem ++ " at line " ++ Text.number n.line ++ ". " ++ advice)

/-- The issue of a mixed text: of a query rather than of markup if it looks like both. -/
def textIssue? (n : Node) (literal query markup : Text) : Option Issue :=
  if isQuery literal then
    some (issue n .high ("Potential SQL injection: user input " ++ query)
      "Use parameterized queries.")
  else if isMarkup literal then
    some (issue n .medium ("Potential XSS: user input " ++ markup) "Sanitize output.")
  else none

def assignmentIssue? (tree : SourceTree) (input : List Nat) (n : Node) : Option Issue :=
  match n.child? "left", n.child? "right" with
  | some target, some value =>
    let sink := tree.textOf (target.child? "property")
    if target.kind == Kind.member && sinks.contains sink && isMixed input value then
      some (issue n .high ("Potential XSS: user input assigned to " ++ sink)
        "Sanitize output before writing to the DOM.")
    else none
  | _, _ => none

/-- Only the outermost sum of a chain is looked at. -/
def sumIssue? (tree : SourceTree) (input : List Nat) (n : Node) (parent : Option Node) :
    Option Issue :=
  if parent.any Node.isSum || !readsInput input n.operands then none
  else
    textIssue? n (Text.joinWith " " (n.operands.filterMap (literal? tree)))
      "concatenated with SQL" "concatenated with HTML"

def templateIssue? (tree : SourceTree) (input : List Nat) (n : Node) : Option Issue :=
  if readsInput input n.substitutions then
    textIssue? n (tree.templateText n) "interpolated in template" "interpolated in HTML template"
  else none

def issue? (tree : SourceTree) (input : List Nat) (v : Node × Option Node) : Option Issue :=
  if ["assignment_expression", "augmented_assignment_expression"].contains v.1.kind then
    assignmentIssue? tree input v.1
  else if v.1.isSum then sumIssue? tree input v.1 v.2
  else if v.1.kind == Kind.template then templateIssue? tree input v.1
  else none

def check (tree : SourceTree) : List Issue :=
  let input := UserInput.nodes tree
  Issue.firstPerLine (tree.walk.filterMap (issue? tree input))

end Injection

end ScriptReview
