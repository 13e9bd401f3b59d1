import ScriptReview.Analysis
import ScriptReview.Failure
import ScriptReview.Findings.ArrayAccess
import ScriptReview.Findings.AsyncGuard
import ScriptReview.Findings.Branching
import ScriptReview.Findings.DynamicCode
import ScriptReview.Findings.FunctionSize
import ScriptReview.Findings.HardcodedSecret
import ScriptReview.Findings.Injection
import ScriptReview.Findings.Naming
import ScriptReview.Findings.Nesting
import ScriptReview.Findings.RequestInput
import ScriptReview.Findings.ShellCommand

namespace ScriptReview

abbrev Detector := SourceTree → Except Failure (List Issue)

abbrev Engine := Category → Detector

namespace Engine

/-- Functions and names in pre-order, then the blocks that lie too deep. -/
def readability (tree : SourceTree) : List Issue :=
  tree.walk.flatMap (fun v =>
      if v.1.isFunction then FunctionSize.check tree v.1 v.2
      else if v.1.isIdentifier then v.2.toList.flatMap (Naming.check tree v.1)
      else []) ++
    Nesting.check tree

def edgeCases (tree : SourceTree) : List Issue :=
  AsyncGuard.check tree ++ ArrayAccess.check tree ++ RequestInput.check tree

def security (tree : SourceTree) : List Issue :=
  DynamicCode.check tree ++ ShellCommand.check tree ++ HardcodedSecret.check tree ++
    Injection.check tree

def standard : Engine
  | .readability => fun tree => .ok (readability tree)
  | .complexity => Branching.check
  | .edgeCases => fun tree => .ok (edgeCases tree)
  | .security => fun tree => .ok (security tree)

def failingIn (engine : Engine) (broken : Category) : Engine := fun c =>
  if c = broken then fun _ => .error .crashed else engine c

structure Findings where
  readability : List Issue
  complexity : List Issue
  edgeCases : List Issue
  security : List Issue

def Findings.get (f : Findings) : Category → List Issue
  | .readability => f.readability
  | .complexity => f.complexity
  | .edgeCases => f.edgeCases
  | .security => f.security

def run (engine : Engine) (tree : SourceTree) : Except Failure Findings := do
  let readability ← engine .readability tree
  let complexity ← engine .complexity tree
  let edgeCases ← engine .edgeCases tree
  let security ← engine .security tree
  return { readability, complexity, edgeCases, security }

end Engine

def Checked.orFail (c : Checked α) : Except Failure α :=
  match c with
  | .valid a => .ok a
  | .faulty fs => .error (.invalid fs)

/-- The scores that an engine's findings leave. Critical findings are those of security. -/
def Analysis.ofTree (engine : Engine) (filename : Text) (tree : SourceTree) :
    Except Failure Analysis := do
  let found ← engine.run tree
  let readability ← (CategoryScore.ofIssues Category.maxScore found.readability).orFail
  let complexity ← (CategoryScore.ofIssues Category.maxScore found.complexity).orFail
  let edgeCases ← (CategoryScore.ofIssues Category.maxScore found.edgeCases).orFail
  let security ← (CategoryScore.ofIssues Category.maxScore found.security).orFail
  let scores : Category → CategoryScore
    | .readability => readability
    | .complexity => complexity
    | .edgeCases => edgeCases
    | .security => security
  return .ofScores filename scores (found.security.filter Issue.isCritical) none

end ScriptReview
