import ScriptReview.Findings.Branching
import ScriptReview.Findings.Nesting

namespace ScriptReview

structure Metrics where
  maxNesting : Nat
  maxComplexity : Nat
  maxLength : Nat
  functionCount : Nat
  deriving DecidableEq

namespace Metrics

def maximum (xs : List Nat) : Nat :=
  xs.foldl max 0

/-- Without functions, the complexity is that of the code outside them. -/
def ofTree (tree : SourceTree) : Except Failure Metrics := do
  let table ← Branching.complexities tree.root
  let functions := (Branching.functions tree).map Prod.fst
  let complexities ← functions.mapM (Branching.lookup table)
  return {
    maxNesting := maximum ((Nesting.blocks tree).map Prod.snd)
    maxComplexity :=
      if functions.isEmpty then Branching.globalComplexity tree.root else maximum complexities
    maxLength := maximum (functions.map fun n => n.lineCount.toNat)
    functionCount := functions.length }

def toJson (m : Metrics) : Json :=
  .record [("max_nesting_depth", .int m.maxNesting),
    ("max_cyclomatic_complexity", .int m.maxComplexity),
    ("max_function_length", .int m.maxLength), ("total_functions", .int m.functionCount)]

def decode : Decoder Metrics :=
  .model "StructuralMetrics" fun fs =>
    Metrics.mk <$> Decoder.withDefault "max_nesting_depth" .nat 0 fs <*>
      Decoder.withDefault "max_cyclomatic_complexity" .nat 0 fs <*>
      Decoder.withDefault "max_function_length" .nat 0 fs <*>
      Decoder.withDefault "total_functions" .nat 0 fs

end Metrics

end ScriptReview
