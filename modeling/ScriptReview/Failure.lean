import ScriptReview.Json.Fault

namespace ScriptReview

inductive Failure where
  /-- A check gave up. -/
  | crashed
  /-- A node has no entry in a table computed for its tree. -/
  | missingEntry (id : Nat)
  /-- A number has no rounded value. -/
  | unroundable
  /-- A computed value is outside its bounds. -/
  | invalid (faults : List Fault)
  /-- A text has no UTF-8 form. -/
  | unencodable

end ScriptReview
