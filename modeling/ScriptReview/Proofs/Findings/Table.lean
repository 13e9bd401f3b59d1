import ScriptReview.Proofs.Findings.Complexity
import ScriptReview.Proofs.Reports

namespace ScriptReview

namespace Node

variable {root n m : Node}

def Holds (n m : Node) : Prop :=
  ∃ c ∈ n.namedChildren, c.Reaches m

theorem mem_descendants_iff : m ∈ n.descendants [] ↔ n.Holds m := by
  rw [descendants_eq, kept_nil, List.mem_flatMap]
  simp only [mem_preorder_iff_reaches]
  rfl

theorem Reaches.preorder_sublist (h : root.Reaches n) :
    (n.preorder []).Sublist (root.preorder []) := by
  induction h with
  | refl => exact List.Sublist.refl _
  | @child n c _ hc ih =>
      apply List.Sublist.trans _ ih
      rw [preorder_eq [] n, kept_nil]
      exact (List.sublist_flatten_of_mem (List.mem_map_of_mem hc)).cons n

theorem nodup_descendants (h : root.DistinctIds) (hn : root.Reaches n) :
    (n.descendants []).Nodup := by
  have hids : ((n.preorder []).map id).Nodup := h.sublist (hn.preorder_sublist.map id)
  have hnodup : (n.preorder []).Nodup := hids.of_map id
  rw [preorder_eq, ← descendants_eq] at hnodup
  exact hnodup.of_cons

end Node

namespace Branching

variable {root : Node}

/-- The number is one more than the weights of the nodes below a function, each counted once. -/
def CountsBelow (f : Node) (c : Nat) : Prop :=
  ∃ below : List Node, below.Nodup ∧ (∀ m, m ∈ below ↔ f.Holds m) ∧ c = 1 + total (below.map weight)

theorem countsBelow_complexity {f : Node} (h : root.DistinctIds) (hf : root.Reaches f) :
    CountsBelow f (complexity f) :=
  ⟨f.descendants [], Node.nodup_descendants h hf, fun _ => Node.mem_descendants_iff, rfl⟩

structure Tabulates (root : Node) (table : Totals) : Prop where
  keys_nodup : (table.map Prod.fst).Nodup
  mem_keys_iff : ∀ i, i ∈ table.map Prod.fst ↔
    ∃ f, root.Reaches f ∧ f.isFunction = true ∧ f.id = i
  lookup_eq : ∀ f, root.Reaches f → f.isFunction = true →
    table.lookup f.id = some (complexity f) ∧ CountsBelow f (complexity f)

theorem keys_functionEntries (ns : List Node) :
    (functionEntries ns).map Prod.fst = ((ns.filter Node.isFunction).map Node.id).reverse := by
  simp [functionEntries]

theorem tabulates_functionEntries (h : root.DistinctIds) :
    Tabulates root (functionEntries root.postorder) := by
  have hperm := Node.postorder_perm_preorder root
  have hids : (root.postorder.map Node.id).Nodup := (hperm.map Node.id).nodup_iff.mpr h
  have hmem (f : Node) : f ∈ root.postorder ↔ root.Reaches f := by
    rw [hperm.mem_iff, Node.mem_preorder_iff_reaches]
  constructor
  case keys_nodup =>
    rw [keys_functionEntries, List.nodup_reverse]
    exact hids.sublist (List.filter_sublist.map Node.id)
  case mem_keys_iff =>
    intro i
    rw [keys_functionEntries, List.mem_reverse, List.mem_map]
    simp only [List.mem_filter, hmem, and_assoc]
  case lookup_eq =>
    intro f hf hfun
    exact ⟨lookup_functionEntries hids ((hmem f).mpr hf) hfun, countsBelow_complexity h hf⟩

/-- One pass over a tree finds every entry that it looks for, and its table is the one that a walk
over each function by itself would give. -/
theorem complexities_tabulates (h : root.DistinctIds) :
    ∃ table, complexities root = .ok table ∧ Tabulates root table :=
  ⟨functionEntries root.postorder, complexities_eq_ok h, tabulates_functionEntries h⟩

def nestedFunctions : Node :=
  .inline 0 "program" none 0 36
    [.inline 1 "function_declaration" none 0 36
      [.inline 2 "identifier" (some "name") 9 10 [],
        .inline 3 "formal_parameters" (some "parameters") 10 12 [],
        .inline 4 "statement_block" (some "body") 12 36
          [.inline 5 "if_statement" none 13 35
            [.inline 6 "parenthesized_expression" (some "condition") 15 18
                [.inline 7 "identifier" none 16 17 []],
              .inline 8 "statement_block" (some "consequence") 18 35
                [.inline 9 "return_statement" none 19 34
                  [.inline 10 "arrow_function" none 26 34
                    [.inline 11 "identifier" (some "parameter") 26 27 [],
                      .inline 12 "ternary_expression" (some "body") 29 34
                        [.inline 13 "identifier" (some "condition") 29 30 [],
                          .inline 14 "number" (some "consequence") 31 32 [],
                          .inline 15 "number" (some "alternative") 33 34 []]]]]]]]]

theorem complexities_nestedFunctions :
    nestedFunctions.DistinctIds ∧
      ∃ table, complexities nestedFunctions = .ok table ∧ Tabulates nestedFunctions table ∧
        table = [(1, 3), (10, 2)] := by
  have hids : nestedFunctions.DistinctIds := by decide +kernel
  obtain ⟨table, htable, htabulates⟩ := complexities_tabulates hids
  have hentries : functionEntries nestedFunctions.postorder = [(1, 3), (10, 2)] := by
    decide +kernel
  have hcomputed := complexities_eq_ok hids
  rw [hentries] at hcomputed
  exact ⟨hids, table, htable, htabulates, Except.ok.inj (htable.symm.trans hcomputed)⟩

end Branching

end ScriptReview
