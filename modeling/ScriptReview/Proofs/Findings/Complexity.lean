import Mathlib.Data.List.Nodup
import ScriptReview.Metrics
import ScriptReview.Proofs.Outcome
import ScriptReview.Proofs.Tree.Walk

namespace ScriptReview

def Node.DistinctIds (root : Node) : Prop :=
  ((root.preorder []).map Node.id).Nodup

instance (root : Node) : Decidable root.DistinctIds :=
  inferInstanceAs (Decidable (List.Nodup _))

theorem total_map_flatMap {α β : Type} (f : α → List β) (w : β → Nat) (xs : List α) :
    total ((xs.flatMap f).map w) = total (xs.map fun x => total ((f x).map w)) := by
  induction xs with
  | nil => rfl
  | cons x xs ih =>
      rw [List.flatMap_cons, List.map_append, total_append, List.map_cons, total_cons, ih]

namespace Branching

def subtreeWeight (n : Node) : Nat :=
  total ((n.preorder []).map weight)

theorem complexity_eq (n : Node) :
    complexity n = 1 + total (n.namedChildren.map subtreeWeight) := by
  rw [complexity, Node.descendants_eq, Node.kept_nil, total_map_flatMap]
  rfl

theorem subtreeWeight_eq (n : Node) :
    subtreeWeight n = weight n + total (n.namedChildren.map subtreeWeight) := by
  rw [subtreeWeight, Node.preorder_eq, Node.kept_nil, List.map_cons, total_cons, total_map_flatMap]
  rfl

def entry (n : Node) : Nat × Nat :=
  (n.id, subtreeWeight n)

theorem lookup_filter_ne {pending : Totals} {a b : Nat} (h : a ≠ b) :
    (pending.filter (·.1 != b)).lookup a = pending.lookup a := by
  induction pending with
  | nil => rfl
  | cons e pending ih =>
      rw [List.filter_cons]
      split
      · rw [List.lookup_cons, List.lookup_cons, ih]
      · rename_i he
        have hb : e.1 = b := by simpa using he
        have ha : (a == e.1) = false := by simpa [hb] using h
        rw [ih, List.lookup_cons, ha]

/-- Entries that are all there are taken out and added up. -/
theorem take_eq_ok (ns : List Node) (pending : Totals) (hn : (ns.map Node.id).Nodup)
    (h : ∀ n ∈ ns, pending.lookup n.id = some (subtreeWeight n)) :
    take ns pending = .ok (total (ns.map subtreeWeight),
      pending.filter fun e => !(ns.map Node.id).contains e.1) := by
  induction ns generalizing pending with
  | nil => simp [take]
  | cons n ns ih =>
      rw [List.map_cons, List.nodup_cons] at hn
      have hrest : ∀ m ∈ ns,
          (pending.filter (·.1 != n.id)).lookup m.id = some (subtreeWeight m) := by
        intro m hm
        have hne : m.id ≠ n.id := fun he => hn.1 (he ▸ List.mem_map_of_mem hm)
        rw [lookup_filter_ne hne]
        exact h m (List.mem_cons_of_mem n hm)
      rw [take, h n List.mem_cons_self]
      simp only [ih _ hn.2 hrest, ok_bind, List.map_cons, total_cons, List.filter_filter]
      congr 2
      apply List.filter_congr
      intro e _
      by_cases he : e.1 = n.id <;> simp [he]

def functionEntries (ns : List Node) : Totals :=
  (ns.filter Node.isFunction).reverse.map fun f => (f.id, complexity f)

theorem functionEntries_append (xs ys : List Node) :
    functionEntries (xs ++ ys) = functionEntries ys ++ functionEntries xs := by
  simp [functionEntries]

theorem lookup_reverse_entries (ns : List Node) (pending : Totals) (hn : (ns.map Node.id).Nodup) :
    ∀ n ∈ ns, (ns.reverse.map entry ++ pending).lookup n.id = some (subtreeWeight n) := by
  induction ns generalizing pending with
  | nil => simp
  | cons m ns ih =>
      intro n hmem
      rw [List.map_cons, List.nodup_cons] at hn
      rw [List.reverse_cons, List.map_append, List.append_assoc]
      rcases List.mem_cons.mp hmem with rfl | hmem
      · have hnone : (ns.reverse.map entry).lookup n.id = none := by
          rw [List.lookup_eq_none_iff]
          intro e he
          obtain ⟨k, hk, rfl⟩ := List.mem_map.mp he
          have hne : n.id ≠ k.id := fun heq => hn.1 (heq ▸ List.mem_map_of_mem (by simpa using hk))
          simpa [entry] using hne
        rw [List.lookup_append, hnone]
        simp [entry]
      · exact ih _ hn.2 n hmem

/-- A node whose children have left their entries finds all of them. -/
theorem advance_eq_ok {n : Node} {pending found : Totals} (hn : (n.namedChildren.map Node.id).Nodup)
    (hp : ∀ e ∈ pending, e.1 ∉ n.namedChildren.map Node.id ∧ e.1 ≠ n.id) :
    advance ⟨n.namedChildren.reverse.map entry ++ pending, found⟩ n =
      .ok ⟨entry n :: pending, functionEntries [n] ++ found⟩ := by
  have hleft : (n.namedChildren.reverse.map entry ++ pending).filter
      (fun e => !(n.namedChildren.map Node.id).contains e.1) = pending := by
    rw [List.filter_append]
    have h₁ : (n.namedChildren.reverse.map entry).filter
        (fun e => !(n.namedChildren.map Node.id).contains e.1) = [] := by
      rw [List.filter_eq_nil_iff]
      intro e he
      obtain ⟨c, hc, rfl⟩ := List.mem_map.mp he
      have hmem : c.id ∈ n.namedChildren.map Node.id := List.mem_map_of_mem (by simpa using hc)
      simpa [entry] using hmem
    have h₂ : pending.filter (fun e => !(n.namedChildren.map Node.id).contains e.1) = pending := by
      rw [List.filter_eq_self]
      intro e he
      simpa using (hp e he).1
    rw [h₁, h₂, List.nil_append]
  have hown : pending.filter (·.1 != n.id) = pending := by
    rw [List.filter_eq_self]
    intro e he
    simpa using (hp e he).2
  rw [advance, take_eq_ok _ _ hn (lookup_reverse_entries _ _ hn), ok_bind]
  simp only [hleft, hown]
  rw [entry, subtreeWeight_eq]
  by_cases hf : n.isFunction <;> simp [functionEntries, hf, complexity_eq]

/-- The ids of a subtree are none of those that entries are waiting under. -/
def Apart (pending : Totals) (ns : List Node) : Prop :=
  ∀ e ∈ pending, e.1 ∉ ns.map Node.id

theorem map_id_sublist (ns : List Node) :
    (ns.map Node.id).Sublist ((ns.flatMap (Node.preorder [])).map Node.id) := by
  apply List.Sublist.map
  induction ns with
  | nil => simp
  | cons n ns ih =>
      rw [List.flatMap_cons, Node.preorder_eq, List.cons_append]
      exact (ih.trans (List.sublist_append_right _ _)).cons_cons n

/-- What a pass over the subtrees of some siblings does, if it does so over each of them: they leave
their entries, the last one first. -/
theorem foldlM_advance_siblings (ns : List Node) (pending found : Totals)
    (hpass : ∀ n ∈ ns, ∀ pending found, n.DistinctIds → Apart pending (n.preorder []) →
      n.postorderRec.foldlM advance ⟨pending, found⟩ =
        .ok ⟨entry n :: pending, functionEntries n.postorderRec ++ found⟩)
    (hids : ((ns.flatMap (Node.preorder [])).map Node.id).Nodup)
    (hp : Apart pending (ns.flatMap (Node.preorder []))) :
    (ns.flatMap Node.postorderRec).foldlM advance ⟨pending, found⟩ =
      .ok ⟨ns.reverse.map entry ++ pending,
        functionEntries (ns.flatMap Node.postorderRec) ++ found⟩ := by
  induction ns generalizing pending found with
  | nil => rfl
  | cons n ns ih =>
      rw [List.flatMap_cons, List.map_append, List.nodup_append] at hids
      obtain ⟨hn, hns, hdisj⟩ := hids
      have hpn : Apart pending (n.preorder []) := fun e he hmem =>
        hp e he (by rw [List.flatMap_cons, List.map_append]; exact List.mem_append_left _ hmem)
      have hrest : Apart (entry n :: pending) (ns.flatMap (Node.preorder [])) := by
        intro e he hmem
        rcases List.mem_cons.mp he with rfl | he
        · exact hdisj n.id (List.mem_map_of_mem (Node.mem_preorder_self [] n)) n.id hmem rfl
        · exact hp e he (by
            rw [List.flatMap_cons, List.map_append]
            exact List.mem_append_right _ hmem)
      rw [List.flatMap_cons, List.foldlM_append, hpass n List.mem_cons_self pending found hn hpn,
        ok_bind, ih _ _ (fun m hm => hpass m (List.mem_cons_of_mem n hm)) hns hrest,
        functionEntries_append, List.reverse_cons, List.map_append]
      simp

/-- A pass over a subtree leaves one entry for its root and the complexities of its functions. -/
theorem foldlM_advance (n : Node) (pending found : Totals) (hids : n.DistinctIds)
    (hp : Apart pending (n.preorder [])) :
    n.postorderRec.foldlM advance ⟨pending, found⟩ =
      .ok ⟨entry n :: pending, functionEntries n.postorderRec ++ found⟩ := by
  induction n using Node.children_induction generalizing pending found with
  | _ n ih =>
      rw [Node.DistinctIds, Node.preorder_eq, Node.kept_nil, List.map_cons, List.nodup_cons] at hids
      rw [Apart, Node.preorder_eq, Node.kept_nil] at hp
      have hsub := map_id_sublist n.namedChildren
      have hchildren : ∀ e ∈ pending, e.1 ∉ n.namedChildren.map Node.id ∧ e.1 ≠ n.id := by
        intro e he
        have := hp e he
        rw [List.map_cons, List.mem_cons, not_or] at this
        exact ⟨fun hmem => this.2 (hsub.subset hmem), this.1⟩
      have hfold := foldlM_advance_siblings n.namedChildren pending found
        (fun c hc p f hd ha => ih c (Node.mem_namedChildren.mp hc).1 p f hd ha) hids.2
        (fun e he hmem => hp e he (List.mem_cons_of_mem _ hmem))
      rw [Node.postorderRec_eq, List.foldlM_append, hfold, ok_bind, List.foldlM_cons,
        advance_eq_ok (hids.2.sublist hsub) hchildren, ok_bind, functionEntries_append]
      simp

theorem complexities_eq_ok {root : Node} (h : root.DistinctIds) :
    complexities root = .ok (functionEntries root.postorder) := by
  rw [complexities, Node.postorder_eq_postorderRec, foldlM_advance root [] [] h (by simp [Apart]),
    ok_bind]
  simp

theorem lookup_functionEntries {ns : List Node} {f : Node} (hids : (ns.map Node.id).Nodup)
    (hmem : f ∈ ns) (hf : f.isFunction = true) :
    (functionEntries ns).lookup f.id = some (complexity f) := by
  have hkeys : (((ns.filter Node.isFunction).reverse).map Node.id).Nodup := by
    rw [List.map_reverse, List.nodup_reverse]
    exact hids.sublist ((List.filter_sublist).map Node.id)
  have hf' : f ∈ (ns.filter Node.isFunction).reverse := by simp [hmem, hf]
  rw [functionEntries]
  revert hkeys hf'
  generalize (ns.filter Node.isFunction).reverse = fs
  intro hkeys hf'
  induction fs with
  | nil => simp at hf'
  | cons g gs ih =>
      rw [List.map_cons, List.nodup_cons] at hkeys
      rw [List.map_cons, List.lookup_cons]
      rcases List.mem_cons.mp hf' with rfl | hf'
      · simp
      · have hne : f.id ≠ g.id := fun he => hkeys.1 (he ▸ List.mem_map_of_mem hf')
        simp only [beq_eq_false_iff_ne.mpr hne]
        exact ih hkeys.2 hf'

/-- Every function of a tree with distinct ids has its complexity in the table. -/
theorem lookup_eq_ok {root f : Node} (h : root.DistinctIds) (hf : root.Reaches f)
    (hfun : f.isFunction = true) :
    lookup (functionEntries root.postorder) f = .ok (complexity f) := by
  have hperm := Node.postorder_perm_preorder root
  have hids : (root.postorder.map Node.id).Nodup := (hperm.map Node.id).nodup_iff.mpr h
  have hmem : f ∈ root.postorder := hperm.mem_iff.mpr (Node.mem_preorder_iff_reaches.mpr hf)
  rw [lookup, lookup_functionEntries hids hmem hfun]

theorem mem_functions {tree : SourceTree} {v : Node × Option Node} (h : v ∈ functions tree) :
    tree.root.Reaches v.1 ∧ v.1.isFunction = true := by
  obtain ⟨hw, hf⟩ := List.mem_filter.mp h
  exact ⟨Node.exists_mem_walk_iff.mp ⟨v.2, hw⟩, hf⟩

def findings (tree : SourceTree) : List Issue :=
  if (functions tree).isEmpty then globalIssue tree
  else (functions tree).flatMap fun v => complexityIssue tree v (complexity v.1)

theorem check_eq_ok {tree : SourceTree} (h : tree.root.DistinctIds) :
    check tree = .ok (findings tree) := by
  have hissue : ∀ v ∈ functions tree,
      functionIssue tree (functionEntries tree.root.postorder) v =
        .ok (complexityIssue tree v (complexity v.1)) := by
    intro v hv
    obtain ⟨hr, hf⟩ := mem_functions hv
    rw [functionIssue, lookup_eq_ok h hr hf, ok_bind, pure_eq_ok]
  simp only [check, complexities_eq_ok h, ok_bind, pure_eq_ok, findings, mapM_eq_ok hissue,
    List.flatMap_def]
  split <;> rfl

end Branching

def Metrics.measured (tree : SourceTree) : Metrics where
  maxNesting := maximum ((Nesting.blocks tree).map Prod.snd)
  maxComplexity :=
    if (Branching.functions tree).isEmpty then Branching.globalComplexity tree.root
    else maximum ((Branching.functions tree).map fun v => Branching.complexity v.1)
  maxLength := maximum ((Branching.functions tree).map fun v => v.1.lineCount.toNat)
  functionCount := (Branching.functions tree).length

theorem Metrics.ofTree_eq_ok {tree : SourceTree} (h : tree.root.DistinctIds) :
    Metrics.ofTree tree = .ok (Metrics.measured tree) := by
  have hlookup : ∀ n ∈ (Branching.functions tree).map Prod.fst,
      Branching.lookup (Branching.functionEntries tree.root.postorder) n =
        .ok (Branching.complexity n) := by
    intro n hn
    obtain ⟨v, hv, rfl⟩ := List.mem_map.mp hn
    obtain ⟨hr, hf⟩ := Branching.mem_functions hv
    exact Branching.lookup_eq_ok h hr hf
  simp only [Metrics.ofTree, Branching.complexities_eq_ok h, ok_bind, mapM_eq_ok hlookup,
    pure_eq_ok, List.map_map, List.isEmpty_map, List.length_map, measured]
  rfl

end ScriptReview
