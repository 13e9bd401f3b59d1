import Mathlib.Data.List.Nodup
import Mathlib.Data.List.Pairwise
import ScriptReview.Findings.UserInput
import ScriptReview.Proofs.Findings.Complexity

namespace ScriptReview

theorem eq_of_mem_of_nodup_flatMap {α β : Type} {l : List α} {f : α → List β}
    (h : (l.flatMap f).Nodup) {a b : α} (ha : a ∈ l) (hb : b ∈ l) {x : β} (hxa : x ∈ f a)
    (hxb : x ∈ f b) : a = b := by
  have hsymm : Std.Symm (Function.onFun List.Disjoint f) := ⟨fun _ _ h _ hx hy => h hy hx⟩
  by_contra hne
  exact (List.nodup_flatMap.mp h).2.forall ha hb hne hxa hxb

namespace Node

/-- No two nodes of the tree have the same id, punctuation and keywords included. -/
def AllDistinctIds (root : Node) : Prop :=
  (root.nodes.map Node.id).Nodup

instance (root : Node) : Decidable root.AllDistinctIds :=
  inferInstanceAs (Decidable (List.Nodup _))

theorem AllDistinctIds.eq_of_id_eq {root m n : Node} (h : root.AllDistinctIds)
    (hm : root.Contains m) (hn : root.Contains n) (hid : m.id = n.id) : m = n :=
  List.inj_on_of_nodup_map h hm hn hid

theorem preorder_sublist_nodes (n : Node) : (n.preorder []).Sublist n.nodes := by
  induction n using children_induction with
  | _ n ih =>
      rw [preorder_eq, nodes_eq, kept_nil, namedChildren]
      apply List.Sublist.cons_cons
      generalize n.children = cs at ih
      induction cs with
      | nil => exact .slnil
      | cons c cs ihcs =>
          have hrest := ihcs fun d hd => ih d (List.mem_cons_of_mem c hd)
          rw [List.filter_cons]
          split
          · exact (ih c List.mem_cons_self).append hrest
          · exact hrest.trans (List.sublist_append_right _ _)

theorem AllDistinctIds.distinctIds {root : Node} (h : root.AllDistinctIds) : root.DistinctIds :=
  h.sublist ((preorder_sublist_nodes root).map Node.id)

theorem Contains.size_le {root n : Node} (h : root.Contains n) : n.size ≤ root.size := by
  induction root using children_induction with
  | _ root ih =>
      rw [Contains, nodes_eq, List.mem_cons, List.mem_flatMap] at h
      rcases h with rfl | ⟨c, hc, hn⟩
      · exact Nat.le_refl _
      · exact Nat.le_trans (ih c hc hn) (Nat.le_of_lt (size_lt_of_mem_children hc))

/-- A child that named children lead to is named: it is not the root. -/
theorem Reaches.isNamed_of_mem_children {root n c : Node} (h : root.Reaches c)
    (hn : root.Contains n) (hc : c ∈ n.children) : c.isNamed = true := by
  cases h with
  | refl => exact absurd hn.size_le (Nat.not_le.mpr (size_lt_of_mem_children hc))
  | child _ hmem => exact (mem_namedChildren.mp hmem).2

/-- Each node comes after its named children, some of which may be done before. -/
def ChildrenFirst (done : List Node) : List Node → Prop
  | [] => True
  | n :: ns => (∀ c ∈ n.namedChildren, c ∈ done) ∧ ChildrenFirst (n :: done) ns

theorem ChildrenFirst.append {done xs ys : List Node} (hx : ChildrenFirst done xs)
    (hy : ChildrenFirst (xs.reverse ++ done) ys) : ChildrenFirst done (xs ++ ys) := by
  induction xs generalizing done with
  | nil => exact hy
  | cons x xs ih =>
      refine ⟨hx.1, ih hx.2 ?_⟩
      rw [List.reverse_cons, List.append_assoc] at hy
      exact hy

theorem ChildrenFirst.flatMap {f : Node → List Node} {done cs : List Node}
    (h : ∀ c ∈ cs, ∀ done, ChildrenFirst done (f c)) : ChildrenFirst done (cs.flatMap f) := by
  induction cs generalizing done with
  | nil => trivial
  | cons c cs ih =>
      rw [List.flatMap_cons]
      exact (h c List.mem_cons_self done).append (ih fun d hd => h d (List.mem_cons_of_mem c hd))

theorem childrenFirst_postorderRec (n : Node) (done : List Node) :
    ChildrenFirst done n.postorderRec := by
  induction n using children_induction generalizing done with
  | _ n ih =>
      rw [postorderRec_eq]
      refine (ChildrenFirst.flatMap fun c hc => ih c (mem_namedChildren.mp hc).1).append
        ⟨fun c hc => ?_, trivial⟩
      have hself : c ∈ c.postorderRec :=
        (postorderRec_perm_preorder c).mem_iff.mpr (mem_preorder_self [] c)
      exact List.mem_append_left _
        (List.mem_reverse.mpr (List.mem_flatMap.mpr ⟨c, hc, hself⟩))

end Node

namespace UserInput

inductive Rooted (tree : SourceTree) : Node → Prop
  | request {n target : Node} : n.hasKind accessKinds = true → n.child? "object" = some target →
      target.isIdentifier = true → tree.text target ∈ roots → Rooted tree n
  | access {n target : Node} : n.hasKind accessKinds = true → n.child? "object" = some target →
      target.isNamed = true → Rooted tree target → Rooted tree n

inductive Reads (tree : SourceTree) : Node → Prop
  | rooted {n : Node} : Rooted tree n → Reads tree n
  | child {n c : Node} : c ∈ n.namedChildren → Reads tree c → Reads tree n

variable {tree : SourceTree}

theorem rooted_iff {n : Node} :
    Rooted tree n ↔ n.hasKind accessKinds = true ∧ ∃ target, n.child? "object" = some target ∧
      ((target.isNamed = true ∧ Rooted tree target) ∨
        (target.isIdentifier = true ∧ tree.text target ∈ roots)) := by
  constructor
  · rintro (⟨hk, ht, hi, hr⟩ | ⟨hk, ht, hn, hr⟩)
    · exact ⟨hk, _, ht, .inr ⟨hi, hr⟩⟩
    · exact ⟨hk, _, ht, .inl ⟨hn, hr⟩⟩
  · rintro ⟨hk, target, ht, ⟨hn, hr⟩ | ⟨hi, hr⟩⟩
    · exact .access hk ht hn hr
    · exact .request hk ht hi hr

theorem reads_iff {n : Node} :
    Reads tree n ↔ Rooted tree n ∨ ∃ c ∈ n.namedChildren, Reads tree c := by
  constructor
  · rintro (hr | ⟨hc, hr⟩)
    · exact .inl hr
    · exact .inr ⟨_, hc, hr⟩
  · rintro (hr | ⟨c, hc, hr⟩)
    · exact .rooted hr
    · exact .child hc hr

structure Collected (tree : SourceTree) (done : List Node) (r : Reach) : Prop where
  mem_rooted : ∀ i, i ∈ r.rooted ↔ ∃ n ∈ done, Rooted tree n ∧ n.id = i
  mem_reading : ∀ i, i ∈ r.reading ↔ ∃ n ∈ done, Reads tree n ∧ n.id = i

variable {done : List Node} {r : Reach} {n : Node}

theorem Collected.isRooted_iff (h : Collected tree done r) (hids : tree.root.AllDistinctIds)
    (hdone : ∀ m ∈ done, tree.root.Reaches m) (hn : tree.root.Contains n)
    (hchildren : ∀ c ∈ n.namedChildren, c ∈ done) :
    isRooted tree r.rooted n = true ↔ Rooted tree n := by
  rw [rooted_iff, isRooted]
  simp only [Bool.and_eq_true, Option.any_eq_true, Bool.or_eq_true, List.contains_eq_mem,
    decide_eq_true_eq, h.mem_rooted]
  refine and_congr_right fun _ => exists_congr fun target => and_congr_right fun ht => ?_
  refine or_congr_left ⟨?_, ?_⟩
  · rintro ⟨m, hm, hr, hid⟩
    obtain rfl := hids.eq_of_id_eq (hdone m hm).contains (hn.child? ht) hid
    exact ⟨(hdone m hm).isNamed_of_mem_children hn (List.mem_of_find?_eq_some ht), hr⟩
  · rintro ⟨hnamed, hr⟩
    have hmem : target ∈ n.namedChildren :=
      Node.mem_namedChildren.mpr ⟨List.mem_of_find?_eq_some ht, hnamed⟩
    exact ⟨target, hchildren target hmem, hr, rfl⟩

theorem rooted_extend (r : Reach) (n : Node) :
    (extend tree r n).rooted =
      if isRooted tree r.rooted n then n.id :: r.rooted else r.rooted := by
  simp only [extend, apply_ite Reach.rooted, ite_self]

theorem reading_extend (r : Reach) (n : Node) :
    (extend tree r n).reading =
      if (extend tree r n).rooted.contains n.id ||
        n.namedChildren.any (fun c => r.reading.contains c.id) then n.id :: r.reading
      else r.reading := by
  rw [rooted_extend]
  simp only [extend, apply_ite Reach.reading]

/-- A node whose named children are done adds what holds of itself. -/
theorem Collected.extend (h : Collected tree done r) (hids : tree.root.AllDistinctIds)
    (hdone : ∀ m ∈ done, tree.root.Reaches m) (hn : tree.root.Contains n)
    (hchildren : ∀ c ∈ n.namedChildren, c ∈ done) :
    Collected tree (n :: done) (UserInput.extend tree r n) := by
  have hiff := h.isRooted_iff hids hdone hn hchildren
  have hown {P : Node → Prop} {m : Node} (hm : tree.root.Contains m) :
      (∃ k ∈ done, P k ∧ k.id = m.id) → P m := by
    rintro ⟨k, hk, hP, hid⟩
    exact hids.eq_of_id_eq (hdone k hk).contains hm hid ▸ hP
  have hrooted : ∀ i, i ∈ (UserInput.extend tree r n).rooted ↔
      (Rooted tree n ∧ n.id = i) ∨ i ∈ r.rooted := by
    intro i
    rw [rooted_extend]
    by_cases hr : Rooted tree n
    · rw [if_pos (hiff.mpr hr), List.mem_cons]
      simp [hr, eq_comm]
    · rw [if_neg fun hc => hr (hiff.mp hc)]
      simp [hr]
  have hreads : ((UserInput.extend tree r n).rooted.contains n.id ||
      n.namedChildren.any fun c => r.reading.contains c.id) = true ↔ Reads tree n := by
    rw [reads_iff, Bool.or_eq_true, List.contains_eq_mem, decide_eq_true_eq, hrooted]
    refine or_congr ⟨?_, fun hr => .inl ⟨hr, rfl⟩⟩ ?_
    · rintro (⟨hr, -⟩ | hr)
      · exact hr
      · exact hown hn ((h.mem_rooted _).mp hr)
    · simp only [List.any_eq_true, List.contains_eq_mem, decide_eq_true_eq, h.mem_reading]
      refine exists_congr fun c => and_congr_right fun hc => ⟨?_, fun hr => ?_⟩
      · exact hown (hn.child (Node.mem_namedChildren.mp hc).1)
      · exact ⟨c, hchildren c hc, hr, rfl⟩
  constructor
  · intro i
    rw [hrooted, h.mem_rooted, List.exists_mem_cons_iff]
  · intro i
    rw [reading_extend, List.exists_mem_cons_iff, ← h.mem_reading]
    by_cases hr : Reads tree n
    · rw [if_pos (hreads.mpr hr), List.mem_cons]
      simp [hr, eq_comm]
    · rw [if_neg fun hc => hr (hreads.mp hc)]
      simp [hr]

theorem Collected.foldl {ns : List Node} (h : Collected tree done r)
    (hids : tree.root.AllDistinctIds) (hdone : ∀ m ∈ done, tree.root.Reaches m)
    (hns : ∀ m ∈ ns, tree.root.Reaches m) (hfirst : Node.ChildrenFirst done ns) :
    Collected tree (ns.reverse ++ done) (ns.foldl (UserInput.extend tree) r) := by
  induction ns generalizing done r with
  | nil => exact h
  | cons n ns ih =>
      have hn := hns n List.mem_cons_self
      rw [List.reverse_cons, List.append_assoc]
      refine ih (h.extend hids hdone hn.contains hfirst.1) ?_
        (fun m hm => hns m (List.mem_cons_of_mem n hm)) hfirst.2
      intro m hm
      rcases List.mem_cons.mp hm with rfl | hm
      · exact hn
      · exact hdone m hm

/-- The ids of the nodes that read user input are those of the nodes that do. -/
theorem mem_nodes_iff (hids : tree.root.AllDistinctIds) {i : Nat} :
    i ∈ nodes tree ↔ ∃ n, tree.root.Reaches n ∧ Reads tree n ∧ n.id = i := by
  have hmem {m : Node} : m ∈ tree.root.postorder ↔ tree.root.Reaches m := by
    rw [(Node.postorder_perm_preorder tree.root).mem_iff, Node.mem_preorder_iff_reaches]
  have hempty : Collected tree [] ⟨[], []⟩ := ⟨by simp, by simp⟩
  have hfirst : Node.ChildrenFirst [] tree.root.postorder := by
    rw [Node.postorder_eq_postorderRec]
    exact Node.childrenFirst_postorderRec tree.root []
  have hcollected := hempty.foldl hids (by simp) (fun m => hmem.mp) hfirst
  rw [nodes, reach, hcollected.mem_reading]
  simp [hmem]

end UserInput

end ScriptReview
