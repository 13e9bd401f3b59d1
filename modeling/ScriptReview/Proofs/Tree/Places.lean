import Mathlib.Data.List.Induction
import Mathlib.Data.List.Lex
import ScriptReview.Proofs.Tree.Descent

namespace ScriptReview.Node

/-- A node with its place, and the nodes passed on the way to it, the root first. -/
structure Visit where
  place : List Nat
  above : List Node
  node : Node

namespace Visit

def atRoot (root : Node) : Visit := ⟨[], [], root⟩

def down (v : Visit) (i : Nat) (c : Node) : Visit :=
  ⟨v.place ++ [i], v.above ++ [v.node], c⟩

inductive Leads (skip : List String) (start : Visit) : Visit → Prop
  | refl : Leads skip start start
  | child {v : Visit} {i : Nat} {c : Node} : Leads skip start v → v.node.children[i]? = some c →
      c.isNamed = true → c.hasKind skip = false → Leads skip start (v.down i c)

def parent? (v : Visit) : Option Node :=
  v.above.getLast?

def edges (v : Visit) : List Edge :=
  v.above.zip (v.above.tail ++ [v.node])

def state {σ : Type} (step : Node → Node → σ → σ) (s : σ) (v : Visit) : σ :=
  v.edges.foldl (fun t e => step e.1 e.2 t) s

def depth (v : Visit) : Nat :=
  v.above.countP (·.hasKind Kind.nesting)

end Visit

mutual

def tourFrom (skip : List String) (place : List Nat) (above : List Node) : Node → List Visit
  | mk i cs => ⟨place, above, mk i cs⟩ :: toursFrom skip place (above ++ [mk i cs]) 0 cs

def toursFrom (skip : List String) (place : List Nat) (above : List Node) (k : Nat) :
    List Node → List Visit
  | [] => []
  | c :: cs =>
    (if c.isNamed && !c.hasKind skip then tourFrom skip (place ++ [k]) above c else []) ++
      toursFrom skip place above (k + 1) cs

end

def Visit.tour (skip : List String) (v : Visit) : List Visit :=
  tourFrom skip v.place v.above v.node

def tour (skip : List String) (root : Node) : List Visit :=
  (Visit.atRoot root).tour skip

/-- One place is reached before the other, in another branch: where the ways part, the first goes
on into an earlier child. -/
def Parts (p q : List Nat) : Prop :=
  ∃ r i j, i < j ∧ r ++ [i] <+: p ∧ r ++ [j] <+: q

theorem Parts.lt {p q : List Nat} (h : Parts p q) : p < q := by
  obtain ⟨r, i, j, hij, ⟨p', rfl⟩, ⟨q', rfl⟩⟩ := h
  rw [List.append_assoc, List.append_assoc]
  apply List.append_left_lt
  exact List.cons_lt_cons_iff.mpr (.inl hij)

theorem Parts.not_isPrefix {p q : List Nat} (h : Parts p q) : ¬ p <+: q := by
  obtain ⟨r, i, j, hij, hp, hq⟩ := h
  intro hpq
  have hlength : (r ++ [i]).length = (r ++ [j]).length := by simp
  have heq : r ++ [i] = r ++ [j] :=
    (List.prefix_of_prefix_length_le (hp.trans hpq) hq hlength.le).eq_of_length hlength
  simp only [List.append_cancel_left_eq, List.cons.injEq, and_true] at heq
  omega

theorem lt_of_isPrefix_concat {p q : List Nat} {i : Nat} (h : p ++ [i] <+: q) : p < q := by
  obtain ⟨q', rfl⟩ := h
  have happend : p ++ [] < p ++ i :: q' := List.append_left_lt (List.nil_lt_cons i q')
  simpa using happend

namespace Visit

variable {skip : List String} {v w start : Visit}

def entered (skip : List String) (v : Visit) : List Visit :=
  (v.node.children.zipIdx.filter fun c => c.1.isNamed && !c.1.hasKind skip).map
    fun c => v.down c.2 c.1

theorem mem_entered : w ∈ v.entered skip ↔ ∃ i c, v.node.children[i]? = some c ∧
    c.isNamed = true ∧ c.hasKind skip = false ∧ w = v.down i c := by
  simp only [entered, List.mem_map, List.mem_filter, Prod.exists, List.mem_zipIdx_iff_getElem?,
    Bool.and_eq_true, Bool.not_eq_true']
  constructor
  · rintro ⟨c, i, ⟨hc, hnamed, hskip⟩, rfl⟩
    exact ⟨i, c, hc, hnamed, hskip, rfl⟩
  · rintro ⟨i, c, hc, hnamed, hskip, rfl⟩
    exact ⟨c, i, ⟨hc, hnamed, hskip⟩, rfl⟩

theorem map_node_entered (skip : List String) (v : Visit) :
    (v.entered skip).map node = v.node.kept skip := by
  have hnode : node ∘ (fun c : Node × Nat => v.down c.2 c.1) = Prod.fst := rfl
  have htest : (fun c : Node × Nat => c.1.isNamed && !c.1.hasKind skip) =
      (fun c => c.isNamed && !c.hasKind skip) ∘ Prod.fst := rfl
  rw [entered, List.map_map, hnode, htest, ← List.filter_map, List.zipIdx_map_fst, kept,
    namedChildren, List.filter_filter]
  simp only [Bool.and_comm]

theorem node_mem_children (h : w ∈ v.entered skip) : w.node ∈ v.node.children := by
  obtain ⟨i, c, hc, -, -, rfl⟩ := mem_entered.mp h
  exact List.mem_of_getElem? hc

/-- Induction from the children of a visited node to the node. -/
theorem entered_induction {P : Visit → Prop} (skip : List String)
    (h : ∀ v, (∀ w ∈ v.entered skip, P w) → P v) (v : Visit) : P v := by
  -- The recursion is on the node; its place and the nodes above it change from call to call.
  induction hn : v.node using children_induction generalizing v with
  | _ n ih =>
      subst hn
      apply h
      intro w hw
      exact ih w.node (node_mem_children hw) w rfl

theorem toursFrom_eq (place : List Nat) (above : List Node) (k : Nat) (cs : List Node) :
    toursFrom skip place above k cs =
      ((cs.zipIdx k).filter fun c => c.1.isNamed && !c.1.hasKind skip).flatMap
        fun c => tourFrom skip (place ++ [c.2]) above c.1 := by
  induction cs generalizing k with
  | nil => rfl
  | cons c cs ih =>
      rw [toursFrom, ih, List.zipIdx_cons, List.filter_cons]
      split <;> simp

theorem tour_eq (skip : List String) (v : Visit) :
    v.tour skip = v :: (v.entered skip).flatMap (tour skip) := by
  obtain ⟨place, above, ⟨i, cs⟩⟩ := v
  rw [tour, tourFrom, toursFrom_eq, entered, List.flatMap_map]
  rfl

theorem mem_tour_self (skip : List String) (v : Visit) : v ∈ v.tour skip := by
  rw [tour_eq]
  exact List.mem_cons_self

theorem Leads.of_entered (hw : w ∈ start.entered skip) (h : w.Leads skip v) :
    start.Leads skip v := by
  induction h with
  | refl =>
      obtain ⟨i, c, hc, hnamed, hskip, rfl⟩ := mem_entered.mp hw
      exact Leads.refl.child hc hnamed hskip
  | child _ hc hnamed hskip ih => exact ih.child hc hnamed hskip

theorem mem_tour_of_mem_entered (hv : v ∈ start.tour skip) (hw : w ∈ v.entered skip) :
    w ∈ start.tour skip := by
  induction start using entered_induction skip with
  | _ start ih =>
      rw [tour_eq, List.mem_cons, List.mem_flatMap] at hv ⊢
      right
      rcases hv with rfl | ⟨u, hu, hv⟩
      · exact ⟨w, hw, mem_tour_self skip w⟩
      · exact ⟨u, hu, ih u hu hv⟩

theorem mem_tour_iff : v ∈ start.tour skip ↔ start.Leads skip v := by
  constructor
  · intro h
    induction start using entered_induction skip with
    | _ start ih =>
        rw [tour_eq, List.mem_cons, List.mem_flatMap] at h
        rcases h with rfl | ⟨w, hw, h⟩
        · exact .refl
        · exact .of_entered hw (ih w hw h)
  · intro h
    induction h with
    | refl => exact mem_tour_self skip start
    | child _ hc hnamed hskip ih =>
        exact mem_tour_of_mem_entered ih (mem_entered.mpr ⟨_, _, hc, hnamed, hskip, rfl⟩)

theorem Leads.isPrefix_place (h : start.Leads skip v) : start.place <+: v.place := by
  induction h with
  | refl => exact List.prefix_rfl
  | child _ _ _ _ ih => exact ih.trans (List.prefix_append _ _)

/-- The children are entered from left to right. -/
theorem entered_pairwise (skip : List String) (v : Visit) :
    (v.entered skip).Pairwise fun a b =>
      ∃ i j, i < j ∧ a.place = v.place ++ [i] ∧ b.place = v.place ++ [j] := by
  have hpositions : v.node.children.zipIdx.Pairwise fun c d => c.2 < d.2 := by
    rw [← List.pairwise_map, List.zipIdx_map_snd]
    exact List.pairwise_lt_range'
  rw [entered, List.pairwise_map]
  apply (hpositions.filter _).imp
  intro c d hcd
  exact ⟨c.2, d.2, hcd, rfl, rfl⟩

/-- Visits below the children, listed child by child, are related if visits of different branches
are. -/
theorem pairwise_flatMap_entered {f : Visit → List Visit} {R : Visit → Visit → Prop}
    (hf : ∀ w ∈ v.entered skip, ∀ x ∈ f w, w.place <+: x.place)
    (hR : ∀ x y : Visit, Parts x.place y.place → R x y)
    (hinner : ∀ w ∈ v.entered skip, (f w).Pairwise R) :
    ((v.entered skip).flatMap f).Pairwise R := by
  rw [List.pairwise_flatMap]
  refine ⟨hinner, ?_⟩
  apply List.Pairwise.imp_of_mem _ (entered_pairwise skip v)
  intro a b ha hb hab x hx y hy
  obtain ⟨i, j, hij, hai, hbj⟩ := hab
  apply hR
  exact ⟨v.place, i, j, hij, hai ▸ hf a ha x hx, hbj ▸ hf b hb y hy⟩

theorem exists_place_of_mem_entered (h : w ∈ v.entered skip) : ∃ i, w.place = v.place ++ [i] := by
  obtain ⟨i, c, -, -, -, rfl⟩ := mem_entered.mp h
  exact ⟨i, rfl⟩

/-- The pre-order is document order. -/
theorem tour_pairwise_lt (skip : List String) (v : Visit) :
    (v.tour skip).Pairwise fun a b => a.place < b.place := by
  induction v using entered_induction skip with
  | _ v ih =>
      have hbelow : ∀ w ∈ v.entered skip, ∀ x ∈ w.tour skip, w.place <+: x.place :=
        fun w _ x hx => (mem_tour_iff.mp hx).isPrefix_place
      rw [tour_eq, List.pairwise_cons]
      constructor
      · intro x hx
        obtain ⟨w, hw, hx⟩ := List.mem_flatMap.mp hx
        obtain ⟨i, hi⟩ := exists_place_of_mem_entered hw
        exact lt_of_isPrefix_concat (hi ▸ hbelow w hw x hx)
      · exact pairwise_flatMap_entered hbelow (fun x y => Parts.lt) ih

/-- There is a post-order of the same visits: no node comes before one below it. -/
theorem exists_postorder (v : Visit) : ∃ vs : List Visit, vs.Perm (v.tour []) ∧
    v.node.postorderRec = vs.map node ∧ vs.Pairwise fun a b => ¬ a.place <+: b.place := by
  induction v using entered_induction [] with
  | _ v ih =>
      choose! after hperm hnodes hlater using ih
      have hbelow : ∀ w ∈ v.entered [], ∀ x ∈ after w, w.place <+: x.place := by
        intro w hw x hx
        exact (mem_tour_iff.mp ((hperm w hw).mem_iff.mp hx)).isPrefix_place
      refine ⟨(v.entered []).flatMap after ++ [v], ?_, ?_, ?_⟩
      · rw [tour_eq]
        apply List.perm_append_comm.trans
        exact (List.Perm.flatMap_left _ hperm).cons v
      · rw [postorderRec_eq, ← kept_nil, ← map_node_entered, List.flatMap_map, List.map_append,
          List.map_flatMap]
        congr 1
        exact List.flatMap_congr hnodes
      · rw [List.pairwise_append]
        refine ⟨pairwise_flatMap_entered hbelow (fun x y => Parts.not_isPrefix) hlater,
          List.pairwise_singleton _ _, ?_⟩
        -- The visit itself comes last: the place of anything below it is longer than its own.
        intro x hx y hy hstarts
        obtain ⟨w, hw, hx⟩ := List.mem_flatMap.mp hx
        obtain ⟨i, hi⟩ := exists_place_of_mem_entered hw
        rw [List.mem_singleton.mp hy] at hstarts
        have hlength := ((hbelow w hw x hx).trans hstarts).length_le
        rw [hi, List.length_append] at hlength
        exact absurd hlength (by simp)

section State

variable {σ : Type} (step : Node → Node → σ → σ) (s : σ)

/-- The last step of the way is the one from the parent. -/
theorem state_concat (place place' : List Nat) (above : List Node) (p n : Node) :
    state step s ⟨place, above ++ [p], n⟩ = step p n (state step s ⟨place', above, p⟩) := by
  have hedges : edges ⟨place, above ++ [p], n⟩ = edges ⟨place', above, p⟩ ++ [(p, n)] := by
    cases above with
    | nil => rfl
    | cons a above =>
        simp only [edges, List.cons_append, List.tail_cons]
        rw [← List.cons_append, List.zip_append (by simp)]
        rfl
  rw [state, hedges, List.foldl_append]
  rfl

theorem walkWith_eq_map_tour (skip : List String) (v : Visit) :
    v.node.walkWith skip (v.state step s) step =
      (v.tour skip).map fun w => (w.node, w.state step s) := by
  induction v using entered_induction skip with
  | _ v ih =>
      rw [walkWith_eq, tour_eq, List.map_cons, List.map_flatMap, ← map_node_entered,
        List.flatMap_map]
      congr 1
      apply List.flatMap_congr
      intro w hw
      rw [← ih w hw]
      obtain ⟨i, c, -, -, -, rfl⟩ := mem_entered.mp hw
      rw [down, state_concat step s _ v.place]

theorem state_parent (v : Visit) : v.state (fun parent _ _ => some parent) none = v.parent? := by
  obtain ⟨place, above, n⟩ := v
  rcases List.eq_nil_or_concat above with rfl | ⟨above, p, rfl⟩
  · rfl
  · rw [List.concat_eq_append, state_concat _ _ place place, parent?, List.getLast?_concat]

theorem state_deeper (v : Visit) : v.state deeper 0 = v.depth := by
  obtain ⟨place, above, n⟩ := v
  induction above using List.reverseRecOn generalizing n with
  | nil => rfl
  | append_singleton above p ih =>
      rw [state_concat _ _ place place, ih, deeper, depth, depth, List.countP_append,
        List.countP_singleton]
      split_ifs <;> rfl

end State

end Visit

theorem walkSkipping_eq_map_tour (skip : List String) (root : Node) :
    root.walkSkipping skip = (root.tour skip).map fun v => (v.node, v.parent?) := by
  have hwalk : root.walkSkipping skip = ((Visit.atRoot root).tour skip).map fun v =>
      (v.node, v.state (fun parent _ _ => some parent) none) :=
    Visit.walkWith_eq_map_tour _ _ skip (.atRoot root)
  rw [hwalk, tour]
  simp only [Visit.state_parent]

theorem descendants_eq_map_tour (skip : List String) (root : Node) :
    root.descendants skip = (root.tour skip).tail.map Visit.node := by
  rw [descendants, walkSkipping_eq_map_tour, ← List.map_tail, List.map_map]
  rfl

/-- The walks are the recursive orders. A pre-order visits exactly the nodes that can be reached,
once each and in document order, with the parent or the state that the way from the root gives. A
post-order visits the nodes of the pre-order, and none before one that stands below it. -/
theorem walks_eq_recursive_orders (skip : List String) (root : Node) :
    ((root.tour skip).Pairwise fun v w => v.place < w.place) ∧
    (∀ v, v ∈ root.tour skip ↔ (Visit.atRoot root).Leads skip v) ∧
    root.walkSkipping skip = (root.tour skip).map (fun v => (v.node, v.parent?)) ∧
    root.descendants skip = (root.tour skip).tail.map Visit.node ∧
    (∀ (σ : Type) (s : σ) (step : Node → Node → σ → σ),
      root.walkWith skip s step = (root.tour skip).map fun v => (v.node, v.state step s)) ∧
    root.walkWith skip 0 deeper = (root.tour skip).map (fun v => (v.node, v.depth)) ∧
    root.postorder = root.postorderRec ∧
    ∃ vs : List Visit, vs.Perm (root.tour []) ∧ root.postorder = vs.map Visit.node ∧
      vs.Pairwise fun v w => ¬ v.Leads [] w := by
  have hwalk (σ : Type) (s : σ) (step : Node → Node → σ → σ) :
      root.walkWith skip s step = (root.tour skip).map fun v => (v.node, v.state step s) :=
    Visit.walkWith_eq_map_tour step s skip (.atRoot root)
  have hdeeper : root.walkWith skip 0 deeper =
      (root.tour skip).map fun v => (v.node, v.depth) := by
    rw [hwalk]
    simp only [Visit.state_deeper]
  obtain ⟨vs, hperm, hnodes, hlater⟩ := (Visit.atRoot root).exists_postorder
  refine ⟨Visit.tour_pairwise_lt skip (.atRoot root), fun v => Visit.mem_tour_iff,
    walkSkipping_eq_map_tour skip root, descendants_eq_map_tour skip root, hwalk, hdeeper,
    postorder_eq_postorderRec root, vs, hperm, ?_, ?_⟩
  · rw [postorder_eq_postorderRec]
    exact hnodes
  · apply hlater.imp
    intro v w hvw hleads
    exact hvw hleads.isPrefix_place

end ScriptReview.Node
