import ScriptReview.Proofs.Tree.Walk

namespace ScriptReview.Node

variable {σ : Type} {step : Node → Node → σ → σ} {s t : σ} {root n c : Node}

abbrev Edge := Node × Node

/-- The edges that lead from the root to a node, the last one first. -/
inductive Descends (root : Node) : List Edge → Node → Prop
  | refl : Descends root [] root
  | child {edges : List Edge} {n c : Node} : Descends root edges n → c ∈ n.namedChildren →
      Descends root ((n, c) :: edges) c

theorem Descends.reaches {edges : List Edge} (h : root.Descends edges n) : root.Reaches n := by
  induction h with
  | refl => exact .refl
  | child _ hc ih => exact ih.child hc

theorem Descends.ofChild {edges : List Edge} (h : c.Descends edges n) (hc : c ∈ root.namedChildren) :
    root.Descends (edges ++ [(root, c)]) n := by
  induction h with
  | refl => exact Descends.refl.child hc
  | child _ hd ih => exact ih.child hd

def carried (step : Node → Node → σ → σ) (s : σ) (edges : List Edge) : σ :=
  edges.foldr (fun e t => step e.1 e.2 t) s

theorem carried_concat (edges : List Edge) (e : Edge) :
    carried step s (edges ++ [e]) = carried step (step e.1 e.2 s) edges := by
  rw [carried, List.foldr_append]
  rfl

theorem mem_walkWith_child (hn : (n, t) ∈ root.walkWith [] s step) (hc : c ∈ n.namedChildren) :
    (c, step n c t) ∈ root.walkWith [] s step := by
  induction root using children_induction generalizing s with
  | _ root ih =>
      rw [walkWith_eq, kept_nil, List.mem_cons, List.mem_flatMap] at hn ⊢
      right
      rcases hn with hroot | ⟨d, hd, hn⟩
      · cases hroot
        refine ⟨c, hc, ?_⟩
        rw [walkWith_eq]
        exact List.mem_cons_self
      · exact ⟨d, hd, ih d (mem_namedChildren.mp hd).1 hn⟩

/-- A walk visits a node once for each way that leads to it. -/
theorem mem_walkWith_iff :
    (n, t) ∈ root.walkWith [] s step ↔
      ∃ edges, root.Descends edges n ∧ carried step s edges = t := by
  constructor
  · intro h
    induction root using children_induction generalizing s with
    | _ root ih =>
        rw [walkWith_eq, kept_nil, List.mem_cons, List.mem_flatMap] at h
        rcases h with hroot | ⟨d, hd, h⟩
        · cases hroot
          exact ⟨[], .refl, rfl⟩
        · obtain ⟨edges, hdown, rfl⟩ := ih d (mem_namedChildren.mp hd).1 h
          exact ⟨edges ++ [(root, d)], hdown.ofChild hd, carried_concat edges (root, d)⟩
  · rintro ⟨edges, hdown, rfl⟩
    induction hdown with
    | refl =>
        rw [walkWith_eq]
        exact List.mem_cons_self
    | child _ hc ih => exact mem_walkWith_child ih hc

def descents (root : Node) : List (Node × List Edge) :=
  preorderWith [] (fun parent child edges => (parent, child) :: edges) [] root

theorem descents_eq_walkWith (root : Node) :
    root.descents = root.walkWith [] [] fun parent child edges => (parent, child) :: edges :=
  (walkWith_eq_preorderWith [] [] _ root).symm

theorem mem_descents_iff {edges : List Edge} :
    (n, edges) ∈ root.descents ↔ root.Descends edges n := by
  have hcarried (es : List Edge) :
      carried (fun parent child edges => (parent, child) :: edges) [] es = es := by
    induction es with
    | nil => rfl
    | cons e es ih => exact congrArg (e :: ·) ih
  simp only [descents_eq_walkWith, mem_walkWith_iff, hcarried, exists_eq_right]

theorem walkWith_carried (start : List Edge) :
    root.walkWith [] (carried step s start) step =
      (root.walkWith [] start fun parent child edges => (parent, child) :: edges).map
        fun v => (v.1, carried step s v.2) := by
  induction root using children_induction generalizing start with
  | _ root ih =>
      rw [walkWith_eq, walkWith_eq, List.map_cons, List.map_flatMap]
      congr 1
      apply List.flatMap_congr
      intro d hd
      exact ih d (mem_children_of_mem_kept hd) ((root, d) :: start)

/-- A walk visits the nodes in pre-order, each in the state that the way to it gives. -/
theorem walkWith_eq_map_descents (step : Node → Node → σ → σ) (s : σ) (root : Node) :
    root.walkWith [] s step = root.descents.map fun v => (v.1, carried step s v.2) := by
  rw [descents_eq_walkWith]
  exact walkWith_carried []

/-- A state that is set by some edges and never taken back tells whether one of them leads to the
node. -/
theorem carried_eq_true_iff {test : Node → Node → Bool} {step : Node → Node → Bool → Bool}
    (hstep : ∀ p c inside, step p c inside = (inside || test p c)) (edges : List Edge) :
    carried step false edges = true ↔ ∃ e ∈ edges, test e.1 e.2 = true := by
  induction edges with
  | nil => simp [carried]
  | cons e edges ih =>
      have hcons : carried step false (e :: edges) = (carried step false edges || test e.1 e.2) :=
        hstep e.1 e.2 _
      rw [hcons, Bool.or_eq_true, ih, List.exists_mem_cons_iff, or_comm]

/-- Whether a child stands in a role of its parent. Nodes are told apart by their ids. -/
def Fills (c : Node) (role : String) (parent : Node) : Prop :=
  ∃ d, parent.child? role = some d ∧ c.id = d.id

theorem isSame_child?_iff {role : String} {parent : Node} :
    c.isSame (parent.child? role) = true ↔ c.Fills role parent := by
  rw [Fills]
  cases parent.child? role <;> simp [isSame]

end ScriptReview.Node
