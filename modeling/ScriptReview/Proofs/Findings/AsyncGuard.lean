import Mathlib.Data.List.Flatten
import Mathlib.Data.List.Perm.Subperm
import ScriptReview.Proofs.Findings.Lines
import ScriptReview.Proofs.Findings.UserInput
import ScriptReview.Proofs.Tree.Descent

namespace ScriptReview

namespace Node

variable {root n c f w body : Node} {skip : List String} {edges : List Edge}

def Owns (f w : Node) : Prop :=
  ∃ body edges, f.child? "body" = some body ∧ body.Descends edges w ∧
    ∀ e ∈ edges, e.1.isFunction = false

theorem mem_preorder_of_mem_kept (hn : n ∈ root.preorder skip) (hc : c ∈ n.kept skip) :
    c ∈ root.preorder skip := by
  induction root using children_induction with
  | _ root ih =>
      rw [preorder_eq, List.mem_cons, List.mem_flatMap] at hn ⊢
      right
      rcases hn with rfl | ⟨d, hd, hn⟩
      · exact ⟨c, hc, mem_preorder_self skip c⟩
      · exact ⟨d, hd, ih d (mem_children_of_mem_kept hd) hn⟩

theorem mem_kept : c ∈ n.kept skip ↔ c ∈ n.namedChildren ∧ c.hasKind skip = false := by
  simp [kept]

/-- A walk visits what it can come to by edges that lead to no skipped node. -/
theorem mem_preorder_iff_descends :
    n ∈ root.preorder skip ↔ ∃ edges, root.Descends edges n ∧ ∀ e ∈ edges, e.2.hasKind skip = false := by
  constructor
  · intro h
    induction root using children_induction with
    | _ root ih =>
        rw [preorder_eq, List.mem_cons, List.mem_flatMap] at h
        rcases h with rfl | ⟨d, hd, h⟩
        · exact ⟨[], .refl, List.forall_mem_nil _⟩
        · obtain ⟨edges, hdown, hedges⟩ := ih d (mem_children_of_mem_kept hd) h
          rw [mem_kept] at hd
          refine ⟨edges ++ [(root, d)], hdown.ofChild hd.1, ?_⟩
          intro e he
          rcases List.mem_append.mp he with he | he
          · exact hedges e he
          · rw [List.mem_singleton.mp he]
            exact hd.2
  · rintro ⟨edges, hdown, hedges⟩
    induction hdown with
    | refl => exact mem_preorder_self skip root
    | child _ hc ih =>
        rw [List.forall_mem_cons] at hedges
        exact mem_preorder_of_mem_kept (ih hedges.2) (mem_kept.mpr ⟨hc, hedges.1⟩)

/-- Below a node that is no function, the ends of a way are no functions exactly if its last end and
all its starts are none. -/
theorem Descends.forall_ends_iff (h : root.Descends edges w) (hroot : root.isFunction = false) :
    (∀ e ∈ edges, e.2.isFunction = false) ↔
      w.isFunction = false ∧ ∀ e ∈ edges, e.1.isFunction = false := by
  induction h with
  | refl => simp [hroot]
  | child _ _ ih => rw [List.forall_mem_cons, List.forall_mem_cons, ih]

theorem Descends.start_mem (h : root.Descends edges w) (hne : edges ≠ []) :
    ∃ c, (root, c) ∈ edges := by
  induction h with
  | refl => exact absurd rfl hne
  | @child edges n c hdown hc ih =>
      by_cases hedges : edges = []
      · subst hedges
        cases hdown
        exact ⟨c, List.mem_cons_self⟩
      · obtain ⟨d, hd⟩ := ih hedges
        exact ⟨d, List.mem_cons_of_mem _ hd⟩

end Node

namespace AsyncGuard

variable {root n f g w body : Node}

def Awaits (n : Node) : Prop :=
  n.kind = "await_expression" ∨ n.kind = "for_in_statement" ∧ ∃ c ∈ n.children, c.kind = "await"

structure IsUnguarded (f : Node) : Prop where
  isFunction : f.kind ∈ Kind.functions
  isAsync : ∃ c ∈ f.children, c.kind = "async"
  awaits : ∃ w, f.Owns w ∧ Awaits w
  catches_not : ¬ ∃ w, f.Owns w ∧ w.kind = "try_statement"

theorem isAwait_iff : isAwait n = true ↔ Awaits n := by
  simp [isAwait, Awaits, Node.hasChildOfKind, Node.hasKind]

theorem isFunction_of_kind {k : String} (h : w.kind = k) (hk : k ∉ Kind.functions) :
    w.isFunction = false := by
  rw [Node.isFunction, Node.hasKind, h, List.contains_eq_mem, decide_eq_false hk]

theorem isFunction_of_awaits (h : Awaits w) : w.isFunction = false := by
  rcases h with h | ⟨h, -⟩
  · exact isFunction_of_kind h (by decide)
  · exact isFunction_of_kind h (by decide)

theorem isFunction_of_try (h : w.kind = "try_statement") : w.isFunction = false :=
  isFunction_of_kind h (by decide)

theorem ownNodes_of_isFunction (h : body.isFunction = true) : ownNodes body = [body] := by
  rw [ownNodes, if_pos h]

theorem ownNodes_of_not_isFunction (h : body.isFunction = false) :
    ownNodes body = body.preorder Kind.functions := by
  rw [ownNodes, h, Node.preorder_eq, Node.descendants_eq]
  rfl

theorem mem_ownNodes_iff (hw : w.isFunction = false) :
    w ∈ ownNodes body ↔
      ∃ edges, body.Descends edges w ∧ ∀ e ∈ edges, e.1.isFunction = false := by
  by_cases hbody : body.isFunction = true
  · rw [ownNodes_of_isFunction hbody, List.mem_singleton]
    constructor
    · rintro rfl
      rw [hw] at hbody
      cases hbody
    · rintro ⟨edges, hdown, hedges⟩
      by_cases hne : edges = []
      · subst hne
        cases hdown
        rfl
      · obtain ⟨c, hc⟩ := hdown.start_mem hne
        rw [hedges _ hc] at hbody
        cases hbody
  · rw [Bool.not_eq_true] at hbody
    rw [ownNodes_of_not_isFunction hbody, Node.mem_preorder_iff_descends]
    apply exists_congr
    intro edges
    apply and_congr_right
    intro hdown
    exact (hdown.forall_ends_iff hbody).trans (and_iff_right hw)

def owned (f : Node) : List Node :=
  (f.child? "body").toList.flatMap ownNodes

theorem mem_owned_iff (hw : w.isFunction = false) : w ∈ owned f ↔ f.Owns w := by
  rw [owned, List.mem_flatMap, Node.Owns]
  simp only [Option.mem_toList, mem_ownNodes_iff hw]
  constructor
  · rintro ⟨body, hbody, edges, hdown, hedges⟩
    exact ⟨body, edges, hbody, hdown, hedges⟩
  · rintro ⟨body, edges, hbody, hdown, hedges⟩
    exact ⟨body, hbody, edges, hdown, hedges⟩

def counted (f : Node) : List Node :=
  (owned f).filter fun w => isAwait w || w.kind == "try_statement"

theorem mem_counted_iff : w ∈ counted f ↔ f.Owns w ∧ (Awaits w ∨ w.kind = "try_statement") := by
  rw [counted, List.mem_filter, Bool.or_eq_true, isAwait_iff, beq_iff_eq]
  apply and_congr_left
  rintro (hw | hw)
  · exact mem_owned_iff (isFunction_of_awaits hw)
  · exact mem_owned_iff (isFunction_of_try hw)

theorem isOffending_iff : isOffending f = true ↔ IsUnguarded f := by
  have hany {p : Node → Bool} {P : Node → Prop} (hp : ∀ w, p w = true ↔ P w)
      (hfun : ∀ w, P w → w.isFunction = false) :
      (owned f).any p = true ↔ ∃ w, f.Owns w ∧ P w := by
    rw [List.any_eq_true]
    apply exists_congr
    intro w
    rw [hp]
    exact and_congr_left fun hw => mem_owned_iff (hfun w hw)
  have hawait := hany (fun w => isAwait_iff) fun w => isFunction_of_awaits
  have htry := hany (p := (·.kind == "try_statement")) (fun w => beq_iff_eq)
    fun w => isFunction_of_try
  have hunguarded : (f.child? "body").any isUnguarded = true ↔
      (∃ w, f.Owns w ∧ Awaits w) ∧ ¬ ∃ w, f.Owns w ∧ w.kind = "try_statement" := by
    rw [← hawait, ← htry, owned]
    cases f.child? "body" <;> simp [isUnguarded]
  rw [isOffending, Bool.and_eq_true, Bool.and_eq_true, hunguarded]
  simp only [Node.isFunction, Node.isAsync, Node.hasChildOfKind, Node.hasKind, List.any_eq_true,
    List.contains_iff_mem, List.mem_singleton]
  constructor
  · rintro ⟨⟨hfun, hasync⟩, hawaits, hcatches⟩
    exact ⟨hfun, hasync, hawaits, hcatches⟩
  · rintro ⟨hfun, hasync, hawaits, hcatches⟩
    exact ⟨⟨hfun, hasync⟩, hawaits, hcatches⟩

instance (f : Node) : Decidable (IsUnguarded f) :=
  decidable_of_iff _ isOffending_iff

theorem check_eq (tree : SourceTree) :
    check tree = (tree.walk.filter fun v => IsUnguarded v.1).map (issue tree) := by
  rw [check]
  congr 1
  apply List.filter_congr
  intro v _
  rw [Bool.eq_iff_iff, isOffending_iff, decide_eq_true_iff]

section Subperm

variable {α β : Type} {cs : List α} {p q : α → List β}

theorem flatMap_subperm (h : ∀ c ∈ cs, (p c).Subperm (q c)) :
    (cs.flatMap p).Subperm (cs.flatMap q) := by
  induction cs with
  | nil => exact .refl _
  | cons c cs ih =>
      rw [List.forall_mem_cons] at h
      exact h.1.append (ih h.2)

theorem append_flatMap_subperm {xs : List β} {b : α} (hb : b ∈ cs)
    (hxs : (xs ++ p b).Subperm (q b)) (h : ∀ c ∈ cs, (p c).Subperm (q c)) :
    (xs ++ cs.flatMap p).Subperm (cs.flatMap q) := by
  induction cs with
  | nil => cases hb
  | cons c cs ih =>
      rw [List.forall_mem_cons] at h
      rw [List.flatMap_cons, List.flatMap_cons]
      rcases List.mem_cons.mp hb with rfl | hb
      · rw [← List.append_assoc]
        exact hxs.append (flatMap_subperm h.2)
      · apply (List.perm_append_comm_assoc xs (p c) _).subperm.trans
        exact h.1.append (ih hb h.2)

end Subperm

def ownedIn (root : Node) : List Node :=
  ((root.preorder []).filter Node.isFunction).flatMap owned

theorem ownedIn_eq (n : Node) :
    ownedIn n = (if n.isFunction then owned n else []) ++ n.namedChildren.flatMap ownedIn := by
  have hbelow : ((n.namedChildren.flatMap (Node.preorder [])).filter Node.isFunction).flatMap owned =
      n.namedChildren.flatMap ownedIn := by
    rw [List.filter_flatMap, List.flatMap_assoc]
    rfl
  rw [ownedIn, Node.preorder_eq, Node.kept_nil, List.filter_cons]
  split
  · rw [List.flatMap_cons, hbelow]
  · rw [hbelow, List.nil_append]

/-- A node is in no two of these places: of a function it is the function itself, and of any other
node what a function around it would own. -/
theorem ownNodes_append_ownedIn_subperm (n : Node) : (ownNodes n ++ ownedIn n).Subperm n.nodes := by
  induction n using Node.children_induction with
  | _ n ih =>
      have hown : ∀ c ∈ n.children, (ownedIn c).Subperm c.nodes := by
        intro c hc
        exact (List.sublist_append_right _ _).subperm.trans (ih c hc)
      have hbelow : (n.namedChildren.flatMap ownedIn).Sublist (n.children.flatMap ownedIn) :=
        List.filter_sublist.flatMap ownedIn
      rw [Node.nodes_eq, ownedIn_eq]
      by_cases hn : n.isFunction = true
      · rw [ownNodes_of_isFunction hn, if_pos hn, List.singleton_append, List.subperm_cons]
        apply ((List.Sublist.refl (owned n)).append hbelow).subperm.trans
        cases hbody : n.child? "body" with
        | none =>
            rw [owned, hbody]
            exact flatMap_subperm hown
        | some body =>
            have hmem : body ∈ n.children := List.mem_of_find?_eq_some hbody
            have hnodes : owned n = ownNodes body := by simp [owned, hbody]
            rw [hnodes]
            exact append_flatMap_subperm hmem (ih body hmem) hown
      · rw [if_neg hn, List.nil_append]
        rw [Bool.not_eq_true] at hn
        have hkept : (n.kept Kind.functions).flatMap (Node.preorder Kind.functions) =
            (n.kept Kind.functions).flatMap ownNodes := by
          apply List.flatMap_congr
          intro c hc
          exact (ownNodes_of_not_isFunction (Node.mem_kept.mp hc).2).symm
        have hsub : ((n.kept Kind.functions).flatMap ownNodes).Sublist
            (n.children.flatMap ownNodes) :=
          (List.filter_sublist.trans List.filter_sublist).flatMap ownNodes
        rw [ownNodes_of_not_isFunction hn, Node.preorder_eq, hkept, List.cons_append,
          List.subperm_cons]
        apply (hsub.append hbelow).subperm.trans
        apply (List.flatMap_append_perm _ _ _).subperm.trans
        exact flatMap_subperm ih

/-- What counts for functions counts for one each. The counts of all functions together take each
node of the tree at most once, so that nodes which ids tell apart count for one function at most; and
a function whose body is a function takes nothing over from it. -/
structure CountsOnce (root : Node) (counted : Node → List Node) : Prop where
  mem_iff : ∀ f w, w ∈ counted f ↔ f.Owns w ∧ (Awaits w ∨ w.kind = "try_statement")
  subperm : (((root.preorder []).filter Node.isFunction).flatMap counted).Subperm root.nodes
  unique : root.AllDistinctIds → ∀ f g w, root.Reaches f → root.Reaches g →
    f.isFunction = true → g.isFunction = true → w ∈ counted f → w ∈ counted g → f = g
  of_function : ∀ f body, f.child? "body" = some body → body.isFunction = true → counted f = []

theorem flatMap_counted_subperm (root : Node) :
    (((root.preorder []).filter Node.isFunction).flatMap counted).Subperm root.nodes := by
  have hcounted : (((root.preorder []).filter Node.isFunction).flatMap counted).Sublist
      (ownedIn root) :=
    List.Sublist.flatMap_right _ fun f _ => List.filter_sublist
  apply hcounted.subperm.trans
  exact (List.sublist_append_right _ _).subperm.trans (ownNodes_append_ownedIn_subperm root)

theorem eq_of_mem_counted (hids : root.AllDistinctIds) (hf : root.Reaches f) (hg : root.Reaches g)
    (hffun : f.isFunction = true) (hgfun : g.isFunction = true) (hwf : w ∈ counted f)
    (hwg : w ∈ counted g) : f = g := by
  obtain ⟨l, hperm, hsub⟩ := flatMap_counted_subperm root
  have hnodup : (((root.preorder []).filter Node.isFunction).flatMap counted).Nodup :=
    hperm.nodup_iff.mp ((hids.of_map Node.id).sublist hsub)
  have hmem {k : Node} (hk : root.Reaches k) (hkfun : k.isFunction = true) :
      k ∈ (root.preorder []).filter Node.isFunction :=
    List.mem_filter.mpr ⟨Node.mem_preorder_iff_reaches.mpr hk, hkfun⟩
  exact eq_of_mem_of_nodup_flatMap hnodup (hmem hf hffun) (hmem hg hgfun) hwf hwg

theorem counted_of_function (hbody : f.child? "body" = some body)
    (hfun : body.isFunction = true) : counted f = [] := by
  rw [List.eq_nil_iff_forall_not_mem]
  intro w hw
  have hown : w ∈ owned f := (List.mem_filter.mp hw).1
  have heq : w = body := by simpa [owned, hbody, ownNodes_of_isFunction hfun] using hown
  have hnot : w.isFunction = false := by
    rcases (mem_counted_iff.mp hw).2 with h | h
    · exact isFunction_of_awaits h
    · exact isFunction_of_try h
  rw [heq, hfun] at hnot
  cases hnot

theorem countsOnce_counted (root : Node) : CountsOnce root counted where
  mem_iff _ _ := mem_counted_iff
  subperm := flatMap_counted_subperm root
  unique hids _ _ _ hf hg hffun hgfun := eq_of_mem_counted hids hf hg hffun hgfun
  of_function _ _ := counted_of_function

/-- The check for async functions lists exactly those that await without a try statement of their
own, each once and in pre-order, and no await or try statement counts for two of them. -/
theorem unguarded_in_preorder (tree : SourceTree) :
    (∃ issues, Engine.standard .edgeCases tree = .ok issues ∧
      Issue.ofRule "async_without_try" issues =
        (tree.walk.filter fun v => IsUnguarded v.1).map (issue tree)) ∧
    CountsOnce tree.root counted := by
  refine ⟨⟨Engine.edgeCases tree, rfl, ?_⟩, countsOnce_counted tree.root⟩
  rw [Engine.ofRule_asyncGuard, check_eq]

end AsyncGuard

end ScriptReview
