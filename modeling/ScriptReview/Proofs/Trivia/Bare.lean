import ScriptReview.Proofs.Tree.Walk
import ScriptReview.Tree.Source

namespace ScriptReview

namespace Node

mutual

def withoutComments : Node → Node
  | mk i cs => mk i (dropComments cs)

def dropComments : List Node → List Node
  | [] => []
  | c :: cs =>
    if c.kind = Kind.comment then dropComments cs else c.withoutComments :: dropComments cs

end

/-- A comment that is a leaf and has no role. -/
def isTrivia (n : Node) : Bool :=
  n.kind == Kind.comment && n.info.field.isNone && n.children.isEmpty

mutual

def bare : Node → Node
  | mk i cs => mk i (dropTrivia cs)

def dropTrivia : List Node → List Node
  | [] => []
  | c :: cs => if c.isTrivia then dropTrivia cs else c.bare :: dropTrivia cs

end

theorem dropTrivia_eq (cs : List Node) : dropTrivia cs = (cs.filter (!·.isTrivia)).map bare := by
  induction cs with
  | nil => rfl
  | cons c cs ih =>
      rw [dropTrivia, List.filter_cons]
      cases h : c.isTrivia <;> simp [ih]

theorem kind_of_isTrivia {n : Node} (h : n.isTrivia = true) : n.kind = "comment" := by
  simp only [isTrivia, Bool.and_eq_true, beq_iff_eq] at h
  exact h.1.1

theorem field_of_isTrivia {n : Node} (h : n.isTrivia = true) : n.info.field = none := by
  simp only [isTrivia, Bool.and_eq_true, Option.isNone_iff_eq_none] at h
  exact h.1.2

theorem children_of_isTrivia {n : Node} (h : n.isTrivia = true) : n.children = [] := by
  simp only [isTrivia, Bool.and_eq_true, List.isEmpty_iff] at h
  exact h.2

theorem namedChildren_of_isTrivia {n : Node} (h : n.isTrivia = true) : n.namedChildren = [] := by
  simp [namedChildren, children_of_isTrivia h]

theorem bare_of_isTrivia {n : Node} (h : n.isTrivia = true) : n.bare = n := by
  have hc := children_of_isTrivia h
  cases n with
  | mk i cs =>
      cases hc
      rfl

@[simp] theorem info_bare (n : Node) : n.bare.info = n.info := by
  cases n; rfl

@[simp] theorem id_bare (n : Node) : n.bare.id = n.id := by
  simp [Node.id]

@[simp] theorem kind_bare (n : Node) : n.bare.kind = n.kind := by
  simp [kind]

@[simp] theorem isNamed_bare (n : Node) : n.bare.isNamed = n.isNamed := by
  simp [isNamed]

@[simp] theorem hasKind_bare (n : Node) (kinds : List String) :
    n.bare.hasKind kinds = n.hasKind kinds := by
  simp [hasKind]

@[simp] theorem line_bare (n : Node) : n.bare.line = n.line := by
  simp [line]

@[simp] theorem lineCount_bare (n : Node) : n.bare.lineCount = n.lineCount := by
  simp [lineCount]

@[simp] theorem isFunction_bare (n : Node) : n.bare.isFunction = n.isFunction := by
  simp [isFunction]

@[simp] theorem isIdentifier_bare (n : Node) : n.bare.isIdentifier = n.isIdentifier := by
  simp [isIdentifier]

theorem children_bare (n : Node) :
    n.bare.children = (n.children.filter (!·.isTrivia)).map bare := by
  cases n with
  | mk i cs => exact dropTrivia_eq cs

theorem namedChildren_bare (n : Node) :
    n.bare.namedChildren = (n.namedChildren.filter (!·.isTrivia)).map bare := by
  rw [namedChildren, children_bare, List.filter_map, namedChildren, List.filter_filter,
    List.filter_filter]
  congr 2
  funext c
  simp [Bool.and_comm]

theorem kept_bare (skip : List String) (n : Node) :
    n.bare.kept skip = ((n.kept skip).filter (!·.isTrivia)).map bare := by
  rw [kept, namedChildren_bare, List.filter_map, kept, List.filter_filter, List.filter_filter]
  congr 2
  funext c
  simp [Bool.and_comm]

@[simp] theorem child?_bare (n : Node) (role : String) :
    n.bare.child? role = (n.child? role).map bare := by
  rw [child?, child?, children_bare]
  induction n.children with
  | nil => rfl
  | cons c cs ih =>
      cases h : c.isTrivia with
      | true => simp [h, ih, field_of_isTrivia h]
      | false =>
          simp only [List.filter_cons, h, Bool.not_false, if_true, List.map_cons, List.find?_cons,
            info_bare]
          split
          · rfl
          · exact ih

@[simp] theorem isSame_map_bare (n : Node) (o : Option Node) :
    n.bare.isSame (o.map bare) = n.isSame o := by
  cases o with
  | none => rfl
  | some m => simp [isSame]

theorem hasChildOfKind_bare (n : Node) {kinds : List String} (h : "comment" ∉ kinds) :
    n.bare.hasChildOfKind kinds = n.hasChildOfKind kinds := by
  rw [hasChildOfKind, hasChildOfKind, children_bare, List.any_map]
  induction n.children with
  | nil => rfl
  | cons c cs ih =>
      cases hc : c.isTrivia with
      | true => simp_all [hasKind, kind_of_isTrivia hc]
      | false => simp_all

@[simp] theorem isAsync_bare (n : Node) : n.bare.isAsync = n.isAsync :=
  hasChildOfKind_bare n (by decide)

@[simp] theorem hasOptionalChain_bare (n : Node) : n.bare.hasOptionalChain = n.hasOptionalChain :=
  hasChildOfKind_bare n (by decide)

@[simp] theorem operator_bare (n : Node) : n.bare.operator = n.operator := by
  rw [operator, child?_bare, operator]
  cases n.child? "operator" <;> simp

@[simp] theorem isLogical_bare (n : Node) : n.bare.isLogical = n.isLogical := by
  simp [isLogical]

@[simp] theorem isSum_bare (n : Node) : n.bare.isSum = n.isSum := by
  simp [isSum]

def opensWithComment (n : Node) : Bool :=
  n.namedChildren.head?.any (·.kind == Kind.comment)

theorem head?_namedChildren_bare {n : Node} (h : n.opensWithComment = false) :
    n.bare.namedChildren.head? = n.namedChildren.head?.map bare := by
  rw [namedChildren_bare]
  rw [opensWithComment] at h
  cases hn : n.namedChildren with
  | nil => rfl
  | cons c cs =>
      have hc : c.isTrivia = false := by simp_all [isTrivia]
      simp [hc]

section

variable {σ τ β : Type}

def bareVisits (f : σ → τ) (l : List (Node × σ)) : List (Node × τ) :=
  (l.filter (!·.1.isTrivia)).map fun v => (v.1.bare, f v.2)

theorem bareVisits_append (f : σ → τ) (l m : List (Node × σ)) :
    bareVisits f (l ++ m) = bareVisits f l ++ bareVisits f m := by
  simp [bareVisits]

theorem bareVisits_cons (f : σ → τ) {v : Node × σ} (h : v.1.isTrivia = false)
    (l : List (Node × σ)) :
    bareVisits f (v :: l) = (v.1.bare, f v.2) :: bareVisits f l := by
  simp [bareVisits, h]

theorem bareVisits_cons_trivia (f : σ → τ) {v : Node × σ} (h : v.1.isTrivia = true)
    (l : List (Node × σ)) : bareVisits f (v :: l) = bareVisits f l := by
  simp [bareVisits, h]

theorem walkWith_of_isTrivia {n : Node} (h : n.isTrivia = true) (skip : List String) (s : σ)
    (step : Node → Node → σ → σ) : walkWith skip s step n = [(n, s)] := by
  rw [walkWith_eq, kept, namedChildren_of_isTrivia h]
  rfl

/-- A walk whose states do not see trivia does not see trivia. -/
theorem walkWith_bare {f : σ → τ} {step : Node → Node → σ → σ} {step' : Node → Node → τ → τ}
    (hstep : ∀ p c s, step' p.bare c.bare (f s) = f (step p c s)) (skip : List String) (s : σ)
    {n : Node} (hn : n.isTrivia = false) :
    walkWith skip (f s) step' n.bare = bareVisits f (walkWith skip s step n) := by
  induction n using children_induction generalizing s with
  | _ n ih =>
      rw [walkWith_eq, walkWith_eq, kept_bare, bareVisits_cons f hn]
      congr 1
      have hsub : ∀ c ∈ n.kept skip, c ∈ n.children := fun c => mem_children_of_mem_kept
      generalize n.kept skip = ks at hsub ⊢
      induction ks with
      | nil => rfl
      | cons c cs ihcs =>
          have hrest := ihcs fun d hd => hsub d (List.mem_cons_of_mem c hd)
          rw [List.flatMap_cons, bareVisits_append, ← hrest]
          cases hc : c.isTrivia with
          | true => simp [walkWith_of_isTrivia hc, hc, bareVisits]
          | false =>
              rw [← ih c (hsub c List.mem_cons_self) _ hc]
              simp [hc, hstep]

theorem walkWith_bare_same {step step' : Node → Node → σ → σ}
    (hstep : ∀ p c s, step' p.bare c.bare s = step p c s) (skip : List String) (s : σ) {n : Node}
    (hn : n.isTrivia = false) :
    walkWith skip s step' n.bare = bareVisits (fun s => s) (walkWith skip s step n) :=
  walkWith_bare (f := fun s => s) hstep skip s hn

theorem flatMap_bareVisits {f : σ → τ} {g : Node × σ → List β} {g' : Node × τ → List β}
    {l : List (Node × σ)} (h : ∀ v ∈ l, v.1.isTrivia = false → g' (v.1.bare, f v.2) = g v)
    (h0 : ∀ v ∈ l, v.1.isTrivia = true → g v = []) : (bareVisits f l).flatMap g' = l.flatMap g := by
  induction l with
  | nil => rfl
  | cons v l ih =>
      have hl := ih (fun w hw => h w (List.mem_cons_of_mem v hw))
        fun w hw => h0 w (List.mem_cons_of_mem v hw)
      cases hv : v.1.isTrivia with
      | true =>
          rw [bareVisits_cons_trivia f hv, List.flatMap_cons, h0 v List.mem_cons_self hv, hl]
          rfl
      | false =>
          rw [bareVisits_cons f hv, List.flatMap_cons, List.flatMap_cons, hl,
            h v List.mem_cons_self hv]

theorem filterMap_bareVisits {f : σ → τ} {g : Node × σ → Option β} {g' : Node × τ → Option β}
    {l : List (Node × σ)} (h : ∀ v ∈ l, v.1.isTrivia = false → g' (v.1.bare, f v.2) = g v)
    (h0 : ∀ v ∈ l, v.1.isTrivia = true → g v = none) :
    (bareVisits f l).filterMap g' = l.filterMap g := by
  simp only [List.filterMap_eq_flatMap_toList]
  refine flatMap_bareVisits (fun v hv ht => ?_) fun v hv ht => ?_
  · rw [h v hv ht]
  · rw [h0 v hv ht]
    rfl

theorem filter_bareVisits {f : σ → τ} {p : Node × σ → Bool} {p' : Node × τ → Bool}
    {l : List (Node × σ)} (h : ∀ v ∈ l, p' (v.1.bare, f v.2) = p v) :
    (bareVisits f l).filter p' = bareVisits f (l.filter p) := by
  rw [bareVisits, bareVisits, List.filter_map, List.filter_filter, List.filter_filter]
  congr 1
  apply List.filter_congr
  intro v hv
  simp only [Function.comp_apply, h v hv, Bool.and_comm]

theorem map_bareVisits {f : σ → τ} {g : Node × σ → β} {g' : Node × τ → β} {l : List (Node × σ)}
    (h : ∀ v ∈ l, v.1.isTrivia = false ∧ g' (v.1.bare, f v.2) = g v) :
    (bareVisits f l).map g' = l.map g := by
  have hl : l.filter (!·.1.isTrivia) = l := List.filter_eq_self.mpr fun v hv => by simp [(h v hv).1]
  rw [bareVisits, hl, List.map_map]
  exact List.map_congr_left fun v hv => (h v hv).2

end

/-- A fold that passes trivia over. -/
theorem foldl_bare {β : Type} {g g' : β → Node → β} {ns : List Node}
    (h : ∀ b, ∀ n ∈ ns, n.isTrivia = false → g' b n.bare = g b n)
    (h0 : ∀ b, ∀ n ∈ ns, n.isTrivia = true → g b n = b) (b : β) :
    ((ns.filter (!·.isTrivia)).map bare).foldl g' b = ns.foldl g b := by
  induction ns generalizing b with
  | nil => rfl
  | cons n ns ih =>
      have hns := ih (fun b m hm => h b m (List.mem_cons_of_mem n hm))
        fun b m hm => h0 b m (List.mem_cons_of_mem n hm)
      cases hn : n.isTrivia with
      | true =>
          rw [List.filter_cons_of_neg (by simp [hn]), List.foldl_cons, hns,
            h0 b n List.mem_cons_self hn]
      | false =>
          rw [List.filter_cons_of_pos (by simp [hn]), List.map_cons, List.foldl_cons,
            List.foldl_cons, hns, h b n List.mem_cons_self hn]

theorem descendants_bare (skip : List String) (n : Node) :
    n.bare.descendants skip = ((n.descendants skip).filter (!·.isTrivia)).map bare := by
  cases hn : n.isTrivia with
  | true =>
      have hd : n.descendants skip = [] := by
        rw [descendants_eq, kept, namedChildren_of_isTrivia hn]
        rfl
      rw [bare_of_isTrivia hn, hd]
      rfl
  | false =>
      have hwalk : n.bare.walkSkipping skip = bareVisits (Option.map bare) (n.walkSkipping skip) :=
        walkWith_bare (f := Option.map bare) (fun _ _ _ => rfl) skip none hn
      have hcons : ∃ l, n.walkSkipping skip = (n, none) :: l := ⟨_, walkWith_eq _ _ _ _⟩
      obtain ⟨l, hl⟩ := hcons
      rw [descendants, hwalk, descendants, hl, bareVisits_cons _ hn, List.tail_cons, List.tail_cons,
        bareVisits, List.filter_map, List.map_map, List.map_map]
      rfl

end Node

namespace SourceTree

def bare (tree : SourceTree) : SourceTree :=
  { tree with root := tree.root.bare }

@[simp] theorem text_bare (tree : SourceTree) (n : Node) : tree.bare.text n.bare = tree.text n := by
  simp [text, bare]

@[simp] theorem textOf_map_bare (tree : SourceTree) (o : Option Node) :
    tree.bare.textOf (o.map Node.bare) = tree.textOf o := by
  cases o <;> simp [textOf]

@[simp] theorem stringValue_bare (tree : SourceTree) (n : Node) :
    tree.bare.stringValue n.bare = tree.stringValue n := by
  simp [stringValue]

theorem walk_bare {tree : SourceTree} (h : tree.root.isTrivia = false) :
    tree.bare.walk = Node.bareVisits (Option.map Node.bare) tree.walk :=
  Node.walkWith_bare (f := Option.map Node.bare) (fun _ _ _ => rfl) [] none h

theorem map_fst_walk_bare {tree : SourceTree} (h : tree.root.isTrivia = false) :
    tree.bare.walk.map Prod.fst =
      ((tree.walk.map Prod.fst).filter (!·.isTrivia)).map Node.bare := by
  rw [walk_bare h, Node.bareVisits, List.map_map, List.filter_map, List.map_map]
  rfl

end SourceTree

end ScriptReview
