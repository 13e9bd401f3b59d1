import ScriptReview.Proofs.Findings.UserInput
import ScriptReview.Proofs.Reports
import ScriptReview.Proofs.Trivia.Injection

namespace ScriptReview

namespace Node

variable {root m n c : Node}

theorem kind_of_isSum (h : n.isSum = true) : n.kind = "binary_expression" := by
  rw [isSum, Bool.and_eq_true, beq_iff_eq] at h
  exact h.1

theorem mem_sides : c ∈ n.sides ↔ n.child? "left" = some c ∨ n.child? "right" = some c := by
  simp [sides]

def flattened (n : Node) : List Node :=
  if n.isSum then n.sides.attach.flatMap fun c => c.1.flattened
  else
    match _h : n.enclosed? with
    | some inner => inner.flattened
    | none => [n]
termination_by n.size
decreasing_by
  · exact Nat.lt_of_le_of_lt (size_le_sizes c.2) (sizes_sides_lt n)
  · exact size_enclosed_lt ‹_›

theorem flattened_of_isSum (h : n.isSum = true) : n.flattened = n.sides.flatMap flattened := by
  rw [flattened, if_pos h, List.flatMap_subtype (g := flattened) fun _ _ => rfl,
    List.unattach_attach]

theorem flattened_of_enclosed (h : n.isSum = false) (hc : n.enclosed? = some c) :
    n.flattened = c.flattened := by
  rw [flattened, h]
  simp only [Bool.false_eq_true, if_false]
  split
  · rename_i inner hinner
    rw [hc] at hinner
    rw [Option.some.inj hinner]
  · rename_i hnone
    rw [hc] at hnone
    cases hnone

theorem flattened_of_operand (h : n.isSum = false) (hnone : n.enclosed? = none) :
    n.flattened = [n] := by
  rw [flattened, h]
  simp only [Bool.false_eq_true, if_false]
  split
  · rename_i inner hinner
    rw [hnone] at hinner
    cases hinner
  · rfl

/-- The pending nodes stand for their operands, one after the other. -/
theorem operandsOf_eq_flatMap (pending : List Node) :
    operandsOf pending = pending.flatMap flattened := by
  fun_induction operandsOf pending with
  | case1 => rfl
  | case2 n rest hsum ih =>
      rw [ih, List.flatMap_append, List.flatMap_cons, flattened_of_isSum hsum]
  | case3 n rest hsum inner hinner ih =>
      rw [ih, List.flatMap_cons, List.flatMap_cons,
        flattened_of_enclosed (Bool.not_eq_true _ ▸ hsum) hinner]
  | case4 n rest hsum hnone ih =>
      rw [ih, List.flatMap_cons, flattened_of_operand (Bool.not_eq_true _ ▸ hsum) hnone]
      rfl

theorem operands_eq_flattened (n : Node) : n.operands = n.flattened := by
  rw [operands, operandsOf_eq_flatMap, List.flatMap_singleton]

/-- In a tree without repeats a node has one parent. -/
theorem eq_of_mem_children (h : root.nodes.Nodup) (hm : root.Contains m) (hn : root.Contains n)
    (hcm : c ∈ m.children) (hcn : c ∈ n.children) : m = n := by
  induction root using children_induction with
  | _ root ih =>
      have hcontains {d k : Node} (hk : d.Contains k) (hck : c ∈ k.children) : c ∈ d.nodes :=
        hk.child hck
      rw [nodes_eq, List.nodup_cons] at h
      -- A child of the root stands in no other child, nor further down in its own tree.
      have htop {d k : Node} (hd : d ∈ root.children) (hk : d.Contains k) (hck : c ∈ k.children) :
          c ∉ root.children := by
        intro hc
        have heq := eq_of_mem_of_nodup_flatMap h.2 hc hd (Contains.refl c) (hcontains hk hck)
        have hle := hk.size_le
        have hlt := size_lt_of_mem_children hck
        rw [heq] at hlt
        omega
      rw [Contains, nodes_eq, List.mem_cons, List.mem_flatMap] at hm hn
      rcases hm with rfl | ⟨d, hd, hm⟩
      · rcases hn with rfl | ⟨e, he, hn⟩
        · rfl
        · exact absurd hcm (htop he hn hcn)
      · rcases hn with rfl | ⟨e, he, hn⟩
        · exact absurd hcn (htop hd hm hcm)
        · have heq := eq_of_mem_of_nodup_flatMap h.2 hd he (hcontains hm hcm) (hcontains hn hcn)
          subst heq
          exact ih d hd ((List.nodup_flatMap.mp h.2).1 d hd) hm hn

theorem Reaches.parent (hids : root.AllDistinctIds) (h : root.Reaches c) (hn : root.Contains n)
    (hc : c ∈ n.children) : root.Reaches n := by
  cases h with
  | refl =>
      have hle := hn.size_le
      have hlt := size_lt_of_mem_children hc
      omega
  | child hm hcm =>
      have heq := eq_of_mem_children (hids.of_map id) hm.contains hn (mem_namedChildren.mp hcm).1 hc
      exact heq ▸ hm

end Node

namespace UserInput

variable {tree : SourceTree} {n c : Node}

theorem reads_of_reaches {m : Node} (h : n.Reaches m) (hm : Reads tree m) : Reads tree n := by
  induction h with
  | refl => exact hm
  | child _ hc ih => exact ih (.child hc hm)

theorem reads_iff_reaches : Reads tree n ↔ ∃ m, n.Reaches m ∧ Rooted tree m := by
  constructor
  · intro h
    induction h with
    | @rooted n hr => exact ⟨n, .refl, hr⟩
    | child hc _ ih =>
        obtain ⟨m, hm, hr⟩ := ih
        exact ⟨m, (Node.Reaches.refl.child hc).trans hm, hr⟩
  · rintro ⟨m, hm, hr⟩
    exact reads_of_reaches hm (.rooted hr)

theorem id_mem_nodes_iff (hids : tree.root.AllDistinctIds) (hn : tree.root.Contains n) :
    n.id ∈ nodes tree ↔ tree.root.Reaches n ∧ Reads tree n := by
  rw [mem_nodes_iff hids]
  constructor
  · rintro ⟨m, hm, hr, hid⟩
    obtain rfl := hids.eq_of_id_eq hm.contains hn hid
    exact ⟨hm, hr⟩
  · rintro ⟨hreach, hr⟩
    exact ⟨n, hreach, hr, rfl⟩

/-- A node that is no access reads user input exactly through one of its named children. -/
theorem id_mem_nodes_iff_exists_child (hids : tree.root.AllDistinctIds)
    (hn : tree.root.Contains n) {k : String} (hkind : n.kind = k) (hk : k ∉ accessKinds) :
    n.id ∈ nodes tree ↔ ∃ c ∈ n.namedChildren, c.id ∈ nodes tree := by
  have hchild {c : Node} (hc : c ∈ n.namedChildren) : tree.root.Contains c :=
    hn.child (Node.mem_namedChildren.mp hc).1
  rw [id_mem_nodes_iff hids hn, reads_iff]
  constructor
  · rintro ⟨hreach, hr | ⟨c, hc, hr⟩⟩
    · rw [rooted_iff, Node.hasKind, List.contains_iff_mem, hkind] at hr
      exact absurd hr.1 hk
    · exact ⟨c, hc, (id_mem_nodes_iff hids (hchild hc)).mpr ⟨hreach.child hc, hr⟩⟩
  · rintro ⟨c, hc, hmem⟩
    obtain ⟨hreach, hr⟩ := (id_mem_nodes_iff hids (hchild hc)).mp hmem
    exact ⟨hreach.parent hids hn (Node.mem_namedChildren.mp hc).1, .inr ⟨c, hc, hr⟩⟩

/-- What a grammar makes of sums: comments are leaves, the other named children of a sum are its two
sides, and a parenthesis holds one named child. -/
structure HasPlainSums (root : Node) : Prop where
  comment : ∀ n, root.Contains n → n.kind = "comment" → n.children = []
  sum : ∀ n, root.Contains n → n.isSum = true → ∀ c, c ∈ n.namedChildren ∧ c.kind ≠ "comment" ↔
    n.child? "left" = some c ∨ n.child? "right" = some c
  parenthesis : ∀ n, root.Contains n → n.kind = "parenthesized_expression" →
    ∃ c, n.namedChildren = [c]

theorem HasPlainSums.comment_not_mem (h : HasPlainSums tree.root) (hids : tree.root.AllDistinctIds)
    (hc : tree.root.Contains c) (hk : c.kind = "comment") : c.id ∉ nodes tree := by
  rw [id_mem_nodes_iff_exists_child hids hc hk (by decide), Node.namedChildren, h.comment c hc hk]
  simp

theorem HasPlainSums.flattened_reads (h : HasPlainSums tree.root)
    (hids : tree.root.AllDistinctIds) (hn : tree.root.Contains n) :
    (∃ op ∈ n.flattened, op.id ∈ nodes tree) ↔ n.id ∈ nodes tree := by
  induction n using Node.children_induction with
  | _ n ih =>
      by_cases hsum : n.isSum = true
      · have hkind := Node.kind_of_isSum hsum
        rw [Node.flattened_of_isSum hsum, id_mem_nodes_iff_exists_child hids hn hkind (by decide)]
        simp only [List.mem_flatMap, Node.mem_sides]
        constructor
        · rintro ⟨op, ⟨c, hc, hop⟩, hmem⟩
          have hside := (h.sum n hn hsum c).mpr hc
          have hchild := (Node.mem_namedChildren.mp hside.1).1
          exact ⟨c, hside.1, (ih c hchild (hn.child hchild)).mp ⟨op, hop, hmem⟩⟩
        · rintro ⟨c, hc, hmem⟩
          have hchild := (Node.mem_namedChildren.mp hc).1
          have hcontains := hn.child hchild
          have hkind : c.kind ≠ "comment" := fun hk => h.comment_not_mem hids hcontains hk hmem
          obtain ⟨op, hop, hmem⟩ := (ih c hchild hcontains).mpr hmem
          exact ⟨op, ⟨c, (h.sum n hn hsum c).mp ⟨hc, hkind⟩, hop⟩, hmem⟩
      · rw [Bool.not_eq_true] at hsum
        by_cases hk : n.kind = "parenthesized_expression"
        · obtain ⟨c, hc⟩ := h.parenthesis n hn hk
          have henclosed : n.enclosed? = some c := by simp [Node.enclosed?, hk, hc]
          have hchild := Node.mem_children_of_enclosed? henclosed
          rw [Node.flattened_of_enclosed hsum henclosed, ih c hchild (hn.child hchild),
            id_mem_nodes_iff_exists_child hids hn hk (by decide), hc]
          simp
        · have hnone : n.enclosed? = none := by simp [Node.enclosed?, hk]
          rw [Node.flattened_of_operand hsum hnone]
          simp

/-- The pass collects the ids of the nodes from which named children lead to an access that starts
from a request, and of no others. A sum is among them exactly if one of its operands is. -/
theorem nodes_eq_reading (hids : tree.root.AllDistinctIds) :
    (∀ i, i ∈ nodes tree ↔
      ∃ n, tree.root.Reaches n ∧ (∃ m, n.Reaches m ∧ Rooted tree m) ∧ n.id = i) ∧
    (HasPlainSums tree.root → ∀ n, tree.root.Contains n → n.isSum = true →
      ((∃ op ∈ n.operands, op.id ∈ nodes tree) ↔ n.id ∈ nodes tree)) := by
  constructor
  · intro i
    rw [mem_nodes_iff hids]
    simp only [reads_iff_reaches]
  · intro hplain n hn _
    rw [Node.operands_eq_flattened]
    exact hplain.flattened_reads hids hn

end UserInput

def Node.plusSign (id start : Nat) : Node :=
  .mk ⟨id, "+", some "operator", false, false, false, false, start, start + 1, 0, start, 0⟩ []

def Node.requestAccess : Node :=
  .inline 8 "member_expression" none 16 21
    [.inline 9 "identifier" (some "object") 16 19 [],
      .inline 10 "property_identifier" (some "property") 20 21 []]

def Node.innerSum : Node :=
  .inline 3 "binary_expression" (some "left") 0 22
    [.inline 4 "string" (some "left") 0 9 [], .plusSign 5 9, .inline 6 "comment" none 10 15 [],
      .inline 7 "parenthesized_expression" (some "right") 15 22 [.requestAccess]]

def Node.outerSum : Node :=
  .inline 2 "binary_expression" none 0 24
    [.innerSum, .plusSign 11 22, .inline 12 "identifier" (some "right") 23 24 []]

def SourceTree.requestSum : SourceTree :=
  .ofFile
    (fun _ _ => .inline 0 "program" none 0 24
      [.inline 1 "expression_statement" none 0 24 [.outerSum]])
    "a.js" "'select '+/*c*/(req.x)+y"

namespace UserInput

theorem allDistinctIds_requestSum : SourceTree.requestSum.root.AllDistinctIds := by decide +kernel

theorem reaches_outerSum : SourceTree.requestSum.root.Reaches .outerSum :=
  (Node.Reaches.refl.child List.mem_cons_self).child List.mem_cons_self

theorem reaches_innerSum : SourceTree.requestSum.root.Reaches .innerSum :=
  reaches_outerSum.child List.mem_cons_self

theorem hasPlainSums_requestSum : HasPlainSums SourceTree.requestSum.root := by
  have hsides {n : Node} (h : (n.namedChildren.filter fun c => c.kind ≠ "comment") = n.sides)
      (c : Node) : c ∈ n.namedChildren ∧ c.kind ≠ "comment" ↔
        n.child? "left" = some c ∨ n.child? "right" = some c := by
    rw [← Node.mem_sides, ← h, List.mem_filter, decide_eq_true_iff]
  constructor
  case comment =>
    have hleaf : ∀ n ∈ SourceTree.requestSum.root.nodes,
        n.kind = "comment" → n.children.length = 0 := by decide +kernel
    intro n hn hk
    exact List.eq_nil_of_length_eq_zero (hleaf n hn hk)
  case parenthesis =>
    have hone : ∀ n ∈ SourceTree.requestSum.root.nodes,
        n.kind = "parenthesized_expression" → n.namedChildren.length = 1 := by decide +kernel
    intro n hn hk
    exact List.length_eq_one_iff.mp (hone n hn hk)
  case sum =>
    have htwo : ∀ n ∈ SourceTree.requestSum.root.nodes, n.isSum = true → n.id = 2 ∨ n.id = 3 := by
      decide +kernel
    intro n hn hsum
    rcases htwo n hn hsum with hid | hid
    · obtain rfl := allDistinctIds_requestSum.eq_of_id_eq hn reaches_outerSum.contains hid
      exact hsides rfl
    · obtain rfl := allDistinctIds_requestSum.eq_of_id_eq hn reaches_innerSum.contains hid
      exact hsides rfl

theorem nodes_requestSum :
    SourceTree.requestSum.root.AllDistinctIds ∧ HasPlainSums SourceTree.requestSum.root ∧
      Node.innerSum.id ∈ nodes .requestSum ∧
      ∃ op ∈ Node.innerSum.operands, op.id ∈ nodes .requestSum := by
  obtain ⟨hset, hsums⟩ := nodes_eq_reading allDistinctIds_requestSum
  have hrooted : Rooted .requestSum .requestAccess := by
    refine .request rfl rfl rfl ?_
    decide +kernel
  have hreaches : Node.innerSum.Reaches .requestAccess :=
    (Node.Reaches.refl.child (List.mem_cons_of_mem _
      (List.mem_cons_of_mem _ List.mem_cons_self))).child List.mem_cons_self
  have hmem : Node.innerSum.id ∈ nodes .requestSum :=
    (hset _).mpr ⟨.innerSum, reaches_innerSum, ⟨.requestAccess, hreaches, hrooted⟩, rfl⟩
  have hplain := hasPlainSums_requestSum
  exact ⟨allDistinctIds_requestSum, hplain, hmem,
    (hsums hplain .innerSum reaches_innerSum.contains rfl).mpr hmem⟩

end UserInput

end ScriptReview
