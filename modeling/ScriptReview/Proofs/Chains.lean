import Mathlib.Data.List.Infix
import ScriptReview.Proofs.Findings.Operands
import ScriptReview.Proofs.Offences
import ScriptReview.Proofs.Tree.Descent

namespace ScriptReview

namespace Text

variable {separator : Text} {xs ys : List Text}

theorem joinWith_cons {item : Text} (h : xs ≠ []) :
    joinWith separator (item :: xs) = item ++ separator ++ joinWith separator xs := by
  cases xs with
  | nil => exact absurd rfl h
  | cons x xs => rfl

theorem joinWith_append (hx : xs ≠ []) (hy : ys ≠ []) :
    joinWith separator (xs ++ ys) =
      joinWith separator xs ++ separator ++ joinWith separator ys := by
  induction xs with
  | nil => exact absurd rfl hx
  | cons x xs ih =>
      by_cases hxs : xs = []
      · subst hxs
        exact joinWith_cons hy
      · rw [List.cons_append, joinWith_cons (List.append_ne_nil_of_left_ne_nil hxs ys),
          joinWith_cons hxs, ih hxs]
        simp only [List.append_assoc]

/-- What a separator with more text keeps, on either side, passes on to longer lists of items. -/
theorem joinWith_extend {P : Text → Prop} (hnil : ¬ P [])
    (hafter : ∀ t u, P t → P (t ++ separator ++ u)) (hbefore : ∀ t u, P t → P (u ++ separator ++ t))
    (h : xs <:+: ys) (hP : P (joinWith separator xs)) : P (joinWith separator ys) := by
  obtain ⟨before, after, rfl⟩ := h
  have hx : xs ≠ [] := by
    rintro rfl
    exact hnil hP
  have hfront : P (joinWith separator (before ++ xs)) := by
    by_cases hb : before = []
    · rwa [hb, List.nil_append]
    · rw [joinWith_append hb hx]
      exact hbefore _ _ hP
  by_cases ha : after = []
  · rwa [ha, List.append_nil]
  · rw [joinWith_append (List.append_ne_nil_of_right_ne_nil before hx) ha]
    exact hafter _ _ hfront

theorem afterFolded?_append {word : List Char} {t u rest : Text}
    (h : afterFolded? word t = some rest) : afterFolded? word (t ++ u) = some (rest ++ u) := by
  fun_induction afterFolded? word t with
  | case1 t =>
      cases h
      rfl
  | case2 => cases h
  | case3 c word s t hs ih =>
      rw [List.cons_append, afterFolded?, if_pos hs]
      exact ih h
  | case4 => cases h

theorem anyEnd_append {p : Text → Bool} (hp : ∀ t u, p t = true → p (t ++ u) = true) {t : Text}
    (u : Text) (h : t.anyEnd p = true) : (t ++ u).anyEnd p = true := by
  induction t with
  | nil =>
      have hu := hp [] u h
      cases u with
      | nil => exact hu
      | cons s u =>
          rw [List.nil_append] at hu ⊢
          rw [anyEnd, hu, Bool.true_or]
  | cons s t ih =>
      rw [anyEnd, Bool.or_eq_true] at h
      rw [List.cons_append, anyEnd, Bool.or_eq_true]
      rcases h with h | h
      · exact .inl (hp _ u h)
      · exact .inr (ih h)

theorem anyEnd_of_append {p : Text → Bool} (u : Text) {t : Text} (h : t.anyEnd p = true) :
    (u ++ t).anyEnd p = true := by
  induction u with
  | nil => exact h
  | cons s u ih => rw [List.cons_append, anyEnd, ih, Bool.or_true]

end Text

namespace Injection

variable {t u : Text} {s : Symbol}

theorem startsWithQueryWord_append (hs : s.isWord = false) (h : startsWithQueryWord t = true) :
    startsWithQueryWord (t ++ s :: u) = true := by
  rw [startsWithQueryWord, List.any_eq_true] at h ⊢
  obtain ⟨w, hw, hstart⟩ := h
  refine ⟨w, hw, ?_⟩
  cases hrest : Text.afterFolded? w.toList t with
  | none =>
      rw [hrest] at hstart
      cases hstart
  | some rest =>
      rw [hrest] at hstart
      rw [Text.afterFolded?_append hrest]
      -- Either the word ends the text, and then no word goes on after it, or nothing changes there.
      cases rest with
      | nil => simp [hs]
      | cons r rest => exact hstart

theorem hasQueryWord_append {inWord : Bool} (hs : s.isWord = false)
    (h : hasQueryWord inWord t = true) : hasQueryWord inWord (t ++ s :: u) = true := by
  induction t generalizing inWord with
  | nil => cases h
  | cons r t ih =>
      rw [hasQueryWord, Bool.or_eq_true, Bool.and_eq_true] at h
      rw [List.cons_append, hasQueryWord, Bool.or_eq_true, Bool.and_eq_true]
      rcases h with ⟨hedge, hstart⟩ | h
      · exact .inl ⟨hedge, startsWithQueryWord_append hs hstart⟩
      · exact .inr (ih h)

theorem hasQueryWord_of_append {inWord : Bool} (hs : s.isWord = false)
    (h : isQuery t = true) : hasQueryWord inWord (u ++ s :: t) = true := by
  induction u generalizing inWord with
  | nil =>
      rw [List.nil_append, hasQueryWord, hs, Bool.or_eq_true]
      exact .inr h
  | cons r u ih =>
      rw [List.cons_append, hasQueryWord, Bool.or_eq_true]
      exact .inr ih

theorem isMarkup_append (h : isMarkup t = true) : isMarkup (t ++ u) = true := by
  refine Text.anyEnd_append ?_ u h
  intro t u ht
  split at ht
  · exact ht
  · cases ht

/-- A space with more text, before or after, takes no query word and no tag away. -/
theorem IsQueryOrMarkup.joinWith_extend {xs ys : List Text} (hxs : xs <:+: ys)
    (h : IsQueryOrMarkup (Text.joinWith " " xs)) : IsQueryOrMarkup (Text.joinWith " " ys) := by
  have hspace : Symbol.isWord (.char ' ') = false := by decide +kernel
  refine Text.joinWith_extend ?_ ?_ ?_ hxs h
  · rintro (h | h) <;> cases h
  · intro t u ht
    rw [List.append_assoc]
    rcases ht with h | h
    · exact .inl (hasQueryWord_append hspace h)
    · exact .inr (isMarkup_append h)
  · intro t u ht
    rw [List.append_assoc]
    rcases ht with h | h
    · exact .inl (hasQueryWord_of_append hspace h)
    · exact .inr (Text.anyEnd_of_append _ (Text.anyEnd_of_append _ h))

end Injection

namespace Node

variable {root n c : Node} {edges : List Edge}

/-- The topmost sum that is reached from a node through sums only, along the edges above it. -/
def outermost : List Edge → Node → Node
  | [], n => n
  | (parent, _) :: edges, n => if parent.isSum then outermost edges parent else n

/-- A sum in a sum is one of its sides. -/
def HasSidedSums (root : Node) : Prop :=
  ∀ n c, root.Reaches n → n.isSum = true → c ∈ n.namedChildren → c.isSum = true →
    n.child? "left" = some c ∨ n.child? "right" = some c

theorem HasSidedSums.of_plain (h : UserInput.HasPlainSums root) : root.HasSidedSums := by
  intro n c hn hsum hc hcsum
  refine (h.sum n hn.contains hsum c).mp ⟨hc, ?_⟩
  rw [kind_of_isSum hcsum]
  decide

/-- The outermost sum stands in the tree, and not in a sum. -/
theorem Descends.outermost (h : root.Descends edges n) (hsum : n.isSum = true) :
    (outermost edges n).isSum = true ∧
      ∃ above, root.Descends above (outermost edges n) ∧ ∀ e ∈ above.head?, e.1.isSum = false := by
  induction h with
  | refl => exact ⟨hsum, [], .refl, nofun⟩
  | @child edges p c hdown hc ih =>
      rw [Node.outermost]
      by_cases hp : p.isSum = true
      · rw [if_pos hp]
        exact ih hp
      · rw [if_neg hp]
        refine ⟨hsum, (p, c) :: edges, hdown.child hc, ?_⟩
        intro e he
        cases he
        exact Bool.not_eq_true _ ▸ hp

theorem Descends.mem_walk (h : root.Descends edges n) :
    (n, edges.head?.map Prod.fst) ∈ root.walk := by
  refine mem_walkWith_iff.mpr ⟨edges, h, ?_⟩
  cases edges <;> rfl

theorem operands_infix_of_mem_sides (hn : n.isSum = true) (hc : c ∈ n.sides) :
    c.operands <:+: n.operands := by
  rw [operands_eq_flattened, operands_eq_flattened, flattened_of_isSum hn]
  obtain ⟨before, after, hsides⟩ := List.append_of_mem hc
  refine ⟨before.flatMap flattened, after.flatMap flattened, ?_⟩
  rw [hsides, List.flatMap_append, List.flatMap_cons, List.append_assoc]

theorem Descends.operands_infix_outermost (hsides : root.HasSidedSums) (h : root.Descends edges n)
    (hsum : n.isSum = true) : n.operands <:+: (Node.outermost edges n).operands := by
  induction h with
  | refl => exact List.infix_rfl
  | @child edges p c hdown hc ih =>
      rw [Node.outermost]
      by_cases hp : p.isSum = true
      · rw [if_pos hp]
        have hside := hsides p c hdown.reaches hp hc hsum
        exact (operands_infix_of_mem_sides hp (mem_sides.mpr hside)).trans (ih hp)
      · rw [if_neg hp]

end Node

namespace Injection

variable {tree : SourceTree} {n : Node} {edges : List Node.Edge}

theorem mixesInput_outermost (hsides : tree.root.HasSidedSums) (h : tree.root.Descends edges n)
    (hsum : n.isSum = true) (hinput : TakesInput tree n.operands)
    (htext : IsQueryOrMarkup (chainText tree n)) :
    ∃ v ∈ tree.walk, v.1 = Node.outermost edges n ∧ MixesInput tree v := by
  obtain ⟨htop, above, habove, hedge⟩ := h.outermost hsum
  have hwithin := h.operands_infix_outermost hsides hsum
  refine ⟨_, habove.mem_walk, rfl, .chain htop ?_ ?_ ?_⟩
  · intro p hp
    obtain ⟨e, he, rfl⟩ := Option.map_eq_some_iff.mp hp
    exact hedge e he
  · obtain ⟨op, hop, hmem⟩ := hinput
    exact ⟨op, hwithin.subset hop, hmem⟩
  · exact htext.joinWith_extend (hwithin.filterMap (literal? tree))

/-- A sum in a chain that mixes user input into a query or into markup is reported on the line of
the outermost sum of the chain, whose operands have those of the sum among them, side by side. -/
theorem outermost_reported (hsides : tree.root.HasSidedSums) (h : tree.root.Descends edges n)
    (hsum : n.isSum = true) :
    n.operands = n.flattened ∧ n.operands <:+: (Node.outermost edges n).operands ∧
    (TakesInput tree n.operands → IsQueryOrMarkup (chainText tree n) →
      ∃ issues, Engine.standard .security tree = .ok issues ∧
        ∃ i ∈ issues, i.ruleId = Text.ofString "unsanitized_input" ∧
          i.line = some ((Node.outermost edges n).line : Int)) := by
  refine ⟨n.operands_eq_flattened, h.operands_infix_outermost hsides hsum, ?_⟩
  intro hinput htext
  obtain ⟨v, hv, hnode, hmixes⟩ := mixesInput_outermost hsides h hsum hinput htext
  have hcharges := charges_check tree
  have hline : some ((Node.outermost edges n).line : Int) ∈ (check tree).map Issue.line :=
    (hcharges.mem_lines_iff _).mpr ⟨v, hv, hmixes, by rw [hnode]⟩
  obtain ⟨i, hi, hline⟩ := List.mem_map.mp hline
  refine ⟨Engine.security tree, rfl, i, List.mem_append_right _ hi, ?_, hline⟩
  exact List.mem_singleton.mp (hcharges.ruleId_mem i hi)

theorem reported_requestSum :
    SourceTree.requestSum.root.HasSidedSums ∧ Node.innerSum.isSum = true ∧
      ∃ edges, SourceTree.requestSum.root.Descends edges .innerSum ∧
        Node.outermost edges .innerSum = .outerSum ∧
        Node.innerSum.operands <:+: Node.outerSum.operands ∧
        ∃ issues, Engine.standard .security .requestSum = .ok issues ∧
          ∃ i ∈ issues, i.ruleId = Text.ofString "unsanitized_input" ∧ i.line = some 1 := by
  have hsides := Node.HasSidedSums.of_plain UserInput.hasPlainSums_requestSum
  have houter := ((@Node.Descends.refl SourceTree.requestSum.root).child List.mem_cons_self).child
    (c := .outerSum) List.mem_cons_self
  have hinner := houter.child (c := .innerSum) List.mem_cons_self
  have hinput : TakesInput .requestSum Node.innerSum.operands :=
    readsInput_iff.mp (by decide +kernel)
  have htext : IsQueryOrMarkup (chainText .requestSum .innerSum) := .inl (by decide +kernel)
  obtain ⟨-, hwithin, hreported⟩ := outermost_reported hsides hinner rfl
  exact ⟨hsides, rfl, _, hinner, rfl, hwithin, hreported hinput htext⟩

end Injection

end ScriptReview
