import Mathlib.Data.List.TakeWhile
import ScriptReview.Proofs.Tree.Walk
import ScriptReview.Tree.Breakage

namespace ScriptReview

namespace Text

def splitLines : Text → List Text
  | [] => []
  | .char '\r' :: .char '\n' :: rest => [] :: splitLines rest
  | s :: rest =>
    if s.isLineBoundary then [] :: splitLines rest
    else
      match splitLines rest with
      | [] => [[s]]
      | line :: others => (s :: line) :: others

theorem head?_splitLines {t : Text} (h : t ≠ []) : t.splitLines.head? = some t.firstLine := by
  induction t with
  | nil => exact absurd rfl h
  | cons s t ih =>
      rw [splitLines.eq_def, firstLine]
      -- The branches of the definition: the end, a carriage return with its line feed, any symbol.
      split
      · cases ‹_›
      · rename_i heq
        cases heq
        rfl
      · rename_i heq
        cases heq
        cases hs : s.isLineBoundary with
        | true => simp [hs]
        | false =>
            cases t with
            | nil => simp [splitLines, hs]
            | cons u t =>
                have hhead := ih (List.cons_ne_nil u t)
                obtain ⟨line, others, hlines⟩ :=
                  List.exists_cons_of_ne_nil (List.ne_nil_of_mem (List.mem_of_head? hhead))
                rw [hlines, List.head?_cons, Option.some_inj] at hhead
                rw [hlines, hhead]
                simp [hs, firstLine]

theorem startsWith_append {t : Text} {start : String} (h : t.startsWith start = true) (u : Text) :
    Text.startsWith (t ++ u) start = true := by
  rw [startsWith, List.isPrefixOf_iff_prefix] at h ⊢
  exact h.trans (List.prefix_append t u)

theorem isBlank_of_isLineBoundary {s : Symbol} (h : s.isLineBoundary = true) :
    s.isBlank = true := by
  simp only [Symbol.isLineBoundary, Bool.or_eq_true, Bool.and_eq_true, decide_eq_true_eq,
    beq_iff_eq] at h
  simp only [Symbol.isBlank, inRanges, blankRanges, List.any_cons, List.any_nil, Bool.or_eq_true,
    Bool.and_eq_true, decide_eq_true_eq]
  omega

/-- What is left of a text that is not blank starts with no blank. -/
theorem strip_eq_cons {t : Text} (h : t.isBlank = false) :
    ∃ s rest, t.strip = s :: rest ∧ s.isBlank = false := by
  have hne : t.dropWhile Symbol.isBlank ≠ [] := by
    rw [ne_eq, List.dropWhile_eq_nil_iff, ← List.all_eq_true]
    exact ne_true_of_eq_false h
  obtain ⟨s, r, hdrop⟩ := List.exists_cons_of_ne_nil hne
  have hs : s.isBlank = false := by
    have hhead := List.head?_dropWhile_not Symbol.isBlank t
    rw [hdrop] at hhead
    simpa using hhead
  rw [strip, hdrop, List.reverse_cons, List.dropWhile_append]
  split
  · exact ⟨s, [], by simp [hs], hs⟩
  · exact ⟨s, (r.reverse.dropWhile Symbol.isBlank).reverse, by simp, hs⟩

end Text

namespace Node

variable {root n c d : Node}

theorem Contains.trans (h : root.Contains n) (h' : n.Contains d) : root.Contains d := by
  induction n using children_induction with
  | _ n ih =>
      rw [Contains, nodes_eq] at h'
      rcases List.mem_cons.mp h' with rfl | h'
      · exact h
      · obtain ⟨c, hc, hd⟩ := List.mem_flatMap.mp h'
        exact ih c hc (h.child hc) hd

/-- The flags of a tree tell the truth about its broken nodes: each shows itself and is shown by
every node above it, and a node shows nothing else. -/
structure HasHonestFlags (root : Node) : Prop where
  shown : ∀ n, root.Contains n → n.isBroken = true →
    n.info.hasError = true ∨ n.info.isMissing = true
  above : ∀ n, root.Contains n → ∀ c ∈ n.children, ∀ d, c.Contains d → d.isBroken = true →
    n.info.hasError = true
  grounded : ∀ n, root.Contains n → n.info.hasError = true → ∃ d, n.Contains d ∧ d.isBroken = true

instance (root : Node) : Decidable root.HasHonestFlags :=
  decidable_of_iff (∀ n ∈ root.nodes,
      (n.isBroken = true → n.info.hasError = true ∨ n.info.isMissing = true) ∧
      (∀ c ∈ n.children, ∀ d ∈ c.nodes, d.isBroken = true → n.info.hasError = true) ∧
      (n.info.hasError = true → ∃ d ∈ n.nodes, d.isBroken = true))
    ⟨fun h => ⟨fun n hn => (h n hn).1, fun n hn => (h n hn).2.1, fun n hn => (h n hn).2.2⟩,
      fun h n hn => ⟨h.shown n hn, h.above n hn, h.grounded n hn⟩⟩

theorem HasHonestFlags.child (h : root.HasHonestFlags) (hc : c ∈ root.children) :
    c.HasHonestFlags where
  shown n hn := h.shown n (((Contains.refl root).child hc).trans hn)
  above n hn := h.above n (((Contains.refl root).child hc).trans hn)
  grounded n hn := h.grounded n (((Contains.refl root).child hc).trans hn)

/-- A subtree that is passed by holds nothing broken. -/
theorem HasHonestFlags.isBroken_eq_false (h : root.HasHonestFlags)
    (hclean : (root.info.hasError || root.info.isMissing) = false) (hd : root.Contains d) :
    d.isBroken = false := by
  rw [Bool.or_eq_false_iff] at hclean
  by_contra hbroken
  rw [Bool.not_eq_false] at hbroken
  have hroot : root.info.hasError = true ∨ root.info.isMissing = true := by
    rw [Contains, nodes_eq] at hd
    rcases List.mem_cons.mp hd with rfl | hd
    · exact h.shown _ (.refl _) hbroken
    · obtain ⟨c, hc, hd⟩ := List.mem_flatMap.mp hd
      exact .inl (h.above root (.refl root) c hc d hd hbroken)
  rcases hroot with herror | hmissing
  · rw [hclean.1] at herror
    cases herror
  · rw [hclean.2] at hmissing
    cases hmissing

theorem find?_flatMap_filter {α β : Type} {keep : α → Bool} {f : α → List β} {test : β → Bool}
    {xs : List α} (h : ∀ x ∈ xs, keep x = false → ∀ y ∈ f x, test y = false) :
    ((xs.filter keep).flatMap f).find? test = (xs.flatMap f).find? test := by
  induction xs with
  | nil => rfl
  | cons x xs ih =>
      rw [List.forall_mem_cons] at h
      rw [List.filter_cons]
      cases hx : keep x with
      | true => simp [ih h.2, List.find?_append]
      | false =>
          have hnone : (f x).find? test = none := by
            rw [List.find?_eq_none]
            intro y hy
            simp [h.1 hx y hy]
          simp [ih h.2, List.find?_append, hnone]

theorem HasHonestFlags.find?_suspects (h : root.HasHonestFlags) :
    (root.suspects.flatMap nodes).find? isBroken =
      (root.children.flatMap nodes).find? isBroken := by
  apply find?_flatMap_filter
  intro c hc hclean d hd
  exact (h.child hc).isBroken_eq_false hclean hd

/-- The pending nodes of a search stand for all nodes of their trees, one tree after the other. -/
theorem searchBroken_eq_find? {pending : List Node} (h : ∀ n ∈ pending, n.HasHonestFlags) :
    searchBroken pending = (pending.flatMap nodes).find? isBroken := by
  fun_induction searchBroken pending with
  | case1 => rfl
  | case2 n rest hbroken => simp [nodes_eq n, hbroken]
  | case3 n rest hbroken ih =>
      rw [List.forall_mem_cons] at h
      have hpending : ∀ m ∈ n.suspects ++ rest, m.HasHonestFlags := by
        rw [List.forall_mem_append]
        exact ⟨fun c hc => h.1.child (List.mem_filter.mp hc).1, h.2⟩
      -- What was pushed stands for all children: those passed by would have given nothing.
      rw [ih hpending, List.flatMap_append, List.find?_append, h.1.find?_suspects]
      simp [nodes_eq n, hbroken, List.find?_append]

theorem HasHonestFlags.firstBroken_eq (h : root.HasHonestFlags) :
    root.firstBroken = root.nodes.find? isBroken := by
  rw [firstBroken, searchBroken_eq_find? (by simpa using h)]
  simp

theorem HasHonestFlags.exists_find? (h : root.HasHonestFlags) (herror : root.info.hasError = true) :
    ∃ n, root.nodes.find? isBroken = some n := by
  obtain ⟨d, hd, hbroken⟩ := h.grounded root (.refl root) herror
  apply Option.isSome_iff_exists.mp
  rw [List.find?_isSome]
  exact ⟨d, hd, hbroken⟩

end Node

namespace Breakage

theorem snippet_of_not_blank {t : Text} (h : t.isBlank = false) :
    snippet t ≠ [] ∧ t.strip.splitLines.head?.map (·.take 20) = some (snippet t) := by
  obtain ⟨s, rest, hstrip, hs⟩ := Text.strip_eq_cons h
  have hboundary : s.isLineBoundary = false := by
    by_contra hboundary
    rw [Bool.not_eq_false] at hboundary
    rw [Text.isBlank_of_isLineBoundary hboundary] at hs
    cases hs
  constructor
  · rw [snippet, hstrip, Text.firstLine, List.takeWhile_cons_of_pos (by simp [hboundary])]
    simp
  · rw [Text.head?_splitLines (by simp [hstrip])]
    rfl

theorem isLineBoundary_snippet {t : Text} {s : Symbol} (h : s ∈ snippet t) :
    s.isLineBoundary = false := by
  have hs := List.mem_takeWhile_imp (List.mem_of_mem_take h)
  simpa using hs

theorem length_snippet_le (t : Text) : (snippet t).length ≤ 20 := by
  rw [snippet, List.length_take]
  exact Nat.min_le_left _ _

structure Describes (bytes : Array UInt8) (n : Node) (message : Text) : Prop where
  opening : message.startsWith "Syntax Error: " = true
  closing : ∃ before : Text, message =
    before ++ (" (" ++ Text.number (n.info.startRow + 1) ++ ":" ++
      Text.number n.info.startColumn ++ ")")
  missing : n.info.isMissing = true → Text.cited n.kind <:+: message
  quoting : n.info.isMissing = false →
    (SourceTree.slice bytes n.info.startByte n.info.endByte).isBlank = false →
    ∃ quoted : Text, quoted ≠ [] ∧ quoted.length ≤ 20 ∧ (∀ s ∈ quoted, s.isLineBoundary = false) ∧
      (SourceTree.slice bytes n.info.startByte n.info.endByte).strip.splitLines.head?.map
        (·.take 20) = some quoted ∧
      message = "Syntax Error: Unexpected token " ++ quoted.cited ++ position n

theorem exists_describeNode_eq (bytes : Array UInt8) (n : Node) :
    ∃ what : Text, what.startsWith "Syntax Error: " = true ∧
      describeNode bytes n = what ++ position n := by
  rw [describeNode]
  split
  · exact ⟨_, Text.startsWith_append (by decide) _, rfl⟩
  · dsimp only
    split
    · exact ⟨_, by decide, rfl⟩
    · exact ⟨_, Text.startsWith_append (by decide) _, rfl⟩

theorem describeNode_quoting {bytes : Array UInt8} {n : Node} (h : n.info.isMissing = false)
    (hne : snippet (SourceTree.slice bytes n.info.startByte n.info.endByte) ≠ []) :
    describeNode bytes n = "Syntax Error: Unexpected token " ++
      (snippet (SourceTree.slice bytes n.info.startByte n.info.endByte)).cited ++ position n := by
  rw [describeNode, if_neg (by simp [h])]
  exact if_neg (by simp [hne])

theorem describes_describeNode (bytes : Array UInt8) (n : Node) :
    Describes bytes n (describeNode bytes n) := by
  obtain ⟨what, hwhat, hmessage⟩ := exists_describeNode_eq bytes n
  refine ⟨?_, ⟨what, hmessage⟩, fun hmissing => ?_, fun hmissing hblank => ?_⟩
  · rw [hmessage]
    exact Text.startsWith_append hwhat _
  · rw [describeNode, if_pos hmissing]
    exact List.infix_append _ _ _
  · obtain ⟨hne, hline⟩ := snippet_of_not_blank hblank
    exact ⟨_, hne, length_snippet_le _, fun s hs => isLineBoundary_snippet hs, hline,
      describeNode_quoting hmissing hne⟩

end Breakage

/-- In a tree with an error whose flags tell the truth, the node that the message locates is the
first broken one of the whole tree, whatever source that UTF-8 can hold the tree is made of. -/
theorem SourceTree.parse_locates_firstBroken {root : Node} (herror : root.info.hasError = true)
    (hflags : root.HasHonestFlags) :
    ∃ n, root.firstBroken = some n ∧ root.nodes.find? Node.isBroken = some n ∧
      ∀ (grammar : Grammar) (language : Language) (code : Text) (octets : List UInt8),
        grammar language code = root → code.utf8? = some octets →
        ∃ message, SourceTree.parse grammar language code = .error (.broken message) ∧
          Breakage.Describes octets.toArray n message := by
  obtain ⟨n, hn⟩ := hflags.exists_find? herror
  have hfirst : root.firstBroken = some n := hflags.firstBroken_eq.trans hn
  refine ⟨n, hfirst, hn, fun grammar language code octets hroot hoctets => ?_⟩
  refine ⟨_, ?_, Breakage.describes_describeNode octets.toArray n⟩
  rw [SourceTree.parse, hoctets]
  simp only [hroot, herror, if_true, Breakage.describe, hfirst]

def Node.strayTokens : Node :=
  .mk ⟨0, "program", none, true, false, false, true, 0, 9, 0, 0, 0⟩
    [.mk ⟨1, "identifier", none, true, false, false, false, 0, 1, 0, 0, 0⟩ [],
      .mk ⟨2, "ERROR", none, true, true, false, true, 1, 9, 0, 1, 0⟩
        [.mk ⟨3, ")", none, false, false, false, false, 3, 4, 0, 3, 0⟩ []],
      .mk ⟨4, "\x7d", none, false, false, true, false, 9, 9, 0, 9, 0⟩ []]

theorem SourceTree.parse_locates_strayTokens :
    Node.strayTokens.info.hasError = true ∧ Node.strayTokens.HasHonestFlags ∧
      SourceTree.parse (fun _ _ => .strayTokens) .tsx "x \t)(\u2028y" =
        .error (.broken "Syntax Error: Unexpected token ')(' (1:1)") := by
  have hflags : Node.strayTokens.HasHonestFlags := by decide +kernel
  obtain ⟨n, -, hn, hparse⟩ := SourceTree.parse_locates_firstBroken rfl hflags
  obtain ⟨message, hmessage, hdescribes⟩ := hparse (fun _ _ => .strayTokens) .tsx
    "x \t)(\u2028y" [0x78, 0x20, 0x09, 0x29, 0x28, 0xE2, 0x80, 0xA8, 0x79] rfl (by decide)
  cases hn
  obtain ⟨quoted, -, -, -, hquoted, htext⟩ := hdescribes.quoting rfl (by decide +kernel)
  have hline : Text.ofString ")(" = quoted := by
    apply Option.some_inj.mp
    rw [← hquoted]
    decide +kernel
  have hwhole : message = Text.ofString "Syntax Error: Unexpected token ')(' (1:1)" := by
    rw [htext, ← hline]
    decide +kernel
  exact ⟨rfl, hflags, hwhole ▸ hmessage⟩

def Node.stray (isMissing : Bool) : Node :=
  .mk ⟨0, "ERROR", none, true, true, isMissing, true, 0, 1, 0, 0, 0⟩ []

/-- A source that UTF-8 cannot hold is not parsed, and a broken node that is marked as missing is
not quoted. -/
theorem SourceTree.parse_not_quoting :
    ((Node.stray false).info.hasError = true ∧ (Node.stray false).HasHonestFlags ∧
      SourceTree.parse (fun _ _ => .stray false) .tsx [.surrogate 0] = .error .unencodable) ∧
    (Node.stray true).info.hasError = true ∧ (Node.stray true).HasHonestFlags ∧
      (Node.stray true).firstBroken = some (.stray true) ∧
      (Node.stray true).info.isError = true ∧ (SourceTree.slice #[0x78] 0 1).isBlank = false ∧
      SourceTree.parse (fun _ _ => .stray true) .tsx "x" =
        .error (.broken "Syntax Error: Missing 'ERROR' (1:0)") := by
  have hflags : ∀ isMissing, (Node.stray isMissing).HasHonestFlags := by decide +kernel
  have hfirst : (Node.stray true).firstBroken = some (.stray true) := (hflags true).firstBroken_eq
  have hdescribe : Breakage.describe #[0x78] (.stray true) =
      Text.ofString "Syntax Error: Missing 'ERROR' (1:0)" := by
    rw [Breakage.describe, hfirst]
    decide +kernel
  refine ⟨⟨rfl, hflags false, rfl⟩, rfl, hflags true, hfirst, rfl, by decide +kernel, ?_⟩
  exact congrArg (Except.error ∘ ParseError.broken) hdescribe

end ScriptReview
