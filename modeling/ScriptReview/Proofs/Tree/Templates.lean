import Mathlib.Data.List.Forall2
import ScriptReview.Findings.Injection
import ScriptReview.Proofs.Text.Octets

namespace ScriptReview.SourceTree

theorem slice_eq_of_isBetween {t part : Text} {bytes : Array UInt8} {i j : Nat}
    (hbytes : t.utf8? = some bytes.toList) (h : t.IsBetween i j part) :
    slice bytes i j = part := by
  obtain ⟨before, after, rfl, rfl, rfl⟩ := h
  obtain ⟨x, rest, hx, hrest, hoctets⟩ := Text.exists_of_utf8?_append hbytes
  obtain ⟨y, z, hy, hz, rfl⟩ := Text.exists_of_utf8?_append hrest
  have hcut : (bytes.extract before.width (before.width + part.width)).toList = y := by
    rw [Array.toList_extract, hoctets, ← Text.length_of_utf8? hx, ← Text.length_of_utf8? hy]
    simp
  rw [slice, hcut, Utf8.decode_eq hy]

def backtick : Symbol := .char '\x60'

/-- A text between quotes comes from octets between the octets of the quotes. -/
theorem exists_of_decode_quoted {octets : List UInt8} {body : Text}
    (h : Utf8.decode octets = backtick :: body ++ [backtick]) :
    ∃ opening inner closing, octets = opening :: inner ++ [closing] ∧
      opening.toNat = 0x60 ∧ closing.toNat = 0x60 := by
  have hpos : 0 < '\x60'.toNat := by decide
  have hascii : '\x60'.toNat < 0x80 := by decide
  cases octets with
  | nil => simp [Utf8.decode, Utf8.decodeFrom] at h
  | cons opening rest =>
      have hopening : opening.toNat = 0x60 := Utf8.head?_decode hpos hascii (by rw [h]; rfl)
      rcases List.eq_nil_or_concat rest with rfl | ⟨inner, closing, rfl⟩
      · -- one octet is one character, and there are two quotes
        obtain rfl : opening = UInt8.ofNat 0x60 := UInt8.toNat_inj.mp hopening
        rw [Utf8.decode_one (by decide)] at h
        simp [Utf8.decode, Utf8.decodeFrom] at h
      · rw [List.concat_eq_append] at h
        have hlast : (Utf8.decode (opening :: inner ++ [closing])).getLast? = some backtick := by
          rw [List.cons_append, h, List.getLast?_concat]
        exact ⟨opening, inner, closing, by simp, hopening,
          Utf8.getLast?_decodeFrom hpos hascii Utf8.isWide_none hlast⟩

theorem getElem?_of_extract {octets : List UInt8} {i j k : Nat} {b : UInt8}
    (h : (octets.extract i j)[k]? = some b) : octets[i + k]? = some b := by
  rw [List.extract_eq_take_drop, List.getElem?_take] at h
  split_ifs at h
  rwa [List.getElem?_drop] at h

/-- A node of a source that is a template: its text stands between two quotes, and between these its
substitutions stand one after the other and cut no character. -/
structure IsTemplate (source : Text) (tree : SourceTree) (n : Node) : Prop where
  encoded : source.utf8? = some tree.bytes.toList
  inSource : n.info.endByte ≤ tree.bytes.size
  quoted : ∃ body, tree.text n = backtick :: body ++ [backtick]
  inOrder : n.substitutions.Pairwise fun s t => s.info.endByte ≤ t.info.startByte
  isSpan : ∀ s ∈ n.substitutions, s.info.startByte ≤ s.info.endByte
  isInside : ∀ s ∈ n.substitutions,
    n.info.startByte < s.info.startByte ∧ s.info.endByte < n.info.endByte
  onBoundaries : ∀ s ∈ n.substitutions,
    source.IsBoundary s.info.startByte ∧ source.IsBoundary s.info.endByte

variable {source : Text} {tree : SourceTree} {n : Node} {start stop : Nat} {subs : List Node}

theorem IsTemplate.quotes (h : IsTemplate source tree n) :
    n.info.startByte + 1 < n.info.endByte ∧
      source.IsBetween n.info.startByte (n.info.startByte + 1) [backtick] ∧
      source.IsBetween (n.info.endByte - 1) n.info.endByte [backtick] := by
  obtain ⟨body, hbody⟩ := h.quoted
  rw [text, slice, Array.toList_extract] at hbody
  obtain ⟨opening, inner, closing, hoctets, hopening, hclosing⟩ := exists_of_decode_quoted hbody
  have hascii : '\x60'.toNat < 0x80 := by decide
  have hlength : n.info.endByte - n.info.startByte = inner.length + 2 := by
    have hcut := congrArg List.length hoctets
    have hin := h.inSource
    simp only [List.extract_eq_take_drop, List.length_take, List.length_drop, Array.length_toList,
      List.length_append, List.length_cons, List.length_nil] at hcut
    omega
  have hfirst : tree.bytes.toList[n.info.startByte]? = some opening :=
    getElem?_of_extract (k := 0) (by rw [hoctets]; rfl)
  have hlast : tree.bytes.toList[n.info.startByte + (inner.length + 1)]? = some closing :=
    getElem?_of_extract (by rw [hoctets]; simp)
  have hopens := Text.isBetween_of_getElem? h.encoded hascii hfirst hopening
  have hcloses := Text.isBetween_of_getElem? h.encoded hascii hlast hclosing
  rw [show n.info.startByte + (inner.length + 1) = n.info.endByte - 1 by omega,
    show n.info.endByte - 1 + 1 = n.info.endByte by omega] at hcloses
  exact ⟨by omega, hopens, hcloses⟩

def gaps (start stop : Nat) : List Node → List (Nat × Nat)
  | [] => [(start, stop)]
  | sub :: rest => (start, sub.info.startByte) :: gaps sub.info.endByte stop rest

theorem length_gaps (start stop : Nat) (subs : List Node) :
    (gaps start stop subs).length = subs.length + 1 := by
  induction subs generalizing start with
  | nil => rfl
  | cons sub subs ih => rw [gaps, List.length_cons, ih, List.length_cons]

def Spans (source : Text) (start stop : Nat) : List Node → Prop
  | [] => start ≤ stop
  | sub :: rest => start ≤ sub.info.startByte ∧ sub.info.startByte ≤ sub.info.endByte ∧
      source.IsBoundary sub.info.startByte ∧ source.IsBoundary sub.info.endByte ∧
      Spans source sub.info.endByte stop rest

theorem spans_of_pairwise (horder : subs.Pairwise fun s t => s.info.endByte ≤ t.info.startByte)
    (hspan : ∀ s ∈ subs, s.info.startByte ≤ s.info.endByte)
    (hinside : ∀ s ∈ subs, start ≤ s.info.startByte ∧ s.info.endByte ≤ stop)
    (hboundaries : ∀ s ∈ subs,
      source.IsBoundary s.info.startByte ∧ source.IsBoundary s.info.endByte)
    (h : start ≤ stop) : Spans source start stop subs := by
  induction subs generalizing start with
  | nil => exact h
  | cons sub subs ih =>
      rw [List.pairwise_cons] at horder
      rw [List.forall_mem_cons] at hspan hinside hboundaries
      refine ⟨hinside.1.1, hspan.1, hboundaries.1.1, hboundaries.1.2, ?_⟩
      apply ih horder.2 hspan.2 _ hboundaries.2 hinside.1.2
      intro s hs
      exact ⟨horder.1 s hs, (hinside.2 s hs).2⟩

theorem IsTemplate.spans (h : IsTemplate source tree n) :
    Spans source (n.info.startByte + 1) (n.info.endByte - 1) n.substitutions := by
  obtain ⟨hwide, -, -⟩ := h.quotes
  apply spans_of_pairwise h.inOrder h.isSpan _ h.onBoundaries (by omega)
  intro s hs
  have hinside := h.isInside s hs
  omega

/-- The reader keeps the text of every gap, and with the texts of the spans these are the source from
one offset to the other. -/
theorem Spans.exists_literals (hencoded : source.utf8? = some tree.bytes.toList)
    (hstart : source.IsBoundary start) (hstop : source.IsBoundary stop)
    (h : Spans source start stop subs) :
    ∃ first rest, tree.templateParts (stop + 1) start subs = first ++ rest.flatten ∧
      source.IsBetween start stop
        (first ++ (List.zipWith (fun s t => tree.text s ++ t) subs rest).flatten) ∧
      List.Forall₂ (fun gap t => source.IsBetween gap.1 gap.2 t) (gaps start stop subs)
        (first :: rest) := by
  induction subs generalizing start with
  | nil =>
      obtain ⟨part, hpart⟩ := Text.exists_isBetween hstart hstop h
      refine ⟨part, [], ?_, by simpa using hpart, .cons hpart .nil⟩
      rw [templateParts, Nat.add_sub_cancel, Nat.max_eq_right h,
        slice_eq_of_isBetween hencoded hpart, List.flatten_nil, List.append_nil]
  | cons sub subs ih =>
      obtain ⟨hbefore, hspan, hopens, hcloses, hrest⟩ := h
      obtain ⟨part, hpart⟩ := Text.exists_isBetween hstart hopens hbefore
      obtain ⟨inner, hinner⟩ := Text.exists_isBetween hopens hcloses hspan
      obtain ⟨first, rest, hparts, hwhole, hgaps⟩ := ih hcloses hrest
      have htext : tree.text sub = inner := slice_eq_of_isBetween hencoded hinner
      refine ⟨part, first :: rest, ?_, ?_, .cons hpart hgaps⟩
      · rw [templateParts, slice_eq_of_isBetween hencoded hpart, hparts, List.flatten_cons]
      · rw [List.zipWith_cons_cons, List.flatten_cons, htext, List.append_assoc]
        exact hpart.append (hinner.append hwhole)

theorem stringValue_of_text {body : Text} (h : tree.text n = backtick :: body ++ [backtick]) :
    tree.stringValue n = body := by
  have hlong : 2 ≤ (tree.text n).length := by simp [h]
  rw [stringValue, if_pos hlong, h, List.cons_append, List.drop_one, List.tail_cons,
    List.dropLast_concat]

/-- The text of a template without its substitutions is put together from literal texts, one more
than there are substitutions: each is what the source holds between two neighbours, and with the
texts of the substitutions and the quotes they are the text of the template. -/
theorem templateText_removes_substitutions (h : IsTemplate source tree n) :
    ∃ first rest, rest.length = n.substitutions.length ∧
      tree.templateText n = first ++ rest.flatten ∧
      tree.text n = backtick :: (first ++
        (List.zipWith (fun s t => tree.text s ++ t) n.substitutions rest).flatten) ++ [backtick] ∧
      List.Forall₂ (fun gap t => source.IsBetween gap.1 gap.2 t)
        (gaps (n.info.startByte + 1) (n.info.endByte - 1) n.substitutions) (first :: rest) ∧
      (n.substitutions = [] → tree.templateText n = tree.stringValue n) := by
  obtain ⟨hwide, hopens, hcloses⟩ := h.quotes
  obtain ⟨first, rest, hparts, hwhole, hgaps⟩ :=
    h.spans.exists_literals h.encoded hopens.isBoundary_stop hcloses.isBoundary_start
  have hliteral : tree.templateText n = first ++ rest.flatten := by
    rw [Nat.sub_add_cancel (by omega)] at hparts
    exact hparts
  have htext := slice_eq_of_isBetween h.encoded (hopens.append (hwhole.append hcloses))
  have hlength : rest.length = n.substitutions.length := by
    have hcount := hgaps.length_eq
    rw [length_gaps, List.length_cons] at hcount
    omega
  refine ⟨first, rest, hlength, hliteral, htext, hgaps, ?_⟩
  intro hnone
  obtain rfl : rest = [] := List.eq_nil_of_length_eq_zero (by rw [hlength, hnone]; rfl)
  rw [hliteral, stringValue_of_text htext, hnone]
  rfl

def interpolatedSource : Text := "é`日$\x7ba\x7d$\x7bb\x7d\\t🙂`;"

def interpolatedNode : Node :=
  .mk ⟨0, "template_string", none, true, false, false, false, 2, 21, 0, 2, 0⟩
    [.mk ⟨1, "string_fragment", none, true, false, false, false, 3, 6, 0, 3, 0⟩ [],
      .mk ⟨2, "template_substitution", none, true, false, false, false, 6, 10, 0, 6, 0⟩ [],
      .mk ⟨3, "template_substitution", none, true, false, false, false, 10, 14, 0, 10, 0⟩ [],
      .mk ⟨4, "escape_sequence", none, true, false, false, false, 14, 16, 0, 14, 0⟩ [],
      .mk ⟨5, "string_fragment", none, true, false, false, false, 16, 20, 0, 16, 0⟩ []]

def interpolatedTree : SourceTree where
  root := interpolatedNode
  bytes := #[0xC3, 0xA9, 0x60, 0xE6, 0x97, 0xA5, 0x24, 0x7B, 0x61, 0x7D, 0x24, 0x7B, 0x62, 0x7D,
    0x5C, 0x74, 0xF0, 0x9F, 0x99, 0x82, 0x60, 0x3B]
  language := .tsx

theorem isTemplate_interpolated :
    IsTemplate interpolatedSource interpolatedTree interpolatedNode where
  encoded := by decide +kernel
  inSource := by decide
  quoted := ⟨Text.ofString "日$\x7ba\x7d$\x7bb\x7d\\t🙂", by decide +kernel⟩
  inOrder := by decide +kernel
  isSpan := by decide +kernel
  isInside := by decide +kernel
  onBoundaries := by decide +kernel

theorem templateText_interpolated :
    IsTemplate interpolatedSource interpolatedTree interpolatedNode ∧
      ∃ first rest, rest.length = 2 ∧
        first ++ rest.flatten = Text.ofString "日\\t🙂" ∧
        interpolatedTree.text interpolatedNode = backtick :: (first ++
          (List.zipWith (fun s t => interpolatedTree.text s ++ t) interpolatedNode.substitutions
            rest).flatten) ++ [backtick] := by
  have htemplate := isTemplate_interpolated
  obtain ⟨first, rest, hlength, hliteral, htext, -⟩ := templateText_removes_substitutions htemplate
  refine ⟨htemplate, first, rest, hlength, ?_, htext⟩
  rw [← hliteral]
  decide +kernel

end ScriptReview.SourceTree
