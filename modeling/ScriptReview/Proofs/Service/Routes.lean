import Mathlib.Data.List.TakeWhile
import ScriptReview.Proofs.History
import ScriptReview.Service

namespace ScriptReview

namespace Path

theorem segments_ne_nil (t : Text) : segments t ≠ [] := by
  cases t with
  | nil => simp [segments]
  | cons s t =>
      rw [segments]
      split_ifs
      · simp
      · split <;> simp

theorem segments_cons_of_ne {s : Symbol} (hs : s ≠ slash) {t segment : Text} {others : List Text}
    (h : segments t = segment :: others) : segments (s :: t) = (s :: segment) :: others := by
  rw [segments, if_neg hs, h]

theorem segments_append {t : Text} (h : slash ∉ t) (rest : Text) :
    segments (t ++ slash :: rest) = t :: segments rest := by
  induction t with
  | nil => rw [List.nil_append, segments, if_pos rfl]
  | cons s t ih =>
      rw [List.mem_cons, not_or] at h
      exact segments_cons_of_ne (Ne.symm h.1) (ih h.2)

theorem segments_of_notMem {t : Text} (h : slash ∉ t) : segments t = [t] := by
  induction t with
  | nil => rfl
  | cons s t ih =>
      rw [List.mem_cons, not_or] at h
      exact segments_cons_of_ne (Ne.symm h.1) (ih h.2)

theorem joinWith_segments (t : Text) : Text.joinWith [slash] (segments t) = t := by
  induction t with
  | nil => rfl
  | cons s t ih =>
      obtain ⟨segment, others, hsegments⟩ := List.exists_cons_of_ne_nil (segments_ne_nil t)
      rw [hsegments] at ih
      by_cases hs : s = slash
      · rw [segments, if_pos hs, hsegments, hs]
        exact congrArg (slash :: ·) ih
      · rw [segments_cons_of_ne hs hsegments]
        cases others with
        | nil => exact congrArg (s :: ·) ih
        | cons next others => exact congrArg (s :: ·) ih

def IsPlain (segment : Text) : Prop :=
  segment ≠ Text.ofString "." ∧ segment ≠ Text.ofString ".."

theorem foldl_enter {ts : List Text} (h : ∀ t ∈ ts, IsPlain t) (kept : List Text) :
    ts.foldl enter kept = ts.reverse ++ kept := by
  induction ts generalizing kept with
  | nil => rfl
  | cons t ts ih =>
      rw [List.forall_mem_cons] at h
      have henter : enter kept t = t :: kept := by rw [enter, if_neg h.1.1, if_neg h.1.2]
      rw [List.foldl_cons, henter, ih h.2, List.reverse_cons, List.append_assoc]
      rfl

theorem resolved_of_isPlain {t : Text} (hne : t ≠ []) (h : ∀ s ∈ segments t, IsPlain s) :
    resolved t = t := by
  rw [resolved, foldl_enter h, List.append_nil, List.reverse_reverse, joinWith_segments]
  simp [hne]

structure IsLiteral (c : Char) : Prop where
  octet : c.toNat < 0x80
  percent : c ≠ '%'
  query : c ≠ '?' ∧ c ≠ '#'

instance (c : Char) : Decidable (IsLiteral c) :=
  decidable_of_iff (c.toNat < 0x80 ∧ c ≠ '%' ∧ c ≠ '?' ∧ c ≠ '#')
    ⟨fun h => ⟨h.1, h.2.1, h.2.2⟩, fun h => ⟨h.octet, h.percent, h.query⟩⟩

theorem withoutQuery_of_isLiteral {cs : List Char} (h : ∀ c ∈ cs, IsLiteral c) :
    withoutQuery (cs.map .char) = cs.map .char := by
  rw [withoutQuery, List.takeWhile_eq_self_iff, List.forall_mem_map]
  intro c hc
  simp [Symbol.satisfies, (h c hc).query]

theorem octets_cons {c : Char} (h : IsLiteral c) (t : Text) :
    octets (.char c :: t) = UInt8.ofNat c.toNat :: octets t := by
  have hencode : String.utf8EncodeChar c = [UInt8.ofNat c.toNat] :=
    if_pos (Nat.le_of_lt_succ h.octet)
  rw [octets, hencode]
  · rfl
  · exact fun _ _ _ _ => h.percent

theorem decoded_of_isLiteral {cs : List Char} (h : ∀ c ∈ cs, IsLiteral c) :
    decoded (cs.map .char) = cs.map .char := by
  induction cs with
  | nil => rfl
  | cons c cs ih =>
      rw [List.forall_mem_cons] at h
      have hoctet : (UInt8.ofNat c.toNat).toNat = c.toNat :=
        UInt8.toNat_ofNat_of_lt (h.1.octet.trans (by decide))
      have hstart : Utf8.start c.toNat = ([.char c], none) := by
        rw [Utf8.start, if_pos h.1.octet, Char.ofNat_toNat]
      rw [List.map_cons, decoded, octets_cons h.1, Utf8.decode, Utf8.decodeFrom, Utf8.step, hoctet,
        hstart]
      exact congrArg (.char c :: ·) (ih h.2)

end Path

namespace Service

theorem isLiteral_of_isDigit {c : Char} (h : Hex.isDigit c = true) :
    Path.IsLiteral c ∧ c ≠ '/' ∧ c ≠ '\n' := by
  have hrange : 48 ≤ c.toNat ∧ c.toNat ≤ 57 ∨ 97 ≤ c.toNat ∧ c.toNat ≤ 102 := by
    simpa [Hex.isDigit, Char.isDigit, UInt32.le_iff_toNat_le] using h
  have hne {d : Char} (hd : d.toNat < 48) : c ≠ d := by
    rintro rfl
    omega
  have hquestion : c ≠ '?' := by
    rintro rfl
    exact absurd hrange (by decide)
  exact ⟨⟨by omega, hne (by decide), hquestion, hne (by decide)⟩, hne (by decide), hne (by decide)⟩

theorem exists_digits_of_isHexId {id : Text} (h : Session.IsHexId id) :
    ∃ cs : List Char, id = cs.map .char ∧ ∀ c ∈ cs, Hex.isDigit c = true := by
  obtain ⟨-, hdigits⟩ := h
  induction id with
  | nil => exact ⟨[], rfl, List.forall_mem_nil _⟩
  | cons s id ih =>
      rw [List.all_cons, Bool.and_eq_true] at hdigits
      obtain ⟨cs, rfl, hcs⟩ := ih hdigits.2
      cases s with
      | char c => exact ⟨c :: cs, rfl, List.forall_mem_cons.2 ⟨hdigits.1, hcs⟩⟩
      | surrogate u => cases hdigits.1

theorem ofPath?_review {id : Text} (hlength : id.length = 32) (hslash : Path.slash ∉ id)
    (hend : id.getLast? ≠ some (.char '\n')) :
    Endpoint.ofPath? ("/reviews/" ++ id) = some (.review id) := by
  have hne : id ≠ [] := by
    rintro rfl
    cases hlength
  have hlast : (Text.ofString "/reviews/" ++ id).getLast? ≠ some (.char '\n') := by
    rwa [List.getLast?_append_of_ne_nil _ hne]
  have hfixed : Endpoint.fixed.lookup (Text.ofString "/reviews/" ++ id) = none := by
    have hshort : ∀ e ∈ Endpoint.fixed, e.1.length < 41 := by decide
    rw [List.lookup_eq_none_iff]
    intro e he
    rw [bne_iff_ne]
    intro heq
    have hlt := hshort e he
    rw [← heq, List.length_append, hlength] at hlt
    exact absurd hlt (by decide)
  have hstart : Text.startsWith (Text.ofString "/reviews/" ++ id) "/reviews/" = true :=
    List.isPrefixOf_iff_prefix.2 (List.prefix_append _ _)
  have hdrop : (Text.ofString "/reviews/" ++ id).drop "/reviews/".length = id :=
    List.drop_left' (by decide)
  rw [Endpoint.ofPath?]
  simp only [hlast, if_false, hfixed, hdrop, Option.none_or, hstart, if_true]
  simp [hne, hslash]

theorem resolved_review {id : Text} (hlength : id.length = 32) (hslash : Path.slash ∉ id) :
    Path.resolved ("/reviews/" ++ id) = "/reviews/" ++ id := by
  have hreviews : Path.slash ∉ Text.ofString "reviews" := by decide
  have hpath : Text.ofString "/reviews/" ++ id =
      [] ++ Path.slash :: (Text.ofString "reviews" ++ Path.slash :: id) := rfl
  have hplain : Path.IsPlain id := by
    constructor
    · rintro rfl
      cases hlength
    · rintro rfl
      cases hlength
  rw [hpath]
  apply Path.resolved_of_isPlain (by simp)
  rw [Path.segments_append List.not_mem_nil, Path.segments_append hreviews,
    Path.segments_of_notMem hslash]
  simp only [List.forall_mem_cons]
  exact ⟨⟨by decide, by decide⟩, ⟨by decide, by decide⟩, hplain, List.forall_mem_nil _⟩

/-- The path of a stored review leads to it. -/
theorem ofRequest?_review {id : Text} (h : Session.IsHexId id) :
    Endpoint.ofRequest? ("/reviews/" ++ id) = some (.review id) := by
  obtain ⟨cs, rfl, hcs⟩ := exists_digits_of_isHexId h
  have hslash : Path.slash ∉ cs.map Symbol.char := by
    intro hmem
    obtain ⟨c, hc, hslash⟩ := List.mem_map.1 hmem
    exact (isLiteral_of_isDigit (hcs c hc)).2.1 (Symbol.char.inj hslash)
  have hend : (cs.map Symbol.char).getLast? ≠ some (.char '\n') := by
    intro hlast
    obtain ⟨c, hc, hend⟩ := List.mem_map.1 (List.mem_of_getLast? hlast)
    exact (isLiteral_of_isDigit (hcs c hc)).2.2 (Symbol.char.inj hend)
  have hpath : Text.ofString "/reviews/" ++ cs.map .char =
      ("/reviews/".toList ++ cs).map Symbol.char := List.map_append.symm
  have hstart : "/reviews/".toList.all (fun c => decide (Path.IsLiteral c)) = true := by decide
  have hliteral : ∀ c ∈ "/reviews/".toList ++ cs, Path.IsLiteral c := by
    rw [List.forall_mem_append]
    refine ⟨fun c hc => ?_, fun c hc => (isLiteral_of_isDigit (hcs c hc)).1⟩
    exact of_decide_eq_true (List.all_eq_true.1 hstart c hc)
  rw [Endpoint.ofRequest?, hpath, Path.withoutQuery_of_isLiteral hliteral, ← hpath,
    resolved_review h.1 hslash, hpath, Path.decoded_of_isLiteral hliteral, ← hpath,
    ofPath?_review h.1 hslash hend]
  rfl

end Service

end ScriptReview
