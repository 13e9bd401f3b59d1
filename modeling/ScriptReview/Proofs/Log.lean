import ScriptReview.Archive
import ScriptReview.Proofs.Outcome
import ScriptReview.Proofs.Records

namespace ScriptReview

namespace Json

def IsPrinted (s : Symbol) : Prop := 0x20 ≤ s.code

instance (s : Symbol) : Decidable (IsPrinted s) := inferInstanceAs (Decidable (0x20 ≤ s.code))

theorem isPrinted_control : ∀ n < 0x20,
    ∀ s ∈ Text.ofString "\\u00" ++ (Hex.digits 2 n).map Symbol.char, IsPrinted s := by
  decide

theorem isPrinted_escaped (s : Symbol) : ∀ u ∈ escaped s, IsPrinted u := by
  cases s with
  | surrogate n =>
      simp only [escaped, List.forall_mem_singleton, IsPrinted, Symbol.code]
      omega
  | char c =>
      simp only [escaped]
      split_ifs with hq hb h8 h9 hA hC hD hlow
      · decide
      · decide
      · decide
      · decide
      · decide
      · decide
      · decide
      · exact isPrinted_control _ hlow
      · rw [List.forall_mem_singleton]
        exact Nat.not_lt.1 hlow

theorem isPrinted_writtenString (t : Text) : ∀ s ∈ writtenString t, IsPrinted s := by
  rw [writtenString, List.forall_mem_append, List.forall_mem_append]
  refine ⟨⟨by decide, fun s hs => ?_⟩, by decide⟩
  obtain ⟨u, -, hu⟩ := List.mem_flatMap.1 hs
  exact isPrinted_escaped u s hu

theorem isPrinted_of_isDigit {s : Symbol} (hs : Decimal.isDigit s = true) : IsPrinted s := by
  cases s with
  | surrogate n => cases hs
  | char c =>
      have hdigit : 48 ≤ c.toNat ∧ c.toNat ≤ 57 := by
        simpa [Decimal.isDigit, Symbol.satisfies, Char.isDigit, UInt32.le_iff_toNat_le] using hs
      exact Nat.le_trans (by omega) hdigit.1

theorem isPrinted_number (n : Int) : ∀ s ∈ Text.number n, IsPrinted s := by
  rw [number_eq, List.forall_mem_append]
  constructor
  · rw [minus]
    split_ifs <;> decide
  · exact fun s hs => isPrinted_of_isDigit (isDigit_digits hs)

theorem isPrinted_compactItems {js : List Json} (h : ∀ j ∈ js, ∀ s ∈ compact j, IsPrinted s) :
    ∀ s ∈ compactItems js, IsPrinted s := by
  induction js with
  | nil => exact nofun
  | cons j js ih =>
      rw [List.forall_mem_cons] at h
      cases js with
      | nil => exact h.1
      | cons j' js =>
          rw [compactItems_cons, List.forall_mem_append, List.forall_mem_cons]
          exact ⟨h.1, by decide, ih h.2⟩

theorem isPrinted_compactFields {fs : List (Text × Json)}
    (h : ∀ f ∈ fs, ∀ s ∈ compact f.2, IsPrinted s) : ∀ s ∈ compactFields fs, IsPrinted s := by
  induction fs with
  | nil => exact nofun
  | cons f fs ih =>
      rw [List.forall_mem_cons] at h
      cases fs with
      | nil =>
          rw [compactFields_singleton, List.forall_mem_append, List.forall_mem_cons]
          exact ⟨isPrinted_writtenString _, by decide, h.1⟩
      | cons f' fs =>
          rw [compactFields_cons, List.forall_mem_append, List.forall_mem_cons,
            List.forall_mem_append, List.forall_mem_cons]
          exact ⟨isPrinted_writtenString _, by decide, h.1, by decide, ih h.2⟩

theorem Regular.isPrinted_compact {depth : Nat} {j : Json} (h : Regular depth j) :
    ∀ s ∈ compact j, IsPrinted s := by
  induction h with
  | null => decide
  | bool b => cases b <;> decide
  | int n => exact isPrinted_number n
  | real hx =>
      obtain ⟨n, fraction, -, hdigits, hwritten, -⟩ := hx
      rw [compact, hwritten, List.forall_mem_append, List.forall_mem_append]
      have hwhole : ∀ s ∈ digits n, IsPrinted s := fun s hs =>
        isPrinted_of_isDigit (isDigit_digits hs)
      exact ⟨⟨hwhole, by decide⟩, fun s hs => isPrinted_of_isDigit (hdigits s hs)⟩
  | string t => exact isPrinted_writtenString t
  | array _ ih =>
      rw [compact, List.forall_mem_append, List.forall_mem_append]
      exact ⟨⟨by decide, isPrinted_compactItems ih⟩, by decide⟩
  | object _ _ ih =>
      rw [compact, List.forall_mem_append, List.forall_mem_append]
      exact ⟨⟨by decide, isPrinted_compactFields ih⟩, by decide⟩

end Json

namespace Text

theorem pieces_append {line : Text} (h : ∀ s ∈ line, s.isNewline = false) (rest : Text) :
    (line ++ .char '\n' :: rest).pieces = line :: rest.pieces := by
  induction line with
  | nil => rfl
  | cons s line ih =>
      rw [List.forall_mem_cons] at h
      rw [List.cons_append, pieces, if_neg (by simp [h.1]), ih h.2]

theorem strip_of_ends {first last : Symbol} (hfirst : first.isBlank = false)
    (hlast : last.isBlank = false) (t : Text) :
    strip (first :: (t ++ [last])) = first :: (t ++ [last]) := by
  simp [strip, hfirst, hlast]

end Text

namespace Review

structure IsStorable (r : Review) : Prop where
  plain : r.IsPlain
  integers : r.toJson.integersWithin Json.Limits.standard.digits = true

theorem isNewline_written {r : Review} (h : r.IsPlain) : ∀ s ∈ r.written, s.isNewline = false := by
  intro s hs
  have hregular : Json.Regular 6 r.toJson := regular_toJson h
  have hcode : 0x20 ≤ s.code := hregular.isPrinted_compact s hs
  simp only [Symbol.isNewline, Bool.or_eq_false_iff, beq_eq_false_iff_ne]
  omega

theorem strip_written (r : Review) : r.written.strip = r.written :=
  Text.strip_of_ends (by decide) (by decide) _

theorem parse_written {limits : Json.Limits} {r : Review} (h : r.IsPlain)
    (hdepth : 6 ≤ limits.depth) :
    Json.parse limits r.written =
      Json.limited limits (r.toJson.overlong? limits.digits) r.toJson := by
  obtain ⟨depth, hd⟩ : ∃ depth, limits.depth = depth + 6 := ⟨limits.depth - 6, by omega⟩
  have hregular : Json.Regular limits.depth r.toJson := hd ▸ regular_toJson h
  exact Json.parse_compact hregular

theorem overlong?_eq_none_iff {r : Review} (h : r.IsPlain) {limit : Nat} :
    r.toJson.overlong? limit = none ↔ r.toJson.integersWithin limit = true := by
  have hregular : Json.Regular 6 r.toJson := regular_toJson h
  exact hregular.overlong?_eq_none_iff

end Review

namespace Archive

def readLineWithin (limits : Json.Limits) (line : Text) : Except Json.ReadError (Option Review) :=
  match Json.parse limits line.strip with
  | .ok j => .ok (Review.decode j).toOption
  | .error .malformed => .ok none
  | .error e => .error e

def readLogWithin (limits : Json.Limits) (contents : Text) :
    Except Json.ReadError (List Review) := do
  let found ← contents.pieces.mapM (readLineWithin limits)
  return found.filterMap id

theorem readLogWithin_standard (contents : Text) :
    readLogWithin .standard contents = readLog contents := rfl

/-- A written review is read back, unless one of its integers is too long. -/
theorem readLineWithin_written {limits : Json.Limits} {r : Review} (h : r.IsPlain)
    (hdepth : 6 ≤ limits.depth) :
    readLineWithin limits r.written =
      Json.limited limits (r.toJson.overlong? limits.digits) (some r) := by
  rw [readLineWithin, r.strip_written, Review.parse_written h hdepth]
  cases r.toJson.overlong? limits.digits with
  | some d => rfl
  | none => simp only [Json.limited, Review.decode_toJson h, Checked.toOption_valid]

def logOf (rs : List Review) : Text :=
  rs.flatMap fun r => r.written ++ "\n"

theorem logOf_append (rs : List Review) (r : Review) :
    logOf (rs ++ [r]) = logOf rs ++ r.written ++ "\n" := by
  simp [logOf]

theorem pieces_logOf {rs : List Review} (h : ∀ r ∈ rs, r.IsPlain) :
    (logOf rs).pieces = rs.map Review.written ++ [[]] := by
  induction rs with
  | nil => rfl
  | cons r rs ih =>
      rw [List.forall_mem_cons] at h
      have hlog : logOf (r :: rs) = r.written ++ .char '\n' :: logOf rs := by
        rw [logOf, List.flatMap_cons, List.append_assoc]
        rfl
      rw [hlog, Text.pieces_append (Review.isNewline_written h.1), ih h.2]
      rfl

/-- The number of digits of the first integer in the reviews that has more than `limit` digits. -/
def overlong? (limit : Nat) (rs : List Review) : Option Nat :=
  Json.overlongItem? limit (rs.map Review.toJson)

theorem overlong?_cons (limit : Nat) (r : Review) (rs : List Review) :
    overlong? limit (r :: rs) = (r.toJson.overlong? limit).or (overlong? limit rs) := by
  rw [overlong?, List.map_cons, Json.overlongItem?]
  rfl

theorem overlong?_eq_none_iff {limit : Nat} {rs : List Review} (h : ∀ r ∈ rs, r.IsPlain) :
    overlong? limit rs = none ↔ ∀ r ∈ rs, r.toJson.integersWithin limit = true := by
  rw [overlong?, Json.overlongItem?_eq_none_iff, List.forall_mem_map]
  exact forall₂_congr fun r hr => Review.overlong?_eq_none_iff (h r hr)

theorem mapM_readLineWithin {limits : Json.Limits} {rs : List Review} (h : ∀ r ∈ rs, r.IsPlain)
    (hdepth : 6 ≤ limits.depth) :
    (rs.map Review.written ++ [[]]).mapM (readLineWithin limits) =
      Json.limited limits (overlong? limits.digits rs) (rs.map some ++ [none]) := by
  induction rs with
  | nil => rfl
  | cons r rs ih =>
      rw [List.forall_mem_cons] at h
      rw [List.map_cons, List.cons_append, List.mapM_cons, readLineWithin_written h.1 hdepth,
        ih h.2, overlong?_cons]
      cases r.toJson.overlong? limits.digits with
      | some d => rfl
      | none => cases overlong? limits.digits rs <;> rfl

/-- The log of reviews is read as these reviews, unless one of their integers is too long. -/
theorem readLogWithin_logOf {limits : Json.Limits} {rs : List Review} (h : ∀ r ∈ rs, r.IsPlain)
    (hdepth : 6 ≤ limits.depth) :
    readLogWithin limits (logOf rs) = Json.limited limits (overlong? limits.digits rs) rs := by
  rw [readLogWithin, pieces_logOf h, mapM_readLineWithin h hdepth]
  cases overlong? limits.digits rs with
  | some d => rfl
  | none => simp [Json.limited]

theorem readLog_logOf {rs : List Review} (h : ∀ r ∈ rs, r.IsPlain) :
    readLog (logOf rs) = Json.limited .standard (overlong? Json.Limits.standard.digits rs) rs := by
  rw [← readLogWithin_standard]
  exact readLogWithin_logOf h (by decide)

end Archive

end ScriptReview
