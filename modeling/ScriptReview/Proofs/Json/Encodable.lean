import ScriptReview.Proofs.Json.Decoding
import ScriptReview.Proofs.Json.RoundTrip
import ScriptReview.Proofs.Scores

namespace ScriptReview

namespace Text

@[simp] theorem isScalar_nil : isScalar [] = true := rfl

theorem isScalar_cons (s : Symbol) (t : Text) : isScalar (s :: t) = (s.isScalar && t.isScalar) :=
  List.all_cons

theorem isScalar_singleton (s : Symbol) : isScalar [s] = s.isScalar :=
  Bool.and_true _

theorem isScalar_map_char (cs : List Char) : isScalar (cs.map .char) = true := by
  simp [isScalar, Symbol.isScalar]

@[simp] theorem isScalar_number (n : Int) : (number n).isScalar = true :=
  isScalar_ofString _

@[simp] theorem isScalar_cited (t : Text) : t.cited.isScalar = t.isScalar := by
  simp [cited, isScalar_append]

theorem isScalar_of_sublist {t u : Text} (h : t.Sublist u) (hu : u.isScalar = true) :
    t.isScalar = true := by
  rw [isScalar, List.all_eq_true] at hu ⊢
  exact fun s hs => hu s (h.subset hs)

theorem isScalar_patched (t : Text) : t.patched.isScalar = true := by
  rw [isScalar, List.all_eq_true]
  intro s hs
  obtain ⟨u, -, hu⟩ := List.mem_flatMap.1 hs
  split_ifs at hu with h
  · rwa [List.mem_singleton.1 hu]
  · rw [List.eq_of_mem_replicate hu]
    rfl

end Text

namespace Utf8

theorem isScalar_start (b : Nat) : (start b).1.isScalar = true := by
  unfold start
  split_ifs <;> rfl

theorem isScalar_step (p : Option Pending) (b : Nat) : (step p b).1.isScalar = true := by
  cases p with
  | none => exact isScalar_start b
  | some p =>
      rw [step]
      split_ifs
      · rfl
      · rfl
      · exact isScalar_start b

theorem isScalar_decodeFrom (p : Option Pending) (octets : List UInt8) :
    (decodeFrom p octets).isScalar = true := by
  induction octets generalizing p with
  | nil => cases p <;> rfl
  | cons b octets ih =>
      rw [decodeFrom, Text.isScalar_append, isScalar_step, ih]
      rfl

@[simp] theorem isScalar_decode (octets : List UInt8) : (decode octets).isScalar = true :=
  isScalar_decodeFrom none octets

end Utf8

namespace Json

theorem areScalar_iff {js : List Json} : areScalar js = true ↔ ∀ j ∈ js, j.isScalar = true := by
  induction js with
  | nil => simp [areScalar]
  | cons j js ih => simp [areScalar, ih]

theorem fieldsScalar_iff {fs : List (Text × Json)} :
    fieldsScalar fs = true ↔ ∀ f ∈ fs, f.1.isScalar = true ∧ f.2.isScalar = true := by
  induction fs with
  | nil => simp [fieldsScalar]
  | cons f fs ih => simp [fieldsScalar, ih, and_assoc]

theorem isScalar_record {fs : List (String × Json)} :
    (record fs).isScalar = true ↔ ∀ f ∈ fs, f.2.isScalar = true := by
  rw [record, isScalar, fieldsScalar_iff, List.forall_mem_map]
  simp

theorem isScalar_array_map {α : Type} {f : α → Json} {as : List α} :
    (array (as.map f)).isScalar = true ↔ ∀ a ∈ as, (f a).isScalar = true := by
  rw [isScalar, areScalar_iff, List.forall_mem_map]

theorem isScalar_texts {ts : List Text} :
    (texts ts).isScalar = true ↔ ∀ t ∈ ts, t.isScalar = true :=
  isScalar_array_map

theorem isScalar_ofOption {α : Type} {f : α → Json} {o : Option α} :
    (ofOption f o).isScalar = true ↔ ∀ a ∈ o, (f a).isScalar = true := by
  cases o <;> simp [ofOption, isScalar]

theorem isScalar_dictionary {α : Type} {f : α → Json} (h : ∀ a, (f a).isScalar = true)
    (d : Dictionary α) : (dictionary f d).isScalar = true := by
  rw [dictionary, isScalar, fieldsScalar_iff, List.forall_mem_map]
  intro e he
  obtain ⟨e', -, rfl⟩ := List.mem_map.1 (Entries.mem_of_mem_joined he)
  exact ⟨Text.isScalar_patched _, h _⟩

theorem isScalar_escaped (s : Symbol) : (escaped s).isScalar = s.isScalar := by
  cases s with
  | surrogate u => rfl
  | char c =>
      simp only [escaped]
      split_ifs <;>
        simp [Text.isScalar_append, Text.isScalar_map_char, Text.isScalar_singleton,
          Symbol.isScalar]

theorem isScalar_writtenString (t : Text) : (writtenString t).isScalar = t.isScalar := by
  have hbody : Text.isScalar (t.flatMap escaped) = t.isScalar := by
    induction t with
    | nil => rfl
    | cons s t ih => rw [List.flatMap_cons, Text.isScalar_append, ih, isScalar_escaped,
        Text.isScalar_cons]
  rw [writtenString, Text.isScalar_append, Text.isScalar_append, hbody]
  simp

theorem isScalar_writtenReal (x : Binary64) : (writtenReal x).isScalar = true := by
  cases x with
  | finite q =>
      simp only [writtenReal, Binary64.numeral]
      split_ifs <;> simp [Text.isScalar_append]
  | _ => simp [writtenReal]

mutual

theorem isScalar_compact : ∀ j : Json, (compact j).isScalar = j.isScalar
  | .null => rfl
  | .bool true => rfl
  | .bool false => rfl
  | .int value => Text.isScalar_number value
  | .real value => isScalar_writtenReal value
  | .string value => isScalar_writtenString value
  | .array items => by
      rw [compact, Text.isScalar_append, Text.isScalar_append, isScalar_compactItems items]
      simp [isScalar]
  | .object fields => by
      rw [compact, Text.isScalar_append, Text.isScalar_append, isScalar_compactFields fields]
      simp [isScalar]

theorem isScalar_compactItems : ∀ js : List Json, (compactItems js).isScalar = areScalar js
  | [] => rfl
  | [item] => by
      rw [compactItems, isScalar_compact item]
      simp [areScalar]
  | item :: next :: rest => by
      rw [compactItems_cons, Text.isScalar_append, isScalar_compact item, areScalar,
        Text.isScalar_cons, isScalar_compactItems (next :: rest)]
      rfl

theorem isScalar_compactFields :
    ∀ fs : List (Text × Json), (compactFields fs).isScalar = fieldsScalar fs
  | [] => rfl
  | [(key, value)] => by
      rw [compactFields_singleton, Text.isScalar_append, isScalar_writtenString,
        Text.isScalar_cons, isScalar_compact value]
      simp [fieldsScalar, Symbol.isScalar]
  | (key, value) :: next :: rest => by
      rw [compactFields_cons, Text.isScalar_append, isScalar_writtenString, Text.isScalar_cons,
        Text.isScalar_append, isScalar_compact value, Text.isScalar_cons,
        isScalar_compactFields (next :: rest)]
      simp [fieldsScalar, Symbol.isScalar, Bool.and_assoc]

end

end Json

end ScriptReview
