import Mathlib.Data.List.Basic
import ScriptReview.Json.Decoder
import ScriptReview.Proofs.Dictionary

namespace ScriptReview

namespace Checked

variable {α β : Type}

@[simp] theorem map_valid (f : α → β) (a : α) : f <$> valid a = valid (f a) := rfl

@[simp] theorem seq_valid (f : α → β) (a : α) : valid f <*> valid a = valid (f a) := rfl

@[simp] theorem under_valid (s : PathStep) (a : α) : (valid a).under s = valid a := rfl

@[simp] theorem andThen_valid (a : α) (f : α → Checked β) : (valid a).andThen f = f a := rfl

@[simp] theorem toOption_valid (a : α) : (valid a).toOption = some a := rfl

end Checked

namespace Text

theorem ofString_injective : Function.Injective ofString := by
  intro s t h
  have hchar : Function.Injective Symbol.char := fun c d h => by cases h; rfl
  exact String.toList_inj.1 (List.map_injective_iff.2 hchar h)

@[simp] theorem ofString_inj {s t : String} : ofString s = ofString t ↔ s = t :=
  ofString_injective.eq_iff

@[simp] theorem ofString_beq (s t : String) : (ofString s == ofString t) = (s == t) := by
  rw [Bool.eq_iff_iff, beq_iff_eq, beq_iff_eq, ofString_inj]

theorem chars?_map (cs : List Char) : chars? (cs.map .char) = some cs := by
  induction cs with
  | nil => rfl
  | cons c cs ih =>
      rw [List.map_cons, chars?, ih]
      rfl

@[simp] theorem chars?_ofString (s : String) : (ofString s).chars? = some s.toList :=
  chars?_map s.toList

@[simp] theorem isScalar_ofString (s : String) : (ofString s).isScalar = true := by
  simp [isScalar, ofString, Symbol.isScalar]

end Text

def Json.recordFields (fs : List (String × Json)) : Json.Fields :=
  fs.map fun f => (Text.ofString f.1, f.2)

namespace Decoder

variable {α : Type}

@[simp] theorem get?_recordFields (fs : List (String × Json)) (key : String) :
    (Json.recordFields fs).get? key = fs.lookup key := by
  induction fs with
  | nil => rfl
  | cons f fs ih =>
      change List.lookup _ (_ :: _) = List.lookup _ (_ :: _)
      rw [List.lookup_cons, List.lookup_cons, Text.ofString_beq]
      cases key == f.1 with
      | true => rfl
      | false => exact ih

@[simp] theorem model_record (name : String) (d : Json.Fields → Checked α)
    (fs : List (String × Json)) : model name d (.record fs) = d (Json.recordFields fs) := rfl

@[simp] theorem fields_record (mismatch : FaultKind)
    (d : Json.Fields → Checked α) (fs : List (String × Json)) :
    fields mismatch d (.record fs) = d (Json.recordFields fs) := rfl

theorem required_record {key : String} {d : Decoder α} {fs : List (String × Json)} {j : Json}
    {a : α} (h : fs.lookup key = some j) (hd : d j = .valid a) :
    required key d (Json.recordFields fs) = .valid a := by
  simp [required, h, hd]

theorem withDefault_record {key : String} {d : Decoder α} {a' : α} {fs : List (String × Json)}
    {j : Json} {a : α} (h : fs.lookup key = some j) (hd : d j = .valid a) :
    withDefault key d a' (Json.recordFields fs) = .valid a := by
  simp [withDefault, h, hd]

@[simp] theorem text_string (t : Text) : text (.string t) = .valid t := rfl

@[simp] theorem int_int (n : Int) : int (.int n) = .valid n := rfl

@[simp] theorem nat_int (n : Nat) : nat (.int n) = .valid n := by
  have hn : ¬(n : Int) < 0 := by omega
  simp [nat, hn]

@[simp] theorem natUpTo_int {bound : Nat} (n : Fin (bound + 1)) :
    natUpTo bound (.int n.val) = .valid n := by
  rw [natUpTo, nat_int, Checked.andThen_valid, dif_pos n.isLt]

@[simp] theorem bool_bool (b : Bool) : bool (.bool b) = .valid b := rfl

@[simp] theorem real_real (x : Binary64) : real (.real x) = .valid x := rfl

theorem member_string {values : List (String × α)} {name : String} {a : α}
    (h : values.lookup name = some a) : member values (.string name) = .valid a := by
  simp [member, reading, h]

theorem optional_ofOption {d : Decoder α} {f : α → Json} {o : Option α}
    (h : ∀ a ∈ o, f a ≠ .null ∧ d (f a) = .valid a) :
    optional d (.ofOption f o) = .valid o := by
  cases o with
  | none => rfl
  | some a =>
      obtain ⟨hnull, hd⟩ := h a rfl
      have hsome : optional d (f a) = some <$> d (f a) := by
        unfold optional
        split
        · rename_i heq
          exact absurd heq hnull
        · rfl
      exact hsome.trans (by rw [hd]; rfl)

theorem itemsFrom_map {d : Decoder α} {f : α → Json} {as : List α}
    (h : ∀ a ∈ as, d (f a) = .valid a) (i : Nat) : itemsFrom d i (as.map f) = .valid as := by
  induction as generalizing i with
  | nil => rfl
  | cons a as ih =>
      rw [List.map_cons, itemsFrom, h a (.head _), ih fun b hb => h b (.tail _ hb)]
      rfl

theorem list_array {d : Decoder α} {f : α → Json} {as : List α}
    (h : ∀ a ∈ as, d (f a) = .valid a) : list d (.array (as.map f)) = .valid as :=
  itemsFrom_map h 0

@[simp] theorem list_texts (ts : List Text) : list text (.texts ts) = .valid ts :=
  list_array fun t _ => text_string t

theorem entries_map {d : Decoder α} {f : α → Json} {es : List (Text × α)}
    (h : ∀ e ∈ es, d (f e.2) = .valid e.2) :
    entries d (es.map fun e => (e.1, f e.2)) = .valid es := by
  induction es with
  | nil => rfl
  | cons e es ih =>
      rw [List.map_cons, entries, h e (.head _), ih fun b hb => h b (.tail _ hb)]
      rfl

theorem dictionary_dictionary {d : Decoder α} {f : α → Json} {es : Dictionary α}
    (hscalar : ∀ e ∈ es.entries, e.1.isScalar = true)
    (h : ∀ e ∈ es.entries, d (f e.2) = .valid e.2) :
    dictionary d (.dictionary f es) = .valid es := by
  rw [Json.dictionary, es.renamed_patched hscalar, dictionary, entries_map h, Checked.map_valid,
    es.ofList_entries]

end Decoder

end ScriptReview
