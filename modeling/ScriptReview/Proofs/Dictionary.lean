import Mathlib.Data.List.Nodup
import ScriptReview.Dictionary
import ScriptReview.Text.Utf8

namespace ScriptReview

namespace Entries

variable {α : Type}

theorem insert_of_notMem {key : Text} {value : α} {es : List (Text × α)}
    (h : key ∉ es.map Prod.fst) : insert key value es = es ++ [(key, value)] := by
  induction es with
  | nil => rfl
  | cons e es ih =>
      rw [List.map_cons, List.mem_cons, not_or] at h
      rw [insert, if_neg (Ne.symm h.1), ih h.2]
      rfl

theorem foldl_insert {es : List (Text × α)} (acc : List (Text × α))
    (h : ((acc ++ es).map Prod.fst).Nodup) :
    es.foldl (fun acc e => insert e.1 e.2 acc) acc = acc ++ es := by
  induction es generalizing acc with
  | nil => simp
  | cons e es ih =>
      have hmem : e.1 ∉ acc.map Prod.fst := by
        rw [List.map_append, List.map_cons, List.nodup_append] at h
        exact fun hacc => h.2.2 _ hacc _ (.head _) rfl
      rw [List.foldl_cons, insert_of_notMem hmem, ih, List.append_assoc]
      · rfl
      · simpa using h

theorem joined_of_nodup {es : List (Text × α)} (h : (es.map Prod.fst).Nodup) : joined es = es :=
  foldl_insert [] h

theorem mem_insert {key : Text} {value : α} {es : List (Text × α)} {e : Text × α}
    (h : e ∈ insert key value es) : e = (key, value) ∨ e ∈ es := by
  induction es with
  | nil => exact .inl (List.mem_singleton.1 h)
  | cons f es ih =>
      rw [insert] at h
      split_ifs at h with hkey
      · rcases List.mem_cons.1 h with h | h
        · exact .inl (by rw [h, hkey])
        · exact .inr (.tail _ h)
      · rcases List.mem_cons.1 h with h | h
        · exact .inr (by rw [h]; exact .head _)
        · exact (ih h).imp id (.tail _)

theorem mem_foldl_insert {es acc : List (Text × α)} {e : Text × α}
    (h : e ∈ es.foldl (fun acc e => insert e.1 e.2 acc) acc) : e ∈ acc ∨ e ∈ es := by
  induction es generalizing acc with
  | nil => exact .inl h
  | cons f es ih =>
      rcases ih h with h | h
      · rcases mem_insert h with h | h
        · exact .inr (by rw [h]; exact .head _)
        · exact .inl h
      · exact .inr (.tail _ h)

theorem mem_of_mem_joined {es : List (Text × α)} {e : Text × α} (h : e ∈ joined es) : e ∈ es :=
  (mem_foldl_insert h).resolve_left (List.not_mem_nil)

end Entries

theorem Text.patched_of_isScalar {t : Text} (h : t.isScalar = true) : t.patched = t := by
  induction t with
  | nil => rfl
  | cons s t ih =>
      rw [isScalar, List.all_cons, Bool.and_eq_true] at h
      rw [patched, List.flatMap_cons, if_pos h.1]
      exact congrArg _ (ih h.2)

namespace Dictionary

variable {α : Type}

theorem ext_entries {d e : Dictionary α} (h : d.entries = e.entries) : d = e := by
  cases d
  cases e
  cases h
  rfl

theorem ofList_entries (d : Dictionary α) : ofList d.entries = d :=
  ext_entries (Entries.joined_of_nodup d.distinct)

theorem renamed_patched (d : Dictionary α) (h : ∀ e ∈ d.entries, e.1.isScalar = true) :
    d.renamed Text.patched = d := by
  have hentries : (d.entries.map fun e => (e.1.patched, e.2)) = d.entries := by
    conv_rhs => rw [← List.map_id d.entries]
    refine List.map_congr_left fun e he => ?_
    rw [Text.patched_of_isScalar (h e he)]
    rfl
  rw [renamed, hentries, ofList_entries]

end Dictionary

end ScriptReview
