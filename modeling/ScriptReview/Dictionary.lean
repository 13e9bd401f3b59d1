import ScriptReview.Text.Basic

namespace ScriptReview

namespace Entries

variable {α : Type}

/-- A later value of a name replaces the earlier one in place. -/
def insert (key : Text) (value : α) : List (Text × α) → List (Text × α)
  | [] => [(key, value)]
  | (k, v) :: rest => if k = key then (k, value) :: rest else (k, v) :: insert key value rest

theorem mem_keys_insert {k key : Text} {value : α} {es : List (Text × α)} :
    k ∈ (insert key value es).map Prod.fst ↔ k = key ∨ k ∈ es.map Prod.fst := by
  induction es with
  | nil => simp [insert]
  | cons e es ih =>
    rw [insert]
    split
    · rename_i h
      simp [← h]
    · simp only [List.map_cons, List.mem_cons, ih]
      exact or_left_comm

theorem nodup_keys_insert {key : Text} {value : α} {es : List (Text × α)}
    (h : (es.map Prod.fst).Nodup) : ((insert key value es).map Prod.fst).Nodup := by
  induction es with
  | nil => simp [insert]
  | cons e es ih =>
    rw [List.map_cons, List.nodup_cons] at h
    rw [insert]
    split
    · simpa using h
    · rename_i hne
      rw [List.map_cons, List.nodup_cons]
      refine ⟨fun hmem => ?_, ih h.2⟩
      rcases mem_keys_insert.1 hmem with heq | hmem
      · exact hne heq
      · exact h.1 hmem

def joined (es : List (Text × α)) : List (Text × α) :=
  es.foldl (fun acc e => insert e.1 e.2 acc) []

theorem nodup_keys_foldl (es : List (Text × α)) {acc : List (Text × α)}
    (h : (acc.map Prod.fst).Nodup) :
    ((es.foldl (fun acc e => insert e.1 e.2 acc) acc).map Prod.fst).Nodup := by
  induction es generalizing acc with
  | nil => exact h
  | cons e es ih => exact ih (nodup_keys_insert h)

end Entries

structure Dictionary (α : Type) where
  entries : List (Text × α)
  distinct : (entries.map Prod.fst).Nodup
  deriving DecidableEq

namespace Dictionary

variable {α : Type}

def empty : Dictionary α := ⟨[], by simp⟩

def ofList (es : List (Text × α)) : Dictionary α :=
  ⟨Entries.joined es, Entries.nodup_keys_foldl es (by simp)⟩

/-- The same values under other names. Names that become equal are joined. -/
def renamed (f : Text → Text) (d : Dictionary α) : Dictionary α :=
  ofList (d.entries.map fun e => (f e.1, e.2))

end Dictionary

end ScriptReview
