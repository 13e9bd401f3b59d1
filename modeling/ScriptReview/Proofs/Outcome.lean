import Mathlib.Data.List.Forall2

namespace ScriptReview

variable {ε ε' α β : Type}

@[simp] theorem ok_bind (a : α) (f : α → Except ε β) : (Except.ok a >>= f) = f a := rfl

@[simp] theorem error_bind (e : ε) (f : α → Except ε β) :
    (Except.error e >>= f) = (Except.error e : Except ε β) := rfl

@[simp] theorem pure_eq_ok (a : α) : (pure a : Except ε α) = .ok a := rfl

@[simp] theorem mapError_ok (f : ε → ε') (a : α) :
    Except.mapError f (.ok a : Except ε α) = .ok a := rfl

@[simp] theorem mapError_error (f : ε → ε') (e : ε) :
    Except.mapError f (.error e : Except ε α) = .error (f e) := rfl

/-- A sequence of two steps succeeds with both of them. -/
theorem bind_eq_ok_iff {x : Except ε α} {f : α → Except ε β} {b : β} :
    (x >>= f) = .ok b ↔ ∃ a, x = .ok a ∧ f a = .ok b := by
  cases x with
  | error e => simp
  | ok a => simp

theorem mapError_eq_ok_iff {f : ε → ε'} {x : Except ε α} {a : α} :
    x.mapError f = .ok a ↔ x = .ok a := by
  cases x with
  | error e => simp
  | ok a => simp

theorem mapM_eq_ok {f : α → Except ε β} {g : α → β} {xs : List α}
    (h : ∀ x ∈ xs, f x = .ok (g x)) : xs.mapM f = .ok (xs.map g) := by
  induction xs with
  | nil => rfl
  | cons x xs ih =>
      rw [List.mapM_cons, h x List.mem_cons_self, ih fun y hy => h y (List.mem_cons_of_mem x hy)]
      rfl

theorem mapM_singleton (f : α → Except ε β) (x : α) :
    [x].mapM f = (f x).map fun y => [y] := by
  rw [List.mapM_cons, List.mapM_nil]
  cases f x <;> rfl

theorem forall₂_of_mapM_eq_ok {f : α → Except ε β} {xs : List α} {ys : List β}
    (h : xs.mapM f = .ok ys) : List.Forall₂ (fun x y => f x = .ok y) xs ys := by
  induction xs generalizing ys with
  | nil =>
      cases h
      exact .nil
  | cons x xs ih =>
      rw [List.mapM_cons] at h
      obtain ⟨y, hy, h⟩ := bind_eq_ok_iff.mp h
      obtain ⟨rest, hrest, h⟩ := bind_eq_ok_iff.mp h
      cases h
      exact .cons hy (ih hrest)

theorem mapM_eq_ok_of_forall₂ {f : α → Except ε β} {xs : List α} {ys : List β}
    (h : List.Forall₂ (fun x y => f x = .ok y) xs ys) : xs.mapM f = .ok ys := by
  induction h with
  | nil => rfl
  | cons hxy _ ih =>
      rw [List.mapM_cons, hxy, ih]
      rfl

/-- A list is handled as a whole, or one of its members fails and the list fails with it. -/
theorem mapM_cases (f : α → Except ε β) (xs : List α) :
    (∃ ys, xs.mapM f = .ok ys) ∨ ∃ x ∈ xs, ∃ e, f x = .error e ∧ xs.mapM f = .error e := by
  induction xs with
  | nil => exact .inl ⟨[], rfl⟩
  | cons x xs ih =>
      rw [List.mapM_cons]
      cases hx : f x with
      | error e => exact .inr ⟨x, List.mem_cons_self, e, hx, rfl⟩
      | ok y =>
          rcases ih with ⟨ys, hys⟩ | ⟨z, hz, e, hze, hxs⟩
          · exact .inl ⟨y :: ys, by rw [hys]; rfl⟩
          · exact .inr ⟨z, List.mem_cons_of_mem x hz, e, hze, by rw [hxs]; rfl⟩

theorem forall_mem_of_mapM {f : α → Except ε β} {q : β → Prop} {xs : List α}
    {ys : List β} (h : xs.mapM f = .ok ys) (hq : ∀ x ∈ xs, ∀ y, f x = .ok y → q y) :
    ∀ y ∈ ys, q y := by
  induction xs generalizing ys with
  | nil =>
      cases h
      exact List.forall_mem_nil _
  | cons x xs ih =>
      rw [List.forall_mem_cons] at hq
      rw [List.mapM_cons] at h
      obtain ⟨y, hy, h⟩ := bind_eq_ok_iff.1 h
      obtain ⟨rest, hrest, h⟩ := bind_eq_ok_iff.1 h
      cases h
      exact List.forall_mem_cons.2 ⟨hq.1 y hy, ih hrest hq.2⟩

theorem forM_eq_ok {f : α → Except ε Unit} {xs : List α} (h : ∀ x ∈ xs, f x = .ok ()) :
    xs.forM f = .ok () := by
  induction xs with
  | nil => rfl
  | cons x xs ih =>
      rw [List.forall_mem_cons] at h
      rw [List.forM, h.1, ok_bind, ih h.2]

theorem forM_eq_error {f : α → Except ε Unit} {before after : List α} {x : α} {e : ε}
    (hbefore : ∀ y ∈ before, f y = .ok ()) (hx : f x = .error e) :
    (before ++ x :: after).forM f = .error e := by
  induction before with
  | nil => rw [List.nil_append, List.forM, hx, error_bind]
  | cons y before ih =>
      rw [List.forall_mem_cons] at hbefore
      rw [List.cons_append, List.forM, hbefore.1, ok_bind, ih hbefore.2]

/-- Every member is passed, or there is a first one that is not. -/
theorem forall_ok_or_first_error (f : α → Except ε Unit) (xs : List α) :
    (∀ x ∈ xs, f x = .ok ()) ∨ ∃ before x after e, xs = before ++ x :: after ∧
      (∀ y ∈ before, f y = .ok ()) ∧ f x = .error e := by
  induction xs with
  | nil => exact .inl (List.forall_mem_nil _)
  | cons x xs ih =>
      cases hx : f x with
      | error e => exact .inr ⟨[], x, xs, e, rfl, List.forall_mem_nil _, hx⟩
      | ok _ =>
          rcases ih with hxs | ⟨before, y, after, e, rfl, hbefore, hy⟩
          · exact .inl (List.forall_mem_cons.2 ⟨hx, hxs⟩)
          · exact .inr ⟨x :: before, y, after, e, rfl, List.forall_mem_cons.2 ⟨hx, hbefore⟩, hy⟩

theorem exists_mem_iff_of_forall₂ {R : α → β → Prop} {p : α → Prop} {q : β → Prop}
    (hpq : ∀ x y, R x y → (p x ↔ q y)) {xs : List α} {ys : List β} (h : List.Forall₂ R xs ys) :
    (∃ x ∈ xs, p x) ↔ ∃ y ∈ ys, q y := by
  induction h with
  | nil => simp
  | cons hxy _ ih => simp [hpq _ _ hxy, ih]

end ScriptReview
