import ScriptReview.Proofs.Json.RoundTrip
import ScriptReview.Proofs.Outcome

namespace ScriptReview.Json

variable {limits : Limits}

theorem orMalformed_eq_ok {α : Type} {found : Option (α × Text)} {p : α × Text} :
    orMalformed found = .ok p ↔ found = some p := by
  cases found <;> simp [orMalformed]

/-! A reader that finds a value also finds it with more fuel and more depth. -/

def Grows {α : Type} (read : Nat → Nat → Text → Except ReadError α) (fuel : Nat) : Prop :=
  ∀ {fuel' depth depth' : Nat} {t : Text} {p : α}, fuel ≤ fuel' → depth ≤ depth' →
    read fuel depth t = .ok p → read fuel' depth' t = .ok p

theorem grows_value_succ {fuel : Nat} (hitems : Grows (items limits) fuel)
    (hfields : Grows (fields limits) fuel) : Grows (value limits) (fuel + 1) := by
  intro fuel' depth depth' t p hfuel hdepth h
  obtain ⟨fuel', rfl⟩ : ∃ m, fuel' = m + 1 := ⟨fuel' - 1, by omega⟩
  rw [value.eq_def] at h ⊢
  dsimp only at h ⊢
  split at h
  · exact h
  · split at h
    · cases h
    · obtain ⟨depth', rfl⟩ : ∃ m, depth' = m + 1 := ⟨depth' - 1, by omega⟩
      dsimp only
      split at h
      · exact h
      · obtain ⟨q, hq, h⟩ := bind_eq_ok_iff.1 h
        rw [hitems (by omega : fuel ≤ fuel') (by omega : _ ≤ depth') hq]
        exact h
  · split at h
    · cases h
    · obtain ⟨depth', rfl⟩ : ∃ m, depth' = m + 1 := ⟨depth' - 1, by omega⟩
      dsimp only
      split at h
      · exact h
      · obtain ⟨q, hq, h⟩ := bind_eq_ok_iff.1 h
        rw [hfields (by omega : fuel ≤ fuel') (by omega : _ ≤ depth') hq]
        exact h
  · exact h

theorem grows_items_succ {fuel : Nat} (hvalue : Grows (value limits) fuel)
    (hitems : Grows (items limits) fuel) : Grows (items limits) (fuel + 1) := by
  intro fuel' depth depth' t p hfuel hdepth h
  obtain ⟨fuel', rfl⟩ : ∃ m, fuel' = m + 1 := ⟨fuel' - 1, by omega⟩
  rw [items] at h ⊢
  obtain ⟨q, hq, h⟩ := bind_eq_ok_iff.1 h
  rw [hvalue (by omega : fuel ≤ fuel') hdepth hq, ok_bind]
  dsimp only at h ⊢
  split at h
  · exact h
  · obtain ⟨q', hq', h⟩ := bind_eq_ok_iff.1 h
    rw [hitems (by omega : fuel ≤ fuel') hdepth hq']
    exact h
  · cases h

theorem grows_fields_succ {fuel : Nat} (hvalue : Grows (value limits) fuel)
    (hfields : Grows (fields limits) fuel) : Grows (fields limits) (fuel + 1) := by
  intro fuel' depth depth' t p hfuel hdepth h
  obtain ⟨fuel', rfl⟩ : ∃ m, fuel' = m + 1 := ⟨fuel' - 1, by omega⟩
  rw [fields.eq_def] at h ⊢
  dsimp only at h ⊢
  split at h
  · obtain ⟨q, hq, h⟩ := bind_eq_ok_iff.1 h
    rw [hq, ok_bind]
    split at h
    · obtain ⟨q', hq', h⟩ := bind_eq_ok_iff.1 h
      rw [hvalue (by omega : fuel ≤ fuel') hdepth hq', ok_bind]
      split at h
      · exact h
      · obtain ⟨q'', hq'', h⟩ := bind_eq_ok_iff.1 h
        rw [hfields (by omega : fuel ≤ fuel') hdepth hq'']
        exact h
      · cases h
    · cases h
  · cases h

theorem grows (limits : Limits) (fuel : Nat) :
    Grows (value limits) fuel ∧ Grows (items limits) fuel ∧ Grows (fields limits) fuel := by
  induction fuel with
  | zero =>
      refine ⟨?_, ?_, ?_⟩ <;> intro fuel' depth depth' t p _ _ h
      · rw [value] at h
        cases h
      · rw [items] at h
        cases h
      · rw [fields] at h
        cases h
  | succ fuel ih =>
      obtain ⟨hvalue, hitems, hfields⟩ := ih
      exact ⟨grows_value_succ hitems hfields, grows_items_succ hvalue hitems,
        grows_fields_succ hvalue hfields⟩

/-- However much fuel and depth there is, a regular value is read to its end or not at all. -/
theorem Regular.rest_of_value {depth : Nat} {j : Json} (h : Regular depth j)
    (hdigits : j.integersWithin limits.digits = true) {fuel depth' : Nat} {j' : Json} {rest : Text}
    (hvalue : value limits fuel depth' (compact j) = .ok (j', rest)) : rest = [] := by
  have hreads : value limits (fuel + (compact j).length) depth (compact j ++ []) = _ :=
    h.reads (by omega) .nil
  rw [List.append_nil, h.overlong?_eq_none_iff.2 hdigits] at hreads
  have hmore := (grows limits fuel).1 (Nat.le_add_right _ (compact j).length)
    (Nat.le_add_right _ depth) hvalue
  have hmore' := (grows limits (fuel + (compact j).length)).1 (Nat.le_refl _)
    (Nat.le_add_left depth depth') hreads
  rw [hmore'] at hmore
  cases hmore
  rfl

/-! What a token takes from the text is free of opening braces, so it ends before the object. -/

def Leaves (t rest : Text) : Prop :=
  ∃ p, t = p ++ rest ∧ .char '\x7b' ∉ p

theorem Leaves.refl (t : Text) : Leaves t t :=
  ⟨[], rfl, by simp⟩

theorem Leaves.trans {t u v : Text} (h : Leaves t u) (h' : Leaves u v) : Leaves t v := by
  obtain ⟨p, rfl, hp⟩ := h
  obtain ⟨q, rfl, hq⟩ := h'
  exact ⟨p ++ q, by simp, by simp [hp, hq]⟩

theorem Leaves.cons {s : Symbol} (hs : s ≠ .char '\x7b') (t : Text) : Leaves (s :: t) t :=
  ⟨[s], rfl, by simpa using hs.symm⟩

/-- A text with an opening brace is left before the brace. -/
theorem Leaves.exists_eq_append {x u rest : Text} (h : Leaves (x ++ .char '\x7b' :: u) rest) :
    ∃ y, rest = y ++ .char '\x7b' :: u := by
  obtain ⟨p, happend, hp⟩ := h
  rcases List.append_eq_append_iff.1 happend with ⟨q, rfl, hq⟩ | ⟨q, -, rfl⟩
  · cases q with
    | nil => exact ⟨[], by simpa using hq.symm⟩
    | cons s q =>
        cases hq
        simp at hp
  · exact ⟨q, rfl⟩

theorem leaves_digits (t : Text) : Leaves t (t.drop (t.takeWhile Decimal.isDigit).length) := by
  induction t with
  | nil => exact .refl _
  | cons s t ih =>
      cases hs : Decimal.isDigit s with
      | false =>
          rw [List.takeWhile_cons_of_neg (by simp [hs])]
          exact .refl _
      | true =>
          have hbrace : s ≠ .char '\x7b' := by
            rintro rfl
            cases hs
          rw [List.takeWhile_cons_of_pos hs]
          exact (Leaves.cons hbrace t).trans ih

theorem leaves_of_whole? {t digits rest : Text} (h : whole? t = some (digits, rest)) :
    Leaves t rest := by
  rw [whole?.eq_def] at h
  split at h
  · cases h
    exact .cons (by decide) _
  · dsimp only at h
    split at h
    · cases h
    · cases h
      exact leaves_digits t

theorem leaves_of_fraction? {t digits rest : Text} (h : fraction? t = some (digits, rest)) :
    Leaves t rest := by
  rw [fraction?.eq_def] at h
  split at h
  · dsimp only at h
    split at h
    · cases h
    · cases h
      exact (Leaves.cons (by decide) _).trans (leaves_digits _)
  · cases h

theorem leaves_sign (t : Text) : Leaves t (Decimal.sign t).2 := by
  rw [Decimal.sign.eq_def]
  split
  · exact .cons (by decide) _
  · exact .cons (by decide) _
  · exact .refl _

theorem leaves_of_exponent? {t rest : Text} {e : Int} (h : exponent? t = some (e, rest)) :
    Leaves t rest := by
  rw [exponent?.eq_def] at h
  split at h
  · rename_i c u
    split at h
    · rename_i hc
      have hbrace : Symbol.char c ≠ .char '\x7b' := by
        rintro ⟨⟩
        cases hc
      dsimp only at h
      split at h
      · cases h
      · cases h
        exact ((Leaves.cons hbrace _).trans (leaves_sign _)).trans (leaves_digits _)
    · cases h
  · cases h

theorem leaves_of_number {t rest : Text} {j : Json} (h : number limits t = .ok (j, rest)) :
    Leaves t rest := by
  rw [number.eq_def] at h
  split at h
  rename_i negative body hsign
  have hbody : Leaves t body := by
    split at hsign
    · cases hsign
      exact .cons (by decide) _
    · cases hsign
      exact .refl _
  split at h
  · cases h
  · rename_i whole after hwhole
    have hafter := hbody.trans (leaves_of_whole? hwhole)
    dsimp only at h
    split at h
    · rename_i hfraction
      have hfraction := hafter.trans (leaves_of_fraction? hfraction)
      split at h
      · rename_i hexponent
        cases h
        exact hfraction.trans (leaves_of_exponent? hexponent)
      · cases h
        exact hfraction
    · split at h
      · rename_i hexponent
        cases h
        exact hafter.trans (leaves_of_exponent? hexponent)
      · split at h
        · cases h
        · cases h
          exact hafter

theorem leaves_of_after? {word : String} (hword : '\x7b' ∉ word.toList) {t rest : Text}
    (h : after? word t = some rest) : Leaves t rest := by
  rw [after?] at h
  split at h
  · rename_i hstarts
    cases h
    obtain ⟨u, rfl⟩ := List.isPrefixOf_iff_prefix.1 hstarts
    have hlength : (Text.ofString word).length = word.length := by
      rw [Text.ofString, List.length_map, String.length_toList]
    rw [← hlength, List.drop_left]
    exact ⟨Text.ofString word, rfl, by simpa [Text.ofString] using hword⟩
  · cases h

theorem leaves_of_word? {t rest : Text} {j : Json} (h : word? t = some (j, rest)) :
    Leaves t rest := by
  have hword : ∃ word ∈ ["null", "true", "false", "NaN", "Infinity", "-Infinity"],
      after? word t = some rest := by
    rw [word?] at h
    split at h <;> (try split at h) <;> simp_all
  obtain ⟨word, hmem, hafter⟩ := hword
  have hbrace : ∀ word ∈ ["null", "true", "false", "NaN", "Infinity", "-Infinity"],
      '\x7b' ∉ word.toList := by decide
  exact leaves_of_after? (hbrace word hmem) hafter

/-! A string takes the opening brace of the object as one of its symbols, and ends at the quote. -/

abbrev opening (u : Text) : Text :=
  .char '\x7b' :: .char '"' :: .char 'i' :: u

/-- Where a reader stops that started before the object: still before it, or at its first quote. -/
def Stops (u rest : Text) : Prop :=
  (∃ y, rest = y ++ opening u) ∨ rest = .char 'i' :: u

theorem Leaves.stops {x u rest : Text} (h : Leaves (x ++ opening u) rest) : Stops u rest :=
  .inl h.exists_eq_append

theorem hexValue?_brace : hexValue? (.char '\x7b') = none := rfl

theorem ne_brace_of_unit? {a b c d : Symbol} {n : Nat} (h : unit? a b c d = some n) :
    .char '\x7b' ∉ [a, b, c, d] := by
  intro hbrace
  simp only [List.mem_cons, List.not_mem_nil, or_false] at hbrace
  rcases hbrace with rfl | rfl | rfl | rfl <;> simp [unit?, hexValue?_brace] at h

theorem ne_brace_of_shortEscape? {e c : Char} (h : shortEscape? e = some c) : e ≠ '\x7b' := by
  rintro rfl
  cases h

/-- A string ends here, or it takes one symbol or an escape. -/
theorem pieces?_cases {t rest : Text} {ps : List Piece} (h : pieces? t = some (ps, rest)) :
    t = .char '"' :: rest ∨ ∃ taken after ps', t = taken ++ after ∧ taken ≠ [] ∧
      ((∃ s, taken = [s]) ∨ .char '\x7b' ∉ taken) ∧ pieces? after = some (ps', rest) := by
  rw [pieces?.eq_def] at h
  split at h
  · cases h
  · cases h
    exact .inl rfl
  · rename_i a b c d after
    obtain ⟨n, hn, h⟩ := Option.bind_eq_some_iff.1 h
    obtain ⟨⟨ps', rest'⟩, hps, h⟩ := Option.bind_eq_some_iff.1 h
    cases h
    have hbrace := ne_brace_of_unit? hn
    refine .inr ⟨.char '\\' :: .char 'u' :: [a, b, c, d], after, ps', rfl, by simp, .inr ?_, hps⟩
    rw [List.mem_cons, List.mem_cons]
    rintro (h | h | h)
    · cases h
    · cases h
    · exact hbrace h
  · rename_i e after _
    obtain ⟨c, hc, h⟩ := Option.bind_eq_some_iff.1 h
    obtain ⟨⟨ps', rest'⟩, hps, h⟩ := Option.bind_eq_some_iff.1 h
    cases h
    have hbrace := ne_brace_of_shortEscape? hc
    refine .inr ⟨[.char '\\', .char e], after, ps', rfl, by simp, .inr ?_, hps⟩
    simpa using hbrace.symm
  · rename_i s after _ _ _
    split at h
    · cases h
    · obtain ⟨⟨ps', rest'⟩, hps, h⟩ := Option.bind_eq_some_iff.1 h
      cases h
      exact .inr ⟨[s], after, ps', rfl, by simp, .inl ⟨s, rfl⟩, hps⟩

theorem stops_of_pieces? {x u rest : Text} {ps : List Piece}
    (h : pieces? (x ++ opening u) = some (ps, rest)) :
    Stops u rest := by
  generalize hn : x.length = n
  induction n using Nat.strongRecOn generalizing x ps with
  | ind n ih =>
      rcases pieces?_cases h with hquote | ⟨taken, after, ps', happend, hne, htaken, hps⟩
      · cases x with
        | nil => cases hquote
        | cons s x =>
            cases hquote
            exact .inl ⟨x, rfl⟩
      · rcases htaken with ⟨s, rfl⟩ | hbrace
        · cases x with
          | nil =>
              cases happend
              cases hps
              exact .inr rfl
          | cons s x =>
              cases happend
              exact ih x.length (by simpa using hn ▸ Nat.lt_succ_self _) hps rfl
        · obtain ⟨y, rfl⟩ := Leaves.exists_eq_append ⟨taken, happend, hbrace⟩
          have hlength := congrArg List.length happend
          have hpos := List.length_pos_iff.2 hne
          simp only [List.length_append, List.length_cons] at hlength
          exact ih y.length (by omega) hps rfl

theorem stops_of_string? {x u s rest : Text}
    (h : string? (x ++ opening u) = some (s, rest)) :
    Stops u rest := by
  obtain ⟨⟨ps, rest'⟩, hps, h⟩ := Option.map_eq_some_iff.1 h
  cases h
  exact stops_of_pieces? hps

theorem skipGap_append_brace (x u : Text) :
    skipGap (x ++ .char '\x7b' :: u) = skipGap x ++ .char '\x7b' :: u := by
  induction x with
  | nil => rfl
  | cons s x ih =>
      cases hs : isGap s with
      | false => rw [List.cons_append, skipGap_cons hs, skipGap_cons hs, List.cons_append]
      | true =>
          rw [skipGap, skipGap, List.cons_append, List.dropWhile_cons_of_pos hs,
            List.dropWhile_cons_of_pos hs]
          exact ih

/-- The symbol after a stop, where it is not the object itself, stands before another stop. -/
theorem Stops.of_skipGap {u rest after : Text} {s : Symbol} (h : Stops u rest)
    (hs : s ∉ [.char '\x7b', .char 'i']) (hrest : skipGap rest = s :: after) :
    ∃ y, after = y ++ opening u := by
  rw [List.mem_pair, not_or] at hs
  rcases h with ⟨y, rfl⟩ | rfl
  · rw [skipGap_append_brace] at hrest
    cases hy : skipGap y with
    | nil =>
        rw [hy] at hrest
        cases hrest
        exact absurd rfl hs.1
    | cons s' y' =>
        rw [hy] at hrest
        cases hrest
        exact ⟨y', rfl⟩
  · rw [skipGap_cons rfl] at hrest
    cases hrest
    exact absurd rfl hs.2

theorem Stops.of_append {u x after : Text} {s : Symbol} (hs : s ∉ [.char '\x7b', .char 'i'])
    (h : skipGap (x ++ opening u) = s :: after) : Stops u after :=
  .inl (Stops.of_skipGap (.inl ⟨x, rfl⟩) hs h)

theorem stops_value_succ {u : Text} {fuel : Nat}
    (hitems : ∀ {depth : Nat} {x rest : Text} {js : List Json},
      items limits fuel depth (x ++ opening u) = .ok (js, rest) → Stops u rest)
    (hfields : ∀ {depth : Nat} {x rest : Text} {fs : List (Text × Json)},
      fields limits fuel depth (x ++ opening u) = .ok (fs, rest) → Stops u rest)
    {depth : Nat} {s : Symbol} {x rest : Text} {j : Json}
    (h : value limits (fuel + 1) depth (s :: (x ++ opening u)) = .ok (j, rest)) : Stops u rest := by
  rw [value.eq_def] at h
  dsimp only at h
  split at h
  · rename_i heq
    cases heq
    obtain ⟨p, hp, h⟩ := bind_eq_ok_iff.1 h
    cases h
    exact stops_of_string? (orMalformed_eq_ok.1 hp)
  · rename_i heq
    cases heq
    split at h
    · cases h
    · split at h
      · rename_i hgap
        cases h
        exact .of_append (by decide) hgap
      · obtain ⟨p, hp, h⟩ := bind_eq_ok_iff.1 h
        rw [skipGap_append_brace] at hp
        cases h
        exact hitems hp
  · rename_i heq
    cases heq
    split at h
    · cases h
    · split at h
      · rename_i hgap
        cases h
        exact .of_append (by decide) hgap
      · obtain ⟨p, hp, h⟩ := bind_eq_ok_iff.1 h
        rw [skipGap_append_brace] at hp
        cases h
        exact hfields hp
  · split at h
    · rename_i hword
      cases h
      exact Leaves.stops (x := s :: x) (leaves_of_word? hword)
    · exact Leaves.stops (x := s :: x) (leaves_of_number h)

/-- An item or field ends at a stop, since nothing follows the object that could end it. -/
theorem stops_of_value {u : Text} {fuel : Nat}
    (hend : ∀ {depth : Nat} {j : Json} {rest : Text},
      value limits fuel depth (opening u) = .ok (j, rest) → rest = [])
    (hvalue : ∀ {depth : Nat} {s : Symbol} {x rest : Text} {j : Json},
      value limits fuel depth (s :: (x ++ opening u)) = .ok (j, rest) → Stops u rest)
    {depth : Nat} {x rest : Text} {j : Json} (hrest : skipGap rest ≠ [])
    (h : value limits fuel depth (x ++ opening u) = .ok (j, rest)) : Stops u rest := by
  cases x with
  | nil =>
      rw [hend h] at hrest
      exact absurd rfl hrest
  | cons s x => exact hvalue h

theorem stops_items_succ {u : Text} {fuel : Nat}
    (hvalue : ∀ {depth : Nat} {x rest : Text} {j : Json}, skipGap rest ≠ [] →
      value limits fuel depth (x ++ opening u) = .ok (j, rest) → Stops u rest)
    (hitems : ∀ {depth : Nat} {x rest : Text} {js : List Json},
      items limits fuel depth (x ++ opening u) = .ok (js, rest) → Stops u rest)
    {depth : Nat} {x rest : Text} {js : List Json}
    (h : items limits (fuel + 1) depth (x ++ opening u) = .ok (js, rest)) : Stops u rest := by
  rw [items] at h
  obtain ⟨⟨item, after⟩, hitem, h⟩ := bind_eq_ok_iff.1 h
  dsimp only at h
  split at h
  · rename_i hgap
    cases h
    have hstop := hvalue (by simp [hgap]) hitem
    exact .inl (hstop.of_skipGap (by decide) hgap)
  · rename_i hgap
    obtain ⟨q, hq, h⟩ := bind_eq_ok_iff.1 h
    cases h
    have hstop := hvalue (by simp [hgap]) hitem
    obtain ⟨y, rfl⟩ := hstop.of_skipGap (by decide) hgap
    rw [skipGap_append_brace] at hq
    exact hitems hq
  · cases h

theorem stops_fields_succ {u : Text} {fuel : Nat}
    (hvalue : ∀ {depth : Nat} {x rest : Text} {j : Json}, skipGap rest ≠ [] →
      value limits fuel depth (x ++ opening u) = .ok (j, rest) → Stops u rest)
    (hfields : ∀ {depth : Nat} {x rest : Text} {fs : List (Text × Json)},
      fields limits fuel depth (x ++ opening u) = .ok (fs, rest) → Stops u rest)
    {depth : Nat} {x rest : Text} {fs : List (Text × Json)}
    (h : fields limits (fuel + 1) depth (x ++ opening u) = .ok (fs, rest)) : Stops u rest := by
  rw [fields.eq_def] at h
  dsimp only at h
  split at h
  · rename_i key hopen
    obtain ⟨x', rfl⟩ : ∃ x', key = x' ++ opening u := by
      cases x with
      | nil => cases hopen
      | cons s x =>
          rw [List.cons_append] at hopen
          cases hopen
          exact ⟨x, rfl⟩
    obtain ⟨⟨k, after⟩, hkey, h⟩ := bind_eq_ok_iff.1 h
    have hstop := stops_of_string? (orMalformed_eq_ok.1 hkey)
    dsimp only at h
    split at h
    · rename_i hcolon
      obtain ⟨y, rfl⟩ := hstop.of_skipGap (by decide) hcolon
      obtain ⟨⟨item, after'⟩, hitem, h⟩ := bind_eq_ok_iff.1 h
      rw [skipGap_append_brace] at hitem
      dsimp only at h
      split at h
      · rename_i hgap
        cases h
        have hstop := hvalue (by simp [hgap]) hitem
        exact .inl (hstop.of_skipGap (by decide) hgap)
      · rename_i hgap
        obtain ⟨q, hq, h⟩ := bind_eq_ok_iff.1 h
        cases h
        have hstop := hvalue (by simp [hgap]) hitem
        obtain ⟨z, rfl⟩ := hstop.of_skipGap (by decide) hgap
        rw [skipGap_append_brace] at hq
        exact hfields hq
      · cases h
    · cases h
  · cases h

/-- A reader that starts before the object stops before the object or at its first quote. -/
theorem stops (fuel : Nat) {u : Text}
    (hend : ∀ {fuel depth : Nat} {j : Json} {rest : Text},
      value limits fuel depth (opening u) = .ok (j, rest) → rest = []) :
    (∀ {depth : Nat} {s : Symbol} {x rest : Text} {j : Json},
      value limits fuel depth (s :: (x ++ opening u)) = .ok (j, rest) → Stops u rest) ∧
    (∀ {depth : Nat} {x rest : Text} {js : List Json},
      items limits fuel depth (x ++ opening u) = .ok (js, rest) → Stops u rest) ∧
    (∀ {depth : Nat} {x rest : Text} {fs : List (Text × Json)},
      fields limits fuel depth (x ++ opening u) = .ok (fs, rest) → Stops u rest) := by
  induction fuel with
  | zero =>
      refine ⟨?_, ?_, ?_⟩
      · intro depth s x rest j h
        rw [value] at h
        cases h
      · intro depth x rest js h
        rw [items] at h
        cases h
      · intro depth x rest fs h
        rw [fields] at h
        cases h
  | succ fuel ih =>
      obtain ⟨hvalue, hitems, hfields⟩ := ih
      exact ⟨stops_value_succ hitems hfields, stops_items_succ (stops_of_value hend hvalue) hitems,
        stops_fields_succ (stops_of_value hend hvalue) hfields⟩

theorem Stops.skipGap_ne_nil {u rest : Text} (h : Stops u rest) : skipGap rest ≠ [] := by
  rcases h with ⟨y, rfl⟩ | rfl
  · rw [skipGap_append_brace]
    simp
  · rw [skipGap_cons rfl]
    simp

/-- Whatever stands before the object on its line, the line is no value. -/
theorem parse_unfinished {depth : Nat} {j : Json} {u : Text} (h : Regular depth j)
    (hdigits : j.integersWithin limits.digits = true) (hopening : compact j = opening u)
    {s : Symbol} (hs : isGap s = false) (x : Text) (j' : Json) :
    parse limits (s :: (x ++ compact j)) ≠ .ok j' := by
  have hend : ∀ {fuel depth : Nat} {j : Json} {rest : Text},
      value limits fuel depth (opening u) = .ok (j, rest) → rest = [] := by
    intro fuel depth' j' rest hvalue
    rw [← hopening] at hvalue
    exact h.rest_of_value hdigits hvalue
  intro hparse
  rw [parse, skipGap_cons hs, hopening] at hparse
  obtain ⟨⟨v, rest⟩, hvalue, hrest⟩ := bind_eq_ok_iff.1 hparse
  have hstop : Stops u rest := (stops _ hend).1 hvalue
  dsimp only at hrest
  rw [if_neg (by simpa using hstop.skipGap_ne_nil)] at hrest
  cases hrest

end ScriptReview.Json
