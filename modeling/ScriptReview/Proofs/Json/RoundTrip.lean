import ScriptReview.Proofs.Dictionary
import ScriptReview.Proofs.Json.Tokens

namespace ScriptReview

namespace Json

/-- A real that is written as digits, a point and digits, and is read back from them. -/
def IsDecimal (x : Binary64) : Prop :=
  ∃ (n : Nat) (fraction : Text), fraction ≠ [] ∧ (∀ s ∈ fraction, Decimal.isDigit s = true) ∧
    writtenReal x = digits n ++ "." ++ fraction ∧ pointed (digits n) fraction = x

inductive Regular : Nat → Json → Prop
  | null {depth : Nat} : Regular depth .null
  | bool {depth : Nat} (b : Bool) : Regular depth (.bool b)
  | int {depth : Nat} (n : Int) : Regular depth (.int n)
  | real {depth : Nat} {x : Binary64} (hx : IsDecimal x) : Regular depth (.real x)
  | string {depth : Nat} (t : Text) : Regular depth (.string t)
  | array {depth : Nat} {js : List Json} (hjs : ∀ j ∈ js, Regular depth j) :
      Regular (depth + 1) (.array js)
  | object {depth : Nat} {fs : List (Text × Json)} (hkeys : (fs.map Prod.fst).Nodup)
      (hfs : ∀ f ∈ fs, Regular depth f.2) : Regular (depth + 1) (.object fs)

mutual

def integersWithin (limit : Nat) : Json → Bool
  | .int n => (Nat.toDigits 10 n.natAbs).length ≤ limit
  | .array items => itemsWithin limit items
  | .object fields => fieldsWithin limit fields
  | _ => true

def itemsWithin (limit : Nat) : List Json → Bool
  | [] => true
  | item :: rest => item.integersWithin limit && itemsWithin limit rest

def fieldsWithin (limit : Nat) : List (Text × Json) → Bool
  | [] => true
  | (_, value) :: rest => value.integersWithin limit && fieldsWithin limit rest

end

theorem itemsWithin_iff {limit : Nat} {js : List Json} :
    itemsWithin limit js = true ↔ ∀ j ∈ js, j.integersWithin limit = true := by
  induction js with
  | nil => simp [itemsWithin]
  | cons j js ih => simp [itemsWithin, ih]

theorem fieldsWithin_iff {limit : Nat} {fs : List (Text × Json)} :
    fieldsWithin limit fs = true ↔ ∀ f ∈ fs, f.2.integersWithin limit = true := by
  induction fs with
  | nil => simp [fieldsWithin]
  | cons f fs ih => simp [fieldsWithin, ih]

mutual

def overlong? (limit : Nat) : Json → Option Nat
  | .int n =>
    let digits := (Nat.toDigits 10 n.natAbs).length
    if limit < digits then some digits else none
  | .array items => overlongItem? limit items
  | .object fields => overlongField? limit fields
  | _ => none

def overlongItem? (limit : Nat) : List Json → Option Nat
  | [] => none
  | item :: rest => (item.overlong? limit).or (overlongItem? limit rest)

def overlongField? (limit : Nat) : List (Text × Json) → Option Nat
  | [] => none
  | (_, value) :: rest => (value.overlong? limit).or (overlongField? limit rest)

end

variable {limits : Limits} {depth : Nat}

theorem skipGap_cons {s : Symbol} (hs : isGap s = false) (t : Text) :
    skipGap (s :: t) = s :: t := by
  rw [skipGap, List.dropWhile_cons, hs]
  rfl

/-- No value starts with a blank or with the end of an array. -/
theorem Regular.compact_eq_cons {j : Json} (h : Regular depth j) :
    ∃ s t, compact j = s :: t ∧ isGap s = false ∧ s ≠ .char ']' := by
  cases h with
  | null => exact ⟨_, _, rfl, rfl, by decide⟩
  | bool b =>
      cases b with
      | true => exact ⟨_, _, rfl, rfl, by decide⟩
      | false => exact ⟨_, _, rfl, rfl, by decide⟩
  | int n =>
      obtain ⟨c, t, hc, hne⟩ := number_eq_cons n
      refine ⟨_, _, hc, ?_, by simpa using hne ']' rfl (by decide)⟩
      simp [isGap, Symbol.satisfies, hne ' ' rfl, hne '\t' rfl, hne '\n' rfl, hne '\r' rfl]
  | real hx =>
      obtain ⟨n, fraction, -, -, hwritten, -⟩ := hx
      obtain ⟨c, rest, hc, hdigit⟩ := digits_eq_cons n
      have hne : ∀ d : Char, d.isDigit = false → c ≠ d := fun d => ne_of_isDigit hdigit
      refine ⟨.char c, _, by rw [compact, hwritten, hc]; rfl, ?_, by simpa using hne ']' rfl⟩
      simp [isGap, Symbol.satisfies, hne ' ' rfl, hne '\t' rfl, hne '\n' rfl, hne '\r' rfl]
  | string t => exact ⟨_, _, rfl, rfl, by decide⟩
  | array hjs => exact ⟨_, _, by rw [compact]; rfl, rfl, by decide⟩
  | object hkeys hfs => exact ⟨_, _, by rw [compact]; rfl, rfl, by decide⟩

theorem value_number {fuel : Nat} {t : Text} {c : Char} {rest : Text}
    (ht : t = .char c :: rest) (hc : c ≠ '"' ∧ c ≠ '[' ∧ c ≠ '\x7b') (hword : word? t = none) :
    value limits (fuel + 1) depth t = number limits t := by
  subst ht
  rw [value, hword]
  · intro _ h
    cases h
    exact hc.1 rfl
  · intro _ h
    cases h
    exact hc.2.1 rfl
  · intro _ h
    cases h
    exact hc.2.2 rfl

def limited {α : Type} (limits : Limits) : Option Nat → α → Except ReadError α
  | none, a => .ok a
  | some digits, _ => .error (.tooLong digits limits.digits)

/-- In front of anything that may follow a value, the value is read back from its compact form, or
its first integer beyond the limit ends the reading. -/
def Reads (limits : Limits) (depth : Nat) (j : Json) : Prop :=
  ∀ {fuel : Nat} {r : Text}, j.compact.length ≤ fuel → Closes r →
    value limits fuel depth (compact j ++ r) = limited limits (j.overlong? limits.digits) (j, r)

theorem value_int {n : Int} {fuel : Nat} {r : Text} (hfuel : (Json.int n).compact.length ≤ fuel) :
    value limits fuel depth (compact (.int n) ++ r) = number limits (Text.number n ++ r) := by
  obtain ⟨c, t, hc, hne⟩ := number_eq_cons n
  have hcons : Text.number n ++ r = .char c :: (t ++ r) := by rw [hc]; rfl
  rw [compact] at hfuel ⊢
  cases fuel with
  | zero =>
      rw [hc] at hfuel
      cases hfuel
  | succ fuel =>
      have hc' : c ≠ '"' ∧ c ≠ '[' ∧ c ≠ '\x7b' :=
        ⟨hne _ rfl (by decide), hne _ rfl (by decide), hne _ rfl (by decide)⟩
      exact value_number hcons hc' (word?_number n r)

theorem reads_int (n : Int) : Reads limits depth (.int n) := by
  intro fuel r hfuel hr
  rw [value_int hfuel, number_number hr, overlong?]
  split_ifs <;> rfl

theorem reads_real {x : Binary64} (hx : IsDecimal x) : Reads limits depth (.real x) := by
  obtain ⟨n, fraction, hne, hdigits, hwritten, hvalue⟩ := hx
  obtain ⟨c, rest, hc, hdigit⟩ := digits_eq_cons n
  intro fuel r hfuel hr
  rw [compact, hwritten] at hfuel ⊢
  cases fuel with
  | zero =>
      rw [hc] at hfuel
      cases hfuel
  | succ fuel =>
      have hcons : digits n ++ "." ++ fraction ++ r =
          .char c :: (rest ++ Text.ofString "." ++ fraction ++ r) := by rw [hc]; rfl
      have hc' : c ≠ '"' ∧ c ≠ '[' ∧ c ≠ '\x7b' :=
        ⟨ne_of_isDigit hdigit rfl, ne_of_isDigit hdigit rfl, ne_of_isDigit hdigit rfl⟩
      have hword : word? (digits n ++ "." ++ fraction ++ r) = none := by
        rw [hcons]
        exact word?_digit 0 hdigit _
      rw [value_number hcons hc' hword, number_pointed hne hdigits hr, hvalue]
      rfl

theorem reads_string (t : Text) : Reads limits depth (.string t) := by
  intro fuel r hfuel hr
  cases fuel with
  | zero => cases hfuel
  | succ fuel =>
      have htext : compact (.string t) ++ r =
          .char '"' :: (t.flatMap escaped ++ .char '"' :: r) := by
        simp [compact, writtenString, Text.ofString]
      rw [htext, value, string?_writtenString]
      rfl

theorem reads_null : Reads limits depth .null := by
  intro fuel r hfuel hr
  cases fuel with
  | zero => cases hfuel
  | succ fuel => rfl

theorem reads_bool (b : Bool) : Reads limits depth (.bool b) := by
  intro fuel r hfuel hr
  cases b with
  | true =>
      cases fuel with
      | zero => cases hfuel
      | succ fuel => rfl
  | false =>
      cases fuel with
      | zero => cases hfuel
      | succ fuel => rfl

theorem Regular.skipGap_compact {j : Json} (h : Regular depth j) (r : Text) :
    skipGap (compact j ++ r) = compact j ++ r := by
  obtain ⟨s, t, hcons, hgap, -⟩ := h.compact_eq_cons
  rw [hcons]
  exact skipGap_cons hgap (t ++ r)

/-! What is wrong with an item or a field ends the reading before what follows it is read. -/

theorem items_last {fuel : Nat} {t r : Text} {j : Json} {found : Option Nat}
    (h : value limits fuel depth t = limited limits found (j, .char ']' :: r)) :
    items limits (fuel + 1) depth t = limited limits found ([j], r) := by
  rw [items, h]
  cases found <;> rfl

theorem items_more {fuel : Nat} {t more r : Text} {j : Json} {js : List Json}
    {found found' : Option Nat}
    (h : value limits fuel depth t = limited limits found (j, .char ',' :: more))
    (hmore : items limits fuel depth (skipGap more) = limited limits found' (js, r)) :
    items limits (fuel + 1) depth t = limited limits (found.or found') (j :: js, r) := by
  rw [items, h]
  cases found with
  | some d => rfl
  | none =>
      change (items limits fuel depth (skipGap more) >>= fun p => .ok (j :: p.1, p.2)) = _
      rw [hmore]
      cases found' <;> rfl

theorem compactItems_cons (j j' : Json) (js : List Json) :
    compactItems (j :: j' :: js) = compact j ++ .char ',' :: compactItems (j' :: js) := by
  rw [compactItems, List.append_assoc]
  · rfl
  · exact List.cons_ne_nil _ _

theorem compactItems_eq_cons {j : Json} (h : Regular depth j) (js : List Json) :
    ∃ s t, compactItems (j :: js) = s :: t ∧ isGap s = false ∧ s ≠ .char ']' := by
  obtain ⟨s, t, hcons, hs⟩ := h.compact_eq_cons
  cases js with
  | nil => exact ⟨s, t, by rw [compactItems, hcons], hs⟩
  | cons j' js => exact ⟨s, _, by rw [compactItems_cons, hcons]; rfl, hs⟩

theorem skipGap_compactItems {j : Json} (h : Regular depth j) (js : List Json) (r : Text) :
    skipGap (compactItems (j :: js) ++ r) = compactItems (j :: js) ++ r := by
  obtain ⟨s, t, hcons, hgap, -⟩ := compactItems_eq_cons h js
  rw [hcons]
  exact skipGap_cons hgap (t ++ r)

theorem items_compactItems {j : Json} {js : List Json}
    (hregular : ∀ k ∈ j :: js, Regular depth k) (hreads : ∀ k ∈ j :: js, Reads limits depth k)
    {fuel : Nat} {r : Text} (hfuel : (compactItems (j :: js)).length + 1 ≤ fuel) :
    items limits fuel depth (compactItems (j :: js) ++ .char ']' :: r) =
      limited limits (overlongItem? limits.digits (j :: js)) (j :: js, r) := by
  induction js generalizing j fuel with
  | nil =>
      obtain ⟨fuel, rfl⟩ : ∃ m, fuel = m + 1 := ⟨fuel - 1, by omega⟩
      rw [compactItems] at hfuel ⊢
      rw [overlongItem?, overlongItem?, Option.or_none]
      exact items_last (hreads j (.head _) (by omega) (.bracket r))
  | cons j' js ih =>
      obtain ⟨fuel, rfl⟩ : ∃ m, fuel = m + 1 := ⟨fuel - 1, by omega⟩
      rw [compactItems_cons] at hfuel ⊢
      rw [List.length_append, List.length_cons] at hfuel
      rw [List.append_assoc, List.cons_append]
      apply items_more (hreads j (.head _) (by omega) (.comma _))
      rw [skipGap_compactItems (hregular j' (.tail _ (.head _)))]
      exact ih (fun k hk => hregular k (.tail _ hk)) (fun k hk => hreads k (.tail _ hk)) (by omega)

theorem reads_array {js : List Json} (hregular : ∀ j ∈ js, Regular depth j)
    (hreads : ∀ j ∈ js, Reads limits depth j) : Reads limits (depth + 1) (.array js) := by
  intro fuel r hfuel hr
  have htext : compact (.array js) ++ r = .char '[' :: (compactItems js ++ .char ']' :: r) := by
    simp [compact, Text.ofString]
  have hlength : (compact (.array js)).length = (compactItems js).length + 2 := by
    simp [compact, Text.ofString]
  obtain ⟨fuel, rfl⟩ : ∃ m, fuel = m + 1 := ⟨fuel - 1, by omega⟩
  rw [htext]
  cases js with
  | nil => rfl
  | cons j js =>
      obtain ⟨s, t, hcons, -, hs⟩ := compactItems_eq_cons (hregular j (.head _)) js
      have hitems : items limits fuel depth (compactItems (j :: js) ++ .char ']' :: r) =
          limited limits (overlongItem? limits.digits (j :: js)) (j :: js, r) :=
        items_compactItems hregular hreads (by omega)
      rw [value]
      simp only [skipGap_compactItems (hregular j (.head _))]
      split
      · rename_i heq
        rw [hcons] at heq
        cases heq
        exact absurd rfl hs
      · rw [hitems, overlong?]
        cases overlongItem? limits.digits (j :: js) <;> rfl

theorem writtenString_append (key r : Text) :
    writtenString key ++ r = .char '"' :: (key.flatMap escaped ++ .char '"' :: r) := by
  simp [writtenString, Text.ofString]

theorem fields_last {fuel : Nat} {key body r : Text} {j : Json} {found : Option Nat}
    (h : value limits fuel depth (skipGap body) = limited limits found (j, .char '\x7d' :: r)) :
    fields limits (fuel + 1) depth (writtenString key ++ .char ':' :: body) =
      limited limits found ([(key, j)], r) := by
  rw [writtenString_append, fields, string?_writtenString]
  change (value limits fuel depth (skipGap body) >>= _) = _
  rw [h]
  cases found <;> rfl

theorem fields_more {fuel : Nat} {key body more r : Text} {j : Json} {fs : List (Text × Json)}
    {found found' : Option Nat}
    (h : value limits fuel depth (skipGap body) = limited limits found (j, .char ',' :: more))
    (hmore : fields limits fuel depth (skipGap more) = limited limits found' (fs, r)) :
    fields limits (fuel + 1) depth (writtenString key ++ .char ':' :: body) =
      limited limits (found.or found') ((key, j) :: fs, r) := by
  rw [writtenString_append, fields, string?_writtenString]
  change (value limits fuel depth (skipGap body) >>= _) = _
  rw [h]
  cases found with
  | some d => rfl
  | none =>
      change (fields limits fuel depth (skipGap more) >>= fun p => .ok ((key, j) :: p.1, p.2)) = _
      rw [hmore]
      cases found' <;> rfl

theorem compactFields_singleton (f : Text × Json) :
    compactFields [f] = writtenString f.1 ++ .char ':' :: compact f.2 := by
  rw [compactFields, List.append_assoc]
  rfl

theorem compactFields_cons (f f' : Text × Json) (fs : List (Text × Json)) :
    compactFields (f :: f' :: fs) = writtenString f.1 ++ .char ':' ::
      (compact f.2 ++ .char ',' :: compactFields (f' :: fs)) := by
  rw [compactFields, List.append_assoc, List.append_assoc, List.append_assoc]
  · rfl
  · exact List.cons_ne_nil _ _

theorem compactFields_eq_cons (f : Text × Json) (fs : List (Text × Json)) :
    ∃ t, compactFields (f :: fs) = .char '"' :: t := by
  cases fs with
  | nil => exact ⟨_, by rw [compactFields_singleton, writtenString_append]⟩
  | cons f' fs => exact ⟨_, by rw [compactFields_cons, writtenString_append]⟩

theorem fields_compactFields {f : Text × Json} {fs : List (Text × Json)}
    (hregular : ∀ g ∈ f :: fs, Regular depth g.2)
    (hreads : ∀ g ∈ f :: fs, Reads limits depth g.2) {fuel : Nat} {r : Text}
    (hfuel : (compactFields (f :: fs)).length + 1 ≤ fuel) :
    fields limits fuel depth (compactFields (f :: fs) ++ .char '\x7d' :: r) =
      limited limits (overlongField? limits.digits (f :: fs)) (f :: fs, r) := by
  induction fs generalizing f fuel with
  | nil =>
      obtain ⟨fuel, rfl⟩ : ∃ m, fuel = m + 1 := ⟨fuel - 1, by omega⟩
      rw [compactFields_singleton] at hfuel ⊢
      rw [List.length_append, List.length_cons] at hfuel
      rw [List.append_assoc, List.cons_append, overlongField?, overlongField?, Option.or_none]
      apply fields_last
      rw [(hregular f (.head _)).skipGap_compact]
      exact hreads f (.head _) (by omega) (.brace r)
  | cons f' fs ih =>
      obtain ⟨fuel, rfl⟩ : ∃ m, fuel = m + 1 := ⟨fuel - 1, by omega⟩
      rw [compactFields_cons] at hfuel ⊢
      rw [List.length_append, List.length_cons, List.length_append, List.length_cons] at hfuel
      rw [List.append_assoc, List.cons_append, List.append_assoc, List.cons_append]
      have hclose := Closes.comma (compactFields (f' :: fs) ++ .char '\x7d' :: r)
      have hread : value limits fuel depth _ = _ := hreads f (.head _) (by omega) hclose
      rw [← (hregular f (.head _)).skipGap_compact] at hread
      apply fields_more hread
      obtain ⟨t, hcons⟩ := compactFields_eq_cons f' fs
      have hskip : skipGap (compactFields (f' :: fs) ++ .char '\x7d' :: r) =
          compactFields (f' :: fs) ++ .char '\x7d' :: r := by
        rw [hcons]
        exact skipGap_cons rfl _
      rw [hskip]
      exact ih (fun k hk => hregular k (.tail _ hk)) (fun k hk => hreads k (.tail _ hk)) (by omega)

theorem reads_object {fs : List (Text × Json)} (hkeys : (fs.map Prod.fst).Nodup)
    (hregular : ∀ f ∈ fs, Regular depth f.2) (hreads : ∀ f ∈ fs, Reads limits depth f.2) :
    Reads limits (depth + 1) (.object fs) := by
  intro fuel r hfuel hr
  have htext : compact (.object fs) ++ r =
      .char '\x7b' :: (compactFields fs ++ .char '\x7d' :: r) := by
    simp [compact, Text.ofString]
  have hlength : (compact (.object fs)).length = (compactFields fs).length + 2 := by
    simp [compact, Text.ofString]
  obtain ⟨fuel, rfl⟩ : ∃ m, fuel = m + 1 := ⟨fuel - 1, by omega⟩
  rw [htext]
  cases fs with
  | nil => rfl
  | cons f fs =>
      have hfields : fields limits fuel depth (compactFields (f :: fs) ++ .char '\x7d' :: r) =
          limited limits (overlongField? limits.digits (f :: fs)) (f :: fs, r) :=
        fields_compactFields hregular hreads (by omega)
      obtain ⟨t, hcons⟩ := compactFields_eq_cons f fs
      rw [hcons, List.cons_append] at hfields ⊢
      rw [value, skipGap_cons rfl]
      change (fields limits fuel depth _ >>= _) = _
      rw [hfields, overlong?]
      cases overlongField? limits.digits (f :: fs) with
      | some d => rfl
      | none =>
          change Except.ok (object (Entries.joined (f :: fs)), r) = _
          rw [Entries.joined_of_nodup hkeys]
          rfl

theorem Regular.reads {j : Json} (h : Regular depth j) : Reads limits depth j := by
  induction h with
  | null => exact reads_null
  | bool b => exact reads_bool b
  | int n => exact reads_int n
  | real hx => exact reads_real hx
  | string t => exact reads_string t
  | array hjs ih => exact reads_array hjs ih
  | object hkeys hfs ih => exact reads_object hkeys hfs ih

/-- A regular value within the limits of depth is read back from its compact form, unless an integer
is too long. -/
theorem parse_compact {j : Json} (h : Regular limits.depth j) :
    parse limits (compact j) = limited limits (j.overlong? limits.digits) j := by
  have hread : value limits (2 * (compact j).length + 2) limits.depth (skipGap (compact j)) =
      limited limits (j.overlong? limits.digits) (j, []) := by
    have hskip := h.skipGap_compact []
    rw [List.append_nil] at hskip
    have hreads : Reads limits limits.depth j := h.reads
    rw [hskip]
    simpa using hreads (by omega) .nil
  rw [parse, hread]
  cases j.overlong? limits.digits <;> rfl

theorem overlongItem?_eq_none_iff {limit : Nat} {js : List Json} :
    overlongItem? limit js = none ↔ ∀ j ∈ js, j.overlong? limit = none := by
  induction js with
  | nil => simp [overlongItem?]
  | cons j js ih => simp [overlongItem?, ih]

theorem overlongField?_eq_none_iff {limit : Nat} {fs : List (Text × Json)} :
    overlongField? limit fs = none ↔ ∀ f ∈ fs, f.2.overlong? limit = none := by
  induction fs with
  | nil => simp [overlongField?]
  | cons f fs ih => simp [overlongField?, ih]

/-- No integer is beyond the limit exactly if every one is within it. -/
theorem Regular.overlong?_eq_none_iff {j : Json} (h : Regular depth j) {limit : Nat} :
    j.overlong? limit = none ↔ j.integersWithin limit = true := by
  induction h with
  | null => simp [overlong?, integersWithin]
  | bool b => simp [overlong?, integersWithin]
  | int n => simp [overlong?, integersWithin]
  | real hx => simp [overlong?, integersWithin]
  | string t => simp [overlong?, integersWithin]
  | array _ ih =>
      rw [overlong?, integersWithin, itemsWithin_iff, overlongItem?_eq_none_iff]
      exact forall₂_congr ih
  | object _ _ ih =>
      rw [overlong?, integersWithin, fieldsWithin_iff, overlongField?_eq_none_iff]
      exact forall₂_congr ih

end Json

end ScriptReview
