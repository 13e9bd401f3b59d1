import Mathlib.Data.List.Basic
import ScriptReview.Json.Reader
import ScriptReview.Json.Writer

namespace ScriptReview

namespace Json

def pieceOf : Symbol → Piece
  | .char c =>
    if c.toNat < 0x20 ∧ c.toNat ∉ [0x08, 0x09, 0x0A, 0x0C, 0x0D] then .unit c.toNat
    else .plain (.char c)
  | s => .plain s

theorem pieces?_short {e c : Char} (he : shortEscape? e = some c) (rest : Text) :
    pieces? (.char '\\' :: .char e :: rest) =
      (pieces? rest).map fun r => (.plain (.char c) :: r.1, r.2) := by
  have hu : e ≠ 'u' := by
    rintro rfl
    simp [shortEscape?] at he
  rw [pieces?]
  · rw [he]
    cases pieces? rest <;> rfl
  · exact fun _ _ _ _ _ _ h => hu h

theorem pieces?_unit {a b c d : Symbol} {u : Nat} (h : unit? a b c d = some u) (rest : Text) :
    pieces? (.char '\\' :: .char 'u' :: a :: b :: c :: d :: rest) =
      (pieces? rest).map fun r => (.unit u :: r.1, r.2) := by
  rw [pieces?, h]
  cases pieces? rest <;> rfl

theorem pieces?_plain {s : Symbol} (hs : 0x20 ≤ s.code) (hq : s ≠ .char '"')
    (hb : s ≠ .char '\\') (rest : Text) :
    pieces? (s :: rest) = (pieces? rest).map fun r => (.plain s :: r.1, r.2) := by
  have hcode : s.code ≠ 0x5C := by
    intro h
    cases s with
    | char c => exact hb (congrArg _ (Char.toNat_inj.1 h))
    | surrogate u => simp only [Symbol.code] at h; omega
  have hguard : ¬(decide (s.code < 0x20) || s.code == 0x5C) = true := by
    simp only [Bool.or_eq_true, decide_eq_true_eq, beq_iff_eq]
    omega
  rw [pieces?, if_neg hguard]
  · cases pieces? rest <;> rfl
  · exact fun h => hq h
  · exact fun _ _ _ _ _ h _ => hb h
  · exact fun _ _ h _ => hb h

theorem unit?_control : ∀ n < 0x20, unit? (.char '0') (.char '0') (.char (Hex.digit (n / 16 % 16)))
    (.char (Hex.digit (n % 16))) = some n := by
  decide

theorem pieces?_escaped (s : Symbol) (rest : Text) :
    pieces? (escaped s ++ rest) = (pieces? rest).map fun r => (pieceOf s :: r.1, r.2) := by
  cases s with
  | surrogate u =>
      apply pieces?_plain _ (by simp) (by simp)
      simp only [Symbol.code]
      omega
  | char c =>
      have hshort : ∀ {n : Nat} {e : Char}, c.toNat = n → n ∈ [0x08, 0x09, 0x0A, 0x0C, 0x0D] →
          shortEscape? e = some (Char.ofNat n) → pieces? (.char '\\' :: .char e :: rest) =
            (pieces? rest).map fun r => (pieceOf (.char c) :: r.1, r.2) := by
        rintro n e rfl hn he
        have hc : pieceOf (.char c) = .plain (.char c) := by simp only [pieceOf, hn]; simp
        rw [hc]
        exact pieces?_short (he.trans (congrArg _ (Char.ofNat_toNat c))) rest
      simp only [escaped]
      split_ifs with hq hb h8 h9 hA hC hD hlow
      · subst c
        exact pieces?_short rfl rest
      · subst c
        exact pieces?_short rfl rest
      · exact hshort h8 (by decide) (by decide)
      · exact hshort h9 (by decide) (by decide)
      · exact hshort hA (by decide) (by decide)
      · exact hshort hC (by decide) (by decide)
      · exact hshort hD (by decide) (by decide)
      · have hc : pieceOf (.char c) = .unit c.toNat := by
          simp [pieceOf, hlow, h8, h9, hA, hC, hD]
        rw [hc, ← pieces?_unit (unit?_control _ hlow) rest]
        rfl
      · have hc : pieceOf (.char c) = .plain (.char c) := by simp [pieceOf, hlow]
        rw [hc]
        exact pieces?_plain (by simpa [Symbol.code] using hlow) (by simpa using hq)
          (by simpa using hb) rest

theorem pieces?_writtenString (t rest : Text) :
    pieces? (t.flatMap escaped ++ .char '"' :: rest) = some (t.map pieceOf, rest) := by
  induction t with
  | nil => rfl
  | cons s t ih =>
      rw [List.flatMap_cons, List.append_assoc, pieces?_escaped, ih]
      rfl

theorem join_unit {u : Nat} (hu : Units.isHigh u = false) (ps : List Piece) :
    Piece.join (.unit u :: ps) = Units.lone u :: Piece.join ps := by
  match ps with
  | [] => rfl
  | .plain s :: ps => rfl
  | .unit v :: ps => simp [Piece.join, hu]

theorem join_map_pieceOf (t : Text) : Piece.join (t.map pieceOf) = t := by
  induction t with
  | nil => rfl
  | cons s t ih =>
      rw [List.map_cons]
      cases s with
      | surrogate u => exact congrArg _ ih
      | char c =>
          rw [pieceOf]
          split_ifs with hc
          · have hhigh : Units.isHigh c.toNat = false := by
              simp only [Units.isHigh, Bool.and_eq_false_iff, decide_eq_false_iff_not]
              omega
            have hlone : Units.lone c.toNat = .char c := by
              rw [Units.lone, dif_neg (by omega), Char.ofNat_toNat]
            rw [join_unit hhigh, hlone, ih]
          · exact congrArg _ ih

/-- A string is read back from its written form without the opening quote. -/
theorem string?_writtenString (t rest : Text) :
    string? (t.flatMap escaped ++ .char '"' :: rest) = some (t, rest) := by
  rw [string?, pieces?_writtenString]
  exact congrArg (fun u => some (u, rest)) (join_map_pieceOf t)

inductive Closes : Text → Prop
  | nil : Closes []
  | comma (rest : Text) : Closes (.char ',' :: rest)
  | bracket (rest : Text) : Closes (.char ']' :: rest)
  | brace (rest : Text) : Closes (.char '\x7d' :: rest)

def digits (n : Nat) : Text :=
  (Nat.toDigits 10 n).map .char

@[simp] theorem length_digits (n : Nat) : (digits n).length = (Nat.toDigits 10 n).length :=
  List.length_map _

theorem isDigit_digits {n : Nat} {s : Symbol} (hs : s ∈ digits n) : Decimal.isDigit s = true := by
  obtain ⟨c, hc, rfl⟩ := List.mem_map.1 hs
  exact Nat.isDigit_of_mem_toDigits (by omega) (by omega) hc

theorem ne_of_isDigit {c d : Char} (hc : c.isDigit = true) (hd : d.isDigit = false) : c ≠ d := by
  rintro rfl
  rw [hc] at hd
  cases hd

theorem digitChars_map (cs : List Char) : Decimal.digitChars (cs.map .char) = cs := by
  induction cs with
  | nil => rfl
  | cons c cs ih => exact congrArg _ ih

@[simp] theorem digitsValue_digits (n : Nat) : Decimal.digitsValue (digits n) = n := by
  rw [Decimal.digitsValue, digits, digitChars_map, Nat.ofDigitChars_ten_toDigits]

/-- Digits start with a zero only where that is all of them. -/
theorem digits_eq_zero_or_cons (n : Nat) :
    digits n = [.char '0'] ∨ ∃ c rest, digits n = .char c :: rest ∧ c ≠ '0' := by
  induction n using Nat.strongRecOn with
  | ind n ih =>
      rcases Nat.lt_or_ge n 10 with hn | hn
      · rw [digits, Nat.toDigits_of_lt_base hn]
        by_cases hc : n.digitChar = '0'
        · exact .inl (by rw [hc]; rfl)
        · exact .inr ⟨_, [], rfl, hc⟩
      · have hcons : digits n = digits (n / 10) ++ [.char (n % 10).digitChar] := by
          rw [digits, Nat.toDigits_of_base_le (by omega) hn, List.map_append]
          rfl
        rcases ih (n / 10) (by omega) with h0 | ⟨c, rest, h, hc⟩
        · have hvalue := congrArg Decimal.digitsValue h0
          rw [digitsValue_digits] at hvalue
          have hzero : n / 10 = 0 := hvalue
          omega
        · exact .inr ⟨c, rest ++ [_], by rw [hcons, h]; rfl, hc⟩

theorem takeWhile_digits {ds r : Text} (hd : ∀ s ∈ ds, Decimal.isDigit s = true)
    (hr : r.takeWhile Decimal.isDigit = []) : (ds ++ r).takeWhile Decimal.isDigit = ds := by
  rw [List.takeWhile_append_of_pos hd, hr, List.append_nil]

theorem Closes.takeWhile {r : Text} (hr : Closes r) : r.takeWhile Decimal.isDigit = [] := by
  cases hr <;> rfl

theorem Closes.fraction? {r : Text} (hr : Closes r) : fraction? r = none := by
  cases hr <;> rfl

theorem Closes.exponent? {r : Text} (hr : Closes r) : exponent? r = none := by
  cases hr <;> rfl

theorem whole?_digits (n : Nat) {r : Text} (hr : r.takeWhile Decimal.isDigit = []) :
    whole? (digits n ++ r) = some (digits n, r) := by
  have htake := takeWhile_digits (fun s => isDigit_digits (n := n)) hr
  rcases digits_eq_zero_or_cons n with h | ⟨c, rest, h, hc⟩
  · rw [h]
    rfl
  · rw [h] at htake ⊢
    rw [whole?]
    · rw [htake]
      simp
    · intro _ heq
      exact hc (by injection heq with heq; injection heq)

def minus (n : Int) : Text :=
  if n < 0 then [.char '-'] else []

theorem number_eq (n : Int) : Text.number n = minus n ++ digits n.natAbs := by
  rw [Text.number, Int.toString_eq_repr]
  cases n with
  | ofNat m =>
      change Text.ofString m.repr = _
      rw [Text.ofString, Nat.toList_repr]
      rfl
  | negSucc m =>
      change Text.ofString ("-" ++ (m + 1).repr) = _
      rw [Text.ofString, String.toList_append, Nat.toList_repr, minus,
        if_pos (Int.negSucc_lt_zero m)]
      rfl

theorem digits_eq_cons (n : Nat) : ∃ c rest, digits n = .char c :: rest ∧ c.isDigit = true := by
  cases h : digits n with
  | nil => simp [digits, Nat.toDigits_ne_nil] at h
  | cons s rest =>
      have hs : Decimal.isDigit s = true := isDigit_digits (n := n) (by rw [h]; exact .head _)
      cases s with
      | char c => exact ⟨c, rest, rfl, hs⟩
      | surrogate u => simp [Decimal.isDigit, Symbol.satisfies] at hs

/-- An integer starts with none of the characters that are neither a digit nor a minus sign. -/
theorem number_eq_cons (n : Int) :
    ∃ c t, Text.number n = .char c :: t ∧ ∀ d : Char, d.isDigit = false → d ≠ '-' → c ≠ d := by
  rw [number_eq, minus]
  split_ifs
  · exact ⟨_, _, rfl, fun d _ hd => hd.symm⟩
  · obtain ⟨c, rest, hc, hdigit⟩ := digits_eq_cons n.natAbs
    exact ⟨c, rest, hc, fun d hd _ => ne_of_isDigit hdigit hd⟩

/-- An integer is read up to the limit of digits. -/
theorem number_number {limits : Limits} {n : Int} {r : Text} (hr : Closes r) :
    number limits (Text.number n ++ r) =
      if limits.digits < (Nat.toDigits 10 n.natAbs).length then
        .error (.tooLong (Nat.toDigits 10 n.natAbs).length limits.digits)
      else .ok (.int n, r) := by
  obtain ⟨c, rest, hc, hdigit⟩ := digits_eq_cons n.natAbs
  unfold number
  split
  rename_i negative body hsign
  have hbody : (negative, body) = (decide (n < 0), digits n.natAbs ++ r) := by
    rw [← hsign, number_eq, minus]
    by_cases hneg : n < 0
    · rw [if_pos hneg, decide_eq_true hneg]
      rfl
    · rw [if_neg hneg, decide_eq_false hneg, List.nil_append, hc, List.cons_append]
      split
      · rename_i heq
        cases heq
        exact absurd rfl (ne_of_isDigit hdigit rfl)
      · rfl
  cases hbody
  have hvalue : (if decide (n < 0) = true then -(n.natAbs : Int) else n.natAbs) = n := by
    simp only [decide_eq_true_eq]
    omega
  simp only [whole?_digits n.natAbs hr.takeWhile, hr.fraction?, hr.exponent?, length_digits,
    digitsValue_digits, hvalue]

def pointed (whole fraction : Text) : Binary64 :=
  Decimal.toBinary64 {
    negative := false, digits := Decimal.digitsValue (whole ++ fraction)
    count := (whole ++ fraction).length, exponent := 0 - fraction.length }

theorem number_pointed {limits : Limits} {n : Nat} {fraction r : Text} (hne : fraction ≠ [])
    (hd : ∀ s ∈ fraction, Decimal.isDigit s = true) (hr : Closes r) :
    number limits (digits n ++ "." ++ fraction ++ r) =
      .ok (.real (pointed (digits n) fraction), r) := by
  obtain ⟨c, rest, hc, hdigit⟩ := digits_eq_cons n
  have htext : digits n ++ "." ++ fraction ++ r =
      digits n ++ .char '.' :: (fraction ++ r) := by simp [Text.ofString]
  have hwhole := whole?_digits n (r := .char '.' :: (fraction ++ r)) rfl
  have htake := takeWhile_digits hd hr.takeWhile
  have hfraction : fraction? (.char '.' :: (fraction ++ r)) = some (fraction, r) := by
    rw [fraction?, htake]
    simp [hne]
  have hsign : c ≠ '-' := ne_of_isDigit hdigit rfl
  rw [htext]
  unfold number
  split
  rename_i negative body heq
  have hbody : (negative, body) = (false, digits n ++ .char '.' :: (fraction ++ r)) := by
    rw [← heq, hc]
    split
    · rename_i hminus
      cases hminus
      exact absurd rfl hsign
    · rfl
  cases hbody
  simp [hwhole, hfraction, hr.exponent?, pointed]

theorem word?_eq_none {t : Text} (h : ∀ word ∈ ["null", "true", "false", "NaN", "Infinity",
    "-Infinity"], t.startsWith word = false) : word? t = none := by
  have hafter : ∀ word ∈ ["null", "true", "false", "NaN", "Infinity", "-Infinity"],
      after? word t = none := by
    intro word hword
    simp only [after?, h word hword, Bool.false_eq_true, if_false]
  simp only [List.forall_mem_cons] at hafter
  obtain ⟨hnull, htrue, hfalse, hnan, hinf, hneg, -⟩ := hafter
  simp only [word?, hnull, htrue, hfalse, hnan, hinf, hneg]

theorem word?_digit (n : Int) {c : Char} (hc : c.isDigit = true) (t : Text) :
    word? (minus n ++ .char c :: t) = none := by
  have hne : ∀ d : Char, d.isDigit = false → d ≠ c := fun d hd => (ne_of_isDigit hc hd).symm
  apply word?_eq_none
  rw [minus]
  split_ifs <;>
    simp [Text.startsWith, Text.ofString, List.isPrefixOf, hne 'n' rfl, hne 't' rfl, hne 'f' rfl,
      hne 'N' rfl, hne 'I' rfl, hne '-' rfl]

theorem word?_number (n : Int) (r : Text) : word? (Text.number n ++ r) = none := by
  obtain ⟨c, rest, hc, hdigit⟩ := digits_eq_cons n.natAbs
  rw [number_eq, hc, List.append_assoc]
  exact word?_digit n hdigit _

end Json

end ScriptReview
