import Mathlib.Data.List.Basic
import ScriptReview.Number.Total
import ScriptReview.Text.Utf8

namespace ScriptReview

theorem Text.exists_of_utf8?_cons {s : Symbol} {t : Text} {octets : List UInt8}
    (h : utf8? (s :: t) = some octets) :
    ∃ c rest, s = .char c ∧ t.utf8? = some rest ∧ octets = String.utf8EncodeChar c ++ rest := by
  cases s with
  | surrogate u => simp [utf8?] at h
  | char c =>
      obtain ⟨rest, hrest, rfl⟩ := Option.map_eq_some_iff.mp h
      exact ⟨c, rest, rfl, hrest, rfl⟩

namespace Utf8

theorem decodeFrom_cons (p : Option Pending) (b : UInt8) (rest : List UInt8) :
    decodeFrom p (b :: rest) = (step p b.toNat).1 ++ decodeFrom (step p b.toNat).2 rest := by
  cases p <;> rfl

theorem decodeFrom_ofNat (p : Option Pending) {b : Nat} (hb : b < 256) (rest : List UInt8) :
    decodeFrom p (UInt8.ofNat b :: rest) = (step p b).1 ++ decodeFrom (step p b).2 rest := by
  rw [decodeFrom_cons, UInt8.toNat_ofNat_of_lt' hb]

def IsTail (b : Nat) : Prop := 0x80 ≤ b ∧ b ≤ 0xBF

theorem IsTail.lt {b : Nat} (h : IsTail b) : b < 256 := by
  obtain ⟨-, hhigh⟩ := h
  omega

theorem decodeFrom_more {b low high : Nat} (hb : IsTail b) (h : low ≤ b ∧ b ≤ high)
    (bits owed : Nat) (rest : List UInt8) :
    decodeFrom (some ⟨bits, owed + 2, low, high⟩) (UInt8.ofNat b :: rest) =
      decodeFrom (some ⟨bits * 64 + (b - 0x80), owed + 1, 0x80, 0xBF⟩) rest := by
  rw [decodeFrom_ofNat _ hb.lt]
  simp [step, h]

theorem decodeFrom_last {b : Nat} (hb : IsTail b) (bits : Nat) (rest : List UInt8) :
    decodeFrom (some ⟨bits, 1, 0x80, 0xBF⟩) (UInt8.ofNat b :: rest) =
      .char (Char.ofNat (bits * 64 + (b - 0x80))) :: decode rest := by
  rw [decodeFrom_ofNat _ hb.lt]
  obtain ⟨hlow, hhigh⟩ := hb
  simp [step, hlow, hhigh, decode]

theorem decode_one {a : Nat} (ha : a < 0x80) (rest : List UInt8) :
    decode (UInt8.ofNat a :: rest) = .char (Char.ofNat a) :: decode rest := by
  rw [decode, decodeFrom_ofNat _ (by omega), step, start, if_pos ha]
  rfl

theorem decode_two {a x : Nat} (hlow : 0xC2 ≤ a) (hhigh : a < 0xE0) (hx : IsTail x)
    (rest : List UInt8) :
    decode (UInt8.ofNat a :: UInt8.ofNat x :: rest) =
      .char (Char.ofNat ((a - 0xC0) * 64 + (x - 0x80))) :: decode rest := by
  have hstart : start a = ([], some ⟨a - 0xC0, 1, 0x80, 0xBF⟩) := by
    rw [start, if_neg (by omega), if_neg (by omega), if_pos hhigh]
  rw [decode, decodeFrom_ofNat _ (by omega), step, hstart]
  exact decodeFrom_last hx _ rest

/-- The second octet is held to a narrower range after two of the octets that open three. -/
theorem exists_start_three {a x : Nat} (hlow : 0xE0 ≤ a) (hhigh : a < 0xF0) (hx : IsTail x)
    (hleast : a = 0xE0 → 0xA0 ≤ x) (hsurrogate : a = 0xED → x ≤ 0x9F) :
    ∃ low high, start a = ([], some ⟨a - 0xE0, 2, low, high⟩) ∧ low ≤ x ∧ x ≤ high := by
  obtain ⟨hxlow, hxhigh⟩ := hx
  rw [start, if_neg (by omega), if_neg (by omega), if_neg (by omega)]
  by_cases hfirst : a = 0xE0
  · exact ⟨0xA0, 0xBF, by simp [hfirst], hleast hfirst, hxhigh⟩
  · by_cases hlast : a = 0xED
    · exact ⟨0x80, 0x9F, by simp [hlast], hxlow, hsurrogate hlast⟩
    · exact ⟨0x80, 0xBF, by simp [hfirst, hlast, hhigh], hxlow, hxhigh⟩

theorem decode_three {a x y : Nat} (hlow : 0xE0 ≤ a) (hhigh : a < 0xF0) (hx : IsTail x)
    (hy : IsTail y) (hleast : a = 0xE0 → 0xA0 ≤ x) (hsurrogate : a = 0xED → x ≤ 0x9F)
    (rest : List UInt8) :
    decode (UInt8.ofNat a :: UInt8.ofNat x :: UInt8.ofNat y :: rest) =
      .char (Char.ofNat (((a - 0xE0) * 64 + (x - 0x80)) * 64 + (y - 0x80))) :: decode rest := by
  obtain ⟨low, high, hstart, hrange⟩ := exists_start_three hlow hhigh hx hleast hsurrogate
  rw [decode, decodeFrom_ofNat _ (by omega), step, hstart, List.nil_append,
    decodeFrom_more hx hrange, decodeFrom_last hy, decode]

theorem exists_start_four {a x : Nat} (hlow : 0xF0 ≤ a) (hhigh : a < 0xF5) (hx : IsTail x)
    (hleast : a = 0xF0 → 0x90 ≤ x) (hgreatest : a = 0xF4 → x ≤ 0x8F) :
    ∃ low high, start a = ([], some ⟨a - 0xF0, 3, low, high⟩) ∧ low ≤ x ∧ x ≤ high := by
  obtain ⟨hxlow, hxhigh⟩ := hx
  simp only [start, beq_iff_eq]
  rw [if_neg (by omega), if_neg (by omega), if_neg (by omega), if_neg (by omega),
    if_neg (by omega), if_neg (by omega)]
  by_cases hfirst : a = 0xF0
  · exact ⟨0x90, 0xBF, by simp [hfirst], hleast hfirst, hxhigh⟩
  · by_cases hlast : a = 0xF4
    · exact ⟨0x80, 0x8F, by simp [hlast], hxlow, hgreatest hlast⟩
    · have hmiddle : a < 0xF4 := by omega
      exact ⟨0x80, 0xBF, by simp [hfirst, hmiddle], hxlow, hxhigh⟩

theorem decode_four {a x y z : Nat} (hlow : 0xF0 ≤ a) (hhigh : a < 0xF5) (hx : IsTail x)
    (hy : IsTail y) (hz : IsTail z) (hleast : a = 0xF0 → 0x90 ≤ x) (hgreatest : a = 0xF4 → x ≤ 0x8F)
    (rest : List UInt8) :
    decode (UInt8.ofNat a :: UInt8.ofNat x :: UInt8.ofNat y :: UInt8.ofNat z :: rest) =
      .char (Char.ofNat ((((a - 0xF0) * 64 + (x - 0x80)) * 64 + (y - 0x80)) * 64 + (z - 0x80))) ::
        decode rest := by
  obtain ⟨low, high, hstart, hrange⟩ := exists_start_four hlow hhigh hx hleast hgreatest
  rw [decode, decodeFrom_ofNat _ (by omega), step, hstart, List.nil_append,
    decodeFrom_more hx hrange, decodeFrom_more hy hy, decodeFrom_last hz, decode]

theorem decode_encodeChar_append (c : Char) (rest : List UInt8) :
    decode (String.utf8EncodeChar c ++ rest) = .char c :: decode rest := by
  have hvalid : c.toNat < 0xD800 ∨ 0xDFFF < c.toNat ∧ c.toNat < 0x110000 := c.valid
  have htail (n : Nat) : IsTail (n % 64 + 0x80) := ⟨by omega, by omega⟩
  have hchar {n : Nat} (h : n = c.toNat) : Symbol.char (Char.ofNat n) = .char c := by
    rw [h, Char.ofNat_toNat]
  rw [String.utf8EncodeChar]
  simp only [show c.val.toNat = c.toNat from rfl]
  split_ifs with hone htwo hthree
  · refine (decode_one (by omega) rest).trans ?_
    exact congrArg (· :: decode rest) (hchar rfl)
  · refine (decode_two (by omega) (by omega) (htail _) rest).trans ?_
    exact congrArg (· :: decode rest) (hchar (by omega))
  · refine (decode_three (by omega) (by omega) (htail _) (htail _) (by omega) (by omega) rest).trans
      ?_
    exact congrArg (· :: decode rest) (hchar (by omega))
  · refine (decode_four (by omega) (by omega) (htail _) (htail _) (htail _) (by omega) (by omega)
      rest).trans ?_
    exact congrArg (· :: decode rest) (hchar (by omega))

theorem decode_append {t : Text} {octets : List UInt8} (h : t.utf8? = some octets)
    (rest : List UInt8) : decode (octets ++ rest) = t ++ decode rest := by
  induction t generalizing octets with
  | nil =>
      cases h
      rfl
  | cons s t ih =>
      obtain ⟨c, following, rfl, hfollowing, rfl⟩ := Text.exists_of_utf8?_cons h
      rw [List.append_assoc, decode_encodeChar_append, ih hfollowing, List.cons_append]

theorem decode_eq {t : Text} {octets : List UInt8} (h : t.utf8? = some octets) :
    decode octets = t := by
  have hdecode := decode_append h []
  rwa [List.append_nil, show decode [] = [] from rfl, List.append_nil] at hdecode

end Utf8

def Symbol.width : Symbol → Nat
  | .char c => c.utf8Size
  | .surrogate _ => 3

theorem Symbol.width_pos (s : Symbol) : 0 < s.width := by
  cases s with
  | char c => exact c.utf8Size_pos
  | surrogate u => exact Nat.succ_pos 2

namespace Text

def width (t : Text) : Nat :=
  total (t.map Symbol.width)

@[simp] theorem width_nil : width [] = 0 := rfl

@[simp] theorem width_cons (s : Symbol) (t : Text) : width (s :: t) = s.width + width t := rfl

@[simp] theorem width_append (t u : Text) : width (t ++ u) = t.width + u.width := by
  rw [width, List.map_append, total_append, width, width]

theorem eq_nil_of_width_eq_zero {t : Text} (h : t.width = 0) : t = [] := by
  cases t with
  | nil => rfl
  | cons s t =>
      have hpos := s.width_pos
      rw [width_cons] at h
      omega

theorem length_of_utf8? {t : Text} {octets : List UInt8} (h : t.utf8? = some octets) :
    octets.length = t.width := by
  induction t generalizing octets with
  | nil =>
      cases h
      rfl
  | cons s t ih =>
      obtain ⟨c, following, rfl, hfollowing, rfl⟩ := exists_of_utf8?_cons h
      rw [List.length_append, String.length_utf8EncodeChar, ih hfollowing, width_cons]
      rfl

theorem exists_of_utf8?_append {t u : Text} {octets : List UInt8}
    (h : (t ++ u).utf8? = some octets) :
    ∃ x y, t.utf8? = some x ∧ u.utf8? = some y ∧ octets = x ++ y := by
  induction t generalizing octets with
  | nil => exact ⟨[], octets, rfl, h, rfl⟩
  | cons s t ih =>
      obtain ⟨c, following, rfl, hfollowing, rfl⟩ := exists_of_utf8?_cons h
      obtain ⟨x, y, hx, hy, rfl⟩ := ih hfollowing
      exact ⟨String.utf8EncodeChar c ++ x, y, by simp [utf8?, hx], hy, by simp⟩

/-- An offset, counted in octets, that no character of the text reaches across. -/
def IsBoundary (t : Text) (i : Nat) : Prop :=
  ∃ before after, t = before ++ after ∧ before.width = i

def IsBetween (t : Text) (start stop : Nat) (part : Text) : Prop :=
  ∃ before after, t = before ++ (part ++ after) ∧ before.width = start ∧
    before.width + part.width = stop

theorem isBoundary_iff {t : Text} {i : Nat} :
    t.IsBoundary i ↔ ∃ k ∈ List.range (t.length + 1), width (t.take k) = i := by
  constructor
  · rintro ⟨before, after, rfl, rfl⟩
    have hlength : before.length < (before ++ after).length + 1 := by
      rw [List.length_append]
      omega
    exact ⟨before.length, List.mem_range.mpr hlength, by simp⟩
  · rintro ⟨k, -, hk⟩
    exact ⟨t.take k, t.drop k, (List.take_append_drop k t).symm, hk⟩

instance (t : Text) (i : Nat) : Decidable (t.IsBoundary i) :=
  decidable_of_iff _ isBoundary_iff.symm

theorem IsBetween.isBoundary_start {t part : Text} {i j : Nat} (h : t.IsBetween i j part) :
    t.IsBoundary i := by
  obtain ⟨before, after, rfl, rfl, -⟩ := h
  exact ⟨before, part ++ after, rfl, rfl⟩

theorem IsBetween.isBoundary_stop {t part : Text} {i j : Nat} (h : t.IsBetween i j part) :
    t.IsBoundary j := by
  obtain ⟨before, after, rfl, rfl, rfl⟩ := h
  exact ⟨before ++ part, after, by simp, width_append before part⟩

theorem eq_of_width_eq {a b x y : Text} (h : a ++ x = b ++ y) (hwidth : a.width = b.width) :
    a = b ∧ x = y := by
  rcases List.append_eq_append_iff.mp h with ⟨d, rfl, rfl⟩ | ⟨d, rfl, rfl⟩
  all_goals
    rw [width_append] at hwidth
    obtain rfl : d = [] := eq_nil_of_width_eq_zero (by omega)
    simp

theorem exists_isBetween {t : Text} {i j : Nat} (hi : t.IsBoundary i) (hj : t.IsBoundary j)
    (h : i ≤ j) : ∃ part, t.IsBetween i j part := by
  obtain ⟨before, after, rfl, rfl⟩ := hi
  obtain ⟨before', after', heq, rfl⟩ := hj
  rcases List.append_eq_append_iff.mp heq with ⟨d, rfl, rfl⟩ | ⟨d, rfl, rfl⟩
  · exact ⟨d, before, after', rfl, rfl, (width_append before d).symm⟩
  · rw [width_append] at h ⊢
    obtain rfl : d = [] := eq_nil_of_width_eq_zero (by omega)
    exact ⟨[], before', after, by simp, by simp, by simp⟩

theorem IsBetween.append {t u v : Text} {i j k : Nat} (h : t.IsBetween i j u)
    (h' : t.IsBetween j k v) : t.IsBetween i k (u ++ v) := by
  obtain ⟨before, after, rfl, rfl, hj⟩ := h
  obtain ⟨before', after', heq, hj', rfl⟩ := h'
  rw [← List.append_assoc] at heq
  obtain ⟨rfl, rfl⟩ := eq_of_width_eq heq (by rw [width_append, hj, hj'])
  exact ⟨before, after', by simp, rfl, by simp [Nat.add_assoc]⟩

end Text

namespace Utf8

theorem mem_encodeChar {c : Char} {b : UInt8} (hmem : b ∈ String.utf8EncodeChar c)
    (hb : b.toNat < 0x80) : String.utf8EncodeChar c = [b] ∧ b.toNat = c.toNat := by
  have hwide (n : Nat) (hlow : 0x80 ≤ n) (hhigh : n < 256) : b ≠ UInt8.ofNat n := by
    rintro rfl
    rw [UInt8.toNat_ofNat_of_lt' hhigh] at hb
    omega
  rw [String.utf8EncodeChar] at hmem ⊢
  simp only [show c.val.toNat = c.toNat from rfl] at hmem ⊢
  split_ifs at hmem ⊢ with hone htwo hthree
  · rw [List.mem_singleton] at hmem
    rw [hmem, UInt8.toNat_ofNat_of_lt' (show c.toNat < 256 by omega)]
    exact ⟨rfl, rfl⟩
  all_goals simp only [List.mem_cons, List.not_mem_nil, or_false] at hmem
  · rcases hmem with h | h <;> exact absurd h (hwide _ (by omega) (by omega))
  · rcases hmem with h | h | h <;> exact absurd h (hwide _ (by omega) (by omega))
  · rcases hmem with h | h | h | h <;> exact absurd h (hwide _ (by omega) (by omega))

end Utf8

theorem Text.IsBetween.cons {t part : Text} {i j : Nat} (s : Symbol) (h : t.IsBetween i j part) :
    IsBetween (s :: t) (s.width + i) (s.width + j) part := by
  obtain ⟨before, after, rfl, rfl, rfl⟩ := h
  exact ⟨s :: before, after, rfl, rfl, by simp [Nat.add_assoc]⟩

/-- An ASCII octet of a text is a character of its own. -/
theorem Text.isBetween_of_getElem? {t : Text} {octets : List UInt8} (h : t.utf8? = some octets)
    {i : Nat} {c : Char} (hc : c.toNat < 0x80) {b : UInt8} (hb : octets[i]? = some b)
    (hbc : b.toNat = c.toNat) : t.IsBetween i (i + 1) [.char c] := by
  induction t generalizing octets i with
  | nil =>
      cases h
      simp at hb
  | cons s t ih =>
      obtain ⟨d, following, rfl, hfollowing, rfl⟩ := exists_of_utf8?_cons h
      by_cases hi : i < (String.utf8EncodeChar d).length
      · rw [List.getElem?_append_left hi] at hb
        obtain ⟨hone, hd⟩ := Utf8.mem_encodeChar (List.mem_of_getElem? hb) (by omega)
        obtain rfl : d = c := Char.toNat_inj.mp (hd.symm.trans hbc)
        have hsize := String.length_utf8EncodeChar d
        rw [hone, List.length_singleton] at hi hsize
        obtain rfl : i = 0 := by omega
        exact ⟨[], t, rfl, rfl, by simp [Symbol.width, ← hsize]⟩
      · rw [List.getElem?_append_right (by omega), String.length_utf8EncodeChar] at hb
        rw [String.length_utf8EncodeChar] at hi
        have hrest := (ih hfollowing hb).cons (.char d)
        rwa [Symbol.width, ← Nat.add_assoc, Nat.add_sub_cancel' (Nat.le_of_not_lt hi)] at hrest

namespace Utf8

/-- Whether the character under way, if there is one, can only become one beyond ASCII. -/
def IsWide : Option Pending → Prop
  | none => True
  | some p => 2 ≤ p.bits ∨ 2 ≤ p.owed ∧ 2 ≤ p.bits * 64 + (p.low - 0x80)

theorem isWide_none : IsWide none := trivial

/-- An octet between characters: a character of its own, no part of any, or the first of several. -/
theorem start_cases (b : Nat) :
    start b = ([.char (Char.ofNat b)], none) ∨ start b = ([replacement], none) ∨
      ∃ p, start b = ([], some p) ∧ IsWide (some p) := by
  fun_cases start b with
  | case1 => exact .inl rfl
  | case2 | case10 => exact .inr (.inl rfl)
  | case3 hascii hstray => exact .inr (.inr ⟨_, rfl, .inl (by dsimp only; omega)⟩)
  | case4 | case7 => exact .inr (.inr ⟨_, rfl, .inr (by decide)⟩)
  | case5 | case9 => exact .inr (.inr ⟨_, rfl, .inl (by decide)⟩)
  | case6 hascii hstray htwo hleast =>
      rw [beq_iff_eq] at hleast
      exact .inr (.inr ⟨_, rfl, .inr ⟨Nat.le_refl 2, by dsimp only; omega⟩⟩)
  | case8 hascii hstray htwo hleast hsurrogate hthree hfirst =>
      rw [beq_iff_eq] at hfirst
      exact .inr (.inr ⟨_, rfl, .inr ⟨Nat.le_succ 2, by dsimp only; omega⟩⟩)

/-- An octet within a character: it ends the character, goes on with it, or breaks it off. -/
theorem step_some_cases {p : Pending} (hp : IsWide (some p)) (b : Nat) :
    (p.owed ≤ 1 ∧ step (some p) b = ([.char (Char.ofNat (p.bits * 64 + (b - 0x80)))], none)) ∨
      (∃ q, step (some p) b = ([], some q) ∧ IsWide (some q)) ∨
      step (some p) b = (replacement :: (start b).1, (start b).2) := by
  simp only [step]
  split_ifs with hrange howed
  · exact .inl ⟨howed, rfl⟩
  · refine .inr (.inl ⟨_, rfl, .inl ?_⟩)
    simp only [Bool.and_eq_true, decide_eq_true_eq] at hrange
    simp only [IsWide] at hp
    dsimp only
    omega
  · exact .inr (.inr rfl)

theorem isWide_start (b : Nat) : IsWide (start b).2 := by
  rcases start_cases b with h | h | ⟨p, h, hp⟩ <;> rw [h]
  · trivial
  · trivial
  · exact hp

theorem isWide_step {p : Option Pending} (hp : IsWide p) (b : Nat) : IsWide (step p b).2 := by
  cases p with
  | none => exact isWide_start b
  | some p =>
      rcases step_some_cases hp b with ⟨-, h⟩ | ⟨q, h, hq⟩ | h <;> rw [h]
      · trivial
      · exact hq
      · exact isWide_start b

theorem decodeFrom_some_ne_nil {p : Pending} (hp : IsWide (some p)) (octets : List UInt8) :
    decodeFrom (some p) octets ≠ [] := by
  induction octets generalizing p with
  | nil => exact List.cons_ne_nil _ _
  | cons b octets ih =>
      rw [decodeFrom_cons]
      rcases step_some_cases hp b.toNat with ⟨-, h⟩ | ⟨q, h, hq⟩ | h <;> rw [h]
      · exact List.cons_ne_nil _ _
      · exact ih hq
      · exact List.cons_ne_nil _ _

theorem decodeFrom_ne_nil {p : Option Pending} (hp : IsWide p) {octets : List UInt8}
    (h : octets ≠ []) : decodeFrom p octets ≠ [] := by
  obtain ⟨b, rest, rfl⟩ := List.exists_cons_of_ne_nil h
  cases p with
  | some p => exact decodeFrom_some_ne_nil hp _
  | none =>
      rw [decodeFrom_cons, step]
      rcases start_cases b.toNat with h | h | ⟨p, h, hp⟩ <;> rw [h]
      · exact List.cons_ne_nil _ _
      · exact List.cons_ne_nil _ _
      · exact decodeFrom_some_ne_nil hp rest

section

variable {c : Char} (hpos : 0 < c.toNat) (hascii : c.toNat < 0x80)

include hpos

theorem toNat_eq_of_eq_ofNat {n : Nat} (h : c = Char.ofNat n) : n = c.toNat := by
  by_cases hn : n.isValidChar
  · rw [h, show Char.ofNat n = Char.ofNatAux n hn from dif_pos hn]
    rfl
  · rw [h, show Char.ofNat n = '\x00' from dif_neg hn] at hpos
    exact absurd hpos (by decide)

include hascii

theorem ne_replacement : .char c ≠ replacement := by
  intro h
  have hvalue := toNat_eq_of_eq_ofNat hpos (Symbol.char.inj h)
  omega

theorem ne_completed {p : Pending} (hp : IsWide (some p)) (howed : p.owed ≤ 1) (n : Nat) :
    Symbol.char c ≠ .char (Char.ofNat (p.bits * 64 + n)) := by
  intro h
  have hvalue := toNat_eq_of_eq_ofNat hpos (Symbol.char.inj h)
  simp only [IsWide] at hp
  omega

theorem eq_of_mem_start {b : Nat} (hmem : .char c ∈ (start b).1) : b = c.toNat := by
  rcases start_cases b with h | h | ⟨p, h, -⟩ <;> rw [h] at hmem
  · exact toNat_eq_of_eq_ofNat hpos (Symbol.char.inj (List.mem_singleton.mp hmem))
  · exact absurd (List.mem_singleton.mp hmem) (ne_replacement hpos hascii)
  · exact absurd hmem List.not_mem_nil

theorem eq_of_mem_step {p : Option Pending} (hp : IsWide p) {b : Nat}
    (hmem : .char c ∈ (step p b).1) : b = c.toNat := by
  cases p with
  | none => exact eq_of_mem_start hpos hascii hmem
  | some p =>
      rcases step_some_cases hp b with ⟨howed, h⟩ | ⟨q, h, -⟩ | h <;> rw [h] at hmem
      · exact absurd (List.mem_singleton.mp hmem) (ne_completed hpos hascii hp howed _)
      · exact absurd hmem List.not_mem_nil
      · rcases List.mem_cons.mp hmem with hfirst | hrest
        · exact absurd hfirst (ne_replacement hpos hascii)
        · exact eq_of_mem_start hpos hascii hrest

theorem head?_decodeFrom_some {p : Pending} (hp : IsWide (some p)) (octets : List UInt8) :
    (decodeFrom (some p) octets).head? ≠ some (.char c) := by
  have hne {s : Symbol} (hs : .char c ≠ s) (t : Text) : (s :: t).head? ≠ some (.char c) := by
    rintro ⟨⟩
    exact hs rfl
  induction octets generalizing p with
  | nil => exact hne (ne_replacement hpos hascii) []
  | cons b octets ih =>
      rw [decodeFrom_cons]
      rcases step_some_cases hp b.toNat with ⟨howed, h⟩ | ⟨q, h, hq⟩ | h <;> rw [h]
      · exact hne (ne_completed hpos hascii hp howed _) _
      · exact ih hq
      · exact hne (ne_replacement hpos hascii) _

/-- A text that starts with an ASCII character starts with its octet. -/
theorem head?_decode {b : UInt8} {octets : List UInt8}
    (h : (decode (b :: octets)).head? = some (.char c)) : b.toNat = c.toNat := by
  rw [decode, decodeFrom_cons, step] at h
  rcases start_cases b.toNat with hstart | hstart | ⟨p, hstart, hp⟩ <;> rw [hstart] at h
  · exact toNat_eq_of_eq_ofNat hpos (Symbol.char.inj (Option.some_inj.mp h).symm)
  · exact absurd (Option.some_inj.mp h).symm (ne_replacement hpos hascii)
  · exact absurd h (head?_decodeFrom_some hpos hascii hp octets)

theorem getLast?_decodeFrom {p : Option Pending} (hp : IsWide p) {octets : List UInt8} {b : UInt8}
    (h : (decodeFrom p (octets ++ [b])).getLast? = some (.char c)) : b.toNat = c.toNat := by
  induction octets generalizing p with
  | nil =>
      rw [List.nil_append, decodeFrom_cons] at h
      cases hnext : (step p b.toNat).2 with
      | none =>
          rw [hnext, decodeFrom, List.append_nil] at h
          exact eq_of_mem_step hpos hascii hp (List.mem_of_mem_getLast? h)
      | some q =>
          rw [hnext, decodeFrom, List.getLast?_append] at h
          exact absurd (Option.some_inj.mp h).symm (ne_replacement hpos hascii)
  | cons x octets ih =>
      have hwide := isWide_step hp x.toNat
      apply ih hwide
      rw [List.cons_append, decodeFrom_cons,
        List.getLast?_append_of_ne_nil _ (decodeFrom_ne_nil hwide (by simp))] at h
      exact h

end

end Utf8

end ScriptReview
