import Mathlib.Algebra.Ring.Nat
import ScriptReview.Instant
import ScriptReview.Proofs.Json.Tokens

namespace ScriptReview

namespace Instant

structure IsUtc (i : Instant) : Prop where
  valid : i.isValid = true
  year : i.year ≤ 9999
  microsecond : i.microsecond < 1000000
  offset : i.offset = some 0

theorem length_zeroPadded {width n : Nat} (hw : 0 < width) (hn : n < 10 ^ width) :
    (zeroPadded width n).length = width := by
  have hlength := (Nat.length_toDigits_le_iff (by omega) hw).2 hn
  simp only [zeroPadded, List.length_append, List.length_replicate]
  omega

theorem isDigit_zeroPadded {width n : Nat} {c : Char} (hc : c ∈ zeroPadded width n) :
    c.isDigit = true := by
  rcases List.mem_append.1 hc with hc | hc
  · rw [List.eq_of_mem_replicate hc]
    rfl
  · exact Nat.isDigit_of_mem_toDigits (by omega) (by omega) hc

def padded (width n : Nat) : Text :=
  (zeroPadded width n).map .char

theorem length_padded {width n : Nat} (hw : 0 < width) (hn : n < 10 ^ width) :
    (padded width n).length = width := by
  rw [padded, List.length_map, length_zeroPadded hw hn]

theorem isDigit_padded {width n : Nat} {s : Symbol} (hs : s ∈ padded width n) :
    Decimal.isDigit s = true := by
  obtain ⟨c, hc, rfl⟩ := List.mem_map.1 hs
  exact isDigit_zeroPadded hc

theorem digitsValue_padded (width n : Nat) : Decimal.digitsValue (padded width n) = n := by
  rw [Decimal.digitsValue, padded, Json.digitChars_map, zeroPadded, Nat.ofDigitChars_append,
    Nat.ofDigitChars_replicate_zero, Nat.mul_zero, Nat.ofDigitChars_ten_toDigits]

theorem digits?_padded {width n : Nat} (hw : 0 < width) (hn : n < 10 ^ width) (rest : Text) :
    digits? width (padded width n ++ rest) = some (n, rest) := by
  have hlength := length_padded hw hn
  have htake : (padded width n ++ rest).take width = padded width n := List.take_left' hlength
  have hall : (padded width n).all Decimal.isDigit = true := by
    rw [List.all_eq_true]
    exact fun s hs => isDigit_padded hs
  rw [digits?, htake, if_pos ⟨hlength, hall⟩, digitsValue_padded, List.drop_left' hlength]

theorem fraction?_padded {n : Nat} (hn : n < 1000000) {rest : Text}
    (hrest : rest.takeWhile Decimal.isDigit = []) :
    fraction? (padded 6 n ++ rest) = some (n, rest) := by
  have hlength : (padded 6 n).length = 6 := length_padded (by omega) (by omega)
  have htake : (padded 6 n ++ rest).takeWhile Decimal.isDigit = padded 6 n :=
    Json.takeWhile_digits (fun s => isDigit_padded) hrest
  have hne : (padded 6 n).isEmpty = false := by
    rw [List.isEmpty_eq_false_iff, ← List.length_pos_iff, hlength]
    omega
  simp only [fraction?, htake, hne, Bool.false_eq_true, if_false, List.take_left' hlength,
    digitsValue_padded, List.drop_left]

theorem daysIn_le (year month : Nat) : daysIn year month ≤ 31 := by
  rw [daysIn]
  split_ifs <;> omega

theorem digits?_two {n : Nat} (hn : n < 100) (rest : Text) :
    digits? 2 (padded 2 n ++ rest) = some (n, rest) :=
  digits?_padded (by omega) (by omega) rest

theorem digits?_four {n : Nat} (hn : n ≤ 9999) (rest : Text) :
    digits? 4 (padded 4 n ++ rest) = some (n, rest) :=
  digits?_padded (by omega) (by omega) rest

def writtenSeconds (second micro : Nat) : Text :=
  Symbol.char ':' :: (padded 2 second ++
    if micro = 0 then [Symbol.char 'Z']
    else Symbol.char '.' :: (padded 6 micro ++ [Symbol.char 'Z']))

theorem seconds?_writtenSeconds {second micro : Nat} (hs : second < 60) (hm : micro < 1000000) :
    seconds? (writtenSeconds second micro) = some (second, micro, [Symbol.char 'Z']) := by
  have htwo := digits?_two (by omega : second < 100)
  rw [writtenSeconds]
  by_cases h0 : micro = 0
  · rw [if_pos h0, h0]
    simp [seconds?, mark?, htwo]
  · have hfraction : fraction? (padded 6 micro ++ [Symbol.char 'Z']) =
        some (micro, [Symbol.char 'Z']) := fraction?_padded hm rfl
    rw [if_neg h0]
    simp [seconds?, mark?, htwo, hfraction]

theorem written_eq {i : Instant} (h : i.offset = some 0) :
    i.written = padded 4 i.year ++ Symbol.char '-' :: (padded 2 i.month ++
      Symbol.char '-' :: (padded 2 i.day ++ Symbol.char 'T' :: (padded 2 i.hour ++
        Symbol.char ':' :: (padded 2 i.minute ++ writtenSeconds i.second i.microsecond)))) := by
  rw [written, writtenSeconds, h]
  split_ifs <;> simp [padded, offsetText]

theorem read?_written {i : Instant} (h : i.IsUtc) : read? i.written = some i := by
  rw [written_eq h.offset]
  obtain ⟨year, month, day, hour, minute, second, microsecond, offset⟩ := i
  obtain ⟨hvalid, hyear, hmicro, rfl⟩ := h
  have hfields := hvalid
  simp only [isValid, Bool.and_eq_true, decide_eq_true_eq] at hfields hyear hmicro
  obtain ⟨⟨⟨⟨⟨⟨⟨-, -⟩, hmonth⟩, -⟩, hday⟩, hhour⟩, hminute⟩, hsecond⟩ := hfields
  have hdays := daysIn_le year month
  simp [read?, mark?, digits?_four hyear, digits?_two (by omega : month < 100),
    digits?_two (by omega : day < 100), digits?_two (by omega : hour < 100),
    digits?_two (by omega : minute < 100), seconds?_writtenSeconds hsecond hmicro, offset?, hvalid]

end Instant

end ScriptReview
