import Mathlib.Data.List.Basic
import ScriptReview.Proofs.Override

namespace ScriptReview

namespace Text

theorem exists_chars_of_utf8? {t : Text} {octets : List UInt8} (h : t.utf8? = some octets) :
    ∃ cs : List Char, t = cs.map .char ∧ octets = cs.flatMap String.utf8EncodeChar := by
  induction t generalizing octets with
  | nil =>
      cases h
      exact ⟨[], rfl, rfl⟩
  | cons s t ih =>
      cases s with
      | surrogate u => simp [utf8?] at h
      | char c =>
          obtain ⟨rest, hrest, rfl⟩ := Option.map_eq_some_iff.mp h
          obtain ⟨cs, rfl, rfl⟩ := ih hrest
          exact ⟨c :: cs, rfl, rfl⟩

theorem eq_of_utf8?_eq {t u : Text} {octets : List UInt8} (ht : t.utf8? = some octets)
    (hu : u.utf8? = some octets) : t = u := by
  obtain ⟨cs, rfl, rfl⟩ := exists_chars_of_utf8? ht
  obtain ⟨ds, rfl, h⟩ := exists_chars_of_utf8? hu
  have hencode : cs.utf8Encode = ds.utf8Encode := congrArg List.toByteArray h
  rw [← String.toByteArray_ofList, ← String.toByteArray_ofList, String.toByteArray_inj,
    String.ofList_inj] at hencode
  rw [hencode]

/-- Two occurrences of a mark do not overlap. -/
def IsMark (mark : Text) : Prop :=
  ∀ d t u : Text, mark ++ t = d ++ (mark ++ u) → d = [] ∨ mark <+: d

theorem isMark_singleton (s : Symbol) : IsMark [s] := by
  intro d t u h
  cases d with
  | nil => exact .inl rfl
  | cons x d =>
      obtain ⟨rfl, -⟩ := List.cons.inj h
      exact .inr ⟨d, rfl⟩

/-- A text is cut at the first occurrence of a mark in one way. -/
theorem eq_of_append_mark {mark a b t u : Text} (hmark : IsMark mark) (ha : ¬ mark <:+: a)
    (hb : ¬ mark <:+: b) (h : a ++ (mark ++ t) = b ++ (mark ++ u)) : a = b ∧ t = u := by
  rcases List.append_eq_append_iff.mp h with ⟨d, rfl, hd⟩ | ⟨d, rfl, hd⟩
  · rcases hmark d t u hd with rfl | hstart
    · rw [List.nil_append] at hd
      exact ⟨(List.append_nil a).symm, List.append_cancel_left hd⟩
    · exact absurd (hstart.isInfix.trans (List.suffix_append a d).isInfix) hb
  · rcases hmark d u t hd with rfl | hstart
    · rw [List.nil_append] at hd
      exact ⟨List.append_nil b, (List.append_cancel_left hd).symm⟩
    · exact absurd (hstart.isInfix.trans (List.suffix_append b d).isInfix) ha

end Text

/-- A file whose name is a single line and whose content shows no heading after a blank line. -/
structure FileInput.IsPlain (f : FileInput) : Prop where
  name : Symbol.char '\n' ∉ f.filename
  content : f.content.hasPart "\n\n// " = false

instance (f : FileInput) : Decidable f.IsPlain :=
  decidable_of_iff (Symbol.char '\n' ∉ f.filename ∧ f.content.hasPart "\n\n// " = false)
    ⟨fun h => ⟨h.1, h.2⟩, fun h => ⟨h.name, h.content⟩⟩

attribute [ext] FileInput

namespace Fingerprint

def separator : Text := "\n\n// "

theorem not_infix_filename {f : FileInput} (h : f.IsPlain) : ¬ [Symbol.char '\n'] <:+: f.filename := by
  rw [List.singleton_infix_iff]
  exact h.name

theorem not_infix_content {f : FileInput} (h : f.IsPlain) : ¬ separator <:+: f.content := by
  rw [← Text.hasPart_iff_infix]
  exact ne_true_of_eq_false h.content

theorem isMark_separator : Text.IsMark separator := by
  intro d t u h
  simp only [separator, Text.ofString] at h ⊢
  -- A second occurrence that starts within the first would need a line feed where there is none.
  rcases d with _ | ⟨a, _ | ⟨b, _ | ⟨c, _ | ⟨e, _ | ⟨f, d⟩⟩⟩⟩⟩
  · exact .inl rfl
  · simp at h
  · simp at h
  · simp at h
  · simp at h
  · cases h
    exact .inr ⟨d, rfl⟩

def remainder : List FileInput → Text
  | [] => []
  | f :: files => separator ++ (f.filename ++ .char '\n' :: (f.content ++ remainder files))

theorem bundle_cons (f : FileInput) (files : List FileInput) :
    bundle (f :: files) =
      Text.ofString "// " ++ (f.filename ++ .char '\n' :: (f.content ++ remainder files)) := by
  induction files generalizing f with
  | nil => simp [bundle, Text.joinWith, remainder, Text.ofString]
  | cons g files ih =>
      have hjoin : bundle (f :: g :: files) =
          Text.ofString "// " ++ f.filename ++ Text.ofString "\n" ++ f.content ++
            Text.ofString "\n\n" ++ bundle (g :: files) := rfl
      rw [hjoin, ih]
      simp [remainder, separator, Text.ofString]

theorem infix_append_remainder (c : Text) (f : FileInput) (files : List FileInput) :
    separator <:+: c ++ remainder (f :: files) :=
  List.infix_append' c separator _

variable {files others : List FileInput}

/-- The content of a file ends where the separator first follows it, or with the bundle. -/
theorem eq_of_append_remainder {c d : Text} (hc : ¬ separator <:+: c) (hd : ¬ separator <:+: d)
    (h : c ++ remainder files = d ++ remainder others) :
    c = d ∧ remainder files = remainder others := by
  cases files with
  | nil =>
      cases others with
      | nil => exact ⟨List.append_cancel_right h, rfl⟩
      | cons g others =>
          rw [remainder, List.append_nil] at h
          exact absurd (h ▸ infix_append_remainder d g others) hc
  | cons f files =>
      cases others with
      | nil =>
          have hd' : c ++ remainder (f :: files) = d := h.trans (List.append_nil d)
          exact absurd (hd' ▸ infix_append_remainder c f files) hd
      | cons g others =>
          obtain ⟨rfl, hrest⟩ := Text.eq_of_append_mark isMark_separator hc hd h
          exact ⟨rfl, congrArg (separator ++ ·) hrest⟩

/-- A block reads back as one file. -/
theorem eq_of_block_eq {f g : FileInput} (hf : f.IsPlain) (hg : g.IsPlain)
    (h : f.filename ++ .char '\n' :: (f.content ++ remainder files) =
      g.filename ++ .char '\n' :: (g.content ++ remainder others)) :
    f = g ∧ remainder files = remainder others := by
  obtain ⟨hname, hrest⟩ := Text.eq_of_append_mark (Text.isMark_singleton (.char '\n'))
    (not_infix_filename hf) (not_infix_filename hg) h
  obtain ⟨hcontent, hrest⟩ :=
    eq_of_append_remainder (not_infix_content hf) (not_infix_content hg) hrest
  exact ⟨FileInput.ext hname hcontent, hrest⟩

theorem eq_of_remainder_eq (hfiles : ∀ f ∈ files, f.IsPlain) (hothers : ∀ g ∈ others, g.IsPlain)
    (h : remainder files = remainder others) : files = others := by
  induction files generalizing others with
  | nil =>
      cases others with
      | nil => rfl
      | cons g others => cases h
  | cons f files ih =>
      cases others with
      | nil => cases h
      | cons g others =>
          rw [List.forall_mem_cons] at hfiles hothers
          obtain ⟨rfl, hrest⟩ :=
            eq_of_block_eq hfiles.1 hothers.1 (List.append_cancel_left h)
          rw [ih hfiles.2 hothers.2 hrest]

theorem remainder_eq_bundle (files : List FileInput) :
    remainder files = if bundle files = [] then [] else Text.ofString "\n\n" ++ bundle files := by
  cases files with
  | nil => rfl
  | cons f files =>
      rw [bundle_cons]
      rfl

theorem eq_of_bundle_eq (hfiles : ∀ f ∈ files, f.IsPlain) (hothers : ∀ g ∈ others, g.IsPlain)
    (h : bundle files = bundle others) : files = others := by
  apply eq_of_remainder_eq hfiles hothers
  rw [remainder_eq_bundle, remainder_eq_bundle, h]

/-- Two texts with one fingerprint are the same, or their octets make the digest collide. -/
theorem eq_or_collision {t u hash : Text} (ht : ofText? t = some hash)
    (hu : ofText? u = some hash) :
    t = u ∨ ∃ x y, t.utf8? = some x ∧ u.utf8? = some y ∧ x ≠ y ∧
      Digest.sha256 x = Digest.sha256 y := by
  obtain ⟨x, hx, rfl⟩ := Option.map_eq_some_iff.mp ht
  obtain ⟨y, hy, hxy⟩ := Option.map_eq_some_iff.mp hu
  by_cases heq : x = y
  · subst heq
    exact .inl (Text.eq_of_utf8?_eq hx hy)
  · have hdigest := (List.map_inj_right fun _ _ => Symbol.char.inj).mp hxy
    exact .inr ⟨x, y, hx, hy, heq, hdigest.symm⟩

theorem ofText?_of_reviewFiles {r : Reviewer} {elapsed : Binary64} {b : BatchReport}
    (h : r.reviewFiles files elapsed = .ok b) :
    ofText? (bundle files) = some b.fingerprint := by
  obtain ⟨batch, -, h⟩ := bind_eq_ok_iff.mp h
  obtain ⟨hash, hhash, h⟩ := bind_eq_ok_iff.mp h
  cases h
  rw [mapError_eq_ok_iff, Reviewer.fingerprint] at hhash
  split at hhash
  · cases hhash
    assumption
  · cases hhash

end Fingerprint

open Fingerprint

/-- The bundle of plain files tells which they are, and so does the fingerprint of their review
unless the octets of two bundles make the digest collide. -/
theorem Reviewer.files_eq_of_fingerprint_eq {files others : List FileInput}
    (hfiles : ∀ f ∈ files, f.IsPlain) (hothers : ∀ f ∈ others, f.IsPlain) :
    (bundle files = bundle others ↔ files = others) ∧
    ∀ (r s : Reviewer) (elapsed elapsed' : Binary64) (b c : BatchReport),
      r.reviewFiles files elapsed = .ok b → s.reviewFiles others elapsed' = .ok c →
        b.fingerprint = c.fingerprint →
        files = others ∨ ∃ x y, (bundle files).utf8? = some x ∧ (bundle others).utf8? = some y ∧
          x ≠ y ∧ Digest.sha256 x = Digest.sha256 y := by
  refine ⟨⟨eq_of_bundle_eq hfiles hothers, congrArg bundle⟩,
    fun r s elapsed elapsed' b c hb hc hhash => ?_⟩
  have hbundle := ofText?_of_reviewFiles hb
  rw [hhash] at hbundle
  rcases eq_or_collision hbundle (ofText?_of_reviewFiles hc) with heq | hcollision
  · exact .inl (eq_of_bundle_eq hfiles hothers heq)
  · exact .inr hcollision

/-- Files that differ in where a line feed belongs have different bundles. -/
theorem Fingerprint.bundle_lineFeed_ne :
    (∀ f ∈ ([⟨"a.js", "x();\n"⟩, ⟨"b.js", "y();"⟩] : List FileInput), f.IsPlain) ∧
      (∀ f ∈ ([⟨"a.js", "x();"⟩, ⟨"b.js", "\ny();"⟩] : List FileInput), f.IsPlain) ∧
      bundle [⟨"a.js", "x();\n"⟩, ⟨"b.js", "y();"⟩] ≠
        bundle [⟨"a.js", "x();"⟩, ⟨"b.js", "\ny();"⟩] := by
  have hfiles : ∀ f ∈ ([⟨"a.js", "x();\n"⟩, ⟨"b.js", "y();"⟩] : List FileInput), f.IsPlain := by
    decide +kernel
  have hothers : ∀ f ∈ ([⟨"a.js", "x();"⟩, ⟨"b.js", "\ny();"⟩] : List FileInput), f.IsPlain := by
    decide +kernel
  refine ⟨hfiles, hothers, fun h => ?_⟩
  have heq := (Reviewer.files_eq_of_fingerprint_eq hfiles hothers).1.mp h
  simp [Text.ofString] at heq

/-- The bundle of a file that shows a heading is also that of two files. -/
theorem Fingerprint.bundle_not_injective :
    ¬ ∀ files others : List FileInput, bundle files = bundle others → files = others := by
  intro h
  have hfiles := h [⟨"a.js", "x();\n\n// b.js\ny();"⟩] [⟨"a.js", "x();"⟩, ⟨"b.js", "y();"⟩] rfl
  cases hfiles

end ScriptReview
