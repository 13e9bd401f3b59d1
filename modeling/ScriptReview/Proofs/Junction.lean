import ScriptReview.Proofs.History
import ScriptReview.Proofs.Json.Unfinished
import ScriptReview.Proofs.ReadBack

namespace ScriptReview

namespace Text

def lastLine (t : Text) : Text :=
  t.pieces.getLastD []

theorem pieces_ne_nil (t : Text) : t.pieces ≠ [] := by
  cases t with
  | nil => simp [pieces]
  | cons s t =>
      rw [pieces]
      split
      · simp
      · split <;> simp

theorem pieces_eq (t : Text) : t.pieces = t.pieces.dropLast ++ [t.lastLine] := by
  rw [lastLine, List.getLastD_eq_getLast?, List.getLast?_eq_some_getLast t.pieces_ne_nil,
    Option.getD_some, List.dropLast_concat_getLast]

/-- A line put behind a text goes on where the last line of the text ends. -/
theorem pieces_append_line {line : Text} (hline : ∀ s ∈ line, s.isNewline = false) (t : Text) :
    (t ++ (line ++ "\n")).pieces = t.pieces.dropLast ++ [t.lastLine ++ line] ++ [[]] := by
  induction t with
  | nil => exact pieces_append hline []
  | cons s t ih =>
      rw [List.cons_append, pieces, ih]
      by_cases hs : s.isNewline = true
      · cases hp : pieces t with
        | nil => exact absurd hp (pieces_ne_nil t)
        | cons p ps => simp [lastLine, pieces, hp, hs]
      · cases hp : pieces t with
        | nil => exact absurd hp (pieces_ne_nil t)
        | cons p ps =>
            cases ps with
            | nil => simp [lastLine, pieces, hp, hs]
            | cons q ps => simp [lastLine, pieces, hp, hs]

theorem isBlank_of_isGap {s : Symbol} (h : Json.isGap s = true) : s.isBlank = true := by
  cases s with
  | surrogate n => cases h
  | char c =>
      simp only [Json.isGap, Symbol.satisfies, Bool.or_eq_true, beq_iff_eq] at h
      rcases h with ((rfl | rfl) | rfl) | rfl <;> rfl

/-- Blanks before a line are taken off it. -/
theorem strip_blank_append {x w : Text} (hx : x.isBlank = true) : (x ++ w).strip = w.strip := by
  rw [isBlank, List.all_eq_true] at hx
  rw [strip, strip, List.dropWhile_append_of_pos hx]

/-- Nothing else is taken off a line that ends in no blank. -/
theorem strip_append {x : Text} (hx : x.isBlank = false) (t : Text) {last : Symbol}
    (hlast : last.isBlank = false) :
    ∃ s y, s.isBlank = false ∧ (x ++ (t ++ [last])).strip = s :: (y ++ (t ++ [last])) := by
  induction x with
  | nil => cases hx
  | cons s x ih =>
      cases hs : s.isBlank with
      | false =>
          refine ⟨s, x, hs, ?_⟩
          have happend : s :: x ++ (t ++ [last]) = s :: ((x ++ t) ++ [last]) := by simp
          rw [happend, strip_of_ends hs hlast, List.append_assoc]
      | true =>
          have hx' : isBlank x = false := by
            rw [isBlank, List.all_cons, hs, Bool.true_and] at hx
            exact hx
          obtain ⟨s', y, hs', hstrip⟩ := ih hx'
          refine ⟨s', y, hs', ?_⟩
          rw [← hstrip, strip, strip, List.cons_append, List.dropWhile_cons_of_pos hs]

end Text

theorem Review.written_eq_opening (r : Review) : ∃ u, r.written = Json.opening u := by
  have hid : (Text.ofString "id").flatMap Json.escaped = [.char 'i', .char 'd'] := by decide
  rw [written, toJson, Json.record, Json.compact, List.map_cons, List.map_cons,
    Json.compactFields_cons, Json.writtenString_append]
  dsimp only
  rw [hid]
  exact ⟨_, rfl⟩

theorem Review.written_eq_append (r : Review) : ∃ t, r.written = t ++ [.char '\x7d'] := by
  rw [written, toJson, Json.record, Json.compact]
  exact ⟨_, rfl⟩

namespace Archive

theorem readLineWithin_standard (line : Text) : readLineWithin .standard line = readLine line := rfl

theorem readLine_written {r : Review} (h : r.IsStorable) : readLine r.written = .ok (some r) := by
  rw [← readLineWithin_standard, readLineWithin_written h.plain (by decide),
    (Review.overlong?_eq_none_iff h.plain).2 h.integers]
  rfl

/-- On a line with anything but blanks before it, a review is not found. -/
theorem eq_none_of_readLine {r : Review} (h : r.IsStorable) {x : Text} (hx : x.isBlank = false)
    {found : Option Review} (hread : readLine (x ++ r.written) = .ok found) : found = none := by
  obtain ⟨t, hends⟩ := r.written_eq_append
  obtain ⟨u, hopening⟩ := r.written_eq_opening
  have hbrace : (Symbol.char '\x7d').isBlank = false := by decide
  obtain ⟨s, y, hs, hstrip⟩ := Text.strip_append hx t hbrace
  rw [← hends] at hstrip
  have hgap : Json.isGap s = false := by
    by_contra hgap
    rw [Text.isBlank_of_isGap (by simpa using hgap)] at hs
    cases hs
  have hregular : Json.Regular 6 r.toJson := Review.regular_toJson h.plain
  rw [readLine, hstrip] at hread
  split at hread
  · rename_i j hparse
    exact absurd hparse (Json.parse_unfinished hregular h.integers hopening hgap y j)
  · cases hread
    rfl
  · cases hread

theorem readLine_blank_append {r : Review} (h : r.IsStorable) {x : Text} (hx : x.isBlank = true) :
    readLine (x ++ r.written) = .ok (some r) := by
  rw [← readLine_written h, readLine, readLine, Text.strip_blank_append hx]

def readLines (lines : List Text) : Except Json.ReadError (List Review) := do
  let found ← lines.mapM readLine
  return found.filterMap id

theorem readLog_eq_readLines (contents : Text) : readLog contents = readLines contents.pieces := rfl

theorem readLines_concat (ls : List Text) (line : Text) :
    readLines (ls ++ [line]) = do
      let rs ← readLines ls
      let found ← readLine line
      return rs ++ found.toList := by
  rw [readLines, readLines, List.mapM_append, mapM_singleton]
  cases ls.mapM readLine with
  | error e => rfl
  | ok found =>
      cases readLine line with
      | error e => rfl
      | ok last =>
          cases last <;> simp [Except.map]

theorem readLog_eq (contents : Text) :
    readLog contents = do
      let rs ← readLines contents.pieces.dropLast
      let found ← readLine contents.lastLine
      return rs ++ found.toList := by
  rw [readLog_eq_readLines, ← readLines_concat, ← Text.pieces_eq]

/-- What can be read after a line was put behind the log. -/
theorem readLog_append {line : Text} (hline : ∀ s ∈ line, s.isNewline = false) (contents : Text) :
    readLog (contents ++ (line ++ "\n")) = do
      let rs ← readLines contents.pieces.dropLast
      let found ← readLine (contents.lastLine ++ line)
      return rs ++ found.toList := by
  have hempty : readLine [] = .ok none := rfl
  rw [readLog_eq_readLines, Text.pieces_append_line hline, readLines_concat, hempty,
    readLines_concat]
  cases readLines contents.pieces.dropLast with
  | error e => rfl
  | ok rs => cases readLine (contents.lastLine ++ line) <;> simp

theorem readLine_blank {line : Text} (h : line.isBlank = true) : readLine line = .ok none := by
  rw [← List.append_nil line, readLine, Text.strip_blank_append h]
  rfl

variable {r : Review} {contents : Text}

theorem readLog_append_of_blank (hr : r.IsStorable) (h : contents.lastLine.isBlank = true) :
    readLog (contents ++ (r.written ++ "\n")) = (readLog contents).map (· ++ [r]) := by
  rw [readLog_append (Review.isNewline_written hr.plain), readLine_blank_append hr h, readLog_eq,
    readLine_blank h]
  cases readLines contents.pieces.dropLast <;> simp [Except.map]

theorem readLines_of_readLog_append (hr : r.IsStorable) (h : contents.lastLine.isBlank = false)
    {rs : List Review} (hread : readLog (contents ++ (r.written ++ "\n")) = .ok rs) :
    readLines contents.pieces.dropLast = .ok rs := by
  rw [readLog_append (Review.isNewline_written hr.plain)] at hread
  obtain ⟨rs', hrs', hread⟩ := bind_eq_ok_iff.1 hread
  obtain ⟨found, hfound, hread⟩ := bind_eq_ok_iff.1 hread
  cases eq_none_of_readLine hr h hfound
  rw [hrs', ← hread]
  simp

/-- The review is added to what can be read exactly if the last line holds nothing. -/
theorem readLog_append_eq_iff (hr : r.IsStorable) {rs : List Review}
    (hread : readLog contents = .ok rs) :
    readLog (contents ++ (r.written ++ "\n")) = .ok (rs ++ [r]) ↔
      contents.lastLine.isBlank = true := by
  constructor
  · intro hafter
    by_contra hblank
    have hlines := readLines_of_readLog_append hr (by simpa using hblank) hafter
    rw [readLog_eq, hlines, ok_bind] at hread
    obtain ⟨found, -, hread⟩ := bind_eq_ok_iff.1 hread
    have happend : rs ++ [r] ++ found.toList = rs := Except.ok.inj hread
    simpa using congrArg List.length happend
  · intro hblank
    rw [readLog_append_of_blank hr hblank, hread]
    rfl

theorem reviews_of_opened {a : Archive} (h : a.opened = .ok contents) :
    a.reviews = (readLog contents).mapError .unparsable := by
  rw [opened] at h
  rw [reviews]
  split at h
  · cases h
  · rename_i hfile
    cases h
    rw [hfile]
  · rename_i hfile
    split_ifs at h
    cases h
    rw [hfile]
    rfl

/-- A review that was saved is on the log behind its earlier contents. -/
theorem reviews_of_save {a a' : Archive} {stamp : Stamp} {code : Json} {scores : Analysis}
    {report : Option Report} (hopened : a.opened = .ok contents)
    (hsave : a.save stamp code scores report = (a', .ok r)) :
    a'.reviews = (readLog (contents ++ (r.written ++ "\n"))).mapError .unparsable := by
  rcases a.save_cases stamp code scores report with
    ⟨text, contents', r', hopened', -, hsave'⟩ | ⟨_, e, -, hsave'⟩ | ⟨e, hsave'⟩
  · cases hopened.symm.trans hopened'
    cases hsave.symm.trans hsave'
    rw [reviews, List.append_assoc]
  · cases hsave.symm.trans hsave'
  · cases hsave.symm.trans hsave'

theorem map_mapError {ε ε' α β : Type} (f : ε → ε') (g : α → β) (x : Except ε α) :
    (x.map g).mapError f = (x.mapError f).map g := by
  cases x <;> rfl

/-- On a log of any contents, a save adds the review to what can be read if the last line of the
log is blank, and only then. Otherwise the record and that line are one line on which nothing is
found: what can be read, if anything can, are the reviews on the lines before. -/
theorem save_appends_iff_lastLine_blank {a a' : Archive} {stamp : Stamp} {code : Json}
    {scores : Analysis} {report : Option Report} (hopened : a.opened = .ok contents)
    (hsave : a.save stamp code scores report = (a', .ok r)) (hr : r.IsStorable) :
    (∀ rs, a.reviews = .ok rs →
      (a'.reviews = .ok (rs ++ [r]) ↔ contents.lastLine.isBlank = true)) ∧
    (contents.lastLine.isBlank = true → a'.reviews = a.reviews.map (· ++ [r]) ∧
      ∀ rs, a.reviews = .ok rs → isReviewId r.id = true → a'.get r.id = .ok (some r)) ∧
    (contents.lastLine.isBlank = false → ∀ rs, a'.reviews = .ok rs →
      readLines contents.pieces.dropLast = .ok rs) := by
  have hbefore := reviews_of_opened hopened
  have hafter := reviews_of_save hopened hsave
  refine ⟨fun rs hrs => ?_, fun hblank => ?_, fun hblank rs hrs => ?_⟩
  · rw [hbefore, mapError_eq_ok_iff] at hrs
    rw [hafter, mapError_eq_ok_iff, readLog_append_eq_iff hr hrs]
  · have hmap : a'.reviews = a.reviews.map (· ++ [r]) := by
      rw [hafter, readLog_append_of_blank hr hblank, hbefore, map_mapError]
    refine ⟨hmap, fun rs hrs hid => ?_⟩
    rw [get, if_pos hid, hmap, hrs]
    simp [Except.map]
  · rw [hafter, mapError_eq_ok_iff] at hrs
    exact readLines_of_readLog_append hr hblank hrs

def unparsed (n : Nat) : Review :=
  ⟨(Stamp.counted n).id, "(", .failed "a.js" "m", none, (Stamp.counted n).createdAt⟩

theorem isStorable_unparsed : (unparsed 2).IsStorable := by
  have hutc : (Stamp.counted 2).createdAt.IsUtc :=
    Session.stampsWell_counted.createdAt 1 (by decide)
  have hreport : ∀ p ∈ (unparsed 2).report, p.IsPlain := by
    intro p hp
    cases hp
  exact ⟨⟨List.forall_mem_nil _, hreport, hutc⟩, by decide +kernel⟩

theorem save_unparsed (contents : Text) :
    (holding contents).save (.counted 2) (.string "(") (.failed "a.js" "m") none =
      (holding (contents ++ (unparsed 2).written ++ "\n"), .ok (unparsed 2)) := by
  have hscalar : (unparsed 2).written.isScalar = true := by decide +kernel
  change (holding contents).append (unparsed 2) = _
  rw [append]
  change (if (unparsed 2).written.isScalar = true then _ else _) = _
  rw [if_pos hscalar]
  rfl

theorem save_after_blank_line :
    ∃ a a' : Archive, a.opened = .ok ((unparsed 1).written ++ "\r\n \t") ∧
      a.save (.counted 2) (.string "(") (.failed "a.js" "m") none = (a', .ok (unparsed 2)) ∧
      (unparsed 2).IsStorable ∧ a.reviews = .ok [unparsed 1] ∧
      a'.reviews = .ok [unparsed 1, unparsed 2] ∧
      a'.get (unparsed 2).id = .ok (some (unparsed 2)) := by
  have hopened : (holding ((unparsed 1).written ++ "\r\n \t")).opened =
      .ok ((unparsed 1).written ++ "\r\n \t") := rfl
  have hsave := save_unparsed ((unparsed 1).written ++ "\r\n \t")
  have hlog : readLog ((unparsed 1).written ++ "\r\n \t") = .ok [unparsed 1] := by decide +kernel
  have hreviews : (holding ((unparsed 1).written ++ "\r\n \t")).reviews = .ok [unparsed 1] := by
    rw [reviews_of_opened hopened, hlog, mapError_ok]
  have hblank : Text.isBlank (Text.lastLine ((unparsed 1).written ++ "\r\n \t")) = true := by
    decide +kernel
  have hid : isReviewId (unparsed 2).id = true := by decide +kernel
  obtain ⟨hiff, hadds, -⟩ := save_appends_iff_lastLine_blank hopened hsave isStorable_unparsed
  exact ⟨_, _, hopened, hsave, isStorable_unparsed, hreviews, (hiff _ hreviews).2 hblank,
    (hadds hblank).2 _ hreviews hid⟩

/-- Without a line end after it, the review that was there is lost together with the new one. -/
theorem save_loses_unfinished_line :
    ∃ a a' : Archive, a.opened = .ok (unparsed 1).written ∧
      a.save (.counted 2) (.string "(") (.failed "a.js" "m") none = (a', .ok (unparsed 2)) ∧
      a.reviews = .ok [unparsed 1] ∧ a'.reviews = .ok [] ∧
      a'.get (unparsed 2).id = .ok none := by
  have hopened : (holding (unparsed 1).written).opened = .ok (unparsed 1).written := rfl
  have hsave := save_unparsed (unparsed 1).written
  have hbefore : readLog (unparsed 1).written = .ok [unparsed 1] := by decide +kernel
  have hafter : readLog ((unparsed 1).written ++ ((unparsed 2).written ++ "\n")) = .ok [] := by
    decide +kernel
  have hid : isReviewId (unparsed 2).id = true := by decide +kernel
  have hreviews : (holding ((unparsed 1).written ++ (unparsed 2).written ++ "\n")).reviews =
      .ok [] := by
    rw [reviews_of_save hopened hsave, hafter, mapError_ok]
  refine ⟨_, _, hopened, hsave, ?_, hreviews, ?_⟩
  · rw [reviews_of_opened hopened, hbefore, mapError_ok]
  · rw [get, if_pos hid, hreviews]
    rfl

end Archive

end ScriptReview
