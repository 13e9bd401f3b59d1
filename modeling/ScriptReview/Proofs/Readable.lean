import ScriptReview.Proofs.Junction

namespace ScriptReview

namespace Text

theorem pieces_append_newline {s : Symbol} (hs : s.isNewline = true) (t rest : Text) :
    (t ++ s :: rest).pieces = t.pieces ++ rest.pieces := by
  induction t with
  | nil => simp [pieces, hs]
  | cons u t ih =>
      rw [List.cons_append, pieces, ih, pieces]
      by_cases hu : u.isNewline = true
      · simp [hu]
      · cases hp : pieces t with
        | nil => exact absurd hp (pieces_ne_nil t)
        | cons p ps => simp [hu]

def EndsLine (t : Text) : Prop :=
  t = [] ∨ ∃ start s, t = start ++ [s] ∧ s.isNewline = true

/-- The lines of finished lines and of what follows them do not mix. -/
theorem EndsLine.exists_pieces {t : Text} (h : t.EndsLine) :
    ∃ lines, ∀ rest : Text, (t ++ rest).pieces = lines ++ rest.pieces := by
  rcases h with rfl | ⟨start, s, rfl, hs⟩
  · exact ⟨[], fun rest => rfl⟩
  · refine ⟨pieces start, fun rest => ?_⟩
    rw [List.append_assoc]
    exact pieces_append_newline hs start rest

end Text

namespace Archive

/-- A line that holds no review: it is blank, no JSON, or the JSON of something else. -/
inductive IsUnreadable (line : Text) : Prop
  | blank : line.isBlank = true → IsUnreadable line
  | malformed : Json.parse .standard line.strip = .error .malformed → IsUnreadable line
  | invalid {j : Json} {faults : List Fault} : Json.parse .standard line.strip = .ok j →
      Review.decode j = .faulty faults → IsUnreadable line

theorem IsUnreadable.readLine_eq {line : Text} (h : IsUnreadable line) :
    readLine line = .ok none := by
  cases h with
  | blank h => exact readLine_blank h
  | malformed h => rw [readLine, h]
  | invalid hj h =>
      rw [readLine, hj]
      simp only [h]
      rfl

theorem readLines_append (xs ys : List Text) :
    readLines (xs ++ ys) = do
      let rs ← readLines xs
      let rs' ← readLines ys
      return rs ++ rs' := by
  simp only [readLines, List.mapM_append]
  cases xs.mapM readLine with
  | error e => rfl
  | ok found =>
      cases ys.mapM readLine with
      | error e => rfl
      | ok found' => simp

theorem readLines_cons_of_none {line : Text} (h : readLine line = .ok none) (lines : List Text) :
    readLines (line :: lines) = readLines lines := by
  rw [readLines, readLines, List.mapM_cons, h]
  cases lines.mapM readLine <;> rfl

/-- A line that holds no review may stand between finished lines and whatever follows them. -/
theorem readLog_insert {t line : Text} (ht : t.EndsLine) (hline : ∀ s ∈ line, s.isNewline = false)
    (hnone : readLine line = .ok none) (rest : Text) :
    readLog (t ++ (line ++ "\n" ++ rest)) = readLog (t ++ rest) := by
  obtain ⟨lines, hlines⟩ := ht.exists_pieces
  have hinner : Text.pieces (line ++ "\n" ++ rest) = line :: rest.pieces := by
    rw [List.append_assoc]
    exact Text.pieces_append hline rest
  rw [readLog_eq_readLines, readLog_eq_readLines, hlines, hlines, hinner, readLines_append,
    readLines_append, readLines_cons_of_none hnone]

def recordOn? (line : Text) : Option Review :=
  match Json.parse .standard line.strip with
  | .ok j => (Review.decode j).toOption
  | .error _ => none

def readable (contents : Text) : List Review :=
  contents.pieces.filterMap recordOn?

/-- Where the reader fails on a line of the log, the line is no JSON. -/
def FailsPlainly (contents : Text) : Prop :=
  ∀ line ∈ contents.pieces, ∀ e, Json.parse .standard line.strip = .error e → e = .malformed

theorem readLine_eq_ok_iff {line : Text} {found : Option Review} :
    readLine line = .ok found ↔
      (∀ e, Json.parse .standard line.strip = .error e → e = .malformed) ∧
        found = recordOn? line := by
  rw [readLine, recordOn?]
  cases Json.parse .standard line.strip with
  | ok j => simp [eq_comm]
  | error e => cases e <;> simp [eq_comm]

theorem readLog_of_failsPlainly {contents : Text} (h : FailsPlainly contents) :
    readLog contents = .ok (readable contents) := by
  have hlines : contents.pieces.mapM readLine = .ok (contents.pieces.map recordOn?) := by
    apply mapM_eq_ok
    intro line hline
    exact readLine_eq_ok_iff.mpr ⟨h line hline, rfl⟩
  rw [readLog, hlines, ok_bind, pure_eq_ok, List.filterMap_map]
  rfl

theorem failsPlainly_of_readLog {contents : Text} {rs : List Review}
    (h : readLog contents = .ok rs) : FailsPlainly contents := by
  obtain ⟨found, hfound, -⟩ := bind_eq_ok_iff.mp h
  have hlines := (forall₂_of_mapM_eq_ok hfound).imp fun _ _ => readLine_eq_ok_iff.mp
  exact ((List.forall₂_and_left _ _).mp hlines).1

def IsLast (id : Text) (rs : List Review) : Option Review → Prop
  | none => ∀ r ∈ rs, r.id ≠ id
  | some r => ∃ before after, rs = before ++ r :: after ∧ r.id = id ∧ ∀ x ∈ after, x.id ≠ id

theorem find?_reverse_eq_iff {id : Text} {rs : List Review} {found : Option Review} :
    (rs.reverse.find? fun r => r.id == id) = found ↔ IsLast id rs found := by
  cases found with
  | none => simp [IsLast]
  | some r =>
      rw [List.find?_eq_some_iff_append]
      constructor
      · rintro ⟨hid, newer, older, hrs, hnewer⟩
        refine ⟨older.reverse, newer.reverse, ?_, by simpa using hid, fun x hx => ?_⟩
        · rw [← List.reverse_inj, hrs]
          simp
        · simpa using hnewer x (List.mem_reverse.mp hx)
      · rintro ⟨before, after, rfl, hid, hafter⟩
        refine ⟨by simpa using hid, after.reverse, before.reverse, by simp, fun x hx => ?_⟩
        simpa using hafter x (List.mem_reverse.mp hx)

variable {a a' : Archive} {rs : List Review}

theorem get_eq_of_reviews_eq (h : a'.reviews = a.reviews) (id : Text) : a'.get id = a.get id := by
  rw [get, get, h]

theorem recent_eq_of_reviews_eq (h : a'.reviews = a.reviews) (limit : Int) :
    a'.recent limit = a.recent limit := by
  rw [recent, recent, h]

theorem get_of_reviews (h : a.reviews = .ok rs) {id : Text} (hid : isReviewId id = true) :
    a.get id = .ok (rs.reverse.find? fun r => r.id == id) := by
  rw [get, if_pos hid, h]
  rfl

theorem recent_of_reviews (h : a.reviews = .ok rs) {limit : Int} (hlimit : 0 ≤ limit) :
    a.recent limit = .ok ((rs.reverse.take limit.toNat).map Review.summary) := by
  rw [recent, h]
  split_ifs with hzero
  · have hnone : limit.toNat = 0 := by omega
    rw [hnone]
    rfl
  · rfl

theorem reviews_of_text {contents : Text} (hfile : a.file = .text contents) :
    a.reviews = (readLog contents).mapError .unparsable := by
  rw [reviews, hfile]

/-- Lines that hold no review are passed over one by one: such a line can be put after any finished
lines, whatever follows, and no answer changes. Of a log of any contents on whose lines the reader
fails only for want of JSON, a look-up gives the last review with its id, and a shorter list of the
newest reviews is the start of a longer one. -/
theorem unreadable_lines_passed_over :
    (∀ t line rest : Text, t.EndsLine → (∀ s ∈ line, s.isNewline = false) → IsUnreadable line →
      ∀ a a' : Archive, a.file = .text (t ++ rest) → a'.file = .text (t ++ (line ++ "\n" ++ rest)) →
        a'.reviews = a.reviews ∧ (∀ id, a'.get id = a.get id) ∧
          ∀ limit, a'.recent limit = a.recent limit) ∧
    ∀ (a : Archive) (contents : Text), a.file = .text contents → FailsPlainly contents →
      a.reviews = .ok (readable contents) ∧
      (∀ id, Session.IsHexId id →
        ∃ found, a.get id = .ok found ∧ IsLast id (readable contents) found) ∧
      ∀ m n : Int, 0 ≤ m → m ≤ n → ∃ xs ys, a.recent m = .ok xs ∧ a.recent n = .ok ys ∧
        xs <+: ys ∧ (xs.length : Int) = min m (readable contents).length := by
  constructor
  · intro t line rest ht hline hunreadable a a' hfile hfile'
    have hreviews : a'.reviews = a.reviews := by
      rw [reviews_of_text hfile, reviews_of_text hfile',
        readLog_insert ht hline hunreadable.readLine_eq]
    exact ⟨hreviews, get_eq_of_reviews_eq hreviews, recent_eq_of_reviews_eq hreviews⟩
  · intro a contents hfile hplain
    have hreviews : a.reviews = .ok (readable contents) := by
      rw [reviews_of_text hfile, readLog_of_failsPlainly hplain, mapError_ok]
    refine ⟨hreviews, fun id hid => ?_, fun m n hm hmn => ?_⟩
    · exact ⟨_, get_of_reviews hreviews (Session.isReviewId_of_isHexId hid),
        find?_reverse_eq_iff.mp rfl⟩
    · have hn : 0 ≤ n := hm.trans hmn
      refine ⟨_, _, recent_of_reviews hreviews hm, recent_of_reviews hreviews hn, ?_, ?_⟩
      · apply List.IsPrefix.map
        exact List.take_prefix_take_left (Int.toNat_le_toNat hmn)
      · rw [List.length_map, List.length_take, List.length_reverse]
        omega

/-- Two reviews with a line that is no JSON between them. -/
theorem unreadable_line_between_reviews :
    ∃ start line rest : Text, start.EndsLine ∧ (∀ s ∈ line, s.isNewline = false) ∧
      IsUnreadable line ∧ FailsPlainly (start ++ rest) ∧ Session.IsHexId (unparsed 1).id ∧
      (holding (start ++ (line ++ "\n" ++ rest))).reviews = .ok [unparsed 1, unparsed 2] ∧
      (∃ found, (holding (start ++ rest)).get (unparsed 1).id = .ok found ∧
        IsLast (unparsed 1).id [unparsed 1, unparsed 2] found) ∧
      ∃ xs ys, (holding (start ++ rest)).recent 1 = .ok xs ∧
        (holding (start ++ rest)).recent 3 = .ok ys ∧ xs <+: ys ∧ (xs.length : Int) = 1 := by
  have hlog : readLog ((unparsed 1).written ++ "\n" ++ (unparsed 2).written) =
      .ok [unparsed 1, unparsed 2] := by decide +kernel
  have hline : ∀ s ∈ ("not json" : Text), s.isNewline = false := by decide
  have hunreadable : IsUnreadable "not json" := .malformed rfl
  have hid : Session.IsHexId (unparsed 1).id := Session.stampsWell_counted.id 0 (by decide)
  -- From here on what the two written lines are does not matter, and Lean need not compute them.
  generalize (unparsed 1).written = first at hlog
  generalize (unparsed 2).written = second at hlog
  have hstart : (first ++ "\n" : Text).EndsLine := .inr ⟨first, .char '\n', rfl, rfl⟩
  have hplain := failsPlainly_of_readLog hlog
  have hreadable : readable (first ++ "\n" ++ second) = [unparsed 1, unparsed 2] :=
    Except.ok.inj ((readLog_of_failsPlainly hplain).symm.trans hlog)
  obtain ⟨hsame, hreads⟩ := unreadable_lines_passed_over
  obtain ⟨hreviews, -, -⟩ := hsame _ _ second hstart hline hunreadable (holding _) (holding _)
    rfl rfl
  obtain ⟨hread, hget, hrecent⟩ := hreads (holding _) _ rfl hplain
  rw [hreadable] at hread hget hrecent
  obtain ⟨xs, ys, hxs, hys, hstarts, hlength⟩ := hrecent 1 3 (by decide) (by decide)
  exact ⟨_, _, _, hstart, hline, hunreadable, hplain, hid, hreviews.trans hread, hget _ hid, xs, ys,
    hxs, hys, hstarts, hlength⟩

end Archive

end ScriptReview
