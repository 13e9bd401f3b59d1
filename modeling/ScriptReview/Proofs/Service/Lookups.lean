import ScriptReview.Proofs.Readable
import ScriptReview.Proofs.Service.History

namespace ScriptReview

namespace Archive

def IsTrailedId (id : Text) : Prop :=
  ∃ hex, Session.IsHexId hex ∧ id = hex ++ "\n"

theorem isReviewId_trailed {digits : Text} (h : digits.length = 32) :
    isReviewId (digits ++ "\n") = digits.all (·.satisfies Hex.isDigit) := by
  have hline : Text.ofString "\n" = [.char '\n'] := rfl
  have hend : (digits ++ Text.ofString "\n").length = 33 ∧
      (digits ++ Text.ofString "\n").getLast? = some (.char '\n') := by
    simp [hline, h]
  rw [isReviewId, if_pos hend, hline, List.dropLast_concat, h]
  rfl

/-- The ids that pass the check. -/
theorem isReviewId_iff {id : Text} :
    isReviewId id = true ↔ Session.IsHexId id ∨ IsTrailedId id := by
  constructor
  · intro h
    by_cases hend : id.length = 33 ∧ id.getLast? = some (.char '\n')
    · obtain ⟨digits, rfl⟩ := List.getLast?_eq_some_iff.mp hend.2
      have hlength : digits.length = 32 := by simpa using hend.1
      exact .inr ⟨digits, ⟨hlength, (isReviewId_trailed hlength).symm.trans h⟩, rfl⟩
    · rw [isReviewId, if_neg hend, Bool.and_eq_true, beq_iff_eq] at h
      exact .inl h
  · rintro (h | ⟨hex, h, rfl⟩)
    · exact Session.isReviewId_of_isHexId h
    · rw [isReviewId_trailed h.1, h.2]

variable {a : Archive} {id : Text}

theorem reviews_ne_malformedId (a : Archive) : a.reviews ≠ .error .malformedId := by
  rw [reviews]
  cases a.file with
  | absent => simp
  | unreadable => simp
  | text contents =>
      dsimp only
      cases readLog contents <;> simp [Except.mapError]

theorem get_of_malformed (h : isReviewId id = false) : a.get id = .error .malformedId := by
  rw [get, h]
  rfl

theorem get_of_unread (h : isReviewId id = true) {e : ArchiveError}
    (hreviews : a.reviews = .error e) : a.get id = .error e := by
  rw [get, if_pos h, hreviews]
  rfl

/-- Whatever is in the log, only the check of the id refuses it. -/
theorem get_eq_malformedId_iff : a.get id = .error .malformedId ↔ isReviewId id = false := by
  refine ⟨fun h => ?_, get_of_malformed⟩
  by_contra hid
  rw [Bool.not_eq_false] at hid
  cases hreviews : a.reviews with
  | error e =>
      rw [get_of_unread hid hreviews] at h
      cases h
      exact reviews_ne_malformedId a hreviews
  | ok rs =>
      rw [get_of_reviews hreviews hid] at h
      cases h

end Archive

namespace Service

open Archive

def Request.LooksUp (r : Request) (id : Text) : Prop :=
  Endpoint.ofRequest? r.path = some (.review id) ∧ (Endpoint.review id).allows r.method = true

variable {config : Config} {s : Session} {r : Request} {a : Archive} {id : Text}

theorem handle_of_looksUp (h : r.LooksUp id) :
    (handle config s r).2 = (getReview s.archive id).sendable := by
  rw [handle]
  simp only [h.1, h.2, if_true]
  rfl

theorem lookup_of_malformed (h : isReviewId id = false) :
    (getReview a id).sendable = .error 400 "Invalid review ID format" := by
  rw [getReview, get_of_malformed h]
  rfl

theorem lookup_of_unread (h : isReviewId id = true) {e : ArchiveError}
    (hreviews : a.reviews = .error e) : (getReview a id).sendable = .unexpected := by
  rw [getReview, get_of_unread h hreviews]
  cases e with
  | malformedId => exact absurd hreviews (reviews_ne_malformedId a)
  | _ => rfl

section Read

variable (h : isReviewId id = true) {rs : List Review} (hreviews : a.reviews = .ok rs)

include h hreviews

theorem lookup_of_missing (hmissing : IsLast id rs none) :
    (getReview a id).sendable = .error 404 "Review not found" := by
  rw [getReview, get_of_reviews hreviews h, find?_reverse_eq_iff.mpr hmissing]
  rfl

theorem lookup_of_found {review : Review} (hfound : IsLast id rs (some review)) :
    (getReview a id).sendable =
      if review.toJson.isScalar then ⟨200, review.toJson⟩ else .unexpected := by
  rw [getReview, get_of_reviews hreviews h, find?_reverse_eq_iff.mpr hfound, Response.sendable]

theorem status_lookup_of_found {review : Review} (hfound : IsLast id rs (some review)) :
    (getReview a id).sendable.status = 200 ∨ (getReview a id).sendable.status = 500 := by
  rw [lookup_of_found h hreviews hfound]
  split_ifs
  · exact .inl rfl
  · exact .inr rfl

theorem status_lookup_eq_404_iff :
    (getReview a id).sendable.status = 404 ↔ ∀ review ∈ rs, review.id ≠ id := by
  constructor
  · intro hstatus
    cases hfound : rs.reverse.find? fun r => r.id == id with
    | none => exact find?_reverse_eq_iff.mp hfound
    | some review =>
        have hother := status_lookup_of_found h hreviews (find?_reverse_eq_iff.mp hfound)
        omega
  · intro hmissing
    rw [lookup_of_missing h hreviews hmissing]
    rfl

end Read

theorem status_lookup_eq_400_iff :
    (getReview a id).sendable.status = 400 ↔ isReviewId id = false := by
  constructor
  · intro hstatus
    by_contra h
    rw [Bool.not_eq_false] at h
    cases hreviews : a.reviews with
    | error e =>
        rw [lookup_of_unread h hreviews] at hstatus
        cases hstatus
    | ok rs =>
        cases hfound : rs.reverse.find? fun r => r.id == id with
        | none =>
            rw [lookup_of_missing h hreviews (find?_reverse_eq_iff.mp hfound)] at hstatus
            cases hstatus
        | some review =>
            have hother := status_lookup_of_found h hreviews (find?_reverse_eq_iff.mp hfound)
            omega
  · intro h
    rw [lookup_of_malformed h]
    rfl

/-- An id is refused unless it is 32 hexadecimal digits or these and a line feed, whatever the log
holds. Otherwise the look-up is missed exactly if no review that can be read has the id; else it
gives the last one, as long as that can be sent. No id is found in a log that cannot be read. -/
theorem lookups_classified (config : Config) (s : Session) (id : Text) :
    (s.archive.get id = .error .malformedId ↔ ¬Session.IsHexId id ∧ ¬IsTrailedId id) ∧
    ∀ r : Request, r.LooksUp id →
      let answer := (handle config s r).2
      (answer.status = 400 ↔ ¬Session.IsHexId id ∧ ¬IsTrailedId id) ∧
      (∀ rs, s.archive.reviews = .ok rs →
        (answer.status = 404 ↔
          (Session.IsHexId id ∨ IsTrailedId id) ∧ ∀ review ∈ rs, review.id ≠ id) ∧
        ∀ review, Session.IsHexId id ∨ IsTrailedId id → IsLast id rs (some review) →
          answer = if review.toJson.isScalar then ⟨200, review.toJson⟩ else .unexpected) ∧
      ∀ e, Session.IsHexId id ∨ IsTrailedId id → s.archive.reviews = .error e →
        answer = .unexpected := by
  have hrefused : ¬Session.IsHexId id ∧ ¬IsTrailedId id ↔ isReviewId id = false := by
    rw [← not_or, ← isReviewId_iff, Bool.not_eq_true]
  rw [hrefused, ← isReviewId_iff]
  refine ⟨get_eq_malformedId_iff, fun r hr => ?_⟩
  dsimp only
  rw [handle_of_looksUp hr]
  refine ⟨status_lookup_eq_400_iff, fun rs hreviews => ⟨⟨fun hstatus => ?_, ?_⟩, ?_⟩, ?_⟩
  · -- A refused id was answered before the log was read, and not as missing.
    cases hid : isReviewId id with
    | true => exact ⟨rfl, (status_lookup_eq_404_iff hid hreviews).mp hstatus⟩
    | false =>
        rw [lookup_of_malformed hid] at hstatus
        cases hstatus
  · rintro ⟨hid, hmissing⟩
    exact (status_lookup_eq_404_iff hid hreviews).mpr hmissing
  · intro review hid hfound
    exact lookup_of_found hid hreviews hfound
  · intro e hid hreviews
    exact lookup_of_unread hid hreviews

/-- Look-ups in a log with one review: of the review, of another id, and of what is no id. -/
theorem lookups_oneReview :
    let s : Session := ⟨.holding (unparsed 1).written, 1⟩
    let answer (path : Text) := (handle countingConfig s ⟨"GET", path, .none⟩).2
    s.archive.reviews = .ok [unparsed 1] ∧
      answer ("/reviews/" ++ (unparsed 1).id) = ⟨200, (unparsed 1).toJson⟩ ∧
      (answer ("/reviews/" ++ (unparsed 2).id)).status = 404 ∧
      (answer "/reviews/not-an-id").status = 400 := by
  have hlog : readLog (unparsed 1).written = .ok [unparsed 1] := by decide +kernel
  have hreviews : (holding (unparsed 1).written).reviews = .ok [unparsed 1] := by
    rw [reviews_of_text rfl, hlog, mapError_ok]
  have hfirst : Session.IsHexId (unparsed 1).id := Session.stampsWell_counted.id 0 (by decide)
  have hsecond : Session.IsHexId (unparsed 2).id := Session.stampsWell_counted.id 1 (by decide)
  have hlast : IsLast (unparsed 1).id [unparsed 1] (some (unparsed 1)) :=
    ⟨[], [], rfl, rfl, List.forall_mem_nil _⟩
  have hother : ∀ review ∈ [unparsed 1], review.id ≠ (unparsed 2).id := by decide +kernel
  have hscalar : (unparsed 1).toJson.isScalar = true := by decide +kernel
  have hrefused : ¬Session.IsHexId "not-an-id" ∧ ¬IsTrailedId "not-an-id" := by
    rw [← not_or, ← isReviewId_iff]
    decide
  intro s answer
  refine ⟨hreviews, ?_, ?_, ?_⟩
  · obtain ⟨-, hlookup⟩ := lookups_classified countingConfig s (unparsed 1).id
    obtain ⟨-, hread, -⟩ := hlookup ⟨"GET", "/reviews/" ++ (unparsed 1).id, .none⟩
      ⟨ofRequest?_review hfirst, rfl⟩
    exact ((hread _ hreviews).2 _ (.inl hfirst) hlast).trans (if_pos hscalar)
  · obtain ⟨-, hlookup⟩ := lookups_classified countingConfig s (unparsed 2).id
    obtain ⟨-, hread, -⟩ := hlookup ⟨"GET", "/reviews/" ++ (unparsed 2).id, .none⟩
      ⟨ofRequest?_review hsecond, rfl⟩
    exact (hread _ hreviews).1.mpr ⟨.inl hsecond, hother⟩
  · obtain ⟨-, hlookup⟩ := lookups_classified countingConfig s "not-an-id"
    exact (hlookup ⟨"GET", "/reviews/not-an-id", .none⟩ ⟨rfl, rfl⟩).1.mpr hrefused

/-- The id of a review and a line feed is no id, and it is not refused. -/
theorem lookup_trailed_missing :
    let id : Text := (Stamp.counted 1).id ++ "\n"
    let path : Text := "/reviews/" ++ (Stamp.counted 1).id ++ "%0A"
    ¬Session.IsHexId id ∧ Session.onEmptyLog.archive.get id = .ok none ∧
      Request.LooksUp ⟨"GET", path, .none⟩ id ∧
      (handle countingConfig .onEmptyLog ⟨"GET", path, .none⟩).2 =
        .error 404 "Review not found" := by
  intro id path
  have hhex : Session.IsHexId (Stamp.counted 1).id := Session.stampsWell_counted.id 0 (by decide)
  have hid : isReviewId id = true := isReviewId_iff.mpr (.inr ⟨_, hhex, rfl⟩)
  have hreviews : Session.onEmptyLog.archive.reviews = .ok [] := rfl
  have hlooks : Request.LooksUp ⟨"GET", path, .none⟩ id := ⟨rfl, rfl⟩
  refine ⟨?_, get_of_reviews hreviews hid, hlooks, ?_⟩
  · rintro ⟨hlength, -⟩
    cases hlength
  · rw [handle_of_looksUp hlooks]
    exact lookup_of_missing hid hreviews (List.forall_mem_nil _)

end Service

end ScriptReview
