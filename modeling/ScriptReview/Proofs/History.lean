import ScriptReview.Proofs.Encodable
import ScriptReview.Proofs.Log
import ScriptReview.Proofs.Storable
import ScriptReview.Session

namespace ScriptReview

theorem Archive.append_eq {a : Archive} {contents : Text} {r : Review}
    (hopened : a.opened = .ok contents) (hscalar : r.written.isScalar = true) :
    a.append r = ({ a with file := .text (contents ++ r.written ++ "\n") }, .ok r) := by
  rw [append, hopened]
  exact if_pos hscalar

/-- What saving can do: the log gets one more line, or it is at most opened. -/
theorem Archive.save_cases (a : Archive) (stamp : Stamp) (code : Json) (scores : Analysis)
    (report : Option Report) :
    (∃ text contents r, a.opened = .ok contents ∧
      r = ⟨stamp.id, text, scores, report, stamp.createdAt⟩ ∧
      a.save stamp code scores report =
        ({ a with file := .text (contents ++ r.written ++ "\n") }, .ok r)) ∨
    (∃ contents e, a.opened = .ok contents ∧
      a.save stamp code scores report = ({ a with file := .text contents }, .error e)) ∨
    ∃ e, a.save stamp code scores report = (a, .error e) := by
  rw [save]
  cases (Decoder.text code).under (.key "code") with
  | faulty fs => exact .inr (.inr ⟨_, rfl⟩)
  | valid text =>
      dsimp only
      rw [append]
      cases hopened : a.opened with
      | error e => exact .inr (.inr ⟨e, rfl⟩)
      | ok contents =>
          dsimp only
          split_ifs
          · exact .inl ⟨text, contents, _, rfl, rfl, rfl⟩
          · exact .inr (.inl ⟨contents, _, rfl, rfl⟩)

namespace Session

def after (config : Config) (s : Session) (steps : List SessionStep) : Session :=
  steps.foldl (fun s x => (s.step config x).1) s

def keep (rs : List Review) : SessionStep × SessionAnswer → List Review
  | (.save _ _, .saved r) => rs ++ [r]
  | (.remove, .done) => []
  | _ => rs

/-- The reviews saved since the last removal, by the answers of a session. -/
def history (config : Config) (s : Session) (steps : List SessionStep) : List Review :=
  (steps.zip (s.run config steps)).foldl keep []

def isForeign : SessionStep → Bool
  | .append _ => true
  | _ => false

def SavesPlain (config : Config) (x : SessionStep) : Prop :=
  ∀ code source elapsed scores report, x = .save code source →
    prepare config code elapsed source = .ok (scores, report) → scores.IsPlain

def IsHexId (id : Text) : Prop :=
  id.length = 32 ∧ id.all (·.satisfies Hex.isDigit) = true

structure StampsWell (stamps : Nat → Stamp) (count : Nat) : Prop where
  id : ∀ n < count, IsHexId (stamps (n + 1)).id
  createdAt : ∀ n < count, (stamps (n + 1)).createdAt.IsUtc
  distinct : ∀ m < count, ∀ n < count, (stamps (m + 1)).id = (stamps (n + 1)).id → m = n

/-- The first `count` times are read back from the decimals they are written as. -/
def TimesWell (elapsed : Nat → Binary64) (count : Nat) : Prop :=
  ∀ n < count, Json.IsDecimal (elapsed (n + 1))

variable {config : Config} {s : Session}

theorem after_append (steps : List SessionStep) (x : SessionStep) :
    s.after config (steps ++ [x]) = ((s.after config steps).step config x).1 := by
  rw [after, List.foldl_append]
  rfl

theorem length_run (steps : List SessionStep) : (s.run config steps).length = steps.length := by
  induction steps generalizing s with
  | nil => rfl
  | cons x steps ih => exact congrArg (· + 1) ih

theorem run_append (steps : List SessionStep) (x : SessionStep) :
    s.run config (steps ++ [x]) =
      s.run config steps ++ [((s.after config steps).step config x).2] := by
  induction steps generalizing s with
  | nil => rfl
  | cons y steps ih => exact congrArg (_ :: ·) ih

theorem history_append (steps : List SessionStep) (x : SessionStep) :
    s.history config (steps ++ [x]) =
      keep (s.history config steps) (x, ((s.after config steps).step config x).2) := by
  rw [history, run_append, List.zip_append (length_run steps).symm, List.foldl_append]
  rfl

structure Holds (config : Config) (s : Session) (rs : List Review) : Prop where
  file : s.archive.file = .text (Archive.logOf rs) ∨ s.archive.file = .absent ∧ rs = []
  plain : ∀ r ∈ rs, r.IsPlain
  stamped : ∀ r ∈ rs, ∃ n < s.issued, (config.stamps (n + 1)).id = r.id
  distinct : (rs.map Review.id).Nodup

/-- The reviews are read from the archive, unless one of their integers is too long. -/
theorem Holds.reviews {rs : List Review} (h : Holds config s rs) :
    s.archive.reviews = (Json.limited .standard
      (Archive.overlong? Json.Limits.standard.digits rs) rs).mapError .unparsable := by
  rcases h.file with hfile | ⟨hfile, rfl⟩
  · rw [Archive.reviews, hfile]
    exact congrArg (Except.mapError _) (Archive.readLog_logOf h.plain)
  · rw [Archive.reviews, hfile]
    rfl

theorem holds_nil (h : s.archive.file = .absent) : Holds config s [] :=
  ⟨.inr ⟨h, rfl⟩, List.forall_mem_nil _, List.forall_mem_nil _, List.nodup_nil⟩

theorem Holds.of_file {rs : List Review} (h : Holds config s rs) {s' : Session}
    (hfile : s'.archive.file = .text (Archive.logOf rs) ∨ s'.archive.file = .absent ∧ rs = [])
    (hissued : s.issued ≤ s'.issued) : Holds config s' rs where
  file := hfile
  plain := h.plain
  stamped r hr := by
    obtain ⟨n, hn, hid⟩ := h.stamped r hr
    exact ⟨n, hn.trans_le hissued, hid⟩
  distinct := h.distinct

theorem Holds.opened {rs : List Review} (h : Holds config s rs) {contents : Text}
    (hopened : s.archive.opened = .ok contents) : contents = Archive.logOf rs := by
  rw [Archive.opened] at hopened
  rcases h.file with hfile | ⟨hfile, rfl⟩
  · rw [hfile] at hopened
    cases hopened
    rfl
  · rw [hfile] at hopened
    split_ifs at hopened
    cases hopened
    rfl

theorem Holds.connect {rs : List Review} (h : Holds config s rs) :
    Holds config { s with archive := s.archive.connect } rs := by
  refine h.of_file ?_ le_rfl
  rw [Archive.connect]
  split_ifs
  · exact h.file
  · rcases h.file with hfile | ⟨hfile, rfl⟩
    · exact .inl (by simp only [hfile])
    · exact .inl (by simp only [hfile]; rfl)

theorem Holds.reopen {rs : List Review} (h : Holds config s rs) :
    Holds config { s with archive := s.archive.reopen } rs :=
  h.of_file h.file le_rfl

theorem Holds.remove {rs : List Review} (h : Holds config s rs) :
    Holds config (s.step config .remove).1 (keep rs (.remove, (s.step config .remove).2)) := by
  rcases h.file with hfile | ⟨hfile, rfl⟩
  · have hstep : s.step config .remove = ({ s with archive.file := .absent }, .done) := by
      rw [step, Archive.remove, hfile]
      rfl
    rw [hstep]
    exact holds_nil rfl
  · have hstep : s.step config .remove = (s, .failed (.archive .missingPath)) := by
      rw [step, Archive.remove, hfile]
      rfl
    rw [hstep]
    exact h

theorem isPlain_of_prepare {code : Json} {source : SaveSource} {elapsed : Binary64}
    {scores : Analysis} {report : Option Report}
    (h : prepare config code elapsed source = .ok (scores, report)) (hscores : scores.IsPlain)
    (helapsed : Json.IsDecimal elapsed) : ∀ p ∈ report, p.IsPlain := by
  cases source with
  | scores submitted =>
      rw [prepare] at h
      split at h
      · cases h
        intro p hp
        cases hp
      · cases h
  | review filename keepReport =>
      rw [prepare] at h
      split at h
      · rename_i p hreview
        cases h
        intro q hq
        split_ifs at hq
        · cases hq
          exact Reviewer.isPlain_of_review hreview hscores helapsed
        · cases hq
      · cases h

theorem Holds.append {rs : List Review} (h : Holds config s rs) {r : Review} (hr : r.IsPlain)
    (hstamps : StampsWell config.stamps (s.issued + 1))
    (hid : r.id = (config.stamps (s.issued + 1)).id) {s' : Session}
    (hfile : s'.archive.file = .text (Archive.logOf (rs ++ [r])))
    (hissued : s'.issued = s.issued + 1) : Holds config s' (rs ++ [r]) where
  file := .inl hfile
  plain := by
    rw [List.forall_mem_append, List.forall_mem_singleton]
    exact ⟨h.plain, hr⟩
  stamped := by
    rw [List.forall_mem_append, List.forall_mem_singleton, hissued]
    constructor
    · intro r' hr'
      obtain ⟨n, hn, hid'⟩ := h.stamped r' hr'
      exact ⟨n, by omega, hid'⟩
    · exact ⟨s.issued, Nat.lt_succ_self _, hid.symm⟩
  distinct := by
    rw [List.map_append, List.nodup_append]
    refine ⟨h.distinct, List.nodup_singleton _, ?_⟩
    rintro id hmem id' hmem' rfl
    obtain ⟨r', hr', rfl⟩ := List.mem_map.1 hmem
    obtain ⟨n, hn, hid'⟩ := h.stamped r' hr'
    have hsame : (config.stamps (n + 1)).id = (config.stamps (s.issued + 1)).id := by
      rw [hid', ← hid]
      exact List.mem_singleton.1 hmem'
    have heq := hstamps.distinct n (by omega) s.issued (by omega) hsame
    omega

theorem step_save_eq {code : Json} {source : SaveSource} {scores : Analysis}
    {report : Option Report}
    (h : prepare config code (config.elapsed (s.issued + 1)) source = .ok (scores, report)) :
    s.step config (.save code source) =
      (⟨(s.archive.save (config.stamps (s.issued + 1)) code scores report).1, s.issued + 1⟩,
        answer .saved (s.archive.save (config.stamps (s.issued + 1)) code scores report).2) := by
  rw [step, h]
  rfl

/-- A save step answers with the review that is now on the last line, or it fails. -/
theorem step_save_cases (s : Session) (config : Config) (code : Json) (source : SaveSource) :
    (∃ scores report text contents r,
      prepare config code (config.elapsed (s.issued + 1)) source = .ok (scores, report) ∧
      s.archive.opened = .ok contents ∧
      r = ⟨(config.stamps (s.issued + 1)).id, text, scores, report,
        (config.stamps (s.issued + 1)).createdAt⟩ ∧
      s.step config (.save code source) =
        (⟨{ s.archive with file := .text (contents ++ r.written ++ "\n") }, s.issued + 1⟩,
          .saved r)) ∨
    ∃ s' e, s.step config (.save code source) = (s', .failed e) ∧ s.issued ≤ s'.issued ∧
      (s'.archive.file = s.archive.file ∨
        ∃ contents, s.archive.opened = .ok contents ∧ s'.archive.file = .text contents) := by
  cases hprepare : prepare config code (config.elapsed (s.issued + 1)) source with
  | error e => exact .inr ⟨s, e, by rw [step, hprepare], le_rfl, .inl rfl⟩
  | ok prepared =>
      obtain ⟨scores, report⟩ := prepared
      rw [step_save_eq hprepare]
      rcases s.archive.save_cases (config.stamps (s.issued + 1)) code scores report with
        ⟨text, contents, r, hopened, hr, hsave⟩ | ⟨contents, e, hopened, hsave⟩ | ⟨e, hsave⟩
      · rw [hsave]
        exact .inl ⟨scores, report, text, contents, r, rfl, hopened, hr, rfl⟩
      · rw [hsave]
        exact .inr ⟨_, _, rfl, Nat.le_succ _, .inr ⟨contents, hopened, rfl⟩⟩
      · rw [hsave]
        exact .inr ⟨_, _, rfl, Nat.le_succ _, .inl rfl⟩

/-- A save that fails leaves at most an empty log where there was none. -/
theorem Holds.of_failed {rs : List Review} (h : Holds config s rs) {code : Json}
    {source : SaveSource} {s' : Session} {e : SessionError}
    (hstep : s.step config (.save code source) = (s', .failed e)) : Holds config s' rs := by
  rcases s.step_save_cases config code source with
    ⟨_, _, _, _, _, -, -, -, hsaved⟩ | ⟨s'', e', hfailed, hissued, hfile⟩
  · cases hstep.symm.trans hsaved
  · cases hstep.symm.trans hfailed
    rcases hfile with hfile | ⟨contents, hopened, hfile⟩
    · exact h.of_file (hfile ▸ h.file) hissued
    · exact h.of_file (.inl (by rw [hfile, h.opened hopened])) hissued

theorem Holds.save {rs : List Review} (h : Holds config s rs) {code : Json} {source : SaveSource}
    (hplain : SavesPlain config (.save code source))
    (htimes : TimesWell config.elapsed (s.issued + 1))
    (hstamps : StampsWell config.stamps (s.issued + 1)) :
    Holds config (s.step config (.save code source)).1
      (keep rs (.save code source, (s.step config (.save code source)).2)) := by
  rcases s.step_save_cases config code source with
    ⟨scores, report, text, contents, r, hprepare, hopened, hr, hstep⟩ | ⟨s', e, hstep, -⟩
  · have hissues : scores.IsPlain := hplain code source _ scores report rfl hprepare
    have hreview : r.IsPlain := by
      subst hr
      have hutc := hstamps.createdAt s.issued (Nat.lt_succ_self _)
      have helapsed := htimes s.issued (Nat.lt_succ_self _)
      exact ⟨hissues, isPlain_of_prepare hprepare hissues helapsed, hutc⟩
    rw [hstep]
    refine h.append hreview hstamps (by rw [hr]) ?_ rfl
    rw [Archive.logOf_append, h.opened hopened]
  · rw [hstep]
    exact h.of_failed hstep

theorem Holds.step {rs : List Review} (h : Holds config s rs) {x : SessionStep}
    (hforeign : isForeign x = false) (hplain : SavesPlain config x)
    (htimes : TimesWell config.elapsed (s.issued + 1))
    (hstamps : StampsWell config.stamps (s.issued + 1)) :
    Holds config (s.step config x).1 (keep rs (x, (s.step config x).2)) := by
  cases x with
  | connect => exact h.connect
  | reopen => exact h.reopen
  | save code source => exact h.save hplain htimes hstamps
  | append t => cases hforeign
  | get id => exact h
  | list limit => exact h
  | read => exact h
  | remove => exact h.remove

theorem issued_step_le (x : SessionStep) : (s.step config x).1.issued ≤ s.issued + 1 := by
  cases x with
  | save code source =>
      rw [Session.step]
      cases prepare config code (config.elapsed (s.issued + 1)) source with
      | error e => exact Nat.le_succ _
      | ok prepared => exact le_rfl
  | _ => exact Nat.le_succ _

theorem issued_after_le (steps : List SessionStep) :
    (start.after config steps).issued ≤ steps.length := by
  induction steps using List.reverseRecOn with
  | nil => exact le_rfl
  | append_singleton steps x ih =>
      rw [after_append, List.length_append]
      exact (issued_step_le x).trans (Nat.add_le_add_right ih 1)

theorem StampsWell.mono {stamps : Nat → Stamp} {m n : Nat} (h : StampsWell stamps n) (hm : m ≤ n) :
    StampsWell stamps m where
  id k hk := h.id k (hk.trans_le hm)
  createdAt k hk := h.createdAt k (hk.trans_le hm)
  distinct j hj k hk := h.distinct j (hj.trans_le hm) k (hk.trans_le hm)

theorem TimesWell.mono {elapsed : Nat → Binary64} {m n : Nat} (h : TimesWell elapsed n)
    (hm : m ≤ n) : TimesWell elapsed m :=
  fun k hk => h k (hk.trans_le hm)

theorem holds_after {steps : List SessionStep} (hforeign : ∀ x ∈ steps, isForeign x = false)
    (hplain : ∀ x ∈ steps, SavesPlain config x) (htimes : TimesWell config.elapsed steps.length)
    (hstamps : StampsWell config.stamps steps.length) :
    Holds config (start.after config steps) (start.history config steps) := by
  induction steps using List.reverseRecOn with
  | nil => exact holds_nil rfl
  | append_singleton steps x ih =>
      rw [List.forall_mem_append, List.forall_mem_singleton] at hforeign hplain
      rw [List.length_append] at htimes hstamps
      have hissued : (start.after config steps).issued ≤ steps.length := issued_after_le steps
      have hnext := Nat.add_le_add_right hissued 1
      rw [after_append, history_append]
      have hholds := ih hforeign.1 hplain.1 (htimes.mono (Nat.le_add_right _ _))
        (hstamps.mono (Nat.le_add_right _ _))
      exact hholds.step hforeign.2 hplain.2 (htimes.mono hnext) (hstamps.mono hnext)

theorem isReviewId_of_isHexId {id : Text} (h : IsHexId id) : Archive.isReviewId id = true := by
  have hlength : ¬(id.length = 33 ∧ id.getLast? = some (.char '\n')) := by
    rw [h.1]
    omega
  rw [Archive.isReviewId, if_neg hlength, h.1, h.2]
  rfl

theorem find?_id {rs : List Review} (h : (rs.map Review.id).Nodup) {r : Review} (hr : r ∈ rs) :
    (rs.find? fun x => x.id == r.id) = some r := by
  induction rs with
  | nil => cases hr
  | cons r' rs ih =>
      rw [List.map_cons, List.nodup_cons] at h
      rcases List.mem_cons.1 hr with rfl | hr
      · simp
      · have hne : r'.id ≠ r.id := fun heq => h.1 (heq ▸ List.mem_map_of_mem hr)
        simpa [hne] using ih h.2 hr

section Reads

variable {rs : List Review} (h : Holds config s rs)
  (hread : Archive.overlong? Json.Limits.standard.digits rs = none)

include h hread

theorem Holds.reviews_eq_ok : s.archive.reviews = .ok rs := by
  rw [h.reviews, hread]
  rfl

theorem Holds.get_of_mem (hstamps : StampsWell config.stamps s.issued) {r : Review} (hr : r ∈ rs) :
    s.archive.get r.id = .ok (some r) := by
  obtain ⟨n, hn, hid⟩ := h.stamped r hr
  have hhex : IsHexId r.id := hid ▸ hstamps.id n hn
  have hdistinct : (rs.reverse.map Review.id).Nodup := by
    rw [List.map_reverse, List.nodup_reverse]
    exact h.distinct
  rw [Archive.get, if_pos (isReviewId_of_isHexId hhex), h.reviews_eq_ok hread]
  exact congrArg Except.ok (find?_id hdistinct (List.mem_reverse.2 hr))

theorem Holds.get_of_notMem {id : Text} (hhex : IsHexId id) (hid : id ∉ rs.map Review.id) :
    s.archive.get id = .ok none := by
  have hnone : (rs.reverse.find? fun r => r.id == id) = none := by
    rw [List.find?_eq_none]
    intro r hr heq
    exact hid (beq_iff_eq.1 heq ▸ List.mem_map_of_mem (List.mem_reverse.1 hr))
  rw [Archive.get, if_pos (isReviewId_of_isHexId hhex), h.reviews_eq_ok hread]
  exact congrArg Except.ok hnone

theorem Holds.recent (limit : Int) :
    s.archive.recent limit =
      .ok (if limit ≤ 0 then [] else (rs.reverse.take limit.toNat).map Review.summary) := by
  rw [Archive.recent, h.reviews_eq_ok hread]
  split_ifs <;> rfl

end Reads

structure AnswersFrom (config : Config) (s : Session) (rs : List Review) : Prop where
  reviews : s.archive.reviews = .ok rs
  list : ∀ limit : Option Int, (s.step config (.list limit)).2 =
    .listed (if limit.getD config.listLimit ≤ 0 then []
      else (rs.reverse.take (limit.getD config.listLimit).toNat).map Review.summary)
  get_of_mem : ∀ r ∈ rs, (s.step config (.get r.id)).2 = .found (some r)
  get_of_notMem : ∀ id, IsHexId id → id ∉ rs.map Review.id →
    (s.step config (.get id)).2 = .found none

structure FailsToRead (config : Config) (s : Session) (why : Json.ReadError) : Prop where
  reviews : s.archive.reviews = .error (.unparsable why)
  list : ∀ limit : Option Int, (s.step config (.list limit)).2 =
    if limit.getD config.listLimit ≤ 0 then .listed []
    else .failed (.archive (.unparsable why))
  get : ∀ id, IsHexId id → (s.step config (.get id)).2 = .failed (.archive (.unparsable why))

theorem Holds.answersFrom {rs : List Review} (h : Holds config s rs)
    (hread : Archive.overlong? Json.Limits.standard.digits rs = none)
    (hstamps : StampsWell config.stamps s.issued) : AnswersFrom config s rs where
  reviews := h.reviews_eq_ok hread
  list _ := congrArg (answer .listed) (h.recent hread _)
  get_of_mem _ hr := congrArg (answer .found) (h.get_of_mem hread hstamps hr)
  get_of_notMem _ hhex hid := congrArg (answer .found) (h.get_of_notMem hread hhex hid)

theorem failsToRead {why : Json.ReadError} (h : s.archive.reviews = .error (.unparsable why)) :
    FailsToRead config s why where
  reviews := h
  list limit := by
    rw [step, Archive.recent, h]
    split_ifs <;> rfl
  get id hhex := by
    rw [step, Archive.get, if_pos (isReviewId_of_isHexId hhex), h]
    rfl

/-- In every state that steps can reach, lists and lookups answer from the history of the session,
as long as no saved integer is too long for the reader; from then on they fail. A save that fails,
connecting and reopening leave the readable reviews as they were. -/
theorem answers_eq_history {steps : List SessionStep} (hforeign : ∀ x ∈ steps, isForeign x = false)
    (hplain : ∀ x ∈ steps, SavesPlain config x) (htimes : TimesWell config.elapsed steps.length)
    (hstamps : StampsWell config.stamps steps.length) :
    let s := start.after config steps
    let rs := start.history config steps
    let limit := Json.Limits.standard.digits
    ((∀ r ∈ rs, r.toJson.integersWithin limit = true) → AnswersFrom config s rs) ∧
      ((∃ r ∈ rs, r.toJson.integersWithin limit = false) →
        ∃ digits, FailsToRead config s (.tooLong digits limit)) ∧
      (∀ code source s' e, s.step config (.save code source) = (s', .failed e) →
        s'.archive.reviews = s.archive.reviews) ∧
      (s.step config .connect).1.archive.reviews = s.archive.reviews ∧
      (s.step config .reopen).1.archive.reviews = s.archive.reviews := by
  intro s rs limit
  have hholds : Holds config s rs := holds_after hforeign hplain htimes hstamps
  have hissued : StampsWell config.stamps s.issued := hstamps.mono (issued_after_le steps)
  have hnone : Archive.overlong? limit rs = none ↔ ∀ r ∈ rs, r.toJson.integersWithin limit = true :=
    Archive.overlong?_eq_none_iff hholds.plain
  refine ⟨fun hread => hholds.answersFrom (hnone.2 hread) hissued, fun ⟨r, hr, hlong⟩ => ?_,
    fun code source s' e hstep => ?_, ?_, ?_⟩
  · cases hover : Archive.overlong? limit rs with
    | none => simp [hnone.1 hover r hr] at hlong
    | some digits =>
        refine ⟨digits, failsToRead ?_⟩
        rw [hholds.reviews, hover]
        rfl
  · rw [(hholds.of_failed hstep).reviews, hholds.reviews]
  · exact hholds.connect.reviews.trans hholds.reviews.symm
  · exact hholds.reopen.reviews.trans hholds.reviews.symm

def countingConfig : Config where
  reviewer := ⟨fun _ _ => .evalCall, .standard, "severity"⟩
  stamps := .counted
  listLimit := 20
  elapsed _ := .finite (49 / 4)

/-- A save without a folder, one that is removed again, one that stays, and one with a lone
surrogate. -/
def mixedSteps : List SessionStep :=
  let unparsed : SaveSource := .scores (Analysis.failed "a.js" "m").toJson
  [.save (.string "eval(x)") (.review "a.js" true), .connect, .save (.string "(") unparsed,
    .remove, .save (.string "(") unparsed, .reopen, .save (.string [.surrogate 0]) unparsed,
    .list none]

theorem savesPlain_of_ne {x : SessionStep} (h : ∀ code source, x ≠ .save code source) :
    SavesPlain config x :=
  fun code source _ _ _ hx => absurd hx (h code source)

theorem savesPlain_scores {a : Analysis} (h : a.IsPlain) (code : Json) :
    SavesPlain config (.save code (.scores a.toJson)) := by
  rintro code source elapsed scores report ⟨⟩ hprepare
  rw [prepare, Analysis.decode_toJson h] at hprepare
  cases hprepare
  exact h

/-- The standard engine finds plain issues. -/
theorem savesPlain_review (hengine : config.reviewer.engine = .standard) (code : Json)
    (filename : Text) (keepReport : Bool) :
    SavesPlain config (.save code (.review filename keepReport)) := by
  rintro code source elapsed scores report ⟨⟩ hprepare
  rw [prepare] at hprepare
  split at hprepare
  · rename_i p hreview
    cases hprepare
    have hsubmission := Reviewer.ofSubmission_of_review hengine hreview
    exact (Reviewer.isSingle_of_ofSubmission hsubmission).1.filename_eq
  · cases hprepare

theorem timesWell_counted (count : Nat) : TimesWell countingConfig.elapsed count := by
  have hdecimal : Json.IsDecimal (.finite (49 / 4)) :=
    ⟨12, "25", by decide, by decide, by decide +kernel, by decide +kernel⟩
  exact fun _ _ => hdecimal

theorem stampsWell_counted : StampsWell countingConfig.stamps mixedSteps.length where
  id := by
    unfold IsHexId
    decide +kernel
  createdAt n hn := by
    have hutc : ∀ n < mixedSteps.length, (Stamp.counted (n + 1)).createdAt.isValid = true ∧
        (Stamp.counted (n + 1)).createdAt.year ≤ 9999 ∧
        (Stamp.counted (n + 1)).createdAt.microsecond < 1000000 ∧
        (Stamp.counted (n + 1)).createdAt.offset = some 0 := by decide +kernel
    obtain ⟨hvalid, hyear, hmicro, hoffset⟩ := hutc n hn
    exact ⟨hvalid, hyear, hmicro, hoffset⟩
  distinct := by decide +kernel

theorem answers_mixedSteps :
    (∀ x ∈ mixedSteps, isForeign x = false) ∧ (∀ x ∈ mixedSteps, SavesPlain countingConfig x) ∧
      TimesWell countingConfig.elapsed mixedSteps.length ∧
      StampsWell countingConfig.stamps mixedSteps.length ∧
      (start.history countingConfig mixedSteps).map Review.id = [(Stamp.counted 3).id] ∧
      ((start.after countingConfig mixedSteps).step countingConfig
        (.get (Stamp.counted 2).id)).2 = .found none := by
  have hforeign : ∀ x ∈ mixedSteps, isForeign x = false := by
    simp [mixedSteps, isForeign]
  have hplain : ∀ x ∈ mixedSteps, SavesPlain countingConfig x := by
    have hunparsed : (Analysis.failed "a.js" "m").IsPlain := List.forall_mem_nil _
    simp only [mixedSteps, List.forall_mem_cons]
    exact ⟨savesPlain_review rfl _ _ true, savesPlain_of_ne nofun, savesPlain_scores hunparsed _,
      savesPlain_of_ne nofun, savesPlain_scores hunparsed _, savesPlain_of_ne nofun,
      savesPlain_scores hunparsed _, savesPlain_of_ne nofun, List.forall_mem_nil _⟩
  have hlog : (start.history countingConfig mixedSteps).map (fun r =>
      (r.id, r.toJson.integersWithin Json.Limits.standard.digits)) =
      [((Stamp.counted 3).id, true)] := by decide +kernel
  have hids : (start.history countingConfig mixedSteps).map Review.id = [(Stamp.counted 3).id] := by
    simpa using congrArg (List.map Prod.fst) hlog
  have hother : (Stamp.counted 2).id ∉ (start.history countingConfig mixedSteps).map Review.id := by
    rw [hids]
    decide +kernel
  have hwithin : ∀ r ∈ start.history countingConfig mixedSteps,
      r.toJson.integersWithin Json.Limits.standard.digits = true := by
    intro r hr
    have hmem := List.mem_map_of_mem (f := fun r : Review =>
      (r.id, r.toJson.integersWithin Json.Limits.standard.digits)) hr
    rw [hlog, List.mem_singleton] at hmem
    exact congrArg Prod.snd hmem
  have hhex : IsHexId (Stamp.counted 2).id := stampsWell_counted.id 1 (by decide)
  obtain ⟨hanswers, -⟩ :=
    answers_eq_history hforeign hplain (timesWell_counted _) stampsWell_counted
  exact ⟨hforeign, hplain, timesWell_counted _, stampsWell_counted, hids,
    (hanswers hwithin).get_of_notMem _ hhex hother⟩

def costing (penalty : Nat) : Analysis :=
  .ofScores "a.js" (fun _ => ⟨Fin.last Category.maxScore, []⟩)
    [.severe "eval_usage" penalty .critical 1 "m"] none

def costly (penalty : Nat) : Review :=
  ⟨(Stamp.counted 1).id, "(", costing penalty, none, (Stamp.counted 1).createdAt⟩

def costlySteps (penalty : Nat) : List SessionStep :=
  [.connect, .save (.string "(") (.scores (costing penalty).toJson)]

theorem isPlain_costing (penalty : Nat) : (costing penalty).IsPlain :=
  List.forall_mem_singleton.2 rfl

theorem isScalar_written_costly (penalty : Nat) : (costly penalty).written.isScalar = true := by
  have hscores : (costing penalty).IsScalar := by
    have hissue : (Issue.severe "eval_usage" penalty .critical 1 "m").IsScalar :=
      Issue.isScalar_severe (Text.isScalar_ofString "m")
    refine ⟨Text.isScalar_ofString _, fun c => ?_, List.forall_mem_singleton.2 hissue, nofun⟩
    cases c <;> exact List.forall_mem_nil _
  rw [Review.written, Json.isScalar_compact, Review.isScalar_toJson_iff]
  refine ⟨Text.isScalar_map_char _, Text.isScalar_ofString _, hscores.toJson, fun p hp => ?_⟩
  cases hp

theorem history_costlySteps (penalty : Nat) :
    start.history countingConfig (costlySteps penalty) = [costly penalty] := by
  have hprepare (elapsed : Binary64) : prepare countingConfig (.string "(") elapsed
      (.scores (costing penalty).toJson) = .ok (costing penalty, none) := by
    rw [prepare, Analysis.decode_toJson (isPlain_costing penalty)]
  have hsave : (Archive.holding []).save (.counted 1) (.string "(") (costing penalty) none =
      (Archive.holding []).append (costly penalty) := rfl
  have hstamp : countingConfig.stamps (0 + 1) = .counted 1 := rfl
  have hconnect : start.after countingConfig [.connect] = ⟨.holding [], 0⟩ := rfl
  have hsaved : ((⟨.holding [], 0⟩ : Session).step countingConfig
      (.save (.string "(") (.scores (costing penalty).toJson))).2 = .saved (costly penalty) := by
    rw [step_save_eq (hprepare _)]
    dsimp only
    rw [hstamp, hsave, Archive.append_eq rfl (isScalar_written_costly penalty)]
    rfl
  change start.history countingConfig ([.connect] ++ [.save (.string "(") _]) = _
  rw [history_append, hconnect, hsaved]
  rfl

theorem not_length_toDigits_pow_le {k : Nat} (hk : 0 < k) :
    ¬ (Nat.toDigits 10 (10 ^ k)).length ≤ k := by
  rw [Nat.length_toDigits_le_iff (by omega) hk]
  exact lt_irrefl _

def longPenalty : Nat := 10 ^ 4300

theorem integersWithin_costly {penalty limit : Nat}
    (hlong : ¬ (Nat.toDigits 10 penalty).length ≤ limit) :
    (costly penalty).toJson.integersWithin limit = false := by
  simp [costly, costing, Review.toJson, Analysis.toJson, Analysis.ofScores, Issue.toJson,
    Issue.severe, Issue.plain, Json.record, Json.integersWithin, Json.fieldsWithin,
    Json.itemsWithin, hlong]

/-- A saved review that the log does not give back, nor any other from then on. -/
theorem not_answersFrom_costlySteps :
    ¬ ∀ (config : Config) (steps : List SessionStep), (∀ x ∈ steps, isForeign x = false) →
      (∀ x ∈ steps, SavesPlain config x) → TimesWell config.elapsed steps.length →
      StampsWell config.stamps steps.length →
        AnswersFrom config (start.after config steps) (start.history config steps) := by
  intro h
  have hforeign : ∀ x ∈ costlySteps longPenalty, isForeign x = false := by
    simp [costlySteps, isForeign]
  have hplain : ∀ x ∈ costlySteps longPenalty, SavesPlain countingConfig x := by
    simp only [costlySteps, List.forall_mem_cons]
    exact ⟨savesPlain_of_ne nofun, savesPlain_scores (isPlain_costing _) _, List.forall_mem_nil _⟩
  have htimes : TimesWell countingConfig.elapsed (costlySteps longPenalty).length :=
    timesWell_counted _
  have hstamps : StampsWell countingConfig.stamps (costlySteps longPenalty).length :=
    stampsWell_counted.mono (Nat.le_add_left 2 6)
  have hlong : ¬ (Nat.toDigits 10 longPenalty).length ≤ 4300 :=
    not_length_toDigits_pow_le (by omega)
  have hread := (h _ _ hforeign hplain htimes hstamps).reviews
  rw [(holds_after hforeign hplain htimes hstamps).reviews, history_costlySteps] at hread
  cases hover : Archive.overlong? Json.Limits.standard.digits [costly longPenalty] with
  | some digits =>
      rw [hover] at hread
      cases hread
  | none =>
      have hholds := holds_after hforeign hplain htimes hstamps
      rw [history_costlySteps] at hholds
      have hwithin := (Archive.overlong?_eq_none_iff hholds.plain).1 hover _ (.head _)
      cases hwithin.symm.trans (integersWithin_costly hlong)

end Session

end ScriptReview
