import ScriptReview.Proofs.Service.Answers
import ScriptReview.Proofs.Service.Routes
import ScriptReview.Proofs.Sizes

namespace ScriptReview

theorem Review.isScalar_summary {r : Review} (h : r.toJson.isScalar = true) :
    r.summary.toJson.isScalar = true := by
  have hid : r.id.isScalar = true := (isScalar_toJson_iff.1 h).1
  have hcreated : r.createdAt.written.isScalar = true := Text.isScalar_map_char _
  rw [Summary.toJson, Json.isScalar_record]
  simp only [List.forall_mem_cons]
  exact ⟨hid, rfl, hcreated, List.forall_mem_nil _⟩

namespace Service

def Config.sessions (config : Config) : Session.Config :=
  ⟨config.reviewer, config.stamps, config.settings.reviewsListLimit, config.elapsed⟩

def after (config : Config) (s : Session) (requests : List Request) : Session :=
  requests.foldl (fun s r => (handle config s r).1) s

def created (answers : List Response) : List Json :=
  (answers.filter fun a => a.status == 201).map Response.body

variable {config : Config} {s : Session}

theorem after_append (requests : List Request) (r : Request) :
    after config s (requests ++ [r]) = (handle config (after config s requests) r).1 := by
  rw [after, List.foldl_append]
  rfl

theorem run_cons (r : Request) (requests : List Request) :
    run config s (r :: requests) =
      (handle config s r).2 :: run config (handle config s r).1 requests := rfl

theorem run_append (requests : List Request) (r : Request) :
    run config s (requests ++ [r]) =
      run config s requests ++ [(handle config (after config s requests) r).2] := by
  induction requests generalizing s with
  | nil => rfl
  | cons first requests ih => exact congrArg (_ :: ·) ih

theorem created_append (answers : List Response) (a : Response) :
    created (answers ++ [a]) = created answers ++ if a.status = 201 then [a.body] else [] := by
  rw [created, List.filter_append, List.map_append]
  split_ifs with h <;> simp [created, h]

namespace Response

theorem status_ofRefusal_ne (why : Refusal) : (ofRefusal why).status ≠ 201 := by
  cases why <;> simp [ofRefusal, error]

theorem status_ofReviewError_ne (e : ReviewError) : (ofReviewError e).status ≠ 201 := by
  cases e with
  | refused why => exact status_ofRefusal_ne why
  | internal cause => simp [ofReviewError, error]

theorem status_ofBodyError_ne (e : BodyError) : (ofBodyError e).status ≠ 201 := by
  cases e with
  | invalid faults =>
      rw [ofBodyError, ofFaults]
      split_ifs <;> simp [unexpected, error]
  | unreadable => simp [ofBodyError, detail]

theorem status_sendable_ne {r : Response} (h : r.status ≠ 201) : r.sendable.status ≠ 201 := by
  rw [status_sendable]
  split_ifs
  · exact h
  · decide

end Response

theorem status_analyzeFiles_ne (files : List FileInput) (elapsed : Binary64) :
    (analyzeFiles config files elapsed).status ≠ 201 := by
  rw [analyzeFiles]
  split_ifs
  · exact Response.status_ofRefusal_ne _
  · split
    · exact Response.status_ofRefusal_ne _
    · split
      · exact Response.status_ofReviewError_ne _
      · simp

theorem status_listReviews_ne (a : Archive) : (listReviews config a).status ≠ 201 := by
  rw [listReviews]
  split
  · simp
  · decide

theorem status_getReview_ne (a : Archive) (id : Text) : (getReview a id).status ≠ 201 := by
  rw [getReview]
  split
  · simp
  · decide
  · decide
  · decide

def Request.AsksReview (r : Request) : Prop :=
  Endpoint.ofRequest? r.path = some .analyze ∧ Endpoint.analyze.allows r.method = true

def saving (r : AnalyzeRequest) : SessionStep :=
  .save (.string r.code) (.review r.filename true)

/-- What a request does to the session: nothing, or the step that saves a review, which may fail. A
review is answered as created exactly if it is saved. -/
inductive Handled (config : Config) (s : Session) (r : Request) : Session → Response → Prop
  | other {response : Response} (hstatus : response.status ≠ 201) : Handled config s r s response
  | saved {request : AnalyzeRequest} {s' : Session} {review : Review}
      (hrequest : r.AsksReview)
      (hstep : s.step config.sessions (saving request) = (s', .saved review))
      (hscalar : review.toJson.isScalar = true) : Handled config s r s' ⟨201, review.toJson⟩
  | unsaved {request : AnalyzeRequest} {s' : Session} {e : SessionError} {response : Response}
      (hstep : s.step config.sessions (saving request) = (s', .failed e))
      (hstatus : response.status ≠ 201) : Handled config s r s' response

theorem step_saving {r : AnalyzeRequest} {report : Report}
    (hreview : reviewOf config s r = .ok report) {s' : Session}
    {result : Except ArchiveError Review}
    (hsave : s.save config.stamps (.string r.code) report.analysis (some report) = (s', result)) :
    s.step config.sessions (saving r) = (s', Session.answer .saved result) := by
  have hreview' : config.sessions.reviewer.review r.filename (.string r.code)
      (config.sessions.elapsed (s.issued + 1)) = .ok report := hreview
  have hprepare : Session.prepare config.sessions (.string r.code)
      (config.sessions.elapsed (s.issued + 1)) (.review r.filename true) =
      .ok (report.analysis, some report) := by
    rw [Session.prepare, hreview']
    rfl
  have hsave' : s.save config.sessions.stamps (.string r.code) report.analysis (some report) =
      (s', result) := hsave
  simp only [saving, Session.step, hprepare, hsave']

theorem Handled.asksReview {r : Request} {s' : Session} {response : Response}
    (h : Handled config s r s' response) (hstatus : response.status = 201) : r.AsksReview := by
  cases h with
  | other hother => exact absurd hstatus hother
  | saved hrequest => exact hrequest
  | unsaved _ hother => exact absurd hstatus hother

theorem Analyzed.handled {r : Request} {request : AnalyzeRequest} {s' : Session}
    {response : Response} (hrequest : r.AsksReview)
    (h : Analyzed config s request s' response) : Handled config s r s' response.sendable := by
  cases h with
  | refused _ => exact .other (Response.status_sendable_ne (Response.status_ofRefusal_ne _))
  | failed _ _ => exact .other (Response.status_sendable_ne (Response.status_ofReviewError_ne _))
  | unparsed _ _ _ => exact .other (Response.status_sendable_ne (by simp))
  | saved _ hreview _ hsave =>
      have hscalar := (Session.isScalar_of_save hsave).1
      rw [Response.sendable, if_pos hscalar]
      exact .saved hrequest (step_saving hreview hsave) hscalar
  | unsaved _ hreview _ hsave =>
      exact .unsaved (step_saving hreview hsave) (Response.status_sendable_ne (by decide))

theorem handled_handle (config : Config) (s : Session) (r : Request) :
    Handled config s r (handle config s r).1 (handle config s r).2 := by
  rw [handle]
  cases hendpoint : Endpoint.ofRequest? r.path with
  | none => exact .other (by simp [Response.detail])
  | some endpoint =>
      dsimp only
      split_ifs with hallows
      · cases endpoint with
        | analyze =>
            rw [serve]
            split
            · exact (analyzed_analyze config s _).handled ⟨hendpoint, hallows⟩
            · exact .other (Response.status_sendable_ne (Response.status_ofBodyError_ne _))
        | analyzeFiles =>
            rw [serve]
            split
            · exact .other (Response.status_sendable_ne (status_analyzeFiles_ne _ _))
            · exact .other (Response.status_sendable_ne (Response.status_ofBodyError_ne _))
        | reviews => exact .other (Response.status_sendable_ne (status_listReviews_ne _))
        | review id => exact .other (Response.status_sendable_ne (status_getReview_ne _ _))
        | health => exact .other (Response.status_sendable_ne (by simp [serve, healthy]))
        | documentation => exact .other (Response.status_sendable_ne (by simp [serve, documented]))
      · exact .other (by simp [Response.detail])

structure Holds (config : Config) (s : Session) (rs : List Review) : Prop where
  session : s.Holds config.sessions rs
  scalar : ∀ r ∈ rs, r.toJson.isScalar = true
  modest : ∀ r ∈ rs, r.toJson.IsModest

theorem holds_onEmptyLog : Holds config .onEmptyLog [] where
  session := ⟨.inl rfl, List.forall_mem_nil _, List.forall_mem_nil _, List.nodup_nil⟩
  scalar := List.forall_mem_nil _
  modest := List.forall_mem_nil _

theorem Holds.of_ne_created {rs : List Review} (h : Holds config s rs) {r : Request}
    {s' : Session} {response : Response} (hdone : Handled config s r s' response)
    (hstatus : response.status ≠ 201) : Holds config s' rs := by
  cases hdone with
  | other => exact h
  | saved => exact absurd rfl hstatus
  | unsaved hstep => exact ⟨h.session.of_failed hstep, h.scalar, h.modest⟩

theorem Holds.overlong?_eq_none {rs : List Review} (h : Holds config s rs) :
    Archive.overlong? Json.Limits.standard.digits rs = none :=
  (Archive.overlong?_eq_none_iff h.session.plain).2 h.modest

theorem Holds.reviews {rs : List Review} (h : Holds config s rs) : s.archive.reviews = .ok rs :=
  h.session.reviews_eq_ok h.overlong?_eq_none

theorem isModest_review {r : Review} (hscores : r.scores.toJson.IsModest)
    (hreport : ∀ p ∈ r.report, p.toJson.IsModest) : r.toJson.IsModest := by
  simp only [Review.toJson, Json.isModest_record, List.forall_mem_cons]
  exact ⟨rfl, rfl, hscores, Json.isModest_ofOption hreport, rfl, List.forall_mem_nil _⟩

theorem Handled.issued_le {r : Request} {s' : Session} {response : Response}
    (h : Handled config s r s' response) : s'.issued ≤ s.issued + 1 := by
  have hissued (request : AnalyzeRequest) :
      (s.step config.sessions (saving request)).1.issued ≤ s.issued + 1 :=
    Session.issued_step_le _
  cases h with
  | other => exact Nat.le_succ _
  | @saved request _ _ _ hstep =>
      have hsaved := hissued request
      rwa [hstep] at hsaved
  | @unsaved request _ _ _ hstep =>
      have hfailed := hissued request
      rwa [hstep] at hfailed

theorem issued_after_le (requests : List Request) :
    (after config .onEmptyLog requests).issued ≤ requests.length := by
  induction requests using List.reverseRecOn with
  | nil => exact le_rfl
  | append_singleton requests r ih =>
      rw [after_append, List.length_append]
      exact (handled_handle config _ r).issued_le.trans (Nat.add_le_add_right ih 1)

section Saves

variable (hengine : config.reviewer.engine = .standard)
  (hids : ∀ language code, (config.reviewer.grammar language code).DistinctIds)
  (hsmall : ∀ language code, (config.reviewer.grammar language code).IsSmall)

include hengine hids hsmall

/-- What is saved has modest numbers. -/
theorem isModest_of_step {request : AnalyzeRequest} {s' : Session} {review : Review}
    (hstep : s.step config.sessions (saving request) = (s', .saved review)) :
    review.toJson.IsModest := by
  rcases s.step_save_cases config.sessions (.string request.code)
      (.review request.filename true) with
    ⟨scores, report, text, contents, r, hprepare, -, hr, hsaved⟩ | ⟨_, _, hfailed, -⟩
  · rw [saving, hsaved] at hstep
    cases hstep
    rw [Session.prepare] at hprepare
    split at hprepare
    · rename_i p hreview
      cases hprepare
      obtain ⟨hscores, hreport⟩ := Reviewer.isModest_of_review hengine hids hsmall hreview
      subst hr
      refine isModest_review hscores ?_
      rintro q ⟨⟩
      exact hreport
    · cases hprepare
  · rw [saving, hfailed] at hstep
    cases hstep

/-- One more request: a review is added exactly if the answer says so. -/
theorem Holds.handled {rs : List Review} (h : Holds config s rs)
    (htimes : Session.TimesWell config.elapsed (s.issued + 1))
    (hstamps : Session.StampsWell config.stamps (s.issued + 1)) {r : Request} {s' : Session}
    {response : Response} (hdone : Handled config s r s' response) :
    ∃ rs', Holds config s' rs' ∧
      rs'.map Review.toJson = rs.map Review.toJson ++
        if response.status = 201 then [response.body] else [] := by
  by_cases hstatus : response.status = 201
  · rw [if_pos hstatus]
    cases hdone with
    | other hother => exact absurd hstatus hother
    | unsaved _ hother => exact absurd hstatus hother
    | @saved request _ review _ hstep hscalar =>
        have hmodest := isModest_of_step hengine hids hsmall hstep
        have hplain : Session.SavesPlain config.sessions (saving request) :=
          Session.savesPlain_review hengine _ _ _
        rw [saving] at hstep hplain
        have hsession := h.session.save hplain htimes hstamps
        rw [hstep] at hsession
        refine ⟨rs ++ [review], ⟨hsession, ?_, ?_⟩, List.map_append⟩
        · rw [List.forall_mem_append, List.forall_mem_singleton]
          exact ⟨h.scalar, hscalar⟩
        · rw [List.forall_mem_append, List.forall_mem_singleton]
          exact ⟨h.modest, hmodest⟩
  · rw [if_neg hstatus, List.append_nil]
    exact ⟨rs, h.of_ne_created hdone hstatus, rfl⟩

theorem holds_after {requests : List Request}
    (htimes : Session.TimesWell config.elapsed requests.length)
    (hstamps : Session.StampsWell config.stamps requests.length) :
    ∃ rs, Holds config (after config .onEmptyLog requests) rs ∧
      rs.map Review.toJson = created (run config .onEmptyLog requests) := by
  induction requests using List.reverseRecOn with
  | nil => exact ⟨[], holds_onEmptyLog, rfl⟩
  | append_singleton requests r ih =>
      rw [List.length_append] at htimes hstamps
      obtain ⟨rs, hholds, hcreated⟩ := ih (htimes.mono (Nat.le_add_right _ _))
        (hstamps.mono (Nat.le_add_right _ _))
      have hissued : (after config .onEmptyLog requests).issued ≤ requests.length :=
        issued_after_le requests
      have hnext := Nat.add_le_add_right hissued 1
      obtain ⟨rs', hholds', hcreated'⟩ := hholds.handled hengine hids hsmall (htimes.mono hnext)
        (hstamps.mono hnext) (handled_handle config _ r)
      refine ⟨rs', ?_, ?_⟩
      · rwa [after_append]
      · rw [hcreated', hcreated, run_append, created_append]

end Saves

section Reads

variable {rs : List Review} (h : Holds config s rs)

include h

theorem Holds.isHexId (hstamps : Session.StampsWell config.stamps s.issued) {r : Review}
    (hr : r ∈ rs) : Session.IsHexId r.id := by
  obtain ⟨n, hn, hid⟩ := h.session.stamped r hr
  exact hid ▸ hstamps.id n hn

theorem Holds.handle_reviews (p : Payload) :
    (handle config s ⟨"GET", "/reviews", p⟩).2 =
      ⟨200, .array ((if config.settings.reviewsListLimit ≤ 0 then []
        else (rs.reverse.take config.settings.reviewsListLimit.toNat).map Review.summary).map
          Summary.toJson)⟩ := by
  have hendpoint : Endpoint.ofRequest? (Text.ofString "/reviews") = some .reviews := rfl
  have hallows : Endpoint.reviews.allows "GET" = true := rfl
  rw [handle]
  simp only [hendpoint, hallows, if_true, serve, listReviews,
    h.session.recent h.overlong?_eq_none config.settings.reviewsListLimit]
  rw [Response.sendable, if_pos]
  rw [Json.isScalar_array_map]
  split_ifs
  · exact List.forall_mem_nil _
  · rw [List.forall_mem_map]
    intro r hr
    exact Review.isScalar_summary (h.scalar r (List.mem_reverse.1 (List.mem_of_mem_take hr)))

theorem Holds.handle_review (hstamps : Session.StampsWell config.stamps s.issued) {r : Review}
    (hr : r ∈ rs) (p : Payload) :
    (handle config s ⟨"GET", "/reviews/" ++ r.id, p⟩).2 = ⟨200, r.toJson⟩ := by
  have hallows : (Endpoint.review r.id).allows "GET" = true := rfl
  rw [handle]
  simp only [ofRequest?_review (h.isHexId hstamps hr), hallows, if_true, serve, getReview,
    h.session.get_of_mem h.overlong?_eq_none hstamps hr]
  rw [Response.sendable, if_pos (h.scalar r hr)]

end Reads

/-- After any requests, the log holds exactly the reviews that were answered as created, in order.
Only requests for a review are answered so, and every other answer leaves the log as it was. The
list shows the newest of these reviews first, and each is given back as it was answered. -/
theorem history_eq_created (hengine : config.reviewer.engine = .standard)
    (hids : ∀ language code, (config.reviewer.grammar language code).DistinctIds)
    (hsmall : ∀ language code, (config.reviewer.grammar language code).IsSmall)
    {requests : List Request} (htimes : Session.TimesWell config.elapsed requests.length)
    (hstamps : Session.StampsWell config.stamps requests.length) :
    let s := after config .onEmptyLog requests
    let limit := config.settings.reviewsListLimit
    ∃ rs, s.archive.reviews = .ok rs ∧
      rs.map Review.toJson = created (run config .onEmptyLog requests) ∧
      (∀ r, (handle config s r).2.status = 201 → r.AsksReview) ∧
      (∀ r, (handle config s r).2.status ≠ 201 →
        (handle config s r).1.archive.reviews = .ok rs) ∧
      (∀ p, (handle config s ⟨"GET", "/reviews", p⟩).2 =
        ⟨200, .array ((if limit ≤ 0 then []
          else (rs.reverse.take limit.toNat).map Review.summary).map Summary.toJson)⟩) ∧
      ∀ review ∈ rs, ∀ p,
        (handle config s ⟨"GET", "/reviews/" ++ review.id, p⟩).2 = ⟨200, review.toJson⟩ := by
  intro s limit
  obtain ⟨rs, hholds, hcreated⟩ := holds_after hengine hids hsmall htimes hstamps
  have hissued : Session.StampsWell config.stamps s.issued :=
    hstamps.mono (issued_after_le requests)
  refine ⟨rs, hholds.reviews, hcreated, fun r hstatus => ?_, fun r hstatus => ?_,
    hholds.handle_reviews, fun review hreview p => hholds.handle_review hissued hreview p⟩
  · exact (handled_handle config s r).asksReview hstatus
  · exact (hholds.of_ne_created (handled_handle config s r) hstatus).reviews

theorem isSmall_evalCall : Node.evalCall.IsSmall where
  size := by decide +kernel
  rows := by
    have hrows : ∀ n ∈ Node.evalCall.preorder [],
        n.info.startRow < 2 ^ 32 ∧ n.info.endRow < 2 ^ 32 := by decide +kernel
    exact fun n hn => hrows n (Node.mem_preorder_iff_reaches.2 hn)

def mixedRequests : List Request :=
  [⟨"POST", "/analyze", sourcePayload ⟨"eval(x)", "a.js"⟩⟩,
    ⟨"POST", "/analyze", sourcePayload ⟨" ", "a.js"⟩⟩,
    ⟨"POST", "/analyze/files", filesPayload [⟨"a.js", "eval(x)"⟩]⟩]

theorem history_mixedRequests :
    countingConfig.reviewer.engine = .standard ∧ Node.evalCall.DistinctIds ∧
      Node.evalCall.IsSmall ∧
      Session.TimesWell countingConfig.elapsed mixedRequests.length ∧
      Session.StampsWell countingConfig.stamps mixedRequests.length ∧
      ∃ review, (after countingConfig .onEmptyLog mixedRequests).archive.reviews = .ok [review] ∧
        (handle countingConfig (after countingConfig .onEmptyLog mixedRequests)
          ⟨"GET", "/reviews/" ++ review.id, .none⟩).2 = ⟨200, review.toJson⟩ := by
  have hids : Node.evalCall.DistinctIds := by decide +kernel
  have hstamps : Session.StampsWell countingConfig.stamps mixedRequests.length :=
    Session.stampsWell_counted.mono (by decide)
  have htimes : Session.TimesWell countingConfig.elapsed mixedRequests.length :=
    Session.timesWell_counted _
  refine ⟨rfl, hids, isSmall_evalCall, htimes, hstamps, ?_⟩
  obtain ⟨rs, hreviews, hcreated, -, -, -, hget⟩ := history_eq_created rfl
    (fun _ _ => hids) (fun _ _ => isSmall_evalCall) htimes hstamps
  have hstored : (handle countingConfig .onEmptyLog
      ⟨"POST", "/analyze", sourcePayload ⟨"eval(x)", "a.js"⟩⟩).2.status = 201 := by
    rw [handle_analyze (body_sourcePayload _)]
    exact (analyzed_analyze _ _ _).status_of_clean isSound_countingConfig rfl
      (Text.isScalar_ofString _) rfl rfl
  have hrefused (s : Session) : (handle countingConfig s
      ⟨"POST", "/analyze", sourcePayload ⟨" ", "a.js"⟩⟩).2.status = 400 := by
    rw [handle_analyze (body_sourcePayload _)]
    exact status_analyze_of_refused nofun
  have hchange (s : Session) : (handle countingConfig s
      ⟨"POST", "/analyze/files", filesPayload [⟨"a.js", "eval(x)"⟩]⟩).2.status ≠ 201 := by
    rw [handle_analyzeFiles (body_filesPayload _)]
    exact Response.status_sendable_ne (status_analyzeFiles_ne _ _)
  have hone : (created (run countingConfig .onEmptyLog mixedRequests)).length = 1 := by
    rw [mixedRequests, run_cons, run_cons, run_cons]
    simp [run, created, hstored, hrefused, hchange]
  rw [← hcreated, List.length_map, List.length_eq_one_iff] at hone
  obtain ⟨review, rfl⟩ := hone
  exact ⟨review, hreviews, hget review (List.mem_singleton_self _) .none⟩

end Service

end ScriptReview
