import ScriptReview.Proofs.Engines
import ScriptReview.Proofs.Wording.Rules

namespace ScriptReview

namespace Readiness

/-- No critical word starts with a blank. -/
theorem isAlarming_space_cons (t : Text) : isAlarming (.char ' ' :: t) = isAlarming t := by
  have hwords : ∀ w ∈ criticalWords, w ≠ [] ∧ w.head? ≠ some (.char ' ') := by decide
  rw [Bool.eq_iff_iff, isAlarming_iff_infix, isAlarming_iff_infix]
  refine exists_congr fun w => and_congr_right fun hw => ?_
  change w <:+: .char ' ' :: t.lowered ↔ _
  rw [List.infix_cons_iff, or_iff_right]
  intro hstart
  rcases List.prefix_cons_iff.mp hstart with rfl | ⟨w, rfl, -⟩
  · exact (hwords _ hw).1 rfl
  · exact (hwords _ hw).2 rfl

theorem isAlarming_attributed (filename comment : Text) :
    isAlarming ("[" ++ filename ++ "] " ++ comment) =
      (isAlarming filename || isAlarming comment) := by
  have hopen : IsBreak (.char '[') := by decide
  have hclose : IsBreak (.char ']') := by decide
  calc isAlarming ("[" ++ filename ++ "] " ++ comment)
      = isAlarming ([] ++ .char '[' :: (filename ++ .char ']' :: .char ' ' :: comment)) := by
        simp [Text.ofString]
    _ = (isAlarming filename || isAlarming comment) := by
        rw [isAlarming_append_break hopen, isAlarming_append_break hclose, isAlarming_space_cons]
        rfl

theorem isAlarming_unable (message : Text) :
    isAlarming ("Unable to analyze: " ++ message) = isAlarming message := by
  have hbreak : IsBreak (.char ':') := by decide
  have hstart : isAlarming "Unable to analyze" = false := by decide
  have hsplit : Text.ofString "Unable to analyze: " =
      Text.ofString "Unable to analyze" ++ [.char ':', .char ' '] := by decide
  rw [hsplit, List.append_assoc, List.cons_append, isAlarming_append_break hbreak, hstart,
    List.singleton_append, isAlarming_space_cons, Bool.false_or]

end Readiness

open Readiness

namespace FileInput

def IsHeld (grammar : Grammar) (f : FileInput) : Prop :=
  (SourceTree.ofFile grammar f.filename f.content).root.info.hasError = false ∧
    ∃ a, Analysis.ofSubmission grammar f.filename (.string f.content) = .ok a ∧
      hasCriticalDeductions a "comment" = true

/-- A file whose name, where it stands before a security comment, or whose parser message holds a
critical word. -/
inductive Misleads (grammar : Grammar) (f : FileInput) : Prop where
  | name {a : Analysis}
      (ha : Analysis.ofSubmission grammar f.filename (.string f.content) = .ok a)
      (hcomments : a.security.comments ≠ []) (h : isAlarming f.filename = true)
  | message {message : Text}
      (hparse : SourceTree.parseFile grammar f.filename f.content = .ok (.error message))
      (h : isAlarming message = true)

variable {grammar : Grammar} {f : FileInput} {a : Analysis}

/-- The scores of a file alone are held back for its findings or for the parser's message. -/
theorem hasCriticalDeductions_iff
    (ha : Analysis.ofSubmission grammar f.filename (.string f.content) = .ok a) :
    hasCriticalDeductions a "comment" = true ↔ f.IsHeld grammar ∨
      ∃ message, SourceTree.parseFile grammar f.filename f.content = .ok (.error message) ∧
        isAlarming message = true := by
  have haccepted := isAccepted_of_ofSubmission ha
  cases herror : (SourceTree.ofFile grammar f.filename f.content).root.info.hasError with
  | false =>
      have hparse := SourceTree.parseFile_of_clean haccepted.isScalar herror
      simp [IsHeld, herror, ha, hparse]
  | true =>
      obtain ⟨message, -, hparse⟩ := SourceTree.parseFile_of_broken haccepted.isScalar herror
      have hfailed : a = .failed f.filename message := by
        rw [Analysis.ofSubmission_eq_ofCode haccepted, Analysis.ofCode, hparse] at ha
        exact (Except.ok.inj ha).symm
      have hcomments : a.security.comments = ["Unable to analyze: " ++ message] := by
        rw [hfailed]
        rfl
      rw [Analysis.hasCriticalDeductions_comment, hcomments]
      simp [IsHeld, herror, hparse, isAlarming_unable]

theorem exists_attributed_iff
    (ha : Analysis.ofSubmission grammar f.filename (.string f.content) = .ok a) :
    (∃ c ∈ a.security.comments, isAlarming ("[" ++ a.filename ++ "] " ++ c) = true) ↔
      f.IsHeld grammar ∨ f.Misleads grammar := by
  have hname : a.filename = f.filename := (Reviewer.isSingle_of_ofSubmission ha).2
  have hheld := hasCriticalDeductions_iff ha
  rw [Analysis.hasCriticalDeductions_comment, List.any_eq_true] at hheld
  simp only [isAlarming_attributed, hname, Bool.or_eq_true]
  constructor
  · rintro ⟨c, hc, halarm | halarm⟩
    · exact .inr (.name ha (List.ne_nil_of_mem hc) halarm)
    · rcases hheld.mp ⟨c, hc, halarm⟩ with hown | ⟨message, hparse, hmessage⟩
      · exact .inl hown
      · exact .inr (.message hparse hmessage)
  · rintro (hown | ⟨hb, hcomments, halarm⟩ | ⟨hparse, hmessage⟩)
    · obtain ⟨c, hc, halarm⟩ := hheld.mpr (.inl hown)
      exact ⟨c, hc, .inr halarm⟩
    · cases ha.symm.trans hb
      obtain ⟨c, hc⟩ := List.exists_mem_of_ne_nil _ hcomments
      exact ⟨c, hc, .inl halarm⟩
    · obtain ⟨c, hc, halarm⟩ := hheld.mpr (.inr ⟨_, hparse, hmessage⟩)
      exact ⟨c, hc, .inr halarm⟩

end FileInput

namespace Batch

variable {grammar : Grammar} {files : List FileInput}

theorem hasCriticalDeductions_aggregated_iff {batch : Batch}
    (h : ofFiles grammar files = .ok batch) :
    hasCriticalDeductions batch.aggregated "comment" = true ↔
      ∃ f ∈ files, f.IsHeld grammar ∨ f.Misleads grammar := by
  rcases ofFiles_cases grammar (ne_nil_of_ofFiles h) with ⟨results, b, hb, hresults, hall⟩ | ⟨f, -, e, -, he⟩
  · cases h.symm.trans hb
    obtain ⟨-, -, hcomments⟩ := ofResults_eq_ok hresults
    rw [Analysis.hasCriticalDeductions_comment, hcomments]
    simp only [List.any_flatMap, List.any_map, List.any_eq_true, Function.comp_apply]
    refine (exists_mem_iff_of_forall₂ (fun f a ha => ?_) hall).symm
    exact (FileInput.exists_attributed_iff ha).symm
  · cases h.symm.trans he

end Batch

/-- A change is held back in comment mode exactly if one of its files is, as long as no name and no
parser message holds a critical word. -/
theorem Batch.comment_mode_iff_files (grammar : Grammar) {files : List FileInput}
    (hne : files ≠ []) (hfiles : ∀ f ∈ files, f.IsAccepted) :
    ((∀ f ∈ files, (SourceTree.ofFile grammar f.filename f.content).root.DistinctIds) →
      ∃ batch, ofFiles grammar files = .ok batch) ∧
    ∀ batch, ofFiles grammar files = .ok batch →
      (hasCriticalDeductions batch.aggregated "comment" = true ↔
        ∃ f ∈ files, f.IsHeld grammar ∨ f.Misleads grammar) ∧
      ((∀ f ∈ files, ¬ f.Misleads grammar) →
        (hasCriticalDeductions batch.aggregated "comment" = true ↔
          ∃ f ∈ files, f.IsHeld grammar)) := by
  refine ⟨exists_ofFiles_eq_ok grammar hne hfiles, fun batch hbatch => ?_⟩
  have hiff := hasCriticalDeductions_aggregated_iff hbatch
  refine ⟨hiff, fun hnone => ?_⟩
  rw [hiff]
  exact exists_congr fun f => and_congr_right fun hf => or_iff_left (hnone f hf)

theorem Batch.comment_mode_evalCall :
    FileInput.IsAccepted ⟨"a.js", "eval(x)"⟩ ∧
      FileInput.IsHeld (fun _ _ => .evalCall) ⟨"a.js", "eval(x)"⟩ ∧
      ¬ FileInput.Misleads (fun _ _ => .evalCall) ⟨"a.js", "eval(x)"⟩ ∧
      ∃ batch, ofFiles (fun _ _ => .evalCall) [⟨"a.js", "eval(x)"⟩] = .ok batch ∧
        hasCriticalDeductions batch.aggregated "comment" = true := by
  have haccepted : FileInput.IsAccepted ⟨"a.js", "eval(x)"⟩ := rfl
  have hids : Node.evalCall.DistinctIds := by decide +kernel
  have ha := Analysis.ofSubmission_of_clean (fun _ _ => .evalCall) haccepted hids rfl
  have hheld : FileInput.IsHeld (fun _ _ => .evalCall) ⟨"a.js", "eval(x)"⟩ :=
    ⟨rfl, _, ha, by decide +kernel⟩
  have hquiet : ¬ FileInput.Misleads (fun _ _ => .evalCall) ⟨"a.js", "eval(x)"⟩ := by
    rintro (⟨-, -, halarm⟩ | ⟨hparse, -⟩)
    · exact absurd halarm (by decide +kernel)
    · cases (SourceTree.parseFile_of_clean haccepted.isScalar rfl).symm.trans hparse
  obtain ⟨hexists, hiff⟩ := comment_mode_iff_files (fun _ _ => .evalCall)
    (List.cons_ne_nil ⟨"a.js", "eval(x)"⟩ []) (List.forall_mem_singleton.mpr haccepted)
  obtain ⟨batch, hbatch⟩ := hexists (List.forall_mem_singleton.mpr hids)
  refine ⟨haccepted, hheld, hquiet, batch, hbatch, ?_⟩
  rw [(hiff batch hbatch).2 (List.forall_mem_singleton.mpr hquiet)]
  exact ⟨_, List.mem_singleton_self _, hheld⟩

def FileInput.evaluate : FileInput :=
  ⟨"evaluate.js", "const query = \"SELECT * FROM users WHERE id = \" + req.query.id;"⟩

def Node.queriedInput : Node :=
  .inline 0 "program" none 0 63
    [.inline 1 "lexical_declaration" none 0 63
      [.inline 2 "variable_declarator" none 6 62
        [.inline 3 "identifier" (some "name") 6 11 [],
          .inline 4 "binary_expression" (some "value") 14 62
            [.inline 5 "string" (some "left") 14 47 [],
              .inline 6 "+" (some "operator") 48 49 [],
              .inline 7 "member_expression" (some "right") 50 62
                [.inline 8 "member_expression" (some "object") 50 59
                  [.inline 9 "identifier" (some "object") 50 53 [],
                    .inline 10 "property_identifier" (some "property") 54 59 []],
                .inline 11 "property_identifier" (some "property") 60 62 []]]]]]

def SourceTree.evaluate : SourceTree :=
  .ofFile (fun _ _ => .queriedInput) FileInput.evaluate.filename FileInput.evaluate.content

/-- The name of a file holds a change back that no file is held back for. -/
theorem Batch.comment_mode_reads_name :
    ¬ ∀ (grammar : Grammar) (files : List FileInput), files ≠ [] →
      (∀ f ∈ files, f.IsAccepted) → ∀ batch, ofFiles grammar files = .ok batch →
        (hasCriticalDeductions batch.aggregated "comment" = true ↔
          ∃ f ∈ files, f.IsHeld grammar) := by
  intro h
  have haccepted : FileInput.evaluate.IsAccepted := rfl
  have hids : Node.queriedInput.DistinctIds := by decide +kernel
  have ha : Analysis.ofSubmission (fun _ _ => .queriedInput) FileInput.evaluate.filename
      (.string FileInput.evaluate.content) = .ok (.scored FileInput.evaluate.filename .evaluate) :=
    Analysis.ofSubmission_of_clean _ haccepted hids rfl
  have hfiles := List.forall_mem_singleton.mpr haccepted
  obtain ⟨batch, hbatch⟩ := exists_ofFiles_eq_ok (fun _ _ => .queriedInput)
    (List.cons_ne_nil FileInput.evaluate []) hfiles (List.forall_mem_singleton.mpr hids)
  have hissues : Engine.security .evaluate ≠ [] ∧
      ∀ i ∈ Engine.security .evaluate, i.ruleId ∉ commentRules := by decide +kernel
  have htree : Analysis.ofTree .standard FileInput.evaluate.filename .evaluate =
      .ok (.scored FileInput.evaluate.filename .evaluate) := Analysis.ofTree_eq_ok _ hids
  have hmisleads : FileInput.evaluate.Misleads (fun _ _ => .queriedInput) := by
    refine .name ha ?_ (by decide)
    rw [Analysis.security_comments_of_ofTree htree]
    simpa using hissues.1
  have hheld := (hasCriticalDeductions_aggregated_iff hbatch).mpr
    ⟨_, List.mem_singleton_self _, .inr hmisleads⟩
  obtain ⟨f, hf, -, a, hown, hcritical⟩ :=
    (h _ _ (List.cons_ne_nil _ _) hfiles batch hbatch).mp hheld
  cases List.mem_singleton.mp hf
  cases ha.symm.trans hown
  obtain ⟨i, hi, hrule, -⟩ := (Analysis.hasCriticalDeductions_comment_iff htree).mp hcritical
  exact hissues.2 i hi hrule

end ScriptReview
