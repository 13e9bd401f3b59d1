import ScriptReview.Archive
import ScriptReview.Reviewing

namespace ScriptReview

inductive SaveSource where
  | scores (submitted : Json)
  | review (filename : Text) (keepReport : Bool)

inductive SessionStep where
  | connect
  | reopen
  | save (code : Json) (source : SaveSource)
  | append (t : Text)
  | get (id : Text)
  | list (limit : Option Int)
  | read
  | remove

inductive SessionError where
  | archive (e : ArchiveError)
  | review (e : ReviewError)
  | scores (faults : List Fault)

inductive SessionAnswer where
  | status (isConnected fileExists : Bool)
  | saved (r : Review)
  | found (r : Option Review)
  | listed (summaries : List Summary)
  | contents (t : Text)
  | done
  | failed (e : SessionError)

structure Session where
  archive : Archive
  issued : Nat

namespace Session

/-- What sessions do alike: how code is reviewed, which stamp the `n`-th save gets, how many reviews
a list shows, and how many milliseconds the review before the `n`-th save takes. -/
structure Config where
  reviewer : Reviewer
  stamps : Nat → Stamp
  listLimit : Int
  elapsed : Nat → Binary64 := fun _ => .finite 0

def start : Session := ⟨.fresh, 0⟩

def prepare (config : Config) (code : Json) (elapsed : Binary64) :
    SaveSource → Except SessionError (Analysis × Option Report)
  | .scores submitted =>
    match Analysis.decode submitted with
    | .valid a => .ok (a, none)
    | .faulty fs => .error (.scores fs)
  | .review filename keepReport =>
    match config.reviewer.review filename code elapsed with
    | .ok report => .ok (report.analysis, if keepReport then some report else none)
    | .error e => .error (.review e)

/-- Saves with the next stamp, which counts as issued even if the save fails. -/
def save (s : Session) (stamps : Nat → Stamp) (code : Json) (scores : Analysis)
    (report : Option Report) : Session × Except ArchiveError Review :=
  let (archive, result) := s.archive.save (stamps (s.issued + 1)) code scores report
  (⟨archive, s.issued + 1⟩, result)

def answer (f : α → SessionAnswer) : Except ArchiveError α → SessionAnswer
  | .ok a => f a
  | .error e => .failed (.archive e)

def status (a : Archive) : SessionAnswer :=
  .status a.isConnected a.fileExists

def step (config : Config) (s : Session) : SessionStep → Session × SessionAnswer
  | .connect => ({ s with archive := s.archive.connect }, status s.archive.connect)
  | .reopen => ({ s with archive := s.archive.reopen }, status s.archive.reopen)
  | .save code source =>
    match prepare config code (config.elapsed (s.issued + 1)) source with
    | .error e => (s, .failed e)
    | .ok (scores, report) =>
      let (s', result) := s.save config.stamps code scores report
      (s', answer .saved result)
  | .append t =>
    let (archive, result) := s.archive.appendText t
    ({ s with archive }, answer (fun _ => .done) result)
  | .get id => (s, answer .found (s.archive.get id))
  | .list limit => (s, answer .listed (s.archive.recent (limit.getD config.listLimit)))
  | .read => (s, answer .contents s.archive.contents)
  | .remove =>
    let (archive, result) := s.archive.remove
    ({ s with archive }, answer (fun _ => .done) result)

def run (config : Config) (s : Session) : List SessionStep → List SessionAnswer
  | [] => []
  | next :: rest =>
    let (s', a) := s.step config next
    a :: s'.run config rest

end Session

end ScriptReview
