import ScriptReview.Json.Reader
import ScriptReview.Review
import ScriptReview.Text.Lines

/-!
The archive: a log file with one review on each line, to which reviews are only appended. Lines that
hold no review are passed over; one beyond the limits of the reader makes the whole log unreadable.
-/

namespace ScriptReview

inductive LogFile where
  | absent
  | text (contents : Text)
  | unreadable

structure Archive where
  hasFolder : Bool
  file : LogFile
  isConnected : Bool

inductive ArchiveError where
  | missingPath
  | unreadable
  | unencodable
  /-- A line of the log is beyond the limits of the reader. -/
  | unparsable (why : Json.ReadError)
  | malformedId
  | invalid (faults : List Fault)

namespace Archive

def fresh : Archive := ⟨false, .absent, false⟩

def holding (contents : Text) : Archive := ⟨true, .text contents, true⟩

def broken : Archive := ⟨true, .unreadable, true⟩

def fileExists (a : Archive) : Bool :=
  match a.file with
  | .absent => false
  | _ => true

/-- Makes the folder and an empty log where they are missing, once. -/
def connect (a : Archive) : Archive :=
  if a.isConnected then a
  else
    let file :=
      match a.file with
      | .absent => .text []
      | f => f
    ⟨true, file, true⟩

def reopen (a : Archive) : Archive :=
  { a with isConnected := false }

/-- The contents to append to: opening a log for that makes it if its folder is there. -/
def opened (a : Archive) : Except ArchiveError Text :=
  match a.file with
  | .unreadable => .error .unreadable
  | .text contents => .ok contents
  | .absent => if a.hasFolder then .ok [] else .error .missingPath

/-- Appends a review as a line. A review that cannot be encoded leaves the opened log as it was. -/
def append (a : Archive) (r : Review) : Archive × Except ArchiveError Review :=
  match a.opened with
  | .error e => (a, .error e)
  | .ok contents =>
    let line := r.written
    if line.isScalar then
      ({ a with file := .text (contents ++ line ++ "\n") }, .ok r)
    else ({ a with file := .text contents }, .error .unencodable)

def save (a : Archive) (stamp : Stamp) (code : Json) (scores : Analysis) (report : Option Report) :
    Archive × Except ArchiveError Review :=
  match (Decoder.text code).under (.key "code") with
  | .faulty fs => (a, .error (.invalid fs))
  | .valid text => a.append ⟨stamp.id, text, scores, report, stamp.createdAt⟩

/-- The review on one line of a log, if it holds one. A line that is beyond the limits of the reader
is not passed over. -/
def readLine (line : Text) : Except Json.ReadError (Option Review) :=
  match Json.parse .standard line.strip with
  | .ok j => .ok (Review.decode j).toOption
  | .error .malformed => .ok none
  | .error e => .error e

def readLog (contents : Text) : Except Json.ReadError (List Review) := do
  let found ← contents.pieces.mapM readLine
  return found.filterMap id

def reviews (a : Archive) : Except ArchiveError (List Review) :=
  match a.file with
  | .absent => .ok []
  | .text contents => (readLog contents).mapError .unparsable
  | .unreadable => .error .unreadable

/-- 32 lower-case hexadecimal digits; one line feed may follow. -/
def isReviewId (id : Text) : Bool :=
  let digits := if id.length = 33 ∧ id.getLast? = some (.char '\n') then id.dropLast else id
  digits.length == 32 && digits.all (·.satisfies Hex.isDigit)

def get (a : Archive) (id : Text) : Except ArchiveError (Option Review) := do
  if isReviewId id then
    let rs ← a.reviews
    return rs.reverse.find? fun r => r.id == id
  else .error .malformedId

def recent (a : Archive) (limit : Int) : Except ArchiveError (List Summary) := do
  if limit ≤ 0 then return []
  else
    let rs ← a.reviews
    return (rs.reverse.take limit.toNat).map Review.summary

def appendText (a : Archive) (t : Text) : Archive × Except ArchiveError Unit :=
  match a.opened with
  | .error e => (a, .error e)
  | .ok contents => ({ a with file := .text (contents ++ t) }, .ok ())

def contents (a : Archive) : Except ArchiveError Text :=
  match a.file with
  | .absent => .error .missingPath
  | .text t => .ok t
  | .unreadable => .error .unreadable

def remove (a : Archive) : Archive × Except ArchiveError Unit :=
  match a.file with
  | .absent => (a, .error .missingPath)
  | .unreadable => (a, .error .unreadable)
  | .text _ => ({ a with file := .absent }, .ok ())

end Archive

end ScriptReview
