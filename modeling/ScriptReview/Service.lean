import ScriptReview.Path
import ScriptReview.Session
import ScriptReview.Settings
import ScriptReview.Text.Encoding

namespace ScriptReview

namespace Service

inductive Payload where
  | none
  | json (value : Json)
  | raw (octets : List UInt8)

structure Request where
  method : Text
  path : Text
  payload : Payload

structure Response where
  status : Nat
  body : Json

inductive Endpoint where
  | analyze
  | analyzeFiles
  | reviews
  | review (id : Text)
  | health
  | documentation

inductive BodyError where
  | invalid (faults : List Fault)
  | unreadable

def BodyError.charged : BodyError → BodyError
  | .invalid faults => .invalid (faults.map fun f => { f with path := .key "body" :: f.path })
  | .unreadable => .unreadable

/-- What the service works with. A review that comes after `n` saves takes `elapsed (n + 1)`
milliseconds. -/
structure Config where
  settings : Settings
  reviewer : Reviewer
  stamps : Nat → Stamp
  elapsed : Nat → Binary64 := fun _ => .finite 0

namespace Response

def error (status : Nat) (message : Text) : Response :=
  ⟨status, .record [("error", .string message)]⟩

def detail (status : Nat) (message : Text) : Response :=
  ⟨status, .record [("detail", .string message)]⟩

def unexpected : Response :=
  error 500 "Internal server error"

def ofRefusal (why : Refusal) : Response :=
  match why with
  | .tooLarge .. => error 413 why.message
  | _ => error 400 why.message

def ofReviewError : ReviewError → Response
  | .refused why => ofRefusal why
  | .internal _ => error 500 "Internal error during code analysis"

/-- Faults of a request body. Their offending parts are sent along, so these have to be encodable
too. -/
def ofFaults (faults : List Fault) : Response :=
  if faults.all fun f => f.input.isScalar && f.input.isFinite then
    ⟨422, .record [("error", .string "Invalid request body"),
      ("detail", .array (faults.map Fault.toJson))]⟩
  else unexpected

def ofBodyError : BodyError → Response
  | .invalid faults => ofFaults faults
  | .unreadable => detail 400 "There was an error parsing the body"

/-- A response that can be sent: one that UTF-8 cannot hold is an unexpected error. -/
def sendable (r : Response) : Response :=
  if r.body.isScalar then r else unexpected

end Response

def Endpoint.methods : Endpoint → List Text
  | .analyze => ["POST"]
  | .analyzeFiles => ["POST"]
  | .documentation => ["GET", "HEAD"]
  | _ => ["GET"]

def Endpoint.allows (e : Endpoint) (method : Text) : Bool :=
  e.methods.any fun m => m.lowered == method.lowered

def Endpoint.fixed : List (Text × Endpoint) :=
  [("/analyze", .analyze), ("/analyze/files", .analyzeFiles), ("/reviews", .reviews),
    ("/health", .health), ("/openapi.json", .documentation), ("/docs", .documentation),
    ("/docs/oauth2-redirect", .documentation), ("/redoc", .documentation)]

/-- The endpoint of a decoded path. A line feed may end it, and belongs to the id of a review if the
path has one. That id is one segment that is not empty. -/
def Endpoint.ofPath? (path : Text) : Option Endpoint :=
  let line := if path.getLast? = some (.char '\n') then path.dropLast else path
  (fixed.lookup line).or
    (if path.startsWith "/reviews/" then
      let id := path.drop "/reviews/".length
      if id.isEmpty || id.contains Path.slash then none else some (.review id)
    else none)

/-- The endpoint of a requested path. One with slashes at its end is redirected to the decoded path
without them, if that is an endpoint, and its dot segments are resolved on the way. -/
def Endpoint.ofRequest? (path : Text) : Option Endpoint :=
  let decoded := Path.decoded (Path.resolved (Path.withoutQuery path))
  (ofPath? decoded).or
    (let shorter := Path.withoutTrailingSlashes decoded
    if shorter.length < decoded.length && (ofPath? shorter).isSome then
      ofPath? (Path.resolved shorter)
    else none)

/-- The body as a value. Text that is no JSON is a fault; octets that are no text, and JSON beyond
the limits of the reader, cannot be read. -/
def payload : Payload → Except BodyError Json
  | .json value => .ok value
  | .none => .error (.invalid [⟨.missing, [], .null⟩])
  | .raw [] => .error (.invalid [⟨.missing, [], .null⟩])
  | .raw octets =>
    match Text.ofOctets? octets with
    | none => .error .unreadable
    | some t =>
      match Json.parse .standard t with
      | .ok value => .ok value
      | .error .malformed => .error (.invalid [⟨.malformed, [], .object []⟩])
      | .error _ => .error .unreadable

structure AnalyzeRequest where
  code : Text
  filename : Text

def decodeAnalyze : Decoder AnalyzeRequest :=
  .fields .notFields fun fs =>
    AnalyzeRequest.mk <$> Decoder.required "code" .text fs <*>
      Decoder.withDefault "filename" .text Analysis.defaultFilename fs

def decodeFiles : Decoder (List FileInput) :=
  .fields .notFields fun fs =>
    Decoder.withDefault "files" (.list (FileInput.decodeWith .notFields)) [] fs

def body (d : Decoder α) (p : Payload) : Except BodyError α := do
  let value ← (payload p).mapError .charged
  (d value).toExcept.mapError fun faults => .charged (.invalid faults)

def checkSize (settings : Settings) (code label : Text) : Except Refusal Unit := do
  let _ ← Submission.checkText code
  let size := (code.utf8?.getD []).length
  if settings.maxCodeBytes < size then .error (.tooLarge label size settings.maxCodeBytes)
  else .ok ()

def reviewOf (config : Config) (s : Session) (r : AnalyzeRequest) : Except ReviewError Report :=
  config.reviewer.review r.filename (.string r.code) (config.elapsed (s.issued + 1))

/-- Reviews one source and saves the review; a source that does not parse is not saved. -/
def analyze (config : Config) (s : Session) (r : AnalyzeRequest) : Session × Response :=
  match checkSize config.settings r.code r.filename with
  | .error why => (s, .ofRefusal why)
  | .ok () =>
    match reviewOf config s r with
    | .error e => (s, .ofReviewError e)
    | .ok report =>
      match report.analysis.error with
      | some message =>
        (s, ⟨422, .record [("error", .string message), ("scores", report.analysis.toJson),
          ("report", report.toJson)]⟩)
      | none =>
        let (s', saved) := s.save config.stamps (.string r.code) report.analysis (some report)
        match saved with
        | .ok review => (s', ⟨201, review.toJson⟩)
        | .error _ => (s', .unexpected)

def analyzeFiles (config : Config) (files : List FileInput) (elapsed : Binary64) : Response :=
  if config.settings.maxFiles < files.length then
    .ofRefusal (.tooManyFiles files.length config.settings.maxFiles)
  else
    match files.forM fun f => checkSize config.settings f.content f.filename with
    | .error why => .ofRefusal why
    | .ok () =>
      match config.reviewer.reviewFiles files elapsed with
      | .error e => .ofReviewError e
      | .ok report => ⟨200, report.toJson⟩

def listReviews (config : Config) (a : Archive) : Response :=
  match a.recent config.settings.reviewsListLimit with
  | .ok summaries => ⟨200, .array (summaries.map Summary.toJson)⟩
  | .error _ => .unexpected

def getReview (a : Archive) (id : Text) : Response :=
  match a.get id with
  | .ok (some review) => ⟨200, review.toJson⟩
  | .ok none => .error 404 "Review not found"
  | .error .malformedId => .error 400 "Invalid review ID format"
  | .error _ => .unexpected

def healthy : Response :=
  ⟨200, .record [("status", .string "ok"), ("version", .string "1.0.0"),
    ("engine", .string "deterministic")]⟩

/-- The pages of the documentation are made elsewhere; here it only shows that they are there. -/
def documented : Response :=
  ⟨200, .null⟩

def serve (config : Config) (s : Session) (p : Payload) : Endpoint → Session × Response
  | .analyze =>
    match body decodeAnalyze p with
    | .ok r => analyze config s r
    | .error e => (s, .ofBodyError e)
  | .analyzeFiles =>
    match body decodeFiles p with
    | .ok files => (s, analyzeFiles config files (config.elapsed (s.issued + 1)))
    | .error e => (s, .ofBodyError e)
  | .reviews => (s, listReviews config s.archive)
  | .review id => (s, getReview s.archive id)
  | .health => (s, healthy)
  | .documentation => (s, documented)

def handle (config : Config) (s : Session) (r : Request) : Session × Response :=
  match Endpoint.ofRequest? r.path with
  | none => (s, .detail 404 "Not Found")
  | some endpoint =>
    if endpoint.allows r.method then
      let (s', response) := serve config s r.payload endpoint
      (s', response.sendable)
    else (s, .detail 405 "Method Not Allowed")

def run (config : Config) (s : Session) : List Request → List Response
  | [] => []
  | r :: rest =>
    let (s', response) := handle config s r
    response :: run config s' rest

end Service

end ScriptReview
