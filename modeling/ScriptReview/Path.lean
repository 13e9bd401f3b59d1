import ScriptReview.Json.Reader
import ScriptReview.Text.Utf8

namespace ScriptReview

namespace Path

def slash : Symbol := .char '/'

def segments : Text → List Text
  | [] => [[]]
  | s :: rest =>
    if s = slash then [] :: segments rest
    else
      match segments rest with
      | [] => [[s]]
      | segment :: others => (s :: segment) :: others

/-- The segments kept so far, the last one first, after one more: a single dot adds nothing, two
dots take the last segment back. -/
def enter (kept : List Text) (segment : Text) : List Text :=
  if segment = Text.ofString "." then kept
  else if segment = Text.ofString ".." then
    if kept.isEmpty || kept == [[]] then kept else kept.drop 1
  else segment :: kept

def resolved (t : Text) : Text :=
  let path := Text.joinWith [slash] ((segments t).foldl enter []).reverse
  if path.isEmpty then [slash] else path

def withoutQuery (t : Text) : Text :=
  t.takeWhile fun s => !s.satisfies fun c => c == '?' || c == '#'

/-- The octets of a path, two hexadecimal digits after a percent sign being one. -/
def octets : Text → List UInt8
  | .char '%' :: a :: b :: rest =>
    match Json.hexValue? a, Json.hexValue? b with
    | some high, some low => UInt8.ofNat (high * 16 + low) :: octets rest
    | _, _ => String.utf8EncodeChar '%' ++ octets (a :: b :: rest)
  | .char c :: rest => String.utf8EncodeChar c ++ octets rest
  | .surrogate _ :: rest => octets rest
  | [] => []

def decoded (t : Text) : Text :=
  Utf8.decode (octets t)

def withoutTrailingSlashes (t : Text) : Text :=
  (t.reverse.dropWhile (· == slash)).reverse

end Path

end ScriptReview
