import ScriptReview.Digest
import ScriptReview.Submission
import ScriptReview.Text.Utf8

namespace ScriptReview

namespace Fingerprint

def ofText? (t : Text) : Option Text :=
  t.utf8?.map fun octets => (Digest.sha256 octets).map .char

/-- Files in order, each under a line with its name, with a blank line between neighbours. -/
def bundle (files : List FileInput) : Text :=
  Text.joinWith "\n\n" (files.map fun f => "// " ++ f.filename ++ "\n" ++ f.content)

end Fingerprint

end ScriptReview
