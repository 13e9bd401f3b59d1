import ScriptReview.Json.Decoder

namespace ScriptReview

inductive Refusal where
  | notText
  | blank
  | unencodable
  | noFiles
  | tooManyFiles (count : Nat) (maximum : Int)
  | tooLarge (label : Text) (size : Nat) (maximum : Int)

namespace Refusal

def message : Refusal → Text
  | notText => "Invalid input: \"code\" must be a string"
  | blank => "Invalid input: \"code\" cannot be empty"
  | unencodable => "Invalid input: \"code\" must be valid UTF-8 text"
  | noFiles => "Invalid input: at least one file is required"
  | tooManyFiles count maximum =>
    "Too many files: " ++ Text.number count ++ " submitted, the maximum is " ++ Text.number maximum
  | tooLarge label size maximum =>
    label ++ " is " ++ Text.number size ++ " bytes; the maximum is " ++ Text.number maximum ++
      " bytes"

end Refusal

namespace Submission

def checkText (t : Text) : Except Refusal Text :=
  if t.isBlank then .error .blank
  else if !t.isScalar then .error .unencodable
  else .ok t

def check : Json → Except Refusal Text
  | .string t => checkText t
  | _ => .error .notText

end Submission

structure FileInput where
  filename : Text
  content : Text

namespace FileInput

def decodeWith (mismatch : FaultKind) : Decoder FileInput :=
  .fields mismatch fun fs =>
    FileInput.mk <$> Decoder.required "filename" .text fs <*> Decoder.required "content" .text fs

def decode : Decoder FileInput :=
  decodeWith (.notModel "FileInput")

end FileInput

end ScriptReview
