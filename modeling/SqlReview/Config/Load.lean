import SqlReview.Config
import SqlReview.Toml.Reader

/-!
Configurations out of TOML text and files. A text may say as little as it likes, but what it says
has to fit, and the whole has to be valid.
-/
namespace SqlReview.Config

def ofToml (text : Text) : Except ConfigError Config :=
  match (Toml.parse? text).bind Config.read? with
  | none => .error .malformed
  | some config =>
    match config.validate with
    | .error e => .error e
    | .ok () => .ok config

/-- Reads the bytes of a file, or none where there is no file. -/
def ofBytes (bytes : Option (List UInt8)) : Except ConfigError Config :=
  match bytes.bind fun bytes => String.fromUTF8? ⟨bytes.toArray⟩ with
  | none => .error .unreadable
  | some text => ofToml text.toList

end SqlReview.Config
