-- Loading a configuration from a file and saving it to one.
import SqlTokens.Config.Toml

namespace SqlTokens

/-- What a path leads to. -/
inductive Place where
  | nothing
  | folder
  | file (content : ByteArray)

namespace Config

/-- Loads the configuration at a place. -/
def load : Place → Except Error Config
  | .nothing => .error .fileMissing
  | .folder => .error .isDirectory
  | .file content =>
    match String.fromUTF8? content with
    | some text => ofToml text.toList
    | none => .error .notUtf8

/-- What is at a path after saving a configuration there. The folder of the path must be
there. -/
def save (c : Config) (folderExists : Bool) : Except Error Place :=
  if folderExists then .ok (.file (String.ofList c.toToml).toUTF8) else .error .fileMissing

end Config

end SqlTokens
