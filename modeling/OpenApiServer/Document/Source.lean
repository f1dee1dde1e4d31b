import OpenApiServer.Json.Reader
import OpenApiServer.Text.Basic
import OpenApiServer.Yaml.Value

/-!
# The text of a document

A document is written in JSON or in YAML; the extension of its file tells which.
-/

namespace OpenApiServer

namespace Source

inductive Format where
  | json
  | yaml
  deriving DecidableEq, Repr

namespace Format

/-- The format for an extension, in letters of any case. -/
def ofExtension (text : String) : Format :=
  let ext := Text.lower text
  if ext = "yaml" ∨ ext = "yml" then .yaml else .json

def title : Format → String
  | .json => "JSON"
  | .yaml => "YAML"

end Format

end Source

structure Source where
  format : Source.Format
  text : String

namespace Source

/-- Why a text cannot be read in its format. -/
structure Failure where
  format : Format
  cause : String
  deriving DecidableEq, Repr

def Failure.message (f : Failure) : String := "document is not valid " ++ f.format.title

def read (s : Source) : Except Failure Json :=
  match s.format with
  | .json => (Json.parse s.text.toList).mapError fun f => ⟨.json, f.message s.text.toList⟩
  | .yaml => (Yaml.parse s.text.toList).mapError fun f => ⟨.yaml, f.message⟩

end Source

end OpenApiServer
