import TypedApi.Document.Reader
import TypedApi.Failure
import TypedApi.Json.Reader
import TypedApi.Path
import TypedApi.Yaml.Source

/-!
# Texts of documents

A document is written in JSON or YAML; the name of its file tells which.
-/

namespace TypedApi

/-- The languages that documents are written in. -/
inductive DocumentFormat where
  | json
  | yaml
  deriving DecidableEq, Repr

/-- The format of a file by its extension; everything but YAML's is JSON. -/
def DocumentFormat.ofPath (path : String) : DocumentFormat :=
  match (Path.extension? path).map fun ext => ext.toList.map Char.toLower with
  | some ['y', 'a', 'm', 'l'] => .yaml
  | some ['y', 'm', 'l'] => .yaml
  | _ => .json

/-- The deepest nesting of lists and records in a YAML document. -/
def Yaml.depthLimit : Nat := 128

/-- Read a document out of a YAML tree. -/
def Document.ofYaml (root : Yaml.Node) : Option Document :=
  let source := (Yaml.Tree.ofRoot root).source
  (Document.read source (Schema.read source) Yaml.depthLimit root).run' 0

/-- Read the text of a document. -/
def Document.parse (format : DocumentFormat) (text : String) : Except Failure Document :=
  match format with
  | .json => ((Json.parse? text).bind Document.ofJson).elim (.error .json) .ok
  | .yaml => ((Yaml.parse? text).bind Document.ofYaml).elim (.error .yaml) .ok

end TypedApi
