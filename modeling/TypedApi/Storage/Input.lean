import TypedApi.Config.Reader
import TypedApi.Document.Text
import TypedApi.Storage.Basic

/-!
# Stored input

Reading documents and configurations from storage.
-/

namespace TypedApi.Storage

variable {m : Type → Type} [Monad m] (storage : Storage m)

/-- Read a document; its extension tells how it is written. -/
def document (path : String) : ExceptT Failure m Document := do
  let text ← storage.require path
  liftM (Document.parse (.ofPath path) text)

/-- Read a configuration. -/
def config (path : String) : ExceptT Failure m Config := do
  let text ← storage.require path
  match Config.parse? text with
  | some config => return config
  | none => throw (.config path)

/-- Read a configuration if there is one, and take the defaults otherwise. -/
def configOrDefault (path : String) : ExceptT Failure m Config := do
  if ← storage.holds path then storage.config path else return {}

end TypedApi.Storage
