import TypedApi.Output.Models

/-!
# The contract file of a module

The interface of the module's service, with one signature for each method.
-/

namespace TypedApi

open TypeScript

namespace Output

/-- The signature of a method. -/
def signature (method : ServiceMethod) : Signature :=
  ⟨method.name, method.params, method.returnType, method.doc⟩

/-- The types that stand in a signature. -/
def signatureTypes (signature : Signature) : List Ty :=
  signature.params.filterMap (·.type) ++ [signature.returns]

/-- The contract file of a module with the given methods and models. -/
def contract (config : Config) (module : Module) (methods : List ServiceMethod)
    (models : Models) : SourceFile :=
  let signatures := methods.map signature
  let mentioned := (signatures.flatMap signatureTypes).flatMap Ty.mentions
  { banner := some banner
    imports := httpTypeImport config mentioned ++
      modelImport models.exports mentioned ("./models/" ++ module.name)
    definitions := [⟨module.contractName, none, .contract signatures⟩] }

end Output

end TypedApi
