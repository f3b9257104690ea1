import TypedApi.Output.Imports
import TypedApi.Service.Method

/-!
# The registry of endpoints

One constant for all modules: under each module's name, the function that builds the path of each
method, under the method's key.
-/

namespace TypedApi

open TypeScript

namespace Output

/-- The builders of a module's paths. -/
def builders (methods : List ServiceMethod) : Expr :=
  .object (methods.map fun method => .property method.endpoint.key method.endpoint.builder) true

/-- The registry file of the methods of all modules. -/
def endpoints (methods : NameMap (List ServiceMethod)) : SourceFile :=
  { banner := some banner
    statements := [.constant endpointsConstant
      (.cast
        (.object (methods.entries.map fun entry => .property entry.1 (builders entry.2)) true)
        (.ref "const"))
      true] }

end Output

end TypedApi
