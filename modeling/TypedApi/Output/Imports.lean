import TypedApi.Config.Basic
import TypedApi.Module
import TypedApi.TypeScript.Expr

/-!
# What generated files have in common

The banner in the first line, the names that a module gives to its files' exports, and the imports
of the types that a file mentions.
-/

namespace TypedApi

open TypeScript

namespace Output

/-- The first line of every generated file. -/
def banner : String := "This file is generated by modgen. Do not edit it by hand."

/-- The constant that holds the registry of endpoints. -/
def endpointsConstant : String := "ENDPOINTS"

/-- An import of types, if there is a type to import. -/
def typeImport (items : List String) (source : String) : List Import :=
  if items.isEmpty then [] else [⟨items, source, true⟩]

/-- The import of those types of the HTTP layer that are mentioned. -/
def httpTypeImport (config : Config) (mentioned : List String) : List Import :=
  typeImport
    ([config.responseType, config.paginatedType, config.paginationParamsType].filter
      mentioned.contains)
    config.httpModule

/-- The import of those exports of a models file that are mentioned, in name order. -/
def modelImport (exports : NameMap Unit) (mentioned : List String) (source : String) :
    List Import :=
  typeImport (exports.names.filter mentioned.contains) source

end Output

namespace Module

/-- The name of the service's contract. -/
def contractName (module : Module) : String := "I" ++ module.name ++ "Service"

/-- The name of the function that makes the service. -/
def factoryName (module : Module) : String := module.name ++ "Service"

/-- The name of the function that makes the hooks. -/
def presentationName (module : Module) : String := module.name ++ "Presentation"

end Module

end TypedApi
