import TypedApi.NameMap
import TypedApi.Text.Basic
import TypedApi.Text.LowerCase
import TypedApi.Naming
import TypedApi.Double.Text
import TypedApi.TypeScript.Printer
import TypedApi.Document.Schema
import TypedApi.Document.Basic
import TypedApi.EnumRegistry
import TypedApi.Typing
import TypedApi.Module
import TypedApi.Placement
import TypedApi.Partition
import TypedApi.Service.Crud
import TypedApi.Service.Endpoint
import TypedApi.Service.OfModule
import TypedApi.Output.Files
import TypedApi.Json.Reader
import TypedApi.Document.Reader
import TypedApi.Yaml.Node
import TypedApi.Config.Reader
import TypedApi.Storage.FileSystem
import TypedApi.CommandLine.Run
import TypedApi.Main
import TypedApi.Proofs.Bounded.Typing
import TypedApi.Proofs.Bounded.Service
import TypedApi.Proofs.Bounded.Output
import TypedApi.Proofs.Entries
import TypedApi.Proofs.NameMap
import TypedApi.Proofs.Assembly
import TypedApi.Proofs.Service.NamePool
import TypedApi.Proofs.Service.Completion
import TypedApi.Proofs.Ownership
import TypedApi.Proofs.Document.Nodes
import TypedApi.Proofs.EnumRegistry
import TypedApi.Proofs.Typing
import TypedApi.Proofs.Pages
import TypedApi.Proofs.Output.Models
import TypedApi.Proofs.Service.Types
import TypedApi.Proofs.Output.Names
import TypedApi.Proofs.Substitution
import TypedApi.Proofs.ModuleNames
import TypedApi.Proofs.Path
import TypedApi.Proofs.Path.Components
import TypedApi.Proofs.Output.Paths
import TypedApi.Proofs.Output.Links
import TypedApi.Proofs.TypeScript.Reading
import TypedApi.Proofs.Service.Arguments
import TypedApi.Proofs.Output.Agreement
import TypedApi.Proofs.Output.ParameterNames
import TypedApi.Proofs.Output.Registry
import TypedApi.Proofs.Partition
import TypedApi.Proofs.Storage.FileSystem
import TypedApi.Proofs.Storage.Writing
import TypedApi.Proofs.Output.FileMap
import TypedApi.Proofs.Output.FreeNames
import TypedApi.Proofs.Output.Capture
import TypedApi.Proofs.Storage.Accesses
import TypedApi.Proofs.Storage.Containment
import TypedApi.Proofs.Document.Reordering
import TypedApi.Proofs.Document.MemberOrder
import TypedApi.Proofs.Founding
import TypedApi.Proofs.Output.ExportNames
import TypedApi.Proofs.TypeScript.Identifiers
import TypedApi.Proofs.Service.MemberNames
import TypedApi.Proofs.TypeScript.Members
import TypedApi.Proofs.Output.MemberAccess
import TypedApi.Proofs.Output.Bindings
import TypedApi.Proofs.Output.MainEntity
import TypedApi.Proofs.Output.Entities
import TypedApi.Proofs.Output.PayloadTypes
import TypedApi.Proofs.Output.AliasCircles
import TypedApi.Proofs.Service.Numerals
import TypedApi.Proofs.Output.HookNames
import TypedApi.Proofs.TypeScript.Evaluation
import TypedApi.Proofs.Output.QueryKeys
import TypedApi.Proofs.Adoption
import TypedApi.Proofs.Service.Template
import TypedApi.Proofs.Output.PathArguments
import TypedApi.Proofs.Output.Collections
import TypedApi.Proofs.Lookups
import TypedApi.Proofs.TypeScript.Literals
import TypedApi.Proofs.TypeScript.NormalTypes
import TypedApi.Proofs.TypeScript.Readers
import TypedApi.Proofs.TypeScript.TypeReader
import TypedApi.Proofs.TypeScript.TypeTexts
import TypedApi.Proofs.Service.Election
import TypedApi.Proofs.Storage.Refusals
import TypedApi.Proofs.CollectionPaths
import TypedApi.Proofs.Termination
import TypedApi.Proofs.Answers
import TypedApi.Proofs.Service.Walks
import TypedApi.Proofs.Output.Walks
import TypedApi.Proofs.Output.Definitions
import TypedApi.Proofs.TypeScript.Comments
import TypedApi.Proofs.Service.NameRequests
import TypedApi.Proofs.TypeScript.ParameterIdentifiers
import TypedApi.Proofs.Marks
import TypedApi.Proofs.RegistryKeys
import TypedApi.Proofs.SimpleNames
