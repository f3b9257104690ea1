import TypedApi.Entries

/-!
# Arguments of the command line

Reading the words of a command line into a command. The words are read in order: the first mistake
makes the line wrong, and a request for help in front of it is answered.
-/

namespace TypedApi

/-- What an option takes. -/
inductive OptionKind where
  /-- A path, which is not empty. -/
  | path
  /-- Any text. -/
  | text
  /-- Nothing. -/
  | flag
  deriving DecidableEq, Repr

/-- An option of a command. -/
structure CommandOption where
  /-- The name behind two dashes. -/
  name : String
  /-- The letter behind one dash. -/
  letter : Option Char := none
  kind : OptionKind
  deriving DecidableEq, Repr

/-- What the words behind a command amount to. -/
inductive Reading where
  /-- A mistake. -/
  | wrong
  /-- A request for help. -/
  | help
  /-- The values of options; a flag has an empty one. -/
  | values (values : Entries String)
  deriving DecidableEq, Repr

namespace Reading

/-- Whether a word that stands alone may be the value of an option. -/
def isValue (word : String) : Bool :=
  word == "-" || word.toList.head? != some '-'

/-- The name and attached value of a word behind its two dashes. -/
def cutLong (word : List Char) : String × Option String :=
  let name := word.takeWhile (· != '=')
  match word.drop name.length with
  | _ :: value => (String.ofList name, some (String.ofList value))
  | [] => (String.ofList name, none)

/-- The value attached to a letter; an equals sign between the two does not count. -/
def attached? : List Char → Option String
  | [] => none
  | '=' :: value => some (String.ofList value)
  | value => some (String.ofList value)

/-- Take note of an option's value, which must be the first and fit. -/
def note (found : Entries String) (option : CommandOption) (value : String) :
    Option (Entries String) :=
  if (found.lookup option.name).isSome || (option.kind == .path && value == "") then none
  else some ((option.name, value) :: found)

/-- What one word asks for. -/
inductive Word where
  | wrong
  | help
  /-- The end of the options. -/
  | ending
  /-- An option, perhaps with a value. -/
  | option (option : CommandOption) (value : Option String)
  deriving DecidableEq, Repr

/-- What a word asks for, given the options that there are. -/
def Word.of (options : List CommandOption) (word : String) : Word :=
  match word.toList with
  | ['-', '-'] => .ending
  | '-' :: '-' :: long =>
    let (name, value) := cutLong long
    if name == "help" then if value.isSome then .wrong else .help
    else (options.find? (·.name == name)).elim .wrong (.option · value)
  | '-' :: letter :: more =>
    if letter == 'h' then .help
    else (options.find? (·.letter == some letter)).elim .wrong (.option · (attached? more))
  | _ => .wrong

/-- Read the words behind a command, given its options and the values found so far. -/
def ofWords (options : List CommandOption) : Entries String → List String → Reading
  | found, [] => .values found
  | found, word :: rest =>
    match Word.of options word with
    | .wrong => .wrong
    | .help => .help
    | .ending => if rest.isEmpty then .values found else .wrong
    | .option option value =>
      if option.kind = .flag then
        match value, note found option "" with
        | none, some found => ofWords options found rest
        | _, _ => .wrong
      else
        match value, rest with
        | some value, rest =>
          match note found option value with
          | some found => ofWords options found rest
          | none => .wrong
        | none, value :: rest =>
          match isValue value, note found option value with
          | true, some found => ofWords options found rest
          | _, _ => .wrong
        | none, [] => .wrong

end Reading

/-- What to generate and where to. -/
structure GenerateOptions where
  input : String
  output : Option String := none
  config : Option String := none
  apiPrefix : Option String := none
  /-- Whether the files are only listed. -/
  dryRun : Bool := false
  deriving DecidableEq, Repr

/-- What to inspect. -/
structure InspectOptions where
  input : String
  config : Option String := none
  deriving DecidableEq, Repr

/-- A command. -/
inductive Command where
  | help
  | version
  | generate (options : GenerateOptions)
  | inspect (options : InspectOptions)
  deriving DecidableEq, Repr

namespace Command

/-- The option that names the document. -/
def inputOption : CommandOption := ⟨"input", some 'i', .path⟩

/-- The option that names a configuration. -/
def configOption : CommandOption := ⟨"config", none, .path⟩

/-- The options of generation. -/
def generateOptions : List CommandOption :=
  [inputOption, ⟨"output", some 'o', .path⟩, configOption, ⟨"api-prefix", none, .text⟩,
    ⟨"dry-run", none, .flag⟩]

/-- The options of inspection. -/
def inspectOptions : List CommandOption :=
  [inputOption, configOption]

/-- The command of a reading; no command if a mistake was made or the values do not suffice. -/
def ofReading (build : Entries String → Option Command) : Reading → Option Command
  | .wrong => none
  | .help => some .help
  | .values values => build values

/-- A command of one word, or that word attached to one dash among others; the first letter
decides. -/
def ofWord (word : List Char) : Option Command :=
  match word with
  | '-' :: 'h' :: _ => some .help
  | '-' :: 'V' :: _ => some .version
  | ['-', '-', 'h', 'e', 'l', 'p'] => some .help
  | ['-', '-', 'v', 'e', 'r', 's', 'i', 'o', 'n'] => some .version
  | _ => none

/-- The command of a whole line; none if the line is wrong. -/
def ofArguments : List String → Option Command
  | [] => some .help
  | ["--"] => some .help
  | ["help"] => some .help
  | ["help", topic] =>
    if topic ∈ ["generate", "inspect", "help"] then some .help else none
  | "generate" :: rest =>
    ofReading
      (fun values => do
        return .generate {
          input := ← values.lookup "input"
          output := values.lookup "output"
          config := values.lookup "config"
          apiPrefix := values.lookup "api-prefix"
          dryRun := (values.lookup "dry-run").isSome })
      (Reading.ofWords generateOptions [] rest)
  | "inspect" :: rest =>
    ofReading
      (fun values => do
        return .inspect { input := ← values.lookup "input", config := values.lookup "config" })
      (Reading.ofWords inspectOptions [] rest)
  | word :: _ => ofWord word.toList

end Command

end TypedApi
