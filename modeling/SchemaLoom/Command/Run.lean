import SchemaLoom.Baml.Source
import SchemaLoom.Builder.Plan
import SchemaLoom.Command.Arguments
import SchemaLoom.Command.Expand
import SchemaLoom.Tool.Convert

set_option autoImplicit false

/-! # Carrying out a command

A command finds its inputs, reads all of them, then the settings, converts the inputs one after
the other, and writes one text. The first thing that goes wrong ends it. The warnings of an input
are reported when its part of the text is made, so a command that fails before reports none.
-/

namespace SchemaLoom.Command

/-! ## Failures -/

/-- Why a command fails. -/
inductive Failure where
  | badPattern (pattern : String) (e : PatternError)
  | noMatch (pattern : String)
  | unreadableInput (path : String) (e : FileError)
  | notJson (path : String) (e : SyntaxError)
  | nothingSelected (pointer path : String)
  | unreadableConfig (path : String) (e : FileError)
  | invalidConfig (path : String) (e : ReadError)
  | schemaNotConverted (path : String) (e : SchemaError)
  | toolsNotConverted (path : String) (e : SchemaError)
  | noChoice (path : String) (e : SchemaError)
  | directoryNotMade (path : String) (e : FileError)
  | notWritten (path : String) (e : FileError)

/-- The wording of a failure: what was being done, and why it failed. -/
def Failure.chain : Failure → List String
  | badPattern pattern e =>
      ["failed to resolve input file paths", s!"bad glob pattern: {pattern}", e.message]
  | noMatch pattern =>
      ["failed to resolve input file paths", s!"glob pattern matched no files: {pattern}"]
  | unreadableInput path e => [s!"failed to read source file {path}", e.message]
  | notJson path e => [s!"failed to parse JSON source file {path}", e.message]
  | nothingSelected pointer path => [s!"JSON pointer '{pointer}' selects nothing in {path}"]
  | unreadableConfig path e => [s!"failed to read config {path}", e.message]
  | invalidConfig path e => [s!"invalid config {path}", ReadError.message e]
  | schemaNotConverted path e => [s!"failed to convert {path}", e.message]
  | toolsNotConverted path e => [s!"failed to convert tool list {path}", e.message]
  | noChoice path e => [s!"in {path}", e.message]
  | directoryNotMade path e => [s!"failed to create {path}", e.message]
  | notWritten path e => [s!"failed to write {path}", e.message]

variable {m : Type → Type} [Monad m]

/-! ## Inputs -/

/-- The paths that an argument stands for. -/
def resolveInput (fs : FileSystem m) (argument : String) : m (Except Failure (List String)) :=
  if PathPattern.isPattern argument then
    match PathPattern.read argument with
    | .error e => return .error (.badPattern argument e)
    | .ok pattern => do
        match ← expand fs pattern with
        | [] => return .error (.noMatch argument)
        | paths => return .ok paths
  else return .ok [argument]

/-- The paths that arguments stand for. -/
def resolveInputs (fs : FileSystem m) : List String → m (Except Failure (List String))
  | [] => return .ok []
  | argument :: rest => do
      match ← resolveInput fs argument with
      | .error e => return .error e
      | .ok paths =>
          match ← resolveInputs fs rest with
          | .error e => return .error e
          | .ok others => return .ok (paths ++ others)

/-- The document in a text, or the part of it that a pointer selects. -/
def selectDocument (path text : String) (pointer? : Option String) : Except Failure Json :=
  match Json.parse text, pointer? with
  | .error e, _ => .error (.notJson path e)
  | .ok document, none => .ok document
  | .ok document, some pointer =>
      match Pointer.select? document pointer with
      | some part => .ok part
      | none => .error (.nothingSelected pointer path)

/-- Reads the documents of paths. -/
def readDocuments (fs : FileSystem m) (pointer? : Option String) :
    List String → m (Except Failure (List (String × Json)))
  | [] => return .ok []
  | path :: rest => do
      match ← fs.read path with
      | .error e => return .error (.unreadableInput path e)
      | .ok text =>
          match selectDocument path text pointer? with
          | .error e => return .error e
          | .ok document =>
              match ← readDocuments fs pointer? rest with
              | .error e => return .error e
              | .ok others => return .ok ((path, document) :: others)

/-- Reads the settings for tools; without a file they are the default ones. -/
def readSettings (fs : FileSystem m) : Option String → m (Except Failure ToolSettings)
  | none => return .ok {}
  | some path => do
      match ← fs.read path with
      | .error e => return .error (.unreadableConfig path e)
      | .ok text =>
          match ToolSettings.reader.ofText text with
          | .error e => return .error (.invalidConfig path e)
          | .ok settings => return .ok settings

/-! ## Conversion -/

/-- An input after its conversion. -/
structure Converted where
  path : String
  models : List DataModel
  roots : List DataType
  warnings : List Warning
  /-- The question in front of a class for picking tools. -/
  question? : Option String := none

/-- The name of the root class of a file: its name up to the first point. -/
def rootClassOf (path : String) : String :=
  match Path.fileName? path with
  | none => "Root"
  | some name =>
      let stem := String.ofList (name.toList.takeWhile (· ≠ '.'))
      if stem = "" then "Root" else stem

/-- Converts a schema. -/
def convertSchema (invocation : Invocation) (path : String) (document : Json) :
    Except Failure Converted :=
  match convert document (invocation.rootClass?.getD (rootClassOf path)) with
  | .error e => .error (.schemaNotConverted path e)
  | .ok conversion =>
      .ok ⟨path, conversion.models, [conversion.root], conversion.warnings, none⟩

/-- Converts a tool list; the class for picking tools comes last. -/
def convertToolList (settings : ToolSettings) (withSelection : Bool) (path : String)
    (document : Json) : Except Failure Converted :=
  match settings.adapter.convertDocument document with
  | .error e => .error (.toolsNotConverted path e)
  | .ok set =>
      if withSelection then
        match settings.selection.choiceClass set.tools with
        | .error e => .error (.noChoice path e)
        | .ok choice =>
            .ok ⟨path, set.models ++ [.ofClass choice], set.tools, set.warnings,
              some (settings.selection.question settings.nameField)⟩
      else .ok ⟨path, set.models, set.tools, set.warnings, none⟩

/-- Converts a document as the invocation says. -/
def convertDocument (invocation : Invocation) (settings : ToolSettings) (path : String)
    (document : Json) : Except Failure Converted := do
  let converted ←
    if invocation.fromTools then
      convertToolList settings invocation.selection path document
    else convertSchema invocation path document
  if invocation.dedupe then
    return { converted with models := DataModel.dedupe converted.models }
  else return converted

/-! ## Texts -/

/-- A text with the warnings of making it, each with the input it belongs to. -/
structure Report where
  text : String
  warnings : List (String × Warning)

/-- The warnings with the input they belong to. -/
def warningsOf (path : String) (warnings : List Warning) : List (String × Warning) :=
  warnings.map fun warning => (path, warning)

/-- A line of the question as a comment; an empty line gets no blank. -/
def commentLine (text : List Char) : List Char :=
  let commented := '/' :: '/' :: ' ' :: text
  (if commented.drop (commented.length - 3) = ['/', '/', ' '] then commented.dropLast
    else commented) ++ ['\n']

/-- The lines of a text; a carriage return at the end of a line belongs to the line break. -/
def linesOf (text : List Char) : List (List Char) :=
  let lines := Text.pieces (· = '\n') text
  (if lines.getLast? = some [] then lines.dropLast else lines).map fun line =>
    if line.getLast? = some '\r' then line.dropLast else line

/-- The question as comments. -/
def questionComment (question : String) : List Char :=
  let trimmed := (question.toList.reverse.dropWhile Char.isWhitespace).reverse
  (linesOf trimmed).flatMap commentLine ++ ['\n']

/-- The source text of one input among several or alone. -/
def inputReport (several : Bool) (converted : Converted) : Report :=
  let page := Baml.render converted.models
  let heading := if several then s!"// {converted.path}\n\n" else ""
  let question := match converted.question? with
    | some question => String.ofList (questionComment question)
    | none => ""
  ⟨heading ++ question ++ page.text,
    warningsOf converted.path (converted.warnings ++ page.warnings)⟩

/-- The source text of all inputs. -/
def sourceReport (inputs : List Converted) : Report :=
  let sections := inputs.map (inputReport (1 < inputs.length))
  ⟨"\n".intercalate (sections.map Report.text), sections.flatMap Report.warnings⟩

/-- A JSON document as a text of its own. -/
def dumpText (parts : List Json) : String := (Json.arr parts).indented ++ "\n"

/-- The data models of all inputs. -/
def modelsReport (inputs : List Converted) : Report :=
  ⟨dumpText (inputs.map fun c =>
      .obj [("source", .str c.path), ("roots", .arr (DataType.toJsonAll c.roots)),
        ("models", .arr (c.models.map DataModel.toJson))]),
    inputs.flatMap fun c => warningsOf c.path c.warnings⟩

/-- The commands for a builder of all inputs. -/
def planReport (inputs : List Converted) : Report :=
  ⟨dumpText (inputs.map fun c =>
      .obj [("source", .str c.path),
        ("commands", .arr ((Plan.ofModels c.models).commands.map BuildCommand.toJson))]),
    inputs.flatMap fun c => warningsOf c.path (c.warnings ++ (Plan.ofModels c.models).warnings)⟩

/-- The text that a command makes. -/
def report (kind : Kind) (inputs : List Converted) : Report :=
  match kind with
  | .baml | .tools => sourceReport inputs
  | .ir => modelsReport inputs
  | .plan => planReport inputs

/-! ## The command -/

/-- How a command ends. -/
structure Outcome where
  output : String := ""
  warnings : List (String × Warning) := []
  failure? : Option Failure := none

/-- The exit code of a command. -/
def Outcome.exitCode (o : Outcome) : Nat := if o.failure?.isSome then 1 else 0

/-- The lines for the warnings of a command. -/
def Outcome.warningLines (o : Outcome) : List String :=
  o.warnings.map fun (path, warning) => s!"warning: {path}: {warning.message}"

/-- Writes a text to a file; the directory is made if it is missing. -/
def writeFile (fs : FileSystem m) (path text : String) : m (Except Failure Unit) := do
  let directory := Path.parent path
  let made ← if directory = "" then pure (.ok ()) else fs.createDirectories directory
  match made with
  | .error e => return .error (.directoryNotMade directory e)
  | .ok () =>
      match ← fs.write path text with
      | .error e => return .error (.notWritten path e)
      | .ok () => return .ok ()

/-- Reads and converts the inputs. -/
def convertInputs (fs : FileSystem m) (invocation : Invocation) :
    m (Except Failure (List Converted)) := do
  match ← resolveInputs fs invocation.inputs with
  | .error e => return .error e
  | .ok paths =>
      match ← readDocuments fs invocation.pointer? paths with
      | .error e => return .error e
      | .ok documents =>
          match ← readSettings fs (if invocation.fromTools then invocation.config? else none) with
          | .error e => return .error e
          | .ok settings =>
              return documents.mapM fun (path, document) =>
                convertDocument invocation settings path document

/-- Carries out an invocation. -/
def run (fs : FileSystem m) (invocation : Invocation) : m Outcome := do
  match ← convertInputs fs invocation with
  | .error e => return { failure? := some e }
  | .ok inputs =>
      let made := report invocation.kind inputs
      match invocation.out? with
      | none => return { output := made.text, warnings := made.warnings }
      | some path =>
          match ← writeFile fs path made.text with
          | .ok () => return { warnings := made.warnings }
          | .error e => return { warnings := made.warnings, failure? := some e }

/-- Reads a command line and carries it out. -/
def runLine (fs : FileSystem m) (arguments : List String) : m (Except Refusal Outcome) := do
  match readLine {} arguments with
  | .error refusal => return .error refusal
  | .ok invocation => return .ok (← run fs invocation)

/-- Carries out a command line over a tree of files. -/
def runOver (files : FileTree) (arguments : List String) :
    Except Refusal Outcome × FileTree :=
  (runLine FileTree.fileSystem arguments).run files

end SchemaLoom.Command
