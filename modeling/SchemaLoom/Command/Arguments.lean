set_option autoImplicit false

/-! # Command lines

A command line names one of four commands and gives its options. Options are read from left to
right. An option that takes values takes the arguments that follow it, up to the next one that
starts with a hyphen; a value may also be attached, and is then the only one. Asking for help or
for the version ends the reading at once; the first argument that does not fit refuses the line.
-/

namespace SchemaLoom.Command

/-- What is produced, and from what. -/
inductive Kind where
  /-- Source text from schemas. -/
  | baml
  /-- Source text from tool lists. -/
  | tools
  /-- The data models. -/
  | ir
  /-- The commands for a builder. -/
  | plan
  deriving DecidableEq, Repr

/-- The word that names a command. -/
def Kind.word : Kind → String
  | baml => "baml"
  | tools => "tools"
  | ir => "ir"
  | plan => "plan"

/-- All commands. -/
def Kind.all : List Kind := [.baml, .tools, .ir, .plan]

/-- An option of a command. -/
inductive Flag where
  | input
  | jsonPointer
  | rootClass
  | config
  | selection
  | tools
  | dedupe
  | out
  | verbose
  | help
  | version
  deriving DecidableEq, Repr

/-- How many values an option takes. -/
inductive Arity where
  | zero
  | one
  | many
  deriving DecidableEq, Repr

namespace Flag

/-- The long form of an option. -/
def long : Flag → String
  | input => "input"
  | jsonPointer => "json-pointer"
  | rootClass => "root-class"
  | config => "config"
  | selection => "selection"
  | tools => "tools"
  | dedupe => "dedupe"
  | out => "out"
  | verbose => "verbose"
  | help => "help"
  | version => "version"

/-- The letter of an option. -/
def short? : Flag → Option Char
  | input => some 'i'
  | out => some 'o'
  | verbose => some 'v'
  | help => some 'h'
  | version => some 'V'
  | jsonPointer | rootClass | config | selection | tools | dedupe => none

/-- How many values an option takes. -/
def arity : Flag → Arity
  | input => .many
  | jsonPointer | rootClass | config | out => .one
  | selection | tools | dedupe | verbose | help | version => .zero

/-- Whether an option may be given more than once. -/
def repeats : Flag → Bool
  | input | verbose => true
  | _ => false

/-- Whether the value of an option names a file and so is not empty. -/
def namesFile : Flag → Bool
  | config | out => true
  | _ => false

end Flag

/-- The options of a command. -/
def Kind.flags : Kind → List Flag
  | baml => [.jsonPointer, .input, .rootClass, .dedupe, .out, .verbose, .help]
  | tools => [.jsonPointer, .input, .config, .selection, .dedupe, .out, .verbose, .help]
  | ir | plan =>
      [.jsonPointer, .input, .tools, .rootClass, .config, .selection, .dedupe, .out, .verbose,
        .help]

/-- The options in front of a command. -/
def leadingFlags : List Flag := [.verbose, .help, .version]

/-- Why a command line is not carried out. -/
inductive Refusal where
  /-- It does not fit. -/
  | misuse
  /-- It asks for help or for the version. -/
  | shown
  deriving DecidableEq, Repr

/-- The exit code of a command line that is not carried out. -/
def Refusal.exitCode : Refusal → Nat
  | misuse => 2
  | shown => 0

/-! ## Reading options -/

/-- The options that have been given, in order, with their values. -/
abbrev Given := List (Flag × List String)

/-- An option is complete with its values. -/
def Given.record (given : Given) (flag : Flag) (values : List String) : Except Refusal Given :=
  if flag = .help || flag = .version then .error .shown
  else if !flag.repeats && given.any fun (other, _) => other = flag then .error .misuse
  else if flag.arity ≠ .zero && values.isEmpty then .error .misuse
  else if flag.namesFile && values.any String.isEmpty then .error .misuse
  else .ok (given ++ [(flag, values)])

/-- What has been read: the complete options, and the one that still takes values. -/
structure Reading where
  given : Given := []
  pending? : Option (Flag × List String) := none

namespace Reading

/-- Completes the option that takes values. -/
def settle (r : Reading) : Except Refusal Given :=
  match r.pending? with
  | some (flag, values) => r.given.record flag values
  | none => .ok r.given

/-- Reads an option, maybe with an attached value. -/
def option (r : Reading) (flag : Flag) (attached? : Option String) : Except Refusal Reading := do
  let given ← r.settle
  match flag.arity, attached? with
  | .zero, none => return { given := ← given.record flag [] }
  | .zero, some _ => throw .misuse
  | _, some value => return { given := ← given.record flag [value] }
  | _, none => return { given := given, pending? := some (flag, []) }

/-- Reads a value. -/
def value (r : Reading) (text : String) : Except Refusal Reading :=
  match r.pending? with
  | none => .error .misuse
  | some (flag, values) =>
      if flag.arity = .many then .ok { r with pending? := some (flag, values ++ [text]) }
      else return { given := ← r.given.record flag (values ++ [text]) }

/-- Reads an option in its long form. -/
def longOption (flags : List Flag) (r : Reading) (text : List Char) : Except Refusal Reading :=
  let name := String.ofList (text.takeWhile (· ≠ '='))
  let attached? := match text.dropWhile (· ≠ '=') with
    | [] => none
    | _ :: value => some (String.ofList value)
  match flags.find? fun flag => flag.long = name with
  | some flag => r.option flag attached?
  | none => .error .misuse

/-- Reads options given by letters; the first one that takes a value takes the rest. -/
def shortOptions (flags : List Flag) (r : Reading) : List Char → Except Refusal Reading
  | [] => .ok r
  | letter :: rest =>
      match flags.find? fun flag => flag.short? = some letter with
      | none => .error .misuse
      | some flag =>
          if flag.arity = .zero then do
            let r ← r.option flag none
            shortOptions flags r rest
          else
            match rest with
            | [] => r.option flag none
            | '=' :: value => r.option flag (some (String.ofList value))
            | value => r.option flag (some (String.ofList value))

/-- Reads the arguments of a command. After `--` nothing may follow. -/
def arguments (flags : List Flag) (r : Reading) : List String → Except Refusal Given
  | [] => r.settle
  | argument :: rest =>
      match argument.toList with
      | ['-', '-'] => if rest.isEmpty then r.settle else .error .misuse
      | '-' :: '-' :: text => do arguments flags (← longOption flags r text) rest
      | '-' :: letter :: letters => do
          arguments flags (← shortOptions flags r (letter :: letters)) rest
      | _ => do arguments flags (← r.value argument) rest

end Reading

/-! ## Invocations -/

/-- A command with its options. -/
structure Invocation where
  kind : Kind
  inputs : List String
  pointer? : Option String := none
  rootClass? : Option String := none
  config? : Option String := none
  selection : Bool := false
  /-- Whether inputs are tool lists. -/
  fromTools : Bool := false
  dedupe : Bool := false
  out? : Option String := none
  deriving DecidableEq, Repr

namespace Given

/-- Whether an option is given. -/
def has (given : Given) (flag : Flag) : Bool := given.any fun (other, _) => other = flag

/-- The value of an option that takes one. -/
def value? (given : Given) (flag : Flag) : Option String :=
  match given.find? fun (other, _) => other = flag with
  | some (_, value :: _) => some value
  | _ => none

/-- All values of an option. -/
def values (given : Given) (flag : Flag) : List String :=
  given.flatMap fun (other, values) => if other = flag then values else []

/-- The invocation of a command with the given options; an input is needed. -/
def invocation (given : Given) (kind : Kind) : Except Refusal Invocation :=
  if !given.has .input then .error .misuse
  else .ok
    { kind := kind
      inputs := given.values .input
      pointer? := given.value? .jsonPointer
      rootClass? := given.value? .rootClass
      config? := given.value? .config
      selection := given.has .selection
      fromTools := kind = .tools || given.has .tools
      dedupe := given.has .dedupe
      out? := given.value? .out }

end Given

/-- Reads a request for help on a command. -/
def readHelp : List String → Refusal
  | [] => .shown
  | [word] => if word = "help" || Kind.all.any fun kind => kind.word = word then .shown else .misuse
  | _ => .misuse

/-- Reads a command line: options in front, the word of a command, and its arguments. -/
def readLine (r : Reading) : List String → Except Refusal Invocation
  | [] => .error .misuse
  | argument :: rest =>
      match argument.toList with
      | ['-', '-'] => .error .misuse
      | '-' :: '-' :: text => do readLine (← r.longOption leadingFlags text) rest
      | '-' :: letter :: letters => do
          readLine (← r.shortOptions leadingFlags (letter :: letters)) rest
      | _ =>
          if argument = "help" then .error (readHelp rest)
          else
            match Kind.all.find? fun kind => kind.word = argument with
            | none => .error .misuse
            | some kind => do
                let given ← Reading.arguments kind.flags {} rest
                given.invocation kind

end SchemaLoom.Command
