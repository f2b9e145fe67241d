/-!
# The command line

The program has one command, `server`, with one option that names the file of settings; it can
be asked for help everywhere.  Arguments are read from left to right.  The value of an option
may be attached to it or stand behind it; in the second case what is wrong with it shows only
when the option is settled, at the next known option or at the end.
-/

namespace PieceKeeper

/-- Why the program does not start. -/
inductive UsageFault where
  /-- Help was asked for. -/
  | help
  /-- Help is shown for want of a command. -/
  | noCommand
  | unknownCommand
  | unknownArgument
  | missingValue
  /-- An option is given twice. -/
  | repeated
  /-- A value is given to an option that takes none. -/
  | needlessValue
  deriving DecidableEq, Repr

/-- The exit code that a fault leads to. -/
def UsageFault.exitCode : UsageFault → Nat
  | .help => 0
  | _ => 2

namespace CommandLine

/-- The file of settings that is read unless another is named. -/
def defaultSettings : String := "config.yaml"

/-- An argument by its form. -/
inductive Word where
  /-- Two dashes alone: what follows is no option. -/
  | separator
  | long (name : String) (value : Option String)
  | short (letters : List Char)
  | plain (text : String)
  deriving DecidableEq, Repr

/-- The form of an argument.  A dash alone is a plain word. -/
def Word.ofText (text : String) : Word :=
  match text.toList with
  | ['-', '-'] => .separator
  | '-' :: '-' :: rest =>
    let (name, value) := rest.span (· != '=')
    .long (String.ofList name)
      (match value with
        | [] => none
        | _ :: value => some (String.ofList value))
  | '-' :: letter :: letters => .short (letter :: letters)
  | _ => .plain text

/-! ## The arguments of the command -/

/-- How far the option for the file of settings has been read. -/
structure Reading where
  /-- The settled value. -/
  value : Option String := none
  /-- An option that is not settled yet, with its value if that has come. -/
  open? : Option (Option String) := none
  deriving DecidableEq, Repr

namespace Reading

/-- Settles a value. -/
def settleValue (reading : Reading) (value : String) : Except UsageFault Reading :=
  if reading.value.isSome then .error .repeated else .ok { value := some value }

/-- Settles the open option, if there is one. -/
def settle (reading : Reading) : Except UsageFault Reading :=
  match reading.open? with
  | none => .ok reading
  | some none => .error .missingValue
  | some (some value) => reading.settleValue value

/-- Opens an option whose value stands behind it. -/
def openOption (reading : Reading) : Except UsageFault Reading :=
  return { ← reading.settle with open? := some none }

/-- Takes an option with its value attached. -/
def attach (reading : Reading) (value : String) : Except UsageFault Reading := do
  (← reading.settle).settleValue value

/-- Stops to show help. -/
def showHelp (reading : Reading) : Except UsageFault Reading := do
  let _ ← reading.settle
  .error .help

/-- Takes an argument that is not the separator. -/
def take (reading : Reading) : Word → Except UsageFault Reading
  | .separator => .ok reading
  | .long "config" (some value) => reading.attach value
  | .long "config" none => reading.openOption
  | .long "help" (some _) => .error .needlessValue
  | .long "help" none => reading.showHelp
  | .long _ _ => .error .unknownArgument
  | .short ['c'] => reading.openOption
  | .short ('c' :: '=' :: value) => reading.attach (String.ofList value)
  | .short ('c' :: value) => reading.attach (String.ofList value)
  | .short ('h' :: _) => reading.showHelp
  | .short _ => .error .unknownArgument
  | .plain text =>
    match reading.open? with
    | some none => .ok { reading with open? := some (some text) }
    | _ => .error .unknownArgument

end Reading

/-- Reads the arguments of the command; nothing may stand behind the separator. -/
def readOptions (reading : Reading) : List String → Except UsageFault String
  | [] => do return (← reading.settle).value.getD defaultSettings
  | text :: rest =>
    match Word.ofText text with
    | .separator =>
      if rest.isEmpty then do return (← reading.settle).value.getD defaultSettings
      else .error .unknownArgument
    | word => do readOptions (← reading.take word) rest

/-! ## Commands -/

/-- The names of commands. -/
def commands : List String := ["server", "help"]

/-- Reads the names that help is asked for: at most one, and of a command. -/
def readHelp : List String → UsageFault
  | [] => .help
  | [name] => if commands.contains name then .help else .unknownCommand
  | _ => .unknownCommand

/-- Reads the arguments of the program and returns the name of the file of settings. -/
def read : List String → Except UsageFault String
  | [] => .error .noCommand
  | text :: rest =>
    match Word.ofText text with
    | .separator =>
      match rest with
      | [] => .error .noCommand
      | name :: _ => .error (if commands.contains name then .unknownArgument else .unknownCommand)
    | .long "help" (some _) => .error .needlessValue
    | .long "help" none | .short ('h' :: _) => .error .help
    | .long _ _ | .short _ => .error .unknownArgument
    | .plain "server" => readOptions {} rest
    | .plain "help" => .error (readHelp rest)
    | .plain _ => .error .unknownCommand

end CommandLine

end PieceKeeper
