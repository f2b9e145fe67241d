import PieceKeeper.Program

/-!
# The outer layer

Carries the program's work out on the machine: it reads the files and variables that the program
may ask for, makes the directories and files that it wants made, and waits for the end of its
input while the service runs.
-/

namespace PieceKeeper.Main

/-- What is shown when help is asked for or an argument makes no sense. -/
def usage : String :=
  "Usage: piecekeeper server [--config <file>]\n\nThe default file is " ++
    CommandLine.defaultSettings ++ "."

/-- The variables that are looked up. -/
def variableNames : List String :=
  ["SERVER__BIND_ADDR", "SERVER__MAX_UPLOAD_BYTES", "STORAGE__DATA_DIR", "LEDGER__BASE_URL",
    "LEDGER__TIMEOUT_SECS", "RECONCILER__ENABLED", "RECONCILER__INTERVAL_SECS",
    "PROOF__SECTOR_SIZE"].map (Environment.mark.toUpper ++ ·)

/-- The variables that are set. -/
def readVariables : IO (List (String × String)) :=
  variableNames.filterMapM fun name ↦ return (← IO.getEnv name).map (name, ·)

/-- Adds a file of the machine to a tree, if it is there. -/
def addFile (tree : FileTree) (path : String) : IO FileTree := do
  try
    let content ← IO.FS.readBinFile path
    let added := do (← tree.makeParents path).write path content.toList
    return added.toOption.getD tree
  catch _ => return tree

/-- The tree with nothing but the directory where the program runs. -/
def startTree : IO FileTree := do
  let directory := (← IO.currentDir).toString
  match FileTree.makeDirectories {} directory with
  | .ok tree => return { tree with workingDirectory := FileTree.countedNames directory }
  | .error _ => return {}

/-- The path of a location. -/
def pathOf (location : Location) : String := "/" ++ "/".intercalate location

/-- Makes on the machine what a tree has and another has not. -/
def realise (before after : FileTree) : IO Unit := do
  for (location, node) in after.nodes.reverse do
    if (before.at? location).isNone then
      match node with
      | .directory => IO.FS.createDirAll (pathOf location)
      | .file _ => IO.FS.withFile (pathOf location) .append fun _ ↦ pure ()

/-- Runs the service with the settings of a name.  It listens at its own input. -/
def serve (name : String) : IO UInt32 := do
  let before ← (name :: (Platform.plain.formats.extend name).map (·.1)).foldlM addFile (← startTree)
  let ending := Program.serve .plain before (← readVariables) name
  ending.errors.forM fun message ↦ IO.eprintln message
  try
    realise before ending.files
    if ending.exitCode = 0 then let _ ← (← IO.getStdin).getLine
    return UInt32.ofNat ending.exitCode
  catch failure =>
    IO.eprintln (toString failure)
    return 1

end PieceKeeper.Main

/-- Runs the program. -/
def main (arguments : List String) : IO UInt32 := do
  match PieceKeeper.CommandLine.read arguments with
  | .ok name => PieceKeeper.Main.serve name
  | .error fault =>
    let output ← if fault.exitCode = 0 then IO.getStdout else IO.getStderr
    output.putStrLn PieceKeeper.Main.usage
    return UInt32.ofNat fault.exitCode
