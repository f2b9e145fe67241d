import PieceKeeper.CommandLine.Basic
import PieceKeeper.Service.Start

/-!
# The program

From the arguments to the exit code: the settings are read, the data directory is made, the
service starts, and it runs until it is interrupted.
-/

namespace PieceKeeper.Program

/-- Reads the settings with a name and makes the data directory.  A failure says what was being
done. -/
def loadSettings (formats : SettingsFile.Formats) (files : FileTree)
    (environment : List (String × String)) (name : String) : Except String (Settings × FileTree) :=
  match Settings.load formats files environment name with
  | .error fault => .error ("reading " ++ name ++ ": " ++ fault.message)
  | .ok settings =>
    match files.makeDirectories settings.dataDirectory with
    | .error failure =>
      .error ("creating data directory " ++ settings.dataDirectory ++ ": " ++ failure.message)
    | .ok files => .ok (settings, files)

/-- How the program ends, and what it leaves. -/
structure Ending where
  exitCode : Nat
  /-- What is logged as errors. -/
  errors : List String := []
  files : FileTree

/-- Runs the program with the settings of a name until it is interrupted.  Its clock starts with
it. -/
def serve (platform : Platform) (files : FileTree) (environment : List (String × String))
    (name : String) : Ending :=
  match loadSettings platform.formats files environment name with
  | .error message => ⟨1, ["Failed to load config: " ++ message], files⟩
  | .ok (settings, files) =>
    match (Service.start platform settings 0).run files with
    | (.error fault, files) => ⟨1, ["Server error: " ++ fault.message], files⟩
    | (.ok _, files) => ⟨0, [], files⟩

/-- Runs the program. -/
def run (platform : Platform) (files : FileTree) (environment : List (String × String))
    (arguments : List String) : Ending :=
  match CommandLine.read arguments with
  | .error fault => ⟨fault.exitCode, [], files⟩
  | .ok name => serve platform files environment name

end PieceKeeper.Program
