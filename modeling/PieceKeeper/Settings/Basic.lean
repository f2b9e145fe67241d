import PieceKeeper.Fault
import PieceKeeper.Json.Record
import PieceKeeper.Manager
import PieceKeeper.Settings.Environment
import PieceKeeper.Settings.Source
import PieceKeeper.Text.Blank

/-!
# Settings

What the service can be told before it starts, in five sections.  Only the address of the
ledger must be given.  Variables of the environment go before the file.
-/

namespace PieceKeeper

/-- What the service can be told. -/
structure Settings where
  bindAddress : String := "0.0.0.0:8080"
  /-- The number of bytes of the largest body that is taken. -/
  maxBody : UInt64 := 268435456
  /-- The directory of the stores. -/
  dataDirectory : String := "./data"
  /-- The address of the ledger. -/
  ledgerBase : String
  /-- How many seconds a request to the ledger may take. -/
  ledgerTimeout : UInt64 := 30
  /-- Whether pending pieces are looked after in the background. -/
  workerEnabled : Bool := true
  /-- How many seconds lie between two rounds of the worker. -/
  workerInterval : UInt64 := 10
  sectorSize : UInt64 := Manager.defaultSectorSize
  deriving DecidableEq, Repr

namespace Settings

/-- A column that has a default. -/
def optional {α : Type} (read : Setting → Option α) (default : α) (column : Option Setting) :
    Option α :=
  match column with
  | none => some default
  | some value => read value

/-- The settings in a table of sections. -/
def ofTable? (root : Setting) : Option Settings := do
  let [server, storage, ledger, worker, proof] ←
    root.columns? ["server", "storage", "ledger", "reconciler", "proof"] | none
  let noSection : Setting := .table []
  let [bindAddress, maxBody] ←
    (server.getD noSection).columns? ["bind_addr", "max_upload_bytes"] | none
  let [dataDirectory] ← (storage.getD noSection).columns? ["data_dir"] | none
  let [ledgerBase, ledgerTimeout] ← (← ledger).columns? ["base_url", "timeout_secs"] | none
  let [workerEnabled, workerInterval] ←
    (worker.getD noSection).columns? ["enabled", "interval_secs"] | none
  let [sectorSize] ← (proof.getD noSection).columns? ["sector_size"] | none
  let default : Settings := { ledgerBase := "" }
  return {
    bindAddress := ← optional Setting.toText? default.bindAddress bindAddress
    maxBody := ← optional Setting.toUInt64? default.maxBody maxBody
    dataDirectory := ← optional Setting.toText? default.dataDirectory dataDirectory
    ledgerBase := ← (← ledgerBase).toText?
    ledgerTimeout := ← optional Setting.toUInt64? default.ledgerTimeout ledgerTimeout
    workerEnabled := ← optional Setting.toBool? default.workerEnabled workerEnabled
    workerInterval := ← optional Setting.toUInt64? default.workerInterval workerInterval
    sectorSize := ← optional Setting.toUInt64? default.sectorSize sectorSize }

/-- Refuses settings that make no sense. -/
def check (settings : Settings) : Outcome Unit :=
  if (Text.trim settings.ledgerBase).isEmpty then refuse (.config "ledger.base_url is required")
  else if settings.ledgerTimeout = 0 then
    refuse (.config "ledger.timeout_secs must be greater than zero")
  else if settings.maxBody = 0 then
    refuse (.config "server.max_upload_bytes must be greater than zero")
  else if settings.workerInterval = 0 then
    refuse (.config "reconciler.interval_secs must be greater than zero")
  else .ok ()

/-- A file or a variable that says nothing sensible. -/
def unreadable : Cause := .config Json.unexplained

/-- The settings of a file and an environment. -/
def load (formats : SettingsFile.Formats) (files : FileTree) (environment : List (String × String))
    (name : String) : Outcome Settings := do
  let settings? : Option Settings := do
    let fromFile ← SettingsFile.load? formats files name
    let root := (Setting.table []).collect fromFile
    ofTable? (root.collect (Environment.settings environment))
  match settings? with
  | none => refuse unreadable
  | some settings =>
    settings.check
    return settings

/-- A path below a directory. -/
def join (directory name : String) : String :=
  if directory.isEmpty ∨ directory.endsWith "/" then directory ++ name
  else directory ++ "/" ++ name

/-- The file of the table. -/
def tablePath (settings : Settings) : String := join settings.dataDirectory "pieces.db"

/-- The directory of the shelf. -/
def shelfPath (settings : Settings) : String := join settings.dataDirectory "blobs"

/-- Writes settings. -/
def toJson (settings : Settings) : Json :=
  .object
    [("server", .object
        [("bind_addr", .string settings.bindAddress),
          ("max_upload_bytes", .ofUInt64 settings.maxBody)]),
      ("storage", .object [("data_dir", .string settings.dataDirectory)]),
      ("ledger", .object
        [("base_url", .string settings.ledgerBase),
          ("timeout_secs", .ofUInt64 settings.ledgerTimeout)]),
      ("reconciler", .object
        [("enabled", .bool settings.workerEnabled),
          ("interval_secs", .ofUInt64 settings.workerInterval)]),
      ("proof", .object [("sector_size", .ofUInt64 settings.sectorSize)])]

end Settings

end PieceKeeper
