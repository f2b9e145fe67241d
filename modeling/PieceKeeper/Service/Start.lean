import PieceKeeper.Ledger.Endpoint
import PieceKeeper.Service.Basic
import PieceKeeper.Settings.Basic
import PieceKeeper.Store.Opening
import PieceKeeper.Worker

/-!
# Starting the service

The parts of the service are made in order: the table, the shelf, the ledger, the manager, the
worker, and at last the place where it listens.  What has been made of files stays when a later
part cannot be made.
-/

namespace PieceKeeper

/-- What is not the program's own but the machine's. -/
structure Platform where
  /-- The formats of files of settings. -/
  formats : SettingsFile.Formats
  /-- How files hold databases. -/
  databases : Database.Format
  /-- Takes an address to listen at, or tells why not. -/
  listen : String → Except String Unit

/-- A machine that has settings in braces and only databases without rows, and lets a service listen
anywhere. -/
def Platform.plain : Platform where
  formats := .braces
  databases := .rowless
  listen _ := .ok ()

/-- A service that has started. -/
structure Running where
  service : Service
  ledger : Endpoint
  /-- What looks after pending pieces, if that is wanted. -/
  worker : Option Worker

/-- An attempt to make something, which may change files. -/
abbrev Making (α : Type) := ExceptT Fault (StateM FileTree) α

namespace Making

/-- Changes the files unless that fails. -/
def change (f : FileTree → Outcome FileTree) : Making Unit := do
  match f (← get) with
  | .ok files => set files
  | .error fault => throw fault

/-- Takes over an outcome. -/
def ofOutcome {α : Type} (outcome : Outcome α) : Making α := ExceptT.mk (pure outcome)

end Making

namespace Service

/-- Takes the address where the service is to listen. -/
def bind (platform : Platform) (address : String) : Outcome Unit :=
  match platform.listen address with
  | .ok () => .ok ()
  | .error detail => refuse (.io detail)

/-- Starts the service when the clock tells `now` milliseconds. -/
def start (platform : Platform) (settings : Settings) (now : Nat) : Making Running := do
  Making.change fun files ↦ Table.openAt platform.databases files settings.tablePath
  Making.change fun files ↦ Shelf.openAt files settings.shelfPath
  let ledger ← Making.ofOutcome (Endpoint.create settings.ledgerBase)
  let manager ← Making.ofOutcome (Manager.create settings.sectorSize 0)
  let worker :=
    if settings.workerEnabled then some (Worker.start (1000 * settings.workerInterval.toNat) now)
    else none
  Making.ofOutcome (bind platform settings.bindAddress)
  return { service := ⟨manager, settings.maxBody.toNat⟩, ledger, worker }

end Service

end PieceKeeper
