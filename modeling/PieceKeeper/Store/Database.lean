import PieceKeeper.Store.Row

/-!
# The database of a file

The piece table lives in a database, and the database in a file.  How the bytes of a file say what a
database has is the database's own affair.  The program makes what is missing of its tables and
indices, and leaves alone what is there.
-/

namespace PieceKeeper

/-- What a database has. -/
structure Database where
  /-- The rows of the piece table, if there is one. -/
  pieces : Option (List Row) := none
  /-- The names of the indices. -/
  indices : List String := []
  deriving DecidableEq, Repr

namespace Database

/-- Makes the piece table if there is none. -/
def createTable (database : Database) : Database :=
  { database with pieces := some (database.pieces.getD []) }

/-- Makes an index if none has its name. -/
def createIndex (name : String) (database : Database) : Database :=
  if database.indices.contains name then database
  else { database with indices := name :: database.indices }

/-- Makes what is missing: the piece table, and its indices of the status and of the transaction. -/
def initSchema (database : Database) : Database :=
  (database.createTable.createIndex "idx_pieces_status").createIndex "idx_pieces_transaction_ref"

@[simp] theorem pieces_initSchema (database : Database) :
    database.initSchema.pieces = some (database.pieces.getD []) := by
  simp only [initSchema, createIndex]
  split <;> split <;> rfl

/-- What is there is not made again. -/
theorem initSchema_initSchema (database : Database) : database.initSchema.initSchema = database.initSchema := by
  obtain ⟨pieces, indices⟩ := database
  simp only [initSchema, createTable, createIndex]
  grind

/-- How files hold databases. -/
structure Format where
  /-- The database that a file holds, or what it is refused with. -/
  read : Bytes → Except String Database
  /-- What becomes of a file when what is missing is made. -/
  make : Bytes → Bytes
  /-- A new file holds nothing. -/
  read_nil : read [] = .ok {}
  /-- What is made is there. -/
  read_make : ∀ content database, read content = .ok database →
    read (make content) = .ok database.initSchema

/-! ## Databases without rows -/

/-- The mark at the head of files of databases: "SQLite format 3" and a zero. -/
def mark : Bytes :=
  [0x53, 0x51, 0x4c, 0x69, 0x74, 0x65, 0x20, 0x66, 0x6f, 0x72, 0x6d, 0x61, 0x74, 0x20, 0x33, 0x00]

/-- Reads a file that is empty or has nothing but the mark. -/
def readMark (content : Bytes) : Except String Database :=
  if content = [] then .ok {}
  else if content = mark then .ok (initSchema {})
  else .error "file is not a database"

theorem readMark_mark : readMark mark = .ok (initSchema {}) := rfl

/-- Files of databases in which no row was written. -/
def Format.rowless : Format where
  read := readMark
  make _ := mark
  read_nil := rfl
  read_make content database h := by
    rw [readMark_mark]
    rw [readMark] at h
    split at h
    · cases h
      rfl
    · split at h
      · cases h
        rw [initSchema_initSchema]
      · cases h

end Database

end PieceKeeper
