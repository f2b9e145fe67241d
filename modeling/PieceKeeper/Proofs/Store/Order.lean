import Mathlib.Data.List.Nodup
import PieceKeeper.Proofs.Store.Answers
import PieceKeeper.Proofs.Store.Opening

/-!
# Open tables keep their keys and their order

A table is opened in a file without rows, asked for anything with times that can be written, and
opened again, in any order; its storage may fail meanwhile.  Its rows are always those of a book in
which no two pieces have one id or one content.  A row is only ever added at the end, and keeps
its id, its time of creation and its place.  Whoever opens the table again finds these rows in its file.
-/

namespace PieceKeeper

/-! ## Order -/

/-- The contents of a book are different. -/
theorem Book.Sound.nodup_contents {book : Book} (hs : book.Sound) :
    (book.filterMap (·.contentId)).Nodup := by
  have hids : book.Pairwise fun piece other ↦ piece.id ≠ other.id := List.pairwise_map.mp hs.ids
  refine List.pairwise_filterMap.mpr (hids.imp_of_mem fun hpiece hother hne ↦ ?_)
  rintro contentId hcontent _ hcontent' rfl
  exact hne (hs.contents _ hpiece _ hother contentId hcontent hcontent')

/-- What is written once and names a row and its place: the ids and times of creation, in order. -/
def Book.keys (book : Book) : List (String × Instant) := book.map fun piece ↦ (piece.id, piece.createdAt)

namespace Table

variable {table : Table}

/-- The cells that name the rows and their places. -/
def keys (rows : List Row) : List (Cell × Cell) := rows.map fun row ↦ (row.id, row.createdAt)

/-- A change of some rows that keeps what names them keeps the keys. -/
theorem keys_map_ite (test : Row → Prop) [DecidablePred test] (change : Row → Row)
    (hid : ∀ row, (change row).id = row.id)
    (hcreated : ∀ row, (change row).createdAt = row.createdAt) (rows : List Row) :
    keys (rows.map fun row ↦ if test row then change row else row) = keys rows := by
  rw [keys, List.map_map]
  refine List.map_congr_left fun row _ ↦ ?_
  rw [Function.comp_apply]
  split
  · rw [hid, hcreated]
  · rfl

/-- A command adds a key at the end, or it leaves the keys as they are. -/
theorem Effect.keys_extend {rows rows' : List Row} {command : Command}
    {answer : Outcome command.Answer} (h : Effect rows command answer rows') :
    keys rows <+: keys rows' := by
  cases h with
  | none _ => exact List.prefix_refl _
  | insert _ =>
    rw [keys, keys, List.map_append]
    exact List.prefix_append _ _
  | @update piece expected _ =>
    rw [keys_map_ite (·.Is piece.id expected) (·.takeOver (.ofPiece piece)) (fun _ ↦ rfl)
      fun _ ↦ rfl]
  | @claim id rootCid proofSet now _ =>
    rw [keys_map_ite (·.IsFree id) (·.claimed proofSet rootCid now) (fun _ ↦ rfl) fun _ ↦ rfl]

theorem keys_map_ofPiece (book : Book) : keys (book.map Row.ofPiece) =
    book.keys.map fun key ↦ (Cell.text key.1, Cell.ofInstant key.2) := by
  rw [keys, Book.keys, List.map_map, List.map_map]
  rfl

/-- The keys of rows tell those of their pieces. -/
theorem keys_extend_of_rows {book book' : Book}
    (h : keys (book.map Row.ofPiece) <+: keys (book'.map Row.ofPiece)) :
    book.keys <+: book'.keys := by
  have hinjective : Function.Injective fun key : String × Instant ↦
      (Cell.text key.1, Cell.ofInstant key.2) := by
    intro key other heq
    obtain ⟨hid, hcreated⟩ := Prod.mk.inj heq
    exact Prod.ext (Cell.text.inj hid) (Cell.ofInstant_injective hcreated)
  rw [keys_map_ofPiece, keys_map_ofPiece, List.prefix_map_iff] at h
  obtain ⟨front, hfront, hmap⟩ := h
  rwa [List.map_injective_iff.mpr hinjective hmap]

/-- An answer that says that something was written. -/
def Command.Confirms : (command : Command) → Outcome command.Answer → Prop
  | .insert _, answer => answer = .ok ()
  | .update _ _, answer | .claim _ _ _ _, answer => answer = .ok true
  | _, _ => False

/-- A command that is refused, or finds nothing to write, leaves the table as it was. -/
theorem Lawful.run_of_not_confirms (h : table.Lawful) {command : Command}
    (hanswer : ¬ command.Confirms (table.run command).1) : (table.run command).2 = table := by
  cases hreach : table.outage with
  | some detail =>
    rw [Table.run, reach, hreach]
    rfl
  | none =>
    rw [run_of_reached hreach] at hanswer ⊢
    cases command with
    | find _ | findContent _ | withStatus _ | first _ => rfl
    | insert piece =>
      rcases table.insert_cases piece with ⟨-, hsame⟩ | ⟨-, -, heq⟩
      · exact hsame
      · exact absurd (congrArg Prod.fst heq) hanswer
    | update piece expected =>
      rcases h.update_cases piece expected with ⟨-, hsame⟩ | ⟨i, old, -, -, -, heq⟩
      · exact hsame
      · exact absurd (congrArg Prod.fst heq) hanswer
    | claim id proofSet rootCid now =>
      rcases h.claim_cases id proofSet rootCid now with ⟨-, hsame⟩ | ⟨i, old, -, -, heq⟩
      · exact hsame
      · exact absurd (congrArg Prod.fst heq) hanswer

end Table

theorem Table.IsCalm.eq_table {table : Table} {book : Book} (h : table.IsCalm)
    (hrows : table.rows = book.map Row.ofPiece) : table = book.table := by
  obtain ⟨rows, disturbance, outage⟩ := table
  obtain ⟨houtage, hdisturbance⟩ := h
  dsimp only at hrows houtage hdisturbance
  rw [hrows, houtage, hdisturbance, Book.table]

/-! ## Open tables -/

/-- A table and the files of the machine, one of which it lives in. -/
structure OpenTable where
  files : FileTree
  table : Table

namespace OpenTable

/-- What can happen to a table in the file that a path leads to: it is asked for something, with
times that can be written, and its file holds its rows then; it is opened again, and has the rows that
its file holds; or its storage begins or ceases to fail. -/
inductive Step (format : Database.Format) (path : String) : OpenTable → OpenTable → Prop
  | run {store : OpenTable} {database : Database} (command : Table.Command) (content : Bytes) :
    command.IsDated → Table.databaseAt? format store.files path = some database →
    format.read content = .ok { database with pieces := some (store.table.run command).2.rows } →
    Step format path store ⟨store.files.put (store.files.literalLocation path) (.file content),
      (store.table.run command).2⟩
  | reopen {store : OpenTable} {files : FileTree} {database : Database} {rows : List Row} :
    Table.openAt format store.files path = .ok files → Table.databaseAt? format files path = some database →
    database.pieces = some rows → Step format path store ⟨files, { store.table with rows }⟩
  | weather {store : OpenTable} (disturbance : Option Disturbance) (outage : Option String) :
    Step format path store { store with table := { store.table with disturbance, outage } }

/-- What can happen to a table in the course of time. -/
abbrev Steps (format : Database.Format) (path : String) : OpenTable → OpenTable → Prop :=
  Relation.ReflTransGen (Step format path)

/-- A table was opened in a file without rows, and has been in use since.  The paths that stand for a
table without a file keep nothing from one call to the next, and are left out. -/
def InUse (format : Database.Format) (path : String) (store : OpenTable) : Prop :=
  ∃ files opened database, Table.isFileless path = false ∧ Table.openAt format files path = .ok opened ∧
    Table.databaseAt? format opened path = some database ∧ database.pieces = some [] ∧
    Steps format path ⟨opened, {}⟩ store

variable {format : Database.Format} {path : String} {store later : OpenTable}

theorem InUse.trans (h : store.InUse format path) (hsteps : Steps format path store later) :
    later.InUse format path := by
  obtain ⟨files, opened, database, hfile, hopened, hdatabase, hrows, hbefore⟩ := h
  exact ⟨files, opened, database, hfile, hopened, hdatabase, hrows, hbefore.trans hsteps⟩

/-- The file of a table holds the rows that the table has. -/
def Holds (format : Database.Format) (path : String) (store : OpenTable) : Prop :=
  ∃ database, Table.IsOpen format store.files path database ∧ database.pieces = some store.table.rows

theorem Holds.stored (h : store.Holds format path) :
    (Table.databaseAt? format store.files path).bind (·.pieces) = some store.table.rows := by
  obtain ⟨database, hopen, hrows⟩ := h
  rw [hopen.databaseAt?]
  exact hrows

/-- Opening a table that is there leaves the files as they are. -/
theorem Holds.openAt (h : store.Holds format path) (hfile : Table.isFileless path = false) :
    Table.openAt format store.files path = .ok store.files := by
  obtain ⟨database, hopen, -⟩ := h
  exact hopen.openAt hfile

/-- Opening a table that is there finds it as it is. -/
theorem Holds.reopen (h : store.Holds format path) (hfile : Table.isFileless path = false)
    {files : FileTree} {database : Database} {rows : List Row}
    (hopen : Table.openAt format store.files path = .ok files)
    (hdatabase : Table.databaseAt? format files path = some database) (hrows : database.pieces = some rows) :
    (⟨files, { store.table with rows }⟩ : OpenTable) = store := by
  obtain rfl := Except.ok.inj ((h.openAt hfile).symm.trans hopen)
  obtain ⟨held, hheld, hsame⟩ := h
  obtain rfl := Option.some.inj (hheld.databaseAt?.symm.trans hdatabase)
  obtain rfl := Option.some.inj (hsame.symm.trans hrows)
  rfl

/-- Other rows than there are can be written into a database in which nothing is missing. -/
theorem initSchema_rows {database : Database} (h : database.initSchema = database) (rows : List Row) :
    Database.initSchema { database with pieces := some rows } = { database with pieces := some rows } := by
  obtain ⟨pieces, indices⟩ := database
  simp only [Database.initSchema, Database.createTable, Database.createIndex] at h ⊢
  grind

theorem Step.holds (h : Step format path store later) (hfile : Table.isFileless path = false)
    (hholds : store.Holds format path) : later.Holds format path := by
  cases h with
  | @run database command content _ hdatabase hread =>
    obtain ⟨held, hheld, -⟩ := hholds
    obtain rfl := Option.some.inj (hheld.databaseAt?.symm.trans hdatabase)
    exact ⟨_, hheld.put hread (initSchema_rows hheld.complete _), rfl⟩
  | reopen hopen hdatabase hrows =>
    rw [hholds.reopen hfile hopen hdatabase hrows]
    exact hholds
  | weather _ _ => exact hholds

theorem Step.written (h : Step format path store later) (hfile : Table.isFileless path = false)
    (hholds : store.Holds format path) (hwritten : store.table.Written) : later.table.Written := by
  cases h with
  | run _ _ hdated _ _ => exact .run hwritten hdated
  | reopen hopen hdatabase hrows =>
    rw [hholds.reopen hfile hopen hdatabase hrows]
    exact hwritten
  | weather disturbance outage => exact .weather disturbance outage hwritten

theorem Step.keys_extend (h : Step format path store later) (hfile : Table.isFileless path = false)
    (hholds : store.Holds format path) : Table.keys store.table.rows <+: Table.keys later.table.rows := by
  cases h with
  | run command _ _ _ _ => exact (Table.run_effect command).keys_extend
  | reopen hopen hdatabase hrows =>
    rw [hholds.reopen hfile hopen hdatabase hrows]
  | weather _ _ => exact List.prefix_refl _

theorem Steps.holds (h : Steps format path store later) (hfile : Table.isFileless path = false)
    (hholds : store.Holds format path) : later.Holds format path := by
  induction h with
  | refl => exact hholds
  | tail _ hstep ih => exact hstep.holds hfile ih

theorem InUse.holds (h : store.InUse format path) :
    Table.isFileless path = false ∧ store.Holds format path := by
  obtain ⟨files, opened, database, hfile, hopened, hdatabase, hrows, hsteps⟩ := h
  obtain ⟨-, -, found, -, -, -, hopen⟩ := Table.isOpen_of_openAt hfile hopened
  obtain rfl := Option.some.inj (hopen.databaseAt?.symm.trans hdatabase)
  exact ⟨hfile, hsteps.holds hfile ⟨_, hopen, hrows⟩⟩

theorem InUse.written (h : store.InUse format path) : store.table.Written := by
  obtain ⟨files, opened, database, hfile, hopened, hdatabase, hrows, hsteps⟩ := h
  induction hsteps with
  | refl => exact .fresh
  | tail hbefore hstep ih =>
    exact hstep.written hfile
      (InUse.holds ⟨files, opened, database, hfile, hopened, hdatabase, hrows, hbefore⟩).2 ih

theorem Steps.keys_extend (h : Steps format path store later) (hfile : Table.isFileless path = false)
    (hholds : store.Holds format path) : Table.keys store.table.rows <+: Table.keys later.table.rows := by
  induction h with
  | refl => exact List.prefix_refl _
  | tail hbefore hstep ih => exact ih.trans (hstep.keys_extend hfile (Steps.holds hbefore hfile hholds))

/-- What is known of an open table, by the pieces it has. -/
structure Keeps (format : Database.Format) (path : String) (store : OpenTable) (book : Book) : Prop where
  reopened : Table.openAt format store.files path = .ok store.files
  stored : (Table.databaseAt? format store.files path).bind (·.pieces) = some store.table.rows
  rows : store.table.rows = book.map Row.ofPiece
  ids : (book.map (·.id)).Nodup
  contents : (book.filterMap (·.contentId)).Nodup
  ordered : ∀ later, Steps format path store later →
    ∃ book' : Book, later.table.rows = book'.map Row.ofPiece ∧ book.keys <+: book'.keys
  unwritten : ∀ command : Table.Command, ¬ command.Confirms (store.table.run command).1 →
    (store.table.run command).2 = store.table
  calm : store.table.IsCalm → store.table = book.table ∧ book.Answers

/-- **An open table keeps its keys and its order.**  A table is opened in a file without rows, and then
asked for anything, with times of years of four digits, and opened again, in any order.  It has
the rows of pieces with different ids and different contents, which its file holds, and opening it
once more changes nothing.  Whatever happens later, these rows stay where they are, with their ids and their times
of creation, and others only follow them.  A command that is refused or finds nothing to write
leaves the table as it was.

Where no storage fails, an insertion is refused with a conflict exactly if its id or its content
is held, and otherwise the piece becomes the last one.  An update is answered with `false`
exactly if no piece with its id is in the expected status.  If there is one, the update is refused
with a conflict exactly if another piece holds the content, and otherwise it is answered with
`true` and that piece alone is written over, all but its time of creation; so it is with a claim of
an uploaded piece that nobody has.  The pieces in a status are listed in order, and a limit lists
that many first ones, or all if there are not so many or the limit is negative as a signed number.
Rows are numbered with positive signed numbers of 64 bits, so there are never more than `2 ^ 63`, and
then any limit lists as many first ones as the lesser of itself and their number. -/
theorem keys_and_order_kept (h : store.InUse format path) : ∃ book, store.Keeps format path book := by
  obtain ⟨book, hbook⟩ := h.written.exists_lists
  obtain ⟨hfile, hholds⟩ := h.holds
  refine ⟨book, hholds.openAt hfile, hholds.stored, hbook.rows, hbook.sound.ids, hbook.sound.nodup_contents,
    ?ordered, fun command ↦ h.written.lawful.run_of_not_confirms, ?calm⟩
  case ordered =>
    intro later hsteps
    obtain ⟨book', hbook'⟩ := (h.trans hsteps).written.exists_lists
    refine ⟨book', hbook'.rows, Table.keys_extend_of_rows ?_⟩
    rw [← hbook.rows, ← hbook'.rows]
    exact hsteps.keys_extend hfile hholds
  case calm =>
    exact fun hcalm ↦ ⟨hcalm.eq_table hbook.rows, hbook.sound.answers⟩

/-- Files that hold the first rows of a book: as many as they have bytes besides the first one. -/
def firstRows (book : Book) : Database.Format where
  read content := .ok (if content = [] then {} else
    { Database.initSchema {} with pieces := some ((book.take (content.length - 1)).map Row.ofPiece) })
  make content := if content = [] then [0] else content
  read_nil := rfl
  read_make content database h := by
    split
    · rename_i hnil
      subst hnil
      cases h
      rfl
    · rename_i hcons
      cases h
      rw [if_neg hcons]
      rfl

/-- Two pieces are inserted, the table is opened again, and the second piece is to get the content
of the first.  The largest limit lists both. -/
theorem keys_and_order_kept_of_two :
    let first : Piece := { Piece.prepare "a" none none .epoch with contentId := some "c" }
    let second : Piece := .prepare "b" none none .epoch
    let format := firstRows [first, second]
    let store : OpenTable := ⟨({} : FileTree).put ["p"] (.file [0, 0, 0]), Book.table [first, second]⟩
    store.InUse format "p" ∧ Table.openAt format store.files "p" = .ok store.files ∧
      Outcome.IsConflict
        (store.table.run (.update { second with contentId := some "c" } second.status)).1 ∧
      (store.table.run (.update second .failed)).1 = .ok false ∧
      store.table.run (.first 18446744073709551615) = (.ok [first, second], store.table) := by
  intro first second format store
  have hepoch : Instant.epoch.IsDated := ⟨by decide, by decide⟩
  have hfirst : first.IsDated := ⟨hepoch, hepoch, fun _ h ↦ nomatch h⟩
  have hsecond : second.IsDated := ⟨hepoch, hepoch, fun _ h ↦ nomatch h⟩
  have hplain : IsPlainName "p" := by decide +kernel
  let files (content : Bytes) : FileTree := ({} : FileTree).put ["p"] (.file content)
  have hopen : Table.openAt format {} "p" = .ok (files [0]) := hplain.openAt_table rfl rfl rfl format
  have hheld (content : Bytes) :
      Table.databaseAt? format (files content) "p" = (format.read content).toOption := by
    rw [Table.databaseAt?, hplain.literalLocation_eq rfl]
    rfl
  have hput (content later : Bytes) :
      (files content).put ((files content).literalLocation "p") (.file later) = files later := by
    rw [hplain.literalLocation_eq rfl]
    rfl
  have hone : Step format "p" ⟨files [0], {}⟩ ⟨files [0, 0], Book.table [first]⟩ :=
    hput [0] [0, 0] ▸ .run (.insert first) [0, 0] hfirst (hheld [0]) rfl
  have htwo : Step format "p" ⟨files [0, 0], Book.table [first]⟩
      ⟨files [0, 0, 0], Book.table [first, second]⟩ :=
    hput [0, 0] [0, 0, 0] ▸ .run (.insert second) [0, 0, 0] hsecond (hheld [0, 0]) rfl
  have hbefore : store.InUse format "p" :=
    ⟨{}, _, _, rfl, hopen, hheld [0], rfl, .tail (.single hone) htwo⟩
  have hagain : Step format "p" store store :=
    .reopen (hbefore.holds.2.openAt rfl) (hheld [0, 0, 0]) rfl
  have hinUse : store.InUse format "p" := hbefore.trans (.single hagain)
  obtain ⟨book, hkeeps⟩ := keys_and_order_kept hinUse
  obtain rfl : book = [first, second] :=
    List.map_injective_iff.mpr Row.ofPiece_injective hkeeps.rows.symm
  have hanswers := (hkeeps.calm ⟨rfl, rfl⟩).2
  refine ⟨hinUse, hkeeps.reopened, (hanswers.update_conflict _ _).mpr ⟨?_, ?_⟩,
    (hanswers.update_false _ _).mpr ?_, hanswers.first_min _ (by decide)⟩
  · exact ⟨second, by simp, rfl, rfl⟩
  · exact ⟨first, by simp, by decide, by decide, rfl⟩
  · rintro ⟨held, hheld, -, hstatus⟩
    rcases List.mem_pair.mp hheld with rfl | rfl
    · cases hstatus
    · cases hstatus

end OpenTable

end PieceKeeper
