import PieceKeeper.Proofs.Piece.Moves
import PieceKeeper.Proofs.Store.Shelf
import PieceKeeper.Proofs.Text.Split
import PieceKeeper.Store.Opening

/-!
# Opening a table again

Opening makes the directories that are missing and, in the last of them, the file, and what is
missing in the database of the file.  It takes nothing away, neither directories nor rows, so a table
that was opened can be opened again at the same path, and then everything is there already.
-/

namespace PieceKeeper

namespace FileTree

variable {tree opened later : FileTree} {location : Location} {node : FileNode}

/-! ## What is put -/

theorem at?_put_self (h : location ≠ []) : (tree.put location node).at? location = some node := by
  rw [at?, List.isEmpty_eq_false_iff.2 h]
  exact List.lookup_cons_self

theorem at?_put_of_ne {other : Location} (h : other ≠ location) :
    (tree.put location node).at? other = tree.at? other := by
  rw [at?, at?, put, lookup_cons_of_ne h, lookup_filter_of_ne h]

/-- The root is there, so what is missing has a name. -/
theorem ne_nil_of_at?_eq_none (h : tree.at? location = none) : location ≠ [] := by
  rintro rfl
  cases h

/-! ## Directories -/

/-- The directories of a tree are directories of another one. -/
def KeepsDirectories (tree later : FileTree) : Prop :=
  ∀ location, tree.at? location = some .directory → later.at? location = some .directory

theorem keepsDirectories_put (h : tree.at? location ≠ some .directory) (node : FileNode) :
    tree.KeepsDirectories (tree.put location node) := by
  intro other hother
  have hne : other ≠ location := by
    rintro rfl
    exact h hother
  rw [at?_put_of_ne hne, hother]

/-- Directories were made on the way along names: nothing else has changed, and where they are
still there, nothing is left to make. -/
structure Makes (tree : FileTree) (location : Location) (names : List String)
    (opened : FileTree) : Prop where
  start : opened.workingDirectory = tree.workingDirectory
  keeps : tree.KeepsDirectories opened
  again : ∀ later, opened.KeepsDirectories later → later.makeAll location names = .ok later

theorem makes_of_makeAll {names : List String} (h : tree.makeAll location names = .ok opened) :
    tree.Makes location names opened := by
  induction tree, location, names using makeAll.induct with
  | case1 tree location =>
    cases h
    exact ⟨rfl, fun _ hother ↦ hother, fun _ _ ↦ rfl⟩
  | case2 tree location rest ih =>
    rw [makeAll, if_pos rfl] at h
    obtain ⟨hstart, hkeeps, hagain⟩ := ih h
    refine ⟨hstart, hkeeps, fun later hlater ↦ ?_⟩
    rw [makeAll, if_pos rfl, hagain later hlater]
  | case3 tree location rest hdot ih =>
    rw [makeAll, if_neg hdot, if_pos rfl] at h
    obtain ⟨hstart, hkeeps, hagain⟩ := ih h
    refine ⟨hstart, hkeeps, fun later hlater ↦ ?_⟩
    rw [makeAll, if_neg hdot, if_pos rfl, hagain later hlater]
  | case4 tree location name rest hdot hup hlong =>
    rw [makeAll, if_neg hdot, if_neg hup, if_pos hlong] at h
    cases h
  | case5 tree location name rest hdot hup hlong next hat ih =>
    simp only [makeAll, if_neg hdot, if_neg hup, if_neg hlong, next, hat] at h
    obtain ⟨hstart, hkeeps, hagain⟩ := ih h
    refine ⟨hstart, hkeeps, fun later hlater ↦ ?_⟩
    have hthere : later.at? (location ++ [name]) = some .directory := hlater _ (hkeeps _ hat)
    simp only [makeAll, if_neg hdot, if_neg hup, if_neg hlong, hthere]
    exact hagain later hlater
  | case6 tree location name rest hdot hup hlong next content hat =>
    simp only [makeAll, if_neg hdot, if_neg hup, if_neg hlong, next, hat] at h
    cases h
  | case7 tree location name rest hdot hup hlong next hat ih =>
    simp only [makeAll, if_neg hdot, if_neg hup, if_neg hlong, next, hat] at h
    obtain ⟨hstart, hkeeps, hagain⟩ := ih h
    have hnew : tree.at? (location ++ [name]) ≠ some .directory := by
      rw [hat]
      nofun
    refine ⟨hstart, fun other hother ↦ hkeeps other (keepsDirectories_put hnew _ other hother),
      fun later hlater ↦ ?_⟩
    have hthere : later.at? (location ++ [name]) = some .directory :=
      hlater _ (hkeeps _ (at?_put_self (ne_nil_of_at?_eq_none hat)))
    simp only [makeAll, if_neg hdot, if_neg hup, if_neg hlong, hthere]
    exact hagain later hlater

end FileTree

namespace Table

open FileTree

variable {format : Database.Format} {files opened : FileTree} {path : String} {database : Database}

theorem ofFile_eq_ok {α : Type} {answer : Except FileFailure α} {value : α} :
    Outcome.ofFile answer = .ok value ↔ answer = .ok value := by
  cases answer with
  | ok found => rw [Outcome.ofFile, Except.ok.injEq, Except.ok.injEq]
  | error failure => exact ⟨nofun, nofun⟩

/-- A path leads to a file that holds a database in which nothing is missing, and to the file lead
directories. -/
structure IsOpen (format : Database.Format) (files : FileTree) (path : String) (database : Database) :
    Prop where
  parents : files.makeParents path = .ok files
  short : (files.literalLocation path).any (255 < ·.utf8ByteSize) = false
  file : ∃ content, files.at? (files.literalLocation path) = some (.file content) ∧
    format.read content = .ok database
  complete : database.initSchema = database

theorem IsOpen.databaseAt? (h : IsOpen format files path database) :
    databaseAt? format files path = some database := by
  obtain ⟨content, hat, hread⟩ := h.file
  rw [Table.databaseAt?, hat]
  simp only [hread]
  rfl

/-- What is open is found as it is when it is opened again. -/
theorem IsOpen.openAt (h : IsOpen format files path database) (hfile : isFileless path = false) :
    openAt format files path = .ok files := by
  obtain ⟨content, hat, hread⟩ := h.file
  rw [Table.openAt, ofFile_eq_ok.mpr h.parents]
  change (if isFileless path then _ else _) = _
  simp only [hfile, Bool.false_eq_true, if_false, h.short, hat, setUp, hread, h.complete, if_true]
  rfl

/-- Another content in its file leaves it open. -/
theorem IsOpen.put (h : IsOpen format files path database) {content : Bytes} {database' : Database}
    (hread : format.read content = .ok database') (hcomplete : database'.initSchema = database') :
    IsOpen format (files.put (files.literalLocation path) (.file content)) path database' := by
  obtain ⟨old, hat, -⟩ := h.file
  have hne : files.literalLocation path ≠ [] := by
    intro hnil
    rw [hnil] at hat
    cases hat
  have hnot : files.at? (files.literalLocation path) ≠ some .directory := by
    rw [hat]
    nofun
  refine ⟨?_, h.short, ⟨content, at?_put_self hne, hread⟩, hcomplete⟩
  exact (makes_of_makeAll h.parents).again _ (keepsDirectories_put hnot _)

/-- What is missing in a file is made, or nothing is missing. -/
theorem setUp_cases {location : Location} {content : Bytes} (hne : location ≠ [])
    (hat : files.at? location = some (.file content)) (h : setUp format files location content = .ok opened) :
    ∃ database, format.read content = .ok database ∧ opened.workingDirectory = files.workingDirectory ∧
      files.KeepsDirectories opened ∧
      ∃ made, opened.at? location = some (.file made) ∧ format.read made = .ok database.initSchema := by
  rw [setUp] at h
  split at h
  · cases h
  · rename_i database hread
    refine ⟨database, hread, ?_⟩
    cases h
    split
    · rename_i hcomplete
      exact ⟨rfl, fun _ hother ↦ hother, content, hat, hcomplete.symm ▸ hread⟩
    · have hnot : files.at? location ≠ some .directory := by
        rw [hat]
        nofun
      exact ⟨rfl, keepsDirectories_put hnot _, _, at?_put_self hne, format.read_make _ _ hread⟩

/-- What opening leaves: the database that the file had, or else an empty one, with nothing missing in
it. -/
theorem isOpen_of_openAt (hfile : isFileless path = false) (h : openAt format files path = .ok opened) :
    ∃ made content database, files.makeParents path = .ok made ∧
      (made.at? (made.literalLocation path) = some (.file content) ∨
        made.at? (made.literalLocation path) = none ∧ content = []) ∧
      format.read content = .ok database ∧ IsOpen format opened path database.initSchema := by
  obtain ⟨made, hmade, h⟩ := Except.bind_eq_ok.mp h
  have hmakes := makes_of_makeAll (ofFile_eq_ok.mp hmade)
  simp only [hfile, Bool.false_eq_true, if_false] at h
  split at h
  · cases h
  rename_i hlong
  have hopen {content : Bytes} {tree : FileTree} (htree : tree.workingDirectory = made.workingDirectory)
      (hkeeps : made.KeepsDirectories tree) (hne : made.literalLocation path ≠ [])
      (hat : tree.at? (made.literalLocation path) = some (.file content))
      (hset : setUp format tree (made.literalLocation path) content = .ok opened) :
      ∃ database, format.read content = .ok database ∧ IsOpen format opened path database.initSchema := by
    obtain ⟨database, hread, hstart, hkeeps', hfile'⟩ := setUp_cases hne hat hset
    have hlocation : opened.literalLocation path = made.literalLocation path := by
      rw [literalLocation, literalLocation, hstart, htree]
    refine ⟨database, hread, ?_, ?_, ?_, database.initSchema_initSchema⟩
    · rw [makeParents, hstart, htree, hmakes.start]
      exact hmakes.again opened fun _ hother ↦ hkeeps' _ (hkeeps _ hother)
    · rw [hlocation]
      exact Bool.eq_false_iff.mpr hlong
    · rw [hlocation]
      exact hfile'
  split at h
  · cases h
  · rename_i content hat
    have hne : made.literalLocation path ≠ [] := by
      intro hnil
      rw [hnil] at hat
      cases hat
    obtain ⟨database, hread, hdatabase⟩ := hopen rfl (fun _ hother ↦ hother) hne hat h
    exact ⟨made, content, database, ofFile_eq_ok.mp hmade, .inl hat, hread, hdatabase⟩
  · rename_i hat _
    have hnot : made.at? (made.literalLocation path) ≠ some .directory := by
      rw [hat]
      nofun
    have hne := ne_nil_of_at?_eq_none hat
    obtain ⟨database, hread, hdatabase⟩ := @hopen _ (made.put _ _) rfl (keepsDirectories_put hnot _) hne
      (at?_put_self hne) h
    exact ⟨made, [], database, ofFile_eq_ok.mp hmade, .inr ⟨hat, rfl⟩, hread, hdatabase⟩
  · cases h

/-- A table that was opened is found as it is when it is opened again. -/
theorem openAt_again (hfile : isFileless path = false) (h : openAt format files path = .ok opened) :
    openAt format opened path = .ok opened := by
  obtain ⟨-, -, database, -, -, -, hopen⟩ := isOpen_of_openAt hfile h
  exact hopen.openAt hfile

end Table

/-! ## A path of a single name -/

/-- A relative path of a single name that a file can have. -/
structure IsPlainName (name : String) : Prop where
  single : '/' ∉ name.toList
  relative : name.startsWith "/" = false
  file : name.endsWith "/" = false
  text : '\x00' ∉ name.toList
  short : name.utf8ByteSize ≤ 255
  named : name ≠ "" ∧ name ≠ "." ∧ name ≠ ".."

instance (name : String) : Decidable (IsPlainName name) :=
  decidable_of_iff ('/' ∉ name.toList ∧ name.startsWith "/" = false ∧ name.endsWith "/" = false ∧
      '\x00' ∉ name.toList ∧ name.utf8ByteSize ≤ 255 ∧ name ≠ "" ∧ name ≠ "." ∧ name ≠ "..")
    ⟨fun ⟨hsingle, hrelative, hfile, htext, hshort, hnamed⟩ ↦
        ⟨hsingle, hrelative, hfile, htext, hshort, hnamed⟩,
      fun ⟨hsingle, hrelative, hfile, htext, hshort, hnamed⟩ ↦
        ⟨hsingle, hrelative, hfile, htext, hshort, hnamed⟩⟩

namespace IsPlainName

variable {name : String} {tree : FileTree}

theorem parts (h : IsPlainName name) : name.splitOn "/" = [name] := by
  refine (Text.splitOn_singleton name '/').trans ?_
  rw [List.splitOn_eq_singleton h.single, List.map_singleton, String.ofList_toList]

theorem names_eq (h : IsPlainName name) (hroot : tree.workingDirectory = []) :
    tree.names name = .ok ([], [name]) := by
  have hnonempty : name.isEmpty = false := by
    rw [← Bool.not_eq_true, String.isEmpty_iff]
    exact h.named.1
  have hlong : ¬ name.utf8ByteSize ≥ 4096 := by
    have := h.short
    omega
  simp [FileTree.names, hnonempty, h.text, hlong, h.parts, h.file, h.relative, hroot, h.named.1]

theorem find_eq (h : IsPlainName name) (hroot : tree.workingDirectory = []) {node : Option FileNode}
    (hat : tree.at? [name] = node) : tree.find name = node.elim (.error .missing) .ok := by
  have hlong : ¬ name.utf8ByteSize > 255 := Nat.not_lt.mpr h.short
  have hlocate : tree.locate name = .ok [name] := by
    have hstart : tree.at? [] = some .directory := rfl
    rw [FileTree.locate, h.names_eq hroot]
    change tree.follow [] [name] = _
    simp [FileTree.follow, hstart, h.named, hlong]
  cases node <;> simp [FileTree.find, hlocate, hat, bind, Except.bind]

theorem literalLocation_eq (h : IsPlainName name) (hroot : tree.workingDirectory = []) :
    tree.literalLocation name = [name] := by
  simp [FileTree.literalLocation, h.parts, h.relative, hroot, h.named]

/-- In an empty place the file of the table is made. -/
theorem openAt_table (h : IsPlainName name) (hfile : Table.isFileless name = false)
    (hroot : tree.workingDirectory = []) (hat : tree.at? [name] = none) (format : Database.Format) :
    Table.openAt format tree name =
      .ok ((tree.put [name] (.file [])).put [name] (.file (format.make []))) := by
  have hcounted : FileTree.countedNames name = [name] := by
    simp [FileTree.countedNames, h.parts, h.named]
  have hparents : tree.makeParents name = .ok tree := by
    rw [FileTree.makeParents, hcounted]
    rfl
  have hlocation := h.literalLocation_eq hroot
  have hlong : ([name].any fun part ↦ decide (255 < part.utf8ByteSize)) = false := by
    simpa using h.short
  have hmissing : ¬ Database.initSchema {} = {} := by decide
  rw [Table.openAt, hparents]
  change (if Table.isFileless name then _ else _) = _
  simp only [hfile, Bool.false_eq_true, if_false, hlocation, hlong, hat, Table.setUp, format.read_nil,
    hmissing]
  rfl

/-- In an empty place the directory of the shelf is made. -/
theorem openAt_shelf (h : IsPlainName name) (hroot : tree.workingDirectory = [])
    (hat : tree.at? [name] = none) : Shelf.openAt tree name = .ok (tree.put [name] .directory) := by
  have hnonempty : ¬ name.isEmpty := by
    rw [String.isEmpty_iff]
    exact h.named.1
  have hlong : ¬ name.utf8ByteSize > 255 := Nat.not_lt.mpr h.short
  rw [Shelf.openAt, FileTree.makeDirectories, if_neg hnonempty, h.names_eq hroot]
  change Outcome.ofFile (tree.makeAll [] [name]) = _
  rw [FileTree.makeAll, if_neg h.named.2.1, if_neg h.named.2.2, if_neg hlong]
  dsimp only [List.nil_append]
  rw [hat]
  rfl

end IsPlainName

end PieceKeeper
