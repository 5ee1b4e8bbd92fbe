/-
  Storage/DataDirectory.lean --- `storage/src/database.cpp`, what `storage/src/dbms.cpp` does
  with files, and `DbmsQueryEngine::make_index_for_column`.

  A table file is kept as the values that `Table::load` reads from it, cut to the widths that
  `Table::save` gives their lengths.  An index file has a number besides its name: an object
  keeps it open when the name is gone.
-/
import CwDb.Foundation.Simulation
import CwDb.Index.BStarPlusIndex
import CwDb.Storage.BStarPlusAdapter
import CwDb.Storage.Dbms
import CwDb.Storage.TableFile

set_option autoImplicit false

namespace CwDb.Storage

open CwDb.Cpp
open CwDb.Foundation
open CwDb.Index

variable {ι : Type}

/-! ## Table files -/

/-- What is left of a name behind its length of 16 bits. -/
def storedName (name : ByteString) : ByteString := name.take (UInt16.ofNat name.length).toNat

/-- What is left of a string of the pool behind its length of 32 bits. -/
def storedString (s : ByteString) : ByteString := s.take (UInt32.ofNat s.length).toNat

/-- What is left of a column. -/
def storedColumn (c : ColumnDef ByteString) : ColumnDef ByteString :=
  { c.map storedString with name := storedName c.name }

/-- The fields of a file `<table>.dat` of fewer than 2^32 columns, with the strings of the pool
in place of their ids. -/
structure TableImage where
  name : ByteString
  columns : List (ColumnDef ByteString)
  rows : List (RowId × Row ByteString)

namespace TableImage

/-- `Table::save`. -/
def ofTable (t : Table ByteString ι) : Except Fault TableImage := do
  let rows ← t.order.mapM fun id => do
    let row ← t.rowAt id
    pure (id, row.map (Value.map storedString))
  pure { name := storedName t.name, columns := t.schema.columns.map storedColumn, rows }

/-- `Table::load`. -/
def load (image : TableImage) : Except Fault (Table ByteString ι) := do
  let schema ← TableSchema.ofColumns image.columns
  pure (tableOfRows image.name schema image.rows)

end TableImage

/-! ## The directories of the databases -/

/-- The directory of a database: the table files, and the numbers of the files in `_indexes`. -/
structure Directory where
  tableFiles : UnorderedMap ByteString TableImage := .empty
  indexFiles : UnorderedMap ByteString Nat := .empty

/-- The directories in the data directory. -/
abbrev Directories : Type := UnorderedMap ByteString Directory

namespace Directories

/-- `std::filesystem::create_directories(root_ / name)`. -/
def createDirectories (name : ByteString) : EStateM Fault Directories PUnit :=
  modify fun dirs => dirs.emplace name {}

/-- A change in one directory. -/
def modifyDirectory (name : ByteString) (f : Directory → Directory) (dirs : Directories) :
    Directories :=
  match dirs.find? name with
  | some dir => dirs.replace name (f dir)
  | none => dirs

/-- One round of the loop of `Database::save_to`. -/
def saveTable (name tableName : ByteString) (table : Table ByteString ι) :
    EStateM Fault Directories PUnit := do
  let image ← fromExcept (TableImage.ofTable table)
  modify (modifyDirectory name fun dir =>
    { dir with tableFiles := dir.tableFiles.assign tableName image })

/-- `Database::save_to(root_ / name)`. -/
def saveTo (name : ByteString) (db : Database ι) : EStateM Fault Directories PUnit := do
  createDirectories name
  modify (modifyDirectory name fun dir =>
    { dir with tableFiles := dir.tableFiles.filterKeys db.tables.contains })
  db.tables.entries.forM fun (tableName, table) => saveTable name tableName table

/-- `Database::load_from`. -/
def loadFrom (name : ByteString) (dir : Directory) : Except Fault (Database ι) := do
  let tables ← dir.tableFiles.mapValuesM fun _ image => image.load
  pure { name, tables }

/-- The databases that `Dbms::load_all` reads. -/
def loadAll : EStateM Fault Directories (UnorderedMap ByteString (Database ι)) := do
  let dirs ← get
  fromExcept (dirs.mapValuesM loadFrom)

/-- The number of an index file. -/
def indexFile? (dirs : Directories) (dbName fileName : ByteString) : Option Nat :=
  (dirs.find? dbName).bind fun dir => dir.indexFiles.find? fileName

/-- An index file gets a name. -/
def nameIndexFile (dbName fileName : ByteString) (file : Nat) : Directories → Directories :=
  modifyDirectory dbName fun dir => { dir with indexFiles := dir.indexFiles.assign fileName file }

end Directories

/-- The name of the index file of a column. -/
def indexFileName (tableName columnName : ByteString) : ByteString :=
  tableName ++ text "_" ++ columnName ++ text ".idx"

/-- The kind of the keys of an index on a column of the type. -/
def keyKindOf (type : DataType) : IndexKeyKind := if type = .int then .int64 else .string

/-! ## The data directory -/

/-- A `BStarPlusIndex`: the number of the file that it has open, `_page_count`, `_metadata`. -/
structure IndexObject where
  file : Nat
  pageCount : PageId
  metadata : BStarPlusIndexMetadata

/-- The data directory with all index files, and all index objects that were made. -/
structure DataDirectory where
  directories : Directories := .empty
  files : List IndexFile := []
  objects : List IndexObject := []

/-- What leads to `index_`, and `key_kind_`. -/
structure IndexPointer where
  number : Nat
  keyKind : IndexKeyKind
  deriving DecidableEq

/-- The pointers of the engine to its indexes. -/
abbrev IndexRef : Type := BStarPlusIndexAdapter IndexPointer

namespace DataDirectory

/-- An index object with what its file holds. -/
def object? (w : DataDirectory) (number : Nat) : Option BStarPlusIndex := do
  let object ← w.objects[number]?
  let file ← w.files[object.file]?
  pure ⟨⟨file, object.pageCount⟩, object.metadata⟩

/-- An index object and its file as an operation leaves them. -/
def setObject (number : Nat) (w : DataDirectory) (idx : BStarPlusIndex) : DataDirectory :=
  match w.objects[number]? with
  | none => w
  | some object =>
      { w with
        files := w.files.set object.file idx.disk.file
        objects := w.objects.set number ⟨object.file, idx.disk.pageCount, idx.metadata⟩ }

/-- A read from an index object; a pointer that leads nowhere has no meaning. -/
def readObject {α : Type} (p : IndexPointer) (f : BStarPlusIndex → Except Fault α)
    (w : DataDirectory) : Except Fault α :=
  match w.object? p.number with
  | some idx => f idx
  | none => .error .diverges

/-- A call on an index object. -/
def onObject {α : Type} (p : IndexPointer) (m : IndexM α) : EStateM Fault DataDirectory α := do
  let w ← get
  match w.object? p.number with
  | some idx => zoom (fun _ => idx) (setObject p.number) m
  | none => throw .diverges

/-- The index objects, as `BStarPlusIndexAdapter` calls them. -/
abbrev keyIndex : KeyIndex IndexPointer DataDirectory where
  find p key w := readObject p (fun idx => idx.find key) w
  rangeSearch p low high w := readObject p (fun idx => idx.rangeSearch low high) w
  insert p key record := onObject p (BStarPlusIndex.insert key record)
  erase p key := onObject p (BStarPlusIndex.erase key)

/-- The adapters over the index objects. -/
abbrev index : IIndex IndexRef DataDirectory :=
  letI := keyIndex
  inferInstance

/-- A call on the directories. -/
def onDirectories {α : Type} (m : EStateM Fault Directories α) : EStateM Fault DataDirectory α :=
  zoom DataDirectory.directories (fun w directories => { w with directories }) m

/-- The files with one of them written, which may be new. -/
def putFile (files : List IndexFile) (number : Nat) (file : IndexFile) : List IndexFile :=
  if number < files.length then files.set number file else files ++ [file]

/-- `BStarPlusIndex(path, keyKind)`: the number of the object. -/
def openIndex (dbName fileName : ByteString) (keyKind : IndexKeyKind) :
    EStateM Fault DataDirectory Nat := do
  let w ← get
  let found := w.directories.indexFile? dbName fileName
  let number := found.getD w.files.length
  let (loaded, idx) := answerOf (BStarPlusIndex.loadMetadata keyKind)
    (.onFile (found.bind fun number => w.files[number]?))
  set { w with
    directories := w.directories.nameIndexFile dbName fileName number
    files := putFile w.files number idx.disk.file }
  fromExcept loaded
  modify fun w => { w with objects := w.objects ++ [⟨number, idx.disk.pageCount, idx.metadata⟩] }
  pure w.objects.length

/-- `DbmsQueryEngine::make_index_for_column`. -/
def makeIndexForColumn (dbName tableName : ByteString) (column : ColumnDef ByteString) :
    EStateM Fault DataDirectory IndexRef := do
  onDirectories (Directories.createDirectories dbName)
  let number ← openIndex dbName (indexFileName tableName column.name) (keyKindOf column.type)
  pure ⟨⟨number, keyKindOf column.type⟩⟩

abbrev root : DataRoot IndexRef DataDirectory where
  createDirectories name := onDirectories (Directories.createDirectories name)
  removeAll name w := { w with directories := w.directories.erase name }
  saveTo name db := onDirectories (Directories.saveTo name db)
  loadAll := onDirectories Directories.loadAll
  makeIndexForColumn := makeIndexForColumn

/-- All index files can take another page. -/
def HasRoom (w : DataDirectory) : Prop := ∀ file ∈ w.files, file.size < 2 ^ 63

end DataDirectory
end CwDb.Storage
