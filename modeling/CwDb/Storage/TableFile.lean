/-
  Storage/TableFile.lean --- `Table::save` and `Table::load`.

  A table in memory holds string ids; the file holds a copy of the whole pool, and `load`
  gives every string an id of the pool it finds.  `load` reads the bytes and changes that pool.
-/
import CwDb.Foundation.ByteReader
import CwDb.Storage.StringPool
import CwDb.Storage.Table

set_option autoImplicit false

namespace CwDb.Storage

open CwDb.Cpp
open CwDb.Foundation

variable {ι : Type}

/-! ## Saving -/

/-- `kMagic`. -/
def kMagic : UInt32 := 0x42445442

/-- `kVersionV3`. -/
def kVersionV3 : UInt32 := 3

/-- A name behind its length of 16 bits. -/
def saveName (name : ByteString) : ByteString :=
  let len := UInt16.ofNat name.length
  Scalar.encode len ++ name.take len.toNat

/-- A tag and the value behind it. -/
def saveValue : Value StringId → ByteString
  | .null => Scalar.encode (0 : UInt8)
  | .int n => Scalar.encode (1 : UInt8) ++ Scalar.encode n
  | .str id => Scalar.encode (2 : UInt8) ++ Scalar.encode id

/-- `has_def` and the default. -/
def saveDefault : Option (Value StringId) → ByteString
  | none => Scalar.encode (0 : UInt8)
  | some v => Scalar.encode (1 : UInt8) ++ saveValue v

/-- `(col.type == DataType::Int) ? 1 : 2`. -/
def typeByte : DataType → UInt8
  | .int => 1
  | .str => 2

/-- `(col.not_null ? 1u : 0u) | (col.indexed ? 2u : 0u)`. -/
def flagsByte (notNull indexed : Bool) : UInt8 :=
  (if notNull then 1 else 0) ||| (if indexed then 2 else 0)

/-- One column of `Table::save`. -/
def saveColumn (col : ColumnDef StringId) : ByteString :=
  saveName col.name ++ Scalar.encode (typeByte col.type) ++
    Scalar.encode (flagsByte col.notNull col.indexed) ++ saveDefault col.defaultValue

/-- One row of `Table::save`. -/
def saveRow (entry : RowId × Row StringId) : ByteString :=
  Scalar.encode entry.1 ++ entry.2.flatMap saveValue

/-- The rows of `order_`, each looked up with `at`. -/
def orderedRows (t : Table StringId ι) : Except Fault (List (RowId × Row StringId)) :=
  t.order.mapM fun id =>
    match t.rows.find? id with
    | some row => .ok (id, row)
    | none => raise .outOfRange (text "unordered_map::at")

/-- `Table::save`: the bytes of the file. -/
def save (t : Table StringId ι) (pool : StringPool) : Except Fault ByteString := do
  let strings ← pool.serialize
  let rows ← orderedRows t
  pure (Scalar.encode kMagic ++ Scalar.encode kVersionV3 ++ saveName t.name ++ strings ++
    Scalar.encode (UInt32.ofNat t.schema.columnCount) ++ t.schema.columns.flatMap saveColumn ++
    Scalar.encode (UInt64.ofNat t.order.length) ++ rows.flatMap saveRow)

/-! ## Loading -/

/-- A step of `Table::load`. -/
abbrev LoadM (α : Type) : Type := ByteReader Fault StringPool α

/-- `read_bin`. -/
def readBin (α : Type) [Scalar α] : LoadM α :=
  ByteReader.scalar (.throws .runtimeError (text "Table::load: truncated or corrupt file"))

/-- A name behind its length of 16 bits. -/
def loadName : LoadM ByteString := do
  let len ← readBin UInt16
  ByteReader.buffer len.toNat

/-- One string of the pool: its id in the pool of this process. -/
def loadString : LoadM StringId := do
  let len ← readBin UInt32
  let s ← ByteReader.buffer len.toNat
  ByteReader.state (StringPool.intern s)

/-- `id_map`. The counter of its loop is 32 bits wide; it never passes the largest bound, and
the loop reads on until the file ends. -/
def loadStrings : LoadM (List StringId) := do
  let count ← readBin UInt32
  let ids ← ByteReader.times count.toNat loadString
  if count = 0xFFFFFFFF then
    throw (.throws .runtimeError (text "Table::load: truncated or corrupt file"))
  else pure (0 :: ids)

/-- The value behind a tag. -/
def loadValue (idMap : List StringId) : LoadM (Value StringId) := do
  let tag ← readBin UInt8
  if tag = 0 then pure .null
  else if tag = 1 then
    let n ← readBin Int64
    pure (.int n)
  else
    let id ← readBin UInt32
    let id ← fromExcept (vectorAt idMap id.toNat)
    pure (.str id)

/-- `has_def` and the default. -/
def loadDefault (idMap : List StringId) : LoadM (Option (Value StringId)) := do
  let hasDef ← readBin UInt8
  if hasDef = 0 then pure none
  else
    let v ← loadValue idMap
    pure (some v)

/-- One column of `Table::load`. -/
def loadColumn (idMap : List StringId) : LoadM (ColumnDef StringId) := do
  let name ← loadName
  let type ← readBin UInt8
  let flags ← readBin UInt8
  let defaultValue ← loadDefault idMap
  pure { name, type := if type = 1 then .int else .str, notNull := flags &&& 1 != 0,
         indexed := flags &&& 2 != 0, defaultValue }

/-- One row of `Table::load`. -/
def loadRow (idMap : List StringId) (columnCount : Nat) : LoadM (RowId × Row StringId) := do
  let id ← readBin UInt64
  let values ← ByteReader.times columnCount (loadValue idMap)
  pure (id, values)

/-- `*std::max_element(...)`. -/
def maxElement : List RowId → RowId
  | [] => 0
  | id :: rest => rest.foldl max id

/-- The table that `Table::load` makes of the rows of the file. -/
def tableOfRows {σ : Type} (name : ByteString) (schema : TableSchema σ)
    (rows : List (RowId × Row σ)) : Table σ ι :=
  let t : Table σ ι := Table.ofSchema name schema
  let order := rows.map Prod.fst
  { t with
    rows := rows.foldl (fun stored entry => stored.emplace entry.1 entry.2) t.rows
    order
    nextId := if order.isEmpty then t.nextId else max (maxElement order + 1) t.nextId }

/-- What `Table::load` does behind the columns. -/
def loadRows (name : ByteString) (schema : TableSchema StringId) (idMap : List StringId) :
    LoadM (Table StringId ι) := do
  let count ← readBin UInt64
  let rows ← ByteReader.times count.toNat (loadRow idMap schema.columnCount)
  pure (tableOfRows name schema rows)

/-- `Table::load`. -/
def load : LoadM (Table StringId ι) := do
  let magic ← readBin UInt32
  if magic ≠ kMagic then throw (.throws .runtimeError (text "Table::load: bad magic"))
  else
    let version ← readBin UInt32
    if version ≠ kVersionV3 then
      throw (.throws .runtimeError (text "Table::load: unsupported version"))
    else
      let name ← loadName
      let idMap ← loadStrings
      let columnCount ← readBin UInt32
      let columns ← ByteReader.times columnCount.toNat (loadColumn idMap)
      let schema ← fromExcept (TableSchema.ofColumns columns)
      loadRows name schema idMap

end CwDb.Storage
