/-
  Storage/TableFormat.lean --- the files that `Table::load` reads.

  The grammar has the ids of the file; what `load` makes of them depends on the pool of the
  process.  Every type byte but 1 is STR, every tag but 0 and 1 is that of a string, every
  `has_def` but 0 announces a default, and what follows the last row is not looked at.
-/
import CwDb.Foundation.ByteGrammar
import CwDb.Storage.TableRoundTrip

set_option autoImplicit false

namespace CwDb.Storage

open CwDb.Cpp
open CwDb.Foundation
open CwDb.Foundation.ByteReader

variable {ι : Type}

/-! ## The grammar -/

/-- A value behind its tag. -/
inductive ValueBytes : ByteString → Value StringId → Prop where
  | null : ValueBytes (Scalar.encode (0 : UInt8)) .null
  | int (n : Int64) : ValueBytes (Scalar.encode (1 : UInt8) ++ Scalar.encode n) (.int n)
  | str (tag : UInt8) (id : StringId) (other : tag ≠ 0 ∧ tag ≠ 1) :
      ValueBytes (Scalar.encode tag ++ Scalar.encode id) (.str id)

/-- `has_def` and the default. -/
inductive DefaultBytes : ByteString → Option (Value StringId) → Prop where
  | none : DefaultBytes (Scalar.encode (0 : UInt8)) none
  | some {bytes : ByteString} {v : Value StringId} (flag : UInt8) (set : flag ≠ 0)
      (value : ValueBytes bytes v) : DefaultBytes (Scalar.encode flag ++ bytes) (some v)

/-- One column. -/
inductive ColumnBytes : ByteString → ColumnDef StringId → Prop where
  | mk {bytes : ByteString} {defaultValue : Option (Value StringId)} (name : ByteString)
      (type flags : UInt8) (short : name.length < 2 ^ 16)
      (default : DefaultBytes bytes defaultValue) :
      ColumnBytes (saveName name ++ Scalar.encode type ++ Scalar.encode flags ++ bytes)
        { name, type := if type = 1 then .int else .str, notNull := flags &&& 1 != 0,
          indexed := flags &&& 2 != 0, defaultValue }

/-- One row: its id and its values. -/
inductive RowBytes (columnCount : Nat) : ByteString → RowId × Row StringId → Prop where
  | mk {bytes : ByteString} {values : Row StringId} (id : RowId)
      (width : values.length = columnCount) (list : ListBytes ValueBytes bytes values) :
      RowBytes columnCount (Scalar.encode id ++ bytes) (id, values)

/-- What a table file holds. -/
structure TableContents where
  name : ByteString
  strings : List ByteString
  columns : List (ColumnDef StringId)
  rows : List (RowId × Row StringId)

/-- The id of the value, if it has one, is below the bound. -/
def Value.Below (bound : Nat) (v : Value StringId) : Prop := ∀ id, v = .str id → id.toNat < bound

/-- The contents can be counted, hold the strings they refer to, and have a schema. -/
structure TableContents.Proper (f : TableContents) : Prop where
  name : f.name.length < 2 ^ 16
  strings : ∀ s ∈ f.strings, s.length < 2 ^ 32
  stringCount : f.strings.length < 2 ^ 32 - 1
  columnCount : f.columns.length < 2 ^ 32
  rowCount : f.rows.length < 2 ^ 64
  defaults : ∀ col ∈ f.columns, ∀ v, col.defaultValue = some v → v.Below (f.strings.length + 1)
  values : ∀ entry ∈ f.rows, ∀ v ∈ entry.2, v.Below (f.strings.length + 1)
  named : ∀ col ∈ f.columns, col.name ≠ []
  distinct : (f.columns.map (·.name)).Nodup

/-- The bytes are those of the contents. -/
inductive TableBytes (f : TableContents) : ByteString → Prop where
  | mk {columns rows : ByteString} (proper : f.Proper)
      (columnList : ListBytes ColumnBytes columns f.columns)
      (rowList : ListBytes (RowBytes f.columns.length) rows f.rows) :
      TableBytes f (Scalar.encode kMagic ++ (Scalar.encode kVersionV3 ++ (saveName f.name ++
        (Scalar.encode (UInt32.ofNat f.strings.length) ++
          (f.strings.flatMap StringPool.serializeString ++
            (Scalar.encode (UInt32.ofNat f.columns.length) ++ (columns ++
              (Scalar.encode (UInt64.ofNat f.rows.length) ++ rows))))))))

/-! ## Reading it -/

theorem parses_readBin (α : Type) [ExactScalar α] :
    Parses (readBin α) fun bytes a t t' => bytes = Scalar.encode a ∧ t' = t := parses_scalar _

theorem vectorAt_eq_remap {idMap : List StringId} {id id' : StringId} :
    vectorAt idMap id.toNat = .ok id' ↔ id.toNat < idMap.length ∧ id' = remap idMap id := by
  rw [vectorAt_eq_ok, List.getElem?_eq_some_iff]
  unfold remap
  rw [List.getD_eq_getElem?_getD]
  constructor
  · rintro ⟨hlt, rfl⟩
    exact ⟨hlt, by rw [List.getElem?_eq_getElem hlt]; rfl⟩
  · rintro ⟨hlt, rfl⟩
    exact ⟨hlt, by rw [List.getElem?_eq_getElem hlt]; rfl⟩

theorem parses_loadValue (idMap : List StringId) : Parses (loadValue idMap) fun bytes v t t' =>
    (∃ w, ValueBytes bytes w ∧ w.Below idMap.length ∧ v = w.map (remap idMap)) ∧ t' = t := by
  unfold loadValue
  refine ((parses_readBin UInt8).bind fun tag => Parses.ite (fun _ => parses_pure _) fun _ =>
    Parses.ite (fun _ => (parses_readBin Int64).bind fun n => parses_pure _) fun _ =>
      (parses_readBin UInt32).bind fun id => (parses_fromExcept _).bind fun id' =>
        parses_pure _).congr fun bytes v t t' => ⟨?_, ?_⟩
  · rintro ⟨u, w, tag, t₁, rfl, ⟨rfl, rfl⟩, ⟨rfl, rfl, rfl, rfl⟩ | ⟨hnull, ⟨rfl, hint⟩ | ⟨hint, hstr⟩⟩⟩
    · rw [List.append_nil]
      exact ⟨⟨.null, .null, nofun, rfl⟩, rfl⟩
    · obtain ⟨u', w', n, t₂, rfl, ⟨rfl, rfl⟩, rfl, rfl, rfl⟩ := hint
      rw [List.append_nil]
      exact ⟨⟨.int n, .int n, nofun, rfl⟩, rfl⟩
    · obtain ⟨u', w', id, t₂, rfl, ⟨rfl, rfl⟩, u₂, w₂, id', t₃, rfl, ⟨rfl, hid, rfl⟩, rfl, rfl,
        rfl⟩ := hstr
      obtain ⟨hlt, rfl⟩ := vectorAt_eq_remap.mp hid
      rw [List.append_nil, List.append_nil]
      refine ⟨⟨.str id, .str tag id ⟨hnull, hint⟩, ?_, rfl⟩, rfl⟩
      rintro _ ⟨⟩
      exact hlt
  · rintro ⟨⟨w, hbytes, hbelow, rfl⟩, rfl⟩
    cases hbytes with
    | null =>
        exact ⟨_, [], 0, _, (List.append_nil _).symm, ⟨rfl, rfl⟩, .inl ⟨rfl, rfl, rfl, rfl⟩⟩
    | int n =>
        refine ⟨_, _, 1, _, rfl, ⟨rfl, rfl⟩, .inr ⟨by decide, .inl ⟨rfl, ?_⟩⟩⟩
        exact ⟨_, [], n, _, (List.append_nil _).symm, ⟨rfl, rfl⟩, rfl, rfl, rfl⟩
    | str tag id other =>
        refine ⟨_, _, tag, _, rfl, ⟨rfl, rfl⟩, .inr ⟨other.1, .inr ⟨other.2, ?_⟩⟩⟩
        exact ⟨_, [], id, _, (List.append_nil _).symm, ⟨rfl, rfl⟩, [], [], remap idMap id, _, rfl,
          ⟨rfl, vectorAt_eq_remap.mpr ⟨hbelow id rfl, rfl⟩, rfl⟩, rfl, rfl, rfl⟩

theorem parses_loadDefault (idMap : List StringId) :
    Parses (loadDefault idMap) fun bytes d t t' =>
      (∃ d', DefaultBytes bytes d' ∧ (∀ w, d' = some w → w.Below idMap.length) ∧
        d = d'.map (Value.map (remap idMap))) ∧ t' = t := by
  unfold loadDefault
  refine ((parses_readBin UInt8).bind fun flag => Parses.ite (fun _ => parses_pure _) fun _ =>
    (parses_loadValue idMap).bind fun v => parses_pure _).congr fun bytes d t t' => ⟨?_, ?_⟩
  · rintro ⟨u, v, flag, t₁, rfl, ⟨rfl, rfl⟩, ⟨rfl, rfl, rfl, rfl⟩ | ⟨hset, hvalue⟩⟩
    · rw [List.append_nil]
      exact ⟨⟨none, .none, nofun, rfl⟩, rfl⟩
    · obtain ⟨u', v', value, t₂, rfl, ⟨⟨w, hbytes, hbelow, rfl⟩, rfl⟩, rfl, rfl, rfl⟩ := hvalue
      rw [List.append_nil]
      refine ⟨⟨some w, .some flag hset hbytes, ?_, rfl⟩, rfl⟩
      rintro _ ⟨⟩
      exact hbelow
  · rintro ⟨⟨d', hbytes, hbelow, rfl⟩, rfl⟩
    cases hbytes with
    | none => exact ⟨_, [], 0, _, (List.append_nil _).symm, ⟨rfl, rfl⟩, .inl ⟨rfl, rfl, rfl, rfl⟩⟩
    | some flag set value =>
        refine ⟨_, _, flag, _, rfl, ⟨rfl, rfl⟩, .inr ⟨set, ?_⟩⟩
        exact ⟨_, [], _, _, (List.append_nil _).symm, ⟨⟨_, value, hbelow _ rfl, rfl⟩, rfl⟩, rfl, rfl,
          rfl⟩

/-- A name, before a reader that needs more input. -/
theorem parses_loadName_bind {β : Type} {f : ByteString → LoadM β}
    {H : ByteString → Grammar StringPool β} (more : ∀ s, NeedsInput (f s))
    (next : ∀ s, Parses (f s) (H s)) : Parses (loadName >>= f) fun bytes b t t' =>
      ∃ name v, bytes = saveName name ++ v ∧ name.length < 2 ^ 16 ∧ H name v b t t' := by
  unfold loadName
  rw [bind_assoc]
  refine ((parses_readBin UInt16).bind fun len => Parses.buffer_bind more next).congr
    fun bytes b t t' => ⟨?_, ?_⟩
  · rintro ⟨u, v, len, t₁, rfl, ⟨rfl, rfl⟩, name, v', rfl, hlength, hH⟩
    have hlen : UInt16.ofNat name.length = len := by
      rw [hlength]
      exact UInt16.ofNat_toNat
    refine ⟨name, v', ?_, hlength ▸ len.toNat_lt, hH⟩
    unfold saveName
    dsimp only
    rw [hlen, ← hlength, List.take_length, List.append_assoc]
  · rintro ⟨name, v, rfl, short, hH⟩
    have hlen : (UInt16.ofNat name.length).toNat = name.length :=
      UInt16.toNat_ofNat'.trans (Nat.mod_eq_of_lt short)
    refine ⟨_, name ++ v, UInt16.ofNat name.length, t, ?_, ⟨rfl, rfl⟩, name, v, rfl, hlen.symm, hH⟩
    unfold saveName
    dsimp only
    rw [hlen, List.take_length, List.append_assoc]

theorem needsInput_readBin_bind {α β : Type} [Scalar α] (positive : 0 < Scalar.width α)
    (f : α → LoadM β) : NeedsInput (readBin α >>= f) := needsInput_scalar_bind positive _ f

theorem parses_loadColumn (idMap : List StringId) :
    Parses (loadColumn idMap) fun bytes col t t' =>
      (∃ col', ColumnBytes bytes col' ∧
        (∀ w, col'.defaultValue = some w → w.Below idMap.length) ∧
        col = col'.map (remap idMap)) ∧ t' = t := by
  unfold loadColumn
  refine (parses_loadName_bind (fun _ => needsInput_readBin_bind Nat.one_pos _) fun name =>
    (parses_readBin UInt8).bind fun type => (parses_readBin UInt8).bind fun flags =>
      (parses_loadDefault idMap).bind fun d => parses_pure _).congr
    fun bytes col t t' => ⟨?_, ?_⟩
  · rintro ⟨name, v, rfl, short, u₁, v₁, type, t₁, rfl, ⟨rfl, rfl⟩, u₂, v₂, flags, t₂, rfl,
      ⟨rfl, rfl⟩, u₃, v₃, d, t₃, rfl, ⟨⟨d', hbytes, hbelow, rfl⟩, rfl⟩, rfl, rfl, rfl⟩
    have hcolumn := ColumnBytes.mk name type flags short hbytes
    rw [List.append_assoc, List.append_assoc] at hcolumn
    rw [List.append_nil]
    exact ⟨⟨_, hcolumn, hbelow, rfl⟩, rfl⟩
  · rintro ⟨⟨col', hbytes, hbelow, rfl⟩, rfl⟩
    cases hbytes with
    | mk name type flags short default =>
        rw [List.append_assoc, List.append_assoc]
        exact ⟨name, _, rfl, short, _, _, type, _, rfl, ⟨rfl, rfl⟩, _, _, flags, _, rfl, ⟨rfl, rfl⟩,
          _, [], _, _, (List.append_nil _).symm, ⟨⟨_, default, hbelow, rfl⟩, rfl⟩, rfl, rfl, rfl⟩

theorem parses_loadRow (idMap : List StringId) (columnCount : Nat) :
    Parses (loadRow idMap columnCount) fun bytes entry t t' =>
      (∃ entry', RowBytes columnCount bytes entry' ∧ (∀ w ∈ entry'.2, w.Below idMap.length) ∧
        entry = (entry'.1, entry'.2.map (Value.map (remap idMap)))) ∧ t' = t := by
  unfold loadRow
  refine ((parses_readBin UInt64).bind fun id => ((parses_loadValue idMap).times columnCount).bind
    fun values => parses_pure _).congr fun bytes entry t t' => ⟨?_, ?_⟩
  · rintro ⟨u, v, id, t₁, rfl, ⟨rfl, rfl⟩, u₁, v₁, values, t₂, rfl, ⟨⟨hwidth, hlist⟩, rfl⟩, rfl,
      rfl, rfl⟩
    obtain ⟨ws, hws, hbelow, rfl⟩ := listBytes_map.mp hlist
    rw [List.length_map] at hwidth
    rw [List.append_nil]
    exact ⟨⟨(id, ws), .mk id hwidth hws, hbelow, rfl⟩, rfl⟩
  · rintro ⟨⟨entry', hbytes, hbelow, rfl⟩, rfl⟩
    cases hbytes with
    | mk id width list =>
        exact ⟨_, _, id, _, rfl, ⟨rfl, rfl⟩, _, [], _, _, (List.append_nil _).symm,
          ⟨⟨by rw [List.length_map, width], listBytes_map.mpr ⟨_, list, hbelow, rfl⟩⟩, rfl⟩, rfl,
          rfl, rfl⟩

/-! ## The pool -/

theorem loadString_bind {β : Type} (f : StringId → LoadM β) :
    loadString >>= f = readBin UInt32 >>= fun len => buffer len.toNat >>= fun s =>
      state (StringPool.intern s) >>= f := by
  unfold loadString
  simp only [bind_assoc]

theorem serializeString_eq {s : ByteString} (short : s.length < 2 ^ 32) :
    StringPool.serializeString s = Scalar.encode (UInt32.ofNat s.length) ++ s := by
  have hlen : (UInt32.ofNat s.length).toNat = s.length :=
    UInt32.toNat_ofNat'.trans (Nat.mod_eq_of_lt short)
  unfold StringPool.serializeString
  dsimp only
  rw [hlen, List.take_length]

theorem needsInput_times_loadString {β : Type} {f : List StringId → LoadM β}
    (more : ∀ ids, NeedsInput (f ids)) (n : Nat) : NeedsInput (times n loadString >>= f) := by
  cases n with
  | zero => exact more []
  | succ n =>
      unfold times
      rw [bind_assoc, loadString_bind]
      exact needsInput_readBin_bind (by decide) _

/-- The strings are read and interned one after another, before a reader that needs more
input. -/
theorem parses_loadStrings_loop {β : Type} {f : List StringId → LoadM β}
    {H : List StringId → Grammar StringPool β} (more : ∀ ids, NeedsInput (f ids))
    (next : ∀ ids, Parses (f ids) (H ids)) (n : Nat) :
    Parses (times n loadString >>= f) fun bytes b t t' =>
      ∃ strings v, bytes = strings.flatMap StringPool.serializeString ++ v ∧ strings.length = n ∧
        (∀ s ∈ strings, s.length < 2 ^ 32) ∧
        H (StringPool.internAll strings t).1 v b (StringPool.internAll strings t).2 t' := by
  induction n generalizing f H with
  | zero =>
      refine (next []).congr fun bytes b t t' => ⟨fun h => ⟨[], bytes, rfl, rfl, nofun, h⟩, ?_⟩
      rintro ⟨strings, v, rfl, hlength, -, hH⟩
      obtain rfl := List.length_eq_zero_iff.mp hlength
      exact hH
  | succ n ih =>
      have hloop : times (n + 1) loadString >>= f = readBin UInt32 >>= fun len =>
          buffer len.toNat >>= fun s => state (StringPool.intern s) >>= fun id =>
            times n loadString >>= fun ids => f (id :: ids) := by
        rw [← loadString_bind]
        conv => lhs; unfold times
        simp only [bind_assoc, pure_bind]
      have htail : ∀ id, Parses (times n loadString >>= fun ids => f (id :: ids)) _ := fun id =>
        ih (fun ids => more (id :: ids)) fun ids => next (id :: ids)
      have hneeds : ∀ s, NeedsInput (state (StringPool.intern s) >>= fun id =>
          times n loadString >>= fun ids => f (id :: ids)) := by
        intro s t b s' hrun
        obtain ⟨id, ⟨rest, t₁⟩, hstate, hrun⟩ := bind_eq_ok.mp hrun
        cases hstate
        exact needsInput_times_loadString (fun ids => more _) n _ _ _ hrun
      rw [hloop]
      refine ((parses_readBin UInt32).bind fun len => Parses.buffer_bind hneeds fun s =>
        (parses_state (StringPool.intern s)).bind htail).congr fun bytes b t t' => ⟨?_, ?_⟩
      · rintro ⟨u, v, len, t₁, rfl, ⟨rfl, rfl⟩, s, v₁, rfl, hlength, u₂, v₂, id, t₂, rfl,
          ⟨rfl, rfl, rfl⟩, strings, v₃, rfl, hcount, hshort, hH⟩
        have hlen : UInt32.ofNat s.length = len := by
          rw [hlength]
          exact UInt32.ofNat_toNat
        have hs : s.length < 2 ^ 32 := hlength ▸ len.toNat_lt
        refine ⟨s :: strings, v₃, ?_, by rw [List.length_cons, hcount],
          List.forall_mem_cons.mpr ⟨hs, hshort⟩, hH⟩
        rw [List.flatMap_cons, serializeString_eq hs, hlen]
        simp only [List.append_assoc, List.nil_append]
      · rintro ⟨strings, v, rfl, hcount, hshort, hH⟩
        cases strings with
        | nil => cases hcount
        | cons s strings =>
            obtain ⟨hs, hshort⟩ := List.forall_mem_cons.mp hshort
            have hlen : (UInt32.ofNat s.length).toNat = s.length :=
              UInt32.toNat_ofNat'.trans (Nat.mod_eq_of_lt hs)
            refine ⟨_, s ++ (strings.flatMap StringPool.serializeString ++ v),
              UInt32.ofNat s.length, t, ?_, ⟨rfl, rfl⟩, s, _, rfl, hlen.symm, [], _, _, _, rfl,
              ⟨rfl, rfl, rfl⟩, strings, v, rfl, Nat.succ.inj hcount, hshort, hH⟩
            rw [List.flatMap_cons, serializeString_eq hs]
            simp only [List.append_assoc]

/-- The pool of the file, before a reader that needs more input. -/
theorem parses_loadStrings_bind {β : Type} {f : List StringId → LoadM β}
    {H : List StringId → Grammar StringPool β} (more : ∀ ids, NeedsInput (f ids))
    (next : ∀ ids, Parses (f ids) (H ids)) : Parses (loadStrings >>= f) fun bytes b t t' =>
      ∃ strings v, bytes = Scalar.encode (UInt32.ofNat strings.length) ++
          (strings.flatMap StringPool.serializeString ++ v) ∧ strings.length < 2 ^ 32 - 1 ∧
        (∀ s ∈ strings, s.length < 2 ^ 32) ∧
        H (0 :: (StringPool.internAll strings t).1) v b (StringPool.internAll strings t).2 t' := by
  unfold loadStrings
  simp only [bind_assoc]
  have hnext : ∀ (count : UInt32) (ids : List StringId), Parses
      ((if count = 0xFFFFFFFF then
          throw (.throws .runtimeError (text "Table::load: truncated or corrupt file"))
        else pure (0 :: ids)) >>= f) fun bytes b t t' =>
      count ≠ 0xFFFFFFFF ∧ H (0 :: ids) bytes b t t' := by
    intro count ids
    by_cases hcount : count = 0xFFFFFFFF
    · rw [if_pos hcount]
      intro input t b rest t'
      constructor
      · intro h
        cases h
      · rintro ⟨-, -, hne, -⟩
        exact absurd hcount hne
    · rw [if_neg hcount, pure_bind]
      exact (next (0 :: ids)).congr fun _ _ _ _ => (and_iff_right hcount).symm
  have hmore : ∀ (count : UInt32) (ids : List StringId), NeedsInput
      ((if count = 0xFFFFFFFF then
          throw (.throws .runtimeError (text "Table::load: truncated or corrupt file"))
        else pure (0 :: ids)) >>= f) := by
    intro count ids
    by_cases hcount : count = 0xFFFFFFFF
    · rw [if_pos hcount]
      exact fun t b s h => nomatch h
    · rw [if_neg hcount, pure_bind]
      exact more (0 :: ids)
  refine ((parses_readBin UInt32).bind fun count => parses_loadStrings_loop (hmore count)
    (hnext count) count.toNat).congr fun bytes b t t' => ⟨?_, ?_⟩
  · rintro ⟨u, w, count, t₁, rfl, ⟨rfl, rfl⟩, strings, v, rfl, hlength, hshort, hcount, hH⟩
    have hnat : UInt32.ofNat strings.length = count := by
      rw [hlength]
      exact UInt32.ofNat_toNat
    refine ⟨strings, v, by rw [hnat], ?_, hshort, hH⟩
    have hlt := count.toNat_lt
    have hne : count.toNat ≠ 2 ^ 32 - 1 := fun heq => hcount (UInt32.toNat_inj.mp heq)
    omega
  · rintro ⟨strings, v, rfl, hcount, hshort, hH⟩
    have hnat : (UInt32.ofNat strings.length).toNat = strings.length :=
      UInt32.toNat_ofNat'.trans (Nat.mod_eq_of_lt (by omega))
    refine ⟨_, _, UInt32.ofNat strings.length, t, rfl, ⟨rfl, rfl⟩, strings, v, rfl, hnat.symm,
      hshort, fun heq => ?_, hH⟩
    rw [heq] at hnat
    have : (0xFFFFFFFF : UInt32).toNat = 2 ^ 32 - 1 := rfl
    omega

/-! ## The whole file -/

theorem ofColumns_eq_ok_iff {columns : List (ColumnDef StringId)} {schema : TableSchema StringId} :
    TableSchema.ofColumns columns = .ok schema ↔ schema.columns = columns := by
  constructor
  · intro h
    unfold TableSchema.ofColumns at h
    split at h
    · cases h
    · cases h
      rfl
  · rintro rfl
    exact schema.ofColumns_columns

/-- The id that the loading process gives to each id of the file. -/
def TableContents.idMap (f : TableContents) (pool : StringPool) : List StringId :=
  0 :: (StringPool.internAll f.strings pool).1

/-- The rows of the file under the ids of the loading process. -/
def TableContents.loadedRows (f : TableContents) (pool : StringPool) :
    List (RowId × Row StringId) :=
  f.rows.map fun entry => (entry.1, entry.2.map (Value.map (remap (f.idMap pool))))

theorem length_internAll (strings : List ByteString) (pool : StringPool) :
    (StringPool.internAll strings pool).1.length = strings.length := by
  induction strings generalizing pool with
  | nil => rfl
  | cons s strings ih => exact congrArg Nat.succ (ih (pool.intern s).2)

theorem TableContents.length_idMap (f : TableContents) (pool : StringPool) :
    (f.idMap pool).length = f.strings.length + 1 := congrArg Nat.succ (length_internAll _ _)

/-- The rows and their count. -/
theorem parses_loadRows (name : ByteString) (schema : TableSchema StringId)
    (idMap : List StringId) :
    Parses (loadRows (ι := ι) name schema idMap) fun bytes t pool pool' =>
      (∃ rows rowBytes, bytes = Scalar.encode (UInt64.ofNat rows.length) ++ rowBytes ∧
        rows.length < 2 ^ 64 ∧ ListBytes (RowBytes schema.columnCount) rowBytes rows ∧
        (∀ entry ∈ rows, ∀ w ∈ entry.2, w.Below idMap.length) ∧
        t = tableOfRows name schema
          (rows.map fun entry => (entry.1, entry.2.map (Value.map (remap idMap))))) ∧
      pool' = pool := by
  unfold loadRows
  refine ((parses_readBin UInt64).bind fun count =>
    ((parses_loadRow idMap schema.columnCount).times count.toNat).bind fun rows =>
      parses_pure _).congr fun bytes t pool pool' => ⟨?_, ?_⟩
  · rintro ⟨u, v, count, t₁, rfl, ⟨rfl, rfl⟩, u₁, v₁, loaded, t₂, rfl, ⟨⟨hcount, hlist⟩, rfl⟩, rfl,
      rfl, rfl⟩
    obtain ⟨rows, hrows, hbelow, rfl⟩ := listBytes_map.mp hlist
    rw [List.length_map] at hcount
    have hnat : UInt64.ofNat rows.length = count := by
      rw [hcount]
      exact UInt64.ofNat_toNat
    refine ⟨⟨rows, u₁, ?_, hcount ▸ count.toNat_lt, hrows, hbelow, rfl⟩, rfl⟩
    rw [hnat, List.append_nil]
  · rintro ⟨⟨rows, rowBytes, rfl, hcount, hrows, hbelow, rfl⟩, rfl⟩
    have hnat : (UInt64.ofNat rows.length).toNat = rows.length :=
      UInt64.toNat_ofNat'.trans (Nat.mod_eq_of_lt hcount)
    exact ⟨_, _, UInt64.ofNat rows.length, _, rfl, ⟨rfl, rfl⟩, rowBytes, [], _, _,
      (List.append_nil _).symm, ⟨⟨by rw [List.length_map, hnat], listBytes_map.mpr
        ⟨rows, hrows, hbelow, rfl⟩⟩, rfl⟩, rfl, rfl, rfl⟩

/-- What `load` does behind the pool of the file. -/
def loadBehindStrings (name : ByteString) (idMap : List StringId) : LoadM (Table StringId ι) := do
  let columnCount ← readBin UInt32
  let columns ← times columnCount.toNat (loadColumn idMap)
  let schema ← fromExcept (TableSchema.ofColumns columns)
  loadRows name schema idMap

/-- The columns, their count and the rows. -/
theorem parses_loadBehindStrings (name : ByteString) (idMap : List StringId) :
    Parses (loadBehindStrings (ι := ι) name idMap) fun bytes t pool pool' =>
      (∃ columns columnBytes rows rowBytes schema,
        bytes = Scalar.encode (UInt32.ofNat columns.length) ++ (columnBytes ++
          (Scalar.encode (UInt64.ofNat rows.length) ++ rowBytes)) ∧
        columns.length < 2 ^ 32 ∧ rows.length < 2 ^ 64 ∧
        ListBytes ColumnBytes columnBytes columns ∧
        ListBytes (RowBytes columns.length) rowBytes rows ∧
        (∀ col ∈ columns, ∀ w, col.defaultValue = some w → w.Below idMap.length) ∧
        (∀ entry ∈ rows, ∀ w ∈ entry.2, w.Below idMap.length) ∧
        schema.columns = columns.map (ColumnDef.map (remap idMap)) ∧
        t = tableOfRows name schema
          (rows.map fun entry => (entry.1, entry.2.map (Value.map (remap idMap))))) ∧
      pool' = pool := by
  have hwidth : ∀ {columns : List (ColumnDef StringId)} {schema : TableSchema StringId},
      schema.columns = columns.map (ColumnDef.map (remap idMap)) →
        schema.columnCount = columns.length := by
    intro columns schema h
    unfold TableSchema.columnCount
    rw [h, List.length_map]
  unfold loadBehindStrings
  refine ((parses_readBin UInt32).bind fun count =>
    ((parses_loadColumn idMap).times count.toNat).bind fun columns =>
      (parses_fromExcept _).bind fun schema => parses_loadRows name schema idMap).congr
        fun bytes t pool pool' => ⟨?_, ?_⟩
  · rintro ⟨u, v, count, t₁, rfl, ⟨rfl, rfl⟩, columnBytes, v₁, loaded, t₂, rfl,
      ⟨⟨hcount, hlist⟩, rfl⟩, u₂, v₂, schema, t₃, rfl, ⟨rfl, hschema, rfl⟩,
      ⟨rows, rowBytes, rfl, hrowCount, hrows, hvalues, rfl⟩, rfl⟩
    obtain ⟨columns, hcolumns, hdefaults, rfl⟩ := listBytes_map.mp hlist
    have hschema := ofColumns_eq_ok_iff.mp hschema
    rw [hwidth hschema] at hrows
    rw [List.length_map] at hcount
    have hnat : UInt32.ofNat columns.length = count := by
      rw [hcount]
      exact UInt32.ofNat_toNat
    refine ⟨⟨columns, columnBytes, rows, rowBytes, schema, ?_, hcount ▸ count.toNat_lt, hrowCount,
      hcolumns, hrows, hdefaults, hvalues, hschema, rfl⟩, rfl⟩
    rw [hnat]
    rfl
  · rintro ⟨⟨columns, columnBytes, rows, rowBytes, schema, rfl, hcount, hrowCount, hcolumns, hrows,
      hdefaults, hvalues, hschema, rfl⟩, rfl⟩
    have hnat : (UInt32.ofNat columns.length).toNat = columns.length :=
      UInt32.toNat_ofNat'.trans (Nat.mod_eq_of_lt hcount)
    rw [← hwidth hschema] at hrows
    exact ⟨_, _, UInt32.ofNat columns.length, _, rfl, ⟨rfl, rfl⟩, columnBytes, _, _, _, rfl,
      ⟨⟨by rw [List.length_map, hnat], listBytes_map.mpr ⟨columns, hcolumns, hdefaults, rfl⟩⟩, rfl⟩,
      [], _, schema, _, rfl, ⟨rfl, ofColumns_eq_ok_iff.mpr hschema, rfl⟩,
      ⟨rows, rowBytes, rfl, hrowCount, hrows, hvalues, rfl⟩, rfl⟩

/-- What `load` accepts, and the table it makes of it. -/
theorem parses_load : Parses (load (ι := ι)) fun bytes t pool pool' =>
    ∃ f, TableBytes f bytes ∧ pool' = (StringPool.internAll f.strings pool).2 ∧
      ∃ schema, schema.columns = f.columns.map (ColumnDef.map (remap (f.idMap pool))) ∧
        t = tableOfRows f.name schema (f.loadedRows pool) := by
  have hload : load (ι := ι) = readBin UInt32 >>= fun magic =>
      if magic ≠ kMagic then throw (.throws .runtimeError (text "Table::load: bad magic"))
      else readBin UInt32 >>= fun version =>
        if version ≠ kVersionV3 then
          throw (.throws .runtimeError (text "Table::load: unsupported version"))
        else loadName >>= fun name => loadStrings >>= fun idMap =>
          loadBehindStrings name idMap := rfl
  have hstrings : ∀ name, NeedsInput (loadStrings >>= fun idMap =>
      loadBehindStrings (ι := ι) name idMap) := by
    intro name
    unfold loadStrings
    rw [bind_assoc]
    exact needsInput_readBin_bind (by decide) _
  have hcolumns : ∀ name idMap, NeedsInput (loadBehindStrings (ι := ι) name idMap) :=
    fun name idMap => needsInput_readBin_bind (by decide) _
  rw [hload]
  refine ((parses_readBin UInt32).bind fun magic => Parses.ite (fun _ => parses_throw _) fun _ =>
    (parses_readBin UInt32).bind fun version => Parses.ite (fun _ => parses_throw _) fun _ =>
      parses_loadName_bind hstrings fun name => parses_loadStrings_bind (hcolumns name) fun idMap =>
        parses_loadBehindStrings name idMap).congr fun bytes t pool pool' => ⟨?_, ?_⟩
  · rintro ⟨u, v, magic, t₁, rfl, ⟨rfl, rfl⟩, ⟨-, hfalse⟩ | ⟨hmagic, u₁, v₁, version, t₂, rfl,
      ⟨rfl, rfl⟩, ⟨-, hfalse⟩ | ⟨hversion, name, v₂, rfl, hname, strings, v₃, rfl, hstringCount,
        hshort, ⟨columns, columnBytes, rows, rowBytes, schema, rfl, hcount, hrowCount, hcolumnList,
          hrowList, hdefaults, hvalues, hschema, rfl⟩, rfl⟩⟩⟩
    · exact hfalse.elim
    · exact hfalse.elim
    · obtain rfl := not_not.mp hmagic
      obtain rfl := not_not.mp hversion
      let f : TableContents := ⟨name, strings, columns, rows⟩
      have hlength : (f.idMap t₂).length = strings.length + 1 := f.length_idMap t₂
      have proper : f.Proper :=
        { name := hname, strings := hshort, stringCount := hstringCount, columnCount := hcount
          rowCount := hrowCount
          defaults := fun col hcol w hw => hlength ▸ hdefaults col hcol w hw
          values := fun entry hentry w hw => hlength ▸ hvalues entry hentry w hw
          named := fun col hcol => by
            have hmem : col.map (remap (f.idMap t₂)) ∈ schema.columns := by
              rw [hschema]
              exact List.mem_map_of_mem hcol
            exact schema.named (col.map (remap (f.idMap t₂))) hmem
          distinct := by
            have := schema.distinct
            rw [hschema, List.map_map] at this
            exact this }
      exact ⟨f, .mk proper hcolumnList hrowList, rfl, schema, hschema, rfl⟩
  · rintro ⟨f, hbytes, rfl, schema, hschema, rfl⟩
    cases hbytes with
    | mk proper columnList rowList =>
        have hlength := f.length_idMap pool
        exact ⟨_, _, kMagic, pool, rfl, ⟨rfl, rfl⟩, .inr ⟨not_not_intro rfl, _, _, kVersionV3, pool,
          rfl, ⟨rfl, rfl⟩, .inr ⟨not_not_intro rfl, f.name, _, rfl, proper.name, f.strings, _, rfl,
            proper.stringCount, proper.strings, ⟨f.columns, _, f.rows, _, schema, rfl,
              proper.columnCount, proper.rowCount, columnList, rowList,
              fun col hcol w hw => hlength ▸ proper.defaults col hcol w hw,
              fun entry hentry w hw => hlength ▸ proper.values entry hentry w hw, hschema, rfl⟩,
            rfl⟩⟩⟩

end CwDb.Storage
