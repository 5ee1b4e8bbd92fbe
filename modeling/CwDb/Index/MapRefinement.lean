/-
  Index/MapRefinement.lean --- an index answers as an ordered map does.
-/
import CwDb.Foundation.Machine
import CwDb.Index.Erasure
import CwDb.Index.RangeSearch

set_option autoImplicit false

namespace CwDb.Index

open CwDb.Cpp
open CwDb.Foundation

/-- What is done with an index. -/
inductive Operation where
  | insert (key : IndexKey) (record : UInt64)
  | erase (key : IndexKey)
  | find (key : IndexKey)
  | rangeSearch (low high : IndexKey)
  /-- The index is destroyed, and another one constructed on its file. -/
  | reopen (kind : IndexKeyKind)

inductive Answer where
  | inserted
  | erased (found : Bool)
  | record (found : Option UInt64)
  | records (found : List UInt64)
  | opened
  deriving DecidableEq

namespace Operation

/-- The keys of the operation can be stored in an index of the kind. -/
def Admissible (kind : IndexKeyKind) : Operation → Prop
  | insert key _ => Index.Admissible kind key
  | erase key => Index.Admissible kind key
  | find key => Index.Admissible kind key
  | rangeSearch low high => Index.Admissible kind low ∧ Index.Admissible kind high
  | reopen _ => True

/-- The checks that the keys of the operation go through, the one for storing included. -/
def check (kind : IndexKeyKind) : Operation → Except Fault Unit
  | insert key _ => do
      validateKeyKind key kind
      let _ ← serializedKeySize key
      pure ()
  | erase key => validateKeyKind key kind
  | find key => validateKeyKind key kind
  | rangeSearch low high => do
      validateKeyKind low kind
      validateKeyKind high kind
  | reopen _ => .ok ()

theorem check_insert_eq_ok {kind : IndexKeyKind} {key : IndexKey} {record : UInt64} :
    (insert key record).check kind = .ok () ↔ Index.Admissible kind key := by
  refine ⟨fun h => ?_, fun h => ?_⟩
  · cases hkind : validateKeyKind key kind with
    | error fault => simp [check, hkind, bind, Except.bind] at h
    | ok _ =>
        cases hsize : serializedKeySize key with
        | error fault => simp [check, hkind, hsize, bind, Except.bind] at h
        | ok n => exact admissible_of_checks hkind hsize
  · rw [check, BStarPlusIndex.validateKeyKind_eq h, h.serializedKeySize]
    rfl

theorem check_rangeSearch_eq_ok {kind : IndexKeyKind} {low high : IndexKey} :
    (rangeSearch low high).check kind = .ok () ↔
      validateKeyKind low kind = .ok () ∧ validateKeyKind high kind = .ok () := by
  rw [check]
  cases validateKeyKind low kind <;> simp [bind, Except.bind]

theorem Admissible.check {kind : IndexKeyKind} {op : Operation} (h : op.Admissible kind) :
    op.check kind = .ok () := by
  cases op with
  | insert key record => exact check_insert_eq_ok.mpr h
  | erase key => exact BStarPlusIndex.validateKeyKind_eq h
  | find key => exact BStarPlusIndex.validateKeyKind_eq h
  | rangeSearch low high =>
      exact check_rangeSearch_eq_ok.mpr
        ⟨BStarPlusIndex.validateKeyKind_eq h.1, BStarPlusIndex.validateKeyKind_eq h.2⟩
  | reopen _ => rfl

def perform : Operation → IndexM Answer
  | insert key record => do
      BStarPlusIndex.insert key record
      pure .inserted
  | erase key => do
      let found ← BStarPlusIndex.erase key
      pure (.erased found)
  | find key => do
      let found ← BStarPlusIndex.reading fun idx => idx.find key
      pure (.record found)
  | rangeSearch low high => do
      let found ← BStarPlusIndex.reading fun idx => idx.rangeSearch low high
      pure (.records found)
  | reopen kind => do
      modify fun idx => BStarPlusIndex.onFile (some idx.disk.file)
      BStarPlusIndex.loadMetadata kind
      pure .opened

/-- The answer or the exception, and the index afterwards. -/
def onIndex (op : Operation) (idx : BStarPlusIndex) : Except Fault Answer × BStarPlusIndex :=
  match op.perform idx with
  | .ok answer idx' => (.ok answer, idx')
  | .error fault idx' => (.error fault, idx')

/-- What the operation is meant to be: the answer of a map, and the map afterwards. -/
def onMap : Operation → OrderedMap IndexKey UInt64 →
    Except Fault Answer × OrderedMap IndexKey UInt64
  | insert key record, m =>
      if (m.find? key).isSome then (raise .invalidArgument (text "Duplicate index key"), m)
      else (.ok .inserted, m.insert key record)
  | erase key, m => (.ok (.erased (m.find? key).isSome), m.erase key)
  | find key, m => (.ok (.record (m.find? key)), m)
  | rangeSearch low high, m => (.ok (.records (m.range low high)), m)
  | reopen _, m => (.ok .opened, m)

end Operation

namespace BStarPlusIndex

variable {idx idx' : BStarPlusIndex} {kind : IndexKeyKind} {m : OrderedMap IndexKey UInt64}

/-- The file has room for another page. -/
def HasRoom (idx : BStarPlusIndex) : Prop := ¬ idx.disk.Full

/-! ## Opening -/

/-- The constructor on the file of an index makes the same index. -/
theorem Contents.reopen (c : idx.Contents m) (kind : IndexKeyKind) :
    loadMetadata kind (onFile (some idx.disk.file)) = .ok ⟨⟩ idx := by
  have hdisk : (onFile (some idx.disk.file)).disk = idx.disk := by
    change DiskPageManager.mk idx.disk.file (UInt64.ofNat idx.disk.file.pages.length) = idx.disk
    rw [c.sound.disk.counted, UInt64.ofNat_toNat]
  have hproper : idx.metadata.keyKind ≠ .unknown := by
    rcases c.sound.kind with h | h <;> rw [h] <;> decide
  rw [loadMetadata_eq (hdisk ▸ c.saved) hproper, hdisk]

/-- The index that the constructor makes without a file. -/
def created (kind : IndexKeyKind) : BStarPlusIndex :=
  ⟨(onFile none).disk.writeMetadata { keyKind := kind }, { keyKind := kind }⟩

theorem loadMetadata_created (proper : kind.Proper) :
    loadMetadata kind (onFile none) = .ok ⟨⟩ (created kind) := by
  have hread : (onFile none).disk.readMetadata = {} :=
    BStarPlusIndexMetadata.decode_encode_append {} _
  have hknown : kind ≠ .unknown := by
    rcases proper with h | h <;> rw [h] <;> decide
  change (if (onFile none).disk.readMetadata.keyKind ≠ .unknown then
      modifyMetadata fun _ => (onFile none).disk.readMetadata
    else if kind = .unknown then
      throw (.throws .invalidArgument (text "Metadata must be provided for new index"))
    else saveMetadata : IndexM PUnit)
      { onFile none with metadata := { keyKind := kind } } = _
  rw [hread, if_neg (not_not.mpr rfl), if_neg hknown]
  rfl

theorem contents_created (proper : kind.Proper) : (created kind).Contents .empty := by
  have haddressable : (UInt64.ofNat 0).toNat < 2 ^ 51 := by decide
  exact ⟨⟨⟨rfl, haddressable⟩, proper⟩, .inl ⟨rfl, rfl⟩, rfl, readMetadata_writeMetadata _ _⟩

/-! ## Answers -/

theorem reading_run {α : Type} {f : BStarPlusIndex → Except Fault α} {a : α} (h : f idx = .ok a) :
    reading f idx = .ok a idx := by
  rw [reading, bind_ok get_run, h]
  rfl

/-- What relates an index of a kind to a map. -/
structure Mirrors (kind : IndexKeyKind) (idx : BStarPlusIndex)
    (m : OrderedMap IndexKey UInt64) : Prop where
  contents : idx.Contents m
  kind : idx.metadata.keyKind = kind

/-- `insert` of a key that the index has throws, and changes nothing. -/
theorem Contents.insert_present {key : IndexKey} {record : UInt64} (c : idx.Contents m)
    (valid : validateKeyKind key idx.metadata.keyKind = .ok ()) (present : m.find? key ≠ none) :
    insert key record idx =
      .error (.throws .invalidArgument (text "Duplicate index key")) idx := by
  rcases c.cases with ⟨-, hnil⟩ | ⟨H, t, r, hitems⟩
  · have hnone : m.find? key = none := by rw [OrderedMap.find?, hnil]; rfl
    exact absurd hnone present
  · exact r.insert_present hitems valid present

end BStarPlusIndex

open BStarPlusIndex

/-- One operation answers as the map does, unless the file is full. -/
theorem Operation.onIndex_eq {kind : IndexKeyKind} {idx : BStarPlusIndex}
    {m : OrderedMap IndexKey UInt64} (op : Operation) (checked : op.check kind = .ok ())
    (mirrors : Mirrors kind idx m) (room : (op.onIndex idx).2.HasRoom) :
    (op.onIndex idx).1 = (op.onMap m).1 ∧ Mirrors kind (op.onIndex idx).2 (op.onMap m).2 := by
  obtain ⟨c, rfl⟩ := mirrors
  cases op with
  | insert key record =>
      have admissible := check_insert_eq_ok.mp checked
      have valid := validateKeyKind_eq admissible
      cases hfind : m.find? key with
      | some old =>
          have hpresent : m.find? key ≠ none := by rw [hfind]; nofun
          have hrun : BStarPlusIndex.insert key record idx = _ := c.insert_present valid hpresent
          have hperform : (Operation.insert key record).perform idx =
              .error (.throws .invalidArgument (text "Duplicate index key")) idx := bind_error hrun
          rw [onIndex, hperform, onMap, hfind]
          exact ⟨rfl, c, rfl⟩
      | none =>
          have hends : Ends (BStarPlusIndex.insert key record) idx _
              fun _ idx' => idx'.disk.Full :=
            c.ends_insert admissible hfind fun _ full _ => full
          rw [onIndex] at room ⊢
          rw [onMap, hfind]
          cases hrun : BStarPlusIndex.insert key record idx with
          | ok a idx' =>
              have hperform : (Operation.insert key record).perform idx = .ok .inserted idx' := by
                rw [perform, bind_ok hrun]
                rfl
              obtain ⟨c', hkind⟩ := hends.of_ok hrun
              rw [hperform]
              exact ⟨rfl, c', hkind⟩
          | error fault idx' =>
              have hperform : (Operation.insert key record).perform idx = .error fault idx' :=
                bind_error hrun
              rw [hperform] at room
              exact absurd (hends.of_error hrun) room
  | erase key =>
      have hends := c.ends_erase (E := fun _ _ => False) checked
      obtain ⟨found, idx', hrun, rfl, c', hkind⟩ := hends.exists_ok
      have hperform : (Operation.erase key).perform idx =
          .ok (.erased (m.find? key).isSome) idx' := by
        rw [perform, bind_ok hrun]
        rfl
      rw [onIndex, hperform, onMap]
      exact ⟨rfl, c', hkind⟩
  | find key =>
      have hfind := c.find_eq checked
      have hperform : (Operation.find key).perform idx = .ok (.record (m.find? key)) idx :=
        bind_ok (reading_run hfind)
      rw [onIndex, hperform, onMap]
      exact ⟨rfl, c, rfl⟩
  | rangeSearch low high =>
      obtain ⟨validLow, validHigh⟩ := check_rangeSearch_eq_ok.mp checked
      have hrange := c.rangeSearch_eq validLow validHigh
      have hperform : (Operation.rangeSearch low high).perform idx =
          .ok (.records (m.range low high)) idx := bind_ok (reading_run hrange)
      rw [onIndex, hperform, onMap]
      exact ⟨rfl, c, rfl⟩
  | reopen kind =>
      have hopen := c.reopen kind
      have hperform : (Operation.reopen kind).perform idx = .ok .opened idx := bind_ok hopen
      rw [onIndex, hperform, onMap]
      exact ⟨rfl, c, rfl⟩

namespace BStarPlusIndex

/-- After any operations the index mirrors the map that they lead to, as long as the file has
room. -/
theorem mimics_map (kind : IndexKeyKind) :
    Mimics (fun op _ => op.Admissible kind) HasRoom (Mirrors kind) Operation.onIndex
      Operation.onMap where
  answer op _ _ admissible mirrors room := (op.onIndex_eq admissible.check mirrors room).1
  keeps op _ _ admissible mirrors room := (op.onIndex_eq admissible.check mirrors room).2

/-- Whatever is done with a new index, it answers as the map does and mirrors it afterwards. -/
theorem mirrors_run {kind : IndexKeyKind} (proper : kind.Proper) {ops : List Operation}
    (admissible : ∀ op ∈ ops, op.Admissible kind)
    (room : StaysIn HasRoom Operation.onIndex ops (created kind)) :
    (runMachine Operation.onIndex ops (created kind)).1 =
        (runMachine Operation.onMap ops .empty).1 ∧
      Mirrors kind (runMachine Operation.onIndex ops (created kind)).2
        (runMachine Operation.onMap ops .empty).2 :=
  (mimics_map kind).run ops ⟨contents_created proper, rfl⟩
    (allowedAlong_of_forall fun op hop _ => admissible op hop) room

/-- The index refines an ordered map: whatever is done with a new index, with keys that it can
store, it answers as the map does, and it counts the keys of the map; the file has room all
the while. -/
theorem refines_map {kind : IndexKeyKind} (proper : kind.Proper) (ops : List Operation)
    (admissible : ∀ op ∈ ops, op.Admissible kind)
    (room : StaysIn HasRoom Operation.onIndex ops (created kind)) :
    loadMetadata kind (onFile none) = .ok ⟨⟩ (created kind) ∧
      (runMachine Operation.onIndex ops (created kind)).1 =
        (runMachine Operation.onMap ops .empty).1 ∧
      (runMachine Operation.onIndex ops (created kind)).2.metadata.size.toNat =
        (runMachine Operation.onMap ops .empty).2.size := by
  obtain ⟨hanswers, hlast⟩ := mirrors_run proper admissible room
  exact ⟨loadMetadata_created proper, hanswers, hlast.contents.size⟩

/-- A key is inserted twice and erased. -/
theorem refines_map_of_duplicate :
    (runMachine Operation.onIndex [.insert (.int 1) 7, .insert (.int 1) 8, .erase (.int 1),
      .find (.int 1)] (created .int64)).1 =
      [.ok .inserted, raise .invalidArgument (text "Duplicate index key"), .ok (.erased true),
        .ok (.record none)] := by
  have proper : IndexKeyKind.Proper .int64 := .inl rfl
  refine (refines_map proper _ ?_ (staysIn_of_le fun n hn => Nat.not_le.mpr ?_)).2.1.trans rfl
  · intro op hop
    simp only [List.mem_cons, List.not_mem_nil, or_false] at hop
    rcases hop with rfl | rfl | rfl | rfl <;> exact rfl
  · revert n
    decide +kernel

end BStarPlusIndex
end CwDb.Index
