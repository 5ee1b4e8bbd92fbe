/-
  Index/PageAccess.lean --- `serialize_node` and `deserialize_node` on the buffer they use.

  Here a page is the whole `std::vector<char>` with an offset into it, and a copy to or
  from it that is not inside it is a fault of its own.  Both functions do on the buffer
  what they do on the bytes written so far and on the bytes left to read, so no copy is
  ever outside.
-/
import CwDb.Foundation.Refinement
import CwDb.Index.Node

set_option autoImplicit false

namespace CwDb.Index

open CwDb.Cpp
open CwDb.Foundation

/-- How a computation on a buffer ends early. -/
inductive PageFault where
  | throws (fault : Fault)
  | leavesPage
  deriving DecidableEq, Repr

namespace PageFault

/-- `throw cls(what)`. -/
def raise {α : Type} (cls : ExceptionClass) (what : ByteString) : Except PageFault α :=
  .error (.throws (.throws cls what))

/-- A computation that touches no buffer. -/
def lift {α : Type} (x : Except Fault α) : Except PageFault α := x.mapError .throws

end PageFault

/-! ## Copies -/

/-- `std::memcpy(page.data() + offset, bytes, n)`. -/
def copyTo (page : List UInt8) (offset : Nat) (bytes : List UInt8) :
    Except PageFault (List UInt8) :=
  if page.length < offset + bytes.length then .error .leavesPage
  else .ok (page.take offset ++ bytes ++ page.drop (offset + bytes.length))

/-- `std::memcpy(value, page.data() + offset, n)`. -/
def copyFrom (page : List UInt8) (offset n : Nat) : Except PageFault (List UInt8) :=
  if page.length < offset + n then .error .leavesPage
  else .ok ((page.drop offset).take n)

/-- `std::find(begin, end, '\0')` with `n` bytes left to look at. -/
def findZero (page : List UInt8) : (offset n : Nat) → Except PageFault Nat
  | offset, 0 => .ok offset
  | offset, n + 1 =>
      match page[offset]? with
      | none => .error .leavesPage
      | some b => if b = 0 then .ok offset else findZero page (offset + 1) n

namespace Buffer

/-! ## Writing -/

/-- A page and the offset that `serialize_node` has reached. -/
structure Cursor where
  page : List UInt8
  offset : Nat

/-- `write_scalar`. -/
def writeScalar {α : Type} [Scalar α] (c : Cursor) (value : α) : Except PageFault Cursor :=
  if c.page.length < c.offset + Scalar.width α then
    PageFault.raise .lengthError (text "Index node does not fit into page")
  else do
    let page ← copyTo c.page c.offset (Scalar.encode value)
    pure ⟨page, c.offset + Scalar.width α⟩

/-- `write_key`. -/
def writeKey (c : Cursor) (key : IndexKey) : Except PageFault Cursor :=
  match key with
  | .int n => writeScalar c n
  | .str s => do
      PageFault.lift (validateStringKey s)
      if c.page.length < c.offset + indexStringKeySize then
        PageFault.raise .lengthError (text "Index node does not fit into page")
      else
        let buffer ← copyTo (List.replicate indexStringKeySize 0) 0 s
        let page ← copyTo c.page c.offset buffer
        pure ⟨page, c.offset + indexStringKeySize⟩

/-- The header of a node. -/
def writeNodeHeader (c : Cursor) (node : IndexNode) : Except PageFault Cursor := do
  let c ← writeScalar c indexNodeMagic
  let c ← writeScalar c indexNodeVersion
  let c ← writeScalar c (if node.isLeaf then leafNodeType else internalNodeType)
  let c ← writeScalar c (0 : UInt8)
  let c ← writeScalar c node.pageId
  let c ← writeScalar c node.nextLeafPageId
  let c ← writeScalar c (UInt32.ofNat node.keys.length)
  writeScalar c (UInt32.ofNat node.payload.length)

/-- `serialize_node`. -/
def serializeNode (node : IndexNode) (kind : IndexKeyKind) : Except PageFault (List UInt8) := do
  PageFault.lift (validateNodeShape node)
  PageFault.lift (validateNodeKeys node kind)
  let size ← PageFault.lift (serializedNodeSize node kind)
  if pageSize < size then
    PageFault.raise .lengthError (text "Index node does not fit into page")
  else
    let c ← writeNodeHeader ⟨List.replicate pageSize 0, 0⟩ node
    let c ← node.keys.foldlM writeKey c
    let c ← node.payload.foldlM writeScalar c
    pure c.page

/-! ## Reading -/

/-- `read_scalar`. -/
def readScalar (α : Type) [Scalar α] (page : List UInt8) (offset : Nat) :
    Except PageFault (α × Nat) :=
  if page.length < offset + Scalar.width α then
    PageFault.raise .runtimeError (text "Index node page is truncated")
  else do
    let bytes ← copyFrom page offset (Scalar.width α)
    pure (Scalar.decode bytes, offset + Scalar.width α)

/-- `read_key`. -/
def readKey (kind : IndexKeyKind) (page : List UInt8) (offset : Nat) :
    Except PageFault (IndexKey × Nat) :=
  if kind = .int64 then do
    let (n, offset) ← readScalar Int64 page offset
    pure (.int n, offset)
  else if kind = .string then
    if page.length < offset + indexStringKeySize then
      PageFault.raise .runtimeError (text "Index string key is truncated")
    else do
      let stop ← findZero page offset indexStringKeySize
      let value ← copyFrom page offset (stop - offset)
      pure (.str value, offset + indexStringKeySize)
  else PageFault.raise .invalidArgument (text "Unsupported index key kind")

/-- `count` values read one after the other. -/
def readMany {α : Type} (read : Nat → Except PageFault (α × Nat)) :
    (count : Nat) → Nat → Except PageFault (List α × Nat)
  | 0, offset => .ok ([], offset)
  | count + 1, offset => do
      let (a, offset) ← read offset
      let (as, offset) ← readMany read count offset
      pure (a :: as, offset)

/-- The keys and the payload of a node, the header of which has been read. -/
def readNodeBody (kind : IndexKeyKind) (nodeType : UInt8) (pageId nextLeafPageId : PageId)
    (keyCount payloadCount : UInt32) (page : List UInt8) (offset : Nat) :
    Except PageFault IndexNode := do
  let (keys, offset) ← readMany (readKey kind page) keyCount.toNat offset
  if nodeType = leafNodeType then
    if payloadCount ≠ keyCount then
      PageFault.raise .runtimeError
        (text "Leaf index node payload count does not match key count")
    else do
      let (records, _) ← readMany (readScalar UInt64 page) payloadCount.toNat offset
      pure { isLeaf := true, pageId, nextLeafPageId, keys, records }
  else
    if payloadCount ≠ keyCount + 1 then
      PageFault.raise .runtimeError
        (text "Internal index node payload count does not match child count")
    else do
      let (children, _) ← readMany (readScalar UInt64 page) payloadCount.toNat offset
      pure { isLeaf := false, pageId, nextLeafPageId, keys, children }

/-- `deserialize_node`. -/
def deserializeNode (data : List UInt8) (kind : IndexKeyKind) : Except PageFault IndexNode := do
  if data.length ≠ pageSize then
    PageFault.raise .invalidArgument (text "Index node page must have PAGE_SIZE bytes")
  else
    let (magic, offset) ← readScalar UInt32 data 0
    if magic ≠ indexNodeMagic then
      PageFault.raise .runtimeError (text "Invalid index node page magic")
    else
      let (version, offset) ← readScalar UInt16 data offset
      if version ≠ indexNodeVersion then
        PageFault.raise .runtimeError (text "Unsupported index node page version")
      else
        let (nodeType, offset) ← readScalar UInt8 data offset
        let (_, offset) ← readScalar UInt8 data offset
        if nodeType ≠ internalNodeType ∧ nodeType ≠ leafNodeType then
          PageFault.raise .runtimeError (text "Invalid index node type")
        else
          let (pageId, offset) ← readScalar PageId data offset
          let (nextLeafPageId, offset) ← readScalar PageId data offset
          let (keyCount, offset) ← readScalar UInt32 data offset
          let (payloadCount, offset) ← readScalar UInt32 data offset
          if data.length < keyCount.toNat ∨ data.length < payloadCount.toNat then
            PageFault.raise .runtimeError (text "Index node payload exceeds page size")
          else
            let node ← readNodeBody kind nodeType pageId nextLeafPageId keyCount payloadCount
              data offset
            PageFault.lift (validateNodeShape node)
            pure node

/-! ## The buffer against what is written and what is left -/

/-- The exception of the one is that of the other. -/
def SameFault (e : PageFault) (d : Fault) : Prop := e = .throws d

theorem refines_raise {α β : Type} {R : α → β → Prop} {cls : ExceptionClass} {what : ByteString} :
    Refines SameFault R (PageFault.raise cls what) (raise cls what) := Refines.error rfl

theorem refines_lift {α : Type} (x : Except Fault α) :
    Refines SameFault (fun a b => a = b) (PageFault.lift x) x := by
  cases x with
  | ok a => exact Refines.ok rfl
  | error d => exact Refines.error rfl

/-- The page holds the bytes `p` up to the offset and zeros behind it. -/
structure Written (c : Cursor) (p : PagePrefix) : Prop where
  offset : c.offset = p.length
  room : p.length ≤ pageSize
  page : c.page = p ++ List.replicate (pageSize - p.length) 0

theorem Written.length {c : Cursor} {p : PagePrefix} (h : Written c p) :
    c.page.length = pageSize := by
  have := h.room
  rw [h.page, List.length_append, List.length_replicate]
  omega

theorem Written.copyTo {c : Cursor} {p bytes : PagePrefix} (h : Written c p)
    (room : p.length + bytes.length ≤ pageSize) :
    ∃ page, copyTo c.page c.offset bytes = .ok page ∧
      Written ⟨page, c.offset + bytes.length⟩ (p ++ bytes) := by
  have hlength := h.length
  refine ⟨_, if_neg (by rw [hlength, h.offset]; omega), ?_, ?_, ?_⟩
  · rw [h.offset, List.length_append]
  · rw [List.length_append]
    exact room
  · dsimp only
    rw [h.page, h.offset, List.take_left, List.drop_append, List.drop_of_length_le (by omega),
      List.nil_append, Nat.add_sub_cancel_left, List.drop_replicate, List.length_append,
      Nat.sub_add_eq]

theorem writeScalar_refines {α : Type} [Scalar α] {c : Cursor} {p : PagePrefix}
    (h : Written c p) (value : α) :
    Refines SameFault Written (writeScalar c value) (Index.writeScalar p value) := by
  have hencode := Scalar.length_encode value
  refine refines_ite (by rw [h.length, h.offset]) (fun _ => refines_raise) fun hroom => ?_
  have hfits : p.length + (Scalar.encode value).length ≤ pageSize := by omega
  obtain ⟨page, hcopy, hpage⟩ := h.copyTo hfits
  rw [hencode] at hpage
  rw [hcopy]
  exact refines_pure hpage

theorem writeKey_refines {c : Cursor} {p : PagePrefix} (h : Written c p) (key : IndexKey) :
    Refines SameFault Written (writeKey c key) (Index.writeKey p key) := by
  cases key with
  | int n => exact writeScalar_refines h n
  | str s =>
      unfold writeKey Index.writeKey
      dsimp only
      cases hvalid : validateStringKey s with
      | error d => exact Refines.error rfl
      | ok u =>
          have hlength : s.length ≤ indexStringKeySize := by
            unfold validateStringKey at hvalid
            split at hvalid
            · cases hvalid
            · next hle => exact Nat.not_lt.mp hle
          have hbuffer : copyTo (List.replicate indexStringKeySize 0) 0 s =
              .ok (stringKeyBytes s) := by
            unfold copyTo stringKeyBytes
            rw [if_neg (by simpa using hlength)]
            simp
          refine refines_ite (by rw [h.length, h.offset]) (fun _ => refines_raise) fun hroom => ?_
          have hbytes : (stringKeyBytes s).length = indexStringKeySize := by
            unfold stringKeyBytes
            rw [List.length_append, List.length_replicate]
            omega
          have hfits : p.length + (stringKeyBytes s).length ≤ pageSize := by
            rw [hbytes]
            exact Nat.not_lt.mp hroom
          obtain ⟨page, hcopy, hpage⟩ := h.copyTo hfits
          rw [hbytes] at hpage
          rw [hbuffer]
          change Refines SameFault Written (copyTo c.page c.offset (stringKeyBytes s) >>= fun page =>
            pure ⟨page, c.offset + indexStringKeySize⟩) _
          rw [hcopy]
          exact refines_pure hpage

theorem writeNodeHeader_refines {c : Cursor} (h : Written c []) (node : IndexNode) :
    Refines SameFault Written (writeNodeHeader c node) (Index.writeNodeHeader node) := by
  unfold writeNodeHeader Index.writeNodeHeader
  iterate 7
    refine refines_bind (writeScalar_refines (by assumption) _) fun _ _ _ => ?_
  exact writeScalar_refines (by assumption) _

/-- `serialize_node` does on the buffer what it does on the bytes written so far. -/
theorem serializeNode_refines (node : IndexNode) (kind : IndexKeyKind) :
    Refines SameFault (fun page page' => page = page') (serializeNode node kind)
      (Index.serializeNode node kind) := by
  unfold serializeNode Index.serializeNode
  refine refines_bind (refines_lift _) fun _ _ _ => ?_
  refine refines_bind (refines_lift _) fun _ _ _ => ?_
  refine refines_bind (refines_lift _) fun size size' hsize => ?_
  refine refines_ite (by rw [hsize]) (fun _ => refines_raise) fun _ => ?_
  have hstart : Written ⟨List.replicate pageSize 0, 0⟩ [] := ⟨rfl, Nat.zero_le _, by simp⟩
  refine refines_bind (writeNodeHeader_refines hstart node) fun c p h => ?_
  refine refines_bind (refines_foldlM (fun key _ c p h => writeKey_refines h key) h) fun c p h => ?_
  refine refines_bind (refines_foldlM (fun value _ c p h => writeScalar_refines h value) h)
    fun c p h => ?_
  exact refines_pure h.page

/-- The same value is read; one side keeps the offset, the other what is left of the page. -/
inductive Reads {α : Type} (data : List UInt8) : α × Nat → α × PageSuffix → Prop where
  | mk (a : α) (offset : Nat) (inside : offset ≤ data.length) :
      Reads data (a, offset) (a, data.drop offset)

section Reading

variable {data : List UInt8} {offset : Nat}

theorem readScalar_refines (α : Type) [Scalar α] (inside : offset ≤ data.length) :
    Refines SameFault (Reads data) (readScalar α data offset)
      (Index.readScalar α (data.drop offset)) := by
  have hleft : (data.drop offset).length = data.length - offset := List.length_drop
  refine refines_ite (by omega) (fun _ => refines_raise) fun hroom => ?_
  have hcopy : copyFrom data offset (Scalar.width α) =
      .ok ((data.drop offset).take (Scalar.width α)) := if_neg (by omega)
  rw [hcopy, List.drop_drop]
  exact refines_pure (.mk _ _ (by omega))

/-- Looking for a zero inside the page ends inside. -/
theorem findZero_eq {n : Nat} (inside : offset + n ≤ data.length) :
    findZero data offset n =
      .ok (offset + (((data.drop offset).take n).takeWhile fun b => b != 0).length) := by
  induction n generalizing offset with
  | zero => rfl
  | succ n ih =>
      have hlt : offset < data.length := by omega
      rw [List.drop_eq_getElem_cons hlt, List.take_succ_cons, findZero,
        List.getElem?_eq_getElem hlt]
      dsimp only
      by_cases hzero : data[offset] = 0
      · rw [if_pos hzero, List.takeWhile_cons_of_neg (by simp [hzero])]
        rfl
      · rw [if_neg hzero, List.takeWhile_cons_of_pos (by simp [hzero]), ih (by omega),
          List.length_cons]
        congr 1
        omega

theorem readKey_refines (kind : IndexKeyKind) (inside : offset ≤ data.length) :
    Refines SameFault (Reads data) (readKey kind data offset)
      (Index.readKey kind (data.drop offset)) := by
  refine refines_ite Iff.rfl (fun _ => ?_) fun _ => ?_
  · refine refines_bind (readScalar_refines Int64 inside) ?_
    rintro _ _ ⟨n, offset, inside⟩
    exact refines_pure (.mk _ _ inside)
  refine refines_ite Iff.rfl (fun _ => ?_) fun _ => refines_raise
  have hleft : (data.drop offset).length = data.length - offset := List.length_drop
  refine refines_ite (by omega) (fun _ => refines_raise) fun hroom => ?_
  have hfits : offset + indexStringKeySize ≤ data.length := by omega
  have hbegin : (((data.drop offset).take indexStringKeySize).takeWhile fun b => b != 0) <+:
      data.drop offset := (List.takeWhile_prefix _).trans (List.take_prefix _ _)
  have hlength : (((data.drop offset).take indexStringKeySize).takeWhile
      fun b => b != 0).length ≤ data.length - offset := hleft ▸ hbegin.length_le
  have hcopy : copyFrom data offset (offset + (((data.drop offset).take
      indexStringKeySize).takeWhile fun b => b != 0).length - offset) =
      .ok (((data.drop offset).take indexStringKeySize).takeWhile fun b => b != 0) := by
    rw [Nat.add_sub_cancel_left, copyFrom, if_neg (by omega), ← List.prefix_iff_eq_take.mp hbegin]
  rw [findZero_eq hfits]
  change Refines SameFault (Reads data) (copyFrom data offset (offset + (((data.drop offset).take
    indexStringKeySize).takeWhile fun b => b != 0).length - offset) >>= fun value =>
      pure (IndexKey.str value, offset + indexStringKeySize)) _
  rw [hcopy, List.drop_drop]
  exact refines_pure (.mk _ _ hfits)

theorem readMany_refines {α : Type} {read : Nat → Except PageFault (α × Nat)}
    {read' : PageSuffix → Except Fault (α × PageSuffix)}
    (step : ∀ offset, offset ≤ data.length →
      Refines SameFault (Reads data) (read offset) (read' (data.drop offset)))
    (count : Nat) (inside : offset ≤ data.length) :
    Refines SameFault (Reads data) (readMany read count offset)
      (Index.readMany read' count (data.drop offset)) := by
  induction count generalizing offset with
  | zero => exact refines_pure (.mk _ _ inside)
  | succ count ih =>
      refine refines_bind (step offset inside) ?_
      rintro _ _ ⟨a, offset, inside⟩
      refine refines_bind (ih inside) ?_
      rintro _ _ ⟨as, offset, inside⟩
      exact refines_pure (.mk _ _ inside)

theorem readNodeBody_refines (kind : IndexKeyKind) (nodeType : UInt8)
    (pageId nextLeafPageId : PageId) (keyCount payloadCount : UInt32)
    (inside : offset ≤ data.length) :
    Refines SameFault (fun node node' => node = node')
      (readNodeBody kind nodeType pageId nextLeafPageId keyCount payloadCount data offset)
      (Index.readNodeBody kind nodeType pageId nextLeafPageId keyCount payloadCount
        (data.drop offset)) := by
  refine refines_bind (readMany_refines (fun _ => readKey_refines kind) _ inside) ?_
  rintro _ _ ⟨keys, offset, inside⟩
  have hpayload := readMany_refines (fun {_} => readScalar_refines UInt64) payloadCount.toNat inside
  refine refines_ite Iff.rfl (fun _ => ?_) fun _ => ?_
  · refine refines_ite Iff.rfl (fun _ => refines_raise) fun _ => refines_bind hpayload ?_
    rintro _ _ ⟨records, offset, -⟩
    exact refines_pure rfl
  · refine refines_ite Iff.rfl (fun _ => refines_raise) fun _ => refines_bind hpayload ?_
    rintro _ _ ⟨children, offset, -⟩
    exact refines_pure rfl

/-- `deserialize_node` does on the buffer what it does on the bytes left to read. -/
theorem deserializeNode_refines (data : List UInt8) (kind : IndexKeyKind) :
    Refines SameFault (fun node node' => node = node') (deserializeNode data kind)
      (Index.deserializeNode data kind) := by
  refine refines_ite Iff.rfl (fun _ => refines_raise) fun _ => ?_
  refine refines_bind (readScalar_refines UInt32 (Nat.zero_le _)) ?_
  rintro _ _ ⟨magic, offset, inside⟩
  refine refines_ite Iff.rfl (fun _ => refines_raise) fun _ => ?_
  refine refines_bind (readScalar_refines UInt16 inside) ?_
  rintro _ _ ⟨version, offset, inside⟩
  refine refines_ite Iff.rfl (fun _ => refines_raise) fun _ => ?_
  refine refines_bind (readScalar_refines UInt8 inside) ?_
  rintro _ _ ⟨nodeType, offset, inside⟩
  refine refines_bind (readScalar_refines UInt8 inside) ?_
  rintro _ _ ⟨reserved, offset, inside⟩
  refine refines_ite Iff.rfl (fun _ => refines_raise) fun _ => ?_
  refine refines_bind (readScalar_refines PageId inside) ?_
  rintro _ _ ⟨pageId, offset, inside⟩
  refine refines_bind (readScalar_refines PageId inside) ?_
  rintro _ _ ⟨nextLeafPageId, offset, inside⟩
  refine refines_bind (readScalar_refines UInt32 inside) ?_
  rintro _ _ ⟨keyCount, offset, inside⟩
  refine refines_bind (readScalar_refines UInt32 inside) ?_
  rintro _ _ ⟨payloadCount, offset, inside⟩
  refine refines_ite Iff.rfl (fun _ => refines_raise) fun _ => ?_
  refine refines_bind (readNodeBody_refines kind _ _ _ _ _ inside) ?_
  rintro node _ rfl
  exact refines_bind (refines_lift _) fun _ _ _ => refines_pure rfl

end Reading

/-! ## The round trip -/

/-- A node that `serialize_node` writes into a page is read back from it, and neither function
touches a byte outside the page, whatever it is given. -/
theorem node_page_round_trip (node : IndexNode) (kind : IndexKeyKind) :
    (∀ page, serializeNode node kind = .ok page →
      page.length = pageSize ∧ deserializeNode page kind = .ok node) ∧
    serializeNode node kind ≠ .error .leavesPage ∧
    ∀ data, deserializeNode data kind ≠ .error .leavesPage := by
  have hwrite := serializeNode_refines node kind
  refine ⟨fun page hpage => ?_, fun hleaves => ?_, fun data hleaves => ?_⟩
  · obtain ⟨page', hpage', rfl⟩ := hwrite.of_ok hpage
    have hstorable := storable_of_serializeNode hpage'
    obtain rfl := Except.ok.inj ((serializeNode_eq hstorable).symm.trans hpage')
    refine ⟨hstorable.page.length, ?_⟩
    have hread := deserializeNode_refines hstorable.page.bytes kind
    rw [deserializeNode_eq hstorable] at hread
    cases hnode : deserializeNode hstorable.page.bytes kind with
    | error e =>
        rw [hnode] at hread
        cases hread
    | ok node' =>
        rw [hnode] at hread
        cases hread with
        | ok same => rw [same]
  · obtain ⟨d, -, hsame⟩ := hwrite.of_error hleaves
    cases hsame
  · obtain ⟨d, -, hsame⟩ := (deserializeNode_refines data kind).of_error hleaves
    cases hsame

section Instances

private def emptyAndFullKeys : IndexNode where
  pageId := 3
  nextLeafPageId := 4
  keys := [.str [], .str (List.replicate 256 97)]
  records := [1, UInt64.ofNat (2 ^ 64 - 1)]

/-- A leaf with a key of no bytes and one of 256. -/
theorem node_page_round_trip_of_strings : ∃ page,
    serializeNode emptyAndFullKeys .string = .ok page ∧
      deserializeNode page .string = .ok emptyAndFullKeys := by
  have hstorable : emptyAndFullKeys.Storable .string :=
    ⟨⟨fun _ => by decide, nofun⟩, by decide +kernel, by decide +kernel⟩
  cases hpage : serializeNode emptyAndFullKeys .string with
  | error e =>
      have hwrite := serializeNode_refines emptyAndFullKeys .string
      rw [hpage, serializeNode_eq hstorable] at hwrite
      cases hwrite
  | ok page => exact ⟨page, rfl, ((node_page_round_trip emptyAndFullKeys .string).1 page hpage).2⟩

end Instances
end Buffer
end CwDb.Index
