/-
  Index/Node.lean --- nodes of the index and the pages they are stored in.

  A storable node is written to a page from which it is read back.
-/
import CwDb.Index.DiskManager

set_option autoImplicit false

namespace CwDb.Index

open CwDb.Cpp
open CwDb.Foundation

/-- `struct IndexNode`. -/
structure IndexNode where
  isLeaf : Bool := true
  pageId : PageId := invalidPageId
  nextLeafPageId : PageId := invalidPageId
  keys : List IndexKey := []
  children : List PageId := []
  records : List UInt64 := []
  deriving DecidableEq, Repr, Inhabited

def indexNodeMagic : UInt32 := 0x31495042
def indexNodeVersion : UInt16 := 1
def internalNodeType : UInt8 := 0
def leafNodeType : UInt8 := 1
def indexNodeHeaderSize : Nat := 32

/-- `sizeof(PageId) + sizeof(SlotId)`: what a record is taken to need. -/
def recordSize : Nat := Scalar.width UInt64 + Scalar.width UInt16

/-! ## Counts of keys -/

/-- `max_leaf_key_count`. -/
def maxLeafKeyCount (kind : IndexKeyKind) : Nat :=
  (pageSize - indexNodeHeaderSize) / (fixedKeySize kind + recordSize)

/-- `max_internal_key_count`. -/
def maxInternalKeyCount (kind : IndexKeyKind) : Nat :=
  (pageSize - indexNodeHeaderSize - Scalar.width PageId) / (fixedKeySize kind + Scalar.width PageId)

/-- `min_leaf_key_count`. -/
def minLeafKeyCount (kind : IndexKeyKind) : Nat := max 1 ((2 * maxLeafKeyCount kind + 2) / 3)

/-- `min_internal_key_count`. -/
def minInternalKeyCount (kind : IndexKeyKind) : Nat :=
  max 1 ((2 * maxInternalKeyCount kind + 2) / 3)

/-! ## Serialization -/

/-- `validate_node_shape`. -/
def validateNodeShape (node : IndexNode) : Except Fault Unit :=
  if 2 ^ 32 - 1 < node.keys.length then
    raise .lengthError (text "Index node has too many keys")
  else if node.isLeaf then
    if !node.children.isEmpty then
      raise .invalidArgument (text "Leaf index node cannot have child pages")
    else if node.records.length ≠ node.keys.length then
      raise .invalidArgument (text "Leaf index node must have one record per key")
    else .ok ()
  else if !node.records.isEmpty then
    raise .invalidArgument (text "Internal index node cannot have records")
  else if node.children.length ≠ node.keys.length + 1 then
    raise .invalidArgument (text "Internal index node must have keys.size() + 1 children")
  else .ok ()

/-- `validate_node_keys`. -/
def validateNodeKeys (node : IndexNode) (kind : IndexKeyKind) : Except Fault Unit :=
  node.keys.forM fun key => validateKeyKind key kind

/-- The records of a leaf, the children of an internal node. -/
def IndexNode.payload (node : IndexNode) : List UInt64 :=
  if node.isLeaf then node.records else node.children

/-- `serialized_node_size`. -/
def serializedNodeSize (node : IndexNode) (kind : IndexKeyKind) : Except Fault Nat := do
  if 2 ^ 32 - 1 < node.payload.length then
    raise .lengthError (text "Index node payload is too large")
  else
    let size ← node.keys.foldlM (fun size key => do
      validateKeyKind key kind
      let keySize ← serializedKeySize key
      pure (size + keySize)) indexNodeHeaderSize
    if node.isLeaf then pure (size + node.records.length * recordSize)
    else pure (size + node.children.length * Scalar.width PageId)

/-- The header of a node. -/
def writeNodeHeader (node : IndexNode) : Except Fault PagePrefix := do
  let page ← writeScalar [] indexNodeMagic
  let page ← writeScalar page indexNodeVersion
  let page ← writeScalar page (if node.isLeaf then leafNodeType else internalNodeType)
  let page ← writeScalar page (0 : UInt8)
  let page ← writeScalar page node.pageId
  let page ← writeScalar page node.nextLeafPageId
  let page ← writeScalar page (UInt32.ofNat node.keys.length)
  writeScalar page (UInt32.ofNat node.payload.length)

/-- `serialize_node`. -/
def serializeNode (node : IndexNode) (kind : IndexKeyKind) : Except Fault (List UInt8) := do
  validateNodeShape node
  validateNodeKeys node kind
  let size ← serializedNodeSize node kind
  if pageSize < size then raise .lengthError (text "Index node does not fit into page")
  else
    let page ← writeNodeHeader node
    let page ← node.keys.foldlM writeKey page
    let page ← node.payload.foldlM writeScalar page
    pure (page ++ List.replicate (pageSize - page.length) 0)

/-- `count` values read one after the other. -/
def readMany {α : Type} (read : PageSuffix → Except Fault (α × PageSuffix)) :
    (count : Nat) → PageSuffix → Except Fault (List α × PageSuffix)
  | 0, page => .ok ([], page)
  | count + 1, page => do
      let (a, page) ← read page
      let (as, page) ← readMany read count page
      pure (a :: as, page)

/-- The keys and the payload of a node, the header of which has been read. -/
def readNodeBody (kind : IndexKeyKind) (nodeType : UInt8) (pageId nextLeafPageId : PageId)
    (keyCount payloadCount : UInt32) (page : PageSuffix) : Except Fault IndexNode := do
  let (keys, page) ← readMany (readKey kind) keyCount.toNat page
  if nodeType = leafNodeType then
    if payloadCount ≠ keyCount then
      raise .runtimeError (text "Leaf index node payload count does not match key count")
    else do
      let (records, _) ← readMany (readScalar UInt64) payloadCount.toNat page
      pure { isLeaf := true, pageId, nextLeafPageId, keys, records }
  else
    if payloadCount ≠ keyCount + 1 then
      raise .runtimeError (text "Internal index node payload count does not match child count")
    else do
      let (children, _) ← readMany (readScalar UInt64) payloadCount.toNat page
      pure { isLeaf := false, pageId, nextLeafPageId, keys, children }

/-- `deserialize_node`. -/
def deserializeNode (data : List UInt8) (kind : IndexKeyKind) : Except Fault IndexNode := do
  if data.length ≠ pageSize then
    raise .invalidArgument (text "Index node page must have PAGE_SIZE bytes")
  else
    let (magic, page) ← readScalar UInt32 data
    if magic ≠ indexNodeMagic then raise .runtimeError (text "Invalid index node page magic")
    else
      let (version, page) ← readScalar UInt16 page
      if version ≠ indexNodeVersion then
        raise .runtimeError (text "Unsupported index node page version")
      else
        let (nodeType, page) ← readScalar UInt8 page
        let (_, page) ← readScalar UInt8 page
        if nodeType ≠ internalNodeType ∧ nodeType ≠ leafNodeType then
          raise .runtimeError (text "Invalid index node type")
        else
          let (pageId, page) ← readScalar PageId page
          let (nextLeafPageId, page) ← readScalar PageId page
          let (keyCount, page) ← readScalar UInt32 page
          let (payloadCount, page) ← readScalar UInt32 page
          if data.length < keyCount.toNat ∨ data.length < payloadCount.toNat then
            raise .runtimeError (text "Index node payload exceeds page size")
          else
            let node ← readNodeBody kind nodeType pageId nextLeafPageId keyCount payloadCount page
            validateNodeShape node
            pure node

/-! ## Storable nodes -/

namespace IndexNode

/-- What `serialized_node_size` returns for a node with admissible keys. -/
def size (kind : IndexKeyKind) (node : IndexNode) : Nat :=
  indexNodeHeaderSize + node.keys.length * fixedKeySize kind +
    if node.isLeaf then node.records.length * recordSize
    else node.children.length * Scalar.width PageId

/-- One record per key in a leaf, one child more than keys in an internal node. -/
structure Shaped (node : IndexNode) : Prop where
  leaf : node.isLeaf = true → node.children = [] ∧ node.records.length = node.keys.length
  internal : node.isLeaf = false →
    node.records = [] ∧ node.children.length = node.keys.length + 1

/-- The node has the right shape, its keys can be stored, and it fits into a page. -/
structure Storable (kind : IndexKeyKind) (node : IndexNode) : Prop where
  shaped : node.Shaped
  admissible : ∀ key ∈ node.keys, Admissible kind key
  fits : node.size kind ≤ pageSize

/-- The bytes of the header. -/
def headerBytes (node : IndexNode) : List UInt8 :=
  Scalar.encode indexNodeMagic ++ (Scalar.encode indexNodeVersion ++
    (Scalar.encode (if node.isLeaf then leafNodeType else internalNodeType) ++
      (Scalar.encode (0 : UInt8) ++ (Scalar.encode node.pageId ++
        (Scalar.encode node.nextLeafPageId ++
          (Scalar.encode (UInt32.ofNat node.keys.length) ++
            Scalar.encode (UInt32.ofNat node.payload.length)))))))

/-- The bytes of the node before the padding. -/
def bytes (node : IndexNode) : List UInt8 :=
  node.headerBytes ++ (node.keys.flatMap keyBytes ++ node.payload.flatMap Scalar.encode)

end IndexNode

theorem length_flatMap_const {α : Type} {f : α → List UInt8} {n : Nat} : ∀ {l : List α},
    (∀ a ∈ l, (f a).length = n) → (l.flatMap f).length = l.length * n
  | [], _ => by simp
  | a :: l, h => by
      have ih := length_flatMap_const fun b hb => h b (List.mem_cons_of_mem a hb)
      rw [List.flatMap_cons, List.length_append, ih, h a List.mem_cons_self, List.length_cons,
        Nat.succ_mul, Nat.add_comm]

theorem length_headerBytes (node : IndexNode) : node.headerBytes.length = indexNodeHeaderSize := by
  simp [IndexNode.headerBytes, Scalar.width, indexNodeHeaderSize]

theorem IndexNode.Shaped.payload_length {node : IndexNode} (h : node.Shaped) :
    node.payload.length = if node.isLeaf then node.keys.length else node.keys.length + 1 := by
  unfold IndexNode.payload
  cases hleaf : node.isLeaf with
  | true => simpa using (h.leaf hleaf).2
  | false => simpa using (h.internal hleaf).2

namespace IndexNode.Storable

variable {kind : IndexKeyKind} {node : IndexNode}

theorem length_bytes_le (h : node.Storable kind) : node.bytes.length ≤ pageSize := by
  have hfits := h.fits
  have hkeys : (node.keys.flatMap keyBytes).length = node.keys.length * fixedKeySize kind :=
    length_flatMap_const fun key hkey => length_keyBytes (h.admissible key hkey)
  have hpayload : (node.payload.flatMap Scalar.encode).length = node.payload.length * 8 :=
    length_flatMap_const fun a _ => Scalar.length_encode a
  rw [IndexNode.bytes, List.length_append, List.length_append, length_headerBytes, hkeys, hpayload]
  unfold IndexNode.size at hfits
  unfold IndexNode.payload
  have hwidth : Scalar.width PageId = 8 := rfl
  have hrecord : recordSize = 10 := rfl
  cases hleaf : node.isLeaf <;> simp [hleaf, hwidth, hrecord] at hfits ⊢ <;> omega

theorem counts (h : node.Storable kind) :
    node.keys.length < pageSize ∧ node.payload.length < pageSize := by
  have hfits := h.fits
  have hsize : 8 ≤ fixedKeySize kind := by
    unfold fixedKeySize
    split <;> decide
  have hmul : node.keys.length * 8 ≤ node.keys.length * fixedKeySize kind :=
    Nat.mul_le_mul_left _ hsize
  have hpayload := h.shaped.payload_length
  unfold IndexNode.size at hfits
  simp only [indexNodeHeaderSize, pageSize] at hfits ⊢
  split at hpayload <;> omega

/-- The page of the node. -/
def page (h : node.Storable kind) : Page :=
  ⟨node.bytes ++ List.replicate (pageSize - node.bytes.length) 0, by
    rw [List.length_append, List.length_replicate]
    exact Nat.add_sub_cancel' h.length_bytes_le⟩

end IndexNode.Storable

/-! ## Writing a node -/

theorem validateNodeShape_eq {node : IndexNode} (h : node.Shaped)
    (few : node.keys.length < pageSize) : validateNodeShape node = .ok () := by
  unfold validateNodeShape
  rw [if_neg (by simp only [pageSize] at few; omega)]
  cases hleaf : node.isLeaf with
  | true => simp [h.leaf hleaf]
  | false => simp [h.internal hleaf]

theorem forM_validateKeyKind {kind : IndexKeyKind} : ∀ {keys : List IndexKey},
    (∀ key ∈ keys, keyMatchesKind key kind = true) →
      keys.forM (fun key => validateKeyKind key kind) = .ok ()
  | [], _ => rfl
  | key :: keys, h => by
      have ih := forM_validateKeyKind fun k hk => h k (List.mem_cons_of_mem key hk)
      change (validateKeyKind key kind >>= fun _ => keys.forM _) = _
      rw [validateKeyKind, if_pos (h key List.mem_cons_self)]
      exact ih

/-- The loop of `serialized_node_size` over admissible keys. -/
theorem foldlM_keySize {kind : IndexKeyKind} : ∀ {keys : List IndexKey} (size : Nat),
    (∀ key ∈ keys, Admissible kind key) →
      keys.foldlM (fun size key => do
        validateKeyKind key kind
        let keySize ← serializedKeySize key
        pure (size + keySize)) size =
      (.ok (size + keys.length * fixedKeySize kind) : Except Fault Nat)
  | [], size, _ => by simp [pure, Except.pure]
  | key :: keys, size, h => by
      have hkey := h key List.mem_cons_self
      have ih := foldlM_keySize (size + fixedKeySize kind)
        fun k hk => h k (List.mem_cons_of_mem key hk)
      rw [List.foldlM_cons, validateKeyKind, if_pos hkey.matches, hkey.serializedKeySize]
      change List.foldlM _ (size + fixedKeySize kind) keys = _
      rw [ih, List.length_cons, Nat.succ_mul]
      congr 1
      omega

theorem admissible_of_checks {kind : IndexKeyKind} {key : IndexKey} {n : Nat}
    (kinds : validateKeyKind key kind = .ok ()) (sized : serializedKeySize key = .ok n) :
    Admissible kind key := by
  unfold validateKeyKind at kinds
  split at kinds
  · next hmatch =>
      cases key with
      | int m => simpa [keyMatchesKind, Admissible] using hmatch
      | str s =>
          unfold serializedKeySize validateStringKey at sized
          dsimp only at sized
          split at sized
          · cases sized
          next hlength =>
          split at sized
          · cases sized
          next hzero =>
          exact ⟨by simpa [keyMatchesKind] using hmatch, Nat.not_lt.mp hlength, hzero⟩
  · cases kinds

/-- The loop returns on admissible keys only. -/
theorem admissible_of_foldlM_keySize {kind : IndexKeyKind} : ∀ {keys : List IndexKey}
    {size total : Nat}, keys.foldlM (fun size key => do
        validateKeyKind key kind
        let keySize ← serializedKeySize key
        pure (size + keySize)) size = (.ok total : Except Fault Nat) →
      (∀ key ∈ keys, Admissible kind key) ∧ total = size + keys.length * fixedKeySize kind
  | [], size, total, h => by
      obtain rfl : size = total := Except.ok.inj h
      simp
  | key :: keys, size, total, h => by
      rw [List.foldlM_cons] at h
      cases hkind : validateKeyKind key kind with
      | error e => simp [hkind, bind, Except.bind] at h
      | ok u =>
          cases hsize : serializedKeySize key with
          | error e => simp [hkind, hsize, bind, Except.bind] at h
          | ok n =>
              have hkey := admissible_of_checks hkind hsize
              obtain rfl := Except.ok.inj (hkey.serializedKeySize.symm.trans hsize)
              rw [hkind, hsize] at h
              obtain ⟨hkeys, htotal⟩ := admissible_of_foldlM_keySize h
              refine ⟨List.forall_mem_cons.mpr ⟨hkey, hkeys⟩, ?_⟩
              rw [htotal, List.length_cons, Nat.succ_mul]
              omega

theorem admissible_of_serializedNodeSize {kind : IndexKeyKind} {node : IndexNode} {size : Nat}
    (h : serializedNodeSize node kind = .ok size) :
    (∀ key ∈ node.keys, Admissible kind key) ∧ size = node.size kind := by
  unfold serializedNodeSize at h
  split at h
  · cases h
  cases hkeys : node.keys.foldlM (fun size key => do
      validateKeyKind key kind
      let keySize ← serializedKeySize key
      pure (size + keySize)) indexNodeHeaderSize with
  | error e =>
      rw [hkeys] at h
      cases h
  | ok keysSize =>
      obtain ⟨hadmissible, rfl⟩ := admissible_of_foldlM_keySize hkeys
      refine ⟨hadmissible, ?_⟩
      rw [hkeys] at h
      unfold IndexNode.size
      cases hleaf : node.isLeaf with
      | true =>
          rw [hleaf] at h
          exact (Except.ok.inj h).symm
      | false =>
          rw [hleaf] at h
          exact (Except.ok.inj h).symm

theorem shaped_of_validateNodeShape {node : IndexNode} (h : validateNodeShape node = .ok ()) :
    node.Shaped := by
  unfold validateNodeShape at h
  split at h
  · cases h
  split at h
  · next hleaf =>
      split at h
      · cases h
      next hchildren =>
      split at h
      · cases h
      next hrecords =>
      refine ⟨fun _ => ⟨by simpa using hchildren, not_not.mp hrecords⟩, fun hinternal => ?_⟩
      rw [hleaf] at hinternal
      cases hinternal
  · next hinternal =>
      split at h
      · cases h
      next hrecords =>
      split at h
      · cases h
      next hchildren =>
      exact ⟨fun hleaf => absurd hleaf hinternal,
        fun _ => ⟨by simpa using hrecords, not_not.mp hchildren⟩⟩

theorem serializedNodeSize_eq {kind : IndexKeyKind} {node : IndexNode}
    (admissible : ∀ key ∈ node.keys, Admissible kind key)
    (few : node.payload.length < pageSize) :
    serializedNodeSize node kind = .ok (node.size kind) := by
  unfold serializedNodeSize
  rw [if_neg (by simp only [pageSize] at few; omega), foldlM_keySize _ admissible]
  unfold IndexNode.size
  cases node.isLeaf <;> rfl

theorem writeNodeHeader_eq (node : IndexNode) : writeNodeHeader node = .ok node.headerBytes := by
  unfold writeNodeHeader IndexNode.headerBytes
  simp [writeScalar, Scalar.width, pageSize, bind, Except.bind]

theorem foldlM_writeKey {kind : IndexKeyKind} : ∀ {keys : List IndexKey} {p : PagePrefix},
    (∀ key ∈ keys, Admissible kind key) →
      p.length + (keys.flatMap keyBytes).length ≤ pageSize →
      keys.foldlM writeKey p = .ok (p ++ keys.flatMap keyBytes)
  | [], page, _, _ => by simp [pure, Except.pure]
  | key :: keys, page, h, room => by
      have hkey := h key List.mem_cons_self
      rw [List.flatMap_cons, List.length_append] at room
      have hlength := length_keyBytes hkey
      have ih := foldlM_writeKey (p := page ++ keyBytes key)
        (fun k hk => h k (List.mem_cons_of_mem key hk)) (by rw [List.length_append]; omega)
      rw [List.foldlM_cons, writeKey_eq hkey (by omega)]
      change List.foldlM writeKey _ keys = _
      rw [ih, List.flatMap_cons, List.append_assoc]

theorem foldlM_writeScalar {α : Type} [Scalar α] : ∀ {l : List α} {p : PagePrefix},
    p.length + (l.flatMap Scalar.encode).length ≤ pageSize →
      l.foldlM writeScalar p = .ok (p ++ l.flatMap Scalar.encode)
  | [], page, _ => by simp [pure, Except.pure]
  | value :: values, page, room => by
      rw [List.flatMap_cons, List.length_append] at room
      have hlength := Scalar.length_encode value
      have ih := foldlM_writeScalar (l := values) (p := page ++ Scalar.encode value)
        (by rw [List.length_append]; omega)
      rw [List.foldlM_cons, writeScalar_eq value (by omega)]
      change List.foldlM writeScalar _ values = _
      rw [ih, List.flatMap_cons, List.append_assoc]

theorem serializeNode_eq {kind : IndexKeyKind} {node : IndexNode} (h : node.Storable kind) :
    serializeNode node kind = .ok h.page.bytes := by
  have hbytes := h.length_bytes_le
  have hbytes' := hbytes
  rw [IndexNode.bytes, List.length_append, List.length_append] at hbytes'
  have hkeys := foldlM_writeKey (p := node.headerBytes) h.admissible (by omega)
  have hpayload := foldlM_writeScalar (l := node.payload)
    (p := node.headerBytes ++ node.keys.flatMap keyBytes)
    (by rw [List.length_append]; omega)
  unfold serializeNode
  rw [validateNodeShape_eq h.shaped h.counts.1, validateNodeKeys,
    forM_validateKeyKind fun key hkey => (h.admissible key hkey).matches,
    serializedNodeSize_eq h.admissible h.counts.2]
  simp only [bind, Except.bind, if_neg (Nat.not_lt.mpr h.fits), writeNodeHeader_eq]
  change (do
    let page ← node.keys.foldlM writeKey node.headerBytes
    let page ← node.payload.foldlM writeScalar page
    pure (page ++ List.replicate (pageSize - page.length) 0) : Except Fault (List UInt8)) = _
  rw [hkeys]
  change (do
    let page ← node.payload.foldlM writeScalar (node.headerBytes ++ node.keys.flatMap keyBytes)
    pure (page ++ List.replicate (pageSize - page.length) 0) : Except Fault (List UInt8)) = _
  rw [hpayload]
  change Except.ok _ = Except.ok _
  rw [IndexNode.Storable.page]
  simp only [IndexNode.bytes, List.append_assoc]

/-- A node with admissible keys that is too large is refused as such. -/
theorem serializeNode_of_large {kind : IndexKeyKind} {node : IndexNode} (h : node.Shaped)
    (admissible : ∀ key ∈ node.keys, Admissible kind key) (few : node.keys.length < pageSize - 1)
    (large : pageSize < node.size kind) :
    serializeNode node kind =
      raise .lengthError (text "Index node does not fit into page") := by
  have hpayload : node.payload.length < pageSize := by
    rw [h.payload_length]
    simp only [pageSize] at few ⊢
    split <;> omega
  unfold serializeNode
  rw [validateNodeShape_eq h (by omega), validateNodeKeys,
    forM_validateKeyKind fun key hkey => (admissible key hkey).matches,
    serializedNodeSize_eq admissible hpayload]
  simp only [bind, Except.bind, if_pos large]

/-- A node that has been written was storable. -/
theorem storable_of_serializeNode {kind : IndexKeyKind} {node : IndexNode} {page : List UInt8}
    (written : serializeNode node kind = .ok page) : node.Storable kind := by
  unfold serializeNode at written
  cases hshape : validateNodeShape node with
  | error e => simp [hshape, bind, Except.bind] at written
  | ok u =>
  cases hkinds : validateNodeKeys node kind with
  | error e => simp [hshape, hkinds, bind, Except.bind] at written
  | ok u' =>
  cases hsize : serializedNodeSize node kind with
  | error e => simp [hshape, hkinds, hsize, bind, Except.bind] at written
  | ok size =>
  rw [hshape, hkinds, hsize] at written
  simp only [bind, Except.bind] at written
  split at written
  · cases written
  next hfits =>
  obtain ⟨hadmissible, rfl⟩ := admissible_of_serializedNodeSize hsize
  exact ⟨shaped_of_validateNodeShape hshape, hadmissible, Nat.not_lt.mp hfits⟩

/-! ## Reading a node -/

theorem readMany_append {α : Type} {read : PageSuffix → Except Fault (α × PageSuffix)}
    {enc : α → List UInt8} {r : List UInt8} : ∀ {l : List α},
    (∀ a ∈ l, ∀ r, read (enc a ++ r) = .ok (a, r)) →
      readMany read l.length (l.flatMap enc ++ r) = .ok (l, r)
  | [], _ => rfl
  | a :: values, h => by
      have ih := readMany_append (r := r) fun b hb => h b (List.mem_cons_of_mem a hb)
      rw [List.length_cons, readMany, List.flatMap_cons, List.append_assoc,
        h a List.mem_cons_self]
      simp only [bind, Except.bind, ih, pure, Except.pure]

theorem readNodeBody_eq {kind : IndexKeyKind} {node : IndexNode} (h : node.Storable kind)
    (rest : List UInt8) :
    readNodeBody kind (if node.isLeaf then leafNodeType else internalNodeType) node.pageId
        node.nextLeafPageId (UInt32.ofNat node.keys.length) (UInt32.ofNat node.payload.length)
        (node.keys.flatMap keyBytes ++ (node.payload.flatMap Scalar.encode ++ rest)) =
      .ok node := by
  obtain ⟨hfewKeys, hfewPayload⟩ := h.counts
  simp only [pageSize] at hfewKeys hfewPayload
  have hkeyCount : (UInt32.ofNat node.keys.length).toNat = node.keys.length := by
    rw [UInt32.toNat_ofNat']
    omega
  have hpayloadCount : (UInt32.ofNat node.payload.length).toNat = node.payload.length := by
    rw [UInt32.toNat_ofNat']
    omega
  have hkeys := readMany_append (r := node.payload.flatMap Scalar.encode ++ rest)
    (fun key hkey => readKey_append (h.admissible key hkey))
  have hpayload := readMany_append (r := rest) (l := node.payload)
    fun a _ => readScalar_append a
  have hlength := h.shaped.payload_length
  unfold readNodeBody
  rw [hkeyCount, hkeys]
  simp only [bind, Except.bind, hpayloadCount, hpayload]
  cases hleaf : node.isLeaf with
  | true =>
      rw [hleaf, if_pos rfl] at hlength
      have hchildren := (h.shaped.leaf hleaf).1
      rw [if_pos rfl, if_pos rfl, if_neg (by rw [hlength]; simp)]
      cases node
      simp_all [IndexNode.payload, pure, Except.pure]
  | false =>
      rw [hleaf, if_neg Bool.false_ne_true] at hlength
      have hrecords := (h.shaped.internal hleaf).1
      have hcount : UInt32.ofNat node.payload.length = UInt32.ofNat node.keys.length + 1 := by
        rw [hlength, UInt32.ofNat_add]
        rfl
      rw [if_neg Bool.false_ne_true, if_neg (by decide), if_neg (by rw [hcount]; simp)]
      cases node
      simp_all [IndexNode.payload, pure, Except.pure]

/-- A storable node is read back as it was written. -/
theorem deserializeNode_eq {kind : IndexKeyKind} {node : IndexNode} (h : node.Storable kind) :
    deserializeNode h.page.bytes kind = .ok node := by
  obtain ⟨hfewKeys, hfewPayload⟩ := h.counts
  have htype : ¬ ((if node.isLeaf then leafNodeType else internalNodeType) ≠ internalNodeType ∧
      (if node.isLeaf then leafNodeType else internalNodeType) ≠ leafNodeType) := by
    cases node.isLeaf <;> decide
  have hcounts : ¬ (h.page.bytes.length < (UInt32.ofNat node.keys.length).toNat ∨
      h.page.bytes.length < (UInt32.ofNat node.payload.length).toNat) := by
    rw [h.page.length, UInt32.toNat_ofNat', UInt32.toNat_ofNat']
    simp only [pageSize] at hfewKeys hfewPayload ⊢
    omega
  have hbytes : h.page.bytes = Scalar.encode indexNodeMagic ++ (Scalar.encode indexNodeVersion ++
      (Scalar.encode (if node.isLeaf then leafNodeType else internalNodeType) ++
      (Scalar.encode (0 : UInt8) ++ (Scalar.encode node.pageId ++
        (Scalar.encode node.nextLeafPageId ++ (Scalar.encode (UInt32.ofNat node.keys.length) ++
          (Scalar.encode (UInt32.ofNat node.payload.length) ++ (node.keys.flatMap keyBytes ++
            (node.payload.flatMap Scalar.encode ++
              List.replicate (pageSize - node.bytes.length) 0))))))))) := by
    simp only [IndexNode.Storable.page, IndexNode.bytes, IndexNode.headerBytes, List.append_assoc]
  unfold deserializeNode
  rw [if_neg (not_not.mpr h.page.length)]
  rw [hbytes] at hcounts ⊢
  simp only [bind, Except.bind, readScalar_append, ne_eq, not_true_eq_false, if_false,
    if_neg htype, readNodeBody_eq h, validateNodeShape_eq h.shaped hfewKeys, pure, Except.pure]
  exact if_neg hcounts

end CwDb.Index
