/-
  Index/BStarPlusIndex.lean --- `index/src/bstarplus_tree_index.cpp`.

  A path is listed from its back, the node at hand, up to the root; `parent_path` is
  its tail.  The functions that call each other up the path are one recursion on it:
  the call on the parent is an argument of the step.

  A loop that reads one page after another runs on fuel, one round more than there
  are pages: when that is not enough, some page has come up twice and the loop never
  ends.
-/
import CwDb.Cpp.Algorithm
import CwDb.Index.Node
import Mathlib.Data.List.Sort

set_option autoImplicit false

namespace CwDb.Index

open CwDb.Cpp
open CwDb.Foundation

/-- `class BStarPlusIndex`. -/
structure BStarPlusIndex where
  disk : DiskPageManager
  metadata : BStarPlusIndexMetadata

abbrev IndexM (α : Type) : Type := EStateM Fault BStarPlusIndex α

/-! ## The standard algorithms -/

/-- `std::lower_bound`: in sorted keys, the first key that is not less. -/
def lowerBound (keys : List IndexKey) (key : IndexKey) : Nat :=
  partitionPoint (fun k => k < key) keys

/-- `child_index_for_key`, by `std::upper_bound`: in sorted keys, the first key that is
greater. -/
def childIndexForKey (keys : List IndexKey) (key : IndexKey) : Nat :=
  partitionPoint (fun k => !(key < k)) keys

/-- `three_way_counts`. -/
def threeWayCounts (total : Nat) : Nat × Nat × Nat :=
  let first := (total + 2) / 3
  let second := (total - first + 1) / 2
  (first, second, total - first - second)

namespace IndexNode

/-- The keys of a leaf with their records. -/
def items (node : IndexNode) : List (IndexKey × UInt64) := node.keys.zip node.records

/-- A leaf with other keys and records. -/
def withItems (node : IndexNode) (items : List (IndexKey × UInt64)) : IndexNode :=
  { node with keys := items.map Prod.fst, records := items.map Prod.snd }

end IndexNode

/-- `std::sort` by `key_less` on the keys. -/
def sortItems (items : List (IndexKey × UInt64)) : List (IndexKey × UInt64) :=
  items.insertionSort fun a b => a.1 ≤ b.1

namespace BStarPlusIndex

/-! ## Reading -/

/-- Rounds after which a walk over the pages has come back to one of them. -/
def walkBound (idx : BStarPlusIndex) : Nat := idx.disk.pageCount.toNat + 1

/-- `BStarPlusIndex::read_node`. -/
def readNode (idx : BStarPlusIndex) (pageId : PageId) : Except Fault IndexNode := do
  let page ← idx.disk.readPage pageId
  deserializeNode page idx.metadata.keyKind

/-- `BStarPlusIndex::node_fits_page`. -/
def nodeFitsPage (idx : BStarPlusIndex) (node : IndexNode) : Except Fault Bool :=
  match serializeNode node idx.metadata.keyKind with
  | .ok _ => .ok true
  | .error (.throws .lengthError _) => .ok false
  | .error fault => .error fault

/-- `node_fits_page(a) && node_fits_page(b) && ...`. -/
def nodesFitPage (idx : BStarPlusIndex) : List IndexNode → Except Fault Bool
  | [] => .ok true
  | node :: nodes => do
      let fits ← idx.nodeFitsPage node
      if fits then idx.nodesFitPage nodes else pure false

/-- The loop of `subtree_min_key` and `leftmost_leaf_page_id`. -/
def leftmostLeaf (idx : BStarPlusIndex) : (fuel : Nat) → IndexNode → Except Fault IndexNode
  | 0, _ => .error .diverges
  | fuel + 1, node =>
      if node.isLeaf then .ok node
      else
        match node.children with
        | [] => raise .runtimeError (text "Index internal node has no children")
        | child :: _ => do
            let node ← idx.readNode child
            idx.leftmostLeaf fuel node

/-- `BStarPlusIndex::subtree_min_key`. -/
def subtreeMinKey (idx : BStarPlusIndex) (pageId : PageId) : Except Fault IndexKey := do
  let node ← idx.readNode pageId
  let leaf ← idx.leftmostLeaf idx.walkBound node
  match leaf.keys with
  | [] => raise .runtimeError (text "Index subtree has no keys")
  | key :: _ => pure key

/-- `BStarPlusIndex::leftmost_leaf_page_id`. -/
def leftmostLeafPageId (idx : BStarPlusIndex) (pageId : PageId) : Except Fault PageId := do
  let node ← idx.readNode pageId
  let leaf ← idx.leftmostLeaf idx.walkBound node
  pure leaf.pageId

/-- `BStarPlusIndex::rebuild_internal_keys`. -/
def rebuildInternalKeys (idx : BStarPlusIndex) (node : IndexNode) : Except Fault IndexNode :=
  if node.isLeaf then
    raise .logicError (text "Leaf node does not have internal separator keys")
  else
    match node.children with
    | [] => .ok { node with keys := [] }
    | _ :: rest => do
        let keys ← rest.mapM idx.subtreeMinKey
        pure { node with keys }

/-- The loop of `BStarPlusIndex::find_leaf`. -/
def findLeafLoop (idx : BStarPlusIndex) (key : IndexKey) : (fuel : Nat) →
    (currentPageId : PageId) → (path : List PageId) → Except Fault (IndexNode × List PageId)
  | 0, _, _ => .error .diverges
  | fuel + 1, currentPageId, path =>
      if currentPageId = invalidPageId then
        raise .runtimeError (text "Index leaf page was not found")
      else do
        let node ← idx.readNode currentPageId
        if node.isLeaf then pure (node, currentPageId :: path)
        else
          match node.children[childIndexForKey node.keys key]? with
          | none => raise .runtimeError (text "Index internal node child pointer is missing")
          | some child => idx.findLeafLoop key fuel child (currentPageId :: path)

/-- `BStarPlusIndex::find_leaf`. -/
def findLeaf (idx : BStarPlusIndex) (key : IndexKey) : Except Fault (IndexNode × List PageId) :=
  idx.findLeafLoop key idx.walkBound idx.metadata.rootPageId []

/-! ## Writing -/

/-- A call on the page manager. -/
def onDisk {α : Type} (m : EStateM Fault DiskPageManager α) : IndexM α :=
  zoom BStarPlusIndex.disk (fun idx disk => { idx with disk }) m

/-- `_disk_manager.allocate_page()`. -/
def allocatePage : IndexM PageId := onDisk DiskPageManager.allocatePage

/-- `BStarPlusIndex::write_node`. -/
def writeNode (node : IndexNode) : IndexM PUnit := do
  let idx ← get
  let data ← fromExcept (serializeNode node idx.metadata.keyKind)
  onDisk (DiskPageManager.writePage node.pageId data)

/-- A change of `_metadata`. -/
def modifyMetadata (f : BStarPlusIndexMetadata → BStarPlusIndexMetadata) : IndexM PUnit :=
  modify fun idx => { idx with metadata := f idx.metadata }

/-- `_disk_manager.write_metadata(_metadata)`. -/
def saveMetadata : IndexM PUnit :=
  modify fun idx => { idx with disk := idx.disk.writeMetadata idx.metadata }

/-- A read from the index as it stands. -/
def reading {α : Type} (f : BStarPlusIndex → Except Fault α) : IndexM α := do
  let idx ← get
  fromExcept (f idx)

/-- Two siblings are written, then their parent with the separators rebuilt. -/
def writeSiblings (left right parent : IndexNode) : IndexM PUnit := do
  writeNode left
  writeNode right
  let parent ← reading fun idx => idx.rebuildInternalKeys parent
  writeNode parent

/-- A parent that has got a child: its separators are rebuilt, and it is written or, when
it does not fit, split. -/
def writeOrSplit (splitParent : IndexNode → IndexM PUnit) (parent : IndexNode) :
    IndexM PUnit := do
  let parent ← reading fun idx => idx.rebuildInternalKeys parent
  let fits ← reading fun idx => idx.nodeFitsPage parent
  if fits then writeNode parent else splitParent parent

/-- The loop of `propagate_subtree_min_change`, from the parent up. -/
def propagateLoop : (currentPageId : PageId) → (currentMinKey : IndexKey) →
    (ancestors : List PageId) → IndexM PUnit
  | _, _, [] => pure ⟨⟩
  | currentPageId, currentMinKey, parentPageId :: ancestors => do
      let parent ← reading fun idx => idx.readNode parentPageId
      if parent.isLeaf then throw (.throws .logicError (text "Leaf node cannot be a parent"))
      else
        match parent.children.idxOf? currentPageId with
        | none => pure ⟨⟩
        | some 0 => do
            let minKey ← reading fun idx => idx.subtreeMinKey parent.pageId
            propagateLoop parent.pageId minKey ancestors
        | some (i + 1) => writeNode { parent with keys := parent.keys.set i currentMinKey }

/-- `BStarPlusIndex::propagate_subtree_min_change`. -/
def propagateSubtreeMinChange (pageId : PageId) (path : List PageId) : IndexM PUnit :=
  match path with
  | current :: parent :: ancestors =>
      if current ≠ pageId then pure ⟨⟩
      else do
        let minKey ← reading fun idx => idx.subtreeMinKey pageId
        propagateLoop pageId minKey (parent :: ancestors)
  | _ => pure ⟨⟩

/-- `BStarPlusIndex::promote_single_child_root`. -/
def promoteSingleChildRoot (root : IndexNode) : IndexM PUnit :=
  if root.isLeaf then throw (.throws .logicError (text "Root can only promote a single child"))
  else
    match root.children with
    | [only] => do
        let child ← reading fun idx => idx.readNode only
        modifyMetadata fun m =>
          { m with rootPageId := child.pageId, height := if 1 < m.height then m.height - 1 else 1 }
        let first ← reading fun idx =>
          if child.isLeaf then pure child.pageId else idx.leftmostLeafPageId child.pageId
        modifyMetadata fun m => { m with firstLeafPageId := first }
    | _ => throw (.throws .logicError (text "Root can only promote a single child"))

/-! ## Insertion -/

/-- `BStarPlusIndex::insert_into_parent`; `splitParent` is `split_internal` on the path of
the parent. -/
def insertIntoParent (splitParent : IndexNode → IndexM PUnit) (left : IndexNode)
    (separator : IndexKey) (right : IndexNode) (leftPath : List PageId) : IndexM PUnit :=
  match leftPath with
  | [] => throw (.throws .logicError (text "Invalid path to left index node"))
  | current :: above =>
      if current ≠ left.pageId then
        throw (.throws .logicError (text "Invalid path to left index node"))
      else
        match above with
        | [] => do
            let newRootPageId ← allocatePage
            writeNode left
            writeNode right
            writeNode { isLeaf := false, pageId := newRootPageId, keys := [separator],
                        children := [left.pageId, right.pageId] }
            modifyMetadata fun m => { m with rootPageId := newRootPageId, height := m.height + 1 }
        | parentPageId :: _ => do
            let parent ← reading fun idx => idx.readNode parentPageId
            if parent.isLeaf then
              throw (.throws .logicError (text "Leaf node cannot be a parent"))
            else
              match parent.children.idxOf? left.pageId with
              | none =>
                  throw (.throws .logicError (text "Parent does not reference split child"))
              | some i => do
                  writeNode left
                  writeNode right
                  writeOrSplit splitParent
                    { parent with
                      keys := parent.keys.insertIdx i separator,
                      children := parent.children.insertIdx (i + 1) right.pageId }

/-- `BStarPlusIndex::redistribute_internal_pair`. -/
def redistributeInternalPair (left right parent : IndexNode) (parentPath : List PageId) :
    IndexM PUnit :=
  if left.isLeaf || right.isLeaf then
    throw (.throws .logicError
      (text "Only internal siblings can be redistributed by redistribute_internal_pair"))
  else do
    let children := left.children ++ right.children
    let leftCount := (children.length + 1) / 2
    let left ← reading fun idx =>
      idx.rebuildInternalKeys { left with children := children.take leftCount }
    let right ← reading fun idx =>
      idx.rebuildInternalKeys { right with children := children.drop leftCount }
    let fits ← reading fun idx => idx.nodesFitPage [left, right]
    if !fits then
      throw (.throws .lengthError
        (text "Redistributed internal siblings do not fit into pages"))
    else do
      writeSiblings left right parent
      propagateSubtreeMinChange parent.pageId parentPath

/-- Whether the children of two internal siblings fit into two pages when they are shared
out anew: the trial of `try_redistribute_internal_with_right` and `_left`. -/
def internalPairFits (left right : IndexNode) : IndexM Bool := do
  let children := left.children ++ right.children
  let leftCount := (children.length + 1) / 2
  let left ← reading fun idx =>
    idx.rebuildInternalKeys { left with children := children.take leftCount }
  let right ← reading fun idx =>
    idx.rebuildInternalKeys { right with children := children.drop leftCount }
  reading fun idx => idx.nodesFitPage [left, right]

/-- `BStarPlusIndex::try_redistribute_internal_with_right`. -/
def tryRedistributeInternalWithRight (node parent : IndexNode) (childIndex : Nat)
    (parentPath : List PageId) : IndexM Bool :=
  match parent.children[childIndex + 1]? with
  | none => pure false
  | some rightPageId => do
      let right ← reading fun idx => idx.readNode rightPageId
      if right.isLeaf then pure false
      else do
        let fits ← internalPairFits node right
        if !fits then pure false
        else do
          redistributeInternalPair node right parent parentPath
          pure true

/-- `BStarPlusIndex::try_redistribute_internal_with_left`. -/
def tryRedistributeInternalWithLeft (node parent : IndexNode) (childIndex : Nat)
    (parentPath : List PageId) : IndexM Bool :=
  match childIndex with
  | 0 => pure false
  | leftIndex + 1 => do
      let leftPageId ← fromExcept (vectorAt parent.children leftIndex)
      let left ← reading fun idx => idx.readNode leftPageId
      if left.isLeaf then pure false
      else do
        let fits ← internalPairFits left node
        if !fits then pure false
        else do
          redistributeInternalPair left node parent parentPath
          pure true

/-- `BStarPlusIndex::split_internal_pair`. -/
def splitInternalPair (splitParent : IndexNode → IndexM PUnit) (left right parent : IndexNode)
    (parentIndex : Nat) : IndexM PUnit :=
  if left.isLeaf || right.isLeaf then
    throw (.throws .logicError
      (text "Only internal siblings can be split by split_internal_pair"))
  else do
    let children := left.children ++ right.children
    let middlePageId ← allocatePage
    let counts := threeWayCounts children.length
    let firstEnd := counts.1
    let secondEnd := counts.1 + counts.2.1
    let left ← reading fun idx =>
      idx.rebuildInternalKeys { left with children := children.take firstEnd }
    let middle ← reading fun idx =>
      idx.rebuildInternalKeys
        { isLeaf := false, pageId := middlePageId,
          children := (children.take secondEnd).drop firstEnd }
    let right ← reading fun idx =>
      idx.rebuildInternalKeys { right with children := children.drop secondEnd }
    let fits ← reading fun idx => idx.nodesFitPage [left, middle, right]
    if !fits then
      throw (.throws .lengthError
        (text "Internal pair split produced a node that does not fit into a page"))
    else do
      writeNode left
      writeNode middle
      writeNode right
      writeOrSplit splitParent
        { parent with children := parent.children.insertIdx (parentIndex + 1) middle.pageId }

/-- The end of `split_internal`: the node is split in two. -/
def splitInternalInTwo (splitParent : IndexNode → IndexM PUnit) (node : IndexNode)
    (path : List PageId) : IndexM PUnit :=
  if node.children.length < 2 then
    throw (.throws .logicError
      (text "Cannot split internal node with fewer than two children"))
  else do
    let splitIndex := node.children.length / 2
    let rightPageId ← allocatePage
    let left ← reading fun idx =>
      idx.rebuildInternalKeys { node with children := node.children.take splitIndex }
    let right ← reading fun idx =>
      idx.rebuildInternalKeys
        { isLeaf := false, pageId := rightPageId, children := node.children.drop splitIndex }
    let front ← fromExcept (vectorAt right.children 0)
    let separator ← reading fun idx => idx.subtreeMinKey front
    insertIntoParent splitParent left separator right path

/-- `split_internal` on a node with a parent, once no sibling could take children. -/
def splitInternalWithSibling (splitParent : IndexNode → IndexM PUnit) (node parent : IndexNode)
    (childIndex : Nat) (path : List PageId) : IndexM PUnit :=
  match parent.children[childIndex + 1]?, childIndex with
  | some rightPageId, _ => do
      let right ← reading fun idx => idx.readNode rightPageId
      splitInternalPair splitParent node right parent childIndex
  | none, leftIndex + 1 => do
      let leftPageId ← fromExcept (vectorAt parent.children leftIndex)
      let left ← reading fun idx => idx.readNode leftPageId
      splitInternalPair splitParent left node parent leftIndex
  | none, 0 => splitInternalInTwo splitParent node path

/-- `BStarPlusIndex::split_internal`. -/
def splitInternal : (path : List PageId) → (node : IndexNode) → IndexM PUnit
  | [], node =>
      if node.isLeaf then
        throw (.throws .logicError (text "Leaf node cannot be split by split_internal"))
      else throw (.throws .logicError (text "Invalid path to internal index node"))
  | current :: above, node =>
      if node.isLeaf then
        throw (.throws .logicError (text "Leaf node cannot be split by split_internal"))
      else if current ≠ node.pageId then
        throw (.throws .logicError (text "Invalid path to internal index node"))
      else
        match above.head? with
        | none => splitInternalInTwo (splitInternal above) node (current :: above)
        | some parentPageId => do
            let parent ← reading fun idx => idx.readNode parentPageId
            if parent.isLeaf then
              throw (.throws .logicError (text "Leaf node cannot be a parent"))
            else
              match parent.children.idxOf? node.pageId with
              | none =>
                  throw (.throws .logicError
                    (text "Parent does not reference split internal node"))
              | some i => do
                  let done ← tryRedistributeInternalWithRight node parent i above
                  if done then pure ⟨⟩
                  else do
                    let done ← tryRedistributeInternalWithLeft node parent i above
                    if done then pure ⟨⟩
                    else
                      splitInternalWithSibling (splitInternal above) node parent i
                        (current :: above)

/-- `BStarPlusIndex::try_give_to_right_leaf`. -/
def tryGiveToRightLeaf (leaf parent : IndexNode) (childIndex : Nat) : IndexM Bool :=
  match parent.children[childIndex + 1]? with
  | none => pure false
  | some rightPageId => do
      let right ← reading fun idx => idx.readNode rightPageId
      if !right.isLeaf then pure false
      else
        match leaf.keys.getLast?, leaf.records.getLast? with
        | some key, some record => do
            let candidateLeaf :=
              { leaf with keys := leaf.keys.dropLast, records := leaf.records.dropLast }
            let candidateRight :=
              { right with keys := key :: right.keys, records := record :: right.records }
            if candidateLeaf.keys.isEmpty then pure false
            else do
              let fits ← reading fun idx => idx.nodesFitPage [candidateRight, candidateLeaf]
              if !fits then pure false
              else do
                writeSiblings candidateLeaf candidateRight parent
                pure true
        | _, _ => pure false

/-- `BStarPlusIndex::try_give_to_left_leaf`. -/
def tryGiveToLeftLeaf (leaf parent : IndexNode) (childIndex : Nat) : IndexM Bool :=
  match childIndex with
  | 0 => pure false
  | leftIndex + 1 =>
      if leaf.keys.isEmpty then pure false
      else do
        let leftPageId ← fromExcept (vectorAt parent.children leftIndex)
        let left ← reading fun idx => idx.readNode leftPageId
        if !left.isLeaf then pure false
        else
          match leaf.keys, leaf.records with
          | key :: keys, record :: records => do
              let candidateLeft :=
                { left with keys := left.keys ++ [key], records := left.records ++ [record] }
              let candidateLeaf := { leaf with keys, records }
              if candidateLeaf.keys.isEmpty then pure false
              else do
                let fits ← reading fun idx => idx.nodesFitPage [candidateLeft, candidateLeaf]
                if !fits then pure false
                else do
                  writeSiblings candidateLeft candidateLeaf parent
                  pure true
          | _, _ => pure false

/-- `BStarPlusIndex::split_leaf_pair`. -/
def splitLeafPair (splitParent : IndexNode → IndexM PUnit) (left right parent : IndexNode)
    (parentIndex : Nat) : IndexM PUnit := do
  let items := sortItems ((left.keys ++ right.keys).zip (left.records ++ right.records))
  let middlePageId ← allocatePage
  let counts := threeWayCounts items.length
  let firstEnd := counts.1
  let secondEnd := counts.1 + counts.2.1
  let left := { left.withItems (items.take firstEnd) with nextLeafPageId := middlePageId }
  let middle : IndexNode :=
    { IndexNode.withItems { pageId := middlePageId } ((items.take secondEnd).drop firstEnd) with
      nextLeafPageId := right.pageId }
  let right := right.withItems (items.drop secondEnd)
  if left.keys.isEmpty || middle.keys.isEmpty || right.keys.isEmpty then
    throw (.throws .logicError (text "Leaf pair split produced an empty node"))
  else do
    writeNode left
    writeNode middle
    writeNode right
    writeOrSplit splitParent
      { parent with children := parent.children.insertIdx (parentIndex + 1) middle.pageId }

/-- The end of `split_leaf`: the leaf is split in two. -/
def splitLeafInTwo (splitParent : IndexNode → IndexM PUnit) (leaf : IndexNode)
    (path : List PageId) : IndexM PUnit := do
  let rightPageId ← allocatePage
  let splitIndex := leaf.keys.length / 2
  let right : IndexNode :=
    { pageId := rightPageId, nextLeafPageId := leaf.nextLeafPageId,
      keys := leaf.keys.drop splitIndex, records := leaf.records.drop splitIndex }
  let left :=
    { leaf with
      keys := leaf.keys.take splitIndex, records := leaf.records.take splitIndex,
      nextLeafPageId := right.pageId }
  match right.keys with
  | [] => throw (.throws .logicError (text "Leaf split produced empty right node"))
  | separator :: _ => insertIntoParent splitParent left separator right path

/-- `split_leaf` on a leaf with a parent, once no sibling could take a key. -/
def splitLeafWithSibling (splitParent : IndexNode → IndexM PUnit) (leaf parent : IndexNode)
    (childIndex : Nat) (path : List PageId) : IndexM PUnit :=
  match parent.children[childIndex + 1]?, childIndex with
  | some rightPageId, _ => do
      let right ← reading fun idx => idx.readNode rightPageId
      if !right.isLeaf then
        throw (.throws .logicError (text "Leaf sibling has unexpected node type"))
      else splitLeafPair splitParent leaf right parent childIndex
  | none, leftIndex + 1 => do
      let leftPageId ← fromExcept (vectorAt parent.children leftIndex)
      let left ← reading fun idx => idx.readNode leftPageId
      if !left.isLeaf then
        throw (.throws .logicError (text "Leaf sibling has unexpected node type"))
      else splitLeafPair splitParent left leaf parent leftIndex
  | none, 0 => splitLeafInTwo splitParent leaf path

/-- `BStarPlusIndex::split_leaf`. -/
def splitLeaf (leaf : IndexNode) (path : List PageId) : IndexM PUnit :=
  if !leaf.isLeaf then
    throw (.throws .logicError (text "Only leaf node can be split by split_leaf"))
  else
    match path with
    | [] => throw (.throws .logicError (text "Invalid path to leaf index node"))
    | current :: above =>
        if current ≠ leaf.pageId then
          throw (.throws .logicError (text "Invalid path to leaf index node"))
        else
          match above.head? with
          | none => splitLeafInTwo (splitInternal above) leaf path
          | some parentPageId => do
              let parent ← reading fun idx => idx.readNode parentPageId
              if parent.isLeaf then
                throw (.throws .logicError (text "Leaf node cannot be a parent"))
              else
                match parent.children.idxOf? leaf.pageId with
                | none =>
                    throw (.throws .logicError (text "Parent does not reference split leaf"))
                | some i => do
                    let done ← tryGiveToRightLeaf leaf parent i
                    if done then pure ⟨⟩
                    else do
                      let done ← tryGiveToLeftLeaf leaf parent i
                      if done then pure ⟨⟩
                      else splitLeafWithSibling (splitInternal above) leaf parent i path

/-- `BStarPlusIndex::insert` into an index without a root. -/
def insertFirst (key : IndexKey) (record : UInt64) : IndexM PUnit := do
  let rootPageId ← allocatePage
  writeNode { isLeaf := true, pageId := rootPageId, nextLeafPageId := invalidPageId,
              keys := [key], records := [record] }
  modifyMetadata fun m =>
    { m with rootPageId := rootPageId, firstLeafPageId := rootPageId, height := 1, size := 1 }
  saveMetadata

/-- The end of `BStarPlusIndex::insert`: the leaf has got the key. -/
def insertIntoLeaf (leaf : IndexNode) (path : List PageId) : IndexM PUnit := do
  let fits ← reading fun idx => idx.nodeFitsPage leaf
  if fits then writeNode leaf else splitLeaf leaf path
  modifyMetadata fun m => { m with size := m.size + 1 }
  saveMetadata

/-- `BStarPlusIndex::insert`. -/
def insert (key : IndexKey) (record : UInt64) : IndexM PUnit := do
  let idx ← get
  fromExcept (validateKeyKind key idx.metadata.keyKind)
  if idx.metadata.empty then insertFirst key record
  else do
    let (leaf, path) ← fromExcept (idx.findLeaf key)
    let index := lowerBound leaf.keys key
    if leaf.keys[index]? = some key then
      throw (.throws .invalidArgument (text "Duplicate index key"))
    else
      insertIntoLeaf
        { leaf with
          keys := leaf.keys.insertIdx index key,
          records := leaf.records.insertIdx index record } path

/-! ## Erasure -/

/-- `BStarPlusIndex::handle_internal_after_child_removed`; `fixUnderflow` is
`fix_internal_underflow` on the path. -/
def handleInternalAfterChildRemoved (fixUnderflow : IndexNode → IndexM PUnit) (node : IndexNode)
    (path : List PageId) : IndexM PUnit :=
  if node.isLeaf then
    throw (.throws .logicError (text "Leaf node cannot handle removed children"))
  else if path.head? ≠ some node.pageId then
    throw (.throws .logicError (text "Invalid path to internal index node"))
  else do
    let node ← reading fun idx => idx.rebuildInternalKeys node
    let idx ← get
    if node.pageId = idx.metadata.rootPageId then
      if node.children.length = 1 then promoteSingleChildRoot node else writeNode node
    else if node.keys.length < minInternalKeyCount idx.metadata.keyKind then fixUnderflow node
    else do
      writeNode node
      propagateSubtreeMinChange node.pageId path

/-- An internal node takes the last child of its left sibling. -/
def borrowFromLeftInternal (left node parent : IndexNode) (parentPath : List PageId) :
    IndexM PUnit := do
  match left.children.getLast? with
  | none => pure ⟨⟩
  | some moved => do
      let left ← reading fun idx =>
        idx.rebuildInternalKeys { left with children := left.children.dropLast }
      let node ← reading fun idx =>
        idx.rebuildInternalKeys { node with children := moved :: node.children }
      writeSiblings left node parent
      propagateSubtreeMinChange parent.pageId parentPath

/-- An internal node takes the first child of its right sibling. -/
def borrowFromRightInternal (node right parent : IndexNode) (parentPath : List PageId) :
    IndexM PUnit := do
  match right.children with
  | [] => pure ⟨⟩
  | moved :: rest => do
      let node ← reading fun idx =>
        idx.rebuildInternalKeys { node with children := node.children ++ [moved] }
      let right ← reading fun idx => idx.rebuildInternalKeys { right with children := rest }
      writeSiblings node right parent
      propagateSubtreeMinChange parent.pageId parentPath

/-- Internal siblings are merged into the left one, the child `leftIndex` of the parent; when
they do not fit into one page, their children are shared out anew. -/
def mergeInternal (fixParent : IndexNode → IndexM PUnit) (left right parent : IndexNode)
    (leftIndex : Nat) (parentPath : List PageId) : IndexM PUnit := do
  let merged ← reading fun idx =>
    idx.rebuildInternalKeys { left with children := left.children ++ right.children }
  let fits ← reading fun idx => idx.nodeFitsPage merged
  if !fits then redistributeInternalPair left right parent parentPath
  else do
    let merged ← reading fun idx => idx.rebuildInternalKeys merged
    writeNode merged
    handleInternalAfterChildRemoved fixParent
      { parent with
        children := parent.children.eraseIdx (leftIndex + 1),
        keys := parent.keys.eraseIdx leftIndex } parentPath

/-- `fix_internal_underflow` on a node with a parent, once no sibling could give a child. -/
def mergeInternalWithSibling (fixParent : IndexNode → IndexM PUnit) (node parent : IndexNode)
    (childIndex : Nat) (parentPath : List PageId) : IndexM PUnit :=
  match childIndex with
  | leftIndex + 1 => do
      let leftPageId ← fromExcept (vectorAt parent.children leftIndex)
      let left ← reading fun idx => idx.readNode leftPageId
      if left.isLeaf then
        throw (.throws .logicError (text "Internal sibling has unexpected node type"))
      else mergeInternal fixParent left node parent leftIndex parentPath
  | 0 =>
      match parent.children[1]? with
      | none => throw (.throws .logicError (text "Internal node has no sibling for merge"))
      | some rightPageId => do
          let right ← reading fun idx => idx.readNode rightPageId
          if right.isLeaf then
            throw (.throws .logicError (text "Internal sibling has unexpected node type"))
          else mergeInternal fixParent node right parent 0 parentPath

/-- `fix_internal_underflow` on a node with a parent, after the left sibling. -/
def fixInternalFromRight (fixParent : IndexNode → IndexM PUnit) (node parent : IndexNode)
    (childIndex : Nat) (parentPath : List PageId) : IndexM PUnit :=
  match parent.children[childIndex + 1]? with
  | none => mergeInternalWithSibling fixParent node parent childIndex parentPath
  | some rightPageId => do
      let right ← reading fun idx => idx.readNode rightPageId
      let idx ← get
      if right.isLeaf then
        throw (.throws .logicError (text "Internal sibling has unexpected node type"))
      else if minInternalKeyCount idx.metadata.keyKind < right.keys.length then
        borrowFromRightInternal node right parent parentPath
      else mergeInternalWithSibling fixParent node parent childIndex parentPath

/-- `fix_internal_underflow` on a node with a parent. -/
def fixInternalFromSiblings (fixParent : IndexNode → IndexM PUnit) (node parent : IndexNode)
    (childIndex : Nat) (parentPath : List PageId) : IndexM PUnit :=
  match childIndex with
  | 0 => fixInternalFromRight fixParent node parent 0 parentPath
  | leftIndex + 1 => do
      let leftPageId ← fromExcept (vectorAt parent.children leftIndex)
      let left ← reading fun idx => idx.readNode leftPageId
      let idx ← get
      if left.isLeaf then
        throw (.throws .logicError (text "Internal sibling has unexpected node type"))
      else if minInternalKeyCount idx.metadata.keyKind < left.keys.length then
        borrowFromLeftInternal left node parent parentPath
      else fixInternalFromRight fixParent node parent childIndex parentPath

/-- `fix_internal_underflow` on the root. -/
def fixInternalRoot (node : IndexNode) : IndexM PUnit :=
  if node.children.length = 1 then promoteSingleChildRoot node
  else do
    let node ← reading fun idx => idx.rebuildInternalKeys node
    writeNode node

/-- `BStarPlusIndex::fix_internal_underflow`. -/
def fixInternalUnderflow : (path : List PageId) → (node : IndexNode) → IndexM PUnit
  | [], node =>
      if node.isLeaf then
        throw (.throws .logicError (text "Leaf node cannot be fixed by fix_internal_underflow"))
      else throw (.throws .logicError (text "Invalid path to internal index node"))
  | current :: above, node =>
      if node.isLeaf then
        throw (.throws .logicError (text "Leaf node cannot be fixed by fix_internal_underflow"))
      else if current ≠ node.pageId then
        throw (.throws .logicError (text "Invalid path to internal index node"))
      else do
        let idx ← get
        if node.pageId = idx.metadata.rootPageId then fixInternalRoot node
        else do
          let parentPageId ← fromExcept (vectorAt above 0)
          let parent ← reading fun idx => idx.readNode parentPageId
          if parent.isLeaf then
            throw (.throws .logicError (text "Leaf node cannot be a parent"))
          else
            match parent.children.idxOf? node.pageId with
            | none =>
                throw (.throws .logicError
                  (text "Parent does not reference underfilled internal node"))
            | some i =>
                fixInternalFromSiblings (fixInternalUnderflow above) node parent i above

/-- `BStarPlusIndex::redistribute_leaf_pair`. -/
def redistributeLeafPair (left right parent : IndexNode) (parentPath : List PageId) :
    IndexM PUnit :=
  if !left.isLeaf || !right.isLeaf then
    throw (.throws .logicError
      (text "Only leaf siblings can be redistributed by redistribute_leaf_pair"))
  else do
    let items := sortItems (left.items ++ right.items)
    let leftCount := (items.length + 1) / 2
    let left := left.withItems (items.take leftCount)
    let right := right.withItems (items.drop leftCount)
    let fits ← reading fun idx => idx.nodesFitPage [left, right]
    if !fits then
      throw (.throws .lengthError (text "Redistributed leaf siblings do not fit into pages"))
    else do
      writeSiblings { left with nextLeafPageId := right.pageId } right parent
      propagateSubtreeMinChange parent.pageId parentPath

/-- A leaf takes the last key of its left sibling. -/
def borrowFromLeftLeaf (left leaf parent : IndexNode) (parentPath : List PageId) :
    IndexM PUnit :=
  match left.keys.getLast?, left.records.getLast? with
  | some key, some record => do
      writeSiblings { left with keys := left.keys.dropLast, records := left.records.dropLast }
        { leaf with keys := key :: leaf.keys, records := record :: leaf.records } parent
      propagateSubtreeMinChange parent.pageId parentPath
  | _, _ => pure ⟨⟩

/-- A leaf takes the first key of its right sibling. -/
def borrowFromRightLeaf (leaf right parent : IndexNode) (parentPath : List PageId) :
    IndexM PUnit :=
  match right.keys, right.records with
  | key :: keys, record :: records => do
      writeSiblings { leaf with keys := leaf.keys ++ [key], records := leaf.records ++ [record] }
        { right with keys, records } parent
      propagateSubtreeMinChange parent.pageId parentPath
  | _, _ => pure ⟨⟩

/-- Leaves are merged into the left one, the child `leftIndex` of the parent; when they do
not fit into one page, their keys are shared out anew. -/
def mergeLeaves (fixParent : IndexNode → IndexM PUnit) (left right parent : IndexNode)
    (leftIndex : Nat) (parentPath : List PageId) : IndexM PUnit := do
  let merged :=
    { left with
      keys := left.keys ++ right.keys, records := left.records ++ right.records,
      nextLeafPageId := right.nextLeafPageId }
  let fits ← reading fun idx => idx.nodeFitsPage merged
  if !fits then redistributeLeafPair left right parent parentPath
  else do
    modifyMetadata fun m =>
      if m.firstLeafPageId = right.pageId then { m with firstLeafPageId := merged.pageId } else m
    writeNode merged
    handleInternalAfterChildRemoved fixParent
      { parent with
        children := parent.children.eraseIdx (leftIndex + 1),
        keys := parent.keys.eraseIdx leftIndex } parentPath

/-- `fix_leaf_underflow` on a leaf with a parent, once no sibling could give a key. -/
def mergeLeafWithSibling (fixParent : IndexNode → IndexM PUnit) (leaf parent : IndexNode)
    (childIndex : Nat) (parentPath : List PageId) : IndexM PUnit :=
  match childIndex with
  | leftIndex + 1 => do
      let leftPageId ← fromExcept (vectorAt parent.children leftIndex)
      let left ← reading fun idx => idx.readNode leftPageId
      if !left.isLeaf then
        throw (.throws .logicError (text "Leaf sibling has unexpected node type"))
      else mergeLeaves fixParent left leaf parent leftIndex parentPath
  | 0 =>
      match parent.children[1]? with
      | none => throw (.throws .logicError (text "Leaf node has no sibling for merge"))
      | some rightPageId => do
          let right ← reading fun idx => idx.readNode rightPageId
          if !right.isLeaf then
            throw (.throws .logicError (text "Leaf sibling has unexpected node type"))
          else mergeLeaves fixParent leaf right parent 0 parentPath

/-- `fix_leaf_underflow` on a leaf with a parent, after the left sibling. -/
def fixLeafFromRight (fixParent : IndexNode → IndexM PUnit) (leaf parent : IndexNode)
    (childIndex : Nat) (parentPath : List PageId) : IndexM PUnit :=
  match parent.children[childIndex + 1]? with
  | none => mergeLeafWithSibling fixParent leaf parent childIndex parentPath
  | some rightPageId => do
      let right ← reading fun idx => idx.readNode rightPageId
      let idx ← get
      if !right.isLeaf then
        throw (.throws .logicError (text "Leaf sibling has unexpected node type"))
      else if minLeafKeyCount idx.metadata.keyKind < right.keys.length then
        borrowFromRightLeaf leaf right parent parentPath
      else mergeLeafWithSibling fixParent leaf parent childIndex parentPath

/-- `fix_leaf_underflow` on a leaf with a parent. -/
def fixLeafFromSiblings (fixParent : IndexNode → IndexM PUnit) (leaf parent : IndexNode)
    (childIndex : Nat) (parentPath : List PageId) : IndexM PUnit :=
  match childIndex with
  | 0 => fixLeafFromRight fixParent leaf parent 0 parentPath
  | leftIndex + 1 => do
      let leftPageId ← fromExcept (vectorAt parent.children leftIndex)
      let left ← reading fun idx => idx.readNode leftPageId
      let idx ← get
      if !left.isLeaf then
        throw (.throws .logicError (text "Leaf sibling has unexpected node type"))
      else if minLeafKeyCount idx.metadata.keyKind < left.keys.length then
        borrowFromLeftLeaf left leaf parent parentPath
      else fixLeafFromRight fixParent leaf parent childIndex parentPath

/-- `BStarPlusIndex::fix_leaf_underflow`. -/
def fixLeafUnderflow (leaf : IndexNode) (path : List PageId) : IndexM PUnit :=
  if !leaf.isLeaf then
    throw (.throws .logicError (text "Only leaf node can be fixed by fix_leaf_underflow"))
  else
    match path with
    | [] => throw (.throws .logicError (text "Invalid path to leaf index node"))
    | current :: above =>
        if current ≠ leaf.pageId then
          throw (.throws .logicError (text "Invalid path to leaf index node"))
        else do
          let idx ← get
          if leaf.pageId = idx.metadata.rootPageId then writeNode leaf
          else do
            let parentPageId ← fromExcept (vectorAt above 0)
            let parent ← reading fun idx => idx.readNode parentPageId
            if parent.isLeaf then
              throw (.throws .logicError (text "Leaf node cannot be a parent"))
            else
              match parent.children.idxOf? leaf.pageId with
              | none =>
                  throw (.throws .logicError (text "Parent does not reference erased leaf"))
              | some i =>
                  fixLeafFromSiblings (fixInternalUnderflow above) leaf parent i above

/-- `BStarPlusIndex::erase` of the last key. -/
def eraseLast (leaf : IndexNode) : IndexM PUnit := do
  writeNode { leaf with keys := [], records := [] }
  modifyMetadata fun m =>
    { m with rootPageId := invalidPageId, firstLeafPageId := invalidPageId, height := 0 }

/-- `BStarPlusIndex::erase` once the key at `index` is gone from the leaf. -/
def eraseFromLeaf (leaf : IndexNode) (index : Nat) (path : List PageId) : IndexM PUnit := do
  let idx ← get
  if leaf.pageId = idx.metadata.rootPageId ∨
      minLeafKeyCount idx.metadata.keyKind ≤ leaf.keys.length then do
    writeNode leaf
    if index = 0 ∧ leaf.keys ≠ [] then propagateSubtreeMinChange leaf.pageId path else pure ⟨⟩
  else fixLeafUnderflow leaf path

/-- `BStarPlusIndex::erase`. -/
def erase (key : IndexKey) : IndexM Bool := do
  let idx ← get
  fromExcept (validateKeyKind key idx.metadata.keyKind)
  if idx.metadata.empty then pure false
  else do
    let (leaf, path) ← fromExcept (idx.findLeaf key)
    let index := lowerBound leaf.keys key
    if leaf.keys[index]? ≠ some key then pure false
    else do
      let leaf :=
        { leaf with keys := leaf.keys.eraseIdx index, records := leaf.records.eraseIdx index }
      modifyMetadata fun m => if 0 < m.size then { m with size := m.size - 1 } else m
      let idx ← get
      if idx.metadata.size = 0 then eraseLast leaf else eraseFromLeaf leaf index path
      saveMetadata
      pure true

/-! ## Lookup -/

/-- The loop of `BStarPlusIndex::find`. -/
def findLoop (idx : BStarPlusIndex) (key : IndexKey) :
    (fuel : Nat) → (currentPageId : PageId) → Except Fault (Option UInt64)
  | 0, _ => .error .diverges
  | fuel + 1, currentPageId =>
      if currentPageId = invalidPageId then .ok none
      else do
        let node ← idx.readNode currentPageId
        if node.isLeaf then
          let index := lowerBound node.keys key
          if node.keys[index]? = some key then pure node.records[index]? else pure none
        else
          match node.children[childIndexForKey node.keys key]? with
          | none => raise .runtimeError (text "Index internal node child pointer is missing")
          | some child => idx.findLoop key fuel child

/-- `BStarPlusIndex::find`. -/
def find (idx : BStarPlusIndex) (key : IndexKey) : Except Fault (Option UInt64) := do
  validateKeyKind key idx.metadata.keyKind
  if idx.metadata.empty then pure none
  else idx.findLoop key idx.walkBound idx.metadata.rootPageId

/-- The loop of `range_search` over the keys of one node, from `keys[j]` on: the records it
adds, and whether it has come past the end of the range.  It does not ask whether the node
is a leaf, and an internal node has keys and no records. -/
def scanKeys (low high : IndexKey) (records : List UInt64) : (j : Nat) → List IndexKey →
    Except Fault (List UInt64 × Bool)
  | _, [] => .ok ([], false)
  | j, key :: keys =>
      if key < low then scanKeys low high records (j + 1) keys
      else if high < key then .ok ([], true)
      else do
        let record ← vectorIndex records j
        let (rest, past) ← scanKeys low high records (j + 1) keys
        pure (record :: rest, past)

/-- The loop of `range_search` over the leaves. -/
def rangeLoop (idx : BStarPlusIndex) (low high : IndexKey) :
    (fuel : Nat) → (leaf : IndexNode) → Except Fault (List UInt64)
  | 0, _ => .error .diverges
  | fuel + 1, leaf =>
      if leaf.pageId = invalidPageId ∨ idx.disk.pageCount ≤ leaf.pageId then .ok []
      else do
        let (records, past) ← scanKeys low high leaf.records 0 leaf.keys
        if past ∨ leaf.nextLeafPageId = invalidPageId then pure records
        else do
          let next ← idx.readNode leaf.nextLeafPageId
          let rest ← idx.rangeLoop low high fuel next
          pure (records ++ rest)

/-- `BStarPlusIndex::range_search`. -/
def rangeSearch (idx : BStarPlusIndex) (low high : IndexKey) : Except Fault (List UInt64) := do
  validateKeyKind low idx.metadata.keyKind
  validateKeyKind high idx.metadata.keyKind
  if idx.metadata.empty ∨ high < low then pure []
  else
    let (leaf, _) ← idx.findLeaf low
    idx.rangeLoop low high idx.walkBound leaf

/-! ## Opening -/

/-- The body of the constructor, after `_disk_manager(p)`. -/
def loadMetadata (kind : IndexKeyKind) : IndexM PUnit := do
  modifyMetadata fun _ => { keyKind := kind }
  let idx ← get
  let loaded := idx.disk.readMetadata
  if loaded.keyKind ≠ .unknown then modifyMetadata fun _ => loaded
  else if idx.metadata.keyKind = .unknown then
    throw (.throws .invalidArgument (text "Metadata must be provided for new index"))
  else saveMetadata

/-- The members of a `BStarPlusIndex` on which its constructor starts. -/
def onFile (file : Option IndexFile) : BStarPlusIndex := ⟨.ofFile file, {}⟩

/-- A file with metadata is opened with them. -/
theorem loadMetadata_eq {kind : IndexKeyKind} {idx : BStarPlusIndex}
    {metadata : BStarPlusIndexMetadata} (read : idx.disk.readMetadata = metadata)
    (known : metadata.keyKind ≠ .unknown) :
    loadMetadata kind idx = .ok ⟨⟩ { idx with metadata } := by
  change (if idx.disk.readMetadata.keyKind ≠ .unknown then
    modifyMetadata fun _ => idx.disk.readMetadata else _ : IndexM PUnit) _ = _
  rw [read, if_pos known]
  rfl

end BStarPlusIndex
end CwDb.Index
