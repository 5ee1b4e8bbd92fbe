/-
  Index/SearchEnd.lean --- when `find` and `range_search` end.

  Neither keeps the pages it has read, nor counts them against the height: the ids in the
  pages alone decide where a search goes.  On a file in which they lead back, it never ends;
  and where the next leaf is an internal page, `range_search` reads records that are not there.
-/
import CwDb.Foundation.Walk
import CwDb.Index.BStarPlusIndex
import CwDb.Index.NodeSize

set_option autoImplicit false

namespace CwDb.Index

open CwDb.Cpp
open CwDb.Foundation

/-! ## Reading a page ends -/

/-- The computation returns or throws. -/
def Finishes {α : Type} (x : Except Fault α) : Prop :=
  ∀ fault, x = .error fault → ∃ cls what, fault = .throws cls what

variable {α β : Type}

theorem finishes_ok (a : α) : Finishes (.ok a : Except Fault α) := by
  intro fault h
  cases h

theorem finishes_raise (cls : ExceptionClass) (what : ByteString) :
    Finishes (raise cls what : Except Fault α) :=
  fun _ h => ⟨cls, what, (Except.error.inj h).symm⟩

theorem finishes_error {fault : Fault} (h : Finishes (.error fault : Except Fault α)) :
    Finishes (.error fault : Except Fault β) :=
  fun _ heq => h _ (congrArg Except.error (Except.error.inj heq))

theorem finishes_bind {x : Except Fault α} {f : α → Except Fault β} (hx : Finishes x)
    (hf : ∀ a, Finishes (f a)) : Finishes (x >>= f) := by
  cases x with
  | ok a => exact hf a
  | error fault => exact finishes_error hx

theorem not_finishes_diverges : ¬ Finishes (.error .diverges : Except Fault α) := by
  intro h
  obtain ⟨cls, what, heq⟩ := h _ rfl
  cases heq

theorem not_finishes_outOfBounds : ¬ Finishes (.error .outOfBounds : Except Fault α) := by
  intro h
  obtain ⟨cls, what, heq⟩ := h _ rfl
  cases heq

/-- What comes first has to finish. -/
theorem Finishes.of_bind {x : Except Fault α} {f : α → Except Fault β} (h : Finishes (x >>= f)) :
    Finishes x := by
  cases x with
  | ok a => exact finishes_ok a
  | error fault => exact finishes_error h

theorem finishes_readScalar [Scalar α] (page : PageSuffix) : Finishes (readScalar α page) := by
  unfold readScalar
  split
  · exact finishes_raise _ _
  · exact finishes_ok _

theorem finishes_readKey (kind : IndexKeyKind) (page : PageSuffix) :
    Finishes (readKey kind page) := by
  unfold readKey
  split
  · exact finishes_bind (finishes_readScalar page) fun _ => finishes_ok _
  split
  · split
    · exact finishes_raise _ _
    · exact finishes_ok _
  · exact finishes_raise _ _

theorem finishes_readMany {read : PageSuffix → Except Fault (α × PageSuffix)}
    (h : ∀ page, Finishes (read page)) (count : Nat) (page : PageSuffix) :
    Finishes (readMany read count page) := by
  induction count generalizing page with
  | zero => exact finishes_ok _
  | succ count ih =>
      exact finishes_bind (h page) fun _ => finishes_bind (ih _) fun _ => finishes_ok _

theorem finishes_readNodeBody (kind : IndexKeyKind) (nodeType : UInt8)
    (pageId nextLeafPageId : PageId) (keyCount payloadCount : UInt32) (page : PageSuffix) :
    Finishes (readNodeBody kind nodeType pageId nextLeafPageId keyCount payloadCount page) := by
  have payload : ∀ page, Finishes (readMany (readScalar UInt64) payloadCount.toNat page) :=
    finishes_readMany finishes_readScalar _
  unfold readNodeBody
  refine finishes_bind (finishes_readMany (finishes_readKey kind) _ page) ?_
  rintro ⟨keys, page'⟩
  dsimp only
  split
  · split
    · exact finishes_raise _ _
    · exact finishes_bind (payload _) fun _ => finishes_ok _
  · split
    · exact finishes_raise _ _
    · exact finishes_bind (payload _) fun _ => finishes_ok _

theorem finishes_validateNodeShape (node : IndexNode) : Finishes (validateNodeShape node) := by
  unfold validateNodeShape
  split_ifs
  all_goals first
    | exact finishes_raise _ _
    | exact finishes_ok _

theorem finishes_deserializeNode (data : List UInt8) (kind : IndexKeyKind) :
    Finishes (deserializeNode data kind) := by
  unfold deserializeNode
  split
  · exact finishes_raise _ _
  refine finishes_bind (finishes_readScalar _) ?_
  rintro ⟨magic, page₁⟩
  dsimp only
  split
  · exact finishes_raise _ _
  refine finishes_bind (finishes_readScalar _) ?_
  rintro ⟨version, page₂⟩
  dsimp only
  split
  · exact finishes_raise _ _
  refine finishes_bind (finishes_readScalar _) ?_
  rintro ⟨nodeType, page₃⟩
  refine finishes_bind (finishes_readScalar _) ?_
  rintro ⟨reserved, page₄⟩
  dsimp only
  split
  · exact finishes_raise _ _
  refine finishes_bind (finishes_readScalar _) ?_
  rintro ⟨pageId, page₅⟩
  refine finishes_bind (finishes_readScalar _) ?_
  rintro ⟨nextLeafPageId, page₆⟩
  refine finishes_bind (finishes_readScalar _) ?_
  rintro ⟨keyCount, page₇⟩
  refine finishes_bind (finishes_readScalar _) ?_
  rintro ⟨payloadCount, page₈⟩
  dsimp only
  split
  · exact finishes_raise _ _
  refine finishes_bind (finishes_readNodeBody _ _ _ _ _ _ _) fun node => ?_
  exact finishes_bind (finishes_validateNodeShape _) fun _ => finishes_ok _

theorem finishes_seekPage (pageId : PageId) (refusal : ByteString) :
    Finishes (seekPage pageId refusal) := by
  unfold seekPage pageOffset
  refine finishes_bind ?_ fun _ => ?_
  · split
    · exact finishes_raise _ _
    · exact finishes_ok _
  · split
    · exact finishes_raise _ _
    · exact finishes_ok _

theorem finishes_validateExistingPageId (disk : DiskPageManager) (pageId : PageId) :
    Finishes (disk.validateExistingPageId pageId) := by
  unfold DiskPageManager.validateExistingPageId
  split
  · exact finishes_raise _ _
  · exact finishes_ok _

theorem finishes_readPage (disk : DiskPageManager) (pageId : PageId) :
    Finishes (disk.readPage pageId) := by
  unfold DiskPageManager.readPage
  refine finishes_bind (finishes_validateExistingPageId disk pageId) fun _ => ?_
  refine finishes_bind (finishes_seekPage pageId _) fun _ => ?_
  split
  · exact finishes_ok _
  · exact finishes_raise _ _

namespace BStarPlusIndex

variable {idx : BStarPlusIndex} {p q : PageId} {node : IndexNode} {low high : IndexKey}

theorem finishes_readNode (idx : BStarPlusIndex) (p : PageId) : Finishes (idx.readNode p) :=
  finishes_bind (finishes_readPage idx.disk p) fun page => finishes_deserializeNode page _

theorem lt_pageCount_of_readNode (h : idx.readNode p = .ok node) :
    p.toNat < idx.disk.pageCount.toNat := by
  unfold readNode DiskPageManager.readPage DiskPageManager.validateExistingPageId at h
  split at h
  · cases h
  · next hvalid =>
      rw [not_or, not_le] at hvalid
      exact hvalid.2

/-! ## Where a search goes -/

/-- The child that the descent for a key goes on to. -/
def descend (idx : BStarPlusIndex) (key : IndexKey) (p : PageId) : Option PageId :=
  if p = invalidPageId then none
  else
    match idx.readNode p with
    | .ok node =>
        if node.isLeaf then none else node.children[childIndexForKey node.keys key]?
    | .error _ => none

/-- The leaf that a range search goes on to behind the leaf in `p`. -/
def leafAfter (idx : BStarPlusIndex) (low high : IndexKey) (p : PageId) : Option PageId :=
  match idx.readNode p with
  | .ok leaf =>
      if leaf.pageId = invalidPageId ∨ idx.disk.pageCount ≤ leaf.pageId then none
      else
        match scanKeys low high leaf.records 0 leaf.keys with
        | .ok (_, past) =>
            if past ∨ leaf.nextLeafPageId = invalidPageId then none
            else
              match idx.readNode leaf.nextLeafPageId with
              | .ok _ => some leaf.nextLeafPageId
              | .error _ => none
        | .error _ => none
  | .error _ => none

/-- A range search that comes to `p` asks an internal node for a record: its first key that is
not below the range is in it. -/
def ReadsOutside (idx : BStarPlusIndex) (low high : IndexKey) (p : PageId) : Prop :=
  ∃ node key, idx.readNode p = .ok node ∧ node.isLeaf = false ∧
    node.pageId ≠ invalidPageId ∧ node.pageId < idx.disk.pageCount ∧
    node.keys.find? (fun k => low ≤ k) = some key ∧ key ≤ high

/-- `find`, with at most `fuel` rounds of its loop. -/
def findWithin (idx : BStarPlusIndex) (key : IndexKey) (fuel : Nat) :
    Except Fault (Option UInt64) := do
  validateKeyKind key idx.metadata.keyKind
  if idx.metadata.empty then pure none
  else idx.findLoop key fuel idx.metadata.rootPageId

/-- `range_search`, with at most `fuel` rounds of each of its loops. -/
def rangeSearchWithin (idx : BStarPlusIndex) (low high : IndexKey) (fuel : Nat) :
    Except Fault (List UInt64) := do
  validateKeyKind low idx.metadata.keyKind
  validateKeyKind high idx.metadata.keyKind
  if idx.metadata.empty ∨ high < low then pure []
  else
    let (leaf, _) ← idx.findLeafLoop low fuel idx.metadata.rootPageId []
    idx.rangeLoop low high fuel leaf

theorem findWithin_walkBound (idx : BStarPlusIndex) (key : IndexKey) :
    idx.findWithin key idx.walkBound = idx.find key := rfl

theorem rangeSearchWithin_walkBound (idx : BStarPlusIndex) (low high : IndexKey) :
    idx.rangeSearchWithin low high idx.walkBound = idx.rangeSearch low high := rfl

/-! ## The loop over the keys -/

theorem exists_scanKeys {records : List UInt64} {keys : List IndexKey} {j : Nat}
    (count : records.length = j + keys.length) :
    ∃ found, scanKeys low high records j keys = .ok found := by
  induction keys generalizing j with
  | nil => exact ⟨_, rfl⟩
  | cons key keys ih =>
      rw [List.length_cons] at count
      obtain ⟨found, hscan⟩ := ih (j := j + 1) (by omega)
      have hrecord : vectorIndex records j = .ok records[j] := by
        unfold vectorIndex
        rw [List.getElem?_eq_getElem (by omega)]
      rw [scanKeys]
      split
      · exact ⟨found, hscan⟩
      split
      · exact ⟨_, rfl⟩
      · rw [hrecord, hscan]
        exact ⟨_, rfl⟩

/-- Where there are no records, the first key that is not below the range decides. -/
theorem scanKeys_nil (low high : IndexKey) (keys : List IndexKey) (j : Nat) :
    ((∃ found, scanKeys low high [] j keys = .ok found) ∧
        ∀ key, keys.find? (fun k => low ≤ k) = some key → ¬ key ≤ high) ∨
      scanKeys low high [] j keys = .error .outOfBounds ∧
        ∃ key, keys.find? (fun k => low ≤ k) = some key ∧ key ≤ high := by
  induction keys generalizing j with
  | nil => exact .inl ⟨⟨_, rfl⟩, fun key h => by cases h⟩
  | cons key keys ih =>
      rw [scanKeys]
      by_cases hlow : key < low
      · rw [if_pos hlow, List.find?_cons_of_neg (by simpa using hlow)]
        exact ih (j + 1)
      have hfirst : (key :: keys).find? (fun k => low ≤ k) = some key :=
        List.find?_cons_of_pos (by simpa using hlow)
      rw [if_neg hlow, hfirst]
      by_cases hhigh : high < key
      · rw [if_pos hhigh]
        refine .inl ⟨⟨_, rfl⟩, fun key' heq => ?_⟩
        obtain rfl := Option.some.inj heq
        exact not_le_of_gt hhigh
      · rw [if_neg hhigh]
        exact .inr ⟨rfl, key, rfl, le_of_not_gt hhigh⟩

theorem shaped_of_readNode (read : idx.readNode p = .ok node) : node.Shaped := by
  unfold readNode at read
  cases hpage : idx.disk.readPage p with
  | error fault =>
      rw [hpage] at read
      cases read
  | ok page =>
      rw [hpage] at read
      exact (deserializeNode_spec read).1

/-- The loop over the keys of a page either comes to its end or reads outside. -/
theorem scanKeys_cases (read : idx.readNode p = .ok node)
    (inside : ¬ (node.pageId = invalidPageId ∨ idx.disk.pageCount ≤ node.pageId)) :
    ((∃ found, scanKeys low high node.records 0 node.keys = .ok found) ∧
        ¬ idx.ReadsOutside low high p) ∨
      scanKeys low high node.records 0 node.keys = .error .outOfBounds ∧
        idx.ReadsOutside low high p := by
  have hshaped := shaped_of_readNode read
  cases hleaf : node.isLeaf with
  | true =>
      refine .inl ⟨exists_scanKeys ?_, ?_⟩
      · rw [Nat.zero_add]
        exact (hshaped.leaf hleaf).2
      · rintro ⟨node', key, read', hinternal, -⟩
        obtain rfl := Except.ok.inj (read.symm.trans read')
        rw [hleaf] at hinternal
        cases hinternal
  | false =>
      rw [not_or, UInt64.not_le] at inside
      rw [(hshaped.internal hleaf).1]
      rcases scanKeys_nil low high node.keys 0 with ⟨hscan, hnone⟩ | ⟨hscan, key, hkey, hle⟩
      · refine .inl ⟨hscan, ?_⟩
        rintro ⟨node', key, read', -, -, -, hkey, hle⟩
        obtain rfl := Except.ok.inj (read.symm.trans read')
        exact hnone key hkey hle
      · exact .inr ⟨hscan, node, key, read, hleaf, inside.1, inside.2, hkey, hle⟩

/-! ## The loops follow the walks -/

theorem findLoop_finishes_iff (idx : BStarPlusIndex) (key : IndexKey) (fuel : Nat) (p : PageId) :
    Finishes (idx.findLoop key fuel p) ↔ walk (idx.descend key) fuel p = none := by
  induction fuel generalizing p with
  | zero =>
      exact iff_of_false not_finishes_diverges (fun h => by cases h)
  | succ fuel ih =>
      change _ ↔ (idx.descend key p).bind (walk (idx.descend key) fuel) = none
      unfold findLoop descend
      split
      · exact iff_of_true (finishes_ok _) rfl
      cases hread : idx.readNode p with
      | error e =>
          exact iff_of_true (finishes_error (hread ▸ finishes_readNode idx p)) rfl
      | ok node =>
          change Finishes (if node.isLeaf = true then _ else _) ↔ _
          dsimp only
          split
          · refine iff_of_true ?_ rfl
            split
            · exact finishes_ok _
            · exact finishes_ok _
          cases hchild : node.children[childIndexForKey node.keys key]? with
          | none => exact iff_of_true (finishes_raise _ _) rfl
          | some child => exact ih child

theorem findLeafLoop_finishes_iff (idx : BStarPlusIndex) (key : IndexKey) (fuel : Nat)
    (p : PageId) (path : List PageId) :
    Finishes (idx.findLeafLoop key fuel p path) ↔ walk (idx.descend key) fuel p = none := by
  induction fuel generalizing p path with
  | zero =>
      exact iff_of_false not_finishes_diverges (fun h => by cases h)
  | succ fuel ih =>
      change _ ↔ (idx.descend key p).bind (walk (idx.descend key) fuel) = none
      unfold findLeafLoop descend
      split
      · exact iff_of_true (finishes_raise _ _) rfl
      cases hread : idx.readNode p with
      | error e =>
          exact iff_of_true (finishes_error (hread ▸ finishes_readNode idx p)) rfl
      | ok node =>
          change Finishes (if node.isLeaf = true then _ else _) ↔ _
          dsimp only
          split
          · exact iff_of_true (finishes_ok _) rfl
          cases hchild : node.children[childIndexForKey node.keys key]? with
          | none => exact iff_of_true (finishes_raise _ _) rfl
          | some child => exact ih child _

theorem rangeLoop_finishes_iff (low high : IndexKey) (fuel : Nat) {leaf : IndexNode}
    (read : idx.readNode p = .ok leaf) :
    Finishes (idx.rangeLoop low high fuel leaf) ↔
      walk (idx.leafAfter low high) fuel p = none ∧
        ∀ q, Reaches (idx.leafAfter low high) p q → ¬ idx.ReadsOutside low high q := by
  induction fuel generalizing p leaf with
  | zero =>
      exact iff_of_false not_finishes_diverges (fun h => by cases h.1)
  | succ fuel ih =>
      change _ ↔ (idx.leafAfter low high p).bind (walk (idx.leafAfter low high) fuel) = none ∧ _
      -- where the walk stops, the page at hand is all that it reaches
      have hstops : idx.leafAfter low high p = none → ¬ idx.ReadsOutside low high p →
          ((idx.leafAfter low high p).bind (walk (idx.leafAfter low high) fuel) = none ∧
            ∀ q, Reaches (idx.leafAfter low high) p q → ¬ idx.ReadsOutside low high q) := by
        intro hnone hreads
        refine ⟨by rw [hnone]; rfl, fun q hq => ?_⟩
        rw [(reaches_of_none hnone).mp hq]
        exact hreads
      unfold rangeLoop
      by_cases hinside : leaf.pageId = invalidPageId ∨ idx.disk.pageCount ≤ leaf.pageId
      · rw [if_pos hinside]
        refine iff_of_true (finishes_ok _) (hstops ?_ ?_)
        · unfold leafAfter
          rw [read]
          exact if_pos hinside
        · rintro ⟨node, key, read', -, hvalid, hlt, -⟩
          obtain rfl := Except.ok.inj (read.symm.trans read')
          rcases hinside with h | h
          · exact hvalid h
          · exact UInt64.not_lt.mpr h hlt
      rw [if_neg hinside]
      rcases @scanKeys_cases _ _ _ low high read hinside with
        ⟨⟨⟨records, past⟩, hscan⟩, hreads⟩ | ⟨hscan, hreads⟩
      swap
      · rw [hscan]
        exact iff_of_false not_finishes_outOfBounds
          fun h => h.2 p ⟨0, rfl⟩ hreads
      have hafter : idx.leafAfter low high p =
          if past = true ∨ leaf.nextLeafPageId = invalidPageId then none
          else
            match idx.readNode leaf.nextLeafPageId with
            | .ok _ => some leaf.nextLeafPageId
            | .error _ => none := by
        unfold leafAfter
        rw [read]
        dsimp only
        rw [if_neg hinside, hscan]
      rw [hscan]
      change Finishes (if past = true ∨ leaf.nextLeafPageId = invalidPageId then _ else _) ↔ _
      by_cases hstop : past = true ∨ leaf.nextLeafPageId = invalidPageId
      · rw [if_pos hstop] at hafter ⊢
        exact iff_of_true (finishes_ok _) (hstops hafter hreads)
      rw [if_neg hstop] at hafter ⊢
      cases hread : idx.readNode leaf.nextLeafPageId with
      | error e =>
          rw [hread] at hafter
          exact iff_of_true (finishes_error (hread ▸ finishes_readNode idx _))
            (hstops hafter hreads)
      | ok next =>
          rw [hread] at hafter
          have hnext : Finishes (idx.rangeLoop low high fuel next >>= fun rest =>
              pure (records ++ rest)) ↔ Finishes (idx.rangeLoop low high fuel next) :=
            ⟨Finishes.of_bind, fun h => finishes_bind h fun _ => finishes_ok _⟩
          refine hnext.trans ((ih hread).trans (and_congr ?_ ?_))
          · rw [hafter]
            rfl
          · constructor
            · intro h q hq
              rcases (reaches_of_some hafter).mp hq with rfl | hq
              · exact hreads
              · exact h q hq
            · exact fun h q hq => h q ((reaches_of_some hafter).mpr (.inr hq))

/-- A search that has ended does not use more rounds. -/
theorem findLeafLoop_of_le {key : IndexKey} {fuel fuel' : Nat} {path : List PageId}
    (finishes : Finishes (idx.findLeafLoop key fuel p path)) (le : fuel ≤ fuel') :
    idx.findLeafLoop key fuel' p path = idx.findLeafLoop key fuel p path := by
  induction fuel generalizing p path fuel' with
  | zero => exact absurd finishes not_finishes_diverges
  | succ fuel ih =>
      obtain ⟨fuel', rfl⟩ : ∃ less, fuel' = less + 1 := ⟨fuel' - 1, by omega⟩
      unfold findLeafLoop at finishes ⊢
      split
      · rfl
      next hvalid =>
      rw [if_neg hvalid] at finishes
      cases hread : idx.readNode p with
      | error e => rfl
      | ok node =>
          rw [hread] at finishes
          change Finishes (if node.isLeaf = true then _ else _) at finishes
          change (if node.isLeaf = true then _ else _) = (if node.isLeaf = true then _ else _)
          split
          · rfl
          next hleaf =>
          rw [if_neg hleaf] at finishes
          cases hchild : node.children[childIndexForKey node.keys key]? with
          | none => rfl
          | some child =>
              rw [hchild] at finishes
              exact ih finishes (by omega)

/-- The leaf stands in the last page of the path. -/
theorem exists_of_findLeafLoop {key : IndexKey} {fuel : Nat} {path path' : List PageId}
    {leaf : IndexNode} (h : idx.findLeafLoop key fuel p path = .ok (leaf, path')) :
    ∃ q rest, path' = q :: rest ∧ idx.readNode q = .ok leaf := by
  induction fuel generalizing p path with
  | zero => cases h
  | succ fuel ih =>
      unfold findLeafLoop at h
      split at h
      · cases h
      cases hread : idx.readNode p with
      | error e =>
          rw [hread] at h
          cases h
      | ok node =>
          rw [hread] at h
          change (if node.isLeaf = true then _ else _) = _ at h
          split at h
          · obtain ⟨rfl, rfl⟩ := Prod.mk.inj (Except.ok.inj h)
            exact ⟨p, path, rfl, hread⟩
          cases hchild : node.children[childIndexForKey node.keys key]? with
          | none =>
              rw [hchild] at h
              cases h
          | some child =>
              rw [hchild] at h
              exact ih h

/-! ## When they end -/

theorem lt_pageCount_of_descend {key : IndexKey} (h : idx.descend key p = some q) :
    p.toNat < idx.disk.pageCount.toNat := by
  unfold descend at h
  split at h
  · cases h
  split at h
  · next node hread => exact lt_pageCount_of_readNode hread
  · cases h

theorem lt_pageCount_of_leafAfter {low high : IndexKey} (h : idx.leafAfter low high p = some q) :
    p.toNat < idx.disk.pageCount.toNat := by
  unfold leafAfter at h
  split at h
  · next leaf hread => exact lt_pageCount_of_readNode hread
  · cases h

theorem toNat_injective : Function.Injective (UInt64.toNat : PageId → Nat) :=
  fun _ _ h => UInt64.toNat_inj.mp h

/-- The key is one of the index, and there is a root. -/
def Starts (idx : BStarPlusIndex) (key : IndexKey) : Prop :=
  keyMatchesKind key idx.metadata.keyKind = true ∧ idx.metadata.empty = false

theorem walkEnds_descend_iff (idx : BStarPlusIndex) (key : IndexKey) (p : PageId) :
    (WalkEnds (idx.descend key) p ↔ ¬ Revisits (idx.descend key) p) ∧
      (¬ Revisits (idx.descend key) p → walk (idx.descend key) idx.walkBound p = none) :=
  ⟨walkEnds_iff toNat_injective fun _ _ => lt_pageCount_of_descend,
    walk_eq_none_of_not_revisits toNat_injective fun _ _ => lt_pageCount_of_descend⟩

theorem walkEnds_leafAfter_iff (idx : BStarPlusIndex) (low high : IndexKey) (p : PageId) :
    (WalkEnds (idx.leafAfter low high) p ↔ ¬ Revisits (idx.leafAfter low high) p) ∧
      (¬ Revisits (idx.leafAfter low high) p →
        walk (idx.leafAfter low high) idx.walkBound p = none) :=
  ⟨walkEnds_iff toNat_injective fun _ _ => lt_pageCount_of_leafAfter,
    walk_eq_none_of_not_revisits toNat_injective fun _ _ => lt_pageCount_of_leafAfter⟩

theorem finishes_findWithin_iff (idx : BStarPlusIndex) (key : IndexKey) (fuel : Nat) :
    Finishes (idx.findWithin key fuel) ↔
      (idx.Starts key → walk (idx.descend key) fuel idx.metadata.rootPageId = none) := by
  unfold findWithin validateKeyKind Starts
  by_cases hkind : keyMatchesKind key idx.metadata.keyKind = true
  · rw [if_pos hkind]
    change Finishes (if idx.metadata.empty = true then _ else _) ↔ _
    cases hempty : idx.metadata.empty with
    | true => exact iff_of_true (finishes_ok _) fun h => by cases h.2
    | false =>
        rw [if_neg Bool.false_ne_true, findLoop_finishes_iff]
        exact ⟨fun h _ => h, fun h => h ⟨hkind, rfl⟩⟩
  · rw [if_neg hkind]
    exact iff_of_true (finishes_raise _ _) fun h => absurd h.1 hkind

/-- The range search has a leaf to look for. -/
def StartsRange (idx : BStarPlusIndex) (low high : IndexKey) : Prop :=
  idx.Starts low ∧ idx.Starts high ∧ ¬ high < low

/-- The leaf that a range search begins with, by the page it stands in. -/
def BeginsAt (idx : BStarPlusIndex) (low : IndexKey) (p : PageId) : Prop :=
  ∃ leaf path, idx.findLeaf low = .ok (leaf, p :: path)

theorem finishes_rangeSearchWithin_iff (idx : BStarPlusIndex) (low high : IndexKey) (fuel : Nat) :
    Finishes (idx.rangeSearchWithin low high fuel) ↔
      (idx.StartsRange low high →
        walk (idx.descend low) fuel idx.metadata.rootPageId = none ∧
        ∀ p, idx.BeginsAt low p → walk (idx.leafAfter low high) fuel p = none ∧
          ∀ q, Reaches (idx.leafAfter low high) p q → ¬ idx.ReadsOutside low high q) := by
  unfold rangeSearchWithin validateKeyKind StartsRange Starts
  by_cases hlow : keyMatchesKind low idx.metadata.keyKind = true
  swap
  · rw [if_neg hlow]
    exact iff_of_true (finishes_raise _ _) fun h => absurd h.1.1 hlow
  by_cases hhigh : keyMatchesKind high idx.metadata.keyKind = true
  swap
  · rw [if_pos hlow, if_neg hhigh]
    exact iff_of_true (finishes_raise _ _) fun h => absurd h.2.1.1 hhigh
  rw [if_pos hlow, if_pos hhigh]
  change Finishes (if idx.metadata.empty = true ∨ high < low then _ else _) ↔ _
  split
  · next hnone =>
      refine iff_of_true (finishes_ok _) fun h => ?_
      rcases hnone with hempty | hless
      · rw [h.1.2] at hempty
        cases hempty
      · exact absurd hless h.2.2
  next hsome =>
  rw [not_or] at hsome
  have hempty : idx.metadata.empty = false := Bool.not_eq_true _ ▸ hsome.1
  have hstarts : (keyMatchesKind low idx.metadata.keyKind = true ∧ idx.metadata.empty = false) ∧
      (keyMatchesKind high idx.metadata.keyKind = true ∧ idx.metadata.empty = false) ∧
      ¬ high < low := ⟨⟨hlow, hempty⟩, ⟨hhigh, hempty⟩, hsome.2⟩
  have hloop := findLeafLoop_finishes_iff idx low fuel idx.metadata.rootPageId []
  -- the leaf found with this fuel is the one that `find_leaf` finds
  have hleaf : Finishes (idx.findLeafLoop low fuel idx.metadata.rootPageId []) →
      idx.findLeafLoop low fuel idx.metadata.rootPageId [] = idx.findLeaf low := by
    intro hfinish
    have hends : WalkEnds (idx.descend low) idx.metadata.rootPageId := ⟨fuel, hloop.mp hfinish⟩
    have hbound := (walkEnds_descend_iff idx low _).2
      ((walkEnds_descend_iff idx low _).1.mp hends)
    have hfind := (findLeafLoop_finishes_iff idx low idx.walkBound _ []).mpr hbound
    rcases Nat.le_total fuel idx.walkBound with hle | hle
    · exact (findLeafLoop_of_le hfinish hle).symm
    · exact findLeafLoop_of_le hfind hle
  constructor
  · intro h _
    have hfinish : Finishes (idx.findLeafLoop low fuel idx.metadata.rootPageId []) := h.of_bind
    refine ⟨hloop.mp hfinish, ?_⟩
    rintro p ⟨leaf, path, hfound⟩
    rw [hleaf hfinish, hfound] at h
    obtain ⟨q, rest, hpath, hread⟩ := exists_of_findLeafLoop hfound
    obtain ⟨rfl, rfl⟩ := List.cons.inj hpath
    exact (rangeLoop_finishes_iff low high fuel hread).mp h
  · intro h
    obtain ⟨hdescend, hrange⟩ := h hstarts
    have hfinish := hloop.mpr hdescend
    rw [hleaf hfinish]
    rw [hleaf hfinish] at hfinish
    cases hfound : idx.findLeaf low with
    | error e =>
        rw [hfound] at hfinish
        exact finishes_error hfinish
    | ok found =>
        obtain ⟨leaf, path⟩ := found
        obtain ⟨p, rest, rfl, hread⟩ := exists_of_findLeafLoop hfound
        exact (rangeLoop_finishes_iff low high fuel hread).mpr
          (hrange p ⟨leaf, rest, hfound⟩)

/-- The walk of the range search comes to no page twice, and to none whose records it would
read and that has none. -/
def RangeEnds (idx : BStarPlusIndex) (low high : IndexKey) (p : PageId) : Prop :=
  ¬ Revisits (idx.leafAfter low high) p ∧
    ∀ q, Reaches (idx.leafAfter low high) p q → ¬ idx.ReadsOutside low high q

/-- A search of any index file returns or throws, in no more rounds than the file has pages and
one, just when the pages it goes through come up once and a range search asks no internal node for
a record; when a page comes up again it never ends. -/
theorem searches_end_iff (idx : BStarPlusIndex) (key low high : IndexKey) :
    ((∃ fuel, Finishes (idx.findWithin key fuel)) ↔
      (idx.Starts key → ¬ Revisits (idx.descend key) idx.metadata.rootPageId)) ∧
    ((∃ fuel, Finishes (idx.findWithin key fuel)) → Finishes (idx.find key)) ∧
    ((∃ fuel, Finishes (idx.rangeSearchWithin low high fuel)) ↔
      (idx.StartsRange low high → ¬ Revisits (idx.descend low) idx.metadata.rootPageId ∧
        ∀ p, idx.BeginsAt low p → idx.RangeEnds low high p)) ∧
    ((∃ fuel, Finishes (idx.rangeSearchWithin low high fuel)) →
      Finishes (idx.rangeSearch low high)) := by
  have hfind : (∃ fuel, Finishes (idx.findWithin key fuel)) →
      idx.Starts key → ¬ Revisits (idx.descend key) idx.metadata.rootPageId := by
    rintro ⟨fuel, hfinish⟩ hstarts
    exact (walkEnds_descend_iff idx key _).1.mp
      ⟨fuel, (finishes_findWithin_iff idx key fuel).mp hfinish hstarts⟩
  have hfindBound : (idx.Starts key → ¬ Revisits (idx.descend key) idx.metadata.rootPageId) →
      Finishes (idx.findWithin key idx.walkBound) := fun h =>
    (finishes_findWithin_iff idx key _).mpr fun hstarts =>
      (walkEnds_descend_iff idx key _).2 (h hstarts)
  have hrange : (∃ fuel, Finishes (idx.rangeSearchWithin low high fuel)) →
      idx.StartsRange low high → ¬ Revisits (idx.descend low) idx.metadata.rootPageId ∧
        ∀ p, idx.BeginsAt low p → idx.RangeEnds low high p := by
    rintro ⟨fuel, hfinish⟩ hstarts
    obtain ⟨hdescend, hleaves⟩ := (finishes_rangeSearchWithin_iff idx low high fuel).mp hfinish
      hstarts
    refine ⟨(walkEnds_descend_iff idx low _).1.mp ⟨fuel, hdescend⟩, fun p hp => ?_⟩
    obtain ⟨hwalk, hreads⟩ := hleaves p hp
    exact ⟨(walkEnds_leafAfter_iff idx low high p).1.mp ⟨fuel, hwalk⟩, hreads⟩
  have hrangeBound : (idx.StartsRange low high →
      ¬ Revisits (idx.descend low) idx.metadata.rootPageId ∧
        ∀ p, idx.BeginsAt low p → idx.RangeEnds low high p) →
      Finishes (idx.rangeSearchWithin low high idx.walkBound) := by
    intro h
    refine (finishes_rangeSearchWithin_iff idx low high _).mpr fun hstarts => ?_
    obtain ⟨hdescend, hleaves⟩ := h hstarts
    exact ⟨(walkEnds_descend_iff idx low _).2 hdescend, fun p hp =>
      ⟨(walkEnds_leafAfter_iff idx low high p).2 (hleaves p hp).1, (hleaves p hp).2⟩⟩
  exact ⟨⟨hfind, fun h => ⟨_, hfindBound h⟩⟩, fun h => hfindBound (hfind h),
    ⟨hrange, fun h => ⟨_, hrangeBound h⟩⟩, fun h => hrangeBound (hrange h)⟩

/-! ## A file that leads back -/

/-- An internal node that is its own child. -/
def ownChild : IndexNode := { isLeaf := false, pageId := 0, children := [0] }

theorem storable_ownChild : ownChild.Storable .int64 where
  shaped := { leaf := fun h => absurd h Bool.false_ne_true, internal := fun _ => ⟨rfl, rfl⟩ }
  admissible key h := absurd h List.not_mem_nil
  fits := by decide

/-- Its root is that node. -/
def ownChildMetadata : BStarPlusIndexMetadata where
  rootPageId := 0
  firstLeafPageId := 0
  height := 2
  size := 1
  keyKind := .int64

/-- A file with that page alone. -/
def ownChildFile : IndexFile where
  header := IndexFile.writeHeader zeroPage ownChildMetadata
  pages := [storable_ownChild.page]

def ownChildIndex : BStarPlusIndex := ⟨.ofFile (some ownChildFile), ownChildMetadata⟩

theorem readNode_of_page (idx : BStarPlusIndex) (storable : node.Storable idx.metadata.keyKind)
    (read : idx.disk.readPage p = .ok storable.page.bytes) : idx.readNode p = .ok node := by
  unfold readNode
  rw [read]
  exact deserializeNode_eq storable

theorem readNode_ownChild : ownChildIndex.readNode 0 = .ok ownChild :=
  readNode_of_page ownChildIndex storable_ownChild
    (DiskPageManager.readPage_eq { counted := rfl, addressable := by decide } rfl)

/-- The constructor accepts the file, and no number of rounds is enough to look a key up. -/
theorem find_ownChild :
    loadMetadata .int64 (onFile (some ownChildFile)) = .ok ⟨⟩ ownChildIndex ∧
      ¬ ∃ fuel, Finishes (ownChildIndex.findWithin (.int 1) fuel) := by
  have hread : (onFile (some ownChildFile)).disk.readMetadata = ownChildMetadata :=
    BStarPlusIndexMetadata.decode_encode_append ownChildMetadata _
  refine ⟨loadMetadata_eq hread (by decide), ?_⟩
  have hdescend : ownChildIndex.descend (.int 1) 0 = some 0 := by
    unfold descend
    rw [if_neg (by decide), readNode_ownChild]
    rfl
  have hstarts : ownChildIndex.Starts (.int 1) := ⟨rfl, rfl⟩
  have hrevisits : Revisits (ownChildIndex.descend (.int 1)) 0 :=
    ⟨0, 1, 0, Nat.one_pos, rfl, by
      change (ownChildIndex.descend (.int 1) 0).bind _ = _
      rw [hdescend]
      rfl⟩
  rintro ⟨fuel, hfinish⟩
  exact not_walkEnds_of_revisits hrevisits
    ⟨fuel, (finishes_findWithin_iff ownChildIndex (.int 1) fuel).mp hfinish hstarts⟩

end BStarPlusIndex
end CwDb.Index
