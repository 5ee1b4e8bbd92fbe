/-
  Index/RefusedKeys.lean --- an index that is handed keys which it does not take.

  A key of the other kind is refused before anything is done, a key with a zero byte when the
  leaf is measured.  By then an index without a root has allocated a page, which it loses.
-/
import CwDb.Index.MapRefinement

set_option autoImplicit false

namespace CwDb.Index

open CwDb.Cpp
open CwDb.Foundation

/-! ## Nodes that cannot be written -/

theorem keyMatchesKind_of_validateKeyKind {kind : IndexKeyKind} {key : IndexKey}
    (valid : validateKeyKind key kind = .ok ()) : keyMatchesKind key kind = true := by
  unfold validateKeyKind at valid
  split at valid
  · next hmatch => exact hmatch
  · cases valid

/-- The first key that cannot be stored decides how writing the node fails. -/
theorem serializeNode_refused {kind : IndexKeyKind} {node : IndexNode} {key : IndexKey}
    {before after : List IndexKey} {fault : Fault} (shaped : node.Shaped)
    (few : node.keys.length < pageSize)
    (kinds : ∀ k ∈ node.keys, keyMatchesKind k kind = true)
    (keys : node.keys = before ++ key :: after) (admissible : ∀ k ∈ before, Admissible kind k)
    (refused : serializedKeySize key = .error fault) : serializeNode node kind = .error fault := by
  have hpayload := shaped.payload_length
  have hfew : ¬ 2 ^ 32 - 1 < node.payload.length := by
    simp only [pageSize] at few
    split at hpayload <;> omega
  have hkind : validateKeyKind key kind = .ok () := by
    rw [validateKeyKind, if_pos (kinds key (by rw [keys]; simp))]
  have hsize : serializedNodeSize node kind = .error fault := by
    have hloop : node.keys.foldlM (fun size key => do
        validateKeyKind key kind
        let keySize ← serializedKeySize key
        pure (size + keySize)) indexNodeHeaderSize = (.error fault : Except Fault Nat) := by
      rw [keys, List.foldlM_append, foldlM_keySize _ admissible]
      simp only [List.foldlM_cons, hkind, refused]
      rfl
    unfold serializedNodeSize
    rw [if_neg hfew, hloop]
    rfl
  unfold serializeNode
  rw [validateNodeShape_eq shaped few, validateNodeKeys, forM_validateKeyKind kinds, hsize]
  rfl

namespace BStarPlusIndex

variable {H : Nat} {idx : BStarPlusIndex} {m : OrderedMap IndexKey UInt64} {key : IndexKey}
  {record : UInt64} {message : ByteString}

/-- A leaf with a key that is refused for another reason than its length is not measured. -/
theorem nodeFitsPage_refused {node : IndexNode}
    (refused : serializeNode node idx.metadata.keyKind =
      .error (.throws .invalidArgument message)) :
    idx.nodeFitsPage node = .error (.throws .invalidArgument message) := by
  rw [nodeFitsPage, refused]

/-- `insert` into a tree of a key that cannot be written throws, and changes nothing. -/
theorem Represents.insert_refused {t : Tree H} (r : idx.Represents t)
    (valid : validateKeyKind key idx.metadata.keyKind = .ok ())
    (refused : serializedKeySize key = .error (.throws .invalidArgument message)) :
    insert key record idx = .error (.throws .invalidArgument message) idx := by
  obtain ⟨ctx, l, rfl, admits⟩ := r.exists_leaf key
  obtain ⟨before, after, place, hafter⟩ := r.place admits
  obtain ⟨o, -, hsized⟩ := r.opened
  have hadmissible : ∀ e ∈ before ++ after, Admissible idx.metadata.keyKind e.1 :=
    place.items ▸ LeafPage.Sized.admissible hsized
  rcases hafter with ⟨old, rest, rfl, -⟩ | hafter
  · -- The keys of the tree have been written.
    have hkey : Admissible idx.metadata.keyKind key := hadmissible (key, old) (by simp)
    rw [hkey.serializedKeySize] at refused
    cases refused
  · have hkeys : (LeafPage.node { l with items := before ++ (key, record) :: after }).keys =
        before.map Prod.fst ++ key :: after.map Prod.fst := by simp
    have hmost : l.items.length ≤ maxLeafKeyCount idx.metadata.keyKind :=
      LeafPage.Sized.most hsized
    rw [place.items, List.length_append] at hmost
    have hmax : maxLeafKeyCount idx.metadata.keyKind ≤ 225 := by
      rcases o.sound.kind.counts with ⟨hmax, -⟩ | ⟨hmax, -⟩ <;> rw [hmax]
      decide
    have hkind := keyMatchesKind_of_validateKeyKind valid
    have hwritten := @serializeNode_refused idx.metadata.keyKind
      (LeafPage.node { l with items := before ++ (key, record) :: after }) key _ _ _ ?_ ?_ ?_ hkeys
      ?_ refused
    · rw [r.insert_absent admits valid place hafter, insertIntoLeaf]
      refine bind_error ?_
      rw [reading, bind_ok get_run, nodeFitsPage_refused hwritten]
      rfl
    · exact ⟨fun _ => ⟨rfl, by simp⟩, fun h => by simp at h⟩
    · rw [hkeys, List.length_append, List.length_map, List.length_cons, List.length_map, pageSize]
      omega
    · intro k hk
      rw [hkeys] at hk
      rcases List.mem_append.mp hk with hk | hk
      · obtain ⟨e, he, rfl⟩ := List.mem_map.mp hk
        exact (hadmissible e (List.mem_append_left _ he)).matches
      · rcases List.mem_cons.mp hk with rfl | hk
        · exact hkind
        · obtain ⟨e, he, rfl⟩ := List.mem_map.mp hk
          exact (hadmissible e (List.mem_append_right _ he)).matches
    · intro k hk
      obtain ⟨e, he, rfl⟩ := List.mem_map.mp hk
      exact hadmissible e (List.mem_append_left _ he)

/-- `insert` of a key that cannot be written leaves the index with what it holds; into a tree,
when it is not its length that is at fault. -/
theorem Contents.ends_insert_refused {fault : Fault} (c : idx.Contents m)
    (valid : validateKeyKind key idx.metadata.keyKind = .ok ())
    (refused : serializedKeySize key = .error fault)
    (measured : idx.metadata.empty = false →
      ∃ message, fault = .throws .invalidArgument message) :
    Ends (insert key record) idx (fun _ _ => False)
      (fun fault' idx' => idx'.disk.Full ∨ fault' = fault ∧
        idx'.Contents m ∧ idx'.metadata.keyKind = idx.metadata.keyKind) := by
  obtain ⟨sound, htree, hsize, hsaved⟩ := c
  rcases htree with ⟨hblank, hnil⟩ | ⟨H, t, r, hitems⟩
  · have hempty : idx.metadata.empty = true := by
      rw [hblank]
      rfl
    rw [insert, ends_bind, ends_get, valid, fromExcept_ok, pure_bind, if_pos hempty, insertFirst,
      ends_bind]
    refine ends_allocatePage sound (fun full _ => .inl full) fun idx₁ touches hcount => ?_
    have hwritten : serializeNode
        { isLeaf := true, pageId := idx.disk.pageCount, nextLeafPageId := invalidPageId,
          keys := [key], records := [record] } idx₁.metadata.keyKind = .error fault := by
      refine @serializeNode_refused _ _ key [] [] _ ?_ (by simp [pageSize]) ?_ rfl
        (fun _ h => absurd h List.not_mem_nil) refused
      · exact ⟨fun _ => ⟨rfl, rfl⟩, fun h => by simp at h⟩
      · intro k hk
        obtain rfl := List.mem_singleton.mp hk
        rw [touches.metadata]
        exact keyMatchesKind_of_validateKeyKind valid
    rw [ends_bind, writeNode, ends_bind, ends_get]
    dsimp only
    rw [hwritten, fromExcept_error, ends_bind, ends_throw]
    refine .inr ⟨rfl, ⟨touches.sound, .inl ⟨?_, hnil⟩, ?_, ?_⟩, touches.kind⟩
    · rw [touches.metadata]
      exact hblank
    · rw [touches.metadata]
      exact hsize
    · rw [touches.metadata, ← hsaved]
      exact congrArg (fun header => BStarPlusIndexMetadata.decode header.bytes) touches.header
  · obtain ⟨message, rfl⟩ := measured r.empty_eq
    rw [ends_of_error (r.insert_refused valid refused)]
    exact .inr ⟨rfl, ⟨sound, .inr ⟨H, t, r, hitems⟩, hsize, hsaved⟩, rfl⟩

end BStarPlusIndex

/-! ## Runs -/

namespace Operation

open BStarPlusIndex

variable {kind : IndexKeyKind} {idx : BStarPlusIndex} {m : OrderedMap IndexKey UInt64}

/-- The answer of a map that takes the keys which an index of the kind takes. -/
def onMapOf (kind : IndexKeyKind) (op : Operation) (m : OrderedMap IndexKey UInt64) :
    Except Fault Answer × OrderedMap IndexKey UInt64 :=
  match op.check kind with
  | .ok _ => op.onMap m
  | .error fault => (.error fault, m)

/-- The string that is inserted, if it is one, is not longer than the keys of an index. -/
def Short : Operation → Prop
  | insert (.str s) _ => s.length ≤ indexStringKeySize
  | _ => True

instance : DecidablePred Short
  | insert (.str s) _ => inferInstanceAs (Decidable (s.length ≤ indexStringKeySize))
  | insert (.int _) _ => .isTrue trivial
  | erase _ => .isTrue trivial
  | find _ => .isTrue trivial
  | rangeSearch _ _ => .isTrue trivial
  | reopen _ => .isTrue trivial

/-- No string that is too long is inserted into an index of strings that has a tree. -/
def Guarded : Operation → BStarPlusIndex → Prop
  | insert (.str s) _, idx => idx.metadata.empty = true ∨ idx.metadata.keyKind ≠ .string ∨
      s.length ≤ indexStringKeySize
  | _, _ => True

instance : DecidableRel Guarded
  | insert (.str s) _, idx => inferInstanceAs (Decidable (idx.metadata.empty = true ∨
      idx.metadata.keyKind ≠ .string ∨ s.length ≤ indexStringKeySize))
  | insert (.int _) _, _ => .isTrue trivial
  | erase _, _ => .isTrue trivial
  | find _, _ => .isTrue trivial
  | rangeSearch _ _, _ => .isTrue trivial
  | reopen _, _ => .isTrue trivial

theorem Short.guarded {op : Operation} (short : op.Short) (idx : BStarPlusIndex) :
    op.Guarded idx := by
  cases op with
  | insert key record =>
      cases key with
      | int n => trivial
      | str s => exact .inr (.inr short)
  | _ => trivial

/-- In a tree, a key that is refused is refused for another reason than its length. -/
theorem Guarded.refused {key : IndexKey} {record : UInt64} {fault : Fault}
    (guarded : (insert key record).Guarded idx)
    (valid : validateKeyKind key idx.metadata.keyKind = .ok ())
    (refused : serializedKeySize key = .error fault) (filled : idx.metadata.empty = false) :
    ∃ message, fault = .throws .invalidArgument message := by
  cases key with
  | int n => cases refused
  | str s =>
      have hkind : idx.metadata.keyKind = .string :=
        of_decide_eq_true (keyMatchesKind_of_validateKeyKind valid)
      have hshort : ¬ indexStringKeySize < s.length := by
        rcases guarded with hempty | hother | hshort
        · rw [filled] at hempty
          cases hempty
        · exact absurd hkind hother
        · exact Nat.not_lt.mpr hshort
      unfold serializedKeySize validateStringKey at refused
      dsimp only at refused
      rw [if_neg hshort] at refused
      split at refused
      · exact ⟨_, (Except.error.inj refused).symm⟩
      · cases refused

/-- An operation that is refused leaves the index with what it holds, unless the file is full. -/
theorem onIndex_refused {op : Operation} {fault : Fault} (guarded : op.Guarded idx)
    (mirrors : Mirrors kind idx m) (refused : op.check kind = .error fault)
    (room : (op.onIndex idx).2.HasRoom) :
    (op.onIndex idx).1 = .error fault ∧ Mirrors kind (op.onIndex idx).2 m := by
  obtain ⟨c, rfl⟩ := mirrors
  have hunchanged : op.perform idx = .error fault idx →
      (op.onIndex idx).1 = .error fault ∧ Mirrors idx.metadata.keyKind (op.onIndex idx).2 m := by
    intro hperform
    rw [onIndex, hperform]
    exact ⟨rfl, c, rfl⟩
  cases op with
  | insert key record =>
      cases hvalid : validateKeyKind key idx.metadata.keyKind with
      | error fault' =>
          simp only [check, hvalid, bind, Except.bind, Except.error.injEq] at refused
          subst refused
          refine hunchanged (bind_error ?_)
          rw [BStarPlusIndex.insert, bind_ok get_run, hvalid]
          rfl
      | ok _ =>
          cases hsize : serializedKeySize key with
          | error fault' =>
              simp only [check, hvalid, hsize, bind, Except.bind, Except.error.injEq] at refused
              subst refused
              have hends : Ends (BStarPlusIndex.insert key record) idx _ _ :=
                c.ends_insert_refused hvalid hsize (guarded.refused hvalid hsize)
              rw [onIndex] at room ⊢
              cases hrun : BStarPlusIndex.insert key record idx with
              | ok _ idx' => exact (hends.of_ok hrun).elim
              | error fault idx' =>
                  have hperform : (Operation.insert key record).perform idx =
                      .error fault idx' := bind_error hrun
                  rw [hperform] at room ⊢
                  obtain ⟨rfl, c', hkind⟩ := (hends.of_error hrun).resolve_left room
                  exact ⟨rfl, c', hkind⟩
          | ok n => simp [check, hvalid, hsize, bind, Except.bind, pure, Except.pure] at refused
  | erase key =>
      refine hunchanged (bind_error ?_)
      rw [BStarPlusIndex.erase, bind_ok get_run]
      rw [show validateKeyKind key idx.metadata.keyKind = .error fault from refused]
      rfl
  | find key =>
      refine hunchanged (bind_error ?_)
      rw [reading, bind_ok get_run, BStarPlusIndex.find,
        show validateKeyKind key idx.metadata.keyKind = .error fault from refused]
      rfl
  | rangeSearch low high =>
      refine hunchanged (bind_error ?_)
      have hrange : idx.rangeSearch low high = .error fault := by
        rw [check] at refused
        unfold BStarPlusIndex.rangeSearch
        cases hlow : validateKeyKind low idx.metadata.keyKind with
        | error fault' =>
            rw [hlow] at refused
            obtain rfl : fault' = fault := Except.error.inj refused
            rfl
        | ok _ =>
            rw [hlow] at refused
            have hhigh : validateKeyKind high idx.metadata.keyKind = .error fault := refused
            simp only [hhigh, bind, Except.bind]
      rw [reading, bind_ok get_run, hrange]
      rfl
  | reopen _ => cases refused

/-- One operation with any key that is not too long. -/
theorem onIndex_eq_onMapOf (op : Operation) (guarded : op.Guarded idx)
    (mirrors : Mirrors kind idx m)
    (room : (op.onIndex idx).2.HasRoom) :
    (op.onIndex idx).1 = (op.onMapOf kind m).1 ∧
      Mirrors kind (op.onIndex idx).2 (op.onMapOf kind m).2 := by
  unfold onMapOf
  cases hcheck : op.check kind with
  | ok _ => exact op.onIndex_eq hcheck mirrors room
  | error fault => exact onIndex_refused guarded mirrors hcheck room

end Operation

namespace BStarPlusIndex

/-- What is refused leaves no trace: whatever is done with a new index, with keys of either kind,
with zero bytes or not, as long as no string is inserted that is too long, it answers as a map
does that refuses the keys which the index cannot store and stays as it was; it counts the keys
of the map. -/
theorem refuses_as_map {kind : IndexKeyKind} (proper : kind.Proper) (ops : List Operation)
    (short : ∀ op ∈ ops, op.Short)
    (room : StaysIn HasRoom Operation.onIndex ops (created kind)) :
    (runMachine Operation.onIndex ops (created kind)).1 =
        (runMachine (Operation.onMapOf kind) ops .empty).1 ∧
      (runMachine Operation.onIndex ops (created kind)).2.metadata.size.toNat =
        (runMachine (Operation.onMapOf kind) ops .empty).2.size := by
  have mimics : Mimics (fun op _ => op.Short) HasRoom (Mirrors kind) Operation.onIndex
      (Operation.onMapOf kind) :=
    ⟨fun op idx _ short mirrors room => (op.onIndex_eq_onMapOf (short.guarded idx) mirrors room).1,
      fun op idx _ short mirrors room => (op.onIndex_eq_onMapOf (short.guarded idx) mirrors room).2⟩
  obtain ⟨hanswers, hlast⟩ := mimics.run ops ⟨contents_created proper, rfl⟩
    (allowedAlong_of_forall fun op hop _ => short op hop) room
  exact ⟨hanswers, hlast.contents.size⟩

/-- A key with a zero byte comes before and behind one that is stored. -/
theorem refuses_as_map_of_zero :
    (runMachine Operation.onIndex [.insert (.str [0]) 7, .insert (.str [1]) 8,
      .insert (.str [1, 0]) 9, .insert (.int 1) 9, .find (.str [1]), .find (.str [1, 0])]
      (created .string)).1 =
      [raise .invalidArgument (text "Index string key cannot contain null bytes"), .ok .inserted,
        raise .invalidArgument (text "Index string key cannot contain null bytes"),
        raise .invalidArgument (text "Index key type does not match index key kind"),
        .ok (.record (some 8)), .ok (.record none)] := by
  have proper : IndexKeyKind.Proper .string := .inr rfl
  refine (refuses_as_map proper _ ?_ (staysIn_of_le fun n hn => Nat.not_le.mpr ?_)).1.trans rfl
  · intro op hop
    simp only [List.mem_cons, List.not_mem_nil, or_false] at hop
    rcases hop with rfl | rfl | rfl | rfl | rfl | rfl <;> decide
  · revert n
    decide +kernel

/-! ## A failed insertion -/

variable {kind : IndexKeyKind}

/-- Operations that are guarded in the states that they come in leave an index that holds some
map. -/
theorem exists_mirrors_run {ops : List Operation} {idx : BStarPlusIndex}
    {m : OrderedMap IndexKey UInt64} (mirrors : Mirrors kind idx m)
    (guarded : AllowedAlong Operation.Guarded Operation.onIndex ops idx)
    (room : StaysIn HasRoom Operation.onIndex ops idx) :
    ∃ m', Mirrors kind (runMachine Operation.onIndex ops idx).2 m' := by
  induction ops generalizing idx m with
  | nil => exact ⟨m, mirrors⟩
  | cons op ops ih =>
      exact ih (op.onIndex_eq_onMapOf guarded.1 mirrors room.head).2 guarded.2 room.tail

/-- A map that refuses an insertion stays as it is. -/
theorem onMapOf_insert_error {m : OrderedMap IndexKey UInt64} {key : IndexKey} {record : UInt64}
    {fault : Fault} (failed : ((Operation.insert key record).onMapOf kind m).1 = .error fault) :
    ((Operation.insert key record).onMapOf kind m).2 = m := by
  unfold Operation.onMapOf at failed ⊢
  split at failed
  · rw [Operation.onMap] at failed ⊢
    split at failed
    · next hpresent => rw [if_pos hpresent]
    · cases failed
  · rfl

/-- In a run in which no string that is too long is inserted into an index of strings that has a
tree, a failed insertion leaves the answers as they were. -/
theorem failed_insert_keeps_answers (proper : kind.Proper) (ops : List Operation) (key : IndexKey)
    (record : UInt64) :
    let idx := (runMachine Operation.onIndex ops (created kind)).2
    let last := (Operation.insert key record).onIndex idx
    AllowedAlong Operation.Guarded Operation.onIndex ops (created kind) →
    (Operation.insert key record).Guarded idx →
    StaysIn HasRoom Operation.onIndex ops (created kind) → last.2.HasRoom →
      ∀ fault, last.1 = .error fault →
        (∀ k, Admissible kind k → last.2.find k = idx.find k) ∧
        ∀ low high, Admissible kind low → Admissible kind high →
          last.2.rangeSearch low high = idx.rangeSearch low high := by
  intro idx last guarded guardedLast room roomLast fault failed
  obtain ⟨m, before⟩ := exists_mirrors_run ⟨contents_created proper, rfl⟩ guarded room
  obtain ⟨hanswer, after⟩ := Operation.onIndex_eq_onMapOf _ guardedLast before roomLast
  rw [onMapOf_insert_error (hanswer ▸ failed)] at after
  have hvalid : ∀ {idx : BStarPlusIndex}, Mirrors kind idx m → ∀ {k : IndexKey},
      Admissible kind k → validateKeyKind k idx.metadata.keyKind = .ok () :=
    fun mirrors _ hk => validateKeyKind_eq (mirrors.kind.symm ▸ hk)
  refine ⟨fun k hk => ?_, fun low high hlow hhigh => ?_⟩
  · exact (after.contents.find_eq (hvalid after hk)).trans
      (before.contents.find_eq (hvalid before hk)).symm
  · exact (after.contents.rangeSearch_eq (hvalid after hlow) (hvalid after hhigh)).trans
      (before.contents.rangeSearch_eq (hvalid before hlow) (hvalid before hhigh)).symm

/-- Three strings in a leaf. -/
private def threeStrings : List Operation :=
  [.insert (.str [1]) 7, .insert (.str [2]) 8, .insert (.str [3]) 9]

/-- A string with a zero byte leaves no trace among three others. -/
theorem failed_insert_keeps_answers_of_zero :
    let idx := (runMachine Operation.onIndex threeStrings (created .string)).2
    ((Operation.insert (.str [2, 0]) 10).onIndex idx).2.find (.str [3]) = idx.find (.str [3]) := by
  intro idx
  have proper : IndexKeyKind.Proper .string := .inr rfl
  have guarded : AllowedAlong Operation.Guarded Operation.onIndex threeStrings (created .string) :=
    ⟨.inl rfl, .inr (.inr (by decide)), .inr (.inr (by decide)), trivial⟩
  have failed : ((Operation.insert (.str [2, 0]) 10).onIndex idx).1 =
      raise .invalidArgument (text "Index string key cannot contain null bytes") := by
    decide +kernel
  have room : StaysIn HasRoom Operation.onIndex threeStrings (created .string) := by
    refine staysIn_of_le fun n hn => Nat.not_le.mpr ?_
    revert n
    decide +kernel
  have roomLast : ((Operation.insert (.str [2, 0]) 10).onIndex idx).2.HasRoom :=
    Nat.not_le.mpr (by decide +kernel)
  exact (failed_insert_keeps_answers proper threeStrings (.str [2, 0]) 10 guarded
    (.inr (.inr (by decide))) room roomLast _ failed).1 (.str [3]) (by decide)

/-- A string that is too long is refused in the middle of a split, and the leaf has lost a key. -/
theorem failed_insert_loses_key :
    let idx := (runMachine Operation.onIndex threeStrings (created .string)).2
    let last := (Operation.insert (.str (List.replicate 257 4)) 10).onIndex idx
    last.1 = raise .lengthError (text "Index string key is too long") ∧
      Admissible .string (.str [3]) ∧ idx.find (.str [3]) = .ok (some 9) ∧
      last.2.find (.str [3]) = .ok none := by
  decide +kernel

end BStarPlusIndex
end CwDb.Index
