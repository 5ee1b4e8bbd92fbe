/-
  Index/NodeSize.lean --- what `serialized_node_size` says of a node and what is written.

  A record is counted with the bytes of a page id and of a slot id, and eight bytes are
  written.  A leaf of integer keys between the two limits is refused although it fits.
-/
import CwDb.Index.Node

set_option autoImplicit false

namespace CwDb.Index

open CwDb.Cpp
open CwDb.Foundation

variable {kind : IndexKeyKind} {node : IndexNode}

/-! ## What is written -/

/-- The size of what is written: the payload takes the same width in both types of node. -/
theorem length_bytes (admissible : ∀ key ∈ node.keys, Admissible kind key) :
    node.bytes.length = indexNodeHeaderSize + node.keys.length * fixedKeySize kind +
      node.payload.length * Scalar.width UInt64 := by
  have hkeys : (node.keys.flatMap keyBytes).length = node.keys.length * fixedKeySize kind :=
    length_flatMap_const fun key hkey => length_keyBytes (admissible key hkey)
  have hpayload : (node.payload.flatMap Scalar.encode).length =
      node.payload.length * Scalar.width UInt64 :=
    length_flatMap_const fun a _ => Scalar.length_encode a
  rw [IndexNode.bytes, List.length_append, List.length_append, length_headerBytes, hkeys, hpayload]
  omega

/-- A node with admissible keys is written when it is estimated to fit. -/
theorem serializeNode_isOk_iff (shaped : node.Shaped)
    (admissible : ∀ key ∈ node.keys, Admissible kind key) :
    (∃ page, serializeNode node kind = .ok page) ↔ node.size kind ≤ pageSize := by
  constructor
  · rintro ⟨page, hpage⟩
    exact (storable_of_serializeNode hpage).fits
  · intro hfits
    exact ⟨_, serializeNode_eq ⟨shaped, admissible, hfits⟩⟩

theorem fixedKeySize_eq (kind : IndexKeyKind) :
    (kind = .int64 ∧ fixedKeySize kind = 8) ∨ (kind ≠ .int64 ∧ fixedKeySize kind = 256) := by
  unfold fixedKeySize
  split
  · next hkind => exact .inl ⟨hkind, rfl⟩
  · next hkind => exact .inr ⟨hkind, rfl⟩

/-- A leaf of integer keys that fits into a page but is not estimated to. -/
def Overestimated (kind : IndexKeyKind) (node : IndexNode) : Prop :=
  node.isLeaf = true ∧ kind = .int64 ∧ 226 ≤ node.keys.length ∧ node.keys.length ≤ 254

instance (kind : IndexKeyKind) (node : IndexNode) : Decidable (Overestimated kind node) :=
  inferInstanceAs (Decidable (_ ∧ _ ∧ _ ∧ _))

/-- The estimate decides whether the bytes fit, except for such a leaf. -/
theorem size_le_iff (shaped : node.Shaped)
    (admissible : ∀ key ∈ node.keys, Admissible kind key) :
    (node.size kind ≤ pageSize ↔ node.bytes.length ≤ pageSize) ↔ ¬ Overestimated kind node := by
  have hbytes := length_bytes admissible
  have hpayload := shaped.payload_length
  have hwidth : Scalar.width PageId = 8 := rfl
  have hrecord : recordSize = 10 := rfl
  have hpage : pageSize = 4096 := rfl
  have hheader : indexNodeHeaderSize = 32 := rfl
  rw [hwidth] at hbytes
  unfold IndexNode.size Overestimated
  cases hleaf : node.isLeaf with
  | true =>
      have hrecords := (shaped.leaf hleaf).2
      rw [hleaf, if_pos rfl] at hpayload
      rw [if_pos rfl, hrecord]
      rcases fixedKeySize_eq kind with ⟨hkind, hkeys⟩ | ⟨hkind, hkeys⟩
      · rw [hkeys] at hbytes ⊢
        simp only [hkind, true_and]
        omega
      · rw [hkeys] at hbytes ⊢
        simp only [hkind, false_and, and_false, not_false_eq_true, iff_true]
        omega
  | false =>
      have hchildren := (shaped.internal hleaf).2
      rw [hleaf, if_neg Bool.false_ne_true] at hpayload
      rw [if_neg Bool.false_ne_true, hwidth]
      simp only [Bool.false_eq_true, false_and, not_false_eq_true, iff_true]
      omega

/-! ## What has been read -/

theorem exists_of_bind {α β : Type} {x : Except Fault α} {f : α → Except Fault β} {b : β}
    (h : x >>= f = .ok b) : ∃ a, x = .ok a ∧ f a = .ok b := by
  cases x with
  | error e => cases h
  | ok a => exact ⟨a, rfl, h⟩

theorem readScalar_spec {α : Type} [Scalar α] {page rest : PageSuffix} {a : α}
    (h : readScalar α page = .ok (a, rest)) :
    page.length = Scalar.width α + rest.length := by
  unfold readScalar at h
  split at h
  · cases h
  · next hroom =>
      obtain ⟨-, rfl⟩ := Prod.mk.inj (Except.ok.inj h)
      rw [List.length_drop]
      omega

/-- A key that is read is admissible, and as wide as its kind says. -/
theorem readKey_spec {page rest : PageSuffix} {key : IndexKey}
    (h : readKey kind page = .ok (key, rest)) :
    Admissible kind key ∧ page.length = fixedKeySize kind + rest.length := by
  unfold readKey at h
  split at h
  · next hkind =>
      obtain ⟨⟨n, rest'⟩, hread, h⟩ := exists_of_bind h
      obtain ⟨rfl, rfl⟩ := Prod.mk.inj (Except.ok.inj h)
      refine ⟨hkind, ?_⟩
      rw [readScalar_spec hread, fixedKeySize, if_pos hkind]
  split at h
  · next hint hkind =>
      split at h
      · cases h
      · next hroom =>
          obtain ⟨rfl, rfl⟩ := Prod.mk.inj (Except.ok.inj h)
          refine ⟨⟨hkind, ?_, fun hzero => ?_⟩, ?_⟩
          · exact (List.takeWhile_sublist _).length_le.trans (List.length_take_le _ _)
          · have hall := List.all_takeWhile (l := page.take indexStringKeySize)
              (p := fun b => b != 0)
            exact absurd (List.all_eq_true.mp hall 0 hzero) (by decide)
          · rw [fixedKeySize, if_neg hint, List.length_drop]
            omega
  · cases h

theorem readMany_spec {α : Type} {read : PageSuffix → Except Fault (α × PageSuffix)}
    {P : α → Prop} {width : Nat}
    (step : ∀ page a rest, read page = .ok (a, rest) → P a ∧ page.length = width + rest.length)
    {count : Nat} {page rest : PageSuffix} {l : List α}
    (h : readMany read count page = .ok (l, rest)) :
    (∀ a ∈ l, P a) ∧ page.length = l.length * width + rest.length := by
  induction count generalizing page l with
  | zero =>
      obtain ⟨rfl, rfl⟩ := Prod.mk.inj (Except.ok.inj h)
      exact ⟨fun a ha => absurd ha List.not_mem_nil, by simp⟩
  | succ count ih =>
      unfold readMany at h
      obtain ⟨⟨a, page'⟩, hread, h⟩ := exists_of_bind h
      obtain ⟨⟨as, page''⟩, hmore, h⟩ := exists_of_bind h
      obtain ⟨rfl, rfl⟩ := Prod.mk.inj (Except.ok.inj h)
      obtain ⟨hP, hlength⟩ := step page a page' hread
      obtain ⟨hPs, hlengths⟩ := ih hmore
      refine ⟨List.forall_mem_cons.mpr ⟨hP, hPs⟩, ?_⟩
      rw [hlength, hlengths, List.length_cons, Nat.succ_mul]
      omega

theorem readPayload_spec {count : Nat} {page rest : PageSuffix} {l : List UInt64}
    (h : readMany (readScalar UInt64) count page = .ok (l, rest)) :
    l.length * Scalar.width UInt64 ≤ page.length := by
  obtain ⟨-, hlength⟩ := readMany_spec (P := fun _ => True)
    (fun page a rest hread => ⟨trivial, readScalar_spec hread⟩) h
  omega

theorem readNodeBody_spec {nodeType : UInt8} {pageId nextLeafPageId : PageId}
    {keyCount payloadCount : UInt32} {page : PageSuffix}
    (h : readNodeBody kind nodeType pageId nextLeafPageId keyCount payloadCount page = .ok node) :
    (∀ key ∈ node.keys, Admissible kind key) ∧
      node.keys.length * fixedKeySize kind + node.payload.length * Scalar.width UInt64 ≤
        page.length := by
  unfold readNodeBody at h
  obtain ⟨⟨keys, page'⟩, hkeys, h⟩ := exists_of_bind h
  obtain ⟨hadmissible, hlength⟩ :=
    readMany_spec (fun page key rest hread => readKey_spec hread) hkeys
  dsimp only at h
  split at h
  · split at h
    · cases h
    obtain ⟨⟨records, rest⟩, hrecords, h⟩ := exists_of_bind h
    obtain rfl := Except.ok.inj h
    refine ⟨hadmissible, ?_⟩
    rw [hlength]
    exact Nat.add_le_add_left (readPayload_spec hrecords) _
  · split at h
    · cases h
    obtain ⟨⟨children, rest⟩, hchildren, h⟩ := exists_of_bind h
    obtain rfl := Except.ok.inj h
    refine ⟨hadmissible, ?_⟩
    rw [hlength]
    exact Nat.add_le_add_left (readPayload_spec hchildren) _

/-- A node that is read has the right shape, admissible keys, and fits. -/
theorem deserializeNode_spec {data : List UInt8} (h : deserializeNode data kind = .ok node) :
    node.Shaped ∧ (∀ key ∈ node.keys, Admissible kind key) ∧ node.bytes.length ≤ pageSize := by
  unfold deserializeNode at h
  split at h
  · cases h
  next hsize =>
  have hlength : data.length = pageSize := not_not.mp hsize
  obtain ⟨⟨magic, page₁⟩, hmagic, h⟩ := exists_of_bind h
  dsimp only at h
  split at h
  · cases h
  obtain ⟨⟨version, page₂⟩, hversion, h⟩ := exists_of_bind h
  dsimp only at h
  split at h
  · cases h
  obtain ⟨⟨nodeType, page₃⟩, htype, h⟩ := exists_of_bind h
  obtain ⟨⟨reserved, page₄⟩, hreserved, h⟩ := exists_of_bind h
  dsimp only at h
  split at h
  · cases h
  obtain ⟨⟨pageId, page₅⟩, hpageId, h⟩ := exists_of_bind h
  obtain ⟨⟨nextLeafPageId, page₆⟩, hnext, h⟩ := exists_of_bind h
  obtain ⟨⟨keyCount, page₇⟩, hkeyCount, h⟩ := exists_of_bind h
  obtain ⟨⟨payloadCount, page₈⟩, hpayloadCount, h⟩ := exists_of_bind h
  dsimp only at h
  split at h
  · cases h
  obtain ⟨found, hbody, h⟩ := exists_of_bind h
  obtain ⟨u, hshape, h⟩ := exists_of_bind h
  obtain rfl := Except.ok.inj h
  obtain ⟨hadmissible, hbytes⟩ := readNodeBody_spec hbody
  refine ⟨shaped_of_validateNodeShape hshape, hadmissible, ?_⟩
  -- the header takes what the eight fields of it take
  have hheader : data.length = indexNodeHeaderSize + page₈.length := by
    have h₁ := readScalar_spec hmagic
    have h₂ := readScalar_spec hversion
    have h₃ := readScalar_spec htype
    have h₄ := readScalar_spec hreserved
    have h₅ := readScalar_spec hpageId
    have h₆ := readScalar_spec hnext
    have h₇ := readScalar_spec hkeyCount
    have h₈ := readScalar_spec hpayloadCount
    simp only [Scalar.width] at h₁ h₂ h₃ h₄ h₅ h₆ h₇ h₈
    unfold indexNodeHeaderSize
    omega
  rw [length_bytes hadmissible]
  omega

/-! ## The check is not exact -/

/-- A node of the right shape with admissible keys is written just when its bytes fit, unless it
is a leaf of 226 to 254 integer keys; what is written are its bytes, padded.  A node that has
been read can be written back unless it is such a leaf. -/
theorem serializeNode_exact_iff (kind : IndexKeyKind) (node : IndexNode) (data : List UInt8) :
    (node.Shaped → (∀ key ∈ node.keys, Admissible kind key) →
      (((∃ page, serializeNode node kind = .ok page) ↔ node.bytes.length ≤ pageSize) ↔
        ¬ Overestimated kind node) ∧
      ∀ page, serializeNode node kind = .ok page →
        page = node.bytes ++ List.replicate (pageSize - node.bytes.length) 0) ∧
    (∀ read, deserializeNode data kind = .ok read →
      ((∃ page, serializeNode read kind = .ok page) ↔ ¬ Overestimated kind read)) := by
  refine ⟨fun shaped admissible => ⟨?_, fun page hpage => ?_⟩, fun read h => ?_⟩
  · rw [serializeNode_isOk_iff shaped admissible]
    exact size_le_iff shaped admissible
  · have hstorable := storable_of_serializeNode hpage
    rw [serializeNode_eq hstorable] at hpage
    exact (Except.ok.inj hpage).symm
  · obtain ⟨shaped, admissible, hbytes⟩ := deserializeNode_spec h
    rw [serializeNode_isOk_iff shaped admissible, ← size_le_iff shaped admissible]
    exact (iff_true_right hbytes).symm

/-- A leaf of two keys. -/
def twoKeys : IndexNode := { pageId := 1, keys := [.int 1, .int 2], records := [7, 8] }

/-- It is written as it is, with zeros behind it. -/
theorem serializeNode_exact_iff_of_twoKeys : serializeNode twoKeys .int64 =
    .ok (twoKeys.bytes ++ List.replicate (pageSize - twoKeys.bytes.length) 0) := by
  have hshaped : twoKeys.Shaped := ⟨fun _ => ⟨rfl, rfl⟩, fun hleaf => by cases hleaf⟩
  have hadmissible : ∀ key ∈ twoKeys.keys, Admissible .int64 key := by decide
  have hfits : twoKeys.bytes.length ≤ pageSize := by
    rw [length_bytes hadmissible]
    decide
  have hexact : ¬ Overestimated .int64 twoKeys := by
    intro overestimated
    exact absurd overestimated.2.2.1 (by decide)
  obtain ⟨hiff, hpage⟩ := (serializeNode_exact_iff .int64 twoKeys []).1 hshaped hadmissible
  obtain ⟨page, hok⟩ := (hiff.mpr hexact).mpr hfits
  rw [hok, hpage page hok]

/-- A leaf of as many integer keys as a page has room for. -/
def fullLeaf : IndexNode :=
  { pageId := 1, keys := List.replicate 254 (.int 0), records := List.replicate 254 0 }

/-- Its bytes fit, and it is refused. -/
theorem serializeNode_fullLeaf :
    fullLeaf.Shaped ∧ (∀ key ∈ fullLeaf.keys, Admissible .int64 key) ∧
      fullLeaf.bytes.length ≤ pageSize ∧
      ¬ ∃ page, serializeNode fullLeaf .int64 = .ok page := by
  have hshaped : fullLeaf.Shaped := by
    refine ⟨fun _ => ⟨rfl, ?_⟩, fun hleaf => ?_⟩
    · exact List.length_replicate.trans List.length_replicate.symm
    · cases hleaf
  have hadmissible : ∀ key ∈ fullLeaf.keys, Admissible .int64 key := by
    intro key hkey
    obtain rfl := List.eq_of_mem_replicate hkey
    rfl
  have hkeys : fullLeaf.keys.length = 254 := List.length_replicate
  have hrecords : fullLeaf.records.length = 254 := List.length_replicate
  refine ⟨hshaped, hadmissible, ?_, ?_⟩
  · have hpayload : fullLeaf.payload.length = 254 := hrecords
    rw [length_bytes hadmissible, hkeys, hpayload]
    decide
  · rw [serializeNode_isOk_iff hshaped hadmissible]
    have hleaf : fullLeaf.isLeaf = true := rfl
    unfold IndexNode.size
    rw [hleaf, if_pos rfl, hkeys, hrecords]
    decide

end CwDb.Index
