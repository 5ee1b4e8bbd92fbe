/-
  Index/Key.lean --- the keys of an index and how they are written into a page.

  `key_less` throws on keys of two kinds.  The keys that meet are all of the kind of
  the index: nodes are read with it (`readKey`) and arguments are checked
  against it first, so here the integers simply come before the strings.
-/
import CwDb.Cpp.Text
import CwDb.Foundation.MachineOrder
import CwDb.Foundation.Scalar
import Mathlib.Data.Sum.Order

set_option autoImplicit false

namespace CwDb.Index

open CwDb.Cpp
open CwDb.Foundation

abbrev PageId : Type := UInt64

/-- `INVALID_PAGE_ID`. -/
def invalidPageId : PageId := UInt64.ofNat (2 ^ 64 - 1)

def pageSize : Nat := 4096

/-- `INDEX_STRING_KEY_SIZE`. -/
def indexStringKeySize : Nat := 256

/-- `enum class IndexKeyKind : std::uint8_t`; a file may hold any byte for it. -/
structure IndexKeyKind where
  raw : UInt8
  deriving DecidableEq, Repr, Inhabited

namespace IndexKeyKind

def int64 : IndexKeyKind := ⟨0⟩
def string : IndexKeyKind := ⟨1⟩
def unknown : IndexKeyKind := ⟨2⟩

end IndexKeyKind

/-- `std::variant<std::int64_t, std::string>`. -/
inductive IndexKey where
  | int (n : Int64)
  | str (s : ByteString)
  deriving DecidableEq, Repr, Inhabited

namespace IndexKey

def rank : IndexKey → Int64 ⊕ₗ ByteString
  | int n => Sum.inlₗ n
  | str s => Sum.inrₗ s

theorem rank_injective : Function.Injective rank := by
  intro a b h
  cases a <;> cases b <;> simp_all [rank, Sum.inlₗ, Sum.inrₗ]

instance : LinearOrder IndexKey := LinearOrder.lift' rank rank_injective

end IndexKey

/-! ## Validation -/

/-- `key_matches_kind`. -/
def keyMatchesKind (key : IndexKey) (kind : IndexKeyKind) : Bool :=
  match key with
  | .int _ => kind == .int64
  | .str _ => kind == .string

/-- `validate_key_kind`. -/
def validateKeyKind (key : IndexKey) (kind : IndexKeyKind) : Except Fault Unit :=
  if keyMatchesKind key kind then .ok ()
  else raise .invalidArgument (text "Index key type does not match index key kind")

/-- `validate_string_key`. -/
def validateStringKey (s : ByteString) : Except Fault Unit :=
  if indexStringKeySize < s.length then
    raise .lengthError (text "Index string key is too long")
  else if (0 : UInt8) ∈ s then
    raise .invalidArgument (text "Index string key cannot contain null bytes")
  else .ok ()

/-- `serialized_key_size`. -/
def serializedKeySize (key : IndexKey) : Except Fault Nat :=
  match key with
  | .int _ => .ok (Scalar.width Int64)
  | .str s => do
      validateStringKey s
      pure indexStringKeySize

/-- `fixed_key_size`. -/
def fixedKeySize (kind : IndexKeyKind) : Nat :=
  if kind = .int64 then Scalar.width Int64 else indexStringKeySize

/-- The keys that an index of the kind can store. -/
def Admissible (kind : IndexKeyKind) (key : IndexKey) : Prop :=
  match key with
  | .int _ => kind = .int64
  | .str s => kind = .string ∧ s.length ≤ indexStringKeySize ∧ (0 : UInt8) ∉ s

instance (kind : IndexKeyKind) (key : IndexKey) : Decidable (Admissible kind key) := by
  cases key <;> unfold Admissible <;> infer_instance

theorem Admissible.matches {kind : IndexKeyKind} {key : IndexKey} (h : Admissible kind key) :
    keyMatchesKind key kind = true := by
  cases key <;> simp_all [Admissible, keyMatchesKind]

theorem Admissible.serializedKeySize {kind : IndexKeyKind} {key : IndexKey}
    (h : Admissible kind key) : serializedKeySize key = .ok (fixedKeySize kind) := by
  cases key with
  | int n =>
      obtain rfl : kind = .int64 := h
      rfl
  | str s =>
      obtain ⟨rfl, hlength, hzero⟩ := h
      have hvalid : validateStringKey s = .ok () := by
        rw [validateStringKey, if_neg (Nat.not_lt.mpr hlength), if_neg hzero]
      simp only [CwDb.Index.serializedKeySize, hvalid]
      rfl

/-! ## Pages under construction -/

/-- The bytes of a page before `offset`; the rest of a page is zero until written. -/
abbrev PagePrefix : Type := List UInt8

/-- `write_scalar`. -/
def writeScalar {α : Type} [Scalar α] (page : PagePrefix) (value : α) : Except Fault PagePrefix :=
  if pageSize < page.length + Scalar.width α then
    raise .lengthError (text "Index node does not fit into page")
  else .ok (page ++ Scalar.encode value)

/-- What is left of a page from `offset` on. -/
abbrev PageSuffix : Type := List UInt8

/-- `read_scalar`. -/
def readScalar (α : Type) [Scalar α] (page : PageSuffix) : Except Fault (α × PageSuffix) :=
  if page.length < Scalar.width α then
    raise .runtimeError (text "Index node page is truncated")
  else .ok (Scalar.decode (page.take (Scalar.width α)), page.drop (Scalar.width α))

/-- The bytes of a string key. -/
def stringKeyBytes (s : ByteString) : List UInt8 :=
  s ++ List.replicate (indexStringKeySize - s.length) 0

/-- `write_key`. -/
def writeKey (page : PagePrefix) (key : IndexKey) : Except Fault PagePrefix :=
  match key with
  | .int n => writeScalar page n
  | .str s => do
      validateStringKey s
      if pageSize < page.length + indexStringKeySize then
        raise .lengthError (text "Index node does not fit into page")
      else pure (page ++ stringKeyBytes s)

/-- `read_key`. -/
def readKey (kind : IndexKeyKind) (page : PageSuffix) : Except Fault (IndexKey × PageSuffix) :=
  if kind = .int64 then do
    let (n, rest) ← readScalar Int64 page
    pure (.int n, rest)
  else if kind = .string then
    if page.length < indexStringKeySize then
      raise .runtimeError (text "Index string key is truncated")
    else
      .ok (.str ((page.take indexStringKeySize).takeWhile fun b => b != 0),
        page.drop indexStringKeySize)
  else raise .invalidArgument (text "Unsupported index key kind")

/-! ## Reading back what was written -/

/-- The bytes of a key. -/
def keyBytes : IndexKey → List UInt8
  | .int n => Scalar.encode n
  | .str s => stringKeyBytes s

theorem writeScalar_eq {α : Type} [Scalar α] {page : PagePrefix} (value : α)
    (room : page.length + Scalar.width α ≤ pageSize) :
    writeScalar page value = .ok (page ++ Scalar.encode value) :=
  if_neg (Nat.not_lt.mpr room)

theorem readScalar_append {α : Type} [Scalar α] (value : α) (rest : List UInt8) :
    readScalar α (Scalar.encode value ++ rest) = .ok (value, rest) := by
  have hlength : Scalar.width α = (Scalar.encode value).length := by simp
  rw [readScalar, if_neg (by simp)]
  rw [hlength, List.take_left', List.drop_left', Scalar.decode_encode] <;> rfl

theorem length_keyBytes {kind : IndexKeyKind} {key : IndexKey} (h : Admissible kind key) :
    (keyBytes key).length = fixedKeySize kind := by
  cases key with
  | int n =>
      obtain rfl : kind = .int64 := h
      exact Scalar.length_encode n
  | str s =>
      obtain ⟨rfl, hlength, -⟩ := h
      simp only [keyBytes, stringKeyBytes, List.length_append, List.length_replicate]
      rw [Nat.add_sub_cancel' hlength]
      rfl

theorem writeKey_eq {kind : IndexKeyKind} {key : IndexKey} {page : PagePrefix}
    (h : Admissible kind key) (room : page.length + fixedKeySize kind ≤ pageSize) :
    writeKey page key = .ok (page ++ keyBytes key) := by
  cases key with
  | int n =>
      obtain rfl : kind = .int64 := h
      exact writeScalar_eq n room
  | str s =>
      obtain ⟨rfl, hlength, hzero⟩ := h
      have hvalid : validateStringKey s = .ok () := by
        rw [validateStringKey, if_neg (Nat.not_lt.mpr hlength), if_neg hzero]
      have hroom : ¬ pageSize < page.length + indexStringKeySize := Nat.not_lt.mpr room
      simp only [writeKey, hvalid, hroom, if_false, bind, Except.bind, pure, Except.pure]
      rfl

theorem takeWhile_stringKeyBytes {s : ByteString} (hzero : (0 : UInt8) ∉ s) :
    (stringKeyBytes s).takeWhile (fun b => b != 0) = s := by
  rw [stringKeyBytes, List.takeWhile_append_of_pos]
  · cases indexStringKeySize - s.length <;> simp [List.replicate_succ]
  · intro b hb
    have : b ≠ 0 := by
      rintro rfl
      exact hzero hb
    simpa using this

theorem readKey_append {kind : IndexKeyKind} {key : IndexKey} (h : Admissible kind key)
    (rest : List UInt8) : readKey kind (keyBytes key ++ rest) = .ok (key, rest) := by
  have hlength := length_keyBytes h
  cases key with
  | int n =>
      obtain rfl : kind = .int64 := h
      simp only [readKey, keyBytes, readScalar_append, if_true, bind, Except.bind, pure,
        Except.pure]
  | str s =>
      obtain ⟨rfl, -, hzero⟩ := h
      have hsize : (stringKeyBytes s).length = indexStringKeySize := hlength
      rw [readKey, if_neg (by decide), if_pos rfl, if_neg]
      · rw [keyBytes, List.take_left' hsize, List.drop_left' hsize, takeWhile_stringKeyBytes hzero]
      · simp [keyBytes, hsize]

end CwDb.Index
