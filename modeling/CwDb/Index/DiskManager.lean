/-
  Index/DiskManager.lean --- `index/src/DiskManager.cpp`: the pages of an index file.

  A file is its header page and the pages after it.  Reads and writes of the file
  succeed; flushing and the position of the stream leave no trace in the model.
-/
import CwDb.Foundation.Effect
import CwDb.Index.Key

set_option autoImplicit false

namespace CwDb.Index

open CwDb.Cpp
open CwDb.Foundation

/-! ## Metadata -/

/-- `struct BStarPlusIndexMetadata`. -/
structure BStarPlusIndexMetadata where
  rootPageId : PageId := invalidPageId
  firstLeafPageId : PageId := invalidPageId
  height : UInt32 := 0
  size : UInt64 := 0
  keyKind : IndexKeyKind := .unknown
  deriving DecidableEq, Repr, Inhabited

namespace BStarPlusIndexMetadata

/-- `BStarPlusIndexMetadata::empty`. -/
def empty (metadata : BStarPlusIndexMetadata) : Bool :=
  metadata.rootPageId == invalidPageId || metadata.height == 0

/-- The fields as they stand at the beginning of the file. -/
def encode (metadata : BStarPlusIndexMetadata) : List UInt8 :=
  Scalar.encode metadata.rootPageId ++ (Scalar.encode metadata.firstLeafPageId ++
    (Scalar.encode metadata.height ++ (Scalar.encode metadata.size ++
      Scalar.encode metadata.keyKind.raw)))

def decode (bytes : List UInt8) : BStarPlusIndexMetadata where
  rootPageId := Scalar.decode (bytes.take 8)
  firstLeafPageId := Scalar.decode ((bytes.drop 8).take 8)
  height := Scalar.decode ((bytes.drop 16).take 4)
  size := Scalar.decode ((bytes.drop 20).take 8)
  keyKind := ⟨Scalar.decode ((bytes.drop 28).take 1)⟩

/-- `INDEX_METADATA_SIZE`. -/
def indexMetadataSize : Nat := 29

@[simp] theorem length_encode (metadata : BStarPlusIndexMetadata) :
    metadata.encode.length = indexMetadataSize := by
  simp [encode, Scalar.width, indexMetadataSize]

theorem decode_encode_append (metadata : BStarPlusIndexMetadata) (rest : List UInt8) :
    decode (metadata.encode ++ rest) = metadata := by
  have h64 : ∀ a : UInt64, (Scalar.encode a).length = 8 := fun a => Scalar.length_encode a
  have h32 : ∀ a : UInt32, (Scalar.encode a).length = 4 := fun a => Scalar.length_encode a
  have h8 : ∀ a : UInt8, (Scalar.encode a).length = 1 := fun a => Scalar.length_encode a
  obtain ⟨root, first, height, size, ⟨kind⟩⟩ := metadata
  unfold decode encode
  simp only [List.append_assoc, List.take_left' (h64 _), List.drop_left' (h64 _),
    show (16 : Nat) = 8 + 8 from rfl, show (20 : Nat) = 8 + 8 + 4 from rfl,
    show (28 : Nat) = 8 + 8 + 4 + 8 from rfl, ← List.drop_drop, List.take_left' (h32 _),
    List.drop_left' (h32 _), List.take_left' (h8 _), Scalar.decode_encode]

end BStarPlusIndexMetadata

/-! ## Files -/

/-- `PAGE_SIZE` bytes. -/
structure Page where
  bytes : List UInt8
  length : bytes.length = pageSize
  deriving DecidableEq

/-- `std::vector<char>(PAGE_SIZE, 0)`. -/
def zeroPage : Page := ⟨List.replicate pageSize 0, List.length_replicate⟩

/-- A file of an index, whose size is a multiple of the page size. -/
structure IndexFile where
  header : Page
  pages : List Page
  deriving DecidableEq

namespace IndexFile

/-- `file_size`. -/
def size (file : IndexFile) : Nat := pageSize + file.pages.length * pageSize

/-- A header page that begins with the metadata. -/
def writeHeader (header : Page) (metadata : BStarPlusIndexMetadata) : Page :=
  ⟨metadata.encode ++ header.bytes.drop BStarPlusIndexMetadata.indexMetadataSize, by
    rw [List.length_append, BStarPlusIndexMetadata.length_encode, List.length_drop, header.length]
    rfl⟩

/-- The file that the constructor of `DiskPageManager` creates. -/
def created : IndexFile := ⟨writeHeader zeroPage {}, []⟩

/-- The file after a page has been written; a gap that is left reads as zero. -/
def writePageAt (file : IndexFile) (position : Nat) (page : Page) : IndexFile :=
  { file with
    pages :=
      if position < file.pages.length then file.pages.set position page
      else file.pages ++ List.replicate (position - file.pages.length) zeroPage ++ [page] }

end IndexFile

/-! ## The page manager -/

/-- `class DiskPageManager`: the file it has open and `_page_count`. -/
structure DiskPageManager where
  file : IndexFile
  pageCount : PageId
  deriving DecidableEq

/-- The largest `std::streamoff`. -/
def maxOffset : Nat := 2 ^ 63 - 1

/-- `DiskPageManager::page_offset`, before the sum overflows. -/
def pageOffset (pageId : PageId) : Except Fault Nat :=
  if maxOffset / pageSize < pageId.toNat then
    raise .outOfRange (text "Index page offset is out of range")
  else .ok (pageSize + pageId.toNat * pageSize)

/-- A seek to a page: its position among the pages.  An offset that overflows is negative,
and the stream refuses it. -/
def seekPage (pageId : PageId) (refusal : ByteString) : Except Fault Nat := do
  let offset ← pageOffset pageId
  if maxOffset < offset then raise .runtimeError refusal else pure pageId.toNat

namespace DiskPageManager

/-- `DiskPageManager(file_path)`; `none` when there is no such file. -/
def ofFile (file : Option IndexFile) : DiskPageManager :=
  let file := file.getD .created
  { file, pageCount := UInt64.ofNat file.pages.length }

/-- `validate_existing_page_id`. -/
def validateExistingPageId (disk : DiskPageManager) (pageId : PageId) : Except Fault Unit :=
  if pageId = invalidPageId ∨ disk.pageCount ≤ pageId then
    raise .outOfRange (text "Index page id is out of range")
  else .ok ()

/-- `DiskPageManager::allocate_page`. -/
def allocatePage : EStateM Fault DiskPageManager PageId := do
  let disk ← get
  let pageId := disk.pageCount
  let position ← fromExcept (seekPage pageId (text "Cannot seek to new index page"))
  set { file := disk.file.writePageAt position zeroPage, pageCount := pageId + 1 :
    DiskPageManager }
  pure pageId

/-- `DiskPageManager::read_page`. -/
def readPage (disk : DiskPageManager) (pageId : PageId) : Except Fault (List UInt8) := do
  disk.validateExistingPageId pageId
  let position ← seekPage pageId (text "Cannot seek index page for read")
  match disk.file.pages[position]? with
  | some page => pure page.bytes
  | none => raise .runtimeError (text "Cannot read index page")

/-- `DiskPageManager::write_page`. -/
def writePage (pageId : PageId) (data : List UInt8) : EStateM Fault DiskPageManager PUnit := do
  let disk ← get
  fromExcept (disk.validateExistingPageId pageId)
  if h : data.length = pageSize then do
    let position ← fromExcept (seekPage pageId (text "Cannot seek index page for write"))
    set { disk with file := disk.file.writePageAt position ⟨data, h⟩ }
  else throw (.throws .invalidArgument (text "Index page must have PAGE_SIZE bytes"))

/-- `DiskPageManager::read_metadata`. -/
def readMetadata (disk : DiskPageManager) : BStarPlusIndexMetadata :=
  .decode disk.file.header.bytes

/-- `DiskPageManager::write_metadata`. -/
def writeMetadata (disk : DiskPageManager) (metadata : BStarPlusIndexMetadata) :
    DiskPageManager :=
  { disk with file := { disk.file with header := IndexFile.writeHeader disk.file.header metadata } }

/-! ## What the operations do -/

/-- The manager has counted the pages of its file, and there are fewer than an offset can
address. -/
structure Sound (disk : DiskPageManager) : Prop where
  counted : disk.file.pages.length = disk.pageCount.toNat
  addressable : disk.pageCount.toNat < 2 ^ 51

/-- The file has reached the size that an offset cannot express. -/
def Full (disk : DiskPageManager) : Prop := 2 ^ 63 ≤ disk.file.size

/-- The manager after a page that exists has been written. -/
def withPage (disk : DiskPageManager) (pageId : PageId) (page : Page) : DiskPageManager :=
  { disk with file := disk.file.writePageAt pageId.toNat page }

/-- The manager after a page has been allocated. -/
def grown (disk : DiskPageManager) : DiskPageManager :=
  { file := disk.file.writePageAt disk.pageCount.toNat zeroPage, pageCount := disk.pageCount + 1 }

theorem seekPage_eq {pageId : PageId} {refusal : ByteString} (h : pageId.toNat < 2 ^ 51 - 1) :
    seekPage pageId refusal = .ok pageId.toNat := by
  have hoffset : pageOffset pageId = .ok (pageSize + pageId.toNat * pageSize) := by
    refine if_neg ?_
    simp only [maxOffset, pageSize]
    omega
  simp only [seekPage, hoffset, bind, Except.bind]
  rw [if_neg]
  · rfl
  · simp only [maxOffset, pageSize]
    omega

theorem seekPage_error {pageId : PageId} {refusal : ByteString}
    (h : 2 ^ 51 - 1 ≤ pageId.toNat) : ∃ e, seekPage pageId refusal = .error e := by
  unfold seekPage pageOffset
  by_cases hmax : maxOffset / pageSize < pageId.toNat
  · exact ⟨_, by rw [if_pos hmax]; rfl⟩
  · rw [if_neg hmax]
    refine ⟨_, if_pos ?_⟩
    simp only [maxOffset, pageSize] at hmax ⊢
    omega

theorem validateExistingPageId_eq {disk : DiskPageManager} {pageId : PageId}
    (sound : disk.Sound) (h : pageId < disk.pageCount) :
    disk.validateExistingPageId pageId = .ok () := by
  refine if_neg (not_or.mpr ⟨?_, not_le.mpr h⟩)
  rintro rfl
  have hlt : invalidPageId.toNat < disk.pageCount.toNat := h
  have hmax := sound.addressable
  have : invalidPageId.toNat = 2 ^ 64 - 1 := by decide
  omega

/-- A page that exists is read as it stands. -/
theorem readPage_eq {disk : DiskPageManager} {pageId : PageId} {page : Page}
    (sound : disk.Sound) (h : disk.file.pages[pageId.toNat]? = some page) :
    disk.readPage pageId = .ok page.bytes := by
  have hlt : pageId.toNat < disk.pageCount.toNat := by
    rw [← sound.counted]
    exact (List.getElem?_eq_some_iff.mp h).1
  have hmax := sound.addressable
  simp only [readPage, validateExistingPageId_eq sound hlt,
    seekPage_eq (show pageId.toNat < 2 ^ 51 - 1 by omega), h, bind, Except.bind, pure,
    Except.pure]

/-- A page that does not exist is not read. -/
theorem readPage_of_le {disk : DiskPageManager} {pageId : PageId}
    (h : disk.pageCount.toNat ≤ pageId.toNat) :
    disk.readPage pageId = raise .outOfRange (text "Index page id is out of range") := by
  have hle : disk.pageCount ≤ pageId := h
  unfold readPage validateExistingPageId
  rw [if_pos (.inr hle)]
  rfl

theorem writePage_run {disk : DiskPageManager} {pageId : PageId} (page : Page)
    (sound : disk.Sound) (h : pageId < disk.pageCount) :
    writePage pageId page.bytes disk = .ok ⟨⟩ (disk.withPage pageId page) := by
  have hlt : pageId.toNat < disk.pageCount.toNat := h
  have hmax := sound.addressable
  unfold writePage
  rw [bind_ok get_run, validateExistingPageId_eq sound h, fromExcept_ok, pure_bind,
    dif_pos page.length, seekPage_eq (show pageId.toNat < 2 ^ 51 - 1 by omega), fromExcept_ok,
    pure_bind]
  rfl

/-- A page is allocated, unless the file is full. -/
theorem ends_allocatePage {disk : DiskPageManager} (sound : disk.Sound) :
    Ends allocatePage disk
      (fun pageId disk' => pageId = disk.pageCount ∧ disk' = disk.grown ∧
        disk.pageCount.toNat + 1 < 2 ^ 51)
      (fun _ disk' => disk' = disk ∧ disk.Full) := by
  unfold allocatePage
  rw [ends_bind, ends_get]
  have hmax := sound.addressable
  by_cases h : disk.pageCount.toNat < 2 ^ 51 - 1
  · dsimp only
    rw [seekPage_eq h, fromExcept_ok, pure_bind]
    exact ⟨rfl, rfl, by omega⟩
  · obtain ⟨e, he⟩ := seekPage_error
      (Nat.not_lt.mp h)
    dsimp only
    rw [he, fromExcept_error, ends_bind, ends_throw]
    refine ⟨rfl, ?_⟩
    simp only [Full, IndexFile.size, sound.counted, pageSize]
    omega

theorem pages_withPage {disk : DiskPageManager} {pageId : PageId} {page : Page}
    (sound : disk.Sound) (h : pageId < disk.pageCount) :
    (disk.withPage pageId page).file.pages = disk.file.pages.set pageId.toNat page := by
  have hlt : pageId.toNat < disk.file.pages.length := by
    rw [sound.counted]
    exact h
  simp [withPage, IndexFile.writePageAt, hlt]

theorem pages_grown {disk : DiskPageManager} (sound : disk.Sound) :
    disk.grown.file.pages = disk.file.pages ++ [zeroPage] := by
  simp [grown, IndexFile.writePageAt, sound.counted]

theorem Sound.withPage {disk : DiskPageManager} {pageId : PageId} {page : Page}
    (sound : disk.Sound) (h : pageId < disk.pageCount) : (disk.withPage pageId page).Sound := by
  refine ⟨?_, sound.addressable⟩
  rw [pages_withPage sound h, List.length_set]
  exact sound.counted

theorem toNat_pageCount_grown {disk : DiskPageManager}
    (room : disk.pageCount.toNat + 1 < 2 ^ 51) :
    disk.grown.pageCount.toNat = disk.pageCount.toNat + 1 := by
  change (disk.pageCount + 1).toNat = _
  rw [UInt64.toNat_add]
  change (disk.pageCount.toNat + 1) % 2 ^ 64 = _
  omega

theorem Sound.grown {disk : DiskPageManager} (sound : disk.Sound)
    (room : disk.pageCount.toNat + 1 < 2 ^ 51) : disk.grown.Sound := by
  refine ⟨?_, ?_⟩
  · rw [pages_grown sound, toNat_pageCount_grown room, List.length_append, sound.counted]
    rfl
  · rw [toNat_pageCount_grown room]
    exact room

end DiskPageManager
end CwDb.Index
