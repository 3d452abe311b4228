import EthMange.Lwip.Pbuf

/-!
# Files on the card

The part of the embedded filesystem library that the servers use: a `File` that
is opened, read or written at its own position, and closed. A file open for
writing is opened empty and only grows, so its position is its end.
-/

namespace EthMange

/-- The card: `locate` is the directory entry that `fs_findFile` looks for under a
name, `files` the bytes of an entry up to its `FileSize`. -/
structure Card where
  locate : Bytes → Bytes
  files : Bytes → Option Bytes

/-- Content of the file of a name, if there is one. -/
def Card.lookup (card : Card) (fileName : Bytes) : Option Bytes :=
  card.files (card.locate fileName)

def Card.setFile (card : Card) (location content : Bytes) : Card :=
  { card with files := Function.update card.files location (some content) }

@[simp] theorem Card.setFile_locate (card : Card) (location content : Bytes) :
    (card.setFile location content).locate = card.locate := rfl

@[simp] theorem Card.setFile_files_self (card : Card) (location content : Bytes) :
    (card.setFile location content).files location = some content := by
  simp [setFile]

theorem Card.setFile_files_of_ne (card : Card) {location other : Bytes} (content : Bytes)
    (h : other ≠ location) : (card.setFile location content).files other = card.files other := by
  simp [setFile, h]

/-- `File`. `content` holds the `FileSize` bytes of its cluster chain. -/
structure EmbeddedFile where
  isOpen : Bool
  isWrite : Bool
  location : Bytes
  content : Bytes
  filePtr : ℕ
  filePtr_le : filePtr ≤ content.length
  write_at_end : isWrite = true → filePtr = content.length

/-- What `memClr` leaves: the file is not open. -/
def EmbeddedFile.cleared : EmbeddedFile where
  isOpen := false
  isWrite := false
  location := []
  content := []
  filePtr := 0
  filePtr_le := le_rfl
  write_at_end := fun _ => rfl

namespace EmbeddedFile

-- what `file_fopen` makes of an entry in mode `'r'` and of a new one in mode `'w'`
def openRead (location content : Bytes) : EmbeddedFile where
  isOpen := true
  isWrite := false
  location := location
  content := content
  filePtr := 0
  filePtr_le := Nat.zero_le _
  write_at_end := by simp

def openWrite (location : Bytes) : EmbeddedFile where
  isOpen := true
  isWrite := true
  location := location
  content := []
  filePtr := 0
  filePtr_le := le_rfl
  write_at_end := fun _ => rfl

/-- The bytes at the position, `n` at most. -/
def ahead (f : EmbeddedFile) (n : ℕ) : Bytes := (f.content.drop f.filePtr).take n

@[simp] theorem openRead_isOpen (location content : Bytes) :
    (openRead location content).isOpen = true := rfl

theorem ahead_length (f : EmbeddedFile) (n : ℕ) :
    (f.ahead n).length = min n (f.content.length - f.filePtr) := by
  simp [ahead]

theorem filePtr_add_ahead_le (f : EmbeddedFile) (n : ℕ) :
    f.filePtr + (f.ahead n).length ≤ f.content.length := by
  have hle := f.filePtr_le
  rw [ahead_length]
  omega

def advance (f : EmbeddedFile) (n : ℕ) : EmbeddedFile :=
  { f with
    filePtr := f.filePtr + (f.ahead n).length
    filePtr_le := f.filePtr_add_ahead_le n
    write_at_end := by
      intro hw
      have hend := f.write_at_end hw
      rw [ahead_length]
      omega }

def append (f : EmbeddedFile) (bs : Bytes) : EmbeddedFile :=
  { f with
    content := f.content ++ bs
    filePtr := f.filePtr + bs.length
    filePtr_le := by
      rw [List.length_append]
      exact Nat.add_le_add_right f.filePtr_le _
    write_at_end := by
      intro hw
      rw [List.length_append, f.write_at_end hw] }

theorem append_nil (f : EmbeddedFile) : f.append [] = f := by
  cases f
  simp [append]

end EmbeddedFile

/-- `file_read`. `limit` bounds what the card delivers: a cluster that cannot be
looked up makes the call return 0. -/
def fileRead (f : EmbeddedFile) (size limit : ℕ) : Bytes × EmbeddedFile :=
  if f.isOpen then (f.ahead (min size limit), f.advance (min size limit)) else ([], f)

/-- How far a `file_write` gets. -/
inductive WriteResult
  | stored
  -- `fat_allocClusterChain` fails
  | noCluster
  -- `fat_LogicToDiscCluster` fails after that many bytes
  | stopped (bytesWritten : ℕ)
  deriving DecidableEq, Repr

/-- The number of bytes, of `size`, that get to the card. -/
def WriteResult.count (r : WriteResult) (size : ℕ) : ℕ :=
  match r with
  | .stored => size
  | .noCluster => 0
  | .stopped bytesWritten => min bytesWritten size

def fileWrite (f : EmbeddedFile) (card : Card) (bs : Bytes) (r : WriteResult) :
    ℕ × EmbeddedFile × Card :=
  if f.isOpen && f.isWrite then
    let f' := f.append (bs.take (r.count bs.length))
    match r with
    | .stopped _ => (r.count bs.length, f', card.setFile f'.location f'.content)
    | _ => (r.count bs.length, f', card)
  else (0, f, card)

/-- `file_fopen` with mode `'r'`. -/
def fileFopenRead (f : EmbeddedFile) (card : Card) (fileName : Bytes) : ℤ × EmbeddedFile :=
  match card.lookup fileName with
  | some content => (0, .openRead (card.locate fileName) content)
  | none => (-1, f)

/-- What `fs_findFile` and `fs_findFreeFile` say about the place of a new file. -/
inductive CreateResult
  | free
  | noParent
  | noEntry
  deriving DecidableEq, Repr

/-- `file_fopen` with mode `'w'`. The file may not exist. -/
def fileFopenWrite (f : EmbeddedFile) (card : Card) (fileName : Bytes) (r : CreateResult) :
    ℤ × EmbeddedFile × Card :=
  match card.lookup fileName, r with
  | some _, _ => (-2, f, card)
  | none, .noParent => (-4, f, card)
  | none, .noEntry => (-3, f, card)
  | none, .free =>
    (0, .openWrite (card.locate fileName), card.setFile (card.locate fileName) [])

/-- `file_fclose`: the directory entry of a written file gets its size. -/
def fileFclose (f : EmbeddedFile) (card : Card) : EmbeddedFile × Card :=
  (.cleared, if f.isWrite then card.setFile f.location f.content else card)

/-! ### What a call does -/

/-- Two cards agree but for the content of one entry, which both have or which
has come in. -/
structure SameBut (location : Bytes) (card card' : Card) : Prop where
  locate : card'.locate = card.locate
  others : ∀ l ≠ location, card'.files l = card.files l
  entry : card.files location ≠ none → card'.files location ≠ none

theorem SameBut.refl (location : Bytes) (card : Card) : SameBut location card card :=
  ⟨rfl, fun _ _ => rfl, id⟩

theorem SameBut.setFile (location content : Bytes) (card : Card) :
    SameBut location card (card.setFile location content) where
  locate := rfl
  others := fun _ h => card.setFile_files_of_ne content h
  entry := by simp

theorem SameBut.trans {location : Bytes} {a b c : Card} (hab : SameBut location a b)
    (hbc : SameBut location b c) : SameBut location a c where
  locate := hbc.locate.trans hab.locate
  others := fun l hl => (hbc.others l hl).trans (hab.others l hl)
  entry := fun h => hbc.entry (hab.entry h)

theorem SameBut.lookup_of_ne {location fileName : Bytes} {card card' : Card}
    (h : SameBut location card card') (hne : card.locate fileName ≠ location) :
    card'.lookup fileName = card.lookup fileName := by
  rw [Card.lookup, h.locate, h.others _ hne]
  rfl

theorem fileWrite_card (f : EmbeddedFile) (card : Card) (bs : Bytes) (r : WriteResult) :
    SameBut f.location card (fileWrite f card bs r).2.2 := by
  rw [fileWrite]
  split
  · cases r with
    | stopped n => exact SameBut.setFile _ _ _
    | stored | noCluster => exact SameBut.refl _ _
  · exact SameBut.refl _ _

theorem fileFclose_card (f : EmbeddedFile) (card : Card) :
    SameBut f.location card (fileFclose f card).2 := by
  rw [fileFclose]
  split
  · exact SameBut.setFile _ _ _
  · exact SameBut.refl _ _

theorem fileFopenRead_of_lookup {card : Card} {fileName content : Bytes}
    (h : card.lookup fileName = some content) (f : EmbeddedFile) :
    fileFopenRead f card fileName = (0, .openRead (card.locate fileName) content) := by
  simp [fileFopenRead, h]

theorem fileFopenRead_of_missing {card : Card} {fileName : Bytes}
    (h : card.lookup fileName = none) (f : EmbeddedFile) :
    fileFopenRead f card fileName = (-1, f) := by
  simp [fileFopenRead, h]

/-- A file that cannot be created leaves everything as it is. -/
theorem fileFopenWrite_cases (f : EmbeddedFile) (card : Card) (fileName : Bytes)
    (r : CreateResult) :
    (card.lookup fileName = none ∧ fileFopenWrite f card fileName r =
        (0, .openWrite (card.locate fileName), card.setFile (card.locate fileName) [])) ∨
      ∃ err ≠ 0, fileFopenWrite f card fileName r = (err, f, card) := by
  cases h : card.lookup fileName <;> cases r <;> simp [fileFopenWrite, h]

theorem fileRead_of_closed {f : EmbeddedFile} (h : f.isOpen = false) (size limit : ℕ) :
    fileRead f size limit = ([], f) := by
  simp [fileRead, h]

theorem fileRead_of_open {f : EmbeddedFile} (h : f.isOpen = true) (size limit : ℕ) :
    fileRead f size limit = (f.ahead (min size limit), f.advance (min size limit)) := by
  simp [fileRead, h]

/-- A read delivers bytes of the file at its position, and the position moves by
as many. -/
theorem fileRead_spec (f : EmbeddedFile) (size limit : ℕ) :
    (fileRead f size limit).1 <+: f.content.drop f.filePtr ∧
      (fileRead f size limit).2.filePtr = f.filePtr + (fileRead f size limit).1.length ∧
      (fileRead f size limit).2.content = f.content ∧
      (fileRead f size limit).2.location = f.location ∧
      (fileRead f size limit).2.isOpen = f.isOpen ∧
      (fileRead f size limit).2.isWrite = f.isWrite := by
  rw [fileRead]
  split
  · exact ⟨List.take_prefix _ _, rfl, rfl, rfl, rfl, rfl⟩
  · exact ⟨List.nil_prefix, rfl, rfl, rfl, rfl, rfl⟩

/-- A write appends the bytes that get to the card. -/
theorem fileWrite_of_open {f : EmbeddedFile} (ho : f.isOpen = true) (hw : f.isWrite = true)
    (card : Card) (bs : Bytes) (r : WriteResult) :
    (fileWrite f card bs r).1 = r.count bs.length ∧
      (fileWrite f card bs r).2.1 = f.append (bs.take (r.count bs.length)) := by
  cases r <;> simp [fileWrite, ho, hw]

end EthMange
