import NfsmwRuntime.Obb.Index

/-!
# Archives and their index

An archive is anything, the central directory, the end record and a comment. Opening its
encoding gives back the entries of the central directory, in order.

The headers carry more than the index reads (versions, checksums, attributes); these
bytes are arbitrary here. The archive's own condition is that no later end signature
hides its end record from the backwards search.
-/

namespace NfsmwRuntime.Obb

open Library

/-- A file of the central directory. `fixed` are the 20 header bytes between the signature
and the size, `location` the 12 after the lengths. -/
structure CentralEntry where
  name : CString
  size : UInt32
  extra : List UInt8
  comment : List UInt8
  fixed : List UInt8
  location : List UInt8
  name_ne : name ≠ []
  name_lt : name.length < nameLimit
  name_nul : 0 ∉ name
  extra_lt : extra.length < 2 ^ 16
  comment_lt : comment.length < 2 ^ 16
  length_fixed : fixed.length = 20
  length_location : location.length = 12

namespace CentralEntry

variable (e : CentralEntry)

def header : List UInt8 :=
  le32 0x02014b50 ++ e.fixed ++ le32 e.size ++ le16 (.ofNat e.name.length) ++
    le16 (.ofNat e.extra.length) ++ le16 (.ofNat e.comment.length) ++ e.location

def encode : List UInt8 := e.header ++ e.name ++ e.extra ++ e.comment

/-- What the index keeps of the entry. -/
def indexed : ObbEntry := ⟨e.name, e.size, e.name.getLast? = some slash⟩

end CentralEntry

/-- The parts of an archive. `disks` are the six bytes of the end record that number the
disks and count the entries on this one. -/
structure ArchiveParts where
  leading : List UInt8
  entries : List CentralEntry
  disks : List UInt8
  comment : List UInt8

namespace ArchiveParts

variable (a : ArchiveParts)

def central : List UInt8 := a.entries.flatMap CentralEntry.encode

def endRecord : List UInt8 :=
  le32 0x06054b50 ++ a.disks ++ le16 (.ofNat a.entries.length) ++ le32 (.ofNat a.central.length) ++
    le32 (.ofNat a.leading.length) ++ le16 (.ofNat a.comment.length)

def bytes : List UInt8 := a.leading ++ a.central ++ a.endRecord ++ a.comment

/-- Where the end record starts. -/
def endOffset : Nat := a.leading.length + a.central.length

end ArchiveParts

/-- An archive that fits the format's fields and whose end record is the last one. -/
structure Archive extends ArchiveParts where
  entries_lt : entries.length < 65535
  comment_lt : comment.length ≤ 65535
  length_disks : disks.length = 6
  bytes_lt : toArchiveParts.bytes.length < 2 ^ 31
  last_signature : ∀ i, toArchiveParts.endOffset < i → i + 22 ≤ toArchiveParts.bytes.length →
    (toArchiveParts.bytes.drop i).take 4 ≠ [0x50, 0x4b, 0x05, 0x06]

/-! ## One entry -/

theorem CentralEntry.length_header (e : CentralEntry) : e.header.length = 46 := by
  simp [header, e.length_fixed, e.length_location]

theorem CentralEntry.length_encode (e : CentralEntry) :
    e.encode.length = 46 + e.name.length + e.extra.length + e.comment.length := by
  simp [encode, e.length_header, Nat.add_assoc]

theorem CentralEntry.read_signature (e : CentralEntry) : readU32 e.header = 0x02014b50 := by
  simp only [header, List.append_assoc, readU32_le32]

theorem CentralEntry.read_size (e : CentralEntry) : readU32 (e.header.drop 24) = e.size :=
  readU32_drop (a := le32 0x02014b50 ++ e.fixed) (by simp only [header, List.append_assoc]; rfl)
    (by simp [e.length_fixed])

theorem CentralEntry.read_name_length (e : CentralEntry) :
    (readU16 (e.header.drop 28)).toNat = e.name.length := by
  have hname : e.name.length < 2 ^ 16 := e.name_lt.trans (by decide)
  rw [readU16_drop (a := le32 0x02014b50 ++ e.fixed ++ le32 e.size)
    (by simp only [header, List.append_assoc]; rfl) (by simp [e.length_fixed])]
  exact UInt16.toNat_ofNat_of_lt hname

theorem CentralEntry.read_extra_length (e : CentralEntry) :
    (readU16 (e.header.drop 30)).toNat = e.extra.length := by
  rw [readU16_drop (a := le32 0x02014b50 ++ e.fixed ++ le32 e.size ++
      le16 (.ofNat e.name.length))
    (by simp only [header, List.append_assoc]; rfl) (by simp [e.length_fixed])]
  exact UInt16.toNat_ofNat_of_lt e.extra_lt

theorem CentralEntry.read_comment_length (e : CentralEntry) :
    (readU16 (e.header.drop 32)).toNat = e.comment.length := by
  rw [readU16_drop (a := le32 0x02014b50 ++ e.fixed ++ le32 e.size ++
      le16 (.ofNat e.name.length) ++ le16 (.ofNat e.extra.length))
    (by simp only [header, List.append_assoc]; rfl) (by simp [e.length_fixed])]
  exact UInt16.toNat_ofNat_of_lt e.comment_lt

theorem readEntry_encode (e : CentralEntry) (before after : List UInt8) (index : Nat) :
    readEntry .reliable (before ++ (e.encode ++ after)) index before.length =
      .ok (e.indexed, (before ++ e.encode).length) := by
  have hheader : fread (before ++ (e.encode ++ after)) before.length 46 = some e.header :=
    fread_append (c := e.name ++ e.extra ++ e.comment ++ after)
      (by simp only [CentralEntry.encode, List.append_assoc]) rfl e.length_header
  have hname : fread (before ++ (e.encode ++ after)) (before.length + 46) e.name.length =
      some e.name :=
    fread_append (a := before ++ e.header) (c := e.extra ++ e.comment ++ after)
      (by simp only [CentralEntry.encode, List.append_assoc]) (by simp [e.length_header]) rfl
  have hlt : e.name.length ≠ 0 ∧ e.name.length < nameLimit := by
    have hpos := List.length_pos_of_ne_nil e.name_ne
    have := e.name_lt
    omega
  have hlast : e.name.getD (e.name.length - 1) 0 = slash ↔ e.name.getLast? = some slash := by
    rw [List.getLast?_eq_getElem?, List.getD_eq_getElem?_getD,
      List.getElem?_eq_getElem (Nat.sub_one_lt (List.length_pos_of_ne_nil e.name_ne).ne')]
    simp
  have hread : readHeader .reliable (before ++ (e.encode ++ after)) index before.length =
      .ok e.header := by
    simp only [readHeader, OpenHost.reliable, attempt_true, hheader, require_some, ok_bind,
      check_of e.read_signature]
    rfl
  rw [readEntry, hread, ok_bind]
  simp only [e.read_name_length, e.read_extra_length, e.read_comment_length, e.read_size,
    check_of hlt, OpenHost.reliable, Bool.and_true, attempt_true, hname, require_some, hlast,
    ok_bind, check_of]
  rw [CentralEntry.indexed, List.length_append, e.length_encode]
  simp only [Nat.add_assoc]
  rfl

theorem readEntries_encode (entries : List CentralEntry) (before after : List UInt8)
    (index : Nat) :
    readEntries .reliable (before ++ (entries.flatMap CentralEntry.encode ++ after))
      entries.length index before.length = .ok (entries.map CentralEntry.indexed) := by
  induction entries generalizing before index with
  | nil => rfl
  | cons e entries ih =>
    have hrest := ih (before ++ e.encode) (index + 1)
    simp only [List.append_assoc] at hrest
    simp only [List.flatMap_cons, List.append_assoc, List.length_cons, readEntries,
      readEntry_encode]
    rw [ok_bind, hrest, ok_bind]
    rfl

/-! ## The end record -/

theorem searchEocd_eq {tail : List UInt8} {eocd bound : Nat} (hbound : eocd < bound)
    (hsignature : readU32 (tail.drop eocd) = 0x06054b50)
    (hlast : ∀ i, eocd < i → i < bound → readU32 (tail.drop i) ≠ 0x06054b50) :
    searchEocd tail bound = some eocd := by
  induction bound with
  | zero => omega
  | succ bound ih =>
    rw [searchEocd]
    by_cases heq : eocd = bound
    · rw [← heq, if_pos hsignature]
    · rw [if_neg (hlast bound (by omega) (by omega))]
      exact ih (by omega) fun i hi hlt => hlast i hi (by omega)

namespace Archive

variable (a : Archive)

theorem length_endRecord : a.endRecord.length = 22 := by
  simp [ArchiveParts.endRecord, a.length_disks]

theorem length_bytes : a.bytes.length = a.endOffset + 22 + a.comment.length := by
  simp [ArchiveParts.bytes, ArchiveParts.endOffset, a.length_endRecord, Nat.add_assoc]

theorem length_leading : a.leading.length < 2 ^ 31 := by
  have := a.bytes_lt
  rw [length_bytes, ArchiveParts.endOffset] at this
  omega

/-- The fields of the end record, each at its offset in the file. -/
theorem read_signature : readU32 (a.bytes.drop a.endOffset) = 0x06054b50 :=
  readU32_drop (a := a.leading ++ a.central)
    (by simp only [ArchiveParts.bytes, ArchiveParts.endRecord, List.append_assoc]; rfl)
    List.length_append

theorem read_count :
    readU16 (a.bytes.drop (a.endOffset + 10)) = .ofNat a.entries.length :=
  readU16_drop (a := a.leading ++ a.central ++ le32 0x06054b50 ++ a.disks)
    (by simp only [ArchiveParts.bytes, ArchiveParts.endRecord, List.append_assoc]; rfl)
    (by simp [ArchiveParts.endOffset, a.length_disks, Nat.add_assoc])

theorem read_central_offset :
    readU32 (a.bytes.drop (a.endOffset + 16)) = .ofNat a.leading.length :=
  readU32_drop (a := a.leading ++ a.central ++ le32 0x06054b50 ++ a.disks ++
      le16 (.ofNat a.entries.length) ++ le32 (.ofNat a.central.length))
    (by simp only [ArchiveParts.bytes, ArchiveParts.endRecord, List.append_assoc]; rfl)
    (by simp [ArchiveParts.endOffset, a.length_disks, Nat.add_assoc])

theorem no_later_signature {i : Nat} (hi : a.endOffset < i) (hend : i + 22 ≤ a.bytes.length) :
    readU32 (a.bytes.drop i) ≠ 0x06054b50 := by
  intro h
  have hlength : 4 ≤ (a.bytes.drop i).length := by
    rw [List.length_drop]
    omega
  refine a.last_signature i hi hend ?_
  rw [← le32_readU32 hlength, h]
  rfl

theorem readEnd_bytes (path : CString) :
    readEnd .reliable path (some a.bytes) =
      .ok (.ofNat a.entries.length, .ofNat a.leading.length) := by
  have hlength := a.length_bytes
  have hcomment := a.comment_lt
  have hsize : fileSize .reliable a.bytes = some a.bytes.length := if_pos ⟨rfl, a.bytes_lt⟩
  -- the end record and the longest comment just fit the tail
  obtain ⟨tailSize, htailSize⟩ : ∃ n, n = min a.bytes.length eocdSearch := ⟨_, rfl⟩
  obtain ⟨start, hstart⟩ : ∃ n, n = a.bytes.length - tailSize := ⟨_, rfl⟩
  have hsearch : eocdSearch = 65557 := rfl
  have hle : start ≤ a.endOffset := by omega
  have htail : fread a.bytes start tailSize = some (a.bytes.drop start) := by
    rw [fread, if_pos (by omega), List.take_of_length_le (by rw [List.length_drop]; omega)]
  have hdrop : ∀ i, (a.bytes.drop start).drop i = a.bytes.drop (start + i) :=
    fun i => List.drop_drop
  have heocd : searchEocd (a.bytes.drop start) (tailSize - 21) = some (a.endOffset - start) := by
    refine searchEocd_eq (by omega) ?_ fun i hi hlt => ?_
    · rw [hdrop, Nat.add_sub_cancel' hle, read_signature]
    · rw [hdrop]
      exact a.no_later_signature (by omega) (by omega)
  rw [readEnd]
  simp only [require_some, ok_bind, hsize, check_of (show 22 ≤ a.bytes.length by omega),
    ← htailSize, ← hstart]
  rw [htail]
  simp only [OpenHost.reliable, Bool.and_self, attempt_true, require_some, ok_bind, heocd, hdrop,
    ← Nat.add_assoc, Nat.add_sub_cancel' hle, a.read_count, a.read_central_offset]
  rfl

end Archive

/-- Opening an archive indexes its central directory: every entry, in order, with its name
and size, and as a directory exactly if the name ends in a slash. -/
theorem nfsmwObbOpen_archive (a : Archive) (fopen : CString → Option (List UInt8))
    (path : CString) (s : ObbIndex) (hpath : path ≠ []) (hfile : fopen path = some a.bytes) :
    nfsmwObbOpen .reliable fopen (some path) s =
      (.ok (), { entries := a.entries.map CentralEntry.indexed
                 archivePath := path.take (nameLimit - 1)
                 listResult := []
                 listCapacity := 0 }) := by
  have hcount : (UInt16.ofNat a.entries.length).toNat = a.entries.length :=
    UInt16.toNat_ofNat_of_lt (a.entries_lt.trans (by decide))
  have hoffset : (UInt32.ofNat a.leading.length).toNat = a.leading.length :=
    UInt32.toNat_ofNat_of_lt (a.length_leading.trans (by decide))
  have hsupported : UInt16.ofNat a.entries.length ≠ 0xffff ∧
      UInt32.ofNat a.leading.length ≠ 0xffffffff := by
    have hentries := a.entries_lt
    have hleading := a.length_leading
    constructor <;> intro h
    · rw [h] at hcount
      exact absurd hcount (by simp; omega)
    · rw [h] at hoffset
      exact absurd hoffset (by simp; omega)
  have hread := readEntries_encode a.entries a.leading (a.endRecord ++ a.comment) 0
  have hbytes : a.leading ++ (a.entries.flatMap CentralEntry.encode ++
      (a.endRecord ++ a.comment)) = a.bytes := by
    simp only [ArchiveParts.bytes, ArchiveParts.central, List.append_assoc]
  rw [hbytes] at hread
  have hdirectory : readDirectory .reliable path (some a.bytes) =
      .ok (a.entries.map CentralEntry.indexed) := by
    have halloc : OpenHost.reliable.entriesAlloc ∧ OpenHost.reliable.centralSeek ∧
        a.leading.length < 2 ^ 31 := ⟨rfl, rfl, a.length_leading⟩
    rw [readDirectory, a.readEnd_bytes path, ok_bind]
    simp only [check_of hsupported, ok_bind, hcount, hoffset, check_of halloc]
    exact hread
  cases path with
  | nil => exact absurd rfl hpath
  | cons b path => simp [nfsmwObbOpen, hfile, hdirectory, nfsmwObbClose]

/-- A directory and a file in it, after four bytes of something else. -/
def sampleParts : ArchiveParts where
  leading := [1, 2, 3, 4]
  entries := [
    { name := cstr "a/", size := 0, extra := [], comment := []
      fixed := List.replicate 20 0, location := List.replicate 12 0
      name_ne := by decide, name_lt := by decide, name_nul := by decide
      extra_lt := by decide, comment_lt := by decide
      length_fixed := rfl, length_location := rfl },
    { name := cstr "a/b", size := 300, extra := [7], comment := [8]
      fixed := List.replicate 20 1, location := List.replicate 12 1
      name_ne := by decide, name_lt := by decide, name_nul := by decide
      extra_lt := by decide, comment_lt := by decide
      length_fixed := rfl, length_location := rfl }]
  disks := List.replicate 6 0
  comment := [9]

def sampleArchive : Archive where
  toArchiveParts := sampleParts
  entries_lt := by decide
  comment_lt := by decide
  length_disks := rfl
  bytes_lt := by decide +kernel
  last_signature := by
    intro i hi hend
    have hoffset : sampleParts.endOffset = 103 := rfl
    have hlength : sampleParts.bytes.length = 126 := rfl
    obtain rfl : i = 104 := by omega
    decide +kernel

theorem nfsmwObbOpen_sampleArchive :
    nfsmwObbOpen .reliable (fun _ => some sampleArchive.bytes) (some (cstr "main.obb"))
        (nfsmwObbClose ⟨[], [], [], 0⟩) =
      (.ok (), { entries := [⟨cstr "a/", 0, true⟩, ⟨cstr "a/b", 300, false⟩]
                 archivePath := cstr "main.obb"
                 listResult := []
                 listCapacity := 0 }) :=
  nfsmwObbOpen_archive sampleArchive _ _ _ (by decide) rfl

end NfsmwRuntime.Obb
