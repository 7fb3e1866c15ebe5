import Mathlib.Algebra.Order.Ring.Nat
import Mathlib.Data.List.DropRight
import NfsmwRuntime.Library.Bytes
import NfsmwRuntime.Library.Result

/-!
# The OBB index

`obb_index.c` keeps the names and sizes of an archive's central directory in memory. It
finds the end-of-central-directory record by a backwards search over the last 65557 bytes
of the file and then reads one 46-byte header after the other.

Every library call that can fail has an entry in `OpenHost`; what a stream delivers is
decided by the file's content and the position. A NULL string is `none`.
-/

namespace NfsmwRuntime.Obb

open Library

def eocdSearch : Nat := 65557

def nameLimit : Nat := 4096

def slash : UInt8 := 47

/-- `name` is the allocated buffer without the NUL that `nfsmw_obb_open` puts at its end. -/
structure ObbEntry where
  name : List UInt8
  size : UInt32
  directory : Bool
  deriving DecidableEq

/-- The static variables: the first `entry_count` entries, and the slots of
`list_result` with the capacity recorded for them. -/
structure ObbIndex where
  entries : List ObbEntry
  archivePath : CString
  listResult : List CString
  listCapacity : Nat

inductive ObbError where
  | emptyPath
  | cannotOpen (path : CString)
  | cannotReadDirectory
  | noDirectory
  | zip64
  | cannotAllocate
  | invalidEntry (index : Nat)
  | invalidName (index : Nat)
  | cannotReadName
  | invalidMetadata
  deriving DecidableEq

def ObbError.message : ObbError → CString
  | emptyPath => cstr "OBB path is empty"
  | cannotOpen path => cstr "cannot open OBB " ++ path.take 200
  | cannotReadDirectory => cstr "cannot read OBB directory"
  | noDirectory => cstr "OBB has no ZIP directory"
  | zip64 => cstr "ZIP64 OBB is not supported"
  | cannotAllocate => cstr "cannot allocate OBB index"
  | invalidEntry index => cstr s!"invalid OBB entry {index}"
  | invalidName index => cstr s!"invalid OBB name at {index}"
  | cannotReadName => cstr "cannot read OBB name"
  | invalidMetadata => cstr "invalid OBB metadata"

def normalize (path : Option CString) : CString := (path.getD []).dropWhile (· = slash)

/-- A path without the slashes in front of it and behind it. -/
def trimmed (path : Option CString) : CString := (normalize path).rdropWhile (· = slash)

/-- Everything is freed; the names' memory is not reachable any more. -/
def nfsmwObbClose (_ : ObbIndex) : ObbIndex := ⟨[], [], [], 0⟩

def nfsmwObbPath (s : ObbIndex) : CString := s.archivePath

/-! ## Opening an archive -/

/-- Which of the library calls of an open succeed. -/
structure OpenHost where
  seekEnd : Bool
  tailAlloc : Bool
  tailSeek : Bool
  tailRead : Bool
  entriesAlloc : Bool
  centralSeek : Bool
  headerRead : Nat → Bool
  nameAlloc : Nat → Bool
  nameRead : Nat → Bool
  skip : Nat → Bool

/-- Every call succeeds that the file's content lets succeed. -/
def OpenHost.reliable : OpenHost where
  seekEnd := true
  tailAlloc := true
  tailSeek := true
  tailRead := true
  entriesAlloc := true
  centralSeek := true
  headerRead _ := true
  nameAlloc _ := true
  nameRead _ := true
  skip _ := true

/-- `ftell` at the end of the file: a `long` has 32 bits. -/
def fileSize (host : OpenHost) (content : List UInt8) : Option Nat :=
  if host.seekEnd ∧ content.length < 2 ^ 31 then some content.length else none

/-- The last signature at an offset below `bound`. -/
def searchEocd (tail : List UInt8) : (bound : Nat) → Option Nat
  | 0 => none
  | eocd + 1 =>
    if readU32 (tail.drop eocd) = 0x06054b50 then some eocd else searchEocd tail eocd

def readHeader (host : OpenHost) (content : List UInt8) (index position : Nat) :
    Except ObbError (List UInt8) := do
  let header ← require (attempt (host.headerRead index) (fread content position 46))
    (.invalidEntry index)
  check (readU32 header = 0x02014b50) (.invalidEntry index)
  return header

/-- One turn of the entry loop: the entry read, and the position of the next one. -/
def readEntry (host : OpenHost) (content : List UInt8) (index position : Nat) :
    Except ObbError (ObbEntry × Nat) := do
  let header ← readHeader host content index position
  let nameLength := (readU16 (header.drop 28)).toNat
  let extraLength := (readU16 (header.drop 30)).toNat
  let commentLength := (readU16 (header.drop 32)).toNat
  check (nameLength ≠ 0 ∧ nameLength < nameLimit) (.invalidName index)
  let name ← require
    (attempt (host.nameAlloc index && host.nameRead index)
      (fread content (position + 46) nameLength)) .cannotReadName
  check (host.skip index) .invalidMetadata
  return (⟨name, readU32 (header.drop 24), name.getD (nameLength - 1) 0 = slash⟩,
    position + 46 + nameLength + extraLength + commentLength)

def readEntries (host : OpenHost) (content : List UInt8) :
    (count index position : Nat) → Except ObbError (List ObbEntry)
  | 0, _, _ => return []
  | count + 1, index, position => do
    let (entry, next) ← readEntry host content index position
    let rest ← readEntries host content count (index + 1) next
    return entry :: rest

/-- The end record: the number of entries and where the central directory starts. -/
def readEnd (host : OpenHost) (path : CString) (file : Option (List UInt8)) :
    Except ObbError (UInt16 × UInt32) := do
  let content ← require file (.cannotOpen path)
  let size ← require (fileSize host content) (.cannotOpen path)
  check (22 ≤ size) (.cannotOpen path)
  let tailSize := min size eocdSearch
  let tail ← require
    (attempt (host.tailAlloc && host.tailSeek && host.tailRead)
      (fread content (size - tailSize) tailSize)) .cannotReadDirectory
  let eocd ← require (searchEocd tail (tailSize - 21)) .noDirectory
  return (readU16 (tail.drop (eocd + 10)), readU32 (tail.drop (eocd + 16)))

/-- The body of `nfsmw_obb_open` between `fopen` and `fclose`. A `(long)central_offset` is
negative from 2^31 on, and `fseek` refuses it. -/
def readDirectory (host : OpenHost) (path : CString) (file : Option (List UInt8)) :
    Except ObbError (List ObbEntry) := do
  let (count, centralOffset) ← readEnd host path file
  check (count ≠ 0xffff ∧ centralOffset ≠ 0xffffffff) .zip64
  check (host.entriesAlloc ∧ host.centralSeek ∧ centralOffset.toNat < 2 ^ 31) .cannotAllocate
  readEntries host (file.getD []) count.toNat 0 centralOffset.toNat

/-- A return value of 0 is `ok`. -/
def nfsmwObbOpen (host : OpenHost) (fopen : CString → Option (List UInt8))
    (path : Option CString) (s : ObbIndex) : Except ObbError Unit × ObbIndex :=
  let s := nfsmwObbClose s
  match path with
  | none | some [] => (.error .emptyPath, s)
  | some path =>
    match readDirectory host path (fopen path) with
    | .ok entries => (.ok (), { s with entries, archivePath := path.take (nameLimit - 1) })
    | .error e => (.error e, nfsmwObbClose s)

theorem readEntries_succ {host : OpenHost} {content : List UInt8} {count index position : Nat}
    {entries : List ObbEntry}
    (h : readEntries host content (count + 1) index position = .ok entries) :
    ∃ entry next rest, readEntry host content index position = .ok (entry, next) ∧
      readEntries host content count (index + 1) next = .ok rest ∧ entries = entry :: rest := by
  rw [readEntries] at h
  obtain ⟨⟨entry, next⟩, hentry, h⟩ := bind_eq_ok.mp h
  obtain ⟨rest, hrest, h⟩ := bind_eq_ok.mp h
  exact ⟨entry, next, rest, hentry, hrest, (Except.ok.inj h).symm⟩

/-- What a successful open has read. -/
theorem nfsmwObbOpen_eq_ok {host : OpenHost} {fopen : CString → Option (List UInt8)}
    {path : Option CString} {s s' : ObbIndex}
    (h : nfsmwObbOpen host fopen path s = (.ok (), s')) :
    ∃ p count offset, path = some p ∧ readEnd host p (fopen p) = .ok (count, offset) ∧
      readEntries host ((fopen p).getD []) count.toNat 0 offset.toNat = .ok s'.entries := by
  match path with
  | none | some [] => cases h
  | some (b :: p) =>
    simp only [nfsmwObbOpen] at h
    cases hdirectory : readDirectory host (b :: p) (fopen (b :: p)) with
    | error e =>
      rw [hdirectory] at h
      cases h
    | ok entries =>
      rw [hdirectory] at h
      obtain ⟨-, rfl⟩ := Prod.mk.inj h
      rw [readDirectory] at hdirectory
      obtain ⟨⟨count, offset⟩, hend, hdirectory⟩ := bind_eq_ok.mp hdirectory
      obtain ⟨-, -, hdirectory⟩ := bind_eq_ok.mp hdirectory
      obtain ⟨-, -, hentries⟩ := bind_eq_ok.mp hdirectory
      exact ⟨b :: p, count, offset, rfl, hend, hentries⟩

/-! ## Listing a directory -/

/-- What a string has before its first slash. -/
def component (s : CString) : CString := s.takeWhile (· ≠ slash)

/-- The prefix that the names below a directory share. -/
def listPrefix (directory : Option CString) : CString :=
  let wanted := (normalize directory).rdropWhile (· = slash)
  if wanted = [] then [] else wanted ++ [slash]

/-- The remainder of an entry's name that a listing considers. -/
def listCandidate (pre : CString) (e : ObbEntry) : Option CString :=
  let remainder := (cstring e.name).drop pre.length
  if pre <+: cstring e.name ∧ component remainder ≠ [] then some remainder else none

/-- One turn of the listing loop over the slots written so far. -/
def listStep (pre : CString) (listed : List CString × Nat) (e : ObbEntry) : List CString × Nat :=
  match listCandidate pre e with
  | none => listed
  | some remainder =>
    if (listed.1.take listed.2).any (component · = component remainder) then listed
    else (listed.1.set listed.2 remainder, listed.2 + 1)

/-- The children returned (`none` for NULL) and their number. New slots of a successful
`realloc` hold no string yet. -/
def nfsmwObbList (reallocOk : Bool) (directory : Option CString) (s : ObbIndex) :
    ObbIndex × Option (List CString) × Nat :=
  let count := s.entries.length
  if s.listCapacity < count ∧ !reallocOk then (s, none, 0)
  else
    let s := if s.listCapacity < count then
        { s with
          listResult := s.listResult ++ List.replicate (count - s.listResult.length) []
          listCapacity := count }
      else s
    let listed := s.entries.foldl (listStep (listPrefix directory)) (s.listResult, 0)
    ({ s with listResult := listed.1 }, some listed.1, listed.2)

/-! ## Asset sizes -/

def assetPrefixes : List CString := [[], cstr "published/", cstr "published.1x/"]

/-- The path looked for below a prefix, if it is looked for: the prefix in front of it and
no slash behind it. -/
def assetWanted (wanted pre : CString) : Option CString :=
  if pre ≠ [] ∧ pre <+: wanted then none
  else if nameLimit ≤ pre.length + wanted.length then none
  else some (pre ++ wanted.rdropWhile (· = slash))

/-- An entry's name is compared without one slash at its end. -/
def assetMatches (wanted name : CString) : Bool :=
  let comparable := if name.getLast? = some slash then name.length - 1 else name.length
  comparable = wanted.length ∧ name.take wanted.length = wanted

def ObbEntry.assetSize (entry : ObbEntry) : Int := if entry.directory then -1 else entry.size.toNat

def nfsmwObbAssetSize (path : Option CString) (s : ObbIndex) : Int :=
  let found := assetPrefixes.findSome? fun pre =>
    (assetWanted (normalize path) pre).bind fun wanted =>
      s.entries.findSome? fun entry =>
        if assetMatches wanted (cstring entry.name) then some entry.assetSize else none
  found.getD (-2)

end NfsmwRuntime.Obb
