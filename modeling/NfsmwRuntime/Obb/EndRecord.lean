import NfsmwRuntime.Obb.Archive

/-!
# The end record that is used

The search takes the last signature in the file and asks nothing more of it. That is the
end of the archive exactly if the file has a genuine end record and nothing behind its
start spells the signature again: a comment may, and so may any file that is no archive.
-/

namespace NfsmwRuntime.Obb

open Library

/-- The offset at which the search stops, from the start of the file. -/
def selectedEocd (content : List UInt8) : Option Nat :=
  let start := content.length - min content.length eocdSearch
  (searchEocd (content.drop start) (min content.length eocdSearch - 21)).map (start + ·)

section

variable (content : List UInt8)

/-- The fields of an end record at `r`. -/
def endCount (r : Nat) : Nat := (readU16 (content.drop (r + 10))).toNat

def endSize (r : Nat) : Nat := (readU32 (content.drop (r + 12))).toNat

def endCentralOffset (r : Nat) : Nat := (readU32 (content.drop (r + 16))).toNat

def endCommentLength (r : Nat) : Nat := (readU16 (content.drop (r + 20))).toNat

/-- The lengths in the header at `position` say where the next one is. -/
def nextHeader (position : Nat) : Nat :=
  position + 46 + (readU16 (content.drop (position + 28))).toNat +
    (readU16 (content.drop (position + 30))).toNat + (readU16 (content.drop (position + 32))).toNat

/-- Where `count` entries from `position` on end. -/
def entriesEnd (count position : Nat) : Nat := (nextHeader content)^[count] position

/-- The end record of an archive: its comment ends the file, and the central directory is
in front of it, whether its end is taken from its size or from its entries. -/
structure GenuineEocd (r : Nat) : Prop where
  signature : readU32 (content.drop r) = 0x06054b50
  comment : r + 22 + endCommentLength content r = content.length
  central : endCentralOffset content r + endSize content r ≤ r
  entries : entriesEnd content (endCount content r) (endCentralOffset content r) ≤ r

/-- Nothing behind `r` where an end record fits has the signature. -/
def NoLaterSignature (r : Nat) : Prop :=
  ∀ i, r < i → i + 22 ≤ content.length → readU32 (content.drop i) ≠ 0x06054b50

end

/-! ## The search -/

theorem searchEocd_spec {tail : List UInt8} {bound eocd : Nat}
    (h : searchEocd tail bound = some eocd) :
    eocd < bound ∧ readU32 (tail.drop eocd) = 0x06054b50 ∧
      ∀ i, eocd < i → i < bound → readU32 (tail.drop i) ≠ 0x06054b50 := by
  induction bound with
  | zero => exact nomatch h
  | succ bound ih =>
    rw [searchEocd] at h
    split_ifs at h with hsignature
    · obtain rfl := Option.some.inj h
      exact ⟨Nat.lt_succ_self _, hsignature, fun i hi hlt => by omega⟩
    · obtain ⟨hlt, hfound, hlast⟩ := ih h
      refine ⟨by omega, hfound, fun i hi hbound => ?_⟩
      rcases Nat.lt_succ_iff_lt_or_eq.mp hbound with hbelow | rfl
      · exact hlast i hi hbelow
      · exact hsignature

theorem selectedEocd_spec {content : List UInt8} {r : Nat} (h : selectedEocd content = some r) :
    r + 22 ≤ content.length ∧ readU32 (content.drop r) = 0x06054b50 ∧
      NoLaterSignature content r := by
  obtain ⟨eocd, hsearch, rfl⟩ := Option.map_eq_some_iff.mp h
  obtain ⟨hbound, hsignature, hlast⟩ := searchEocd_spec hsearch
  rw [List.drop_drop] at hsignature
  refine ⟨by omega, hsignature, fun i hi hfit => ?_⟩
  have hnone := hlast (i - (content.length - min content.length eocdSearch)) (by omega) (by omega)
  rwa [List.drop_drop, Nat.add_sub_cancel' (by omega)] at hnone

/-- Only the last signature can be the selected one. -/
theorem selectedEocd_unique {content : List UInt8} {r g : Nat}
    (h : selectedEocd content = some r) (hsignature : readU32 (content.drop g) = 0x06054b50)
    (hfit : g + 22 ≤ content.length) (hlast : NoLaterSignature content g) : g = r := by
  obtain ⟨hrfit, hrsignature, hrlast⟩ := selectedEocd_spec h
  rcases Nat.lt_trichotomy g r with hlt | heq | hgt
  · exact (hlast r hlt hrfit hrsignature).elim
  · exact heq
  · exact (hrlast g hgt hfit hsignature).elim

/-! ## What an open reads -/

variable {host : OpenHost} {content : List UInt8}

theorem readEnd_selected {path : CString} {count : UInt16} {offset : UInt32}
    (h : readEnd host path (some content) = .ok (count, offset)) :
    ∃ r, selectedEocd content = some r ∧ count.toNat = endCount content r ∧
      offset.toNat = endCentralOffset content r := by
  rw [readEnd, require_some, ok_bind] at h
  obtain ⟨size, hsize, h⟩ := bind_eq_ok.mp h
  obtain ⟨-, -, h⟩ := bind_eq_ok.mp h
  obtain ⟨tail, htail, h⟩ := bind_eq_ok.mp h
  obtain ⟨eocd, hsearch, hfields⟩ := bind_eq_ok.mp h
  obtain rfl : size = content.length := by
    have := require_eq_ok.mp hsize
    rw [fileSize] at this
    split_ifs at this
    exact (Option.some.inj this).symm
  obtain rfl : tail = content.drop (content.length - min content.length eocdSearch) := by
    have hread := require_eq_ok.mp htail
    rw [attempt] at hread
    split_ifs at hread
    rw [fread, if_pos (by omega), List.take_of_length_le (by rw [List.length_drop]; omega)]
      at hread
    exact (Option.some.inj hread).symm
  have hselected : selectedEocd content =
      some (content.length - min content.length eocdSearch + eocd) :=
    Option.map_eq_some_iff.mpr ⟨eocd, require_eq_ok.mp hsearch, rfl⟩
  obtain ⟨rfl, rfl⟩ := Prod.mk.inj (Except.ok.inj hfields)
  refine ⟨_, hselected, ?_, ?_⟩
  · rw [List.drop_drop, ← Nat.add_assoc, endCount]
  · rw [List.drop_drop, ← Nat.add_assoc, endCentralOffset]

theorem readEntry_next {index position next : Nat} {entry : ObbEntry}
    (h : readEntry host content index position = .ok (entry, next)) :
    next = nextHeader content position := by
  rw [readEntry] at h
  obtain ⟨header, hheader, h⟩ := bind_eq_ok.mp h
  obtain ⟨-, -, h⟩ := bind_eq_ok.mp h
  obtain ⟨name, -, h⟩ := bind_eq_ok.mp h
  obtain ⟨-, -, hresult⟩ := bind_eq_ok.mp h
  obtain rfl : header = (content.drop position).take 46 := by
    rw [readHeader] at hheader
    obtain ⟨read, hread, hheader⟩ := bind_eq_ok.mp hheader
    obtain ⟨-, -, hheader⟩ := bind_eq_ok.mp hheader
    obtain rfl := Except.ok.inj hheader
    have hread := require_eq_ok.mp hread
    rw [attempt, fread] at hread
    split_ifs at hread
    exact (Option.some.inj hread).symm
  obtain ⟨-, rfl⟩ := Prod.mk.inj (Except.ok.inj hresult)
  simp (disch := decide) only [nextHeader, List.drop_take, readU16_take, List.drop_drop]

/-- The entries are read one behind the other, from the record's offset on. -/
theorem readEntries_at {count index position : Nat} {entries : List ObbEntry}
    (h : readEntries host content count index position = .ok entries) {k : Nat} (hk : k < count) :
    ∃ entry, entries[k]? = some entry ∧
      readEntry host content (index + k) (entriesEnd content k position) =
        .ok (entry, entriesEnd content (k + 1) position) := by
  induction count generalizing index position entries k with
  | zero => exact (Nat.not_lt_zero k hk).elim
  | succ count ih =>
    obtain ⟨entry, next, rest, hentry, hrest, rfl⟩ := readEntries_succ h
    obtain rfl := readEntry_next hentry
    cases k with
    | zero => exact ⟨entry, rfl, hentry⟩
    | succ k =>
      obtain ⟨found, hfound, hread⟩ := ih hrest (Nat.succ_lt_succ_iff.mp hk)
      refine ⟨found, hfound, ?_⟩
      rw [← Nat.add_assoc, Nat.add_right_comm]
      exact hread

/-- A successful open takes its entries from the selected record. -/
theorem nfsmwObbOpen_selected {fopen : CString → Option (List UInt8)} {path : CString}
    {s s' : ObbIndex} (hfile : fopen path = some content)
    (hopen : nfsmwObbOpen host fopen (some path) s = (.ok (), s')) :
    ∃ r, selectedEocd content = some r ∧
      readEntries host content (endCount content r) 0 (endCentralOffset content r) =
        .ok s'.entries := by
  obtain ⟨p, count, offset, hpath, hend, hentries⟩ := nfsmwObbOpen_eq_ok hopen
  obtain rfl := Option.some.inj hpath
  rw [hfile] at hend hentries
  obtain ⟨r, hselected, hcount, hoffset⟩ := readEnd_selected hend
  refine ⟨r, hselected, ?_⟩
  rw [← hcount, ← hoffset]
  exact hentries

/-- The record that a successful open takes is genuine exactly if the file has a genuine
one and no signature behind it. -/
theorem eocd_genuine_iff (host : OpenHost) (content : List UInt8)
    (fopen : CString → Option (List UInt8)) (path : CString) (s s' : ObbIndex)
    (hfile : fopen path = some content)
    (hopen : nfsmwObbOpen host fopen (some path) s = (.ok (), s')) :
    ∃ r, selectedEocd content = some r ∧
      readEntries host content (endCount content r) 0 (endCentralOffset content r) =
        .ok s'.entries ∧
      (GenuineEocd content r ↔ ∃ g, GenuineEocd content g ∧ NoLaterSignature content g) := by
  obtain ⟨r, hselected, hentries⟩ := nfsmwObbOpen_selected hfile hopen
  refine ⟨r, hselected, hentries, fun hgenuine => ?_, ?_⟩
  · exact ⟨r, hgenuine, (selectedEocd_spec hselected).2.2⟩
  · rintro ⟨g, hgenuine, hlast⟩
    have hfit : g + 22 ≤ content.length := by
      have := hgenuine.comment
      omega
    exact selectedEocd_unique hselected hgenuine.signature hfit hlast ▸ hgenuine

theorem eocd_genuine_iff_sampleArchive :
    ∃ r, selectedEocd sampleArchive.bytes = some r ∧
      readEntries .reliable sampleArchive.bytes (endCount sampleArchive.bytes r) 0
        (endCentralOffset sampleArchive.bytes r) =
          .ok [⟨cstr "a/", 0, true⟩, ⟨cstr "a/b", 300, false⟩] ∧
      GenuineEocd sampleArchive.bytes r := by
  have hopen := nfsmwObbOpen_archive sampleArchive (fun _ => some sampleArchive.bytes)
    (cstr "main.obb") ⟨[], [], [], 0⟩ (by decide) rfl
  obtain ⟨r, hselected, hentries, hgenuine⟩ :=
    eocd_genuine_iff .reliable sampleArchive.bytes (fun _ => some sampleArchive.bytes)
      (cstr "main.obb") ⟨[], [], [], 0⟩ _ rfl hopen
  refine ⟨r, hselected, hentries, hgenuine.mpr ⟨sampleArchive.endOffset, ?_, ?_⟩⟩
  · exact ⟨sampleArchive.read_signature, by decide +kernel, by decide +kernel, by decide +kernel⟩
  · exact fun i hi hfit => sampleArchive.no_later_signature hi hfit

/-! ## A comment that imitates an end record -/

/-- The sample archive with another comment: an empty end record and one byte more. -/
def imitated : ArchiveParts :=
  { sampleParts with comment := le32 0x06054b50 ++ List.replicate 18 0 ++ [33] }

/-- The archive has a genuine end record, but the one in its comment is used. -/
theorem imitated_not_genuine :
    (nfsmwObbOpen .reliable (fun _ => some imitated.bytes) (some (cstr "main.obb"))
      ⟨[], [], [], 0⟩).1 = .ok () ∧
    GenuineEocd imitated.bytes imitated.endOffset ∧
    ∃ r, selectedEocd imitated.bytes = some r ∧ ¬ GenuineEocd imitated.bytes r := by
  refine ⟨?_, ⟨?_, ?_, ?_, ?_⟩, 125, ?_, fun h => ?_⟩
  · decide +kernel
  · decide +kernel
  · decide +kernel
  · decide +kernel
  · decide +kernel
  · decide +kernel
  · have := h.comment
    revert this
    decide +kernel

end NfsmwRuntime.Obb
