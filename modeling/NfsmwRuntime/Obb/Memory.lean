import Mathlib.Data.List.Induction
import Mathlib.Tactic.SplitIfs
import Mathlib.Tactic.Tauto
import NfsmwRuntime.Obb.Archive
import NfsmwRuntime.Obb.Prefix

/-!
# The memory behind the OBB index

The five static variables of `obb_index.c` as the memory they are: slots that are allocated
empty and filled one by one, names in buffers of their own, and a listing buffer that
outlives the listings. An access outside what is allocated, or to a string without an end,
has no result (`none`).
-/

namespace NfsmwRuntime.Obb

open Library

/-- A `struct obb_entry`; `name` is the buffer it points to. -/
structure EntrySlot where
  name : Option (List UInt8)
  size : UInt32
  directory : Bool

/-- A pointer into the name of an entry. -/
structure NamePointer where
  entry : Nat
  offset : Nat

structure ObbMemory where
  entries : List EntrySlot
  entryCount : Nat
  archivePath : CString
  listResult : List (Option NamePointer)
  listCapacity : Nat

/-- What a C string function reads of a buffer, which must have a NUL. -/
def readString (buffer : List UInt8) : Option CString :=
  if 0 ∈ buffer then some (cstring buffer) else none

namespace ObbMemory

def closed : ObbMemory := ⟨[], 0, [], [], 0⟩

variable (m : ObbMemory)

/-- `entries[index].name` as a string. -/
def nameAt (index : Nat) : Option CString := do
  let slot ← m.entries[index]?
  let buffer ← slot.name
  readString buffer

def deref (pointer : NamePointer) : Option CString := do
  let name ← m.nameAt pointer.entry
  if pointer.offset ≤ name.length then some (name.drop pointer.offset) else none

/-- `nfsmw_obb_close` frees the names of the first `entry_count` entries. -/
def close : Option ObbMemory := if m.entryCount ≤ m.entries.length then some closed else none

/-! ## Opening -/

/-- The entry as the loop puts it into its slot. -/
def storeEntry (index : Nat) (entry : ObbEntry) : Option ObbMemory :=
  if index < m.entries.length then
    some { m with
      entries := m.entries.set index
        { name := some (entry.name ++ [0]), size := entry.size, directory := entry.directory }
      entryCount := index + 1 }
  else none

def fillEntries (host : OpenHost) (content : List UInt8) :
    (count index position : Nat) → ObbMemory → Option (Except ObbError Unit × ObbMemory)
  | 0, _, _, m => some (.ok (), m)
  | count + 1, index, position, m =>
    match readEntry host content index position with
    | .error e => some (.error e, m)
    | .ok (entry, next) => do
      let m ← m.storeEntry index entry
      fillEntries host content count (index + 1) next m

/-- The body of `nfsmw_obb_open` between `fopen` and `done`. -/
def build (host : OpenHost) (path : CString) (file : Option (List UInt8)) :
    Option (Except ObbError Unit × ObbMemory) :=
  match readEnd host path file with
  | .error e => some (.error e, m)
  | .ok (count, centralOffset) =>
    if count = 0xffff ∨ centralOffset = 0xffffffff then some (.error .zip64, m)
    else
      let m :=
        if host.entriesAlloc then
          { m with entries := List.replicate count.toNat ⟨none, 0, false⟩ }
        else m
      if !host.entriesAlloc ∨ !host.centralSeek ∨ 2 ^ 31 ≤ centralOffset.toNat then
        some (.error .cannotAllocate, m)
      else fillEntries host (file.getD []) count.toNat 0 centralOffset.toNat m

/-- `nfsmw_obb_open` -/
def obbOpen (host : OpenHost) (fopen : CString → Option (List UInt8)) (path : Option CString) :
    Option (Except ObbError Unit × ObbMemory) := do
  let m ← m.close
  match path with
  | none | some [] => return (.error .emptyPath, m)
  | some path =>
    let (result, m) ← m.build host path (fopen path)
    match result with
    | .ok () => return (.ok (), { m with archivePath := path.take (nameLimit - 1) })
    | .error e =>
      let m ← m.close
      return (.error e, m)

/-! ## Queries -/

/-- `nfsmw_obb_asset_size` -/
def assetSize (path : Option CString) : Option Int := do
  let found ← assetPrefixes.findSomeM? fun pre =>
    match assetWanted (normalize path) pre with
    | none => some none
    | some wanted =>
      (List.range m.entryCount).findSomeM? fun index => do
        let slot ← m.entries[index]?
        let name ← m.nameAt index
        return if assetMatches wanted name then
          some (if slot.directory then -1 else (slot.size.toNat : Int)) else none
  return found.getD (-2)

/-- One turn of the listing loop: the slots, and how many of them are written. -/
def listStep (pre : CString) (listed : List (Option NamePointer) × Nat) (index : Nat) :
    Option (List (Option NamePointer) × Nat) := do
  let name ← m.nameAt index
  let remainder := name.drop pre.length
  if ¬ pre <+: name ∨ component remainder = [] then return listed
  let known ← (listed.1.take listed.2).anyM fun slot => do
    let existing ← m.deref (← slot)
    return component existing = component remainder
  if known then return listed
  if listed.2 < m.listCapacity ∧ listed.2 < listed.1.length then
    return (listed.1.set listed.2 (some { entry := index, offset := pre.length }), listed.2 + 1)
  none

/-- The listing buffer after a `realloc` that was needed and worked. -/
def grown : ObbMemory :=
  if m.listCapacity < m.entryCount then
    { m with
      listResult := m.listResult.take m.entryCount ++
        List.replicate (m.entryCount - m.listResult.length) none
      listCapacity := m.entryCount }
  else m

/-- `nfsmw_obb_list` from the prefix on, and the strings that the caller finds behind the
children. -/
def listFrom (reallocOk : Bool) (pre : CString) :
    Option (ObbMemory × Option (List CString) × Nat) := do
  if m.listCapacity < m.entryCount ∧ !reallocOk then return (m, none, 0)
  let m := m.grown
  let (slots, count) ← (List.range m.entryCount).foldlM (m.listStep pre) (m.listResult, 0)
  let children ← (slots.take count).mapM fun slot => slot.bind m.deref
  return ({ m with listResult := slots }, some children, count)

/-- `nfsmw_obb_list`, with the array `prefix` on its stack. -/
def list (reallocOk : Bool) (directory : Option CString) :
    Option (ObbMemory × Option (List CString) × Nat) :=
  (comparedPrefix (List.replicate nameLimit 0) directory).bind (m.listFrom reallocOk)

end ObbMemory

/-! ## Runs -/

inductive ObbCall where
  | obbOpen (host : OpenHost) (fopen : CString → Option (List UInt8)) (path : Option CString)
  | close
  | assetSize (path : Option CString)
  | list (reallocOk : Bool) (directory : Option CString)

/-- Listed directories are shorter than 4095 bytes. -/
def ObbCall.Short : ObbCall → Prop
  | .list _ directory => (directory.getD []).length < 4095
  | _ => True

inductive ObbAnswer where
  | opened (result : Except ObbError Unit)
  | closed
  | size (bytes : Int)
  | listed (children : Option (List CString)) (count : Nat)

def ObbMemory.perform (m : ObbMemory) : ObbCall → Option (ObbMemory × ObbAnswer)
  | .obbOpen host fopen path => do
    let (result, m) ← m.obbOpen host fopen path
    return (m, .opened result)
  | .close => do return (← m.close, .closed)
  | .assetSize path => do return (m, .size (← m.assetSize path))
  | .list reallocOk directory => do
    let (m, children, count) ← m.list reallocOk directory
    return (m, .listed children count)

def ObbMemory.run (m : ObbMemory) (calls : List ObbCall) : Option ObbMemory :=
  calls.foldlM (fun m call => do return (← m.perform call).1) m

/-- The same calls on the index. -/
def ObbIndex.perform (s : ObbIndex) : ObbCall → ObbIndex × ObbAnswer
  | .obbOpen host fopen path =>
    let (result, s) := nfsmwObbOpen host fopen path s
    (s, .opened result)
  | .close => (nfsmwObbClose s, .closed)
  | .assetSize path => (s, .size (nfsmwObbAssetSize path s))
  | .list reallocOk directory =>
    let (s, children, count) := nfsmwObbList reallocOk directory s
    (s, .listed (children.map (·.take count)) count)

/-! ## The memory is a well-formed index -/

/-- The filled slots have names that end in a NUL, and the listing buffer has as many slots
as are recorded for it. -/
structure ObbMemory.WellFormed (m : ObbMemory) : Prop where
  count_le : m.entryCount ≤ m.entries.length
  named : ∀ i < m.entryCount, ∃ slot, m.entries[i]? = some slot ∧
    ∃ name, slot.name = some (name ++ [0])
  length_listResult : m.listResult.length = m.listCapacity

def EntrySlot.entry (slot : EntrySlot) : ObbEntry :=
  ⟨(slot.name.getD []).dropLast, slot.size, slot.directory⟩

/-- The index that the memory holds. -/
def ObbMemory.index (m : ObbMemory) : ObbIndex where
  entries := (m.entries.take m.entryCount).map EntrySlot.entry
  archivePath := m.archivePath
  listResult := m.listResult.map fun slot => (slot.bind m.deref).getD []
  listCapacity := m.listCapacity

variable {m : ObbMemory}

theorem cstring_concat_nul (name : List UInt8) : cstring (name ++ [0]) = cstring name := by
  simp only [cstring, List.takeWhile_append]
  split_ifs with h
  · rw [(List.takeWhile_prefix _).eq_of_length h]
    exact List.append_nil _
  · rfl

namespace ObbMemory.WellFormed

theorem closed : ObbMemory.closed.WellFormed := ⟨Nat.le_refl _, (fun _ h => nomatch h), rfl⟩

theorem close_eq (h : m.WellFormed) : m.close = some .closed := if_pos h.count_le

/-- A filled slot is an entry of the index, and its name can be read. -/
theorem slot (h : m.WellFormed) {i : Nat} (hi : i < m.entryCount) : ∃ slot,
    m.entries[i]? = some slot ∧ m.index.entries[i]? = some slot.entry ∧
      m.nameAt i = some (cstring slot.entry.name) := by
  obtain ⟨slot, hslot, name, hname⟩ := h.named i hi
  refine ⟨slot, hslot, ?_, ?_⟩
  · rw [ObbMemory.index, List.getElem?_map, List.getElem?_take_of_lt hi, hslot]
    rfl
  · rw [ObbMemory.nameAt, hslot]
    simp [hname, EntrySlot.entry, readString, cstring_concat_nul]

end ObbMemory.WellFormed

theorem ObbMemory.closed_index : ObbMemory.closed.index = ⟨[], [], [], 0⟩ := rfl

/-! ## Opening keeps it well-formed -/

/-- Storing an entry behind the filled slots appends it to the index. -/
theorem ObbMemory.WellFormed.storeEntry (h : m.WellFormed) (entry : ObbEntry)
    (hroom : m.entryCount < m.entries.length) : ∃ m',
    m.storeEntry m.entryCount entry = some m' ∧ m'.WellFormed ∧
      m'.index.entries = m.index.entries ++ [entry] ∧ m'.entryCount = m.entryCount + 1 ∧
      m'.entries.length = m.entries.length ∧ m'.archivePath = m.archivePath ∧
      m'.listResult = m.listResult ∧ m'.listCapacity = m.listCapacity := by
  refine ⟨_, if_pos hroom, ⟨?_, fun i hi => ?_, h.length_listResult⟩, ?_, rfl, ?_, rfl, rfl, rfl⟩
  · rw [List.length_set]
    exact hroom
  · by_cases hlast : i = m.entryCount
    · subst hlast
      exact ⟨_, List.getElem?_set_self hroom, entry.name, rfl⟩
    · obtain ⟨slot, hslot, hname⟩ := h.named i (by simp at hi; omega)
      exact ⟨slot, by simpa [List.getElem?_set, Ne.symm hlast] using hslot, hname⟩
  · simp only [ObbMemory.index]
    rw [List.take_succ_eq_append_getElem (by simpa using hroom)]
    simp [EntrySlot.entry, List.take_set_of_le]
  · simp

/-- The loop fills the slots with the entries that the directory has, or stops at the same
failure. -/
theorem ObbMemory.WellFormed.fillEntries (h : m.WellFormed) (host : OpenHost)
    (content : List UInt8) (count position : Nat)
    (hroom : m.entryCount + count = m.entries.length) : ∃ m',
    ObbMemory.fillEntries host content count m.entryCount position m =
        some ((readEntries host content count m.entryCount position).map fun _ => (), m') ∧
      m'.WellFormed ∧ (∀ entries,
        readEntries host content count m.entryCount position = .ok entries →
          m'.index.entries = m.index.entries ++ entries) ∧
      m'.archivePath = m.archivePath ∧ m'.listResult = m.listResult ∧
      m'.listCapacity = m.listCapacity := by
  induction count generalizing m position with
  | zero => exact ⟨m, rfl, h, by simp [readEntries, pure, Except.pure], rfl, rfl, rfl⟩
  | succ count ih =>
    rw [ObbMemory.fillEntries, readEntries]
    cases hread : readEntry host content m.entryCount position with
    | error e => exact ⟨m, rfl, h, by rintro _ ⟨⟩, rfl, rfl, rfl⟩
    | ok result =>
      obtain ⟨entry, next⟩ := result
      obtain ⟨m₁, hstore, hm₁, hindex, hcount, hlength, hpath, hlist, hcapacity⟩ :=
        h.storeEntry entry (by omega)
      obtain ⟨m₂, hfill, hm₂, hentries, hrest⟩ := ih hm₁ next (by omega)
      rw [hcount] at hfill hentries
      simp only [ok_bind, hstore, Option.bind_eq_bind, Option.bind_some, hfill]
      refine ⟨m₂, ?_, hm₂, ?_, ?_⟩
      · cases readEntries host content count (m.entryCount + 1) next <;> rfl
      · intro entries hok
        obtain ⟨rest, hread, hcons⟩ := bind_eq_ok.mp hok
        obtain rfl := Except.ok.inj hcons
        rw [hentries rest hread, hindex, List.append_assoc]
        rfl
      · rwa [hpath, hlist, hcapacity] at hrest

/-- Building from the closed state. -/
theorem ObbMemory.closed_build {host : OpenHost} {path : CString}
    {file : Option (List UInt8)} : ∃ m',
    ObbMemory.closed.build host path file =
        some ((readDirectory host path file).map fun _ => (), m') ∧ m'.WellFormed ∧
      (∀ entries, readDirectory host path file = .ok entries →
        m'.index = ⟨entries, [], [], 0⟩) := by
  rw [ObbMemory.build, readDirectory]
  cases hend : readEnd host path file with
  | error e => exact ⟨_, rfl, .closed, by rintro _ ⟨⟩⟩
  | ok record =>
    obtain ⟨count, centralOffset⟩ := record
    simp only [ok_bind]
    by_cases hzip : count = 0xffff ∨ centralOffset = 0xffffffff
    · have hcheck : ¬ (count ≠ 0xffff ∧ centralOffset ≠ 0xffffffff) := by tauto
      simp only [if_pos hzip, check, if_neg hcheck]
      exact ⟨_, rfl, .closed, by rintro _ ⟨⟩⟩
    · have hcheck : count ≠ 0xffff ∧ centralOffset ≠ 0xffffffff := by tauto
      simp only [if_neg hzip, check_of hcheck, ok_bind]
      by_cases hhost : host.entriesAlloc ∧ host.centralSeek ∧ centralOffset.toNat < 2 ^ 31
      · let allocated : ObbMemory :=
          { ObbMemory.closed with entries := List.replicate count.toNat ⟨none, 0, false⟩ }
        have hallocated : allocated.WellFormed := ⟨Nat.zero_le _, by rintro _ ⟨⟩, rfl⟩
        obtain ⟨m', hfill, hm', hentries, hpath, hlist, hcapacity⟩ :=
          hallocated.fillEntries host (file.getD []) count.toNat centralOffset.toNat
            (by simp [allocated, ObbMemory.closed])
        have hok : ¬ (!host.entriesAlloc ∨ !host.centralSeek ∨ 2 ^ 31 ≤ centralOffset.toNat) := by
          simpa [hhost.1, hhost.2.1] using hhost.2.2
        simp only [check_of hhost, ok_bind, if_pos hhost.1, if_neg hok]
        refine ⟨m', hfill, hm', fun entries hread => ?_⟩
        have hindex : m'.index = ⟨m'.index.entries, m'.archivePath,
          m'.listResult.map fun slot => (slot.bind m'.deref).getD [], m'.listCapacity⟩ := rfl
        rw [hindex, hentries entries hread, hpath, hlist, hcapacity]
        rfl
      · have hfail : !host.entriesAlloc ∨ !host.centralSeek ∨ 2 ^ 31 ≤ centralOffset.toNat := by
          grind
        simp only [check, if_neg hhost, if_pos hfail]
        refine ⟨_, rfl, ?_, by rintro _ ⟨⟩⟩
        split_ifs
        · exact ⟨Nat.zero_le _, by rintro _ ⟨⟩, rfl⟩
        · exact .closed

/-- Opening does what it does to the index, and a failure leaves the closed state. -/
theorem ObbMemory.WellFormed.obbOpen (h : m.WellFormed) (host : OpenHost)
    (fopen : CString → Option (List UInt8)) (path : Option CString) : ∃ m',
    m.obbOpen host fopen path = some ((nfsmwObbOpen host fopen path m.index).1, m') ∧
      m'.WellFormed ∧ m'.index = (nfsmwObbOpen host fopen path m.index).2 ∧
      (∀ e, (nfsmwObbOpen host fopen path m.index).1 = .error e → m' = .closed) := by
  unfold ObbMemory.obbOpen nfsmwObbOpen
  rw [h.close_eq]
  match path with
  | none => exact ⟨_, rfl, .closed, rfl, fun _ _ => rfl⟩
  | some [] => exact ⟨_, rfl, .closed, rfl, fun _ _ => rfl⟩
  | some (b :: path) =>
    obtain ⟨m', hbuild, hm', hindex⟩ :=
      @ObbMemory.closed_build host (b :: path) (fopen (b :: path))
    simp only [Option.bind_eq_bind, Option.bind_some, hbuild]
    cases hread : readDirectory host (b :: path) (fopen (b :: path)) with
    | error e =>
      simp only [Except.map, hm'.close_eq, Option.bind_some]
      exact ⟨_, rfl, .closed, rfl, fun _ _ => rfl⟩
    | ok entries =>
      refine ⟨_, rfl, ⟨hm'.count_le, hm'.named, hm'.length_listResult⟩, ?_, fun _ h => nomatch h⟩
      have hupdate : ObbMemory.index { m' with archivePath := (b :: path).take (nameLimit - 1) } =
          { m'.index with archivePath := (b :: path).take (nameLimit - 1) } := rfl
      exact hupdate.trans (by rw [hindex entries hread]; rfl)

/-! ## Queries read the index -/

theorem ObbMemory.WellFormed.length_index (h : m.WellFormed) :
    m.index.entries.length = m.entryCount := by
  simpa [ObbMemory.index] using h.count_le

theorem range_map_getD {α : Type} (l : List α) (d : α) :
    ((List.range l.length).map fun i => l.getD i d) = l :=
  List.ext_getElem (by simp) fun i hi hi' => by simp [List.getElem?_eq_getElem hi']

theorem ObbMemory.WellFormed.getD_slot (h : m.WellFormed) {i : Nat} (hi : i < m.entryCount)
    (d : ObbEntry) : ∃ slot, m.entries[i]? = some slot ∧ m.index.entries.getD i d = slot.entry ∧
      m.nameAt i = some (cstring slot.entry.name) := by
  obtain ⟨slot, hslot, hentry, hname⟩ := h.slot hi
  exact ⟨slot, hslot, by simp [hentry], hname⟩

theorem ObbMemory.WellFormed.assetSize (h : m.WellFormed) (path : Option CString) :
    m.assetSize path = some (nfsmwObbAssetSize path m.index) := by
  have hloop : ∀ wanted, ((List.range m.entryCount).findSomeM? fun index => do
        let slot ← m.entries[index]?
        let name ← m.nameAt index
        return if assetMatches wanted name then
          some (if slot.directory then -1 else (slot.size.toNat : Int)) else none) =
      some (m.index.entries.findSome? fun entry =>
        if assetMatches wanted (cstring entry.name) then some entry.assetSize else none) := by
    intro wanted
    rw [← range_map_getD m.index.entries ⟨[], 0, false⟩, List.findSome?_map, h.length_index]
    refine findSomeM?_eq_some fun i hi => ?_
    obtain ⟨slot, hslot, hentry, hname⟩ := h.getD_slot (List.mem_range.mp hi) ⟨[], 0, false⟩
    simp only [hslot, hname, Function.comp_apply, hentry]
    rfl
  rw [ObbMemory.assetSize, nfsmwObbAssetSize, findSomeM?_eq_some (fun pre _ => ?_)]
  · rfl
  · cases assetWanted (normalize path) pre with
    | none => rfl
    | some wanted => exact hloop wanted

/-- The string behind a slot of the listing buffer. -/
def ObbMemory.slotString (m : ObbMemory) (slot : Option NamePointer) : CString :=
  (slot.bind m.deref).getD []

/-- The first `count` slots have been written in this listing. -/
def ObbMemory.Listed (m : ObbMemory) (listed : List (Option NamePointer) × Nat) : Prop :=
  listed.1.length = m.listCapacity ∧
    ∀ slot ∈ listed.1.take listed.2, (slot.bind m.deref).isSome

theorem ObbMemory.Listed.known {listed : List (Option NamePointer) × Nat}
    (h : m.Listed listed) (c : CString) :
    ((listed.1.take listed.2).anyM fun slot => do
        let existing ← m.deref (← slot)
        return decide (component existing = c)) =
      some (((listed.1.map m.slotString).take listed.2).any (component · = c)) := by
  rw [← List.map_take, List.any_map]
  refine anyM_eq_some fun slot hslot => ?_
  obtain ⟨string, hstring⟩ := Option.isSome_iff_exists.mp (h.2 slot hslot)
  obtain ⟨pointer, rfl, hderef⟩ := Option.bind_eq_some_iff.mp hstring
  simp [ObbMemory.slotString, hderef]

/-- One turn of the loop is one turn over the strings, and its store is within the buffer. -/
theorem ObbMemory.WellFormed.listStep (h : m.WellFormed) (pre : CString) {index : Nat}
    {listed : List (Option NamePointer) × Nat} (hlisted : m.Listed listed)
    (hindex : index < m.entryCount) (hcapacity : m.entryCount ≤ m.listCapacity)
    (hcount : listed.2 ≤ index) (d : ObbEntry) : ∃ listed',
    m.listStep pre listed index = some listed' ∧ m.Listed listed' ∧ listed'.2 ≤ index + 1 ∧
      (listed'.1.map m.slotString, listed'.2) =
        Obb.listStep pre (listed.1.map m.slotString, listed.2) (m.index.entries.getD index d) := by
  obtain ⟨slot, hslot, hentry, hname⟩ := h.getD_slot hindex d
  have hknown := hlisted.known (component ((cstring slot.entry.name).drop pre.length))
  rw [hentry, ObbMemory.listStep, Obb.listStep, listCandidate, hname]
  simp only [Option.bind_eq_bind, Option.bind_some]
  by_cases hskip : ¬ pre <+: cstring slot.entry.name ∨
      component ((cstring slot.entry.name).drop pre.length) = []
  · have hcandidate : ¬ (pre <+: cstring slot.entry.name ∧
        component ((cstring slot.entry.name).drop pre.length) ≠ []) := by tauto
    rw [if_pos hskip, if_neg hcandidate]
    exact ⟨listed, rfl, hlisted, Nat.le_succ_of_le hcount, rfl⟩
  · have hcandidate : pre <+: cstring slot.entry.name ∧
        component ((cstring slot.entry.name).drop pre.length) ≠ [] := by tauto
    rw [if_neg hskip, if_pos hcandidate]
    simp only [Option.bind_eq_bind] at hknown
    rw [hknown, Option.bind_some]
    dsimp only
    split
    · exact ⟨listed, rfl, hlisted, Nat.le_succ_of_le hcount, rfl⟩
    · -- the name starts with the prefix, so that the new pointer is inside the name
      have hstring : m.slotString (some ⟨index, pre.length⟩) =
          (cstring slot.entry.name).drop pre.length := by
        simp [ObbMemory.slotString, ObbMemory.deref, hname, hcandidate.1.length_le]
      have hroom : listed.2 < m.listCapacity ∧ listed.2 < listed.1.length := by
        rw [hlisted.1]
        omega
      rw [if_pos hroom]
      refine ⟨_, rfl, ⟨by simpa using hlisted.1, fun s hs => ?_⟩, by simpa using hcount, ?_⟩
      · rw [List.take_succ_eq_append_getElem (by simpa using hroom.2),
          List.take_set_of_le (Nat.le_refl _), List.getElem_set_self] at hs
        rcases List.mem_append.mp hs with hold | hnew
        · exact hlisted.2 s hold
        · obtain rfl := List.mem_singleton.mp hnew
          simp [ObbMemory.deref, hname, hcandidate.1.length_le]
      · rw [List.map_set, hstring]

/-- The listing loop over the first `n` slots. -/
theorem ObbMemory.WellFormed.listLoop (h : m.WellFormed) (pre : CString)
    (hcapacity : m.entryCount ≤ m.listCapacity) {n : Nat} (hn : n ≤ m.entryCount)
    (d : ObbEntry) : ∃ listed,
    (List.range n).foldlM (m.listStep pre) (m.listResult, 0) = some listed ∧
      m.Listed listed ∧ listed.2 ≤ n ∧ (listed.1.map m.slotString, listed.2) =
        ((List.range n).map fun i => m.index.entries.getD i d).foldl (Obb.listStep pre)
          (m.index.listResult, 0) := by
  induction n with
  | zero => exact ⟨_, rfl, ⟨h.length_listResult, by simp⟩, Nat.le_refl _, rfl⟩
  | succ n ih =>
    obtain ⟨listed, hloop, hlisted, hcount, heq⟩ := ih (Nat.le_of_succ_le hn)
    obtain ⟨listed', hstep, hlisted', hcount', heq'⟩ :=
      h.listStep pre hlisted hn hcapacity hcount d
    refine ⟨listed', ?_, hlisted', hcount', ?_⟩
    · rw [List.range_succ, List.foldlM_append, hloop]
      simp [hstep]
    · rw [heq', List.range_succ, List.map_append, List.foldl_append, ← heq]
      rfl

/-- The index after the listing buffer has grown. -/
def ObbIndex.grown (s : ObbIndex) : ObbIndex :=
  if s.listCapacity < s.entries.length then
    { s with
      listResult := s.listResult ++ List.replicate (s.entries.length - s.listResult.length) []
      listCapacity := s.entries.length }
  else s

theorem ObbIndex.grown_entries {s : ObbIndex} : s.grown.entries = s.entries := by
  unfold ObbIndex.grown
  split_ifs <;> rfl

/-- A listing that does not fail. -/
theorem nfsmwObbList_eq {reallocOk : Bool} {directory : Option CString} {s : ObbIndex}
    (h : ¬ (s.listCapacity < s.entries.length ∧ !reallocOk)) :
    nfsmwObbList reallocOk directory s =
      let listed :=
        s.grown.entries.foldl (Obb.listStep (listPrefix directory)) (s.grown.listResult, 0)
      ({ s.grown with listResult := listed.1 }, some listed.1, listed.2) := by
  rw [nfsmwObbList, if_neg h]
  rfl

theorem ObbMemory.WellFormed.grown (h : m.WellFormed) :
    m.grown.WellFormed ∧ m.grown.entryCount = m.entryCount ∧
      m.entryCount ≤ m.grown.listCapacity ∧ m.grown.index = m.index.grown := by
  have hlength := h.length_listResult
  unfold ObbMemory.grown ObbIndex.grown
  rw [h.length_index]
  by_cases hlt : m.listCapacity < m.entryCount
  · rw [if_pos hlt, if_pos (show m.index.listCapacity < m.entryCount from hlt)]
    refine ⟨⟨h.count_le, h.named, ?_⟩, rfl, Nat.le_refl _, ?_⟩
    · simp
      omega
    · have htake : m.listResult.take m.entryCount = m.listResult :=
        List.take_of_length_le (by omega)
      simp only [ObbMemory.index, htake, List.map_append, List.map_replicate, List.length_map]
      rfl
  · rw [if_neg hlt, if_neg (show ¬ m.index.listCapacity < m.entryCount from hlt)]
    exact ⟨h, rfl, Nat.not_lt.mp hlt, rfl⟩

theorem length_trimmed_le (path : Option CString) :
    (trimmed path).length ≤ (path.getD []).length :=
  Nat.le_trans (List.rdropWhile_prefix _ _).length_le (List.dropWhile_suffix _).length_le

theorem ObbMemory.list_eq (m : ObbMemory) (reallocOk : Bool) (directory : Option CString)
    {buffer : List UInt8} (hbuffer : buffer.length = nameLimit) : m.list reallocOk directory =
      (comparedPrefix buffer directory).bind (m.listFrom reallocOk) := by
  have hlimit : 2 ≤ nameLimit := by decide
  rw [ObbMemory.list, comparedPrefix_congr (by rw [List.length_replicate, hbuffer])
    (hbuffer ▸ hlimit)]

/-- A directory for which the array has room. -/
theorem ObbMemory.list_of_short (m : ObbMemory) (reallocOk : Bool) {directory : Option CString}
    (h : (trimmed directory).length < 4095) :
    m.list reallocOk directory = m.listFrom reallocOk (listPrefix directory) := by
  have hlimit : 4094 + 2 = nameLimit := rfl
  have hbuffer : (trimmed directory).length + 2 ≤
      (List.replicate nameLimit (0 : UInt8)).length := by
    rw [List.length_replicate]
    omega
  rw [ObbMemory.list, comparedPrefix_of_le hbuffer]
  rfl

/-- Listing gives the strings that it gives on the index. -/
theorem ObbMemory.WellFormed.list (h : m.WellFormed) (reallocOk : Bool)
    {directory : Option CString} (hshort : (trimmed directory).length < 4095) : ∃ m',
    m.list reallocOk directory = some (m',
        (nfsmwObbList reallocOk directory m.index).2.1.map
          (·.take (nfsmwObbList reallocOk directory m.index).2.2),
        (nfsmwObbList reallocOk directory m.index).2.2) ∧
      m'.WellFormed ∧ m'.index = (nfsmwObbList reallocOk directory m.index).1 := by
  rw [m.list_of_short reallocOk hshort, ObbMemory.listFrom]
  simp only [Option.bind_eq_bind]
  by_cases hfail : m.listCapacity < m.entryCount ∧ !reallocOk
  · have hfail' : m.index.listCapacity < m.index.entries.length ∧ !reallocOk := by
      rwa [h.length_index]
    rw [if_pos hfail, nfsmwObbList, if_pos hfail']
    exact ⟨m, rfl, h, rfl⟩
  · have hfail' : ¬ (m.index.listCapacity < m.index.entries.length ∧ !reallocOk) := by
      rwa [h.length_index]
    obtain ⟨hgrown, hcount, hcapacity, hindex⟩ := h.grown
    obtain ⟨listed, hloop, hlisted, -, heq⟩ := hgrown.listLoop (listPrefix directory)
      (hcount.symm ▸ hcapacity) (Nat.le_refl _) ⟨[], 0, false⟩
    rw [← hgrown.length_index, range_map_getD, hindex] at heq
    have hchildren : (listed.1.take listed.2).mapM (fun slot => slot.bind m.grown.deref) =
        some ((listed.1.take listed.2).map m.grown.slotString) := by
      refine mapM_eq_some fun slot hslot => ?_
      obtain ⟨string, hstring⟩ := Option.isSome_iff_exists.mp (hlisted.2 slot hslot)
      simp [ObbMemory.slotString, hstring]
    rw [if_neg hfail, hloop, Option.bind_some, hchildren, nfsmwObbList_eq hfail']
    simp only [← heq, Option.bind_some, Option.map_some, List.map_take]
    refine ⟨_, rfl, ⟨hgrown.count_le, hgrown.named, hlisted.1⟩, ?_⟩
    rw [← hindex]
    rfl

/-! ## What the queries answer from -/

/-- The entries that a call of `nfsmw_obb_open` makes visible. -/
def openedEntries (host : OpenHost) (fopen : CString → Option (List UInt8))
    (path : Option CString) : List ObbEntry :=
  match path with
  | none | some [] => []
  | some path =>
    match readDirectory host path (fopen path) with
    | .ok entries => entries
    | .error _ => []

/-- The entries of the last successful open, unless a close or a failed open came after. -/
def lastOpened (calls : List ObbCall) : List ObbEntry :=
  calls.foldl (fun entries call =>
    match call with
    | .obbOpen host fopen path => openedEntries host fopen path
    | .close => []
    | _ => entries) []

/-- The children of a directory: what the entries' names have behind it, one for each first
component. -/
def childrenOf (entries : List ObbEntry) (directory : Option CString) : List CString :=
  (entries.filterMap (listCandidate (listPrefix directory))).foldl (fun found remainder =>
    if found.any (component · = component remainder) then found else found ++ [remainder]) []

theorem ObbMemory.WellFormed.perform (h : m.WellFormed) {call : ObbCall} (hshort : call.Short) :
    ∃ m', m.perform call = some (m', (m.index.perform call).2) ∧ m'.WellFormed ∧
      m'.index = (m.index.perform call).1 ∧
      (∀ e, (m.index.perform call).2 = .opened (.error e) → m' = .closed) := by
  cases call with
  | obbOpen host fopen path =>
    obtain ⟨m', hopen, hm', hindex, herror⟩ := h.obbOpen host fopen path
    refine ⟨m', ?_, hm', hindex, fun e he => herror e (ObbAnswer.opened.inj he)⟩
    simp only [ObbMemory.perform, hopen]
    rfl
  | close =>
    refine ⟨.closed, ?_, .closed, rfl, fun _ he => nomatch he⟩
    simp only [ObbMemory.perform, h.close_eq]
    rfl
  | assetSize path =>
    refine ⟨m, ?_, h, rfl, fun _ he => nomatch he⟩
    simp only [ObbMemory.perform, h.assetSize path]
    rfl
  | list reallocOk directory =>
    obtain ⟨m', hlist, hm', hindex⟩ :=
      h.list reallocOk (Nat.lt_of_le_of_lt (length_trimmed_le _) hshort)
    refine ⟨m', ?_, hm', hindex, fun _ he => nomatch he⟩
    simp only [ObbMemory.perform, hlist]
    rfl

theorem ObbIndex.perform_entries {s : ObbIndex} {call : ObbCall} :
    (s.perform call).1.entries = match call with
      | .obbOpen host fopen path => openedEntries host fopen path
      | .close => []
      | _ => s.entries := by
  cases call with
  | obbOpen host fopen path =>
    match path with
    | none => rfl
    | some [] => rfl
    | some (b :: path) =>
      simp only [ObbIndex.perform, nfsmwObbOpen, openedEntries]
      cases readDirectory host (b :: path) (fopen (b :: path)) <;> rfl
  | close => rfl
  | assetSize path => rfl
  | list reallocOk directory =>
    simp only [ObbIndex.perform]
    by_cases h : s.listCapacity < s.entries.length ∧ !reallocOk
    · rw [nfsmwObbList, if_pos h]
    · rw [nfsmwObbList_eq h]
      exact s.grown_entries

/-- Every run of calls goes through, and leaves the entries of the last successful open. -/
theorem ObbMemory.run_closed {calls : List ObbCall} (hshort : ∀ call ∈ calls, call.Short) :
    ∃ m, ObbMemory.closed.run calls = some m ∧ m.WellFormed ∧
      m.index.entries = lastOpened calls := by
  induction calls using List.reverseRecOn with
  | nil => exact ⟨_, rfl, .closed, rfl⟩
  | append_singleton calls call ih =>
    obtain ⟨m, hrun, hm, hentries⟩ := ih fun c hc => hshort c (List.mem_append_left _ hc)
    obtain ⟨m', hperform, hm', hindex, -⟩ :=
      hm.perform (hshort call (List.mem_append_right _ (List.mem_singleton_self _)))
    refine ⟨m', ?_, hm', ?_⟩
    · simp only [ObbMemory.run] at hrun ⊢
      rw [List.foldlM_append, hrun]
      simp [hperform]
    · rw [hindex, ObbIndex.perform_entries, lastOpened, List.foldl_concat, ← lastOpened, hentries]

/-- With room for all of them the listing loop finds the children, in order. -/
theorem listStep_foldl {pre : CString} {entries : List ObbEntry} {slots : List CString}
    (hroom : entries.length ≤ slots.length) :
    let listed := entries.foldl (listStep pre) (slots, 0)
    listed.1.length = slots.length ∧ listed.2 ≤ entries.length ∧
      listed.1.take listed.2 = (entries.filterMap (listCandidate pre)).foldl
        (fun found remainder => if found.any (component · = component remainder) then found
          else found ++ [remainder]) [] := by
  induction entries using List.reverseRecOn with
  | nil => simp
  | append_singleton entries entry ih =>
    rw [List.length_append, List.length_singleton] at hroom
    obtain ⟨hlength, hcount, hfound⟩ := ih (by omega)
    rw [List.foldl_concat, List.filterMap_append]
    generalize entries.foldl (listStep pre) (slots, 0) = listed at hlength hcount hfound
    rw [Obb.listStep]
    cases hcandidate : listCandidate pre entry with
    | none => exact ⟨hlength, by simp; omega, by simpa [hcandidate] using hfound⟩
    | some remainder =>
      simp only [List.filterMap_cons, hcandidate, List.filterMap_nil, List.foldl_concat, ← hfound]
      split
      · exact ⟨hlength, by simp; omega, rfl⟩
      · have hslot : listed.2 < (listed.1.set listed.2 remainder).length := by simp; omega
        refine ⟨by simpa using hlength, by simpa using hcount, ?_⟩
        rw [List.take_succ_eq_append_getElem hslot, List.getElem_set_self,
          List.take_set_of_le (Nat.le_refl _)]

/-- A listing that works gives the children of the directory. -/
theorem nfsmwObbList_children {s : ObbIndex} {reallocOk : Bool} (directory : Option CString)
    (hlength : s.listResult.length = s.listCapacity)
    (hroom : s.entries.length ≤ s.listCapacity ∨ reallocOk) :
    (nfsmwObbList reallocOk directory s).2.1.map
        (·.take (nfsmwObbList reallocOk directory s).2.2) =
      some (childrenOf s.entries directory) ∧
    (nfsmwObbList reallocOk directory s).2.2 = (childrenOf s.entries directory).length := by
  have hworks : ¬ (s.listCapacity < s.entries.length ∧ !reallocOk) := by grind
  have hgrown : s.grown.entries.length ≤ s.grown.listResult.length := by
    unfold ObbIndex.grown
    split_ifs with hlt
    · simp only [List.length_append, List.length_replicate]
      omega
    · exact Nat.le_trans (Nat.not_lt.mp hlt) (Nat.le_of_eq hlength.symm)
  obtain ⟨hlength, hle, hfound⟩ := @listStep_foldl (listPrefix directory) _ _ hgrown
  rw [nfsmwObbList_eq hworks, childrenOf, ← s.grown_entries, ← hfound]
  refine ⟨rfl, ?_⟩
  simp only [List.length_take]
  omega

theorem ObbMemory.WellFormed.children (h : m.WellFormed) {reallocOk : Bool}
    (directory : Option CString) (hroom : m.entryCount ≤ m.listCapacity ∨ reallocOk) :
    (nfsmwObbList reallocOk directory m.index).2.1.map
        (·.take (nfsmwObbList reallocOk directory m.index).2.2) =
      some (childrenOf m.index.entries directory) ∧
    (nfsmwObbList reallocOk directory m.index).2.2 =
      (childrenOf m.index.entries directory).length :=
  nfsmwObbList_children directory (by simp [ObbMemory.index, h.length_listResult])
    (by rwa [h.length_index])

/-- A listing fails or gives the children of the directory. -/
theorem ObbMemory.WellFormed.listed (h : m.WellFormed) {reallocOk : Bool}
    {directory : Option CString} :
    (m.index.perform (.list reallocOk directory)).2 = .listed none 0 ∨
      (m.index.perform (.list reallocOk directory)).2 =
        .listed (some (childrenOf m.index.entries directory))
          (childrenOf m.index.entries directory).length := by
  rw [ObbIndex.perform]
  by_cases hroom : m.entryCount ≤ m.listCapacity ∨ reallocOk
  · obtain ⟨hchildren, hcount⟩ := h.children directory hroom
    dsimp only
    rw [hchildren, hcount]
    exact .inr rfl
  · have hfail : m.index.listCapacity < m.index.entries.length ∧ !reallocOk := by
      rw [h.length_index, show m.index.listCapacity = m.listCapacity from rfl]
      grind
    rw [nfsmwObbList, if_pos hfail]
    exact .inl rfl

theorem ObbMemory.closed_assetSize (path : Option CString) :
    ObbMemory.closed.assetSize path = some (-2) := by
  rw [ObbMemory.WellFormed.closed.assetSize, ObbMemory.closed_index, nfsmwObbAssetSize]
  have hnone : (assetPrefixes.findSome? fun pre =>
      (assetWanted (normalize path) pre).bind fun wanted =>
        ([] : List ObbEntry).findSome? fun entry =>
          if assetMatches wanted (cstring entry.name) then some entry.assetSize else none) =
      none := by
    simp
  rw [hnone]
  rfl

theorem ObbMemory.closed_list (reallocOk : Bool) {directory : Option CString}
    (hshort : (directory.getD []).length < 4095) :
    ObbMemory.closed.list reallocOk directory = some (.closed, some [], 0) := by
  rw [ObbMemory.list_of_short _ _ (Nat.lt_of_le_of_lt (length_trimmed_le _) hshort)]
  rfl

/-- In every run of the module no access goes wrong; the names end in a NUL and the listing
buffer is as large as recorded. A failed open leaves the closed state, and the queries answer
from the entries of the last successful one. -/
theorem obb_over_runs {calls : List ObbCall} (hshort : ∀ call ∈ calls, call.Short) : ∃ m,
    ObbMemory.closed.run calls = some m ∧
    (∀ i < m.entryCount, ∃ slot, m.entries[i]? = some slot ∧
      ∃ name, slot.name = some (name ++ [0])) ∧
    m.listCapacity ≤ m.listResult.length ∧
    ∀ call : ObbCall, call.Short → ∃ m' answer, m.perform call = some (m', answer) ∧
      (∀ e, answer = .opened (.error e) → m' = .closed ∧
        (∀ path, m'.assetSize path = some (-2)) ∧
        ∀ reallocOk directory, (directory.getD []).length < 4095 →
          m'.list reallocOk directory = some (m', some [], 0)) ∧
      (∀ path, call = .assetSize path →
        answer = .size (nfsmwObbAssetSize path ⟨lastOpened calls, [], [], 0⟩)) ∧
      (∀ reallocOk directory, call = .list reallocOk directory → answer = .listed none 0 ∨
        answer = .listed (some (childrenOf (lastOpened calls) directory))
          (childrenOf (lastOpened calls) directory).length) := by
  obtain ⟨m, hrun, hm, hentries⟩ := ObbMemory.run_closed hshort
  refine ⟨m, hrun, hm.named, Nat.le_of_eq hm.length_listResult.symm, fun call hcall => ?_⟩
  obtain ⟨m', hperform, -, -, herror⟩ := hm.perform hcall
  refine ⟨m', _, hperform, fun e he => ?_, ?_, ?_⟩
  · obtain rfl := herror e he
    exact ⟨rfl, ObbMemory.closed_assetSize, fun ok directory => ObbMemory.closed_list ok⟩
  · rintro path rfl
    rw [← hentries]
    rfl
  · rintro reallocOk directory rfl
    rw [← hentries]
    exact hm.listed

/-- An archive is opened and listed; opening something else fails. -/
theorem obb_over_runs_reopened : ∃ m,
    ObbMemory.closed.run [.obbOpen .reliable (fun _ => some sampleArchive.bytes)
      (some (cstr "main.obb")), .list true (some (cstr "a"))] = some m ∧
    ∃ m', m.perform (.obbOpen .reliable (fun _ => some []) (some (cstr "patch.obb"))) =
      some (m', .opened (.error (.cannotOpen (cstr "patch.obb")))) ∧ m' = .closed := by
  obtain ⟨m, hrun, -, -, hcalls⟩ := @obb_over_runs [.obbOpen .reliable
    (fun _ => some sampleArchive.bytes) (some (cstr "main.obb")), .list true (some (cstr "a"))]
    (by simp [ObbCall.Short, cstr]; decide)
  obtain ⟨m', answer, hperform, hfailed, -⟩ := hcalls
    (.obbOpen .reliable (fun _ => some []) (some (cstr "patch.obb"))) trivial
  have hanswer : answer = .opened (.error (.cannotOpen (cstr "patch.obb"))) := by
    unfold ObbMemory.perform ObbMemory.obbOpen ObbMemory.close at hperform
    split_ifs at hperform
    · exact (Prod.ext_iff.mp (Option.some.inj hperform)).2.symm
    · cases hperform
  subst hanswer
  exact ⟨m, hrun, m', hperform, (hfailed _ rfl).1⟩

end NfsmwRuntime.Obb
