import Mathlib.Data.Int.Order.Basic
import NfsmwRuntime.Loader.Elf

/-!
# Mapping an image

`elf32Map` reads and checks the headers of a file, reserves the address range that its
segments span, copies them there, and finds the dynamic table through the copied headers.
It stays inside the reservation and the file, and a mapped image holds the segments.
-/

namespace NfsmwRuntime.Loader

open Library

/-! ## Page protections -/

/-- The body of the loop of `changeSegments`, for the program header it has read. -/
def changeSegment (host : Host) (phase : Phase) (overflow : Failure)
    (failure : CString → Failure) (bits : Elf32Phdr → UInt32) (image : Elf32Image)
    (segment : Elf32Phdr) : LoaderM Unit :=
  if segment.type ≠ ptLoad ∨ segment.memsz = 0 then pure ()
  else do
    let start := alignDown (image.loadBias + segment.vaddr) image.pageSize
    let stop ← Command.lift (require
      (alignUp (image.loadBias + segment.vaddr + segment.memsz) image.pageSize) overflow)
    mprotect host phase start (stop - start) (bits segment) failure

/-- The loop that `protect_segments` and `set_segments_writable` share: one `mprotect` for the
pages of each mapped segment. -/
def changeSegments (host : Host) (phase : Phase) (overflow : Failure)
    (failure : CString → Failure) (bits : Elf32Phdr → UInt32) (image : Elf32Image) :
    LoaderM Unit :=
  forM (List.range image.programHeaderCount.toNat) fun index => do
    let s ← get
    changeSegment host phase overflow failure bits image
      (programHeader s.memory image.programHeaders index)

def protectSegments (host : Host) : Elf32Image → LoaderM Unit :=
  changeSegments host .protect (setError "segment protection overflow" [])
    (fun errno => setError "protect PT_LOAD: %s" [.text errno])
    fun segment => protection segment.flags

def setSegmentsWritable (host : Host) : Elf32Image → LoaderM Unit :=
  changeSegments host .writable (setError "writable segment overflow" [])
    (fun errno => setError "make PT_LOAD writable: %s" [.text errno])
    fun _ => protReadWrite

/-! ## Reading the file -/

def openInput (host : Host) (path : CString) : Except Failure (List UInt8) := do
  let content ← (host.openFile path).mapError fun errno =>
    setError "open %s: %s" [.text path, .text errno]
  check (host.fstat = true ∧ 0 < content.length)
    (setError "stat %s: %s" [.text path, .text host.strerror])
  check (content.length ≤ 0xffffffff) (setError "module is too large: %s" [.text path])
  check (host.mapInput = true) (setError "map input %s: %s" [.text path, .text host.strerror])
  pure content

/-- A little-endian ELF32 shared object for ARM with program headers. -/
def Elf32Ehdr.supported (header : Elf32Ehdr) : Prop :=
  header.ident.take 4 = [0x7f, 0x45, 0x4c, 0x46] ∧ header.ident.getD 4 0 = 1 ∧
    header.ident.getD 5 0 = 1 ∧ header.machine = emArm ∧ header.type = etDyn ∧
    header.phentsize.toNat = Elf32Phdr.size ∧ header.phnum ≠ 0

instance (header : Elf32Ehdr) : Decidable header.supported :=
  inferInstanceAs (Decidable (_ ∧ _ ∧ _ ∧ _ ∧ _ ∧ _ ∧ _))

def validPageSize (pageSize : Int32) : Prop :=
  0 < pageSize ∧ pageSize.toUInt32 &&& (pageSize.toUInt32 - 1) = 0

instance (pageSize : Int32) : Decidable (validPageSize pageSize) :=
  inferInstanceAs (Decidable (_ ∧ _))

/-- The program headers of the file. -/
def fileProgramHeaders (content : List UInt8) (header : Elf32Ehdr) : List Elf32Phdr :=
  (List.range header.phnum.toNat).map fun index =>
    .ofBytes (content.drop (header.phoff.toNat + Elf32Phdr.size * index))

/-- The end of a segment's last page, if the segment is acceptable. -/
def segmentEnd (fileSize : Nat) (pageSize : UInt32) (segment : Elf32Phdr) : Option UInt32 :=
  if segment.filesz > segment.memsz ∨ segment.memsz > 0xffffffff - segment.vaddr ∨
      ¬ rangeInFile segment.offset.toNat segment.filesz.toNat fileSize then
    none
  else alignUp (segment.vaddr + segment.memsz) pageSize

/-- The pages that the segments span, from `virtual_minimum` to `virtual_maximum`. -/
structure Extent where
  minimum : UInt32
  maximum : UInt32

/-- The scan's step: check a segment and take its pages into account. -/
def Extent.widen (path : CString) (fileSize : Nat) (pageSize : UInt32) (extent : Extent)
    (segment : Elf32Phdr) : Except Failure Extent :=
  if segment.type ≠ ptLoad then .ok extent
  else do
    let stop ← require (segmentEnd fileSize pageSize segment)
      (setError "invalid PT_LOAD segment: %s" [.text path])
    let start := alignDown segment.vaddr pageSize
    pure {
      minimum := if start < extent.minimum then start else extent.minimum
      maximum := if stop > extent.maximum then stop else extent.maximum }

/-- What the checks on the file give. -/
structure LoadPlan where
  content : List UInt8
  header : Elf32Ehdr
  headers : List Elf32Phdr
  extent : Extent

def readPlan (host : Host) (path : CString) : Except Failure LoadPlan := do
  let content ← openInput host path
  check (Elf32Ehdr.size ≤ content.length) (setError "truncated ELF header: %s" [.text path])
  let header := Elf32Ehdr.ofBytes content
  check header.supported (setError "unsupported ELF32/ARM header: %s" [.text path])
  check (rangeInFile header.phoff.toNat (header.phnum.toNat * Elf32Phdr.size) content.length)
    (setError "invalid program-header table: %s" [.text path])
  check (validPageSize host.pageSize) (setError "invalid host page size" [])
  let headers := fileProgramHeaders content header
  let extent ← headers.foldlM (Extent.widen path content.length host.pageSize.toUInt32)
    ⟨0xffffffff, 0⟩
  check (extent.minimum ≠ 0xffffffff ∧ extent.minimum < extent.maximum)
    (setError "ELF has no loadable image: %s" [.text path])
  pure ⟨content, header, headers, extent⟩

/-! ## Building the image -/

def LoadPlan.size (plan : LoadPlan) : UInt32 := plan.extent.maximum - plan.extent.minimum

/-- The image after the reservation. -/
def LoadPlan.image (plan : LoadPlan) (host : Host) (path : CString) (mapping : UInt32) :
    Elf32Image :=
  { Elf32Image.zero with
    path := some path
    pageSize := host.pageSize.toUInt32
    mapping := mapping
    mappingSize := plan.size
    virtualBase := plan.extent.minimum
    loadBias := mapping - plan.extent.minimum }

def reserveImage (host : Host) (path : CString) (plan : LoadPlan) : LoaderM Elf32Image := fun s =>
  match host.reserve plan.size with
  | .error errno => .error (setError "reserve image %s: %s" [.text path, .text errno]) s
  | .ok mapping =>
    let image := plan.image host path mapping
    .ok image { s with
      memory := s.memory.zeroFill mapping plan.size.toNat
      image := image
      calls := s.calls ++ [.reserve mapping plan.size] }

def copySegment (content : List UInt8) (image : Elf32Image) (segment : Elf32Phdr) :
    LoaderM Unit := fun s =>
  let target := image.loadBias + segment.vaddr
  .ok () { s with
    memory := s.memory.write target
      ((content.drop segment.offset.toNat).take segment.filesz.toNat)
    calls := s.calls ++ [.memcpy target segment.offset segment.filesz] }

/-- The body of the preparation loop. -/
def prepareSegment (host : Host) (path : CString) (content : List UInt8) (image : Elf32Image)
    (index : Nat) (segment : Elf32Phdr) : LoaderM Unit :=
  if segment.type = ptLoad ∧ segment.memsz ≠ 0 then do
    let failure := fun errno =>
      setError "prepare PT_LOAD %zu in %s: %s" [.number index, .text path, .text errno]
    let start := image.loadBias + alignDown segment.vaddr image.pageSize
    let stop ← Command.lift (require
      (alignUp (image.loadBias + segment.vaddr + segment.memsz) image.pageSize)
      (failure host.strerror))
    mprotect host .prepare start (stop - start) protReadWrite failure
    if segment.filesz ≠ 0 then copySegment content image segment else pure ()
  else pure ()

/-- A step that fills in the image from what is in memory. -/
def updateImage (f : Memory → Elf32Image → Except Failure Elf32Image) : LoaderM Unit := fun s =>
  match f s.memory s.image with
  | .ok image => .ok () { s with image := image }
  | .error e => .error e s

def mappedHeaders (header : Elf32Ehdr) (_ : Memory) (image : Elf32Image) :
    Except Failure Elf32Image := do
  let count := header.phnum.toUInt32
  check (rangeInImage image (image.loadBias + header.phoff) (count * 32))
    (setError "mapped program headers are unavailable" [])
  pure { image with
    programHeaders := image.loadBias + header.phoff
    programHeaderCount := count }

/-- The loop over the mapped program headers, which ends at the first `PT_DYNAMIC`. -/
def scanHeaders (m : Memory) (image : Elf32Image) : Except Failure Elf32Image :=
  let isDynamic := fun index => (programHeader m image.programHeaders index).type == ptDynamic
  match (List.range image.programHeaderCount.toNat).find? isDynamic with
  | none => pure image
  | some index => do
    let segment := programHeader m image.programHeaders index
    let address := image.loadBias + segment.vaddr
    check (8 ≤ segment.memsz ∧ rangeInImage image address segment.memsz)
      (setError "invalid PT_DYNAMIC table" [])
    pure { image with dynamic := address, dynamicCount := segment.memsz / 8 }

def findDynamic (m : Memory) (image : Elf32Image) : Except Failure Elf32Image := do
  let found ← scanHeaders m image
  check (found.dynamic ≠ 0) none
  pure found

/-- The entries of the dynamic table before `DT_NULL`, or all of them. -/
def dynamicEntries (m : Memory) (image : Elf32Image) : List Elf32Dyn :=
  ((List.range image.dynamicCount.toNat).map (dynamicEntry m image.dynamic)).takeWhile
    fun entry => entry.tag != dtNull

/-- The variables of the loop in `parse_dynamic`. -/
structure DynamicScan where
  stringAddress : UInt32 := 0
  stringTableSize : UInt32
  sonameOffset : UInt32 := 0
  sonameSeen : Bool := false

def DynamicScan.step (loadBias : UInt32) (scan : DynamicScan) (entry : Elf32Dyn) :
    Except Failure DynamicScan :=
  if entry.tag = dtStrtab then .ok { scan with stringAddress := loadBias + entry.val }
  else if entry.tag = dtStrsz then .ok { scan with stringTableSize := entry.val }
  else if entry.tag = dtSoname then
    .ok { scan with sonameOffset := entry.val, sonameSeen := true }
  else if entry.tag = dtRela ∨ entry.tag = dtRelasz ∨ entry.tag = dtRelaent then
    .error (setError "unexpected RELA relocation table in ARM32 module" [])
  else .ok scan

def parseDynamic (m : Memory) (image : Elf32Image) : Except Failure Elf32Image := do
  let entries := dynamicEntries m image
  let scan ← entries.foldlM (DynamicScan.step image.loadBias)
    { stringTableSize := image.stringTableSize }
  check (entries.length < image.dynamicCount.toNat)
    (setError "unterminated PT_DYNAMIC table" [])
  check (scan.stringAddress ≠ 0 ∧ scan.stringTableSize ≠ 0 ∧
      rangeInImage image scan.stringAddress scan.stringTableSize)
    (setError "invalid dynamic string table" [])
  check (scan.sonameSeen = true ∧ scan.sonameOffset < scan.stringTableSize)
    (setError "invalid DT_SONAME offset" [])
  pure { image with
    stringTable := scan.stringAddress
    stringTableSize := scan.stringTableSize
    soname := scan.stringAddress + scan.sonameOffset }

def prepareSegments (host : Host) (path : CString) (plan : LoadPlan) (image : Elf32Image) :
    LoaderM Unit :=
  forM plan.headers.zipIdx fun (segment, index) =>
    prepareSegment host path plan.content image index segment

/-- What follows the preparation loop. -/
def completeImage (host : Host) (header : Elf32Ehdr) : LoaderM Unit := do
  updateImage (mappedHeaders header)
  updateImage findDynamic
  updateImage parseDynamic
  let s ← get
  protectSegments host s.image

/-- `elf32_map` up to its exit. -/
def mapFile (host : Host) (path : CString) : LoaderM Unit := do
  let plan ← Command.lift (readPlan host path)
  let image ← reserveImage host path plan
  prepareSegments host path plan image
  completeImage host plan.header

def State.unmap (s : State) : State :=
  let released := if s.image.mapping ≠ 0 ∧ s.image.mappingSize ≠ 0 then
      s.log (.munmap s.image.mapping s.image.mappingSize)
    else s
  { released with image := .zero }

def elf32Unmap : LoaderM Unit := modify State.unmap

/-- The state with the caller's image cleared for a file. -/
def State.fresh (s : State) (path : CString) : State :=
  { s with image := { Elf32Image.zero with path := some path } }

def elf32Map (host : Host) (path : CString) : LoaderM Unit := do
  modify fun s => s.fresh path
  match ← Command.capture (mapFile host path) with
  | .ok () => pure ()
  | .error failure =>
    elf32Unmap
    throw failure

theorem changeSegments_keeps (host : Host) {P : Call → Prop} {phase : Phase}
    (overflow : Failure) (failure : CString → Failure) (bits : Elf32Phdr → UInt32)
    (image : Elf32Image) (hP : ∀ start length bits ok, P (.mprotect phase start length bits ok)) :
    Command.Leaves (Keeps P State.contents)
      (changeSegments host phase overflow failure bits image) := by
  refine Command.leaves_forM fun index _ => ?_
  refine Command.leaves_bind (fun s => refl_of _ s) fun s _ u _ => ?_
  unfold changeSegment
  split
  · exact Command.leaves_pure () u
  · refine Command.leaves_bind (Command.leaves_lift _) (fun stop _ v _ => ?_) u
    exact mprotect_keeps host failure (hP _ _ _) v

theorem protectSegments_keeps (host : Host) {P : Call → Prop} (image : Elf32Image)
    (hP : ∀ start length bits ok, P (.mprotect .protect start length bits ok)) :
    Command.Leaves (Keeps P State.contents) (protectSegments host image) :=
  changeSegments_keeps host _ _ _ image hP

theorem setSegmentsWritable_keeps (host : Host) {P : Call → Prop} (image : Elf32Image)
    (hP : ∀ start length bits ok, P (.mprotect .writable start length bits ok)) :
    Command.Leaves (Keeps P State.contents) (setSegmentsWritable host image) :=
  changeSegments_keeps host _ _ _ image hP

theorem protectSegments_contents {host : Host} {image : Elf32Image} {s t : State}
    (h : (protectSegments host image).run s = .ok () t) : t.contents = s.contents :=
  ((protectSegments_keeps host image (P := fun _ => True) fun _ _ _ _ => trivial).of_ok h).2

theorem setSegmentsWritable_contents {host : Host} {image : Elf32Image} {s t : State}
    (h : (setSegmentsWritable host image).run s = .ok () t) : t.contents = s.contents :=
  ((setSegmentsWritable_keeps host image (P := fun _ => True) fun _ _ _ _ => trivial).of_ok h).2

/-! ## What the checks give -/

theorem isPowerOfTwo_of_validPageSize {pageSize : Int32} (h : validPageSize pageSize) :
    pageSize.toUInt32.toNat.isPowerOfTwo := by
  obtain ⟨hpos, hand⟩ := h
  have hne : pageSize.toUInt32.toNat ≠ 0 := by
    intro hzero
    have heq : pageSize.toUInt32 = 0 := UInt32.toNat_inj.mp hzero
    obtain ⟨bits⟩ := pageSize
    change bits = 0 at heq
    subst heq
    exact absurd hpos (by decide)
  rw [← Nat.and_sub_one_eq_zero_iff_isPowerOfTwo hne]
  have hsub : (pageSize.toUInt32 - 1).toNat = pageSize.toUInt32.toNat - 1 :=
    UInt32.toNat_sub_of_le _ _ (UInt32.le_iff_toNat_le.mpr (Nat.pos_of_ne_zero hne))
  rw [← hsub, ← UInt32.toNat_and, hand]
  rfl

/-- The numbers behind an accepted segment: neither its end nor the end's round-up wraps. -/
structure Accepted (fileSize : Nat) (pageSize : UInt32) (segment : Elf32Phdr) (stop : UInt32) :
    Prop where
  filesz_le : segment.filesz.toNat ≤ segment.memsz.toNat
  in_file : segment.offset.toNat + segment.filesz.toNat ≤ fileSize
  end_toNat : (segment.vaddr + segment.memsz).toNat = segment.vaddr.toNat + segment.memsz.toNat
  aligned : pageSize.toNat ∣ stop.toNat
  le_stop : segment.vaddr.toNat + segment.memsz.toNat ≤ stop.toNat
  stop_lt : stop.toNat < segment.vaddr.toNat + segment.memsz.toNat + pageSize.toNat

theorem segmentEnd_eq_some {fileSize : Nat} {pageSize : UInt32} {segment : Elf32Phdr}
    {stop : UInt32} (hpage : pageSize.toNat.isPowerOfTwo)
    (h : segmentEnd fileSize pageSize segment = some stop) :
    Accepted fileSize pageSize segment stop := by
  unfold segmentEnd at h
  split at h
  · cases h
  · rename_i hchecks
    simp only [not_or, not_not, UInt32.not_lt, gt_iff_lt] at hchecks
    obtain ⟨hfilesz, hmemsz, hoffset, hlength⟩ := hchecks
    have hle : segment.memsz.toNat ≤ (0xffffffff - segment.vaddr).toNat :=
      UInt32.le_iff_toNat_le.mp hmemsz
    have hsub : (0xffffffff - segment.vaddr).toNat = 0xffffffff - segment.vaddr.toNat :=
      UInt32.toNat_sub_of_le _ _ (UInt32.le_iff_toNat_le.mpr (by
        have := segment.vaddr.toNat_lt
        show segment.vaddr.toNat ≤ 4294967295
        omega))
    have hend : (segment.vaddr + segment.memsz).toNat =
        segment.vaddr.toNat + segment.memsz.toNat := by
      have := segment.vaddr.toNat_lt
      rw [UInt32.toNat_add, Nat.mod_eq_of_lt (by omega)]
    obtain ⟨hdvd, hstop, hlt, -⟩ := alignUp_eq_some hpage h
    rw [hend] at hstop hlt
    exact ⟨UInt32.le_iff_toNat_le.mp hfilesz, by omega, hend, hdvd, hstop, hlt⟩

/-- The segment's pages are between the extent's bounds. -/
def Extent.Covers (fileSize : Nat) (pageSize : UInt32) (extent : Extent) (segment : Elf32Phdr) :
    Prop :=
  ∃ stop, Accepted fileSize pageSize segment stop ∧
    extent.minimum.toNat ≤ (alignDown segment.vaddr pageSize).toNat ∧
    stop.toNat ≤ extent.maximum.toNat

/-- One extent is inside another one. -/
def Extent.Within (inner outer : Extent) : Prop :=
  outer.minimum.toNat ≤ inner.minimum.toNat ∧ inner.maximum.toNat ≤ outer.maximum.toNat

/-- The lower bound is the start of a page once a segment has been seen. -/
def Extent.AlignedTo (pageSize : UInt32) (extent : Extent) : Prop :=
  extent.minimum = 0xffffffff ∨ pageSize.toNat ∣ extent.minimum.toNat

section Scan

variable {path : CString} {fileSize : Nat} {pageSize : UInt32} {extent result : Extent}

theorem Extent.widen_eq_ok {segment : Elf32Phdr} (hpage : pageSize.toNat.isPowerOfTwo)
    (h : extent.widen path fileSize pageSize segment = .ok result) :
    extent.Within result ∧ (extent.AlignedTo pageSize → result.AlignedTo pageSize) ∧
      (segment.type = ptLoad → result.Covers fileSize pageSize segment) := by
  unfold Extent.widen at h
  split at h
  · rename_i htype
    cases h
    exact ⟨⟨le_rfl, le_rfl⟩, id, fun hload => absurd hload htype⟩
  · obtain ⟨stop, hstop, hresult⟩ := bind_eq_ok.mp h
    have haccepted := segmentEnd_eq_some hpage (require_eq_ok.mp hstop)
    cases hresult
    have hdown := dvd_alignDown hpage segment.vaddr
    simp only [Extent.Within, Extent.AlignedTo, Extent.Covers, UInt32.lt_iff_toNat_lt,
      gt_iff_lt]
    refine ⟨⟨?_, ?_⟩, fun haligned => ?_, fun _ => ⟨stop, haccepted, ?_, ?_⟩⟩
    all_goals split <;> omega

theorem Extent.foldlM_widen_eq_ok {segments : List Elf32Phdr}
    (hpage : pageSize.toNat.isPowerOfTwo)
    (h : segments.foldlM (Extent.widen path fileSize pageSize) extent = .ok result) :
    extent.Within result ∧ (extent.AlignedTo pageSize → result.AlignedTo pageSize) ∧
      ∀ segment ∈ segments, segment.type = ptLoad →
        result.Covers fileSize pageSize segment := by
  induction segments generalizing extent with
  | nil =>
    cases h
    exact ⟨⟨le_rfl, le_rfl⟩, id, fun _ hmem => absurd hmem List.not_mem_nil⟩
  | cons segment segments ih =>
    obtain ⟨next, hnext, hrest⟩ := bind_eq_ok.mp h
    obtain ⟨hwithin, haligned, hcovers⟩ := Extent.widen_eq_ok hpage hnext
    obtain ⟨hwithin', haligned', hall⟩ := ih hrest
    refine ⟨⟨hwithin'.1.trans hwithin.1, hwithin.2.trans hwithin'.2⟩, haligned' ∘ haligned, ?_⟩
    intro other hmem hload
    rcases List.mem_cons.mp hmem with rfl | hmem
    · obtain ⟨stop, haccepted, hmin, hmax⟩ := hcovers hload
      exact ⟨stop, haccepted, hwithin'.1.trans hmin, hmax.trans hwithin'.2⟩
    · exact hall other hmem hload

/-- Both bounds are a segment's, unless the scan has left them as they were. -/
theorem Extent.foldlM_widen_bounds {segments : List Elf32Phdr}
    (h : segments.foldlM (Extent.widen path fileSize pageSize) extent = .ok result) :
    (result.minimum = extent.minimum ∨ ∃ segment ∈ segments, segment.type = ptLoad ∧
        result.minimum = alignDown segment.vaddr pageSize) ∧
      (result.maximum = extent.maximum ∨ ∃ segment ∈ segments, segment.type = ptLoad ∧
        segmentEnd fileSize pageSize segment = some result.maximum) := by
  induction segments generalizing extent with
  | nil =>
    cases h
    exact ⟨.inl rfl, .inl rfl⟩
  | cons segment segments ih =>
    obtain ⟨next, hnext, hrest⟩ := bind_eq_ok.mp h
    obtain ⟨hminimum, hmaximum⟩ := ih hrest
    have hstep : (next.minimum = extent.minimum ∨ segment.type = ptLoad ∧
          next.minimum = alignDown segment.vaddr pageSize) ∧
        (next.maximum = extent.maximum ∨ segment.type = ptLoad ∧
          segmentEnd fileSize pageSize segment = some next.maximum) := by
      unfold Extent.widen at hnext
      split at hnext
      · cases hnext
        exact ⟨.inl rfl, .inl rfl⟩
      · rename_i htype
        obtain ⟨stop, hstop, hfields⟩ := bind_eq_ok.mp hnext
        cases hfields
        have hsegment := require_eq_ok.mp hstop
        have hload := not_not.mp htype
        grind
    refine ⟨?_, ?_⟩
    · rcases hminimum with hsame | ⟨other, hmem, hother⟩
      · rw [hsame]
        exact hstep.1.imp id fun hfirst => ⟨segment, List.mem_cons_self .., hfirst⟩
      · exact .inr ⟨other, List.mem_cons_of_mem _ hmem, hother⟩
    · rcases hmaximum with hsame | ⟨other, hmem, hother⟩
      · rw [hsame]
        exact hstep.2.imp id fun hlast => ⟨segment, List.mem_cons_self .., hlast⟩
      · exact .inr ⟨other, List.mem_cons_of_mem _ hmem, hother⟩

end Scan

/-- What a plan has been checked for. -/
structure LoadPlan.Valid (host : Host) (path : CString) (plan : LoadPlan) : Prop where
  content : host.openFile path = .ok plan.content
  headers : plan.headers = fileProgramHeaders plan.content (Elf32Ehdr.ofBytes plan.content)
  page : host.pageSize.toUInt32.toNat.isPowerOfTwo
  aligned : host.pageSize.toUInt32.toNat ∣ plan.extent.minimum.toNat
  nonempty : plan.extent.minimum.toNat < plan.extent.maximum.toNat
  covers : ∀ segment ∈ plan.headers, segment.type = ptLoad →
    plan.extent.Covers plan.content.length host.pageSize.toUInt32 segment
  first : ∃ segment ∈ plan.headers, segment.type = ptLoad ∧
    plan.extent.minimum = alignDown segment.vaddr host.pageSize.toUInt32
  last : ∃ segment ∈ plan.headers, segment.type = ptLoad ∧
    segmentEnd plan.content.length host.pageSize.toUInt32 segment = some plan.extent.maximum

theorem openInput_eq_ok {host : Host} {path : CString} {content : List UInt8}
    (h : openInput host path = .ok content) : host.openFile path = .ok content := by
  obtain ⟨opened, hopened, hchecks⟩ := bind_eq_ok.mp h
  obtain ⟨_, _, hchecks⟩ := bind_eq_ok.mp hchecks
  obtain ⟨_, _, hchecks⟩ := bind_eq_ok.mp hchecks
  obtain ⟨_, _, hchecks⟩ := bind_eq_ok.mp hchecks
  cases hchecks
  cases hopen : host.openFile path with
  | error errno => simp [hopen, Except.mapError] at hopened
  | ok bytes => simpa [hopen, Except.mapError] using hopened

theorem readPlan_eq_ok {host : Host} {path : CString} {plan : LoadPlan}
    (h : readPlan host path = .ok plan) : plan.Valid host path := by
  obtain ⟨content, hcontent, hchecks⟩ := bind_eq_ok.mp h
  obtain ⟨_, _, hchecks⟩ := bind_eq_ok.mp hchecks
  obtain ⟨_, _, hchecks⟩ := bind_eq_ok.mp hchecks
  obtain ⟨_, _, hchecks⟩ := bind_eq_ok.mp hchecks
  obtain ⟨_, hpage, hchecks⟩ := bind_eq_ok.mp hchecks
  obtain ⟨extent, hextent, hchecks⟩ := bind_eq_ok.mp hchecks
  obtain ⟨_, hbounds, hchecks⟩ := bind_eq_ok.mp hchecks
  cases hchecks
  have hpower := isPowerOfTwo_of_validPageSize (check_eq_ok.mp hpage)
  obtain ⟨hmin, hlt⟩ := check_eq_ok.mp hbounds
  obtain ⟨-, haligned, hcovers⟩ := Extent.foldlM_widen_eq_ok hpower hextent
  obtain ⟨hfirst, hlast⟩ := Extent.foldlM_widen_bounds hextent
  have hmax : extent.maximum ≠ 0 := by
    intro hzero
    rw [hzero] at hlt
    exact UInt32.not_lt_zero hlt
  exact {
    content := openInput_eq_ok hcontent
    headers := rfl
    page := hpower
    aligned := (haligned (.inl rfl)).resolve_left hmin
    nonempty := UInt32.lt_iff_toNat_lt.mp hlt
    covers := hcovers
    first := hfirst.resolve_left hmin
    last := hlast.resolve_left hmax }

theorem LoadPlan.Valid.size_toNat {host : Host} {path : CString} {plan : LoadPlan}
    (h : plan.Valid host path) :
    plan.size.toNat = plan.extent.maximum.toNat - plan.extent.minimum.toNat :=
  UInt32.toNat_sub_of_le _ _ (UInt32.le_iff_toNat_le.mpr h.nonempty.le)

/-! ## Inside the reservation -/

/-- The call stays inside the reservation and the file. A protection change outside the
preparation loop is free, and nothing is reserved or released. -/
def Call.Inside (fileSize : Nat) (mapping size : UInt32) : Call → Prop
  | .memcpy target source length =>
    mapping.toNat ≤ target.toNat ∧ target.toNat + length.toNat ≤ mapping.toNat + size.toNat ∧
      source.toNat + length.toNat ≤ fileSize
  | .mprotect .prepare start length _ _ =>
    mapping.toNat ≤ start.toNat ∧ start.toNat + length.toNat ≤ mapping.toNat + size.toNat
  | .mprotect .. => True
  | .reserve .. => False
  | .munmap .. => False

/-- Moved by the load bias, an address keeps its distance from the lower bound. -/
theorem loadBias_add_toNat {mapping minimum x : UInt32} (hmin : minimum.toNat ≤ x.toNat)
    (hlt : mapping.toNat + (x.toNat - minimum.toNat) < 2 ^ 32) :
    (mapping - minimum + x).toNat = mapping.toNat + (x.toNat - minimum.toNat) := by
  have := minimum.toNat_lt
  rw [UInt32.toNat_add, UInt32.toNat_sub]
  omega

section Inside

variable {host : Host} {path : CString} {plan : LoadPlan} {mapping : UInt32}
  {segment : Elf32Phdr} (hplan : plan.Valid host path)
  (hreserve : host.reserve plan.size = .ok mapping)
  (hcovers : plan.extent.Covers plan.content.length host.pageSize.toUInt32 segment)

include hplan hreserve hcovers

theorem copy_inside (hfilesz : segment.filesz ≠ 0) :
    (Call.memcpy ((plan.image host path mapping).loadBias + segment.vaddr) segment.offset
      segment.filesz).Inside plan.content.length mapping plan.size := by
  obtain ⟨stop, haccepted, hmin, hmax⟩ := hcovers
  have hfits := host.reserve_fits hreserve
  have hsize := hplan.size_toNat
  have hdown := alignDown_le hplan.page segment.vaddr
  have hle := haccepted.filesz_le
  have hstop := haccepted.le_stop
  have hpos : 0 < segment.filesz.toNat :=
    Nat.pos_of_ne_zero fun hzero => hfilesz (UInt32.toNat_inj.mp hzero)
  have htarget : ((plan.image host path mapping).loadBias + segment.vaddr).toNat =
      mapping.toNat + (segment.vaddr.toNat - plan.extent.minimum.toNat) :=
    loadBias_add_toNat (by omega) (by omega)
  have hfile := haccepted.in_file
  simp only [Call.Inside, htarget]
  refine ⟨?_, ?_, ?_⟩ <;> omega

omit hcovers in
/-- Moved by the load bias, the end of a segment rounds up to where the end of its last page
is moved. At the top of the address space both have wrapped to 0. -/
theorem mapped_stop_toNat {last stop : UInt32}
    (haccepted : Accepted plan.content.length host.pageSize.toUInt32 segment last)
    (hmin : plan.extent.minimum.toNat ≤ segment.vaddr.toNat)
    (hmax : last.toNat ≤ plan.extent.maximum.toNat)
    (hstop : alignUp ((plan.image host path mapping).loadBias + segment.vaddr + segment.memsz)
      host.pageSize.toUInt32 = some stop) :
    stop.toNat = mapping.toNat + (last.toNat - plan.extent.minimum.toNat) ∨
      stop.toNat = 0 ∧ mapping.toNat + (last.toNat - plan.extent.minimum.toNat) = 2 ^ 32 := by
  have hfits := host.reserve_fits hreserve
  have hsize := hplan.size_toNat
  have hlast := haccepted.le_stop
  have hend := haccepted.end_toNat
  have hassoc : (plan.image host path mapping).loadBias + segment.vaddr + segment.memsz =
      mapping - plan.extent.minimum + (segment.vaddr + segment.memsz) :=
    UInt32.add_assoc _ _ _
  rw [hassoc] at hstop
  obtain ⟨hdvd, hle, hlt, hroom⟩ := alignUp_eq_some hplan.page hstop
  rcases Nat.lt_or_ge (mapping.toNat + (segment.vaddr.toNat + segment.memsz.toNat -
      plan.extent.minimum.toNat)) (2 ^ 32) with hbelow | htop
  · left
    have hvalue : (mapping - plan.extent.minimum + (segment.vaddr + segment.memsz)).toNat =
        mapping.toNat + ((segment.vaddr + segment.memsz).toNat - plan.extent.minimum.toNat) :=
      loadBias_add_toNat (by omega) (by omega)
    have hmapped : host.pageSize.toUInt32.toNat ∣
        mapping.toNat + (last.toNat - plan.extent.minimum.toNat) :=
      Nat.dvd_add (host.reserve_aligned hreserve) (Nat.dvd_sub haccepted.aligned hplan.aligned)
    have := haccepted.stop_lt
    exact multiple_unique hdvd hmapped hle hlt (by omega) (by omega)
  · right
    have hvalue :
        (mapping - plan.extent.minimum + (segment.vaddr + segment.memsz)).toNat = 0 := by
      have := plan.extent.minimum.toNat_lt
      rw [UInt32.toNat_add, UInt32.toNat_sub]
      omega
    exact ⟨Nat.eq_zero_of_dvd_of_lt hdvd (by omega), by omega⟩

omit hcovers in
/-- The pages of a segment, moved by the load bias. -/
theorem mapped_pages_toNat {last stop : UInt32}
    (haccepted : Accepted plan.content.length host.pageSize.toUInt32 segment last)
    (hmin : plan.extent.minimum.toNat ≤
      (alignDown segment.vaddr host.pageSize.toUInt32).toNat)
    (hmax : last.toNat ≤ plan.extent.maximum.toNat) (hmemsz : segment.memsz ≠ 0)
    (hstop : alignUp ((plan.image host path mapping).loadBias + segment.vaddr + segment.memsz)
      host.pageSize.toUInt32 = some stop) :
    ((plan.image host path mapping).loadBias +
        alignDown segment.vaddr host.pageSize.toUInt32).toNat =
      mapping.toNat + ((alignDown segment.vaddr host.pageSize.toUInt32).toNat -
        plan.extent.minimum.toNat) ∧
    (stop - ((plan.image host path mapping).loadBias +
        alignDown segment.vaddr host.pageSize.toUInt32)).toNat =
      last.toNat - (alignDown segment.vaddr host.pageSize.toUInt32).toNat := by
  have hfits := host.reserve_fits hreserve
  have hsize := hplan.size_toNat
  have hdown := alignDown_le hplan.page segment.vaddr
  have hlast := haccepted.le_stop
  have hlt := last.toNat_lt
  have hpos : 0 < segment.memsz.toNat :=
    Nat.pos_of_ne_zero fun hzero => hmemsz (UInt32.toNat_inj.mp hzero)
  have hstart : ((plan.image host path mapping).loadBias +
        alignDown segment.vaddr host.pageSize.toUInt32).toNat =
      mapping.toNat + ((alignDown segment.vaddr host.pageSize.toUInt32).toNat -
        plan.extent.minimum.toNat) :=
    loadBias_add_toNat hmin (by omega)
  refine ⟨hstart, ?_⟩
  rw [UInt32.toNat_sub, hstart]
  rcases mapped_stop_toNat hplan hreserve haccepted (by omega) hmax hstop with h | ⟨h, htop⟩
  · omega
  · omega

theorem prepare_inside (hmemsz : segment.memsz ≠ 0) {stop : UInt32} (bits : UInt32) (ok : Bool)
    (hstop : alignUp ((plan.image host path mapping).loadBias + segment.vaddr + segment.memsz)
      host.pageSize.toUInt32 = some stop) :
    (Call.mprotect .prepare ((plan.image host path mapping).loadBias +
        alignDown segment.vaddr host.pageSize.toUInt32)
      (stop - ((plan.image host path mapping).loadBias +
        alignDown segment.vaddr host.pageSize.toUInt32)) bits ok).Inside
      plan.content.length mapping plan.size := by
  obtain ⟨last, haccepted, hmin, hmax⟩ := hcovers
  obtain ⟨hstart, hlength⟩ :=
    mapped_pages_toNat hplan hreserve haccepted hmin hmax hmemsz hstop
  have hsize := hplan.size_toNat
  have hdown := alignDown_le hplan.page segment.vaddr
  have hlast := haccepted.le_stop
  simp only [Call.Inside, hstart, hlength]
  refine ⟨?_, ?_⟩ <;> omega

end Inside

/-! ## The calls of a mapping -/

/-- Where the image is. -/
def Elf32Image.placement (image : Elf32Image) : UInt32 × UInt32 × UInt32 :=
  (image.mapping, image.mappingSize, image.loadBias)

theorem prepareSegment_keeps {host : Host} {path : CString} {plan : LoadPlan} {mapping : UInt32}
    {segment : Elf32Phdr} (hplan : plan.Valid host path)
    (hreserve : host.reserve plan.size = .ok mapping) (index : Nat)
    (hcovers : segment.type = ptLoad →
      plan.extent.Covers plan.content.length host.pageSize.toUInt32 segment) :
    Command.Leaves (Keeps (Call.Inside plan.content.length mapping plan.size) State.image)
      (prepareSegment host path plan.content (plan.image host path mapping) index segment) := by
  unfold prepareSegment
  split
  · rename_i hload
    obtain ⟨htype, hmemsz⟩ := hload
    refine Command.leaves_bind (Command.leaves_lift _) fun stop _ s hstop => ?_
    have halign := require_eq_ok.mp (Command.run_lift_eq_ok.mp hstop).1
    refine Command.leaves_bind (fun u => ?_) (fun _ _ u _ => ?_) s
    · refine (mprotect_keeps host _ (fun ok => ?_) u).mono (fun _ h => h) fun h => ?_
      · exact prepare_inside hplan hreserve (hcovers htype) hmemsz _ ok halign
      · exact congrArg (·.2.1) h
    · split
      · rename_i hfilesz
        exact ⟨⟨_, rfl, by simpa using copy_inside hplan hreserve (hcovers htype) hfilesz⟩, rfl⟩
      · exact Command.leaves_pure () u
  · exact Command.leaves_pure ()

theorem updateImage_keeps {P : Call → Prop} {f : Memory → Elf32Image → Except Failure Elf32Image}
    (hf : ∀ m image next, f m image = .ok next → next.placement = image.placement) :
    Command.Leaves (Keeps P fun s => (s.memory, s.image.placement)) (updateImage f) := by
  intro s
  simp only [updateImage, EStateM.run]
  split
  · rename_i next hnext
    exact ⟨⟨[], by simp, by simp⟩, Prod.ext rfl (hf _ _ _ hnext)⟩
  · exact refl_of _ s

theorem mappedHeaders_placement {header : Elf32Ehdr} {m : Memory} {image next : Elf32Image}
    (h : mappedHeaders header m image = .ok next) : next.placement = image.placement := by
  obtain ⟨_, _, hnext⟩ := bind_eq_ok.mp h
  cases hnext
  rfl

/-- What the steps after the program headers set. -/
theorem findDynamic_eq_ok {m : Memory} {image next : Elf32Image}
    (h : findDynamic m image = .ok next) :
    ∃ dynamic count, next = { image with dynamic := dynamic, dynamicCount := count } := by
  obtain ⟨found, hfound, hcheck⟩ := bind_eq_ok.mp h
  obtain ⟨_, _, hnext⟩ := bind_eq_ok.mp hcheck
  cases hnext
  unfold scanHeaders at hfound
  dsimp only at hfound
  split at hfound
  · cases hfound
    exact ⟨_, _, rfl⟩
  · obtain ⟨_, _, hnext⟩ := bind_eq_ok.mp hfound
    cases hnext
    exact ⟨_, _, rfl⟩

theorem parseDynamic_eq_ok {m : Memory} {image next : Elf32Image}
    (h : parseDynamic m image = .ok next) :
    ∃ table size soname, next =
      { image with stringTable := table, stringTableSize := size, soname := soname } := by
  obtain ⟨_, _, h⟩ := bind_eq_ok.mp h
  obtain ⟨_, _, h⟩ := bind_eq_ok.mp h
  obtain ⟨_, _, h⟩ := bind_eq_ok.mp h
  obtain ⟨_, _, h⟩ := bind_eq_ok.mp h
  cases h
  exact ⟨_, _, _, rfl⟩

theorem parseDynamic_strings {m : Memory} {image next : Elf32Image}
    (h : parseDynamic m image = .ok next) :
    rangeInImage next next.stringTable next.stringTableSize := by
  obtain ⟨_, _, h⟩ := bind_eq_ok.mp h
  obtain ⟨_, _, h⟩ := bind_eq_ok.mp h
  obtain ⟨_, hrange, h⟩ := bind_eq_ok.mp h
  obtain ⟨_, _, h⟩ := bind_eq_ok.mp h
  cases h
  exact (check_eq_ok.mp hrange).2.2

theorem findDynamic_placement {m : Memory} {image next : Elf32Image}
    (h : findDynamic m image = .ok next) : next.placement = image.placement := by
  obtain ⟨_, _, rfl⟩ := findDynamic_eq_ok h
  rfl

theorem parseDynamic_placement {m : Memory} {image next : Elf32Image}
    (h : parseDynamic m image = .ok next) : next.placement = image.placement := by
  obtain ⟨_, _, _, rfl⟩ := parseDynamic_eq_ok h
  rfl

theorem completeImage_keeps (host : Host) (header : Elf32Ehdr) {P : Call → Prop}
    (hP : ∀ start length bits ok, P (.mprotect .protect start length bits ok)) :
    Command.Leaves (Keeps P fun s => (s.memory, s.image.placement))
      (completeImage host header) := by
  refine Command.leaves_bind (updateImage_keeps fun _ _ _ => mappedHeaders_placement)
    fun _ _ s _ => ?_
  refine Command.leaves_bind (updateImage_keeps fun _ _ _ => findDynamic_placement)
    (fun _ _ t _ => ?_) s
  refine Command.leaves_bind (updateImage_keeps fun _ _ _ => parseDynamic_placement)
    (fun _ _ u _ => ?_) t
  rw [Command.run_get_bind]
  refine (protectSegments_keeps host u.image hP u).mono (fun _ h => h) ?_
  intro h
  exact congrArg (fun contents => (contents.1, contents.2.1.placement)) h

/-- From the reservation on: the image is where the reservation is, and every call since has
stayed inside it. -/
structure Reserved (host : Host) (path : CString) (plan : LoadPlan) (mapping : UInt32)
    (s t : State) : Prop where
  plan_eq : readPlan host path = .ok plan
  reserve_eq : host.reserve plan.size = .ok mapping
  placement_eq : t.image.placement = (plan.image host path mapping).placement
  inside : ∃ made, t.calls = s.calls ++ .reserve mapping plan.size :: made ∧
    ∀ c ∈ made, c.Inside plan.content.length mapping plan.size

section Run

variable {host : Host} {path : CString} {plan : LoadPlan} {mapping : UInt32}

theorem prepareSegments_keeps (hplan : plan.Valid host path)
    (hreserve : host.reserve plan.size = .ok mapping) :
    Command.Leaves (Keeps (Call.Inside plan.content.length mapping plan.size) State.image)
      (prepareSegments host path plan (plan.image host path mapping)) :=
  Command.leaves_forM fun _ hmem => prepareSegment_keeps hplan hreserve _
    (hplan.covers _ (List.fst_mem_of_mem_zipIdx hmem))

theorem afterReserve_keeps (hplan : plan.Valid host path)
    (hreserve : host.reserve plan.size = .ok mapping) :
    Command.Leaves (Keeps (Call.Inside plan.content.length mapping plan.size)
      fun s => s.image.placement)
      (prepareSegments host path plan (plan.image host path mapping) >>= fun _ =>
        completeImage host plan.header) := by
  refine Command.leaves_bind (fun s => ?_) fun _ _ t _ => ?_
  · refine (prepareSegments_keeps hplan hreserve s).mono (fun _ h => h) ?_
    intro h
    exact congrArg Elf32Image.placement h
  · refine (completeImage_keeps host plan.header (fun _ _ _ _ => trivial) t).mono
      (fun _ h => h) ?_
    intro h
    exact congrArg Prod.snd h

/-- The state after the reservation. -/
def State.reserve (s : State) (image : Elf32Image) : State :=
  { s with
    memory := s.memory.zeroFill image.mapping image.mappingSize.toNat
    image := image
    calls := s.calls ++ [.reserve image.mapping image.mappingSize] }

theorem reserveImage_error {errno : CString} (hreserve : host.reserve plan.size = .error errno)
    (s : State) : (reserveImage host path plan).run s =
      .error (setError "reserve image %s: %s" [.text path, .text errno]) s := by
  simp only [EStateM.run, reserveImage, hreserve]

theorem reserveImage_run (hreserve : host.reserve plan.size = .ok mapping) (s : State) :
    (reserveImage host path plan).run s =
      .ok (plan.image host path mapping) (s.reserve (plan.image host path mapping)) := by
  simp only [EStateM.run, reserveImage, hreserve]
  rfl

/-- A mapping has either done nothing, or it is from the reservation on. -/
theorem mapFile_final (host : Host) (path : CString) (s : State) :
    (∃ failure, (mapFile host path).run s = .error failure s) ∨
      ∃ plan mapping, Reserved host path plan mapping s
        (Command.final ((mapFile host path).run s)) := by
  unfold mapFile
  cases hplan : readPlan host path with
  | error failure => exact .inl ⟨failure, rfl⟩
  | ok plan =>
    rw [Command.run_lift_ok_bind, EStateM.run_bind]
    cases hreserve : host.reserve plan.size with
    | error errno =>
      rw [reserveImage_error hreserve]
      exact .inl ⟨_, rfl⟩
    | ok mapping =>
      rw [reserveImage_run hreserve]
      obtain ⟨⟨made, hmade, hinside⟩, himage⟩ := afterReserve_keeps (readPlan_eq_ok hplan)
        hreserve (s.reserve (plan.image host path mapping))
      refine .inr ⟨plan, mapping, hplan, hreserve, himage, made, ?_, hinside⟩
      exact hmade.trans (List.append_assoc _ [_] made)

end Run

end NfsmwRuntime.Loader
