import NfsmwRuntime.Loader.Accesses

/-!
# The tables of a file

The tables that the loader reads, in the addresses that the file itself gives them: the program
headers, the dynamic table, the count in the hash table, the symbols with their names, and the
relocation entries with the words that they patch. In an image each of them is moved by the
load bias, so the file says which addresses will be accessed, and which of its pages a segment
has.
-/

namespace NfsmwRuntime.Loader

open Library

/-! ## Tables -/

/-- Some bytes of a file's image. -/
structure Table where
  start : UInt32
  length : Nat

def Table.addresses (table : Table) : Set UInt32 := span table.start table.length

/-- The addresses of some tables. -/
def addressesOf (tables : List Table) : Set UInt32 := {v | ∃ table ∈ tables, v ∈ table.addresses}

section File

variable (content : List UInt8)

/-- The first `PT_DYNAMIC` of a file. -/
def fileDynamic : Option Elf32Phdr :=
  (programHeadersOf content).find? fun segment => segment.type == ptDynamic

/-- The dynamic table before `DT_NULL`, as the segments put it in memory. -/
def fileEntries : List Elf32Dyn :=
  match fileDynamic content with
  | none => []
  | some segment =>
    ((List.range (segment.memsz / 8).toNat).map
      (dynamicEntry (fileImage content) segment.vaddr)).takeWhile fun entry => entry.tag != dtNull

/-- The value of the last entry with a tag, 0 without one. -/
def fileTag (tag : UInt32) : UInt32 := (lastValue tag (fileEntries content)).getD 0

/-- The tables of symbols and relocations that the last entries name. -/
def fileInfo : Elf32DynamicInfo where
  symbols := fileTag content dtSymtab
  symbolCount := (fileImage content).load32 (fileTag content dtHash + .ofNat 4)
  relocations := fileTag content dtRel
  relocationCount := fileTag content dtRelsz / 8
  pltRelocations := fileTag content dtJmprel
  pltRelocationCount := fileTag content dtPltrelsz / 8

def fileSymbol : Nat → Elf32Sym := symbolEntry (fileImage content) (fileInfo content).symbols

def fileRelocation (place : UInt32 × Nat) : Elf32Rel :=
  relocationEntry (fileImage content) place.1 place.2

def headerTable : Table where
  start := (Elf32Ehdr.ofBytes content).phoff
  length := Elf32Phdr.size * (Elf32Ehdr.ofBytes content).phnum.toNat

/-- The second word of `DT_HASH`, the number of symbols. -/
def hashWord : Table := ⟨fileTag content dtHash + .ofNat 4, 4⟩

def symbolTable : Table where
  start := (fileInfo content).symbols
  length := Elf32Sym.size * (fileInfo content).symbolCount.toNat

def stringTable : Table := ⟨fileTag content dtStrtab, (fileTag content dtStrsz).toNat⟩

def relTable : Table where
  start := (fileInfo content).relocations
  length := Elf32Rel.size * (fileInfo content).relocationCount.toNat

def pltTable : Table where
  start := (fileInfo content).pltRelocations
  length := Elf32Rel.size * (fileInfo content).pltRelocationCount.toNat

/-- The dynamic table of the first `PT_DYNAMIC`. -/
def dynamicTables : List Table :=
  (fileDynamic content).toList.map fun segment =>
    ⟨segment.vaddr, Elf32Dyn.size * (segment.memsz / 8).toNat⟩

/-- The dynamic table with its `DT_NULL`, and not what follows it. -/
def dynamicPrefix : List Table :=
  (fileDynamic content).toList.map fun segment =>
    ⟨segment.vaddr, Elf32Dyn.size * ((fileEntries content).length + 1)⟩

/-- All that the addresses of accesses are read from. -/
def lookupTables : List Table :=
  headerTable content :: dynamicTables content ++
    [hashWord content, symbolTable content, stringTable content, relTable content,
      pltTable content]

def symbolRecord (index : UInt32) : Table where
  start := (fileInfo content).symbols + .ofNat (Elf32Sym.size * index.toNat)
  length := Elf32Sym.size

/-- A symbol's name with its terminator. -/
def symbolName (symbol : Elf32Sym) : Table where
  start := fileTag content dtStrtab + symbol.name
  length := nameLength (fileImage content) (fileTag content dtStrtab) (fileTag content dtStrsz)
    symbol.name

/-- The word that an entry patches, and the symbol that it names. -/
def placeTables (place : UInt32 × Nat) : List Table :=
  let relocation := fileRelocation content place
  ⟨relocation.offset, 4⟩ ::
    if namesSymbol relocation.type then
      [symbolRecord content relocation.symbol,
        symbolName content (fileSymbol content relocation.symbol.toNat)]
    else []

/-! ## What the functions of the loader access -/

/-- What `elf32_map` reads of the mapped image. -/
def mapTables : List Table := headerTable content :: dynamicPrefix content

def candidateNames : List Table :=
  (((List.range (fileInfo content).symbolCount.toNat).map (fileSymbol content)).filter
    fun symbol => symbol.candidate (fileTag content dtStrsz)).map (symbolName content)

/-- What `elf32_find_export` reads. -/
def exportTables : List Table :=
  dynamicPrefix content ++ hashWord content :: symbolTable content :: candidateNames content

/-- What `elf32_relocate` accesses. -/
def relocateTables : List Table :=
  headerTable content :: dynamicPrefix content ++
    [hashWord content, relTable content, pltTable content] ++
    (fileInfo content).places.flatMap (placeTables content)

/-- The pages that the `PT_LOAD` segments of a file occupy. -/
def filePages (pageSize : UInt32) : Set UInt32 :=
  {v | ∃ segment ∈ programHeadersOf content, segment.type = ptLoad ∧
    v ∈ Library.pages pageSize segment.vaddr segment.memsz.toNat}

/-- Some tables lie on pages of segments. -/
def Filled (pageSize : UInt32) (tables : List Table) : Prop :=
  addressesOf tables ⊆ filePages content pageSize

/-- No relocation patches a table that says what is accessed. -/
def Untouched : Prop :=
  ∀ place ∈ (fileInfo content).places, ∀ table ∈ lookupTables content,
    Disjoint (span (fileRelocation content place).offset 4) table.addresses

/-- No page from the first to the last one of the `PT_LOAD` segments is without a segment. -/
def Gapless (pageSize : UInt32) : Prop :=
  ∀ first ∈ programHeadersOf content, first.type = ptLoad →
    ∀ last ∈ programHeadersOf content, last.type = ptLoad →
      ∀ v, (alignDown first.vaddr pageSize).toNat ≤ v.toNat →
        (alignDown v pageSize).toNat < last.vaddr.toNat + last.memsz.toNat →
        v ∈ filePages content pageSize

end File

theorem mem_addressesOf {tables : List Table} (table : Table) {v : UInt32}
    (htable : table ∈ tables) (hv : v ∈ table.addresses) : v ∈ addressesOf tables :=
  ⟨table, htable, hv⟩

/-! ## The tables in an image -/

/-- The tables are in the image as the file has them. -/
def Unchanged (content : List UInt8) (image : Elf32Image) (m : Memory) : Prop :=
  ∀ x ∈ span image.mapping image.mappingSize.toNat,
    x - image.loadBias ∈ addressesOf (lookupTables content) →
    m x = fileImage content (x - image.loadBias)

/-- Where the tables are in the image. -/
def lookupSpace (content : List UInt8) (image : Elf32Image) : Set UInt32 :=
  {x | x - image.loadBias ∈ addressesOf (lookupTables content)}

/-- What an image that has been mapped has from its file. -/
structure Linked (content : List UInt8) (image : Elf32Image) : Prop where
  mapping_ne_zero : image.mapping ≠ 0
  headers_eq : image.programHeaders = image.loadBias + (Elf32Ehdr.ofBytes content).phoff
  count_eq : image.programHeaderCount.toNat = (Elf32Ehdr.ofBytes content).phnum.toNat
  dynamic_eq : ∃ segment, fileDynamic content = some segment ∧
    image.dynamic = image.loadBias + segment.vaddr ∧ image.dynamicCount = segment.memsz / 8
  terminated : (fileEntries content).length < image.dynamicCount.toNat
  strings_eq : image.stringTable = image.loadBias + fileTag content dtStrtab
  stringsSize_eq : image.stringTableSize = fileTag content dtStrsz
  tables : TablesInside image

section Unchanged

variable {content : List UInt8} {image : Elf32Image} {m : Memory}

theorem Unchanged.congr {m' : Memory} (h : Unchanged content image m)
    (hkept : Set.EqOn m' m (lookupSpace content image)) : Unchanged content image m' :=
  fun x hx hlookup => (hkept hlookup).trans (h x hx hlookup)

theorem Linked.headerTable_subset (hl : Linked content image) :
    image.headerTable ⊆ lookupSpace content image := by
  intro x hx
  rw [Elf32Image.headerTable, hl.headers_eq, hl.count_eq, mem_span_add] at hx
  exact mem_addressesOf (headerTable content) (by simp [lookupTables]) hx

theorem Unchanged.window_eq (h : Unchanged content image m) {a : UInt32} {n : Nat}
    (hinside : span (image.loadBias + a) n ⊆ span image.mapping image.mappingSize.toNat)
    (htable : span a n ⊆ addressesOf (lookupTables content)) :
    m.window (image.loadBias + a) n = (fileImage content).window a n := by
  refine List.map_congr_left fun k hk => ?_
  have hx : image.loadBias + a + .ofNat k ∈ span (image.loadBias + a) n :=
    add_mem_span (List.mem_range.mp hk)
  have hsub : image.loadBias + a + .ofNat k - image.loadBias = a + .ofNat k := by grind
  rw [h _ (hinside hx) (htable (mem_span_add.mp hx)), hsub]

theorem Unchanged.entry_eq (h : Unchanged content image m) {α : Type} {size count index : Nat}
    {ofBytes : List UInt8 → α} {a : UInt32} (hfit : size * count ≤ 2 ^ 32)
    (hinside : span (image.loadBias + a) (size * count) ⊆
      span image.mapping image.mappingSize.toNat)
    (htable : span a (size * count) ⊆ addressesOf (lookupTables content)) (hindex : index < count) :
    tableEntry size ofBytes m (image.loadBias + a) index =
      tableEntry size ofBytes (fileImage content) a index := by
  have hrecord := record_inside hfit hinside hindex
  rw [UInt32.add_assoc] at hrecord
  rw [tableEntry, tableEntry, UInt32.add_assoc,
    h.window_eq hrecord (record_inside hfit htable hindex)]

theorem Unchanged.dynamicEntries_eq (h : Unchanged content image m) {segment : Elf32Phdr}
    (hsegment : fileDynamic content = some segment)
    (hstart : image.dynamic = image.loadBias + segment.vaddr)
    (hcount : image.dynamicCount = segment.memsz / 8)
    (hinside : span image.dynamic (Elf32Dyn.size * image.dynamicCount.toNat) ⊆
      span image.mapping image.mappingSize.toNat) :
    dynamicEntries m image = fileEntries content := by
  rw [hstart, hcount] at hinside
  have hfit : Elf32Dyn.size * (segment.memsz / 8).toNat ≤ 2 ^ 32 :=
    (div_eight_mul_le segment.memsz).trans segment.memsz.toNat_lt.le
  have htable : span segment.vaddr (Elf32Dyn.size * (segment.memsz / 8).toNat) ⊆
      addressesOf (lookupTables content) := by
    refine fun v hv => mem_addressesOf ⟨segment.vaddr, _⟩ ?_ hv
    simp [lookupTables, dynamicTables, hsegment]
  simp only [dynamicEntries, fileEntries, hsegment, hstart, hcount]
  congr 1
  exact List.map_congr_left fun index hindex =>
    h.entry_eq hfit hinside htable (List.mem_range.mp hindex)

theorem Linked.dynamicEntries_eq (hl : Linked content image) (h : Unchanged content image m) :
    dynamicEntries m image = fileEntries content := by
  obtain ⟨segment, hsegment, hstart, hcount⟩ := hl.dynamic_eq
  exact h.dynamicEntries_eq hsegment hstart hcount hl.tables.dynamic

/-- An address that the dynamic table names, if it has the tag. -/
theorem named_eq {base : UInt32} {value : Option UInt32}
    (h : (value.map (base + ·)).getD 0 ≠ 0) :
    (value.map (base + ·)).getD 0 = base + value.getD 0 := by
  cases value with
  | none => exact absurd rfl h
  | some v => rfl

theorem rangeInImage_ne_zero {address length : UInt32} (hmapping : image.mapping ≠ 0)
    (h : rangeInImage image address length) : address ≠ 0 := by
  obtain ⟨-, hstart, -⟩ := h
  rintro rfl
  exact hmapping (UInt32.le_zero_iff.mp hstart)

/-! ## Symbols and relocations -/

/-- The variables of the scan in terms of the last entries of the dynamic table. -/
theorem relocationScan_addresses (base : UInt32) (entries : List Elf32Dyn) :
    let scan := entries.foldl (RelocationScan.step base) {}
    scan.symbolAddress = ((lastValue dtSymtab entries).map (base + ·)).getD 0 ∧
      scan.hashAddress = ((lastValue dtHash entries).map (base + ·)).getD 0 ∧
      scan.relocationAddress = ((lastValue dtRel entries).map (base + ·)).getD 0 ∧
      scan.pltAddress = ((lastValue dtJmprel entries).map (base + ·)).getD 0 := by
  refine ⟨?_, ?_, ?_, ?_⟩
  · exact foldl_eq_lastValue _ RelocationScan.symbolAddress dtSymtab (base + ·)
      (by grind [RelocationScan.step]) (by grind [RelocationScan.step]) entries {}
  · exact foldl_eq_lastValue _ RelocationScan.hashAddress dtHash (base + ·)
      (by grind [RelocationScan.step, dtHash, dtSymtab, dtSyment])
      (by grind [RelocationScan.step]) entries {}
  · exact foldl_eq_lastValue _ RelocationScan.relocationAddress dtRel (base + ·)
      (by grind [RelocationScan.step, dtRel, dtHash, dtSymtab, dtSyment])
      (by grind [RelocationScan.step]) entries {}
  · exact foldl_eq_lastValue _ RelocationScan.pltAddress dtJmprel (base + ·)
      (by grind [RelocationScan.step, dtJmprel, dtRel, dtRelsz, dtRelent, dtHash, dtSymtab,
        dtSyment])
      (by grind [RelocationScan.step]) entries {}

theorem relocationScan_sizes (base : UInt32) (entries : List Elf32Dyn) :
    let scan := entries.foldl (RelocationScan.step base) {}
    scan.relocationSize = (lastValue dtRelsz entries).getD 0 ∧
      scan.pltSize = (lastValue dtPltrelsz entries).getD 0 := by
  have hrel := foldl_eq_lastValue (RelocationScan.step base) RelocationScan.relocationSize
    dtRelsz id (by grind [RelocationScan.step, dtRel, dtRelsz, dtHash, dtSymtab, dtSyment])
    (by grind [RelocationScan.step]) entries {}
  have hplt := foldl_eq_lastValue (RelocationScan.step base) RelocationScan.pltSize
    dtPltrelsz id (by grind [RelocationScan.step, dtJmprel, dtRel, dtRelsz, dtRelent, dtHash,
      dtSymtab, dtSyment, dtPltrelsz])
    (by grind [RelocationScan.step]) entries {}
  rw [Option.map_id_fun, id_eq] at hrel hplt
  exact ⟨hrel, hplt⟩

/-- The metadata that the loader has accepted is the file's, moved by the load bias. -/
structure InfoFrom (content : List UInt8) (image : Elf32Image) (info : Elf32DynamicInfo) :
    Prop where
  symbols : info.symbols = image.loadBias + (fileInfo content).symbols
  symbolCount : info.symbolCount = (fileInfo content).symbolCount
  relocationCount : info.relocationCount = (fileInfo content).relocationCount
  pltRelocationCount : info.pltRelocationCount = (fileInfo content).pltRelocationCount
  relocations : info.relocationCount ≠ 0 →
    info.relocations = image.loadBias + (fileInfo content).relocations
  pltRelocations : info.pltRelocationCount ≠ 0 →
    info.pltRelocations = image.loadBias + (fileInfo content).pltRelocations
  inside : InfoInside image info

/-- A relocation table that is not empty has an address. -/
theorem table_eq {value : Option UInt32} {address size : UInt32} (hmapping : image.mapping ≠ 0)
    (haddress : address = (value.map (image.loadBias + ·)).getD 0)
    (h : size = 0 ∨ rangeInImage image address size) (hcount : size / 8 ≠ 0) :
    address = image.loadBias + value.getD 0 := by
  have hrange := h.resolve_left (by rintro rfl; exact hcount rfl)
  rw [haddress]
  exact named_eq (haddress ▸ rangeInImage_ne_zero hmapping hrange)

theorem Linked.infoFrom (hl : Linked content image) (hu : Unchanged content image m)
    {info : Elf32DynamicInfo} (h : parseRelocationInfo m image = .ok info) :
    InfoFrom content image info := by
  have hinside := parseRelocationInfo_inside h
  have hentries := hl.dynamicEntries_eq hu
  obtain ⟨hsymbols, hhash, hrel, hplt⟩ :=
    relocationScan_addresses image.loadBias (fileEntries content)
  obtain ⟨hrelsz, hpltsz⟩ := relocationScan_sizes image.loadBias (fileEntries content)
  unfold parseRelocationInfo at h
  rw [hentries] at h
  obtain ⟨_, hmeta, h₁⟩ := bind_eq_ok.mp h
  obtain ⟨_, _, h₂⟩ := bind_eq_ok.mp h₁
  obtain ⟨_, hrelchecked, h₃⟩ := bind_eq_ok.mp h₂
  obtain ⟨_, hpltchecked, h₄⟩ := bind_eq_ok.mp h₃
  obtain ⟨hsymbols_ne, -, hhash_ne, hrange⟩ := check_eq_ok.mp hmeta
  have hreltable := (check_eq_ok.mp hrelchecked).2.2
  have hplttable := (check_eq_ok.mp hpltchecked).2.2
  cases h₄
  generalize (fileEntries content).foldl (RelocationScan.step image.loadBias) {} = scan at *
  have hhash_eq : scan.hashAddress = image.loadBias + fileTag content dtHash := by
    rw [hhash]
    exact named_eq (hhash ▸ hhash_ne)
  exact {
    symbols := hsymbols.trans (named_eq (hsymbols ▸ hsymbols_ne))
    symbolCount := by
      have hspan : span scan.hashAddress 8 ⊆ span _ _ := rangeInImage_subset hrange
      have hword : span (scan.hashAddress + .ofNat 4) 4 ⊆
          span image.mapping image.mappingSize.toNat :=
        (span_offset_subset (Nat.le_refl 8) (by decide)).trans hspan
      rw [hhash_eq, UInt32.add_assoc] at hword
      have hwindow := hu.window_eq hword fun v hv =>
        mem_addressesOf (hashWord content) (by simp [lookupTables]) hv
      rw [← UInt32.add_assoc, ← hhash_eq] at hwindow
      exact congrArg readU32 hwindow
    relocationCount := congrArg (· / 8) hrelsz
    pltRelocationCount := congrArg (· / 8) hpltsz
    relocations := table_eq hl.mapping_ne_zero hrel hreltable
    pltRelocations := table_eq hl.mapping_ne_zero hplt hplttable
    inside := hinside }

variable {info : Elf32DynamicInfo}

theorem InfoFrom.symbolEntry_eq (hi : InfoFrom content image info)
    (hu : Unchanged content image m) {index : Nat} (hindex : index < info.symbolCount.toNat) :
    symbolEntry m info.symbols index = fileSymbol content index := by
  have hinside := hi.inside.symbols
  have hfit := hi.inside.symbols_fit
  rw [hi.symbols] at hinside ⊢
  refine hu.entry_eq hfit hinside (fun v hv => ?_) hindex
  refine mem_addressesOf (symbolTable content) (by simp [lookupTables]) ?_
  rwa [hi.symbolCount] at hv

/-- The places of a table that has moved. -/
theorem map_places_eq {base table moved : UInt32} {count : UInt32}
    (h : count ≠ 0 → moved = base + table) :
    (List.range count.toNat).map (Prod.mk moved) =
      ((List.range count.toNat).map (Prod.mk table)).map
        fun place => (base + place.1, place.2) := by
  rw [List.map_map]
  refine List.map_congr_left fun index hindex => ?_
  have hne : count ≠ 0 := by
    rintro rfl
    exact absurd (List.mem_range.mp hindex) (Nat.not_lt_zero _)
  rw [h hne, Function.comp_apply]

theorem InfoFrom.places_eq (hi : InfoFrom content image info) :
    info.places = (fileInfo content).places.map fun place =>
      (image.loadBias + place.1, place.2) := by
  rw [Elf32DynamicInfo.places, Elf32DynamicInfo.places, List.map_append, ← hi.relocationCount,
    ← hi.pltRelocationCount, ← map_places_eq hi.relocations, ← map_places_eq hi.pltRelocations]

/-- An entry of one of the two tables. -/
theorem InfoFrom.relocationEntry_eq (hi : InfoFrom content image info)
    (hu : Unchanged content image m) {place : UInt32 × Nat}
    (hplace : place ∈ (fileInfo content).places) :
    relocationEntry m (image.loadBias + place.1) place.2 = fileRelocation content place := by
  rcases List.mem_append.mp hplace with hplace | hplace
  · obtain ⟨index, hindex, rfl⟩ := List.mem_map.mp hplace
    rw [List.mem_range, ← hi.relocationCount] at hindex
    have hne : info.relocationCount ≠ 0 := by
      intro hzero
      rw [hzero] at hindex
      exact absurd hindex (Nat.not_lt_zero _)
    have hinside := hi.inside.relocations
    rw [hi.relocations hne] at hinside
    refine hu.entry_eq hi.inside.relocations_fit hinside (fun v hv => ?_) hindex
    refine mem_addressesOf (relTable content) (by simp [lookupTables]) ?_
    rwa [hi.relocationCount] at hv
  · obtain ⟨index, hindex, rfl⟩ := List.mem_map.mp hplace
    rw [List.mem_range, ← hi.pltRelocationCount] at hindex
    have hne : info.pltRelocationCount ≠ 0 := by
      intro hzero
      rw [hzero] at hindex
      exact absurd hindex (Nat.not_lt_zero _)
    have hinside := hi.inside.pltRelocations
    rw [hi.pltRelocations hne] at hinside
    refine hu.entry_eq hi.inside.pltRelocations_fit hinside (fun v hv => ?_) hindex
    refine mem_addressesOf (pltTable content) (by simp [lookupTables]) ?_
    rwa [hi.pltRelocationCount] at hv

theorem Linked.nameLength_eq (hl : Linked content image) (hu : Unchanged content image m)
    {name : UInt32} (hname : name < image.stringTableSize) :
    nameLength m image.stringTable image.stringTableSize name =
      nameLength (fileImage content) (fileTag content dtStrtab) (fileTag content dtStrsz) name := by
  have hstrings := rangeInImage_subset hl.tables.strings
  have hwindow : span (fileTag content dtStrtab + name) (image.stringTableSize - name).toNat ⊆
      (stringTable content).addresses := by
    have hsubset := @nameWindow_subset
      { image with stringTable := fileTag content dtStrtab } ⟨name, 0, 0, 0⟩ hname
    rwa [hl.stringsSize_eq] at hsubset ⊢
  have hinside : span (image.loadBias + (fileTag content dtStrtab + name))
      (image.stringTableSize - name).toNat ⊆ span image.mapping image.mappingSize.toNat := by
    rw [← UInt32.add_assoc, ← hl.strings_eq]
    exact (@nameWindow_subset image ⟨name, 0, 0, 0⟩ hname).trans hstrings
  rw [nameLength, nameLength, hl.strings_eq, UInt32.add_assoc, hu.window_eq hinside fun v hv =>
    mem_addressesOf (stringTable content) (by simp [lookupTables]) (hwindow hv),
    hl.stringsSize_eq]

end Unchanged

/-! ## The tables after a mapping -/

section Mapped

variable {host : Host} {path : CString} {plan : LoadPlan} {mapping : UInt32}
  {image found : Elf32Image} {m : Memory}

theorem MappedFrom.unchanged (hm : MappedFrom host path plan mapping image m) :
    Unchanged plan.content image m := by
  intro x hx _
  rw [hm.mapping_eq, hm.size_eq] at hx
  exact hm.memory_eq x hx

/-- The dynamic table that the loader finds is the file's. -/
theorem findDynamic_file {headers : List Elf32Phdr} (hheaders : mappedTable m image = headers)
    (hzero : image.dynamic = 0) (h : findDynamic m image = .ok found) :
    ∃ segment, headers.find? (fun segment => segment.type == ptDynamic) = some segment ∧
      found.dynamic = found.loadBias + segment.vaddr ∧
      found.dynamicCount = segment.memsz / 8 := by
  obtain ⟨next, hnext, hcheck⟩ := bind_eq_ok.mp h
  obtain ⟨_, hne, hfound⟩ := bind_eq_ok.mp hcheck
  cases hfound
  unfold scanHeaders at hnext
  dsimp only at hnext
  split at hnext
  · cases hnext
    exact absurd hzero (check_eq_ok.mp hne)
  · rename_i index hindex
    obtain ⟨_, _, hfields⟩ := bind_eq_ok.mp hnext
    cases hfields
    refine ⟨programHeader m image.programHeaders index, ?_, rfl, rfl⟩
    rw [← hheaders, mappedTable, List.find?_map]
    exact congrArg (Option.map _) hindex

/-- What a loop that may fail leaves, if it has not failed. -/
theorem foldl_of_foldlM {σ α ε : Type} {step : σ → α → Except ε σ} {l : List α} {s t : σ}
    (h : l.foldlM step s = .ok t) :
    l.foldl (fun u a => (step u a).toOption.getD u) s = t := by
  induction l generalizing s with
  | nil =>
    cases h
    rfl
  | cons a l ih =>
    obtain ⟨u, hu, hrest⟩ := bind_eq_ok.mp h
    rw [List.foldl_cons, hu]
    exact ih hrest

theorem parseDynamic_file (h : parseDynamic m found = .ok image) :
    (dynamicEntries m found).length < found.dynamicCount.toNat ∧
      image.stringTable = ((lastValue dtStrtab (dynamicEntries m found)).map
        (found.loadBias + ·)).getD 0 ∧
      image.stringTableSize =
        (lastValue dtStrsz (dynamicEntries m found)).getD found.stringTableSize ∧
      image.stringTable ≠ 0 := by
  obtain ⟨scan, hscan, h₁⟩ := bind_eq_ok.mp h
  obtain ⟨_, hterminated, h₂⟩ := bind_eq_ok.mp h₁
  obtain ⟨_, hstrings, h₃⟩ := bind_eq_ok.mp h₂
  obtain ⟨_, _, h₄⟩ := bind_eq_ok.mp h₃
  cases h₄
  have hloop := foldl_of_foldlM hscan
  have haddress := foldl_eq_lastValue
    (fun u entry => (DynamicScan.step found.loadBias u entry).toOption.getD u)
    DynamicScan.stringAddress dtStrtab (found.loadBias + ·)
    (by grind [DynamicScan.step, Except.toOption])
    (by grind [DynamicScan.step, Except.toOption]) (dynamicEntries m found)
    { stringTableSize := found.stringTableSize }
  have hsize := foldl_eq_lastValue
    (fun u entry => (DynamicScan.step found.loadBias u entry).toOption.getD u)
    DynamicScan.stringTableSize dtStrsz id
    (by grind [DynamicScan.step, Except.toOption, dtStrtab, dtStrsz])
    (by grind [DynamicScan.step, Except.toOption]) (dynamicEntries m found)
    { stringTableSize := found.stringTableSize }
  rw [hloop] at haddress hsize
  rw [Option.map_id_fun, id_eq] at hsize
  exact ⟨check_eq_ok.mp hterminated, haddress, hsize, (check_eq_ok.mp hstrings).1⟩

end Mapped

end NfsmwRuntime.Loader
