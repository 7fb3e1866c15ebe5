import NfsmwRuntime.Loader.MappedHeaders
import NfsmwRuntime.Symbols.Lookup

/-!
# The provider census

`nfsmw_probe_symbols` walks the symbol tables of the mapped images and counts the provider
that each import will have. `nfsmw_relocation_probe` walks their relocation entries and asks
`relocation_lookup`. The census foresees what the relocation finds, but for the symbols that
only one of the two walkers looks at, and the exports that have no address.
-/

namespace NfsmwRuntime.Symbols

open Library Loader

/-! ## The census -/

structure DynamicSymbols where
  symbols : UInt32
  count : UInt32

/-- The variables of the loop in `dynamic_symbols`. -/
structure SymbolScan where
  symbolAddress : UInt32 := 0
  hashAddress : UInt32 := 0
  symbolSize : UInt32 := 0

def SymbolScan.step (loadBias : UInt32) (scan : SymbolScan) (entry : Elf32Dyn) : SymbolScan :=
  if entry.tag = dtSymtab then { scan with symbolAddress := loadBias + entry.val }
  else if entry.tag = dtSyment then { scan with symbolSize := entry.val }
  else if entry.tag = dtHash then { scan with hashAddress := loadBias + entry.val }
  else scan

def dynamicSymbols (m : Memory) (image : Elf32Image) : Except Failure DynamicSymbols := do
  let scan := (dynamicEntries m image).foldl (SymbolScan.step image.loadBias) {}
  check (scan.symbolAddress ≠ 0 ∧ scan.symbolSize = 16 ∧ scan.hashAddress ≠ 0 ∧
      rangeInImage image scan.hashAddress 8)
    (setError "%s has no valid SYSV dynamic symbol table" [.string image.soname])
  let count := m.load32 (scan.hashAddress + 4)
  check (count ≠ 0 ∧ count ≤ 0xffffffff / 16 ∧
      rangeInImage image scan.symbolAddress (count * 16))
    (setError "%s has an invalid dynamic symbol count" [.string image.soname])
  pure ⟨scan.symbolAddress, count⟩

def DynamicSymbols.entries (m : Memory) (table : DynamicSymbols) : List Elf32Sym :=
  (List.range table.count.toNat).map (symbolEntry m table.symbols)

def validName (m : Memory) (image : Elf32Image) (symbol : Elf32Sym) : Option CString :=
  if symbol.name < image.stringTableSize ∧ 0 ∈ nameWindow m image symbol then
    some (cstring (nameWindow m image symbol))
  else none

def imageExports (m : Memory) (image : Elf32Image) (name : CString) : Bool :=
  match dynamicSymbols m image with
  | .error _ => false
  | .ok table => (table.entries m).any fun symbol =>
      symbol.shndx ≠ shnUndef ∧ (symbol.binding = stbGlobal ∨ symbol.binding = stbWeak) ∧
        validName m image symbol = some name

def anyImageExports (m : Memory) (images : List Elf32Image) (name : CString) : Bool :=
  images.any fun image => imageExports m image name

def hostExports (host : HostEnvironment) (name : CString) : Bool :=
  host.dlsymDefault name ≠ 0 || host.handles.any fun handle => handle name ≠ 0

structure SymbolProbeStats where
  imports : Nat := 0
  guestProvided : Nat := 0
  softfpThunks : Nat := 0
  compatBridges : Nat := 0
  hostCandidates : Nat := 0
  abiBridgesRequired : Nat := 0
  missing : Nat := 0
  weakUnresolved : Nat := 0
  deriving DecidableEq, Repr

/-- The name of a symbol that the census counts as an import. -/
def importedName (m : Memory) (image : Elf32Image) (symbol : Elf32Sym) : Option CString :=
  if symbol.shndx = shnUndef ∧ symbol.name ≠ 0 ∧
      (symbol.binding = stbGlobal ∨ symbol.binding = stbWeak) then
    validName m image symbol
  else none

section Census

variable (runtime : Runtime) (host : HostEnvironment) (m : Memory) (images : List Elf32Image)

/-- Count an import under its provider. -/
def SymbolProbeStats.countImport (name : CString) (binding : UInt32)
    (stats : SymbolProbeStats) : SymbolProbeStats :=
  let stats := { stats with imports := stats.imports + 1 }
  if anyImageExports m images name then
    { stats with guestProvided := stats.guestProvided + 1 }
  else if nfsmwSymbolRequiresSoftfp name then
    { stats with softfpThunks := stats.softfpThunks + 1 }
  else if nfsmwCompatResolve runtime name ≠ 0 then
    { stats with compatBridges := stats.compatBridges + 1 }
  else if nfsmwSymbolRequiresBionicBridge name then
    { stats with abiBridgesRequired := stats.abiBridgesRequired + 1 }
  else if hostExports host name then
    { stats with hostCandidates := stats.hostCandidates + 1 }
  else if binding = stbWeak then { stats with weakUnresolved := stats.weakUnresolved + 1 }
  else { stats with missing := stats.missing + 1 }

/-- The body of the loop over the symbols of an image. -/
def probeSymbol (image : Elf32Image) (stats : SymbolProbeStats) (symbol : Elf32Sym) :
    SymbolProbeStats :=
  match importedName m image symbol with
  | some name => stats.countImport runtime host m images name symbol.binding
  | none => stats

def probeImage (stats : SymbolProbeStats) (image : Elf32Image) :
    Except Failure SymbolProbeStats := do
  let table ← dynamicSymbols m image
  pure ((table.entries m).foldl (probeSymbol runtime host m images image) stats)

def nfsmwProbeSymbols : Except Failure SymbolProbeStats := do
  check (images ≠ []) (setError "invalid symbol-probe arguments" [])
  images.foldlM (probeImage runtime host m images) {}

end Census

/-! ## The relocation probe -/

/-- The loader's state, what the lookup has counted and kept, and the totals of the probe. -/
structure ProbeState where
  loader : State
  lookup : LookupState := {}
  totalRelocations : Nat := 0
  unresolvedRelocations : Nat := 0

abbrev ProbeM := EStateM Failure ProbeState

def onLoader {α : Type} (x : LoaderM α) : ProbeM α := fun s =>
  match x.run s.loader with
  | .ok a loader => .ok a { s with loader := loader }
  | .error failure loader => .error failure { s with loader := loader }

/-- The name that `relocation_symbol` asks its resolver for: that of an undefined symbol. -/
def askedName (m : Memory) (image : Elf32Image) (info : Elf32DynamicInfo)
    (relocation : Elf32Rel) : Option CString :=
  let symbol := symbolEntry m info.symbols relocation.symbol.toNat
  if namesSymbol relocation.type ∧ symbol.shndx = shnUndef then
    some (cstring (nameWindow m image symbol))
  else none

section Probe

variable (host : Host) (runtime : Runtime) (environment : HostEnvironment)
  (images : List Elf32Image) (current : Fin images.length)

def contextAt (m : Memory) : RelocationContext := ⟨m, images, current, current.isLt⟩

/-- One turn of the loop in `apply_relocations` with `relocation_lookup` as the resolver. The
lookup reads the memory that is being relocated. -/
def lookupRelocation (info : Elf32DynamicInfo) (place : UInt32 × Nat) : ProbeM Unit := do
  let s ← get
  let lookup := fun name =>
    relocationLookup runtime environment (contextAt images current s.loader.memory) name s.lookup
  onLoader (applyRelocation (images.get current) info (some fun name _ => (lookup name).1)
    place.1 place.2)
  match askedName s.loader.memory (images.get current) info
      (relocationEntry s.loader.memory place.1 place.2) with
  | some name => modify fun t => { t with lookup := (lookup name).2 }
  | none => pure ()

/-- `elf32_relocate` with `relocation_lookup` as the resolver. -/
def relocateImage : ProbeM Unit := do
  let info ← onLoader (relocationSetup host (images.get current))
  let result ← Command.capture
    (forM info.places (lookupRelocation runtime environment images current info))
  onLoader (protectSegments host (images.get current))
  Command.lift result

/-- The body of the loop in `nfsmw_relocation_probe`. -/
def probeModule : ProbeM Unit := do
  relocateImage host runtime environment images current
  modify fun s => { s with
    totalRelocations := s.totalRelocations + s.loader.stats.applied
    unresolvedRelocations := s.unresolvedRelocations + s.loader.stats.unresolved }

def nfsmwRelocationProbe : ProbeM Unit := do
  Command.lift (check (images ≠ []) (setError "invalid relocation-probe arguments" []))
  modify fun s => { s with
    lookup := { s.lookup with stats := {} }
    totalRelocations := 0
    unresolvedRelocations := 0 }
  forM (List.finRange images.length) (probeModule host runtime environment images)

end Probe

/-! ## The providers behind the images -/

/-- The runtime or the host has an address for the name. A bionic name is kept from the
display and the host. -/
def Provided (runtime : Runtime) (host : HostEnvironment) (name : CString) : Prop :=
  aeabiLookup runtime name ≠ 0 ∨ nfsmwSymbolRequiresSoftfp name ∨ aliasLookup runtime name ≠ 0 ∨
    nfsmwCompatResolve runtime name ≠ 0 ∨
    (nfsmwSymbolRequiresBionicBridge name = false ∧
      (nfsmwDisplayResolve runtime name ≠ 0 ∨ hostLookup host name ≠ 0))

instance (runtime : Runtime) (host : HostEnvironment) (name : CString) :
    Decidable (Provided runtime host name) :=
  inferInstanceAs (Decidable (_ ∨ _ ∨ _ ∨ _ ∨ _ ∧ _))

section Providers

variable {runtime : Runtime} {host : HostEnvironment} {name : CString}

theorem firstNonzero_ne_zero_iff {answers : List UInt32} :
    firstNonzero answers ≠ 0 ↔ ∃ a ∈ answers, a ≠ 0 := by
  unfold firstNonzero
  cases h : answers.find? (· ≠ 0) with
  | none => simpa using h
  | some a =>
    have ha : a ≠ 0 := by simpa using List.find?_some h
    exact ⟨fun _ => ⟨a, List.mem_of_find?_eq_some h, ha⟩, fun _ => ha⟩

/-- The lookup asks the host more than the census does. -/
theorem hostLookup_ne_zero (h : hostExports host name) : hostLookup host name ≠ 0 := by
  have hfirst : firstNonzero (host.dlsymDefault name :: host.handles.map (· name)) ≠ 0 := by
    rw [firstNonzero_ne_zero_iff]
    simpa [hostExports] using h
  unfold hostLookup
  dsimp only
  rwa [if_pos hfirst]

theorem wrapGuest_ne_zero {context : RelocationContext} {address : UInt32} (s : LookupState)
    (h : address ≠ 0) : (wrapGuest runtime context name address s).1 ≠ 0 := by
  unfold wrapGuest
  split_ifs
  all_goals first | exact h | exact runtime.address_ne_zero _

/-- A name has no address if no image before the current one has an export with an address,
and nothing else provides it. -/
theorem relocationLookup_eq_zero_iff {context : RelocationContext} {s : LookupState} :
    (relocationLookup runtime host context name s).1 = 0 ↔
      context.guestExport name = 0 ∧ ¬ Provided runtime host name := by
  unfold relocationLookup bridgedLookup Provided
  by_cases hguest : context.guestExport name = 0
  · rw [if_neg (not_not.mpr hguest)]
    split_ifs <;> simp_all [nfsmwSoftfpResolve_ne_zero]
  · rw [if_pos hguest]
    exact iff_of_false (wrapGuest_ne_zero _ hguest) fun h => hguest h.1

end Providers

/-! ## What the census finds -/

/-- The two gaps that the census reports. -/
def SymbolProbeStats.gaps (stats : SymbolProbeStats) : Nat :=
  stats.abiBridgesRequired + stats.missing

section Census

variable {runtime : Runtime} {host : HostEnvironment} {m : Memory} {images : List Elf32Image}

/-- The census has a provider for the symbol, or does not count it. -/
def Foreseen (runtime : Runtime) (host : HostEnvironment) (m : Memory)
    (images : List Elf32Image) (image : Elf32Image) (symbol : Elf32Sym) : Prop :=
  ∀ name, importedName m image symbol = some name →
    anyImageExports m images name ∨ Provided runtime host name ∨ symbol.binding = stbWeak

/-- An import under which neither gap is counted. -/
theorem foreseen_of_countImport {name : CString} {binding : UInt32} {stats : SymbolProbeStats}
    (h : (stats.countImport runtime host m images name binding).gaps = 0) :
    stats.gaps = 0 ∧
      (anyImageExports m images name ∨ Provided runtime host name ∨ binding = stbWeak) := by
  unfold SymbolProbeStats.countImport at h
  dsimp only at h
  split_ifs at h with hguest hsoftfp hcompat hbionic hhost hweak
  · exact ⟨h, .inl hguest⟩
  · exact ⟨h, .inr (.inl (.inr (.inl hsoftfp)))⟩
  · exact ⟨h, .inr (.inl (.inr (.inr (.inr (.inl hcompat)))))⟩
  · simp [SymbolProbeStats.gaps] at h
  · have hname := hostLookup_ne_zero hhost
    have hprovided : Provided runtime host name :=
      .inr (.inr (.inr (.inr ⟨Bool.eq_false_of_not_eq_true hbionic, .inr hname⟩)))
    exact ⟨h, .inr (.inl hprovided)⟩
  · exact ⟨h, .inr (.inr hweak)⟩
  · simp [SymbolProbeStats.gaps] at h

theorem foreseen_of_probeSymbol {image : Elf32Image} {symbol : Elf32Sym}
    {stats : SymbolProbeStats}
    (h : (probeSymbol runtime host m images image stats symbol).gaps = 0) :
    stats.gaps = 0 ∧ Foreseen runtime host m images image symbol := by
  unfold probeSymbol at h
  unfold Foreseen
  cases hname : importedName m image symbol with
  | none =>
    rw [hname] at h
    exact ⟨h, nofun⟩
  | some name =>
    rw [hname] at h
    obtain ⟨hstats, hforeseen⟩ := foreseen_of_countImport h
    exact ⟨hstats, fun _ hother => Option.some.inj hother ▸ hforeseen⟩

theorem foreseen_of_foldl {image : Elf32Image} {symbols : List Elf32Sym}
    {stats : SymbolProbeStats}
    (h : (symbols.foldl (probeSymbol runtime host m images image) stats).gaps = 0) :
    stats.gaps = 0 ∧ ∀ symbol ∈ symbols, Foreseen runtime host m images image symbol := by
  induction symbols generalizing stats with
  | nil => exact ⟨h, List.forall_mem_nil _⟩
  | cons symbol symbols ih =>
    obtain ⟨hfirst, hrest⟩ := ih h
    obtain ⟨hstats, hsymbol⟩ := foreseen_of_probeSymbol hfirst
    exact ⟨hstats, List.forall_mem_cons.mpr ⟨hsymbol, hrest⟩⟩

/-- The census of a list of images, which may be a part of those that it asks for exports. -/
theorem foreseen_of_foldlM {walked : List Elf32Image} {stats result : SymbolProbeStats}
    (h : walked.foldlM (probeImage runtime host m images) stats = .ok result)
    (hgaps : result.gaps = 0) :
    stats.gaps = 0 ∧ ∀ image ∈ walked, ∀ table, dynamicSymbols m image = .ok table →
      ∀ symbol ∈ table.entries m, Foreseen runtime host m images image symbol := by
  induction walked generalizing stats with
  | nil =>
    cases h
    exact ⟨hgaps, List.forall_mem_nil _⟩
  | cons image walked ih =>
    rw [List.foldlM_cons] at h
    obtain ⟨next, himage, hrest⟩ := bind_eq_ok.mp h
    obtain ⟨table, htable, hfold⟩ := bind_eq_ok.mp himage
    cases hfold
    obtain ⟨hnext, himages⟩ := ih hrest
    obtain ⟨hstats, hsymbols⟩ := foreseen_of_foldl hnext
    refine ⟨hstats, List.forall_mem_cons.mpr ⟨fun other hother => ?_, himages⟩⟩
    cases htable.symm.trans hother
    exact hsymbols

theorem foreseen_of_census {stats : SymbolProbeStats}
    (h : nfsmwProbeSymbols runtime host m images = .ok stats)
    (hbridges : stats.abiBridgesRequired = 0) (hmissing : stats.missing = 0) :
    ∀ image ∈ images, ∀ table, dynamicSymbols m image = .ok table →
      ∀ symbol ∈ table.entries m, Foreseen runtime host m images image symbol := by
  obtain ⟨_, _, hfold⟩ := bind_eq_ok.mp h
  have hgaps : stats.gaps = 0 := by rw [SymbolProbeStats.gaps, hbridges, hmissing]
  exact (foreseen_of_foldlM hfold hgaps).2

end Census

/-! ## The two walkers -/

/-- What `dynamic_symbols` keeps of the loop in `parse_relocation_info`. -/
def symbolScan (scan : RelocationScan) : SymbolScan :=
  ⟨scan.symbolAddress, scan.hashAddress, scan.symbolSize⟩

theorem symbolScan_step (loadBias : UInt32) (scan : RelocationScan) (entry : Elf32Dyn) :
    SymbolScan.step loadBias (symbolScan scan) entry =
      symbolScan (scan.step loadBias entry) := by
  unfold SymbolScan.step RelocationScan.step
  dsimp only
  split_ifs <;> rfl

section Walkers

variable {m : Memory} {image : Elf32Image} {info : Elf32DynamicInfo} {name : CString}

/-- An image that can be relocated has the symbol table that the census reads. -/
theorem dynamicSymbols_eq_ok (h : parseRelocationInfo m image = .ok info) :
    dynamicSymbols m image = .ok ⟨info.symbols, info.symbolCount⟩ := by
  have hscan : (dynamicEntries m image).foldl (SymbolScan.step image.loadBias) {} =
      symbolScan ((dynamicEntries m image).foldl (RelocationScan.step image.loadBias) {}) := by
    show (dynamicEntries m image).foldl _ (symbolScan {}) = _
    exact List.foldl_hom symbolScan fun scan entry => symbolScan_step image.loadBias scan entry
  obtain ⟨_, hmetadata, h₁⟩ := bind_eq_ok.mp h
  obtain ⟨_, hcount, h₂⟩ := bind_eq_ok.mp h₁
  obtain ⟨_, _, h₃⟩ := bind_eq_ok.mp h₂
  obtain ⟨_, _, h₄⟩ := bind_eq_ok.mp h₃
  cases h₄
  unfold dynamicSymbols
  rw [hscan]
  exact bind_eq_ok.mpr ⟨_, check_of (check_eq_ok.mp hmetadata) _,
    bind_eq_ok.mpr ⟨_, check_of (check_eq_ok.mp hcount) _, rfl⟩⟩

theorem validName_eq_some {symbol : Elf32Sym} :
    validName m image symbol = some name ↔ symbol.name < image.stringTableSize ∧
      0 ∈ nameWindow m image symbol ∧ cstring (nameWindow m image symbol) = name := by
  rw [validName, Option.ite_none_right_eq_some, Option.some.injEq, and_assoc]

/-- Both walkers look for the same definitions. -/
theorem imageExports_iff (h : parseRelocationInfo m image = .ok info) :
    imageExports m image name ↔ ∃ symbol ∈ (List.range info.symbolCount.toNat).map
      (symbolEntry m info.symbols), symbol.exports m image name := by
  rw [imageExports, dynamicSymbols_eq_ok h]
  dsimp only
  simp only [List.any_eq_true, decide_eq_true_eq, validName_eq_some]
  rfl

/-- An exported name has no address for the relocation if its first definition is a TLS
symbol or has the address 0. -/
theorem elf32FindExport_eq_zero_iff (h : parseRelocationInfo m image = .ok info)
    (hexports : imageExports m image name) :
    elf32FindExport m image name = 0 ↔ ∃ symbol,
      ((List.range info.symbolCount.toNat).map (symbolEntry m info.symbols)).find?
        (fun symbol => symbol.exports m image name) = some symbol ∧
      (symbol.type = sttTls ∨
        (if symbol.shndx = shnAbs then symbol.value else image.loadBias + symbol.value) = 0) := by
  rw [elf32FindExport, h]
  dsimp only
  cases hfind : ((List.range info.symbolCount.toNat).map (symbolEntry m info.symbols)).find?
      fun symbol => symbol.exports m image name with
  | none =>
    obtain ⟨symbol, hmem, hsymbol⟩ := (imageExports_iff h).mp hexports
    simpa [hsymbol] using List.find?_eq_none.mp hfind symbol hmem
  | some symbol =>
    simp only [Option.some.injEq, exists_eq_left']
    by_cases htls : symbol.type = sttTls
    · simp [htls]
    · simp [htls]

end Walkers

/-! ## What the walkers read -/

/-- The address of the hash table, from the dynamic table. -/
def hashAddress (m : Memory) (image : Elf32Image) : UInt32 :=
  ((dynamicEntries m image).foldl (RelocationScan.step image.loadBias) {}).hashAddress

/-- The metadata tables of an image: the dynamic table, the header of the hash table, the
symbols, the strings and the relocation entries. -/
def tableSpans (m : Memory) (image : Elf32Image) : List (UInt32 × Nat) :=
  (image.dynamic, Elf32Dyn.size * image.dynamicCount.toNat) :: (hashAddress m image, 8) ::
    match parseRelocationInfo m image with
    | .error _ => []
    | .ok info =>
      [(info.symbols, Elf32Sym.size * info.symbolCount.toNat),
        (image.stringTable, image.stringTableSize.toNat),
        (info.relocations, Elf32Rel.size * info.relocationCount.toNat),
        (info.pltRelocations, Elf32Rel.size * info.pltRelocationCount.toNat)]

def metadataTables (m : Memory) (image : Elf32Image) : Set UInt32 :=
  {x | ∃ place ∈ tableSpans m image, x ∈ span place.1 place.2}

section Subsets

variable {m : Memory} {image : Elf32Image}

theorem dynamic_subset : span image.dynamic (Elf32Dyn.size * image.dynamicCount.toNat) ⊆
    metadataTables m image := by
  intro x hx
  exact ⟨(image.dynamic, Elf32Dyn.size * image.dynamicCount.toNat), by simp [tableSpans], hx⟩

theorem hash_subset : span (hashAddress m image) 8 ⊆ metadataTables m image := by
  intro x hx
  exact ⟨(hashAddress m image, 8), by simp [tableSpans], hx⟩

theorem metadata_subset {info : Elf32DynamicInfo} (h : parseRelocationInfo m image = .ok info) :
    metadata image info ⊆ metadataTables m image := by
  have hspans : ∀ start length, (start, length) ∈ tableSpans m image →
      span start length ⊆ metadataTables m image :=
    fun start length hmem x hx => ⟨(start, length), hmem, hx⟩
  unfold metadata
  refine Set.union_subset (Set.union_subset (Set.union_subset ?_ ?_) ?_) ?_ <;>
    exact hspans _ _ (by simp [tableSpans, h])

end Subsets

section Tables

variable {m m' : Memory} {image : Elf32Image} {info : Elf32DynamicInfo}
  (h : Set.EqOn m' m (metadataTables m image))

include h

theorem dynamicEntries_congr : dynamicEntries m' image = dynamicEntries m image := by
  have hdynamic : Set.EqOn m' m (span image.dynamic (Elf32Dyn.size * image.dynamicCount.toNat)) :=
    h.mono dynamic_subset
  unfold dynamicEntries
  rcases Nat.le_total (Elf32Dyn.size * image.dynamicCount.toNat) (2 ^ 32) with hfits | hwraps
  · have hentries : (List.range image.dynamicCount.toNat).map (dynamicEntry m' image.dynamic) =
        (List.range image.dynamicCount.toNat).map (dynamicEntry m image.dynamic) :=
      List.map_congr_left fun index hindex =>
        tableEntry_congr hfits hdynamic (List.mem_range.mp hindex)
    rw [hentries]
  · rw [span_eq_univ hwraps, Set.eqOn_univ] at hdynamic
    rw [hdynamic]

theorem parseRelocationInfo_congr : parseRelocationInfo m' image = parseRelocationInfo m image := by
  have hheader : span (hashAddress m image + .ofNat 4) 4 ⊆ span (hashAddress m image) 8 :=
    span_offset_subset (by decide) (by decide)
  have hcount : Set.EqOn m' m (span (hashAddress m image + 4) 4) :=
    h.mono (hheader.trans hash_subset)
  have hload : m'.load32 (hashAddress m image + 4) = m.load32 (hashAddress m image + 4) :=
    Memory.load32_congr hcount
  unfold hashAddress at hload
  unfold parseRelocationInfo
  rw [dynamicEntries_congr h]
  dsimp only
  rw [hload]

theorem metadata_congr (hinfo : parseRelocationInfo m image = .ok info) :
    Set.EqOn m' m (metadata image info) :=
  h.mono (metadata_subset hinfo)

theorem elf32FindExport_congr (name : CString) :
    elf32FindExport m' image name = elf32FindExport m image name := by
  unfold elf32FindExport
  rw [parseRelocationInfo_congr h]
  cases hinfo : parseRelocationInfo m image with
  | error failure => rfl
  | ok info =>
    have hsame := sameSymbols_of_metadata hinfo (metadata_congr h hinfo)
    have hsymbols : (List.range info.symbolCount.toNat).map (symbolEntry m' info.symbols) =
        (List.range info.symbolCount.toNat).map (symbolEntry m info.symbols) :=
      List.map_congr_left fun index hindex =>
        tableEntry_congr hsame.fits hsame.symbols (List.mem_range.mp hindex)
    have hexports : ∀ symbol : Elf32Sym,
        symbol.exports m' image name ↔ symbol.exports m image name := by
      intro symbol
      unfold Elf32Sym.exports
      refine and_congr_right fun _ => and_congr_right fun _ => and_congr_right fun hname => ?_
      rw [nameWindow_congr hsame.strings hname]
    simp only [hsymbols, hexports]

end Tables

/-! ## What the relocation finds -/

/-- The symbol that an entry names. -/
def namedSymbol (m : Memory) (info : Elf32DynamicInfo) (r : Elf32Rel) : Elf32Sym :=
  symbolEntry m info.symbols r.symbol.toNat

/-- The entry depends on the lookup: its symbol is undefined and not weak. -/
def Demands (m : Memory) (info : Elf32DynamicInfo) (r : Elf32Rel) : Prop :=
  r.type ≠ rArmRelative ∧ (namedSymbol m info r).shndx = shnUndef ∧
    (namedSymbol m info r).binding ≠ stbWeak

instance (m : Memory) (info : Elf32DynamicInfo) (r : Elf32Rel) : Decidable (Demands m info r) :=
  inferInstanceAs (Decidable (_ ∧ _ ∧ _))

/-- An image before the current one has an export with an address, or the runtime or the host
provides the name. -/
def Answered (runtime : Runtime) (environment : HostEnvironment) (m : Memory)
    (images : List Elf32Image) (current : Fin images.length) (name : CString) : Prop :=
  (∃ earlier ∈ images.take current, elf32FindExport m earlier name ≠ 0) ∨
    Provided runtime environment name

instance (runtime : Runtime) (environment : HostEnvironment) (m : Memory)
    (images : List Elf32Image) (current : Fin images.length) (name : CString) :
    Decidable (Answered runtime environment m images current name) :=
  inferInstanceAs (Decidable (_ ∨ _))

section Entry

variable {m m' : Memory} {image : Elf32Image} {info : Elf32DynamicInfo}
  {resolver : Option Resolver} {r : Elf32Rel}

theorem unresolved_iff : r.Unresolved m image info resolver ↔ Demands m info r ∧
    resolverAnswer resolver (cstring (nameWindow m image (namedSymbol m info r)))
      (namedSymbol m info r).binding = 0 := by
  have habs : shnAbs ≠ shnUndef := by decide
  unfold Elf32Rel.Unresolved Demands symbolAddress namedSymbol
  dsimp only
  split_ifs <;> simp_all

/-- An entry that is applied names a symbol of the table, and is counted as unresolved if it
is. The words of the entries may overlap. -/
theorem applyRelocation_counts {table : UInt32} {index : Nat} {s t : State}
    (hsymbols : SameSymbols image info s.memory m)
    (hentry : relocationEntry s.memory table index = r)
    (h : (applyRelocation image info resolver table index).run s = .ok () t) :
    (r.type ≠ rArmRelative → r.symbol < info.symbolCount) ∧
      (t.stats.unresolved = 0 ↔
        s.stats.unresolved = 0 ∧ ¬ r.Unresolved m image info resolver) := by
  obtain ⟨-, hcases⟩ := applyRelocation_eq_ok hentry h
  have hindex : ∀ {result : SymbolResult},
      relocationSymbol s.memory image info r.symbol resolver = .ok result →
        r.symbol < info.symbolCount := by
    intro result hresult
    obtain ⟨_, hcheck, _⟩ := bind_eq_ok.mp hresult
    exact check_eq_ok.mp hcheck
  rcases hcases with ⟨hrelative, rfl⟩ | ⟨hrelative, name, hsymbol, rfl⟩ |
    ⟨hrelative, value, hsymbol, rfl⟩
  · have hresolved : ¬ r.Unresolved m image info resolver := fun h => h.1 hrelative
    exact ⟨fun h => absurd hrelative h, (and_iff_left hresolved).symm⟩
  · have hlt := hindex hsymbol
    rw [relocationSymbol_congr hsymbols] at hsymbol
    have hunresolved : r.Unresolved m image info resolver :=
      ⟨hrelative, relocationSymbol_eq_ok hsymbol⟩
    exact ⟨fun _ => hlt, iff_of_false (Nat.succ_ne_zero _) fun h => h.2 hunresolved⟩
  · have hlt := hindex hsymbol
    rw [relocationSymbol_congr hsymbols] at hsymbol
    have hresolved : ¬ r.Unresolved m image info resolver := by
      intro hunresolved
      have hnone := hunresolved.2
      rw [relocationSymbol_eq_ok hsymbol] at hnone
      cases hnone
    refine ⟨fun _ => hlt, ?_⟩
    rw [and_iff_left hresolved]
    show (s.stats.countSymbol r.type).unresolved = 0 ↔ _
    rw [RelocationStats.unresolved_countSymbol]

/-- An entry changes its word only. -/
theorem applyRelocation_outside {table : UInt32} {index : Nat} {s t : State}
    (hentry : relocationEntry s.memory table index = r)
    (h : (applyRelocation image info resolver table index).run s = .ok () t) :
    Set.EqOn t.memory s.memory (r.word image)ᶜ := by
  have hkept : Keeps _ _ s
      (Command.final ((applyRelocation image info resolver table index).run s)) :=
    applyRelocation_keeps table index s
  rw [h, hentry] at hkept
  exact within_eq_iff.mp hkept.2

end Entry

section Answers

variable {runtime : Runtime} {environment : HostEnvironment} {images : List Elf32Image}
  {current : Fin images.length} {m m' : Memory} {name : CString}

theorem relocationLookup_answered {s : LookupState} :
    (relocationLookup runtime environment (contextAt images current m) name s).1 = 0 ↔
      ¬ Answered runtime environment m images current name := by
  have hguest : (contextAt images current m).guestExport name ≠ 0 ↔
      ∃ earlier ∈ images.take current, elf32FindExport m earlier name ≠ 0 := by
    rw [RelocationContext.guestExport, firstNonzero_ne_zero_iff]
    simp only [List.mem_map, exists_exists_and_eq_and]
    rfl
  rw [relocationLookup_eq_zero_iff, Answered, not_or, ← hguest, not_not]

/-- The answers do not depend on what is outside of the metadata tables. -/
theorem answered_congr (h : ∀ image ∈ images, Set.EqOn m' m (metadataTables m image)) :
    Answered runtime environment m' images current name ↔
      Answered runtime environment m images current name := by
  refine or_congr_left (exists_congr fun earlier => and_congr_right fun hearlier => ?_)
  rw [elf32FindExport_congr (h earlier (List.mem_of_mem_take hearlier))]

end Answers

/-! ## One image -/

/-- No relocation patches a metadata table. -/
def TargetsApart (m : Memory) (images : List Elf32Image) : Prop :=
  ∀ image ∈ images, ∀ info, parseRelocationInfo m image = .ok info →
    ∀ r ∈ relocations m info, ∀ other ∈ images,
      Disjoint (r.word image) (metadataTables m other)

theorem targetsApart_of_starts {m : Memory} {images : List Elf32Image}
    (h : ∀ image ∈ images, ∀ info ∈ (parseRelocationInfo m image).toOption,
      ∀ r ∈ relocations m info, ∀ other ∈ images, ∀ place ∈ tableSpans m other,
        place.1 ∉ span (r.target image) 4 ∧ r.target image ∉ span place.1 place.2) :
    TargetsApart m images := by
  intro image himage info hinfo r hr other hother
  have hmem : info ∈ (parseRelocationInfo m image).toOption := by rw [hinfo]; rfl
  refine Set.disjoint_right.mpr fun x ⟨place, hplace, hx⟩ hword => ?_
  obtain ⟨hstart, htarget⟩ := h image himage info hmem r hr other hother place hplace
  exact Set.disjoint_left.mp (disjoint_span hstart htarget) hword hx

theorem run_onLoader_eq_ok {α : Type} {x : LoaderM α} {s t : ProbeState} {a : α} :
    (onLoader x).run s = .ok a t ↔
      ∃ loader, x.run s.loader = .ok a loader ∧ t = { s with loader := loader } := by
  show onLoader x s = _ ↔ _
  unfold onLoader
  cases x.run s.loader with
  | ok b loader =>
    simp only [EStateM.Result.ok.injEq]
    exact ⟨fun ⟨ha, ht⟩ => ⟨loader, ⟨ha, rfl⟩, ht.symm⟩,
      fun ⟨_, ⟨ha, hloader⟩, ht⟩ => ⟨ha, hloader ▸ ht.symm⟩⟩
  | error failure loader => exact ⟨nofun, fun ⟨_, h, _⟩ => nomatch h⟩

section Run

variable (runtime : Runtime) (environment : HostEnvironment) (m : Memory)
  (images : List Elf32Image) (current : Fin images.length)

/-- The lookup answers an entry that depends on it. -/
def Resolved (info : Elf32DynamicInfo) (r : Elf32Rel) : Prop :=
  Demands m info r → Answered runtime environment m images current
    (cstring (nameWindow m (images.get current) (namedSymbol m info r)))

/-- What the relocation of some entries leaves and finds. -/
structure Probed (info : Elf32DynamicInfo) (rs : List Elf32Rel) (s t : ProbeState) : Prop where
  tables : ∀ image ∈ images, Set.EqOn t.loader.memory m (metadataTables m image)
  named : ∀ r ∈ rs, r.type ≠ rArmRelative → r.symbol < info.symbolCount
  unresolved : t.loader.stats.unresolved = 0 ↔ s.loader.stats.unresolved = 0 ∧
    ∀ r ∈ rs, Resolved runtime environment m images current info r
  total : t.unresolvedRelocations = s.unresolvedRelocations

variable {runtime environment m images current} {info : Elf32DynamicInfo} {s t : ProbeState}

/-- One entry, looked up in a memory that still has the tables. -/
theorem lookupRelocation_probed {place : UInt32 × Nat}
    (hinfo : parseRelocationInfo m (images.get current) = .ok info)
    (htables : ∀ image ∈ images, Set.EqOn s.loader.memory m (metadataTables m image))
    (hplace : place ∈ info.places)
    (hapart : ∀ image ∈ images, Disjoint
      ((relocationEntry m place.1 place.2).word (images.get current)) (metadataTables m image))
    (h : (lookupRelocation runtime environment images current info place).run s = .ok () t) :
    Probed runtime environment m images current info [relocationEntry m place.1 place.2] s t := by
  have himage : images.get current ∈ images := List.get_mem _ _
  have hmetadata := metadata_congr (htables _ himage) hinfo
  have hentry := relocationEntry_congr hinfo hmetadata hplace
  unfold lookupRelocation at h
  rw [Command.run_get_bind] at h
  obtain ⟨_, u, hload, hcount⟩ := Command.run_bind_eq_ok.mp h
  obtain ⟨loader, happly, rfl⟩ := run_onLoader_eq_ok.mp hload
  have ht : t.loader = loader ∧ t.unresolvedRelocations = s.unresolvedRelocations := by
    split at hcount <;> cases hcount <;> exact ⟨rfl, rfl⟩
  obtain ⟨hnamed, hunresolved⟩ :=
    applyRelocation_counts (sameSymbols_of_metadata hinfo hmetadata) hentry happly
  have hkept := applyRelocation_outside hentry happly
  refine ⟨fun image hmem => ?_, by simpa using hnamed, ?_, ht.2⟩
  · rw [ht.1]
    exact (hkept.mono (Set.subset_compl_iff_disjoint_left.mpr (hapart image hmem))).trans
      (htables image hmem)
  · rw [ht.1, hunresolved, List.forall_mem_singleton, unresolved_iff, not_and]
    refine and_congr_right fun _ => forall_congr' fun _ => ?_
    rw [← answered_congr htables]
    exact not_iff_comm.mpr relocationLookup_answered.symm

/-- The entries of an image, in order. -/
theorem lookupRelocations_probed {places : List (UInt32 × Nat)}
    (hinfo : parseRelocationInfo m (images.get current) = .ok info)
    (htables : ∀ image ∈ images, Set.EqOn s.loader.memory m (metadataTables m image))
    (hplaces : ∀ place ∈ places, place ∈ info.places)
    (hapart : ∀ r ∈ relocations m info, ∀ image ∈ images,
      Disjoint (r.word (images.get current)) (metadataTables m image))
    (h : (forM places (lookupRelocation runtime environment images current info)).run s =
      .ok () t) :
    Probed runtime environment m images current info
      (places.map fun place => relocationEntry m place.1 place.2) s t := by
  induction places generalizing s with
  | nil =>
    cases h
    exact ⟨htables, List.forall_mem_nil _, (and_iff_left (List.forall_mem_nil _)).symm, rfl⟩
  | cons place places ih =>
    obtain ⟨hplace, hrest⟩ := List.forall_mem_cons.mp hplaces
    obtain ⟨_, u, hfirst, hothers⟩ := Command.run_bind_eq_ok.mp h
    have hword := hapart (relocationEntry m place.1 place.2)
      (relocations_eq m info ▸ List.mem_map_of_mem hplace)
    have hone := lookupRelocation_probed hinfo htables hplace hword hfirst
    have hall := ih hone.tables hrest hothers
    refine ⟨hall.tables, ?_, ?_, hall.total.trans hone.total⟩
    · exact List.forall_mem_cons.mpr
        ⟨hone.named _ (List.mem_singleton_self _), hall.named⟩
    · rw [hall.unresolved, hone.unresolved, List.forall_mem_singleton, List.map_cons,
        List.forall_mem_cons, and_assoc]

/-- One image, whose relocation starts from the tables that the census has seen. -/
theorem relocateImage_probed {host : Host} (hapart : TargetsApart m images)
    (htables : ∀ image ∈ images, Set.EqOn s.loader.memory m (metadataTables m image))
    (h : (relocateImage host runtime environment images current).run s = .ok () t) :
    (∀ image ∈ images, Set.EqOn t.loader.memory m (metadataTables m image)) ∧
      t.unresolvedRelocations = s.unresolvedRelocations ∧
      ∃ info, parseRelocationInfo m (images.get current) = .ok info ∧
        (∀ r ∈ relocations m info, r.type ≠ rArmRelative → r.symbol < info.symbolCount) ∧
        (t.loader.stats.unresolved = 0 ↔
          ∀ r ∈ relocations m info, Resolved runtime environment m images current info r) := by
  have himage : images.get current ∈ images := List.get_mem _ _
  obtain ⟨info, u, hbegin, h₁⟩ := Command.run_bind_eq_ok.mp h
  obtain ⟨loader, hsetup, rfl⟩ := run_onLoader_eq_ok.mp hbegin
  obtain ⟨hparse, hwritable⟩ := relocationSetup_eq_ok hsetup
  have hbefore := setSegmentsWritable_contents hwritable
  have hmemory : loader.memory = s.loader.memory := congrArg (·.1) hbefore
  have hstats : loader.stats = {} := congrArg (·.2.2.1) hbefore
  obtain ⟨result, v, hcapture, h₂⟩ := Command.run_bind_eq_ok.mp h₁
  obtain ⟨_, w, hend, hresult⟩ := Command.run_bind_eq_ok.mp h₂
  obtain ⟨rfl, rfl⟩ := Command.run_lift_eq_ok.mp hresult
  obtain ⟨loader', hprotect, rfl⟩ := run_onLoader_eq_ok.mp hend
  have hafter := protectSegments_contents hprotect
  have hmemory' : loader'.memory = v.loader.memory := congrArg (·.1) hafter
  have hstats' : loader'.stats = v.loader.stats := congrArg (·.2.2.1) hafter
  have hinfo : parseRelocationInfo m (images.get current) = .ok info :=
    (parseRelocationInfo_congr (htables _ himage)).symm.trans hparse
  have hprobed := lookupRelocations_probed (s := { s with loader := loader }) hinfo
    (fun image hmem => hmemory.symm ▸ htables image hmem) (fun _ hplace => hplace)
    (hapart _ himage info hinfo) (Command.run_capture_ok hcapture)
  rw [← relocations_eq] at hprobed
  refine ⟨fun image hmem => hmemory'.symm ▸ hprobed.tables image hmem, hprobed.total, info, hinfo,
    hprobed.named, ?_⟩
  rw [hstats', hprobed.unresolved, hstats]
  exact and_iff_right rfl

/-- The images of the loop, in order. -/
theorem probeModules_run {host : Host} {indices : List (Fin images.length)}
    (hapart : TargetsApart m images)
    (htables : ∀ image ∈ images, Set.EqOn s.loader.memory m (metadataTables m image))
    (h : (forM indices (probeModule host runtime environment images)).run s = .ok () t) :
    (∀ current ∈ indices, ∀ info, parseRelocationInfo m (images.get current) = .ok info →
      ∀ r ∈ relocations m info, r.type ≠ rArmRelative → r.symbol < info.symbolCount) ∧
    (t.unresolvedRelocations = 0 ↔ s.unresolvedRelocations = 0 ∧ ∀ current ∈ indices, ∀ info,
      parseRelocationInfo m (images.get current) = .ok info →
        ∀ r ∈ relocations m info, Resolved runtime environment m images current info r) := by
  induction indices generalizing s with
  | nil =>
    cases h
    exact ⟨List.forall_mem_nil _, (and_iff_left (List.forall_mem_nil _)).symm⟩
  | cons current indices ih =>
    obtain ⟨_, u, hfirst, hrest⟩ := Command.run_bind_eq_ok.mp h
    obtain ⟨_, v, hrelocate, hadd⟩ := Command.run_bind_eq_ok.mp hfirst
    obtain ⟨hv, htotal, info, hinfo, hnamed, hunresolved⟩ :=
      relocateImage_probed hapart htables hrelocate
    cases hadd
    obtain ⟨hothers, hcount⟩ := ih (by exact hv) hrest
    have hsame : ∀ {info'}, parseRelocationInfo m (images.get current) = .ok info' →
        info' = info := fun h => Except.ok.inj (h.symm.trans hinfo)
    refine ⟨List.forall_mem_cons.mpr ⟨fun info' hinfo' => hsame hinfo' ▸ hnamed, hothers⟩, ?_⟩
    have hone : (∀ info', parseRelocationInfo m (images.get current) = .ok info' →
        ∀ r ∈ relocations m info', Resolved runtime environment m images current info' r) ↔
        ∀ r ∈ relocations m info, Resolved runtime environment m images current info r :=
      ⟨fun h => h info hinfo, fun h info' hinfo' => hsame hinfo' ▸ h⟩
    rw [hcount, List.forall_mem_cons, hone, ← hunresolved, ← and_assoc]
    refine and_congr_left fun _ => ?_
    show v.unresolvedRelocations + v.loader.stats.unresolved = 0 ↔ _
    rw [Nat.add_eq_zero_iff, htotal]

end Run

/-! ## The census and the relocation -/

section Prediction

variable (m : Memory) (images : List Elf32Image)

/-- The names that an image imports. -/
def imports (image : Elf32Image) : List CString :=
  match dynamicSymbols m image with
  | .error _ => []
  | .ok table => (table.entries m).filterMap (importedName m image)

/-- An import that some image exports is exported by an image before the importer. -/
def ImportsEarlier : Prop :=
  ∀ current : Fin images.length, ∀ name ∈ imports m (images.get current),
    anyImageExports m images name → ∃ earlier ∈ images.take current, imageExports m earlier name

instance : Decidable (ImportsEarlier m images) := inferInstanceAs (Decidable (∀ _, _))

/-- The census does not ask for the symbol's address: it skips the symbol, or leaves it to an
image that exports its name. -/
def Overlooked (current : Fin images.length) (symbol : Elf32Sym) : Prop :=
  importedName m (images.get current) symbol = none ∨
    ∃ earlier ∈ images.take current,
      imageExports m earlier (cstring (nameWindow m (images.get current) symbol))

instance (current : Fin images.length) (symbol : Elf32Sym) :
    Decidable (Overlooked m images current symbol) :=
  inferInstanceAs (Decidable (_ ∨ _))

variable {m images} {runtime : Runtime} {environment : HostEnvironment}

/-- A symbol that the census does not overlook is answered. -/
theorem answered_of_census {stats : SymbolProbeStats} {current : Fin images.length}
    {info : Elf32DynamicInfo} {r : Elf32Rel} (himports : ImportsEarlier m images)
    (hcensus : nfsmwProbeSymbols runtime environment m images = .ok stats)
    (hbridges : stats.abiBridgesRequired = 0) (hmissing : stats.missing = 0)
    (hinfo : parseRelocationInfo m (images.get current) = .ok info)
    (hnamed : r.symbol < info.symbolCount) (hdemands : Demands m info r)
    (hlooked : ¬ Overlooked m images current (namedSymbol m info r)) :
    Answered runtime environment m images current
      (cstring (nameWindow m (images.get current) (namedSymbol m info r))) := by
  obtain ⟨himported, hnone⟩ := not_or.mp hlooked
  obtain ⟨name, hname⟩ := Option.ne_none_iff_exists'.mp himported
  have htable := dynamicSymbols_eq_ok hinfo
  have hmem : namedSymbol m info r ∈ (DynamicSymbols.mk info.symbols info.symbolCount).entries m :=
    List.mem_map_of_mem (List.mem_range.mpr (UInt32.lt_iff_toNat_lt.mp hnamed))
  have hwindow : cstring (nameWindow m (images.get current) (namedSymbol m info r)) = name := by
    unfold importedName at hname
    split at hname
    · exact (validName_eq_some.mp hname).2.2
    · cases hname
  have himport : name ∈ imports m (images.get current) := by
    rw [imports, htable]
    exact List.mem_filterMap.mpr ⟨_, hmem, hname⟩
  rw [hwindow] at hnone ⊢
  rcases foreseen_of_census hcensus hbridges hmissing _ (List.get_mem _ _) _ htable _ hmem name
    hname with hguest | hprovided | hweak
  · exact absurd (himports current name himport hguest) hnone
  · exact .inr hprovided
  · exact absurd hweak hdemands.2.2

/-- A census without gaps predicts a relocation without unresolved entries exactly if the
symbols that it overlooks are answered. -/
theorem census_predicts_iff {host : Host} {stats : SymbolProbeStats} {s t : ProbeState}
    (himports : ImportsEarlier s.loader.memory images)
    (hapart : TargetsApart s.loader.memory images)
    (hcensus : nfsmwProbeSymbols runtime environment s.loader.memory images = .ok stats)
    (hbridges : stats.abiBridgesRequired = 0) (hmissing : stats.missing = 0)
    (hprobe : (nfsmwRelocationProbe host runtime environment images).run s = .ok () t) :
    t.unresolvedRelocations = 0 ↔ ∀ current info,
      parseRelocationInfo s.loader.memory (images.get current) = .ok info →
        ∀ r ∈ relocations s.loader.memory info, Demands s.loader.memory info r →
          Overlooked s.loader.memory images current (namedSymbol s.loader.memory info r) →
            Answered runtime environment s.loader.memory images current
              (cstring (nameWindow s.loader.memory (images.get current)
                (namedSymbol s.loader.memory info r))) := by
  obtain ⟨_, u, hcheck, h₁⟩ := Command.run_bind_eq_ok.mp hprobe
  obtain ⟨-, rfl⟩ := Command.run_lift_eq_ok.mp hcheck
  obtain ⟨_, v, hreset, hloop⟩ := Command.run_bind_eq_ok.mp h₁
  cases hreset
  obtain ⟨hnamed, hcount⟩ := probeModules_run hapart (by exact fun _ _ _ _ => rfl) hloop
  rw [hcount, and_iff_right rfl]
  constructor
  · intro hresolved current info hinfo r hr hdemands _
    exact hresolved current (List.mem_finRange _) info hinfo r hr hdemands
  · intro hanswered current hcurrent info hinfo r hr hdemands
    by_cases hlooked : Overlooked u.loader.memory images current
      (namedSymbol u.loader.memory info r)
    · exact hanswered current info hinfo r hr hdemands hlooked
    · exact answered_of_census himports hcensus hbridges hmissing hinfo
        (hnamed current hcurrent info hinfo r hr hdemands.1) hdemands hlooked

end Prediction

/-- The sample alone, with a host that knows every name. -/
def sampleProbed : EStateM.Result Failure ProbeState Unit :=
  (nfsmwRelocationProbe sampleHost sampleRuntime sampleLibraries [sampleMapped.image]).run
    ⟨sampleMapped, {}, 0, 0⟩

theorem census_predicts_sample : (Command.final sampleProbed).unresolvedRelocations = 0 := by
  have himports : ImportsEarlier sampleMapped.memory [sampleMapped.image] := by decide +kernel
  have hapart : TargetsApart sampleMapped.memory [sampleMapped.image] :=
    targetsApart_of_starts (by decide +kernel)
  have hcensus : nfsmwProbeSymbols sampleRuntime sampleLibraries sampleMapped.memory
      [sampleMapped.image] = .ok { imports := 1, hostCandidates := 1 } := by decide +kernel
  have hprobe : sampleProbed = .ok () (Command.final sampleProbed) :=
    Command.eq_ok_of_succeeded (by decide +kernel)
  have hanswered : ∀ current : Fin 1,
      ∀ info ∈ (parseRelocationInfo sampleMapped.memory sampleMapped.image).toOption,
        ∀ r ∈ relocations sampleMapped.memory info, Demands sampleMapped.memory info r →
          ¬ Overlooked sampleMapped.memory [sampleMapped.image] current
            (namedSymbol sampleMapped.memory info r) := by decide +kernel
  refine (census_predicts_iff (s := ⟨sampleMapped, {}, 0, 0⟩) himports hapart hcensus rfl rfl
    hprobe).mpr ?_
  intro current info hinfo r hr hdemands hlooked
  have himage : [sampleMapped.image].get current = sampleMapped.image :=
    List.mem_singleton.mp (List.get_mem _ _)
  rw [himage] at hinfo
  have hmem : info ∈ (parseRelocationInfo sampleMapped.memory sampleMapped.image).toOption := by
    rw [hinfo]
    rfl
  exact absurd hlooked (hanswered current info hmem r hr hdemands)

/-! ## Two images

`lib` needs `f`, and the provider before it exports `f`, as a function or as a TLS symbol. -/

/-- The provider, with a relative relocation and the last word of its symbol. -/
def providerFile (info : UInt32) : List UInt8 :=
  sampleFile.take 52 ++ [ptLoad, 0, 0, 0, 296, 5120, 7, 4096].flatMap le32 ++
    (sampleFile.take 172).drop 84 ++ [dtRelsz, 8, dtRelent, 8, dtJmprel, 268, dtPltrelsz, 0].flatMap
      le32 ++ (sampleFile.take 232).drop 204 ++ [288, 0, info].flatMap le32 ++ sampleFile.drop 244

def pairHost (info : UInt32) : Host where
  openFile path := if path = cstr "provider" then .ok (providerFile info) else .ok sampleFile
  fstat := true
  mapInput := true
  strerror := []
  pageSize := 4096
  reserve size := if size ≤ 0x1000 then .ok 0x40000000
    else if size ≤ 0x10000 then .ok 0x50000000 else .error []
  mprotect _ := .ok ()
  reserve_ne_zero := by
    intro size address h
    split_ifs at h <;> cases h <;> decide
  reserve_aligned := by
    intro size address h
    split_ifs at h <;> cases h <;> decide
  reserve_fits := by
    intro size address h
    have hlow : (0x40000000 : UInt32).toNat = 1073741824 := rfl
    have hhigh : (0x50000000 : UInt32).toNat = 1342177280 := rfl
    have hsize : size ≤ 0x10000 → size.toNat ≤ 65536 := UInt32.le_iff_toNat_le.mp
    have hpage : size ≤ 0x1000 → size.toNat ≤ 4096 := UInt32.le_iff_toNat_le.mp
    split_ifs at h <;> cases h
    · have := hpage ‹_›
      omega
    · have := hsize ‹_›
      omega

/-- The state with the provider mapped. -/
def providerMapped (info : UInt32) : State :=
  Command.final ((elf32Map (pairHost info) (cstr "provider")).run .start)

/-- The state with both images mapped. -/
def pairMapped (info : UInt32) : State :=
  Command.final ((elf32Map (pairHost info) (cstr "lib")).run (providerMapped info))

def pairImages (info : UInt32) : List Elf32Image :=
  [(providerMapped info).image, (pairMapped info).image]

/-- A host that knows no name. -/
def noLibraries : HostEnvironment := ⟨fun _ => 0, [], none⟩

def pairRelocated (info : UInt32) : EStateM.Result Failure ProbeState Unit :=
  (nfsmwRelocationProbe (pairHost info) sampleRuntime noLibraries (pairImages info)).run
    ⟨pairMapped info, {}, 0, 0⟩

/-- The provider exports `f` as a TLS symbol. The census counts it as provided, and both
entries of `lib` stay unresolved. -/
theorem tls_export_unpredicted :
    (elf32Map (pairHost 0x10016) (cstr "provider")).run .start = .ok () (providerMapped 0x10016) ∧
    (elf32Map (pairHost 0x10016) (cstr "lib")).run (providerMapped 0x10016) =
      .ok () (pairMapped 0x10016) ∧
    ImportsEarlier (pairMapped 0x10016).memory (pairImages 0x10016) ∧
    TargetsApart (pairMapped 0x10016).memory (pairImages 0x10016) ∧
    nfsmwProbeSymbols sampleRuntime noLibraries (pairMapped 0x10016).memory (pairImages 0x10016) =
      .ok { imports := 1, guestProvided := 1 } ∧
    pairRelocated 0x10016 = .ok () (Command.final (pairRelocated 0x10016)) ∧
    (Command.final (pairRelocated 0x10016)).unresolvedRelocations = 2 := by
  have hruns : Command.succeeded (pairRelocated 0x10016) = true ∧
      (Command.final (pairRelocated 0x10016)).unresolvedRelocations = 2 := by decide +kernel
  refine ⟨Command.eq_ok_of_succeeded ?_, Command.eq_ok_of_succeeded ?_, ?_,
    targetsApart_of_starts ?_, ?_, Command.eq_ok_of_succeeded hruns.1, hruns.2⟩ <;> decide +kernel

end NfsmwRuntime.Symbols
