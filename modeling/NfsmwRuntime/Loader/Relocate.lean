import NfsmwRuntime.Loader.LoadImage

/-!
# Relocating an image

`elf32Relocate` reads the relocation tables of a mapped image and patches the words they
name, one entry after the other, in the memory that also holds the tables and the symbols.
-/

namespace NfsmwRuntime.Loader

open Library

structure Elf32DynamicInfo where
  symbols : UInt32
  symbolCount : UInt32
  relocations : UInt32
  relocationCount : UInt32
  pltRelocations : UInt32
  pltRelocationCount : UInt32
  deriving DecidableEq, Repr

/-- The variables of the loop in `parse_relocation_info`. -/
structure RelocationScan where
  symbolAddress : UInt32 := 0
  hashAddress : UInt32 := 0
  relocationAddress : UInt32 := 0
  pltAddress : UInt32 := 0
  symbolSize : UInt32 := 0
  relocationSize : UInt32 := 0
  relocationEntrySize : UInt32 := 8
  pltSize : UInt32 := 0
  pltType : UInt32 := dtRel

def RelocationScan.step (loadBias : UInt32) (scan : RelocationScan) (entry : Elf32Dyn) :
    RelocationScan :=
  let pointer := loadBias + entry.val
  if entry.tag = dtSymtab then { scan with symbolAddress := pointer }
  else if entry.tag = dtSyment then { scan with symbolSize := entry.val }
  else if entry.tag = dtHash then { scan with hashAddress := pointer }
  else if entry.tag = dtRel then { scan with relocationAddress := pointer }
  else if entry.tag = dtRelsz then { scan with relocationSize := entry.val }
  else if entry.tag = dtRelent then { scan with relocationEntrySize := entry.val }
  else if entry.tag = dtJmprel then { scan with pltAddress := pointer }
  else if entry.tag = dtPltrelsz then { scan with pltSize := entry.val }
  else if entry.tag = dtPltrel then { scan with pltType := entry.val }
  else scan

def parseRelocationInfo (m : Memory) (image : Elf32Image) :
    Except Failure Elf32DynamicInfo := do
  let scan := (dynamicEntries m image).foldl (RelocationScan.step image.loadBias) {}
  check (scan.symbolAddress ≠ 0 ∧ scan.symbolSize = 16 ∧ scan.hashAddress ≠ 0 ∧
      rangeInImage image scan.hashAddress 8)
    (setError "invalid dynamic symbol metadata in %s" [.string image.soname])
  let symbolCount := m.load32 (scan.hashAddress + 4)
  check (symbolCount ≠ 0 ∧ symbolCount ≤ 0xffffffff / 16 ∧
      rangeInImage image scan.symbolAddress (symbolCount * 16))
    (setError "invalid dynamic symbol count in %s" [.string image.soname])
  check (scan.relocationEntrySize = 8 ∧ scan.relocationSize % 8 = 0 ∧
      (scan.relocationSize = 0 ∨ rangeInImage image scan.relocationAddress scan.relocationSize))
    (setError "invalid REL table in %s" [.string image.soname])
  check (scan.pltType = dtRel ∧ scan.pltSize % 8 = 0 ∧
      (scan.pltSize = 0 ∨ rangeInImage image scan.pltAddress scan.pltSize))
    (setError "invalid PLT REL table in %s" [.string image.soname])
  pure {
    symbols := scan.symbolAddress
    symbolCount := symbolCount
    relocations := scan.relocationAddress
    relocationCount := scan.relocationSize / 8
    pltRelocations := scan.pltAddress
    pltRelocationCount := scan.pltSize / 8 }

/-! ## Symbols -/

/-- `elf32_symbol_resolver` without its context: a function of name and binding. -/
abbrev Resolver := CString → UInt32 → UInt32

/-- The string table from a symbol's name on. -/
def nameWindow (m : Memory) (image : Elf32Image) (symbol : Elf32Sym) : List UInt8 :=
  m.window (image.stringTable + symbol.name) (image.stringTableSize - symbol.name).toNat

theorem nameWindow_subset {image : Elf32Image} {symbol : Elf32Sym}
    (hname : symbol.name < image.stringTableSize) :
    span (image.stringTable + symbol.name) (image.stringTableSize - symbol.name).toNat ⊆
      span image.stringTable image.stringTableSize.toNat := by
  have hle := UInt32.le_iff_toNat_le.mp (UInt32.le_of_lt hname)
  have hsub := UInt32.toNat_sub_of_le _ _ (UInt32.le_of_lt hname)
  have hoffset : span (image.stringTable + .ofNat symbol.name.toNat)
      (image.stringTableSize - symbol.name).toNat ⊆
      span image.stringTable image.stringTableSize.toNat :=
    span_offset_subset (by omega) image.stringTableSize.toNat_lt.le
  rwa [UInt32.ofNat_toNat] at hoffset

/-- What the resolver answers, 0 if there is none. -/
def resolverAnswer (resolver : Option Resolver) (name : CString) (binding : UInt32) : UInt32 :=
  match resolver with
  | some resolve => resolve name binding
  | none => 0

/-- What `relocation_symbol` returns: 0 with a value, or 1 with a name. -/
inductive SymbolResult
  | value (value : UInt32)
  | unresolved (name : CString)
  deriving DecidableEq, Repr

def relocationSymbol (m : Memory) (image : Elf32Image) (info : Elf32DynamicInfo)
    (symbolIndex : UInt32) (resolver : Option Resolver) : Except Failure SymbolResult := do
  check (symbolIndex < info.symbolCount) (setError "relocation symbol index out of range" [])
  let symbol := symbolEntry m info.symbols symbolIndex.toNat
  check (symbol.name < image.stringTableSize) (setError "invalid relocation symbol name" [])
  let name := cstring (nameWindow m image symbol)
  check (0 ∈ nameWindow m image symbol) (setError "unterminated relocation symbol name" [])
  if symbol.shndx ≠ shnUndef then
    check (symbol.type ≠ sttGnuIfunc) (setError "GNU IFUNC is unsupported: %s" [.text name])
    check (symbol.type ≠ sttTls) (setError "TLS symbol is unsupported: %s" [.text name])
    pure (.value (if symbol.shndx = shnAbs then symbol.value else image.loadBias + symbol.value))
  else
    let answer := resolverAnswer resolver name symbol.binding
    pure (if answer ≠ 0 then .value answer
      else if symbol.binding = stbWeak then .value 0
      else .unresolved name)

/-! ## Relocations -/

def RelocationStats.countRelative (stats : RelocationStats) : RelocationStats :=
  { stats with relative := stats.relative + 1 }

/-- Count an entry that names a symbol. -/
def RelocationStats.countSymbol (type : UInt32) (stats : RelocationStats) : RelocationStats :=
  if type = rArmAbs32 then { stats with absolute := stats.absolute + 1 }
  else if type = rArmGlobDat then { stats with globalData := stats.globalData + 1 }
  else { stats with jumpSlots := stats.jumpSlots + 1 }

def State.storeWord (target value : UInt32) (s : State) : State :=
  { s with memory := s.memory.store32 target value }

/-- Count an unresolved entry and keep the first one's name. -/
def State.countUnresolved (name : CString) (s : State) : State :=
  { s with
    stats := { s.stats with unresolved := s.stats.unresolved + 1 }
    firstUnresolved := s.firstUnresolved <|> some name }

def Elf32Rel.target (relocation : Elf32Rel) (image : Elf32Image) : UInt32 :=
  image.loadBias + relocation.offset

/-- The types that name a symbol. -/
def namesSymbol (type : UInt32) : Prop :=
  type = rArmAbs32 ∨ type = rArmGlobDat ∨ type = rArmJumpSlot

instance (type : UInt32) : Decidable (namesSymbol type) :=
  inferInstanceAs (Decidable (_ ∨ _ ∨ _))

/-- The body of the loop in `apply_relocations`. -/
def applyRelocation (image : Elf32Image) (info : Elf32DynamicInfo) (resolver : Option Resolver)
    (table : UInt32) (index : Nat) : LoaderM Unit := do
  let s ← get
  let relocation := relocationEntry s.memory table index
  let type := relocation.type
  let target := relocation.target image
  Command.lift (check (rangeInImage image target 4)
    (setError "relocation target outside %s at index %zu"
      [.string image.soname, .number index]))
  let addend := s.memory.load32 target
  if type = rArmRelative then
    modify fun s => { s with stats := s.stats.countRelative }
    modify (State.storeWord target (image.loadBias + addend))
  else if namesSymbol type then
    modify fun s => { s with stats := s.stats.countSymbol type }
    match ← Command.lift (relocationSymbol s.memory image info relocation.symbol resolver) with
    | .unresolved name => modify (State.countUnresolved name)
    | .value value =>
      modify (State.storeWord target (if type = rArmAbs32 then value + addend else value))
  else
    throw (setError "unsupported ARM relocation type %u in %s at index %zu"
      [.number type.toNat, .string image.soname, .number index])

def applyRelocations (image : Elf32Image) (info : Elf32DynamicInfo)
    (resolver : Option Resolver) (table count : UInt32) : LoaderM Unit :=
  forM (List.range count.toNat) (applyRelocation image info resolver table)

/-- `elf32_relocate` up to its two tables. -/
def relocationSetup (host : Host) (image : Elf32Image) : LoaderM Elf32DynamicInfo := do
  Command.lift (check (image.mapping ≠ 0) (setError "invalid relocation arguments" []))
  modify fun s => { s with stats := {}, firstUnresolved := none }
  let s ← get
  let info ← Command.lift (parseRelocationInfo s.memory image)
  setSegmentsWritable host image
  pure info

def elf32Relocate (host : Host) (image : Elf32Image) (resolver : Option Resolver) :
    LoaderM Unit := do
  let info ← relocationSetup host image
  let result ← Command.capture do
    applyRelocations image info resolver info.relocations info.relocationCount
    applyRelocations image info resolver info.pltRelocations info.pltRelocationCount
  protectSegments host image
  Command.lift result

/-- The entries of both tables, in the order in which they are read: table and index. -/
def Elf32DynamicInfo.places (info : Elf32DynamicInfo) : List (UInt32 × Nat) :=
  (List.range info.relocationCount.toNat).map (Prod.mk info.relocations) ++
    (List.range info.pltRelocationCount.toNat).map (Prod.mk info.pltRelocations)

theorem forM_places (image : Elf32Image) (info : Elf32DynamicInfo) (resolver : Option Resolver) :
    (forM info.places fun place => applyRelocation image info resolver place.1 place.2) = (do
      applyRelocations image info resolver info.relocations info.relocationCount
      applyRelocations image info resolver info.pltRelocations info.pltRelocationCount) := by
  rw [Elf32DynamicInfo.places, List.forM_append, List.forM_map, List.forM_map]
  rfl

theorem elf32Relocate_eq (host : Host) (image : Elf32Image) (resolver : Option Resolver) :
    elf32Relocate host image resolver = (do
      let info ← relocationSetup host image
      let result ← Command.capture
        (forM info.places fun place => applyRelocation image info resolver place.1 place.2)
      protectSegments host image
      Command.lift result) := by
  simp only [elf32Relocate, forM_places]

/-- The tables are read before their segments are made writable. -/
theorem relocationSetup_eq_ok {host : Host} {image : Elf32Image} {s t : State}
    {info : Elf32DynamicInfo} (h : (relocationSetup host image).run s = .ok info t) :
    parseRelocationInfo s.memory image = .ok info ∧
      (setSegmentsWritable host image).run { s with stats := {}, firstUnresolved := none } =
        .ok () t := by
  obtain ⟨_, s₁, hcheck, h₁⟩ := Command.run_bind_eq_ok.mp h
  obtain ⟨-, rfl⟩ := Command.run_lift_eq_ok.mp hcheck
  obtain ⟨_, s₂, hreset, h₂⟩ := Command.run_bind_eq_ok.mp h₁
  cases hreset
  rw [Command.run_get_bind] at h₂
  obtain ⟨_, s₃, hparse, h₃⟩ := Command.run_bind_eq_ok.mp h₂
  obtain ⟨hparsed, rfl⟩ := Command.run_lift_eq_ok.mp hparse
  obtain ⟨_, s₄, hwritable, hpure⟩ := Command.run_bind_eq_ok.mp h₃
  cases hpure
  exact ⟨hparsed, hwritable⟩

/-- A relocation that returns 0 has applied both tables. -/
theorem elf32Relocate_steps {host : Host} {image : Elf32Image} {resolver : Option Resolver}
    {s t : State} (h : (elf32Relocate host image resolver).run s = .ok () t) :
    ∃ info u v, (relocationSetup host image).run s = .ok info u ∧
      (forM info.places fun place => applyRelocation image info resolver place.1 place.2).run u =
        .ok () v ∧
      (protectSegments host image).run v = .ok () t := by
  rw [elf32Relocate_eq] at h
  obtain ⟨info, u, hsetup, h₁⟩ := Command.run_bind_eq_ok.mp h
  obtain ⟨_, v, hcapture, h₂⟩ := Command.run_bind_eq_ok.mp h₁
  obtain ⟨_, w, hprotect, hresult⟩ := Command.run_bind_eq_ok.mp h₂
  obtain ⟨rfl, rfl⟩ := Command.run_lift_eq_ok.mp hresult
  exact ⟨info, u, v, hsetup, Command.run_capture_ok hcapture, hprotect⟩

/-! ## Exports -/

/-- The symbol is a definition that other images can bind to `name`. -/
def Elf32Sym.exports (symbol : Elf32Sym) (m : Memory) (image : Elf32Image) (name : CString) :
    Prop :=
  symbol.shndx ≠ shnUndef ∧ (symbol.binding = stbGlobal ∨ symbol.binding = stbWeak) ∧
    symbol.name < image.stringTableSize ∧ 0 ∈ nameWindow m image symbol ∧
    cstring (nameWindow m image symbol) = name

instance (symbol : Elf32Sym) (m : Memory) (image : Elf32Image) (name : CString) :
    Decidable (symbol.exports m image name) :=
  inferInstanceAs (Decidable (_ ∧ _ ∧ _ ∧ _ ∧ _))

def elf32FindExport (m : Memory) (image : Elf32Image) (name : CString) : UInt32 :=
  match parseRelocationInfo m image with
  | .error _ => 0
  | .ok info =>
    let symbols := (List.range info.symbolCount.toNat).map (symbolEntry m info.symbols)
    match symbols.find? fun symbol => symbol.exports m image name with
    | none => 0
    | some symbol =>
      if symbol.type = sttTls then 0
      else if symbol.shndx = shnAbs then symbol.value
      else image.loadBias + symbol.value

end NfsmwRuntime.Loader
