import NfsmwRuntime.Loader.MappedHeaders

/-!
# Symbols and strings of the dynamic table

A symbol has its value computed in two places, for the module's own relocations and for an
importer, and a string of the dynamic string table is used in four. The two places check
different symbol types, and two of the four do not check that the string ends in the table.
-/

namespace NfsmwRuntime.Loader

open Library

/-! ## Exported symbols -/

/-- The dynamic symbol with which `elf32_find_export` leaves its loop. -/
def exportIndex (m : Memory) (image : Elf32Image) (info : Elf32DynamicInfo) (name : CString) :
    Option Nat :=
  (List.range info.symbolCount.toNat).find? fun index =>
    (symbolEntry m info.symbols index).exports m image name

/-- What an importer gets for a name is what the image's own relocations get for the same
symbol. -/
def SymbolsAgree (m : Memory) (image : Elf32Image) (name : CString) : Prop :=
  ∀ info index, parseRelocationInfo m image = .ok info →
    exportIndex m image info name = some index → elf32FindExport m image name ≠ 0 →
    ∀ resolver, relocationSymbol m image info (.ofNat index) resolver =
      .ok (.value (elf32FindExport m image name))

variable {m : Memory} {image : Elf32Image} {info : Elf32DynamicInfo} {name : CString}

theorem elf32FindExport_of_index {index : Nat} (hinfo : parseRelocationInfo m image = .ok info)
    (hindex : exportIndex m image info name = some index) :
    elf32FindExport m image name =
      if (symbolEntry m info.symbols index).type = sttTls then 0
      else if (symbolEntry m info.symbols index).shndx = shnAbs then
        (symbolEntry m info.symbols index).value
      else image.loadBias + (symbolEntry m info.symbols index).value := by
  have hfind : (((List.range info.symbolCount.toNat).map (symbolEntry m info.symbols)).find?
      fun symbol => symbol.exports m image name) = some (symbolEntry m info.symbols index) := by
    rw [List.find?_map]
    exact congrArg (Option.map _) hindex
  simp only [elf32FindExport, hinfo, hfind]

/-- A defined symbol of the table is refused only for its type. -/
theorem relocationSymbol_exported {index : Nat} (resolver : Option Resolver)
    (hindex : exportIndex m image info name = some index)
    (htls : (symbolEntry m info.symbols index).type ≠ sttTls) :
    (symbolEntry m info.symbols index).type ≠ sttGnuIfunc ↔
      relocationSymbol m image info (.ofNat index) resolver = .ok (.value
        (if (symbolEntry m info.symbols index).shndx = shnAbs then
          (symbolEntry m info.symbols index).value
        else image.loadBias + (symbolEntry m info.symbols index).value)) := by
  have hlt : index < info.symbolCount.toNat :=
    List.mem_range.mp (List.mem_of_find?_eq_some hindex)
  have hexports : (symbolEntry m info.symbols index).exports m image name := by
    simpa using List.find?_some hindex
  have htoNat : (UInt32.ofNat index).toNat = index :=
    UInt32.toNat_ofNat_of_lt (hlt.trans info.symbolCount.toNat_lt)
  have hrange : UInt32.ofNat index < info.symbolCount := by
    rwa [UInt32.lt_iff_toNat_lt, htoNat]
  rw [relocationSymbol, check_of hrange, ok_bind]
  simp only [htoNat]
  obtain ⟨hdefined, -, hname, hnul, -⟩ := hexports
  generalize symbolEntry m info.symbols index = symbol at *
  simp only [check_of hname, check_of hnul, ok_bind, if_pos hdefined]
  by_cases hifunc : symbol.type = sttGnuIfunc
  · simp only [check, hifunc, ne_eq, not_true_eq_false, if_false, false_iff]
    rintro ⟨⟩
  · simp only [check_of hifunc, check_of htls, ok_bind]
    exact iff_of_true hifunc rfl

/-- An exported symbol agrees with the module's own relocations exactly if it is not a GNU
IFUNC. -/
theorem symbolsAgree_iff :
    SymbolsAgree m image name ↔
      ∀ info index, parseRelocationInfo m image = .ok info →
        exportIndex m image info name = some index → elf32FindExport m image name ≠ 0 →
        (symbolEntry m info.symbols index).type ≠ sttGnuIfunc := by
  refine forall_congr' fun info => forall_congr' fun index => forall_congr' fun hinfo =>
    forall_congr' fun hindex => forall_congr' fun hne => ?_
  have hexport := elf32FindExport_of_index hinfo hindex
  have htls : (symbolEntry m info.symbols index).type ≠ sttTls := by
    intro htls
    rw [if_pos htls] at hexport
    exact hne hexport
  rw [hexport, if_neg htls]
  exact ⟨fun h => (relocationSymbol_exported none hindex htls).mpr (h none),
    fun h resolver => (relocationSymbol_exported resolver hindex htls).mp h⟩

/-- The sample file with a GNU IFUNC at 0x100 for its symbol `f`. -/
def ifuncFile : List UInt8 := ((sampleFile.set 233 1).set 240 0x1a).set 242 1

def ifuncHost : Host := { sampleHost with openFile := fun _ => .ok ifuncFile }

def ifuncMapped : State := Command.final ((elf32Map ifuncHost (cstr "lib")).run .start)

def ifuncInfo : Elf32DynamicInfo := ⟨0x400000d4, 2, 0x400000fc, 2, 0x4000010c, 1⟩

/-- An importer gets the address of the IFUNC that the module itself is refused. -/
theorem not_symbolsAgree_ifunc :
    (elf32Map ifuncHost (cstr "lib")).run .start = .ok () ifuncMapped ∧
    elf32FindExport ifuncMapped.memory ifuncMapped.image (cstr "f") = 0x40000100 ∧
    relocationSymbol ifuncMapped.memory ifuncMapped.image ifuncInfo 1 none =
      .error (setError "GNU IFUNC is unsupported: %s" [.text (cstr "f")]) ∧
    ¬ SymbolsAgree ifuncMapped.memory ifuncMapped.image (cstr "f") := by
  have hexport : elf32FindExport ifuncMapped.memory ifuncMapped.image (cstr "f") =
      0x40000100 := by decide +kernel
  have hrefused : relocationSymbol ifuncMapped.memory ifuncMapped.image ifuncInfo 1 none =
      .error (setError "GNU IFUNC is unsupported: %s" [.text (cstr "f")]) := by decide +kernel
  refine ⟨Command.eq_ok_of_succeeded (by decide +kernel), hexport, hrefused, fun h => ?_⟩
  have hinfo : parseRelocationInfo ifuncMapped.memory ifuncMapped.image = .ok ifuncInfo := by
    decide +kernel
  have hindex : exportIndex ifuncMapped.memory ifuncMapped.image ifuncInfo (cstr "f") =
      some 1 := by decide +kernel
  have hne : elf32FindExport ifuncMapped.memory ifuncMapped.image (cstr "f") ≠ 0 := by
    rw [hexport]
    decide
  cases hrefused.symm.trans (h ifuncInfo 1 hinfo hindex hne none)

/-! ## Strings of the table -/

/-- The string starts in the string table and has its first NUL there. -/
def Terminated (m : Memory) (image : Elf32Image) (address : UInt32) : Prop :=
  image.stringTable.toNat ≤ address.toNat ∧
    ∃ k, address.toNat + k < image.stringTable.toNat + image.stringTableSize.toNat ∧
      m (address + .ofNat k) = 0

/-- The variables of the loop in `elf32_describe`, and what it has printed. -/
structure DescribeScan where
  printed : List Message
  relativeCount : UInt32 := 0
  relSize : UInt32 := 0
  pltSize : UInt32 := 0

/-- One turn of the loop; it is left with what has been printed. -/
def DescribeScan.step (image : Elf32Image) (scan : DescribeScan) (entry : Elf32Dyn) :
    Except (List Message) DescribeScan :=
  if entry.tag = dtNeeded then
    if image.stringTableSize ≤ entry.val then .error scan.printed
    else .ok { scan with
      printed := scan.printed ++ [⟨"  needed=%s\n", [.string (image.stringTable + entry.val)]⟩] }
  else if entry.tag = dtRelsz then .ok { scan with relSize := entry.val }
  else if entry.tag = dtPltrelsz then .ok { scan with pltSize := entry.val }
  else if entry.tag = dtRelcount then .ok { scan with relativeCount := entry.val }
  else .ok scan

/-- The lines printed, on either stream, and the value returned. -/
def elf32Describe (m : Memory) (image : Elf32Image) : List Message × Int32 :=
  let title : Message := ⟨"module=%s soname=%s mapped=%zu bytes bias=0x%08lx\n",
    [.text (image.path.getD []), .string image.soname, .number image.mappingSize.toNat,
      .number image.loadBias.toNat]⟩
  match (dynamicEntries m image).foldlM (DescribeScan.step image) { printed := [title] } with
  | .error printed => (printed ++ [⟨"invalid DT_NEEDED string offset\n", []⟩], -1)
  | .ok scan =>
    (scan.printed ++ [⟨"  rel=%zu plt_rel=%zu relative_fastpath=%zu\n",
      [.number (scan.relSize / 8).toNat, .number (scan.pltSize / 8).toNat,
        .number scan.relativeCount.toNat]⟩], 0)

/-- The strings that a message prints from memory. -/
def Message.strings (message : Message) : List UInt32 :=
  message.arguments.filterMap fun
    | .string address => some address
    | _ => none

def describedStrings (m : Memory) (image : Elf32Image) : List UInt32 :=
  (elf32Describe m image).1.flatMap Message.strings

/-- The name that `relocation_symbol` passes to the resolver. -/
def resolverName (m : Memory) (image : Elf32Image) (info : Elf32DynamicInfo)
    (symbolIndex : UInt32) : Option UInt32 :=
  let symbol := symbolEntry m info.symbols symbolIndex.toNat
  if symbolIndex < info.symbolCount ∧ symbol.name < image.stringTableSize ∧
      0 ∈ nameWindow m image symbol ∧ symbol.shndx = shnUndef then
    some (image.stringTable + symbol.name)
  else none

/-- `elf32_find_export` compares the symbol's name with the one it looks for. -/
def Elf32Sym.Compared (symbol : Elf32Sym) (m : Memory) (image : Elf32Image) : Prop :=
  symbol.shndx ≠ shnUndef ∧ (symbol.binding = stbGlobal ∨ symbol.binding = stbWeak) ∧
    symbol.name < image.stringTableSize ∧ 0 ∈ nameWindow m image symbol

instance (symbol : Elf32Sym) (m : Memory) (image : Elf32Image) :
    Decidable (symbol.Compared m image) :=
  inferInstanceAs (Decidable (_ ∧ _ ∧ _ ∧ _))

/-- The candidates that are compared with a name, up to the symbol that has it. -/
def comparedNames (m : Memory) (image : Elf32Image) (name : CString) : List UInt32 :=
  match parseRelocationInfo m image with
  | .error _ => []
  | .ok info =>
    let symbols := (List.range info.symbolCount.toNat).map (symbolEntry m info.symbols)
    let seen := symbols.take (symbols.findIdx (fun symbol => symbol.exports m image name) + 1)
    (seen.filter fun symbol => symbol.Compared m image).map fun symbol =>
      image.stringTable + symbol.name

theorem exports_iff {symbol : Elf32Sym} :
    symbol.exports m image name ↔
      symbol.Compared m image ∧ cstring (nameWindow m image symbol) = name := by
  simp only [Elf32Sym.exports, Elf32Sym.Compared, and_assoc]

/-- The resolver is asked for the string at that address, if it is asked at all. -/
theorem relocationSymbol_resolverName (symbolIndex : UInt32) (resolve : Resolver) :
    relocationSymbol m image info symbolIndex (some resolve) =
      match resolverName m image info symbolIndex with
      | none => relocationSymbol m image info symbolIndex none
      | some address =>
        let symbol := symbolEntry m info.symbols symbolIndex.toNat
        let name := cstring (m.window address (image.stringTableSize - symbol.name).toNat)
        let answer := resolve name symbol.binding
        .ok (if answer ≠ 0 then .value answer
          else if symbol.binding = stbWeak then .value 0
          else .unresolved name) := by
  simp only [relocationSymbol, resolverName]
  generalize symbolEntry m info.symbols symbolIndex.toNat = symbol
  by_cases hasked : symbolIndex < info.symbolCount ∧ symbol.name < image.stringTableSize ∧
      0 ∈ nameWindow m image symbol ∧ symbol.shndx = shnUndef
  · obtain ⟨hindex, hname, hnul, hundefined⟩ := hasked
    simp only [hindex, hname, hnul, hundefined, and_self, if_true, check_of, ok_bind, ne_eq,
      not_true_eq_false, if_false]
    rfl
  · rw [if_neg hasked]
    by_cases hindex : symbolIndex < info.symbolCount
    · by_cases hname : symbol.name < image.stringTableSize
      · by_cases hnul : 0 ∈ nameWindow m image symbol
        · have hdefined : symbol.shndx ≠ shnUndef := fun h => hasked ⟨hindex, hname, hnul, h⟩
          simp only [if_pos hdefined]
        · simp only [check, if_neg hnul]
          rfl
      · simp only [check, if_neg hname]
        rfl
    · simp only [check, if_neg hindex]
      rfl

/-! ## Which offsets are safe -/

/-- The offset is before the last NUL of the string table. -/
def EndsInTable (m : Memory) (image : Elf32Image) (offset : UInt32) : Prop :=
  offset.toNat + ((m.window image.stringTable image.stringTableSize.toNat).rtakeWhile
    (· ≠ 0)).length < image.stringTableSize.toNat

/-- The `DT_NEEDED` offsets up to the first one outside of the table. -/
def neededOffsets (m : Memory) (image : Elf32Image) : List UInt32 :=
  (((dynamicEntries m image).filter fun entry => entry.tag = dtNeeded).map Elf32Dyn.val).takeWhile
    fun offset => offset < image.stringTableSize

/-- The last `DT_SONAME` entry. -/
def sonameEntry (m : Memory) (image : Elf32Image) : Option Elf32Dyn :=
  ((dynamicEntries m image).filter fun entry => entry.tag = dtSoname).getLast?

/-- The offsets that are used without a check for a terminator are before the last NUL. -/
structure NamesEnd (m : Memory) (image : Elf32Image) : Prop where
  soname : ∀ entry, sonameEntry m image = some entry → EndsInTable m image entry.val
  needed : ∀ offset ∈ neededOffsets m image, EndsInTable m image offset

theorem terminated_iff {offset : UInt32}
    (hfits : image.stringTable.toNat + image.stringTableSize.toNat ≤ 2 ^ 32)
    (hoffset : offset < image.stringTableSize) :
    Terminated m image (image.stringTable + offset) ↔ EndsInTable m image offset := by
  have hlt := UInt32.lt_iff_toNat_lt.mp hoffset
  have haddress : (image.stringTable + offset).toNat = image.stringTable.toNat + offset.toNat := by
    rw [UInt32.toNat_add, Nat.mod_eq_of_lt (by omega)]
  have hbyte : ∀ k, m (image.stringTable + offset + .ofNat k) =
      m (image.stringTable + .ofNat (offset.toNat + k)) := by
    intro k
    rw [UInt32.ofNat_add, UInt32.ofNat_toNat, UInt32.add_assoc]
  have hlength : (m.window image.stringTable image.stringTableSize.toNat).length =
      image.stringTableSize.toNat := by simp [Memory.window]
  have htail := exists_ge_iff_rtakeWhile (· ≠ 0)
    (m.window image.stringTable image.stringTableSize.toNat) offset.toNat
  rw [hlength] at htail
  rw [EndsInTable, ← htail, Terminated, haddress]
  constructor
  · rintro ⟨-, k, hk, hnul⟩
    refine ⟨offset.toNat + k, 0, by omega, ?_, by simp⟩
    rw [List.getElem?_eq_getElem (by omega)]
    simpa [Memory.window, UInt32.add_assoc] using hnul
  · rintro ⟨i, x, hi, hx, hnul⟩
    obtain ⟨hlt', hget⟩ := List.getElem?_eq_some_iff.mp hx
    have hzero : x = 0 := by simpa using hnul
    refine ⟨by omega, i - offset.toNat, by omega, ?_⟩
    rw [hbyte, Nat.add_sub_cancel' hi, ← hzero, ← hget]
    simp [Memory.window]

/-- What a loop has printed, however it was left. -/
def DescribeScan.output : Except (List Message) DescribeScan → List Message
  | .error printed => printed
  | .ok scan => scan.printed

theorem describe_loop {entries : List Elf32Dyn} {scan : DescribeScan} :
    (DescribeScan.output (entries.foldlM (DescribeScan.step image) scan)).flatMap
        Message.strings =
      scan.printed.flatMap Message.strings ++
        (((entries.filter fun entry => entry.tag = dtNeeded).map Elf32Dyn.val).takeWhile
          fun offset => offset < image.stringTableSize).map (image.stringTable + ·) := by
  induction entries generalizing scan with
  | nil => simp [DescribeScan.output, pure, Except.pure]
  | cons entry entries ih =>
    rw [List.foldlM_cons]
    by_cases hneeded : entry.tag = dtNeeded
    · by_cases hinside : entry.val < image.stringTableSize
      · have hstep : DescribeScan.step image scan entry = .ok { scan with
            printed := scan.printed ++
              [⟨"  needed=%s\n", [.string (image.stringTable + entry.val)]⟩] } := by
          rw [DescribeScan.step, if_pos hneeded, if_neg (UInt32.not_le.mpr hinside)]
        rw [hstep, ok_bind, ih]
        simp [hneeded, hinside, Message.strings]
      · have hstep : DescribeScan.step image scan entry = .error scan.printed := by
          rw [DescribeScan.step, if_pos hneeded, if_pos (UInt32.not_lt.mp hinside)]
        rw [hstep]
        simp [hneeded, hinside, Bind.bind, Except.bind, DescribeScan.output]
    · obtain ⟨next, hstep, hprinted⟩ : ∃ next, DescribeScan.step image scan entry = .ok next ∧
          next.printed = scan.printed := by
        unfold DescribeScan.step
        rw [if_neg hneeded]
        split_ifs <;> exact ⟨_, rfl, rfl⟩
      rw [hstep, ok_bind, ih, hprinted]
      simp [hneeded]

/-- The strings that `elf32_describe` prints are the name and the needed names. -/
theorem describedStrings_eq :
    describedStrings m image =
      image.soname :: (neededOffsets m image).map (image.stringTable + ·) := by
  have hloop := @describe_loop image (dynamicEntries m image)
    { printed := [⟨"module=%s soname=%s mapped=%zu bytes bias=0x%08lx\n",
        [.text (image.path.getD []), .string image.soname, .number image.mappingSize.toNat,
          .number image.loadBias.toNat]⟩] }
  rw [describedStrings, elf32Describe, neededOffsets]
  cases hresult : (dynamicEntries m image).foldlM (DescribeScan.step image) _ with
  | error printed =>
    rw [hresult] at hloop
    simpa [DescribeScan.output, Message.strings] using hloop
  | ok scan =>
    rw [hresult] at hloop
    simpa [DescribeScan.output, Message.strings] using hloop

theorem foldlM_step_soname {entries : List Elf32Dyn} {loadBias : UInt32}
    {scan last : DynamicScan} (h : entries.foldlM (DynamicScan.step loadBias) scan = .ok last) :
    match (entries.filter fun entry => entry.tag = dtSoname).getLast? with
    | none => last.sonameSeen = scan.sonameSeen
    | some entry => last.sonameOffset = entry.val := by
  induction entries using List.reverseRecOn generalizing last with
  | nil =>
    cases h
    rfl
  | append_singleton entries entry ih =>
    rw [List.foldlM_append] at h
    obtain ⟨mid, hmid, h⟩ := bind_eq_ok.mp h
    obtain ⟨next, hstep, h⟩ := bind_eq_ok.mp h
    cases h
    rw [List.filter_append]
    by_cases hsoname : entry.tag = dtSoname
    · have hnext : DynamicScan.step loadBias mid entry =
          .ok { mid with sonameOffset := entry.val, sonameSeen := true } := by
        simp [DynamicScan.step, hsoname, dtSoname, dtStrtab, dtStrsz]
      cases hnext.symm.trans hstep
      simp [hsoname]
    · have hkept : last.sonameOffset = mid.sonameOffset ∧ last.sonameSeen = mid.sonameSeen := by
        unfold DynamicScan.step at hstep
        split_ifs at hstep <;> cases hstep <;> exact ⟨rfl, rfl⟩
      rw [hkept.1, hkept.2]
      simpa [hsoname] using ih hmid

theorem parseDynamic_soname {next : Elf32Image} (h : parseDynamic m image = .ok next) :
    ∃ entry, sonameEntry m image = some entry ∧ entry.val < next.stringTableSize ∧
      next.soname = next.stringTable + entry.val := by
  obtain ⟨scan, hscan, h⟩ := bind_eq_ok.mp h
  obtain ⟨_, _, h⟩ := bind_eq_ok.mp h
  obtain ⟨_, _, h⟩ := bind_eq_ok.mp h
  obtain ⟨_, hsoname, h⟩ := bind_eq_ok.mp h
  cases h
  obtain ⟨hseen, hoffset⟩ := check_eq_ok.mp hsoname
  have hloop := foldlM_step_soname hscan
  cases hentry : sonameEntry m image with
  | none =>
    rw [sonameEntry] at hentry
    rw [hentry] at hloop
    exact absurd (hloop.symm.trans hseen) Bool.false_ne_true
  | some entry =>
    rw [sonameEntry] at hentry
    rw [hentry] at hloop
    exact ⟨entry, rfl, hloop ▸ hoffset, by rw [hloop]⟩

/-- A checked range does not wrap. -/
theorem rangeInImage_fits {address length : UInt32} (h : rangeInImage image address length) :
    address.toNat + length.toNat ≤ 2 ^ 32 := by
  obtain ⟨-, -, hstop, hlength⟩ := h
  have hle := UInt32.le_iff_toNat_le.mp hlength
  rw [UInt32.toNat_sub_of_le _ _ hstop] at hle
  have := UInt32.le_iff_toNat_le.mp hstop
  have := (image.mapping + image.mappingSize).toNat_lt
  omega

/-- A name that has been checked with `memchr` ends in the table. -/
theorem terminated_of_nul {symbol : Elf32Sym}
    (hfits : image.stringTable.toNat + image.stringTableSize.toNat ≤ 2 ^ 32)
    (hname : symbol.name < image.stringTableSize) (hnul : 0 ∈ nameWindow m image symbol) :
    Terminated m image (image.stringTable + symbol.name) := by
  have hlt := UInt32.lt_iff_toNat_lt.mp hname
  have haddress : (image.stringTable + symbol.name).toNat =
      image.stringTable.toNat + symbol.name.toNat := by
    rw [UInt32.toNat_add, Nat.mod_eq_of_lt (by omega)]
  obtain ⟨k, hk, hbyte⟩ := List.mem_map.mp hnul
  have hk := List.mem_range.mp hk
  rw [UInt32.toNat_sub_of_le _ _ (UInt32.le_of_lt hname)] at hk
  exact ⟨by omega, k, by omega, hbyte⟩

/-- The strings that the loader exposes or reads after a mapping. A relocation may have
changed the memory before symbols are looked up. -/
structure StringsTerminated (m : Memory) (image : Elf32Image) : Prop where
  soname : Terminated m image image.soname
  described : ∀ address ∈ describedStrings m image, Terminated m image address
  resolved : ∀ m' info symbolIndex address,
    resolverName m' image info symbolIndex = some address → Terminated m' image address
  compared : ∀ m' name, ∀ address ∈ comparedNames m' image name, Terminated m' image address

/-- Every string that is taken from the string table ends there exactly if the module's name
and the needed names do, which are not checked. -/
theorem stringsTerminated_iff {host : Host} {path : CString} {s t : State}
    (h : (elf32Map host path).run s = .ok () t) :
    StringsTerminated t.memory t.image ↔ NamesEnd t.memory t.image := by
  obtain ⟨u, found, image, -, -, hparse, hprotect⟩ := mapFile_steps (elf32Map_eq_ok h)
  have hkept := protectSegments_contents hprotect
  have himage : t.image = image := congrArg (·.2.1) hkept
  have hmemory : t.memory = u.memory := congrArg (·.1) hkept
  rw [himage, hmemory]
  have hfits := rangeInImage_fits (parseDynamic_strings hparse)
  obtain ⟨entry, hentry, hoffset, hsoname⟩ := parseDynamic_soname hparse
  have hentries : sonameEntry u.memory image = sonameEntry u.memory found := by
    obtain ⟨_, _, _, rfl⟩ := parseDynamic_eq_ok hparse
    rfl
  constructor
  · intro hall
    refine ⟨fun last hlast => ?_, fun offset hneeded => ?_⟩
    · obtain rfl := Option.some.inj (hentry.symm.trans (hentries.symm.trans hlast))
      rw [← terminated_iff hfits hoffset, ← hsoname]
      exact hall.soname
    · have hinside : offset < image.stringTableSize := by
        simpa using List.mem_takeWhile_imp hneeded
      rw [← terminated_iff hfits hinside]
      refine hall.described _ ?_
      rw [describedStrings_eq]
      exact List.mem_cons_of_mem _ (List.mem_map_of_mem hneeded)
  · intro hends
    have hname : Terminated u.memory image image.soname := by
      rw [hsoname, terminated_iff hfits hoffset]
      exact hends.soname entry (hentries.trans hentry)
    refine ⟨hname, fun address haddress => ?_, fun m' info symbolIndex address hasked => ?_,
      fun m' name address hcompared => ?_⟩
    · rw [describedStrings_eq] at haddress
      rcases List.mem_cons.mp haddress with rfl | hneeded
      · exact hname
      · obtain ⟨offset, hoffsets, rfl⟩ := List.mem_map.mp hneeded
        have hinside : offset < image.stringTableSize := by
          simpa using List.mem_takeWhile_imp hoffsets
        exact (terminated_iff hfits hinside).mpr (hends.needed offset hoffsets)
    · unfold resolverName at hasked
      dsimp only at hasked
      split_ifs at hasked with hchecks
      obtain rfl := Option.some.inj hasked
      exact terminated_of_nul hfits hchecks.2.1 hchecks.2.2.1
    · unfold comparedNames at hcompared
      split at hcompared
      · exact absurd hcompared List.not_mem_nil
      · obtain ⟨symbol, hsymbol, rfl⟩ := List.mem_map.mp hcompared
        obtain ⟨-, -, hinside, hnul⟩ := of_decide_eq_true (List.mem_filter.mp hsymbol).2
        exact terminated_of_nul hfits hinside hnul

theorem stringsTerminated_iff_sample :
    StringsTerminated sampleMapped.memory sampleMapped.image ↔
      NamesEnd sampleMapped.memory sampleMapped.image :=
  stringsTerminated_iff sampleMapped_run

/-- The sample file with a string table that ends before the NUL behind its name. -/
def cutFile : List UInt8 := sampleFile.set 128 4

def cutHost : Host := { sampleHost with openFile := fun _ => .ok cutFile }

def cutMapped : State := Command.final ((elf32Map cutHost (cstr "lib")).run .start)

/-- The mapping returns 0, and the name runs out of the string table. -/
theorem not_stringsTerminated_cut :
    (elf32Map cutHost (cstr "lib")).run .start = .ok () cutMapped ∧
    cutMapped.image.stringTable = 0x40000114 ∧ cutMapped.image.stringTableSize = 4 ∧
    cutMapped.image.soname = 0x40000115 ∧
    ¬ StringsTerminated cutMapped.memory cutMapped.image := by
  have himage : cutMapped.image.stringTable = 0x40000114 ∧
      cutMapped.image.stringTableSize = 4 ∧ cutMapped.image.soname = 0x40000115 := by
    decide +kernel
  have hbytes : ∀ k < 3, cutMapped.memory (0x40000115 + .ofNat k) ≠ 0 := by decide +kernel
  refine ⟨Command.eq_ok_of_succeeded (by decide +kernel), himage.1, himage.2.1, himage.2.2,
    fun h => ?_⟩
  obtain ⟨-, k, hk, hnul⟩ := h.soname
  rw [himage.1, himage.2.1, himage.2.2] at hk
  rw [himage.2.2] at hnul
  exact hbytes k (by simp at hk; omega) hnul

end NfsmwRuntime.Loader
