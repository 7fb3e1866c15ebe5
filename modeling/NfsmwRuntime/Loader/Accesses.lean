import NfsmwRuntime.Loader.Pages
import NfsmwRuntime.Loader.Reference

/-!
# Accesses to an image

Every access that the loader makes to an image: to the program headers, the dynamic table,
the hash table, the symbols and their names, the relocation tables and the words that they
patch. Each has been checked to be in the reservation. It is permitted at the time it is made
exactly if all of it is on pages of segments, which the checks do not say: a table or a word
in a gap between two segments passes them.
-/

namespace NfsmwRuntime.Loader

open Library

/-! ## Accesses -/

/-- An access to an image: the calls before it, the addresses, and whether it writes them. A
record, a word or a string is accessed as a whole. -/
structure Access where
  calls : List Call
  start : UInt32
  length : Nat
  writes : Bool
  deriving DecidableEq, Repr

def State.reads (s : State) (start : UInt32) (length : Nat) : Access :=
  ⟨s.calls, start, length, false⟩

def State.writes (s : State) (start : UInt32) (length : Nat) : Access :=
  ⟨s.calls, start, length, true⟩

namespace Access

def addresses (a : Access) : Set UInt32 := span a.start a.length

instance (a : Access) (x : UInt32) : Decidable (x ∈ a.addresses) :=
  inferInstanceAs (Decidable (x ∈ span a.start a.length))

def needs (a : Access) : UInt32 := if a.writes then protWrite else protRead

/-- The protections allow the access at the time it is made. -/
def Permitted (a : Access) : Prop := ∀ x ∈ a.addresses, protectionAt a.calls x &&& a.needs ≠ 0

/-- The access falls on pages of the segments in a list. -/
def OnPages (image : Elf32Image) (headers : List Elf32Phdr) (a : Access) : Prop :=
  a.addresses ⊆ loadPages image headers

end Access

/-- The loop over the program headers reads up to the first `PT_DYNAMIC`. -/
def scanAccess (s : State) (image : Elf32Image) : Access :=
  let isDynamic := fun index =>
    (programHeader s.memory image.programHeaders index).type == ptDynamic
  let seen := (List.range image.programHeaderCount.toNat).findIdx isDynamic + 1
  s.reads image.programHeaders (Elf32Phdr.size * min seen image.programHeaderCount.toNat)

/-- The dynamic table up to `DT_NULL`. -/
def dynamicAccess (s : State) (image : Elf32Image) : Access :=
  s.reads image.dynamic (Elf32Dyn.size *
    min ((dynamicEntries s.memory image).length + 1) image.dynamicCount.toNat)

/-- The word of the hash table that `parse_relocation_info` reads. -/
def hashAccesses (s : State) (image : Elf32Image) : List Access :=
  let scan := (dynamicEntries s.memory image).foldl (RelocationScan.step image.loadBias) {}
  if scan.symbolAddress ≠ 0 ∧ scan.symbolSize = 16 ∧ scan.hashAddress ≠ 0 ∧
      rangeInImage image scan.hashAddress 8 then
    [s.reads (scan.hashAddress + .ofNat 4) 4]
  else []

def infoAccesses (s : State) (image : Elf32Image) : List Access :=
  dynamicAccess s image :: hashAccesses s image

/-- How much of a name is read: up to its terminator, or to the end of the string table. -/
def nameLength (m : Memory) (table size name : UInt32) : Nat :=
  min ((cstring (m.window (table + name) (size - name).toNat)).length + 1) (size - name).toNat

def nameAccess (s : State) (image : Elf32Image) (symbol : Elf32Sym) : Access :=
  s.reads (image.stringTable + symbol.name)
    (nameLength s.memory image.stringTable image.stringTableSize symbol.name)

def symbolAccess (s : State) (info : Elf32DynamicInfo) (index : Nat) : Access :=
  s.reads (info.symbols + .ofNat (Elf32Sym.size * index)) Elf32Sym.size

/-- What `relocation_symbol` reads. -/
def relocationSymbolAccesses (s : State) (image : Elf32Image) (info : Elf32DynamicInfo)
    (symbolIndex : UInt32) : List Access :=
  let symbol := symbolEntry s.memory info.symbols symbolIndex.toNat
  if symbolIndex < info.symbolCount then
    symbolAccess s info symbolIndex.toNat ::
      if symbol.name < image.stringTableSize then [nameAccess s image symbol] else []
  else []

/-- One turn of the loop in `apply_relocations`. -/
def relocationAccesses (image : Elf32Image) (info : Elf32DynamicInfo)
    (resolver : Option Resolver) (s : State) (place : UInt32 × Nat) : List Access :=
  let relocation := relocationEntry s.memory place.1 place.2
  let target := relocation.target image
  s.reads (place.1 + .ofNat (Elf32Rel.size * place.2)) Elf32Rel.size ::
    if rangeInImage image target 4 then
      s.reads target 4 ::
        if relocation.type = rArmRelative then [s.writes target 4]
        else if namesSymbol relocation.type then
          relocationSymbolAccesses s image info relocation.symbol ++
            match relocationSymbol s.memory image info relocation.symbol resolver with
            | .ok (.value _) => [s.writes target 4]
            | _ => []
        else []
    else []

/-- The program headers that a loop over page protections reads. The text of a failure does
not matter here. -/
def headerAccesses (host : Host) (phase : Phase) (bits : Elf32Phdr → UInt32)
    (image : Elf32Image) (s : State) : List Access :=
  Command.trace
    (fun index => get >>= fun t => changeSegment host phase none (fun _ => none) bits image
      (programHeader t.memory image.programHeaders index))
    (fun t index => t.reads (image.programHeaders + .ofNat (Elf32Phdr.size * index))
      Elf32Phdr.size)
    (List.range image.programHeaderCount.toNat) s

def protectAccesses (host : Host) : Elf32Image → State → List Access :=
  headerAccesses host .protect fun segment => protection segment.flags

def writableAccesses (host : Host) : Elf32Image → State → List Access :=
  headerAccesses host .writable fun _ => protReadWrite

/-- The accesses of `elf32_map`, from the state in which it has found the program headers. -/
def mapAccesses (host : Host) (s : State) : List Access :=
  scanAccess s s.image ::
    match findDynamic s.memory s.image with
    | .error _ => []
    | .ok found => dynamicAccess s found ::
      match parseDynamic s.memory found with
      | .error _ => []
      | .ok image => protectAccesses host image { s with image := image }

/-- The accesses of `elf32_relocate` up to its last loop. -/
def relocateAccesses (host : Host) (image : Elf32Image) (resolver : Option Resolver)
    (s : State) : List Access :=
  if image.mapping = 0 then []
  else infoAccesses s image ++
    match parseRelocationInfo s.memory image with
    | .error _ => []
    | .ok _ => writableAccesses host image { s with stats := {}, firstUnresolved := none } ++
      match (relocationSetup host image).run s with
      | .error .. => []
      | .ok info t => (Command.trace
          (fun place => applyRelocation image info resolver place.1 place.2)
          (relocationAccesses image info resolver) info.places t).flatten

/-- The accesses of the loop that restores the protections. -/
def restoreAccesses (host : Host) (image : Elf32Image) (resolver : Option Resolver)
    (s : State) : List Access :=
  match (relocationSetup host image).run s with
  | .error .. => []
  | .ok info t => protectAccesses host image (Command.final
      ((forM info.places fun place =>
        applyRelocation image info resolver place.1 place.2 : LoaderM Unit).run t))

/-- A symbol whose name `elf32_find_export` compares. -/
def Elf32Sym.candidate (symbol : Elf32Sym) (stringTableSize : UInt32) : Prop :=
  symbol.shndx ≠ shnUndef ∧ (symbol.binding = stbGlobal ∨ symbol.binding = stbWeak) ∧
    symbol.name < stringTableSize

instance (symbol : Elf32Sym) (size : UInt32) : Decidable (symbol.candidate size) :=
  inferInstanceAs (Decidable (_ ∧ _ ∧ _))

/-- The accesses of `elf32_find_export`, which reads the symbols up to the one it returns. -/
def exportAccesses (image : Elf32Image) (name : CString) (s : State) : List Access :=
  infoAccesses s image ++
    match parseRelocationInfo s.memory image with
    | .error _ => []
    | .ok info =>
      let symbols := (List.range info.symbolCount.toNat).map (symbolEntry s.memory info.symbols)
      let seen := symbols.findIdx (fun symbol => symbol.exports s.memory image name) + 1
      (List.range (min seen info.symbolCount.toNat)).flatMap fun index =>
        let symbol := symbolEntry s.memory info.symbols index
        symbolAccess s info index ::
          if symbol.candidate image.stringTableSize then [nameAccess s image symbol] else []

/-! ## Checked accesses are in the reservation -/

/-- The tables that the image itself names are inside it. -/
structure TablesInside (image : Elf32Image) : Prop where
  headers : image.headerTable ⊆ span image.mapping image.mappingSize.toNat
  headers_fit : Elf32Phdr.size * image.programHeaderCount.toNat ≤ 2 ^ 32
  dynamic : span image.dynamic (Elf32Dyn.size * image.dynamicCount.toNat) ⊆
    span image.mapping image.mappingSize.toNat
  strings : rangeInImage image image.stringTable image.stringTableSize

/-- The tables that the dynamic table names are inside the image. -/
structure InfoInside (image : Elf32Image) (info : Elf32DynamicInfo) : Prop where
  symbols_fit : Elf32Sym.size * info.symbolCount.toNat ≤ 2 ^ 32
  relocations_fit : Elf32Rel.size * info.relocationCount.toNat ≤ 2 ^ 32
  pltRelocations_fit : Elf32Rel.size * info.pltRelocationCount.toNat ≤ 2 ^ 32
  symbols : span info.symbols (Elf32Sym.size * info.symbolCount.toNat) ⊆
    span image.mapping image.mappingSize.toNat
  relocations : span info.relocations (Elf32Rel.size * info.relocationCount.toNat) ⊆
    span image.mapping image.mappingSize.toNat
  pltRelocations : span info.pltRelocations (Elf32Rel.size * info.pltRelocationCount.toNat) ⊆
    span image.mapping image.mappingSize.toNat

theorem div_eight_mul_le (size : UInt32) : 8 * (size / 8).toNat ≤ size.toNat := by
  have hdiv : (size / 8).toNat = size.toNat / 8 := rfl
  omega

theorem symbols_size_le {count : UInt32} (h : count ≤ 0xffffffff / 16) :
    Elf32Sym.size * count.toNat ≤ (count * 16).toNat := by
  have hle : count.toNat ≤ 268435455 := UInt32.le_iff_toNat_le.mp h
  rw [UInt32.toNat_mul]
  change 16 * count.toNat ≤ count.toNat * 16 % 2 ^ 32
  omega

theorem relocations_inside {image : Elf32Image} {address size : UInt32}
    (h : size = 0 ∨ rangeInImage image address size) :
    span address (Elf32Rel.size * (size / 8).toNat) ⊆
      span image.mapping image.mappingSize.toNat := by
  rcases h with rfl | hrange
  · intro x hx
    exact absurd hx (Nat.not_lt_zero _)
  · exact (span_mono (div_eight_mul_le size)).trans (rangeInImage_subset hrange)

theorem parseRelocationInfo_inside {m : Memory} {image : Elf32Image} {info : Elf32DynamicInfo}
    (h : parseRelocationInfo m image = .ok info) : InfoInside image info := by
  obtain ⟨hsymbols_fit, hrel_fit, hplt_fit⟩ := parseRelocationInfo_fits h
  obtain ⟨_, _, h₁⟩ := bind_eq_ok.mp h
  obtain ⟨_, hcount, h₂⟩ := bind_eq_ok.mp h₁
  obtain ⟨_, hrel, h₃⟩ := bind_eq_ok.mp h₂
  obtain ⟨_, hplt, h₄⟩ := bind_eq_ok.mp h₃
  cases h₄
  obtain ⟨-, hle, hsymbols⟩ := check_eq_ok.mp hcount
  exact ⟨hsymbols_fit, hrel_fit, hplt_fit,
    (span_mono (symbols_size_le hle)).trans (rangeInImage_subset hsymbols),
    relocations_inside (check_eq_ok.mp hrel).2.2, relocations_inside (check_eq_ok.mp hplt).2.2⟩

/-- A record of a table that is inside the image. -/
theorem record_inside {table : UInt32} {size count index : Nat} {s : Set UInt32}
    (hfit : size * count ≤ 2 ^ 32) (h : span table (size * count) ⊆ s) (hindex : index < count) :
    span (table + .ofNat (size * index)) size ⊆ s := by
  refine (span_offset_subset ?_ hfit).trans h
  rw [← Nat.mul_succ]
  exact Nat.mul_le_mul_left size hindex

/-- An access of a state to the reservation of an image. -/
structure Access.Checked (image : Elf32Image) (s : State) (mayWrite : Bool) (a : Access) :
    Prop where
  calls : a.calls = s.calls
  writes : a.writes = true → mayWrite = true
  inside : a.addresses ⊆ span image.mapping image.mappingSize.toNat

section Checked

variable {image : Elf32Image} {info : Elf32DynamicInfo} {s : State} {a : Access}

theorem checked_reads {start : UInt32} {length : Nat} {mayWrite : Bool}
    (h : span start length ⊆ span image.mapping image.mappingSize.toNat) :
    (s.reads start length).Checked image s mayWrite := ⟨rfl, nofun, h⟩

theorem infoAccesses_checked (h : TablesInside image) :
    ∀ a ∈ infoAccesses s image, a.Checked image s false := by
  refine List.forall_mem_cons.mpr ⟨checked_reads ?_, fun a ha => ?_⟩
  · exact (span_mono (Nat.mul_le_mul_left _ (Nat.min_le_right _ _))).trans h.dynamic
  · unfold hashAccesses at ha
    dsimp only at ha
    split at ha
    · rename_i hchecked
      rw [List.mem_singleton] at ha
      subst ha
      have hspan : span _ 8 ⊆ span _ _ := rangeInImage_subset hchecked.2.2.2
      exact checked_reads ((span_offset_subset (Nat.le_refl 8) (by decide)).trans hspan)
    · cases ha

theorem nameAccess_checked {symbol : Elf32Sym} {mayWrite : Bool} (h : TablesInside image)
    (hname : symbol.name < image.stringTableSize) :
    (nameAccess s image symbol).Checked image s mayWrite :=
  checked_reads ((span_mono (Nat.min_le_right _ _)).trans
    ((nameWindow_subset hname).trans (rangeInImage_subset h.strings)))

theorem symbolAccess_checked {index : Nat} {mayWrite : Bool} (h : InfoInside image info)
    (hindex : index < info.symbolCount.toNat) :
    (symbolAccess s info index).Checked image s mayWrite :=
  checked_reads (record_inside h.symbols_fit h.symbols hindex)

theorem relocationSymbolAccesses_checked {symbolIndex : UInt32} (h : TablesInside image)
    (hinfo : InfoInside image info) :
    ∀ a ∈ relocationSymbolAccesses s image info symbolIndex, a.Checked image s true := by
  intro a ha
  unfold relocationSymbolAccesses at ha
  dsimp only at ha
  split at ha
  · rename_i hindex
    rcases List.mem_cons.mp ha with rfl | ha
    · exact symbolAccess_checked hinfo (UInt32.lt_iff_toNat_lt.mp hindex)
    · split at ha
      · rename_i hname
        rw [List.mem_singleton] at ha
        subst ha
        exact nameAccess_checked h hname
      · cases ha
  · cases ha

theorem places_inside (h : InfoInside image info) {place : UInt32 × Nat}
    (hplace : place ∈ info.places) :
    span (place.1 + .ofNat (Elf32Rel.size * place.2)) Elf32Rel.size ⊆
      span image.mapping image.mappingSize.toNat := by
  rcases List.mem_append.mp hplace with hplace | hplace
  · obtain ⟨index, hindex, rfl⟩ := List.mem_map.mp hplace
    exact record_inside h.relocations_fit h.relocations (List.mem_range.mp hindex)
  · obtain ⟨index, hindex, rfl⟩ := List.mem_map.mp hplace
    exact record_inside h.pltRelocations_fit h.pltRelocations (List.mem_range.mp hindex)

theorem relocationAccesses_checked {resolver : Option Resolver} {place : UInt32 × Nat}
    (h : TablesInside image) (hinfo : InfoInside image info) (hplace : place ∈ info.places) :
    ∀ a ∈ relocationAccesses image info resolver s place, a.Checked image s true := by
  refine List.forall_mem_cons.mpr ⟨checked_reads (places_inside hinfo hplace), fun a ha => ?_⟩
  split at ha
  · rename_i htarget
    have hword := rangeInImage_subset htarget
    have hwrite : (s.writes _ 4).Checked image s true := ⟨rfl, fun _ => rfl, hword⟩
    rcases List.mem_cons.mp ha with rfl | ha
    · exact checked_reads hword
    · split at ha
      · rw [List.mem_singleton] at ha
        exact ha ▸ hwrite
      · split at ha
        · rcases List.mem_append.mp ha with ha | ha
          · exact relocationSymbolAccesses_checked h hinfo a ha
          · split at ha
            · rw [List.mem_singleton] at ha
              exact ha ▸ hwrite
            · cases ha
        · cases ha
  · cases ha

theorem exportAccesses_checked {name : CString} (h : TablesInside image) :
    ∀ a ∈ exportAccesses image name s, a.Checked image s false := by
  intro a ha
  rcases List.mem_append.mp ha with ha | ha
  · exact infoAccesses_checked h a ha
  · split at ha
    · cases ha
    · rename_i info hparse
      have hinfo := parseRelocationInfo_inside hparse
      obtain ⟨index, hindex, ha⟩ := List.mem_flatMap.mp ha
      have hlt : index < info.symbolCount.toNat :=
        (List.mem_range.mp hindex).trans_le (Nat.min_le_right _ _)
      rcases List.mem_cons.mp ha with rfl | ha
      · exact symbolAccess_checked hinfo hlt
      · split at ha
        · rename_i hcandidate
          rw [List.mem_singleton] at ha
          subst ha
          exact nameAccess_checked h hcandidate.2.2
        · cases ha

end Checked

theorem Keeps.calls_eq {β : Type} {f : State → β} {s t : State}
    (h : Keeps (fun _ => False) f s t) : t.calls = s.calls := by
  obtain ⟨⟨made, hmade, hnone⟩, -⟩ := h
  rw [hmade, List.eq_nil_iff_forall_not_mem.mpr hnone, List.append_nil]

theorem applyRelocation_calls {image : Elf32Image} {info : Elf32DynamicInfo}
    {resolver : Option Resolver} {table : UInt32} {index : Nat} {s t : State}
    (h : (applyRelocation image info resolver table index).run s = .ok () t) :
    t.calls = s.calls := by
  have hkeeps := @applyRelocation_keeps image info resolver table index s
  rw [h] at hkeeps
  exact hkeeps.calls_eq

/-- An access is in the reservation, and permitted exactly if it falls on pages of segments. -/
structure Access.Settled (image : Elf32Image) (headers : List Elf32Phdr) (a : Access) : Prop where
  inside : a.addresses ⊆ span image.mapping image.mappingSize.toNat
  permitted_iff : a.Permitted ↔ a.OnPages image headers

section Settled

variable {R : UInt32 → Prop} {image other : Elf32Image} {headers : List Elf32Phdr} {s : State}

theorem Access.Settled.congr {a : Access} (hlayout : other.layout = image.layout)
    (h : a.Settled other headers) : a.Settled image headers := by
  refine ⟨reservation_congr hlayout ▸ h.inside, ?_⟩
  rw [Access.OnPages, ← loadPages_congr hlayout]
  exact h.permitted_iff

theorem Backing.settled {a : Access} {mayWrite : Bool} (h : Backing R image headers s.calls)
    (hread : ∀ bits, R bits → Readable bits)
    (hwrite : mayWrite = true → ∀ bits, R bits → bits &&& protWrite ≠ 0)
    (ha : a.Checked image s mayWrite) : a.Settled image headers := by
  refine ⟨ha.inside, ?_⟩
  rw [Access.Permitted, ha.calls]
  constructor
  · intro hpermitted x hx
    by_contra hgap
    have hbits := hpermitted x hx
    rw [h.gaps x (ha.inside hx) hgap] at hbits
    exact hbits UInt32.zero_and
  · intro hpages x hx
    have hbits := h.pages x (ha.inside hx) (hpages hx)
    unfold Access.needs
    split
    · rename_i hwrites
      exact hwrite (ha.writes hwrites) _ hbits
    · exact hread _ hbits

theorem Backing.settled_reads {a : Access} (h : Backing Readable image headers s.calls)
    (ha : a.Checked image s false) : a.Settled image headers :=
  h.settled (fun _ => id) (fun hno => Bool.noConfusion (hno : false = true)) ha

end Settled

/-! ## Mapping -/

theorem findDynamic_inside {m : Memory} {image next : Elf32Image} (hzero : image.dynamic = 0)
    (h : findDynamic m image = .ok next) :
    span next.dynamic (Elf32Dyn.size * next.dynamicCount.toNat) ⊆
      span next.mapping next.mappingSize.toNat := by
  obtain ⟨found, hfound, hcheck⟩ := bind_eq_ok.mp h
  obtain ⟨_, hne, hnext⟩ := bind_eq_ok.mp hcheck
  cases hnext
  unfold scanHeaders at hfound
  dsimp only at hfound
  split at hfound
  · cases hfound
    exact absurd hzero (check_eq_ok.mp hne)
  · obtain ⟨_, hrange, hnext⟩ := bind_eq_ok.mp hfound
    cases hnext
    exact (span_mono (div_eight_mul_le _)).trans (rangeInImage_subset (check_eq_ok.mp hrange).2)

/-! ## Every access -/

/-- An image between two functions of the loader: its tables are inside it, its program
headers are the checked ones, and the pages of its segments can be read. -/
structure Ready (image : Elf32Image) (headers : List Elf32Phdr) (s : State) : Prop where
  tables : TablesInside image
  table_eq : mappedTable s.memory image = headers
  backing : Backing Readable image headers s.calls

section Accesses

variable {host : Host} {path : CString} {plan : LoadPlan} {mapping : UInt32}
  {image : Elf32Image} (hm : Placed host path plan mapping image)

include hm

/-- A loop over page protections reads a table that stays readable. -/
theorem headerAccesses_settled {phase : Phase} {bits : Elf32Phdr → UInt32} {s : State}
    (hbits : ∀ segment ∈ plan.headers, segment.type = ptLoad → Readable (bits segment))
    (hinside : image.headerTable ⊆ span image.mapping image.mappingSize.toNat)
    (hfit : Elf32Phdr.size * image.programHeaderCount.toNat ≤ 2 ^ 32)
    (hheaders : mappedTable s.memory image = plan.headers)
    (hbacking : Backing Readable image plan.headers s.calls) :
    ∀ a ∈ headerAccesses host phase bits image s, a.Settled image plan.headers := by
  refine Command.forall_mem_trace
    (I := fun t => t.memory = s.memory ∧ Backing Readable image plan.headers t.calls)
    (fun index hindex t u ht hrun => ?_) (fun index hindex t ht => ?_) ⟨rfl, hbacking⟩
  · rw [Command.run_get_bind] at hrun
    have hsegment : programHeader t.memory image.programHeaders index ∈ plan.headers := by
      rw [← hheaders, ht.1]
      exact List.mem_map_of_mem hindex
    have hprotects := hm.changeSegment_protects (R := Readable) hsegment (hbits _ hsegment) hrun
    have hkept := ((changeSegment_keeps (P := fun _ => True)
      fun _ _ _ _ _ => trivial).of_ok hrun).2
    refine ⟨(congrArg (·.1) hkept).trans ht.1, fun x hx hpage => ?_, fun x hx hgap => ?_⟩
    · by_cases hown : x ∈ loadPages image [programHeader t.memory image.programHeaders index]
      · exact (hprotects x).1 hown
      · rw [(hprotects x).2 hown]
        exact ht.2.pages x hx hpage
    · refine ((hprotects x).2 fun hown => hgap ?_).trans (ht.2.gaps x hx hgap)
      obtain ⟨htype, hpage⟩ := mem_loadPages_singleton.mp hown
      exact ⟨_, hsegment, htype, hpage⟩
  · exact ht.2.settled_reads
      (checked_reads (record_inside hfit hinside (List.mem_range.mp hindex)))

variable (hflags : ∀ segment ∈ plan.headers, segment.type = ptLoad → segment.flags &&& pfR ≠ 0)

theorem writableAccesses_settled {s : State} (h : Ready image plan.headers s) :
    ∀ a ∈ writableAccesses host image s, a.Settled image plan.headers :=
  headerAccesses_settled hm (fun _ _ _ => readable_protReadWrite)
    h.tables.headers h.tables.headers_fit h.table_eq h.backing

include hflags

theorem protectAccesses_settled {s : State}
    (hinside : image.headerTable ⊆ span image.mapping image.mappingSize.toNat)
    (hfit : Elf32Phdr.size * image.programHeaderCount.toNat ≤ 2 ^ 32)
    (hheaders : mappedTable s.memory image = plan.headers)
    (hbacking : Backing Readable image plan.headers s.calls) :
    ∀ a ∈ protectAccesses host image s, a.Settled image plan.headers :=
  headerAccesses_settled hm
    (fun segment hsegment htype => readable_protection (hflags segment hsegment htype))
    hinside hfit hheaders hbacking

omit hflags in
/-- While the tables are applied, every page of a segment can be read and written. -/
theorem relocationSetup_backing {s t : State} {info : Elf32DynamicInfo}
    (h : Ready image plan.headers s) (hrun : (relocationSetup host image).run s = .ok info t) :
    parseRelocationInfo s.memory image = .ok info ∧ t.memory = s.memory ∧
      Backing (· = protReadWrite) image plan.headers t.calls := by
  obtain ⟨hparsed, hwritable⟩ := relocationSetup_eq_ok hrun
  have hkept := setSegmentsWritable_contents hwritable
  rw [setSegmentsWritable, changeSegments_run] at hwritable
  have hprotects := protects_forM id (fun segment hsegment _ _ hturn =>
    hm.changeSegment_protects (R := (· = protReadWrite))
      (h.table_eq ▸ hsegment : segment ∈ plan.headers) (fun _ => rfl) hturn) hwritable
  rw [List.map_id] at hprotects
  refine ⟨hparsed, congrArg (·.1) hkept, ?_⟩
  exact h.backing.protects (h.table_eq ▸ hprotects)

omit hflags in
theorem relocateAccesses_settled {resolver : Option Resolver} {s : State}
    (h : Ready image plan.headers s) :
    ∀ a ∈ relocateAccesses host image resolver s, a.Settled image plan.headers := by
  intro a ha
  unfold relocateAccesses at ha
  split at ha
  · cases ha
  · rcases List.mem_append.mp ha with ha | ha
    · exact h.backing.settled_reads (infoAccesses_checked h.tables a ha)
    · split at ha
      · cases ha
      · rcases List.mem_append.mp ha with ha | ha
        · exact writableAccesses_settled hm (s := { s with stats := {}, firstUnresolved := none })
            ⟨h.tables, h.table_eq, h.backing⟩ a ha
        · split at ha
          · cases ha
          · rename_i info t hsetup
            obtain ⟨hparse, -, hbacking⟩ := relocationSetup_backing hm h hsetup
            obtain ⟨accesses, htrace, ha⟩ := List.mem_flatten.mp ha
            -- an entry makes no call, so the protections stay
            refine Command.forall_mem_trace (I := fun u => u.calls = t.calls)
              (P := fun accesses => ∀ a ∈ accesses, a.Settled image plan.headers)
              (fun place _ u v hu hrun => ?_) (fun place hplace u hu a ha => ?_) rfl
              accesses htrace a ha
            · exact (applyRelocation_calls hrun).trans hu
            · have hchecked := relocationAccesses_checked h.tables
                (parseRelocationInfo_inside hparse) hplace a ha
              refine (hu ▸ hbacking).settled (by rintro _ rfl; decide) ?_ hchecked
              rintro - _ rfl
              decide

theorem restoreAccesses_settled {resolver : Option Resolver} {s : State}
    (h : Ready image plan.headers s)
    (htargets : ∀ target ∈ relocationTargets host image resolver s,
      Disjoint (span target 4) image.headerTable) :
    ∀ a ∈ restoreAccesses host image resolver s, a.Settled image plan.headers := by
  unfold restoreAccesses
  unfold relocationTargets at htargets
  split
  · exact List.forall_mem_nil _
  · rename_i info t hsetup
    rw [hsetup] at htargets
    obtain ⟨-, hmemory, hbacking⟩ := relocationSetup_backing hm h hsetup
    have happly := applyPlaces_keeps htargets
    have hunwritten := within_eq_iff.mp happly.2
    rw [hmemory] at hunwritten
    refine protectAccesses_settled hm hflags h.tables.headers h.tables.headers_fit
      ((mappedTable_congr h.tables.headers_fit hunwritten).trans h.table_eq) ?_
    rw [happly.calls_eq]
    exact hbacking.mono (by rintro _ rfl; decide)

omit hm hflags in
theorem exportAccesses_settled {name : CString} {s : State} (h : Ready image plan.headers s) :
    ∀ a ∈ exportAccesses image name s, a.Settled image plan.headers := fun a ha =>
  h.backing.settled_reads (exportAccesses_checked h.tables a ha)

end Accesses

/-- The states after a mapping: the image is relocated, and in between other code writes
memory other than the program headers, and leaves the protections of the image. A relocation
that patches the program headers is not among them. -/
inductive Later (host : Host) (image : Elf32Image) (t : State) : State → Prop
  | mapped : Later host image t t
  | relocated {u : State} (resolver : Option Resolver) : Later host image t u →
    (∀ target ∈ relocationTargets host image resolver u,
      Disjoint (span target 4) image.headerTable) →
    Later host image t (Command.final ((elf32Relocate host image resolver).run u))
  | elsewhere {u v : State} : Later host image t u →
    Set.EqOn v.memory u.memory image.headerTable →
    (∀ x ∈ span image.mapping image.mappingSize.toNat,
      protectionAt v.calls x = protectionAt u.calls x) → Later host image t v

section Main

variable {host : Host} {path : CString} {plan : LoadPlan} {mapping : UInt32}
  {image : Elf32Image} {s t u : State}

theorem Later.ready (hm : Placed host path plan mapping image)
    (hflags : ∀ segment ∈ plan.headers, segment.type = ptLoad → segment.flags &&& pfR ≠ 0)
    (ht : Ready image plan.headers t) (h : Later host image t u) :
    Ready image plan.headers u := by
  induction h with
  | mapped => exact ht
  | relocated resolver _ htargets ih =>
    have hkeeps := elf32Relocate_keeps (hm.changes_backing hflags) subset_rfl
      ih.tables.headers_fit ih.table_eq htargets
    exact ⟨ih.tables, (mappedTable_congr ih.tables.headers_fit
      (within_eq_iff.mp hkeeps.2)).trans ih.table_eq, hkeeps.backing ih.backing⟩
  | elsewhere _ hunwritten hprotections ih =>
    refine ⟨ih.tables, (mappedTable_congr ih.tables.headers_fit hunwritten).trans ih.table_eq, ?_⟩
    exact ⟨fun x hx hpage => hprotections x hx ▸ ih.backing.pages x hx hpage,
      fun x hx hgap => (hprotections x hx).trans (ih.backing.gaps x hx hgap)⟩

theorem mapAccesses_settled (h : (mapHeaders host path).run s = .ok () u)
    (hplaced : HeadersPlaced (host.content path))
    (hflags : ∀ segment ∈ programHeadersOf (host.content path), segment.type = ptLoad →
      segment.flags &&& pfR ≠ 0) :
    ∀ a ∈ mapAccesses host u, a.Settled u.image (programHeadersOf (host.content path)) := by
  obtain ⟨plan, mapping, hm, ⟨hzero, -⟩, hbacking⟩ := mapHeaders_eq_ok h
  have hheaders : plan.headers = programHeadersOf plan.content := hm.plan_valid.headers
  rw [content_of_valid hm.plan_valid] at hplaced hflags ⊢
  rw [← hheaders] at hflags ⊢
  have hreadable := hbacking.mono (R := Readable) (by rintro _ rfl; decide)
  have hinside := hm.headerTable_subset
  rw [← hm.mapping_eq, ← hm.size_eq] at hinside
  refine List.forall_mem_cons.mpr ⟨hreadable.settled_reads (checked_reads ?_), fun a ha => ?_⟩
  · exact (span_mono (Nat.mul_le_mul_left _ (Nat.min_le_right _ _))).trans hinside
  · split at ha
    · cases ha
    · rename_i found hfind
      have hfound := hm.findDynamic hfind
      have hlayout : found.layout = u.image.layout := by
        obtain ⟨dynamic, count, rfl⟩ := findDynamic_eq_ok hfind
        rfl
      rcases List.mem_cons.mp ha with rfl | ha
      · refine ((hreadable.congr hlayout).settled_reads (checked_reads ?_)).congr hlayout
        exact (span_mono (Nat.mul_le_mul_left _ (Nat.min_le_right _ _))).trans
          (findDynamic_inside hzero hfind)
      · split at ha
        · cases ha
        · rename_i image hparse
          have himage := hfound.parseDynamic hparse
          have hlayout' : image.layout = u.image.layout := by
            obtain ⟨table, size, soname, rfl⟩ := parseDynamic_eq_ok hparse
            exact hlayout
          have hsubset := himage.headerTable_subset
          rw [← himage.mapping_eq, ← himage.size_eq] at hsubset
          exact (protectAccesses_settled himage.toPlaced hflags
            (s := { u with image := image }) hsubset himage.headerTable_fits
            (himage.mappedTable_eq (himage.sameHeaders_iff.mpr hplaced))
            (hreadable.congr hlayout') a ha).congr hlayout'

theorem elf32Map_ready (h : (elf32Map host path).run s = .ok () t)
    (hplaced : HeadersPlaced (host.content path))
    (hflags : ∀ segment ∈ programHeadersOf (host.content path), segment.type = ptLoad →
      segment.flags &&& pfR ≠ 0) :
    ∃ plan mapping, Placed host path plan mapping t.image ∧
      plan.headers = programHeadersOf (host.content path) ∧ Ready t.image plan.headers t := by
  obtain ⟨u, found, image, hu, hfind, hparse, hprotect⟩ := mapFile_steps (elf32Map_eq_ok h)
  obtain ⟨plan, mapping, hm, ⟨hzero, -⟩, hbacking⟩ := mapHeaders_eq_ok hu
  have himage := (hm.findDynamic hfind).parseDynamic hparse
  have hheaders : plan.headers = programHeadersOf plan.content := hm.plan_valid.headers
  rw [content_of_valid hm.plan_valid] at hplaced hflags ⊢
  rw [← hheaders] at hflags
  have hdynamic := findDynamic_inside hzero hfind
  have hstrings := parseDynamic_strings hparse
  have hlayout : image.layout = u.image.layout := by
    obtain ⟨_, _, rfl⟩ := findDynamic_eq_ok hfind
    obtain ⟨_, _, _, rfl⟩ := parseDynamic_eq_ok hparse
    rfl
  have hdynamic' : span image.dynamic (Elf32Dyn.size * image.dynamicCount.toNat) ⊆
      span image.mapping image.mappingSize.toNat := by
    obtain ⟨_, _, _, rfl⟩ := parseDynamic_eq_ok hparse
    exact hdynamic
  have hsubset := himage.headerTable_subset
  rw [← himage.mapping_eq, ← himage.size_eq] at hsubset
  have htable := himage.mappedTable_eq (himage.sameHeaders_iff.mpr hplaced)
  have hkeeps : Keeps _ State.contents { u with image := image }
      (Command.final ((protectSegments host image).run { u with image := image })) :=
    protectSegments_keeps_of (himage.toPlaced.changes_backing hflags) htable
  rw [hprotect] at hkeeps
  have himage_eq : t.image = image := congrArg (·.2.1) hkeeps.2
  have hmemory : t.memory = u.memory := congrArg (·.1) hkeeps.2
  rw [himage_eq]
  refine ⟨plan, mapping, himage.toPlaced, hheaders, ⟨hsubset, himage.headerTable_fits, hdynamic',
    hstrings⟩, hmemory ▸ htable, hkeeps.backing ?_⟩
  exact (hbacking.mono (by rintro _ rfl; decide)).congr hlayout

/-- Every access falls on pages of segments and is permitted. -/
def AllBacked (image : Elf32Image) (headers : List Elf32Phdr) (accesses : List Access) : Prop :=
  ∀ a ∈ accesses, a.OnPages image headers ∧ a.Permitted

theorem allBacked_iff_onPages {headers : List Elf32Phdr} {accesses : List Access}
    (h : ∀ a ∈ accesses, a.Settled image headers) :
    AllBacked image headers accesses ↔ ∀ a ∈ accesses, a.OnPages image headers := by
  refine forall₂_congr fun a ha => ?_
  rw [(h a ha).permitted_iff, and_self]

end Main

end NfsmwRuntime.Loader
