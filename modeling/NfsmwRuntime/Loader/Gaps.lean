import Mathlib.Data.Fintype.EquivFin
import NfsmwRuntime.Loader.FileTables

/-!
# Gaps between the segments

What `elf32_map`, `elf32_relocate` and `elf32_find_export` access is where the tables of the
file are, moved by the load bias: nothing else, and all of it if the function accepts the file.
So whether an access is permitted can be seen in the file: each of these tables has to be on
pages of segments. The checks of the loader compare with the whole reservation instead, which
also has the pages of the gaps.
-/

namespace NfsmwRuntime.Loader

open Library

/-! ## Accesses to tables -/

/-- What is accessed is in the tables of the file. -/
def Within (image : Elf32Image) (tables : List Table) (accesses : List Access) : Prop :=
  ∀ a ∈ accesses, ∀ x ∈ a.addresses, x - image.loadBias ∈ addressesOf tables

/-- All of a table of the file is accessed. -/
def Reaches (image : Elf32Image) (table : Table) (accesses : List Access) : Prop :=
  ∀ v ∈ table.addresses, ∃ a ∈ accesses, image.loadBias + v ∈ a.addresses

section Tables

variable {host : Host} {path : CString} {plan : LoadPlan} {mapping : UInt32}
  {image : Elf32Image} {tables : List Table} {accesses : List Access}

theorem Within.append {others : List Access} (h : Within image tables accesses)
    (hothers : Within image tables others) : Within image tables (accesses ++ others) := by
  intro a ha
  rcases List.mem_append.mp ha with ha | ha
  · exact h a ha
  · exact hothers a ha

theorem Reaches.mono {table : Table} {others : List Access} (h : Reaches image table accesses)
    (hsubset : accesses ⊆ others) : Reaches image table others := by
  intro v hv
  obtain ⟨a, ha, hx⟩ := h v hv
  exact ⟨a, hsubset ha, hx⟩

theorem reaches_of_mem {table : Table} {a : Access} (ha : a ∈ accesses)
    (hstart : a.start = image.loadBias + table.start) (hlength : table.length ≤ a.length) :
    Reaches image table accesses := by
  refine fun v hv => ⟨a, ha, ?_⟩
  have hsub : image.loadBias + v - image.loadBias = v := by grind
  rw [Access.addresses, hstart, mem_span_add, hsub]
  exact span_mono hlength hv

/-- A table is accessed if its records are. -/
theorem reaches_of_records {start : UInt32} {size count : Nat}
    (h : ∀ index < count, ∃ a ∈ accesses,
      a.start = image.loadBias + start + .ofNat (size * index) ∧ a.length = size) :
    Reaches image ⟨start, size * count⟩ accesses := by
  refine table_subset (s := {v | ∃ a ∈ accesses, image.loadBias + v ∈ a.addresses})
    fun index hindex => ?_
  obtain ⟨a, ha, hstart, hlength⟩ := h index hindex
  have hrecord : Reaches image ⟨start + .ofNat (size * index), size⟩ accesses :=
    reaches_of_mem ha (hstart.trans (UInt32.add_assoc _ _ _)) hlength.ge
  exact hrecord

/-- The start of a table that has moved. -/
theorem sub_mem_addressesOf {table : Table} {start x : UInt32} {length : Nat}
    (htable : table ∈ tables) (hstart : start = image.loadBias + table.start)
    (hlength : length ≤ table.length) (hx : x ∈ span start length) :
    x - image.loadBias ∈ addressesOf tables := by
  rw [hstart, mem_span_add] at hx
  exact mem_addressesOf _ htable (span_mono hlength hx)

/-- A record of a table that has moved. -/
theorem sub_record_mem {start x : UInt32} {size count index : Nat}
    (htable : ⟨start, size * count⟩ ∈ tables) (hfit : size * count ≤ 2 ^ 32)
    (hindex : index < count)
    (hx : x ∈ span (image.loadBias + start + .ofNat (size * index)) size) :
    x - image.loadBias ∈ addressesOf tables := by
  rw [UInt32.add_assoc, mem_span_add] at hx
  exact mem_addressesOf _ htable (record_inside hfit subset_rfl hindex hx)

/-- The pages of the segments have moved with the tables. -/
theorem Placed.mem_loadPages (hm : Placed host path plan mapping image) {x : UInt32} :
    x ∈ loadPages image plan.headers ↔
      x - image.loadBias ∈ filePages plan.content host.pageSize.toUInt32 := by
  have hbias := hm.dvd_bias
  have hpower := hm.plan_valid.page
  have halign : ∀ v, alignDown (image.loadBias + v) host.pageSize.toUInt32 =
      image.loadBias + alignDown v host.pageSize.toUInt32 := alignDown_add hpower hbias
  have hx : image.loadBias + (x - image.loadBias) = x := by grind
  rw [hm.plan_valid.headers, loadPages]
  refine exists_congr fun segment => and_congr_right fun _ => and_congr_right fun _ => ?_
  rw [Elf32Phdr.pages, hm.page_eq]
  constructor
  · rintro ⟨y, hy, hpage⟩
    refine ⟨y - image.loadBias, mem_span_add.mp hy, ?_⟩
    have hy' : image.loadBias + (y - image.loadBias) = y := by grind
    rw [← hx, ← hy', halign, halign] at hpage
    grind
  · rintro ⟨y, hy, hpage⟩
    refine ⟨image.loadBias + y, ?_, ?_⟩
    · have hsub : image.loadBias + y - image.loadBias = y := by grind
      rwa [mem_span_add, hsub]
    · rw [← hx, halign, halign, hpage]

theorem Placed.onPages_of_filled (hm : Placed host path plan mapping image)
    (h : Within image tables accesses)
    (hfilled : Filled plan.content host.pageSize.toUInt32 tables) :
    ∀ a ∈ accesses, a.OnPages image plan.headers := fun a ha x hx =>
  hm.mem_loadPages.mpr (hfilled (h a ha x hx))

theorem Placed.filled_of_onPages (hm : Placed host path plan mapping image)
    (h : ∀ table ∈ tables, Reaches image table accesses)
    (hpages : ∀ a ∈ accesses, a.OnPages image plan.headers) :
    Filled plan.content host.pageSize.toUInt32 tables := by
  rintro v ⟨table, htable, hv⟩
  obtain ⟨a, ha, hx⟩ := h table htable v hv
  have hpage := hm.mem_loadPages.mp (hpages a ha hx)
  have hsub : image.loadBias + v - image.loadBias = v := by grind
  rwa [hsub] at hpage

end Tables

/-! ## Program headers -/

section Headers

variable {content : List UInt8} {host : Host} {phase : Phase} {bits : Elf32Phdr → UInt32}
  {overflow : Failure} {failure : CString → Failure} {image : Elf32Image} {s t : State}

theorem headerTable_fits (content : List UInt8) : (headerTable content).length ≤ 2 ^ 32 := by
  have hlt := (Elf32Ehdr.ofBytes content).phnum.toNat_lt
  simp only [headerTable, Elf32Phdr.size]
  omega

theorem headerAccesses_within {tables : List Table}
    (hheaders : image.programHeaders = image.loadBias + (headerTable content).start)
    (hcount : image.programHeaderCount.toNat = (Elf32Ehdr.ofBytes content).phnum.toNat)
    (htable : headerTable content ∈ tables) :
    Within image tables (headerAccesses host phase bits image s) := by
  refine Command.forall_mem_trace (I := fun _ => True) (fun _ _ _ _ _ _ => trivial)
    (fun index hindex u _ x hx => ?_) trivial
  rw [List.mem_range, hcount] at hindex
  change x ∈ span (image.programHeaders + _) _ at hx
  rw [hheaders] at hx
  exact sub_record_mem htable (headerTable_fits content) hindex hx

theorem changeSegment_run_ok {segment : Elf32Phdr} {other : Failure} {text : CString → Failure}
    (h : (changeSegment host phase overflow failure bits image segment).run s = .ok () t) :
    (changeSegment host phase other text bits image segment).run s = .ok () t := by
  unfold changeSegment at h ⊢
  split at h
  · rename_i hskip
    rwa [if_pos hskip]
  · rename_i hload
    rw [if_neg hload]
    obtain ⟨stop, u, hlift, hprotect⟩ := Command.run_bind_eq_ok.mp h
    obtain ⟨hstop, rfl⟩ := Command.run_lift_eq_ok.mp hlift
    rw [require_eq_ok.mp hstop]
    refine Command.run_bind_eq_ok.mpr ⟨stop, u, rfl, ?_⟩
    simp only [mprotect, EStateM.run] at hprotect ⊢
    split at hprotect
    · exact hprotect
    · cases hprotect

/-- A loop over page protections that ends has read every program header. -/
theorem headerAccesses_reaches
    (hheaders : image.programHeaders = image.loadBias + (headerTable content).start)
    (hcount : image.programHeaderCount.toNat = (Elf32Ehdr.ofBytes content).phnum.toNat)
    (h : (changeSegments host phase overflow failure bits image).run s = .ok () t) :
    Reaches image (headerTable content) (headerAccesses host phase bits image s) := by
  have hquiet : (forM (List.range image.programHeaderCount.toNat) fun index =>
      get >>= fun u => changeSegment host phase none (fun _ => none) bits image
        (programHeader u.memory image.programHeaders index)).run s = .ok () t :=
    Command.run_forM_ok_mono (fun _ _ _ hturn => by
      rw [Command.run_get_bind] at hturn ⊢
      exact changeSegment_run_ok hturn) h
  refine reaches_of_records fun index hindex => ?_
  rw [← hcount] at hindex
  obtain ⟨u, _, -, -, hmem⟩ := Command.exists_mem_trace
    (fun u index => u.reads (image.programHeaders + .ofNat (Elf32Phdr.size * index))
      Elf32Phdr.size)
    (I := fun _ => True) (fun _ _ _ _ _ _ => trivial) trivial hquiet (List.mem_range.mpr hindex)
  refine ⟨_, hmem, ?_, rfl⟩
  change image.programHeaders + _ = _
  rw [hheaders]
  rfl

end Headers

/-! ## The dynamic table and the symbols -/

section Linked

variable {content : List UInt8} {image : Elf32Image} {info : Elf32DynamicInfo} {s : State}
  {tables : List Table}

theorem mem_dynamicPrefix {segment : Elf32Phdr} (hsegment : fileDynamic content = some segment) :
    ⟨segment.vaddr, Elf32Dyn.size * ((fileEntries content).length + 1)⟩ ∈
      dynamicPrefix content := by
  simp [dynamicPrefix, hsegment]

theorem dynamicAccess_within {segment : Elf32Phdr}
    (hsegment : fileDynamic content = some segment)
    (hstart : image.dynamic = image.loadBias + segment.vaddr)
    (hentries : dynamicEntries s.memory image = fileEntries content)
    (htables : dynamicPrefix content ⊆ tables) : Within image tables [dynamicAccess s image] := by
  refine List.forall_mem_singleton.mpr fun x hx => ?_
  refine sub_mem_addressesOf (htables (mem_dynamicPrefix hsegment)) hstart ?_ hx
  change Elf32Dyn.size * min ((dynamicEntries s.memory image).length + 1) _ ≤ _
  rw [hentries]
  exact Nat.mul_le_mul_left _ (Nat.min_le_left _ _)

variable (hl : Linked content image) (hu : Unchanged content image s.memory)

include hl hu

theorem dynamicAccess_reaches : ∀ table ∈ dynamicPrefix content,
    Reaches image table [dynamicAccess s image] := by
  obtain ⟨segment, hsegment, hstart, -⟩ := hl.dynamic_eq
  rw [dynamicPrefix, hsegment]
  refine List.forall_mem_singleton.mpr ?_
  refine reaches_of_mem (List.mem_singleton_self _) hstart ?_
  change _ ≤ Elf32Dyn.size * min ((dynamicEntries s.memory image).length + 1) _
  rw [hl.dynamicEntries_eq hu, Nat.min_eq_left hl.terminated]

theorem hashAddress_eq
    (h : ((dynamicEntries s.memory image).foldl (RelocationScan.step image.loadBias)
      {}).hashAddress ≠ 0) :
    ((dynamicEntries s.memory image).foldl (RelocationScan.step image.loadBias)
      {}).hashAddress + .ofNat 4 = image.loadBias + (hashWord content).start := by
  have hvalue := (relocationScan_addresses image.loadBias (fileEntries content)).2.1
  rw [hl.dynamicEntries_eq hu, hvalue] at h ⊢
  exact (congrArg (· + .ofNat 4) (named_eq h)).trans (UInt32.add_assoc _ _ _)

theorem infoAccesses_within (htables : dynamicPrefix content ⊆ tables)
    (hhash : hashWord content ∈ tables) : Within image tables (infoAccesses s image) := by
  obtain ⟨segment, hsegment, hstart, -⟩ := hl.dynamic_eq
  refine (dynamicAccess_within hsegment hstart (hl.dynamicEntries_eq hu) htables).append ?_
  intro a ha x hx
  dsimp only at ha
  split at ha
  · rename_i hchecked
    rw [List.mem_singleton] at ha
    subst ha
    exact sub_mem_addressesOf hhash (hashAddress_eq hl hu hchecked.2.2.1) le_rfl hx
  · cases ha

theorem hashAccesses_reaches (h : parseRelocationInfo s.memory image = .ok info) :
    Reaches image (hashWord content) (hashAccesses s image) := by
  obtain ⟨_, hmeta, -⟩ := bind_eq_ok.mp h
  have hchecked := check_eq_ok.mp hmeta
  simp only [hashAccesses, if_pos hchecked]
  exact reaches_of_mem (List.mem_singleton_self _) (hashAddress_eq hl hu hchecked.2.2.1) le_rfl

/-- Accepted metadata has been read to the end. -/
theorem infoAccesses_reaches (h : parseRelocationInfo s.memory image = .ok info) :
    ∀ table ∈ dynamicPrefix content ++ [hashWord content],
      Reaches image table (infoAccesses s image) := by
  intro table htable
  rcases List.mem_append.mp htable with htable | htable
  · exact (dynamicAccess_reaches hl hu table htable).mono (by simp [infoAccesses])
  · rw [List.mem_singleton.mp htable]
    exact (hashAccesses_reaches hl hu h).mono (by simp [infoAccesses])

omit hu in
theorem nameAccess_start (symbol : Elf32Sym) :
    (nameAccess s image symbol).start = image.loadBias + (symbolName content symbol).start := by
  change image.stringTable + _ = _
  rw [hl.strings_eq]
  exact UInt32.add_assoc _ _ _

theorem nameAccess_length {symbol : Elf32Sym} (hname : symbol.name < image.stringTableSize) :
    (nameAccess s image symbol).length = (symbolName content symbol).length :=
  hl.nameLength_eq hu hname

omit hl hu in
theorem symbolAccess_start (hi : InfoFrom content image info) (index : Nat) :
    (symbolAccess s info index).start =
      image.loadBias + (fileInfo content).symbols + .ofNat (Elf32Sym.size * index) :=
  congrArg (· + _) hi.symbols

/-! ## Exports -/

theorem exportAccesses_within (name : CString) :
    Within image (exportTables content) (exportAccesses image name s) := by
  have hinfo : Within image (exportTables content) (infoAccesses s image) :=
    infoAccesses_within hl hu (by simp [exportTables]) (by simp [exportTables])
  refine hinfo.append ?_
  split
  · exact List.forall_mem_nil _
  · rename_i info hparse
    have hi := hl.infoFrom hu hparse
    intro a ha x hx
    obtain ⟨index, hindex, ha⟩ := List.mem_flatMap.mp ha
    have hlt : index < info.symbolCount.toNat :=
      (List.mem_range.mp hindex).trans_le (Nat.min_le_right _ _)
    rcases List.mem_cons.mp ha with rfl | ha
    · rw [Access.addresses, symbolAccess_start hi] at hx
      have htable : symbolTable content ∈ exportTables content := by simp [exportTables]
      have hfit := hi.inside.symbols_fit
      rw [hi.symbolCount] at hfit hlt
      exact sub_record_mem htable hfit hlt hx
    · split at ha
      · rename_i hcandidate
        rw [List.mem_singleton] at ha
        subst ha
        rw [hi.symbolEntry_eq hu hlt] at hcandidate hx
        have htable : symbolName content (fileSymbol content index) ∈ exportTables content := by
          rw [hl.stringsSize_eq] at hcandidate
          rw [hi.symbolCount] at hlt
          refine List.mem_append_right _ (List.mem_cons_of_mem _ (List.mem_cons_of_mem _ ?_))
          refine List.mem_map_of_mem (List.mem_filter.mpr ⟨?_, decide_eq_true hcandidate⟩)
          exact List.mem_map_of_mem (List.mem_range.mpr hlt)
        exact sub_mem_addressesOf htable (nameAccess_start hl _)
          (nameAccess_length hl hu hcandidate.2.2).le hx
      · cases ha

omit hl hu in
/-- A name that no symbol has is compared with all of them. -/
theorem exists_unknown (m : Memory) (image : Elf32Image) (info : Elf32DynamicInfo) :
    ∃ name, ∀ index < info.symbolCount.toNat,
      ¬ (symbolEntry m info.symbols index).exports m image name := by
  obtain ⟨name, hname⟩ := Infinite.exists_notMem_finset
    ((List.range info.symbolCount.toNat).map fun index =>
      cstring (nameWindow m image (symbolEntry m info.symbols index))).toFinset
  refine ⟨name, fun index hindex hexports => hname ?_⟩
  rw [List.mem_toFinset, List.mem_map]
  exact ⟨index, List.mem_range.mpr hindex, hexports.2.2.2.2⟩

/-- The search for a name that the image does not have reads all of its tables. -/
theorem exportAccesses_reaches (h : parseRelocationInfo s.memory image = .ok info) :
    ∃ name, ∀ table ∈ exportTables content,
      Reaches image table (exportAccesses image name s) := by
  have hi := hl.infoFrom hu h
  obtain ⟨name, hunknown⟩ := exists_unknown s.memory image info
  have hseen : ((List.range info.symbolCount.toNat).map
      (symbolEntry s.memory info.symbols)).findIdx
        (fun symbol => decide (symbol.exports s.memory image name)) = info.symbolCount.toNat := by
    have hlength : ((List.range info.symbolCount.toNat).map
        (symbolEntry s.memory info.symbols)).length = info.symbolCount.toNat := by simp
    refine (List.findIdx_eq_length.mpr fun symbol hsymbol => ?_).trans hlength
    obtain ⟨index, hindex, rfl⟩ := List.mem_map.mp hsymbol
    exact decide_eq_false (hunknown index (List.mem_range.mp hindex))
  have hsymbols : ∀ index < info.symbolCount.toNat,
      symbolAccess s info index ∈ exportAccesses image name s ∧
      ((fileSymbol content index).candidate (fileTag content dtStrsz) →
        nameAccess s image (fileSymbol content index) ∈ exportAccesses image name s) := by
    intro index hindex
    have hrange : index ∈ List.range (min (info.symbolCount.toNat + 1) info.symbolCount.toNat) :=
      List.mem_range.mpr (lt_min (Nat.lt_succ_of_lt hindex) hindex)
    simp only [exportAccesses, h, hseen]
    refine ⟨List.mem_append_right _ (List.mem_flatMap.mpr ⟨index, hrange, ?_⟩),
      fun hcandidate => List.mem_append_right _ (List.mem_flatMap.mpr ⟨index, hrange, ?_⟩)⟩
    · exact List.mem_cons_self ..
    · rw [hi.symbolEntry_eq hu hindex, hl.stringsSize_eq, if_pos hcandidate]
      exact List.mem_cons_of_mem _ (List.mem_singleton_self _)
  rw [hi.symbolCount] at hsymbols
  refine ⟨name, fun table htable => ?_⟩
  rw [exportTables, List.append_cons, List.mem_append, List.mem_cons] at htable
  rcases htable with htable | rfl | htable
  · exact (infoAccesses_reaches hl hu h table htable).mono (List.subset_append_left _ _)
  · refine reaches_of_records fun index hindex => ⟨_, (hsymbols index hindex).1, ?_, rfl⟩
    exact symbolAccess_start hi index
  · obtain ⟨symbol, hsymbol, rfl⟩ := List.mem_map.mp htable
    obtain ⟨hmem, hcandidate⟩ := List.mem_filter.mp hsymbol
    obtain ⟨index, hindex, rfl⟩ := List.mem_map.mp hmem
    have hcandidate := of_decide_eq_true hcandidate
    have hname := hcandidate.2.2
    rw [← hl.stringsSize_eq] at hname
    exact reaches_of_mem ((hsymbols index (List.mem_range.mp hindex)).2 hcandidate)
      (nameAccess_start hl _) (nameAccess_length hl hu hname).ge

end Linked

/-! ## Relocations -/

section Relocations

variable {host : Host} {content : List UInt8} {image : Elf32Image} {info : Elf32DynamicInfo}
  {resolver : Option Resolver} {place : UInt32 × Nat} {s t u v : State}

theorem placeTables_subset (hplace : place ∈ (fileInfo content).places) :
    placeTables content place ⊆ relocateTables content := fun _ htable =>
  List.mem_append_right _ (List.mem_flatMap.mpr ⟨place, hplace, htable⟩)

theorem InfoFrom.entry_mem (hi : InfoFrom content image info)
    (hplace : place ∈ (fileInfo content).places) {x : UInt32}
    (hx : x ∈ span (image.loadBias + place.1 + .ofNat (Elf32Rel.size * place.2)) Elf32Rel.size) :
    x - image.loadBias ∈ addressesOf (relocateTables content) := by
  have hrel := hi.inside.relocations_fit
  have hplt := hi.inside.pltRelocations_fit
  rw [hi.relocationCount] at hrel
  rw [hi.pltRelocationCount] at hplt
  rcases List.mem_append.mp hplace with hplace | hplace
  · obtain ⟨index, hindex, rfl⟩ := List.mem_map.mp hplace
    have htable : relTable content ∈ relocateTables content := by simp [relocateTables]
    exact sub_record_mem htable hrel (List.mem_range.mp hindex) hx
  · obtain ⟨index, hindex, rfl⟩ := List.mem_map.mp hplace
    have htable : pltTable content ∈ relocateTables content := by simp [relocateTables]
    exact sub_record_mem htable hplt (List.mem_range.mp hindex) hx

/-- The word of an entry is none that the addresses of accesses are read from. -/
theorem Untouched.disjoint (h : Untouched content) (hplace : place ∈ (fileInfo content).places) :
    Disjoint (span ((fileRelocation content place).target image) 4)
      (lookupSpace content image) := by
  rw [Set.disjoint_left]
  rintro x hword ⟨table, htable, hmem⟩
  exact Set.disjoint_left.mp (h place hplace table htable) (mem_span_add.mp hword) hmem

section Linked

variable (hl : Linked content image) (hi : InfoFrom content image info)

include hi in
theorem Unchanged.applyRelocation (hu : Unchanged content image s.memory)
    (huntouched : Untouched content) (hplace : place ∈ (fileInfo content).places)
    (h : (Loader.applyRelocation image info resolver (image.loadBias + place.1) place.2).run s =
      .ok () t) : Unchanged content image t.memory := by
  have hkeeps := @applyRelocation_keeps image info resolver (image.loadBias + place.1) place.2 s
  rw [h, hi.relocationEntry_eq hu hplace] at hkeeps
  refine hu.congr ((within_eq_iff.mp hkeeps.2).mono ?_)
  exact Set.subset_compl_iff_disjoint_left.mpr (huntouched.disjoint hplace)

include hl hi

theorem relocationSymbolAccesses_within (hu : Unchanged content image s.memory)
    {symbol : UInt32} {tables : List Table} (hrecord : symbolRecord content symbol ∈ tables)
    (hname : symbolName content (fileSymbol content symbol.toNat) ∈ tables) :
    Within image tables (relocationSymbolAccesses s image info symbol) := by
  intro a ha x hx
  unfold relocationSymbolAccesses at ha
  dsimp only at ha
  split at ha
  · rename_i hindex
    have hlt := UInt32.lt_iff_toNat_lt.mp hindex
    rw [hi.symbolEntry_eq hu hlt] at ha
    rcases List.mem_cons.mp ha with rfl | ha
    · have hstart := (symbolAccess_start (s := s) hi symbol.toNat).trans (UInt32.add_assoc _ _ _)
      exact sub_mem_addressesOf hrecord hstart le_rfl hx
    · split at ha
      · rename_i hinside
        rw [List.mem_singleton] at ha
        subst ha
        exact sub_mem_addressesOf hname (nameAccess_start hl _)
          (nameAccess_length hl hu hinside).le hx
      · cases ha
  · cases ha

theorem relocationAccesses_within (hu : Unchanged content image s.memory)
    (hplace : place ∈ (fileInfo content).places) :
    Within image (relocateTables content)
      (relocationAccesses image info resolver s (image.loadBias + place.1, place.2)) := by
  have hentry := hi.relocationEntry_eq hu hplace
  have htables := placeTables_subset hplace
  unfold relocationAccesses
  rw [hentry]
  refine List.forall_mem_cons.mpr ⟨fun x hx => hi.entry_mem hplace hx, ?_⟩
  have hword : ∀ a : Access, a.start = (fileRelocation content place).target image →
      a.length = 4 → ∀ x ∈ a.addresses, x - image.loadBias ∈ addressesOf (relocateTables content) :=
    fun a hstart hlength x hx => sub_mem_addressesOf (htables (List.mem_cons_self ..)) hstart
      hlength.le hx
  split
  · refine List.forall_mem_cons.mpr ⟨hword _ rfl rfl, ?_⟩
    split
    · exact List.forall_mem_singleton.mpr (hword _ rfl rfl)
    · split
      · rename_i hnames
        have hsymbol : ∀ table ∈ [symbolRecord content (fileRelocation content place).symbol,
            symbolName content (fileSymbol content
              (fileRelocation content place).symbol.toNat)],
            table ∈ relocateTables content := fun table htable => htables (by
          rw [placeTables, if_pos hnames]
          exact List.mem_cons_of_mem _ htable)
        refine Within.append (relocationSymbolAccesses_within hl hi hu
          (hsymbol _ (by simp)) (hsymbol _ (by simp))) ?_
        split
        · exact List.forall_mem_singleton.mpr (hword _ rfl rfl)
        · exact List.forall_mem_nil _
      · exact List.forall_mem_nil _
  · exact List.forall_mem_nil _

/-- A symbol that is accepted has been read with its name. -/
theorem relocationSymbolAccesses_reaches (hu : Unchanged content image s.memory)
    {symbol : UInt32} {result : SymbolResult}
    (h : relocationSymbol s.memory image info symbol resolver = .ok result) :
    ∀ table ∈ [symbolRecord content symbol,
        symbolName content (fileSymbol content symbol.toNat)],
      Reaches image table (relocationSymbolAccesses s image info symbol) := by
  obtain ⟨_, hchecked, hrest⟩ := bind_eq_ok.mp h
  obtain ⟨_, hnamed, -⟩ := bind_eq_ok.mp hrest
  have hindex := check_eq_ok.mp hchecked
  have hname := check_eq_ok.mp hnamed
  rw [hi.symbolEntry_eq hu (UInt32.lt_iff_toNat_lt.mp hindex)] at hname
  have haccesses : relocationSymbolAccesses s image info symbol =
      [symbolAccess s info symbol.toNat,
        nameAccess s image (fileSymbol content symbol.toNat)] := by
    simp only [relocationSymbolAccesses, if_pos hindex,
      hi.symbolEntry_eq hu (UInt32.lt_iff_toNat_lt.mp hindex), if_pos hname]
  rw [haccesses]
  refine List.forall_mem_cons.mpr ⟨?_, List.forall_mem_singleton.mpr ?_⟩
  · exact reaches_of_mem (List.mem_cons_self ..)
      ((symbolAccess_start hi _).trans (UInt32.add_assoc _ _ _)) le_rfl
  · exact reaches_of_mem (List.mem_cons_of_mem _ (List.mem_singleton_self _))
      (nameAccess_start hl _) (nameAccess_length hl hu hname).ge

/-- A turn that succeeds has accessed its word, and the symbol if it names one. -/
theorem relocationAccesses_reaches (hu : Unchanged content image s.memory)
    (hplace : place ∈ (fileInfo content).places)
    (h : (applyRelocation image info resolver (image.loadBias + place.1) place.2).run s =
      .ok () t) :
    ∀ table ∈ placeTables content place, Reaches image table
      (relocationAccesses image info resolver s (image.loadBias + place.1, place.2)) := by
  have hentry := hi.relocationEntry_eq hu hplace
  obtain ⟨hrange, hturn⟩ := applyRelocation_eq_ok hentry h
  unfold relocationAccesses placeTables
  rw [hentry]
  dsimp only
  rw [if_pos hrange]
  refine List.forall_mem_cons.mpr
    ⟨reaches_of_mem (List.mem_cons_of_mem _ (List.mem_cons_self ..)) rfl le_rfl, ?_⟩
  split
  · rename_i hnames
    have htype : (fileRelocation content place).type ≠ rArmRelative := by
      intro hrelative
      rw [hrelative] at hnames
      exact absurd hnames (by decide)
    obtain ⟨result, hresult⟩ : ∃ result, relocationSymbol s.memory image info
        (fileRelocation content place).symbol resolver = .ok result := by
      rcases hturn with ⟨hrelative, -⟩ | ⟨-, _, hresult, -⟩ | ⟨-, _, hresult, -⟩
      · exact absurd hrelative htype
      · exact ⟨_, hresult⟩
      · exact ⟨_, hresult⟩
    rw [if_neg htype]
    intro table htable
    refine (relocationSymbolAccesses_reaches hl hi hu hresult table htable).mono fun a ha => ?_
    exact List.mem_cons_of_mem _ (List.mem_cons_of_mem _ (List.mem_append_left _ ha))
  · exact List.forall_mem_nil _

end Linked

/-! ## Whole functions -/

variable (hl : Linked content image) (hu : Unchanged content image s.memory)

include hl hu

theorem relocationSetup_linked (h : (relocationSetup host image).run s = .ok info t) :
    parseRelocationInfo s.memory image = .ok info ∧ InfoFrom content image info ∧
      Unchanged content image t.memory := by
  obtain ⟨hparse, hwritable⟩ := relocationSetup_eq_ok h
  have hmemory : t.memory = s.memory :=
    congrArg (·.1) (setSegmentsWritable_contents hwritable)
  exact ⟨hparse, hl.infoFrom hu hparse, hmemory ▸ hu⟩

/-- What holds of every entry that is read while the tables stay as they are. -/
theorem forall_mem_placesTrace {β : Type} {P : β → Prop}
    {observe : State → UInt32 × Nat → β} (huntouched : Untouched content)
    (h : (relocationSetup host image).run s = .ok info t)
    (hobserve : ∀ place ∈ (fileInfo content).places, ∀ u, Unchanged content image u.memory →
      P (observe u (image.loadBias + place.1, place.2))) :
    ∀ b ∈ Command.trace (fun place => applyRelocation image info resolver place.1 place.2)
      observe info.places t, P b := by
  obtain ⟨-, hi, ht⟩ := relocationSetup_linked hl hu h
  rw [hi.places_eq]
  refine Command.forall_mem_trace (I := fun u => Unchanged content image u.memory)
    (fun moved hmoved u v hunchanged hturn => ?_) (fun moved hmoved u hunchanged => ?_) ht
  · obtain ⟨place, hplace, rfl⟩ := List.mem_map.mp hmoved
    exact hunchanged.applyRelocation hi huntouched hplace hturn
  · obtain ⟨place, hplace, rfl⟩ := List.mem_map.mp hmoved
    exact hobserve place hplace u hunchanged

variable (host resolver) in
/-- The words that are patched are the file's, so none of them is in a table. -/
theorem Untouched.targets (huntouched : Untouched content) :
    ∀ target ∈ relocationTargets host image resolver s,
      Disjoint (span target 4) (lookupSpace content image) := by
  unfold relocationTargets
  split
  · rename_i info t hsetup
    obtain ⟨-, hi, -⟩ := relocationSetup_linked hl hu hsetup
    refine forall_mem_placesTrace hl hu huntouched hsetup fun place hplace u hunchanged => ?_
    rw [hi.relocationEntry_eq hunchanged hplace]
    exact huntouched.disjoint hplace
  · exact List.forall_mem_nil _

/-- A relocation leaves the tables, also if it fails. -/
theorem Unchanged.relocate (huntouched : Untouched content)
    {resolver : Option Resolver} : Unchanged content image
      (Command.final ((elf32Relocate host image resolver).run s)).memory := by
  have hkeeps := elf32Relocate_keeps (P := fun _ => True) (fun _ _ _ _ _ _ _ => ⟨trivial, trivial⟩)
    hl.headerTable_subset hl.tables.headers_fit rfl
    (huntouched.targets host resolver hl hu)
  exact hu.congr (within_eq_iff.mp hkeeps.2)

theorem relocateAccesses_within (huntouched : Untouched content) :
    Within image (relocateTables content) (relocateAccesses host image resolver s) := by
  unfold relocateAccesses
  rw [if_neg hl.mapping_ne_zero]
  have hinfo : Within image (relocateTables content) (infoAccesses s image) :=
    infoAccesses_within hl hu (by simp [relocateTables]) (by simp [relocateTables])
  refine hinfo.append ?_
  split
  · exact List.forall_mem_nil _
  · refine (headerAccesses_within hl.headers_eq hl.count_eq (by simp [relocateTables])).append ?_
    split
    · exact List.forall_mem_nil _
    · rename_i info t hsetup
      obtain ⟨-, hi, -⟩ := relocationSetup_linked hl hu hsetup
      intro a ha
      obtain ⟨accesses, haccesses, ha⟩ := List.mem_flatten.mp ha
      exact forall_mem_placesTrace (P := Within image (relocateTables content)) hl hu huntouched
        hsetup (fun place hplace u hunchanged =>
          relocationAccesses_within hl hi hunchanged hplace) accesses haccesses a ha

omit hu in
theorem restoreAccesses_within :
    Within image (relocateTables content) (restoreAccesses host image resolver s) := by
  unfold restoreAccesses
  split
  · exact List.forall_mem_nil _
  · exact headerAccesses_within hl.headers_eq hl.count_eq (by simp [relocateTables])

/-- Each entry has its turn, with the tables as they were. -/
theorem exists_turn (huntouched : Untouched content)
    (hsetup : (relocationSetup host image).run s = .ok info u)
    (hplaces : (forM info.places fun place =>
      applyRelocation image info resolver place.1 place.2).run u = .ok () v)
    (hplace : place ∈ (fileInfo content).places) :
    ∃ w x, Unchanged content image w.memory ∧
      (applyRelocation image info resolver (image.loadBias + place.1) place.2).run w = .ok () x ∧
      relocationAccesses image info resolver w (image.loadBias + place.1, place.2) ∈
        Command.trace (fun place => applyRelocation image info resolver place.1 place.2)
          (relocationAccesses image info resolver) info.places u := by
  obtain ⟨-, hi, hunchanged⟩ := relocationSetup_linked hl hu hsetup
  have hmem : (image.loadBias + place.1, place.2) ∈ info.places := by
    rw [hi.places_eq]
    exact List.mem_map_of_mem hplace
  have hkeeps : ∀ moved ∈ info.places, ∀ w x, Unchanged content image w.memory →
      (applyRelocation image info resolver moved.1 moved.2).run w = .ok () x →
      Unchanged content image x.memory := by
    intro moved hmoved w x hw hx
    rw [hi.places_eq] at hmoved
    obtain ⟨other, hother, rfl⟩ := List.mem_map.mp hmoved
    exact hw.applyRelocation hi huntouched hother hx
  obtain ⟨w, x, hw, hx, htrace⟩ := Command.exists_mem_trace
    (relocationAccesses image info resolver) (I := fun w => Unchanged content image w.memory)
    hkeeps hunchanged hplaces hmem
  exact ⟨w, x, hw, hx, htrace⟩

omit hu in
/-- The parts of what a relocation accesses that returns 0. -/
theorem subset_relocateAccesses (hparse : parseRelocationInfo s.memory image = .ok info)
    (hsetup : (relocationSetup host image).run s = .ok info u)
    (hplaces : (forM info.places fun place =>
      applyRelocation image info resolver place.1 place.2).run u = .ok () v) :
    let accesses := relocateAccesses host image resolver s ++ restoreAccesses host image resolver s
    infoAccesses s image ⊆ accesses ∧ protectAccesses host image v ⊆ accesses ∧
      ∀ turn ∈ Command.trace (fun place => applyRelocation image info resolver place.1 place.2)
        (relocationAccesses image info resolver) info.places u, turn ⊆ accesses := by
  simp only [relocateAccesses, restoreAccesses, if_neg hl.mapping_ne_zero, hparse, hsetup, hplaces,
    Command.final_ok]
  refine ⟨?_, List.subset_append_right _ _, fun turn hturn a ha => ?_⟩
  · rw [List.append_assoc]
    exact List.subset_append_left _ _
  · exact List.mem_append_left _ (List.mem_append_right _ (List.mem_append_right _
      (List.mem_flatten.mpr ⟨turn, hturn, ha⟩)))

/-- A relocation that returns 0 has accessed all of its tables. -/
theorem relocateAccesses_reaches (huntouched : Untouched content)
    (h : (elf32Relocate host image resolver).run s = .ok () t) :
    ∀ table ∈ relocateTables content, Reaches image table
      (relocateAccesses host image resolver s ++ restoreAccesses host image resolver s) := by
  obtain ⟨info, u, v, hsetup, hplaces, hprotect⟩ := elf32Relocate_steps h
  obtain ⟨hparse, hi, -⟩ := relocationSetup_linked hl hu hsetup
  obtain ⟨hinfo, hheaders, hturns⟩ := subset_relocateAccesses hl hparse hsetup hplaces
  have hentry : ∀ place ∈ (fileInfo content).places,
      ∃ a ∈ relocateAccesses host image resolver s ++ restoreAccesses host image resolver s,
        a.start = image.loadBias + place.1 + .ofNat (Elf32Rel.size * place.2) ∧
          a.length = Elf32Rel.size := by
    intro place hplace
    obtain ⟨w, -, -, -, hmem⟩ := exists_turn hl hu huntouched hsetup hplaces hplace
    exact ⟨_, hturns _ hmem (List.mem_cons_self ..), rfl, rfl⟩
  have hmetadata := infoAccesses_reaches hl hu hparse
  intro table htable
  simp only [relocateTables, List.mem_append, List.mem_cons, List.mem_flatMap,
    List.not_mem_nil, or_false] at htable
  rcases htable with ((rfl | htable) | rfl | rfl | rfl) | ⟨place, hplace, htable⟩
  · exact (headerAccesses_reaches hl.headers_eq hl.count_eq hprotect).mono hheaders
  · exact (hmetadata table (List.mem_append_left _ htable)).mono hinfo
  · exact (hmetadata _ (List.mem_append_right _ (List.mem_singleton_self _))).mono hinfo
  · exact reaches_of_records fun index hindex => hentry (_, index)
      (List.mem_append_left _ (List.mem_map_of_mem (List.mem_range.mpr hindex)))
  · exact reaches_of_records fun index hindex => hentry (_, index)
      (List.mem_append_right _ (List.mem_map_of_mem (List.mem_range.mpr hindex)))
  · obtain ⟨w, x, hw, hx, hmem⟩ := exists_turn hl hu huntouched hsetup hplaces hplace
    exact (relocationAccesses_reaches hl hi hw hplace hx table htable).mono (hturns _ hmem)

end Relocations

/-! ## Mapping -/

section Mapping

variable {host : Host} {path : CString} {plan : LoadPlan} {mapping : UInt32}
  {image found : Elf32Image} {s t u : State}

theorem MappedFrom.headers_eq {m : Memory} (hm : MappedFrom host path plan mapping image m) :
    image.programHeaders = image.loadBias + (headerTable plan.content).start := by
  rw [hm.table_eq, hm.header_eq]
  rfl

theorem MappedFrom.phnum_eq {m : Memory} (hm : MappedFrom host path plan mapping image m) :
    image.programHeaderCount.toNat = (Elf32Ehdr.ofBytes plan.content).phnum.toNat := by
  rw [hm.count_toNat, hm.header_eq]

/-- The dynamic table of a mapped image before the strings have been found. -/
theorem MappedFrom.fileDynamic_eq (hm : MappedFrom host path plan mapping image u.memory)
    (hplaced : HeadersPlaced plan.content) (hzero : image.dynamic = 0)
    (hfind : Loader.findDynamic u.memory image = .ok found) :
    ∃ segment, fileDynamic plan.content = some segment ∧
      found.dynamic = found.loadBias + segment.vaddr ∧
      found.dynamicCount = segment.memsz / 8 ∧
      dynamicEntries u.memory found = fileEntries plan.content := by
  have htable := hm.mappedTable_eq (hm.sameHeaders_iff.mpr hplaced)
  obtain ⟨segment, hsegment, hstart, hcount⟩ := findDynamic_file htable hzero hfind
  rw [hm.plan_valid.headers] at hsegment
  exact ⟨segment, hsegment, hstart, hcount, (hm.findDynamic hfind).unchanged.dynamicEntries_eq
    hsegment hstart hcount (findDynamic_inside hzero hfind)⟩

theorem mapAccesses_within (h : (mapHeaders host path).run s = .ok () u)
    (hplaced : HeadersPlaced (host.content path)) :
    Within u.image (mapTables (host.content path)) (mapAccesses host u) := by
  obtain ⟨plan, mapping, hm, ⟨hzero, -⟩, -⟩ := mapHeaders_eq_ok h
  rw [content_of_valid hm.plan_valid] at hplaced ⊢
  have hheaders : headerTable plan.content ∈ mapTables plan.content := List.mem_cons_self ..
  refine List.forall_mem_cons.mpr ⟨fun x hx => ?_, ?_⟩
  · refine sub_mem_addressesOf hheaders hm.headers_eq ?_ hx
    change Elf32Phdr.size * min _ _ ≤ Elf32Phdr.size * _
    rw [hm.phnum_eq]
    exact Nat.mul_le_mul_left _ (Nat.min_le_right _ _)
  · split
    · exact List.forall_mem_nil _
    · rename_i found hfind
      obtain ⟨segment, hsegment, hstart, -, hentries⟩ := hm.fileDynamic_eq hplaced hzero hfind
      obtain ⟨dynamic, count, rfl⟩ := findDynamic_eq_ok hfind
      have hdynamic := dynamicAccess_within hsegment hstart hentries
        (List.subset_cons_self (headerTable plan.content) (dynamicPrefix plan.content))
      refine List.forall_mem_cons.mpr ⟨List.forall_mem_singleton.mp hdynamic, ?_⟩
      split
      · exact List.forall_mem_nil _
      · rename_i image hparse
        obtain ⟨table, size, soname, rfl⟩ := parseDynamic_eq_ok hparse
        have himage := (hm.findDynamic hfind).parseDynamic hparse
        exact headerAccesses_within himage.headers_eq himage.phnum_eq hheaders

/-- A mapping that returns 0 has read all of its tables. -/
theorem mapAccesses_reaches (h : (elf32Map host path).run s = .ok () t)
    (hu : (mapHeaders host path).run (s.fresh path) = .ok () u)
    (hplaced : HeadersPlaced (host.content path)) :
    ∀ table ∈ mapTables (host.content path), Reaches u.image table (mapAccesses host u) := by
  obtain ⟨v, found, image, hv, hfind, hparse, hprotect⟩ := mapFile_steps (elf32Map_eq_ok h)
  rw [hu] at hv
  cases hv
  obtain ⟨plan, mapping, hm, ⟨hzero, -⟩, -⟩ := mapHeaders_eq_ok hu
  rw [content_of_valid hm.plan_valid] at hplaced ⊢
  obtain ⟨segment, hsegment, hstart, -, hentries⟩ := hm.fileDynamic_eq hplaced hzero hfind
  obtain ⟨hterminated, -⟩ := parseDynamic_file hparse
  have himage := (hm.findDynamic hfind).parseDynamic hparse
  have haccesses : mapAccesses host u = scanAccess u u.image :: dynamicAccess u found ::
      protectAccesses host image { u with image := image } := by
    simp only [mapAccesses, hfind, hparse]
  have hbias : found.loadBias = u.image.loadBias ∧ image.loadBias = u.image.loadBias := by
    obtain ⟨_, _, rfl⟩ := findDynamic_eq_ok hfind
    obtain ⟨_, _, _, rfl⟩ := parseDynamic_eq_ok hparse
    exact ⟨rfl, rfl⟩
  rw [haccesses]
  refine List.forall_mem_cons.mpr ⟨?_, ?_⟩
  · have hheaders := headerAccesses_reaches himage.headers_eq himage.phnum_eq hprotect
    intro v hv
    obtain ⟨a, ha, hx⟩ := hheaders v hv
    exact ⟨a, List.mem_cons_of_mem _ (List.mem_cons_of_mem _ ha), hbias.2 ▸ hx⟩
  · rw [dynamicPrefix, hsegment]
    refine List.forall_mem_singleton.mpr ?_
    refine reaches_of_mem (List.mem_cons_of_mem _ (List.mem_cons_self ..))
      (hbias.1 ▸ hstart) ?_
    change _ ≤ Elf32Dyn.size * min ((dynamicEntries u.memory found).length + 1) _
    rw [Nat.min_eq_left hterminated, hentries]

theorem elf32Map_linked (h : (elf32Map host path).run s = .ok () t)
    (hplaced : HeadersPlaced (host.content path))
    (hflags : ∀ segment ∈ programHeadersOf (host.content path), segment.type = ptLoad →
      segment.flags &&& pfR ≠ 0) :
    Linked (host.content path) t.image ∧ Unchanged (host.content path) t.image t.memory := by
  have htables : TablesInside t.image := by
    obtain ⟨_, _, -, -, hready⟩ := elf32Map_ready h hplaced hflags
    exact hready.tables
  obtain ⟨u, found, image, hu, hfind, hparse, hprotect⟩ := mapFile_steps (elf32Map_eq_ok h)
  obtain ⟨plan, mapping, hm, ⟨hzero, hsize_zero⟩, -⟩ := mapHeaders_eq_ok hu
  have hkept := protectSegments_contents hprotect
  have himage_eq : t.image = image := congrArg (·.2.1) hkept
  have hmemory : t.memory = u.memory := congrArg (·.1) hkept
  rw [content_of_valid hm.plan_valid] at hplaced ⊢
  rw [himage_eq] at htables ⊢
  rw [hmemory]
  obtain ⟨segment, hsegment, hstart, hcount, hentries⟩ := hm.fileDynamic_eq hplaced hzero hfind
  obtain ⟨hterminated, hstrings, hsize, hstrings_ne⟩ := parseDynamic_file hparse
  have himage := (hm.findDynamic hfind).parseDynamic hparse
  rw [hentries] at hterminated hstrings hsize
  have hfound_size : found.stringTableSize = 0 := by
    obtain ⟨_, _, rfl⟩ := findDynamic_eq_ok hfind
    exact hsize_zero
  obtain ⟨table, size, soname, rfl⟩ := parseDynamic_eq_ok hparse
  refine ⟨?_, himage.unchanged⟩
  exact {
    mapping_ne_zero := by
      rw [himage.mapping_eq]
      exact host.reserve_ne_zero himage.reserve_eq
    headers_eq := himage.headers_eq
    count_eq := himage.phnum_eq
    dynamic_eq := ⟨segment, hsegment, hstart, hcount⟩
    terminated := hterminated
    strings_eq := hstrings.trans (named_eq (hstrings ▸ hstrings_ne))
    stringsSize_eq := hsize.trans (by rw [hfound_size]; rfl)
    tables := htables }

end Mapping

/-! ## Without gaps -/

/-- Then every address of the reservation is on a page of a segment. -/
theorem Gapless.reservation_subset {host : Host} {path : CString} {plan : LoadPlan}
    {mapping : UInt32} {image : Elf32Image} (hm : Placed host path plan mapping image)
    (h : Gapless plan.content host.pageSize.toUInt32) :
    span image.mapping image.mappingSize.toNat ⊆ loadPages image plan.headers := by
  have hplan := hm.plan_valid
  have hheaders : plan.headers = programHeadersOf plan.content := hplan.headers
  have hpower := hplan.page
  obtain ⟨first, hfirst, hfirst_load, hminimum⟩ := hplan.first
  obtain ⟨last, hlast, hlast_load, hmaximum⟩ := hplan.last
  have haccepted := segmentEnd_eq_some hpower hmaximum
  rw [hheaders] at hfirst hlast
  intro x hx
  rw [hm.mem_loadPages]
  rw [hm.mapping_eq, hm.size_eq, mem_span, hplan.size_toNat] at hx
  -- the address in the file is as far from the lower bound as the address is from the mapping
  have hv : (x - image.loadBias).toNat =
      plan.extent.minimum.toNat + (x - mapping).toNat := by
    have hsum : x - image.loadBias = plan.extent.minimum + (x - mapping) := by
      rw [hm.bias_eq]
      grind
    have hbound := plan.extent.maximum.toNat_lt
    rw [hsum, UInt32.toNat_add, Nat.mod_eq_of_lt (by omega)]
  refine h first hfirst hfirst_load last hlast hlast_load _ ?_ ?_
  · rw [← hminimum, hv]
    exact Nat.le_add_right _ _
  · have hdown := alignDown_le hpower (x - image.loadBias)
    have hroom := multiple_add_le (dvd_alignDown hpower (x - image.loadBias)) haccepted.aligned
      (by omega)
    have hclose := haccepted.stop_lt
    omega

/-! ## Backed accesses -/

/-- A condition on the file decides whether accesses are backed: it is enough for every file,
and a file that is accepted does not do without it. -/
structure Decides (accepted backed condition : Prop) : Prop where
  enough : condition → backed
  needed : accepted → backed → condition

/-- Some tables of the file at a path are on pages of its segments. -/
def Host.Fills (host : Host) (path : CString) (tables : List UInt8 → List Table) : Prop :=
  Filled (host.content path) host.pageSize.toUInt32 (tables (host.content path))

/-- Accesses are on pages of the file's segments, and permitted. -/
def Host.Backed (host : Host) (path : CString) (image : Elf32Image) (accesses : List Access) :
    Prop :=
  AllBacked image (programHeadersOf (host.content path)) accesses

section Main

variable {host : Host} {path : CString} {plan : LoadPlan} {mapping : UInt32}
  {image : Elf32Image} {accesses : List Access} {tables : List UInt8 → List Table} {s t u : State}

theorem Placed.backed_iff (hm : Placed host path plan mapping image)
    (hsettled : ∀ a ∈ accesses, a.Settled image plan.headers) :
    host.Backed path image accesses ↔ ∀ a ∈ accesses, a.OnPages image plan.headers := by
  have hheaders : plan.headers = programHeadersOf plan.content := hm.plan_valid.headers
  rw [Host.Backed, content_of_valid hm.plan_valid, ← hheaders]
  exact allBacked_iff_onPages hsettled

theorem Placed.backed_of_filled (hm : Placed host path plan mapping image)
    (hsettled : ∀ a ∈ accesses, a.Settled image plan.headers)
    (hwithin : Within image (tables (host.content path)) accesses)
    (h : host.Fills path tables) : host.Backed path image accesses := by
  unfold Host.Fills at h
  rw [content_of_valid hm.plan_valid] at h hwithin
  exact (hm.backed_iff hsettled).mpr (hm.onPages_of_filled hwithin h)

theorem Placed.filled_of_backed (hm : Placed host path plan mapping image)
    (hsettled : ∀ a ∈ accesses, a.Settled image plan.headers)
    (hreaches : ∀ table ∈ tables (host.content path), Reaches image table accesses)
    (h : host.Backed path image accesses) : host.Fills path tables := by
  unfold Host.Fills
  rw [content_of_valid hm.plan_valid] at hreaches ⊢
  exact hm.filled_of_onPages hreaches ((hm.backed_iff hsettled).mp h)

theorem Placed.backed_of_gapless (hm : Placed host path plan mapping image)
    (hsettled : ∀ a ∈ accesses, a.Settled image plan.headers)
    (h : Gapless (host.content path) host.pageSize.toUInt32) :
    host.Backed path image accesses := by
  rw [content_of_valid hm.plan_valid] at h
  exact (hm.backed_iff hsettled).mpr fun a ha =>
    (hsettled a ha).inside.trans (h.reservation_subset hm)

end Main

/-- A table that lies in a segment is on its pages. -/
def Table.InSegment (content : List UInt8) (table : Table) : Prop :=
  ∃ segment ∈ programHeadersOf content, segment.type = ptLoad ∧
    segment.vaddr.toNat ≤ table.start.toNat ∧
    table.start.toNat + table.length ≤ segment.vaddr.toNat + segment.memsz.toNat

instance (content : List UInt8) (table : Table) : Decidable (table.InSegment content) :=
  inferInstanceAs (Decidable (∃ _ ∈ _, _))

theorem filled_of_inSegment {content : List UInt8} {pageSize : UInt32} {tables : List Table}
    (h : ∀ table ∈ tables, table.InSegment content)
    (hfit : ∀ segment ∈ programHeadersOf content,
      segment.vaddr.toNat + segment.memsz.toNat ≤ 2 ^ 32) : Filled content pageSize tables := by
  rintro v ⟨table, htable, hv⟩
  obtain ⟨segment, hsegment, htype, hstart, hstop⟩ := h table htable
  have hsegment_fits := hfit segment hsegment
  refine ⟨segment, hsegment, htype, v, ?_, rfl⟩
  rw [Table.addresses, mem_span_iff_toNat (by omega)] at hv
  rw [mem_span_iff_toNat hsegment_fits]
  omega

theorem untouched_of_notMem {content : List UInt8}
    (h : ∀ place ∈ (fileInfo content).places, ∀ table ∈ lookupTables content,
      table.start ∉ span (fileRelocation content place).offset 4 ∧
        (fileRelocation content place).offset ∉ span table.start table.length) :
    Untouched content := fun place hplace table htable =>
  disjoint_span (h place hplace table htable).1 (h place hplace table htable).2

/-- Two segments with a page between them, and relocations of words in the second one. -/
def spreadFile : List UInt8 :=
  [0x7f, 0x45, 0x4c, 0x46, 1, 1, 1, 0, 0, 0, 0, 0, 0, 0, 0, 0] ++
    [etDyn, emArm].flatMap le16 ++ [1, 0, 52, 0, 0].flatMap le32 ++
    [52, 32, 3, 0, 0, 0].flatMap le16 ++
    [ptLoad, 0, 0, 0, 284, 284, 7, 4096].flatMap le32 ++
    [ptLoad, 0, 0x2000, 0x2000, 0, 16, 6, 4096].flatMap le32 ++
    [ptDynamic, 148, 148, 148, 72, 72, 4, 4].flatMap le32 ++
    [dtStrtab, 220, dtStrsz, 7, dtSoname, 1, dtSymtab, 236, dtSyment, 16, dtHash, 228,
      dtRel, 268, dtRelsz, 16, dtNull, 0].flatMap le32 ++
    [0, 0x6c, 0x69, 0x62, 0, 0x67, 0, 0] ++ [1, 2].flatMap le32 ++
    [0, 0, 0, 0, 5, 0x2000, 4, 0x00010012].flatMap le32 ++
    [0x2004, rArmRelative, 0x2008, 0x100 + rArmAbs32].flatMap le32

def spreadHost : Host := { sampleHost with openFile := fun _ => .ok spreadFile }

def spreadMapped : State := Command.final ((elf32Map spreadHost (cstr "lib")).run .start)

def spreadRelocated : State :=
  Command.final ((elf32Relocate spreadHost spreadMapped.image none).run spreadMapped)

/-- Two segments with a page between them, where `DT_HASH` points. -/
def gapFile : List UInt8 :=
  [0x7f, 0x45, 0x4c, 0x46, 1, 1, 1, 0, 0, 0, 0, 0, 0, 0, 0, 0] ++
    [etDyn, emArm].flatMap le16 ++ [1, 0, 52, 0, 0].flatMap le32 ++
    [52, 32, 3, 0, 0, 0].flatMap le16 ++
    [ptLoad, 0, 0, 0, 212, 212, 7, 4096].flatMap le32 ++
    [ptLoad, 0, 0x2000, 0x2000, 0, 16, 6, 4096].flatMap le32 ++
    [ptDynamic, 148, 148, 148, 56, 56, 4, 4].flatMap le32 ++
    [dtStrtab, 204, dtStrsz, 5, dtSoname, 1, dtSymtab, 204, dtSyment, 16, dtHash, 0x1000,
      dtNull, 0].flatMap le32 ++ [0, 0x6c, 0x69, 0x62, 0, 0, 0, 0]

def gapHost : Host := { sampleHost with openFile := fun _ => .ok gapFile }

def gapMapped : State := Command.final ((elf32Map gapHost (cstr "lib")).run .start)

/-- The word at the hash table's second place. -/
def gapAccess : Access := gapMapped.reads 0x40001004 4

end NfsmwRuntime.Loader
