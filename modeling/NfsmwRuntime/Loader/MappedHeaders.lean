import NfsmwRuntime.Loader.Relocate

/-!
# The mapped program headers

`elf32Map` checks the program headers in the file, and from then on reads them from the
image, at `load_bias + e_phoff`. What is there is what the segments put there, which need
not be the file's table. The two tables are the same if the segments put the file's own
bytes at `e_phoff`; then every change of page protections stays inside the reservation, in
the mapping and in a relocation that leaves the table alone.
-/

namespace NfsmwRuntime.Loader

open Library

/-! ## What the segments put in memory -/

/-- The bytes that the segments of a file put at each virtual address, the last one that has
the address. -/
def fileImage (content : List UInt8) : Memory :=
  Memory.writeAll (fun _ => 0) (((programHeadersOf content).filter isLoad).map
    (segmentWrite content 0))

theorem segmentWrites_eq (content : List UInt8) (loadBias : UInt32) (loads : List Elf32Phdr) :
    loads.map (segmentWrite content loadBias) =
      (loads.map (segmentWrite content 0)).map fun w => ⟨loadBias + w.start, w.bytes⟩ := by
  rw [List.map_map]
  refine List.map_congr_left fun segment _ => ?_
  simp only [segmentWrite, Function.comp_apply, UInt32.zero_add]

theorem updateImage_eq_ok {f : Memory → Elf32Image → Except Failure Elf32Image} {s t : State}
    (h : (updateImage f).run s = .ok () t) :
    ∃ image, f s.memory s.image = .ok image ∧ t = { s with image := image } := by
  simp only [updateImage, EStateM.run] at h
  split at h
  · rename_i image himage
    cases h
    exact ⟨image, himage, rfl⟩
  · cases h

/-- `elf32_map` up to its loop over the program headers in the image. -/
def mapHeaders (host : Host) (path : CString) : LoaderM Unit := do
  let plan ← Command.lift (readPlan host path)
  let image ← reserveImage host path plan
  prepareSegments host path plan image
  updateImage (mappedHeaders plan.header)

theorem mapFile_eq (host : Host) (path : CString) :
    mapFile host path = (do
      mapHeaders host path
      updateImage findDynamic
      updateImage parseDynamic
      let s ← get
      protectSegments host s.image) := by
  simp only [mapFile, mapHeaders, completeImage, bind_assoc]

theorem mapHeaders_steps {host : Host} {path : CString} {s t : State}
    (h : (mapHeaders host path).run s = .ok () t) :
    ∃ plan mapping u image, readPlan host path = .ok plan ∧
      host.reserve plan.size = .ok mapping ∧
      (prepareSegments host path plan (plan.image host path mapping)).run
        (s.reserve (plan.image host path mapping)) = .ok () u ∧
      mappedHeaders plan.header u.memory u.image = .ok image ∧ t = { u with image := image } := by
  obtain ⟨plan, u, hlift, hreserve⟩ := Command.run_bind_eq_ok.mp h
  obtain ⟨hplan, rfl⟩ := Command.run_lift_eq_ok.mp hlift
  obtain ⟨image, v, hv, hprepare⟩ := Command.run_bind_eq_ok.mp hreserve
  obtain ⟨_, w, hw, hheaders⟩ := Command.run_bind_eq_ok.mp hprepare
  obtain ⟨next, hnext, rfl⟩ := updateImage_eq_ok hheaders
  cases hmapping : host.reserve plan.size with
  | error errno =>
    rw [reserveImage_error hmapping] at hv
    cases hv
  | ok mapping =>
    rw [reserveImage_run hmapping] at hv
    cases hv
    exact ⟨plan, mapping, w, next, hplan, hmapping, hw, hnext, rfl⟩

/-- The steps of a mapping from the program headers in the image on. -/
theorem mapFile_steps {host : Host} {path : CString} {s t : State}
    (h : (mapFile host path).run s = .ok () t) :
    ∃ u found image, (mapHeaders host path).run s = .ok () u ∧
      findDynamic u.memory u.image = .ok found ∧ parseDynamic u.memory found = .ok image ∧
      (protectSegments host image).run { u with image := image } = .ok () t := by
  rw [mapFile_eq] at h
  obtain ⟨_, u, hu, h₁⟩ := Command.run_bind_eq_ok.mp h
  obtain ⟨_, v, hv, h₂⟩ := Command.run_bind_eq_ok.mp h₁
  obtain ⟨found, hfind, rfl⟩ := updateImage_eq_ok hv
  obtain ⟨_, w, hw, h₃⟩ := Command.run_bind_eq_ok.mp h₂
  obtain ⟨image, hparse, rfl⟩ := updateImage_eq_ok hw
  rw [Command.run_get_bind] at h₃
  exact ⟨u, found, image, hu, hfind, hparse, h₃⟩

/-- The addresses of the mapped program headers. -/
def Elf32Image.headerTable (image : Elf32Image) : Set UInt32 :=
  span image.programHeaders (Elf32Phdr.size * image.programHeaderCount.toNat)

/-- An image that has its reservation. -/
structure Placed (host : Host) (path : CString) (plan : LoadPlan) (mapping : UInt32)
    (image : Elf32Image) : Prop where
  plan_valid : plan.Valid host path
  reserve_eq : host.reserve plan.size = .ok mapping
  mapping_eq : image.mapping = mapping
  size_eq : image.mappingSize = plan.size
  bias_eq : image.loadBias = mapping - plan.extent.minimum
  page_eq : image.pageSize = host.pageSize.toUInt32

/-- An image whose program headers have been found: they are in the reservation, and the
memory holds what the segments put there. -/
structure MappedFrom (host : Host) (path : CString) (plan : LoadPlan) (mapping : UInt32)
    (image : Elf32Image) (m : Memory) : Prop extends Placed host path plan mapping image where
  header_eq : plan.header = Elf32Ehdr.ofBytes plan.content
  table_eq : image.programHeaders = image.loadBias + plan.header.phoff
  count_eq : image.programHeaderCount = plan.header.phnum.toUInt32
  table_inside : rangeInImage image image.programHeaders (image.programHeaderCount * 32)
  memory_eq : ∀ x ∈ span mapping plan.size.toNat,
    m x = fileImage plan.content (x - image.loadBias)

theorem readPlan_header {host : Host} {path : CString} {plan : LoadPlan}
    (h : readPlan host path = .ok plan) : plan.header = Elf32Ehdr.ofBytes plan.content := by
  obtain ⟨content, _, hchecks⟩ := bind_eq_ok.mp h
  obtain ⟨_, _, hchecks⟩ := bind_eq_ok.mp hchecks
  obtain ⟨_, _, hchecks⟩ := bind_eq_ok.mp hchecks
  obtain ⟨_, _, hchecks⟩ := bind_eq_ok.mp hchecks
  obtain ⟨_, _, hchecks⟩ := bind_eq_ok.mp hchecks
  obtain ⟨extent, _, hchecks⟩ := bind_eq_ok.mp hchecks
  obtain ⟨_, _, hchecks⟩ := bind_eq_ok.mp hchecks
  cases hchecks
  rfl

/-- What is checked to be in the image is inside the reservation. -/
theorem rangeInImage_subset {image : Elf32Image} {address length : UInt32}
    (h : rangeInImage image address length) :
    span address length.toNat ⊆ span image.mapping image.mappingSize.toNat := by
  obtain ⟨hwrap, hstart, hstop, hlength⟩ := h
  have hsize : (image.mapping + image.mappingSize - image.mapping).toNat =
      image.mappingSize.toNat := by
    rw [UInt32.add_comm, UInt32.add_sub_cancel]
  rw [UInt32.toNat_sub_of_le _ _ hwrap] at hsize
  have hroom := UInt32.le_iff_toNat_le.mp hlength
  rw [UInt32.toNat_sub_of_le _ _ hstop] at hroom
  have hle := UInt32.le_iff_toNat_le.mp hstop
  have hge := UInt32.le_iff_toNat_le.mp hstart
  have haddress : address =
      image.mapping + .ofNat (address.toNat - image.mapping.toNat) := by
    rw [← UInt32.toNat_sub_of_le _ _ hstart, UInt32.ofNat_toNat]
    grind
  rw [haddress]
  exact span_offset_subset (by omega) image.mappingSize.toNat_lt.le

section Prepared

variable {host : Host} {path : CString} {plan : LoadPlan} {mapping : UInt32}

theorem prepared_memory {s t : State} (hplan : plan.Valid host path)
    (h : (prepareSegments host path plan (plan.image host path mapping)).run
      (s.reserve (plan.image host path mapping)) = .ok () t) {x : UInt32}
    (hx : x ∈ span mapping plan.size.toNat) :
    t.memory x = fileImage plan.content (x - (mapping - plan.extent.minimum)) := by
  have hheaders : plan.headers = programHeadersOf plan.content := hplan.headers
  have hmemory := prepareSegments_memory plan.headers.zipIdx
    (fun p hp hload => by
      obtain ⟨stop, haccepted, -⟩ := hplan.covers p.1 (List.fst_mem_of_mem_zipIdx hp)
        (by simpa [isLoad] using hload)
      exact haccepted.filesz_le) h
  rw [List.zipIdx_map_fst, segmentWrites_eq] at hmemory
  have hbase : mapping - plan.extent.minimum + (x - (mapping - plan.extent.minimum)) = x := by
    grind
  have hzero : (s.reserve (plan.image host path mapping)).memory
      (mapping - plan.extent.minimum + (x - (mapping - plan.extent.minimum))) = 0 := by
    rw [hbase]
    exact Memory.zeroFill_of_mem hx
  rw [hmemory, fileImage, ← hheaders,
    ← @Memory.writeAll_shift _ (fun _ => 0) _ _ (plan.image host path mapping).loadBias hzero]
  exact congrArg _ hbase.symm

theorem mappedHeaders_mappedFrom {s u : State} {image : Elf32Image}
    (hplan : readPlan host path = .ok plan) (hreserve : host.reserve plan.size = .ok mapping)
    (hprepare : (prepareSegments host path plan (plan.image host path mapping)).run
      (s.reserve (plan.image host path mapping)) = .ok () u)
    (h : mappedHeaders plan.header u.memory u.image = .ok image) :
    MappedFrom host path plan mapping image u.memory := by
  have hvalid := readPlan_eq_ok hplan
  have himage : u.image = plan.image host path mapping :=
    ((prepareSegments_keeps hvalid hreserve).of_ok hprepare).2
  obtain ⟨_, hrange, hnext⟩ := bind_eq_ok.mp h
  have hinside := check_eq_ok.mp hrange
  rw [himage] at hnext hinside
  cases hnext
  exact {
    plan_valid := hvalid
    reserve_eq := hreserve
    mapping_eq := rfl
    size_eq := rfl
    bias_eq := rfl
    page_eq := rfl
    header_eq := readPlan_header hplan
    table_eq := rfl
    count_eq := rfl
    table_inside := hinside
    memory_eq := fun _ hx => prepared_memory hvalid hprepare hx }

theorem MappedFrom.findDynamic {image next : Elf32Image} {m : Memory}
    (hm : MappedFrom host path plan mapping image m) (h : findDynamic m image = .ok next) :
    MappedFrom host path plan mapping next m := by
  obtain ⟨dynamic, count, rfl⟩ := findDynamic_eq_ok h
  exact { hm with }

theorem MappedFrom.parseDynamic {image next : Elf32Image} {m : Memory}
    (hm : MappedFrom host path plan mapping image m) (h : parseDynamic m image = .ok next) :
    MappedFrom host path plan mapping next m := by
  obtain ⟨table, size, soname, rfl⟩ := parseDynamic_eq_ok h
  exact { hm with }

theorem MappedFrom.count_toNat {image : Elf32Image} {m : Memory}
    (hm : MappedFrom host path plan mapping image m) :
    image.programHeaderCount.toNat = plan.header.phnum.toNat := by
  rw [hm.count_eq, UInt16.toNat_toUInt32]

theorem MappedFrom.headerTable_subset {image : Elf32Image} {m : Memory}
    (hm : MappedFrom host path plan mapping image m) :
    image.headerTable ⊆ span mapping plan.size.toNat := by
  have hsubset := rangeInImage_subset hm.table_inside
  rw [hm.mapping_eq, hm.size_eq] at hsubset
  refine subset_trans ?_ hsubset
  have hlt := plan.header.phnum.toNat_lt
  have hlength : (image.programHeaderCount * 32).toNat =
      Elf32Phdr.size * image.programHeaderCount.toNat := by
    rw [UInt32.toNat_mul, hm.count_toNat]
    change plan.header.phnum.toNat * 32 % 2 ^ 32 = 32 * plan.header.phnum.toNat
    omega
  rw [Elf32Image.headerTable, hlength]

/-- Where the mapped table has its entries, the file's image has what it puts at `e_phoff`. -/
theorem MappedFrom.window_eq {image : Elf32Image} {m : Memory}
    (hm : MappedFrom host path plan mapping image m) {index : Nat}
    (hindex : index < plan.header.phnum.toNat) :
    m.window (image.programHeaders + .ofNat (Elf32Phdr.size * index)) Elf32Phdr.size =
      (fileImage plan.content).window
        (plan.header.phoff + .ofNat (Elf32Phdr.size * index)) Elf32Phdr.size := by
  refine List.map_congr_left fun k hk => ?_
  have hk' := List.mem_range.mp hk
  have hfit : Elf32Phdr.size * index + Elf32Phdr.size ≤
      Elf32Phdr.size * image.programHeaderCount.toNat := by
    rw [hm.count_toNat, ← Nat.mul_succ]
    exact Nat.mul_le_mul_left Elf32Phdr.size hindex
  have hword : Elf32Phdr.size * image.programHeaderCount.toNat ≤ 2 ^ 32 := by
    have hlt := plan.header.phnum.toNat_lt
    rw [hm.count_toNat, Elf32Phdr.size]
    omega
  rw [hm.memory_eq _ (hm.headerTable_subset (span_offset_subset hfit hword (add_mem_span hk')))]
  congr 1
  rw [hm.table_eq]
  grind

end Prepared

/-! ## The two tables -/

/-- The program headers as they are read from the image. -/
def mappedTable (m : Memory) (image : Elf32Image) : List Elf32Phdr :=
  (List.range image.programHeaderCount.toNat).map (programHeader m image.programHeaders)

/-- The bytes of a program header in the file. -/
def fileHeader (content : List UInt8) (index : Nat) : List UInt8 :=
  (content.drop ((Elf32Ehdr.ofBytes content).phoff.toNat + Elf32Phdr.size * index)).take
    Elf32Phdr.size

/-- The segments of the file put its program headers, byte by byte, at `e_phoff`. -/
def HeadersPlaced (content : List UInt8) : Prop :=
  ∀ index < (Elf32Ehdr.ofBytes content).phnum.toNat,
    (fileImage content).window
      ((Elf32Ehdr.ofBytes content).phoff + .ofNat (Elf32Phdr.size * index)) Elf32Phdr.size =
      fileHeader content index

instance (content : List UInt8) : Decidable (HeadersPlaced content) :=
  inferInstanceAs (Decidable (∀ _ < _, _))

/-- The program headers that are read from the image are the file's. -/
def SameHeaders (content : List UInt8) (image : Elf32Image) (m : Memory) : Prop :=
  ∀ index < (Elf32Ehdr.ofBytes content).phnum.toNat,
    m.window (image.programHeaders + .ofNat (Elf32Phdr.size * index)) Elf32Phdr.size =
      fileHeader content index

instance (content : List UInt8) (image : Elf32Image) (m : Memory) :
    Decidable (SameHeaders content image m) :=
  inferInstanceAs (Decidable (∀ _ < _, _))

theorem Elf32Phdr.ofBytes_take (p : List UInt8) :
    Elf32Phdr.ofBytes (p.take Elf32Phdr.size) = Elf32Phdr.ofBytes p := by
  simp only [ofBytes, List.drop_take, size, Elf32Phdr.mk.injEq]
  refine ⟨?_, ?_, ?_, ?_, ?_, ?_⟩ <;> exact readU32_take (by decide)

section Tables

variable {host : Host} {path : CString} {plan : LoadPlan} {mapping : UInt32}
  {image : Elf32Image} {m : Memory}

theorem MappedFrom.sameHeaders_iff (hm : MappedFrom host path plan mapping image m) :
    SameHeaders plan.content image m ↔ HeadersPlaced plan.content := by
  refine forall₂_congr fun index hindex => ?_
  rw [← hm.header_eq] at hindex ⊢
  rw [hm.window_eq hindex]

theorem MappedFrom.mappedTable_eq (hm : MappedFrom host path plan mapping image m)
    (h : SameHeaders plan.content image m) : mappedTable m image = plan.headers := by
  rw [hm.plan_valid.headers, mappedTable, fileProgramHeaders, hm.count_toNat, ← hm.header_eq]
  refine List.map_congr_left fun index hindex => ?_
  have hwindow := h index (hm.header_eq ▸ List.mem_range.mp hindex)
  rw [programHeader, tableEntry, hwindow, fileHeader, Elf32Phdr.ofBytes_take, ← hm.header_eq]

end Tables

/-! ## Page protections -/

/-- A change of page protections outside the preparation loop stays inside the reservation. -/
def Call.ChangesInside (mapping size : UInt32) : Call → Prop
  | .mprotect .prepare .. => True
  | .mprotect _ start length _ _ =>
    mapping.toNat ≤ start.toNat ∧ start.toNat + length.toNat ≤ mapping.toNat + size.toNat
  | _ => True

instance (mapping size : UInt32) : DecidablePred (Call.ChangesInside mapping size) := by
  intro c
  unfold Call.ChangesInside
  split <;> infer_instance

section Changes

variable {host : Host} {phase : Phase} {overflow : Failure} {failure : CString → Failure}
  {bits : Elf32Phdr → UInt32} {image : Elf32Image}

theorem changeSegment_keeps {P : Call → Prop} {segment : Elf32Phdr}
    (hP : segment.type = ptLoad → segment.memsz ≠ 0 → ∀ stop,
      alignUp (image.loadBias + segment.vaddr + segment.memsz) image.pageSize = some stop →
      ∀ ok, P (.mprotect phase (alignDown (image.loadBias + segment.vaddr) image.pageSize)
        (stop - alignDown (image.loadBias + segment.vaddr) image.pageSize) (bits segment) ok)) :
    Command.Leaves (Keeps P State.contents)
      (changeSegment host phase overflow failure bits image segment) := by
  unfold changeSegment
  split
  · exact Command.leaves_pure ()
  · rename_i hload
    rw [not_or, not_not] at hload
    refine Command.leaves_bind (Command.leaves_lift _) fun stop _ s hstop => ?_
    have halign := require_eq_ok.mp (Command.run_lift_eq_ok.mp hstop).1
    exact mprotect_keeps host failure (hP hload.1 hload.2 stop halign) s

/-- The table that the loop reads is the one before it, since it changes no memory. -/
theorem changeSegments_run (s : State) :
    (changeSegments host phase overflow failure bits image).run s =
      (forM (mappedTable s.memory image)
        (changeSegment host phase overflow failure bits image)).run s := by
  have hmemory : ∀ segment u v,
      (changeSegment host phase overflow failure bits image segment).run u = .ok () v →
      v.memory = u.memory := fun _ _ _ hrun =>
    congrArg (·.1) ((changeSegment_keeps (P := fun _ => True)
      fun _ _ _ _ _ => trivial).of_ok hrun).2
  exact Command.run_forM_get (f := fun m => programHeader m image.programHeaders) hmemory _ s

/-- The calls that the two loops can make for some program headers. -/
def AllChanges (image : Elf32Image) (headers : List Elf32Phdr) (P : Call → Prop) : Prop :=
  ∀ segment ∈ headers, segment.type = ptLoad → segment.memsz ≠ 0 → ∀ stop,
    alignUp (image.loadBias + segment.vaddr + segment.memsz) image.pageSize = some stop →
    let start := alignDown (image.loadBias + segment.vaddr) image.pageSize
    ∀ ok, P (.mprotect .writable start (stop - start) protReadWrite ok) ∧
      P (.mprotect .protect start (stop - start) (protection segment.flags) ok)

variable {P : Call → Prop} {headers : List Elf32Phdr} (hP : AllChanges image headers P)

include hP

/-- Page protections are changed for the segments in the table only. -/
theorem protectSegments_keeps_of {s : State} (htable : mappedTable s.memory image = headers) :
    Keeps P State.contents s (Command.final ((protectSegments host image).run s)) := by
  rw [protectSegments, changeSegments_run, htable]
  refine Command.leaves_forM (fun segment hsegment => changeSegment_keeps ?_) s
  exact fun htype hmemsz stop hstop ok => (hP segment hsegment htype hmemsz stop hstop ok).2

theorem setSegmentsWritable_keeps_of {s : State}
    (htable : mappedTable s.memory image = headers) :
    Keeps P State.contents s (Command.final ((setSegmentsWritable host image).run s)) := by
  rw [setSegmentsWritable, changeSegments_run, htable]
  refine Command.leaves_forM (fun segment hsegment => changeSegment_keeps ?_) s
  exact fun htype hmemsz stop hstop ok => (hP segment hsegment htype hmemsz stop hstop ok).1

end Changes

section Inside

variable {host : Host} {path : CString} {plan : LoadPlan} {mapping : UInt32}
  {image : Elf32Image}

theorem Placed.dvd_bias (hm : Placed host path plan mapping image) :
    host.pageSize.toUInt32.toNat ∣ image.loadBias.toNat := by
  have hword := dvd_word hm.plan_valid.page
  have hmapping := host.reserve_aligned hm.reserve_eq
  have hminimum := hm.plan_valid.aligned
  rw [hm.bias_eq, UInt32.toNat_sub, Nat.dvd_mod_iff hword]
  exact Nat.dvd_add (Nat.dvd_sub hword hminimum) hmapping

/-- The pages of a checked segment are inside the reservation. -/
theorem Placed.changes_inside (hm : Placed host path plan mapping image) :
    AllChanges image plan.headers (Call.ChangesInside mapping plan.size) := by
  intro segment hsegment htype hmemsz stop hstop start ok
  unfold start
  rw [hm.page_eq] at hstop ⊢
  rw [alignDown_add hm.plan_valid.page hm.dvd_bias]
  rw [hm.bias_eq] at hstop ⊢
  have hinside := prepare_inside hm.plan_valid hm.reserve_eq
    (hm.plan_valid.covers segment hsegment htype) hmemsz 0 ok hstop
  exact ⟨hinside, hinside⟩

end Inside

/-! ## Relocation -/

/-- The targets of the entries that `elf32_relocate` reads, each from the memory that the
entries before it have left. -/
def relocationTargets (host : Host) (image : Elf32Image) (resolver : Option Resolver)
    (s : State) : List UInt32 :=
  match (relocationSetup host image).run s with
  | .ok info t =>
    Command.trace (fun place => applyRelocation image info resolver place.1 place.2)
      (fun u place => (relocationEntry u.memory place.1 place.2).target image) info.places t
  | .error .. => []

section Relocation

variable {host : Host} {image : Elf32Image} {info : Elf32DynamicInfo}
  {resolver : Option Resolver} {s : State} {kept : Set UInt32}

/-- The memory at some addresses. -/
def State.within (kept : Set UInt32) (s : State) : kept → UInt8 := kept.domRestrict s.memory

theorem within_eq_iff {s t : State} :
    State.within kept t = State.within kept s ↔ Set.EqOn t.memory s.memory kept :=
  Set.domRestrict_eq_domRestrict_iff

theorem storeWord_keeps {P : Call → Prop} (target value : UInt32) (s : State) :
    Keeps P (State.within (span target 4)ᶜ) s (s.storeWord target value) := by
  refine ⟨⟨[], (List.append_nil _).symm, nofun⟩, within_eq_iff.mpr fun x hx => ?_⟩
  have hother : x ∉ span target (le32 value).length := hx
  exact Memory.write_of_notMem hother

/-- An entry writes at most its word, and makes no call. -/
theorem applyRelocation_keeps (table : UInt32) (index : Nat) (s : State) :
    Keeps (fun _ => False)
      (State.within (span ((relocationEntry s.memory table index).target image) 4)ᶜ) s
      (Command.final ((applyRelocation image info resolver table index).run s)) := by
  unfold applyRelocation
  rw [Command.run_get_bind]
  generalize relocationEntry s.memory table index = relocation
  refine Command.leaves_bind (Command.leaves_lift _) (fun _ _ u _ => ?_) s
  have hcount : ∀ f : RelocationStats → RelocationStats, ∀ v : State,
      Keeps (fun _ => False) (State.within (span (relocation.target image) 4)ᶜ) v
        { v with stats := f v.stats } := fun _ _ => ⟨⟨[], (List.append_nil _).symm, nofun⟩, rfl⟩
  dsimp only
  split
  · refine Command.leaves_bind (Command.leaves_modify (hcount _)) (fun _ _ v _ => ?_) u
    exact storeWord_keeps _ _ v
  · split
    · refine Command.leaves_bind (Command.leaves_modify (hcount _)) (fun _ _ v _ => ?_) u
      refine Command.leaves_bind (Command.leaves_lift _) (fun result _ w _ => ?_) v
      cases result with
      | unresolved name => exact ⟨⟨[], (List.append_nil _).symm, nofun⟩, rfl⟩
      | value value => exact storeWord_keeps _ _ w
    · exact refl_of _ u

/-- Entries whose words are not in a set of addresses leave it as it is. -/
theorem applyPlaces_keeps {places : List (UInt32 × Nat)} {s : State}
    (h : ∀ target ∈ Command.trace
        (fun place => applyRelocation image info resolver place.1 place.2)
        (fun u place => (relocationEntry u.memory place.1 place.2).target image) places s,
      Disjoint (span target 4) kept) :
    Keeps (fun _ => False) (State.within kept) s (Command.final
      ((forM places fun place => applyRelocation image info resolver place.1 place.2).run s)) := by
  induction places generalizing s with
  | nil => exact refl_of _ s
  | cons place places ih =>
    obtain ⟨table, index⟩ := place
    obtain ⟨hfirst, hrest⟩ := List.forall_mem_cons.mp h
    have hstep : Keeps (fun _ => False) (State.within kept) s
        (Command.final ((applyRelocation image info resolver table index).run s)) := by
      refine (applyRelocation_keeps table index s).mono (fun _ => id) fun hout => ?_
      exact within_eq_iff.mpr ((within_eq_iff.mp hout).mono
        (Set.subset_compl_iff_disjoint_left.mpr hfirst))
    rw [List.forM_cons, EStateM.run_bind]
    cases hrun : (applyRelocation image info resolver table index).run s with
    | ok _ t =>
      rw [hrun] at hrest hstep
      exact trans_of _ hstep (ih hrest)
    | error failure t =>
      rw [hrun] at hstep
      exact hstep

theorem mappedTable_congr {m m' : Memory}
    (hcount : Elf32Phdr.size * image.programHeaderCount.toNat ≤ 2 ^ 32)
    (h : Set.EqOn m m' image.headerTable) : mappedTable m image = mappedTable m' image :=
  List.map_congr_left fun _ hindex => tableEntry_congr hcount h (List.mem_range.mp hindex)

end Relocation

section Later

variable {host : Host} {image : Elf32Image} {headers : List Elf32Phdr} {P : Call → Prop}
  (hP : AllChanges image headers P)

theorem keeps_within_of_contents {kept : Set UInt32} {s t : State}
    (h : Keeps P State.contents s t) : Keeps P (State.within kept) s t :=
  h.mono (fun _ => id) fun hcontents =>
    within_eq_iff.mpr fun x _ => congrFun (congrArg (·.1) hcontents) x

include hP

theorem relocationSetup_keeps {kept : Set UInt32} {s : State}
    (htable : mappedTable s.memory image = headers) :
    Keeps P (State.within kept) s
      (Command.final ((relocationSetup host image).run s)) := by
  refine Command.final_bind (Command.leaves_lift _ s) fun _ t hcheck _ => ?_
  obtain ⟨-, rfl⟩ := Command.run_lift_eq_ok.mp hcheck
  refine Command.final_bind ⟨⟨[], (List.append_nil _).symm, nofun⟩, rfl⟩ fun _ u hreset _ => ?_
  cases hreset
  rw [Command.run_get_bind]
  refine Command.final_bind (Command.leaves_lift _ _) fun info v hparse _ => ?_
  obtain ⟨-, rfl⟩ := Command.run_lift_eq_ok.mp hparse
  refine Command.final_bind ?_ fun _ _ _ _ => refl_of _ _
  exact keeps_within_of_contents (setSegmentsWritable_keeps_of hP htable)

/-- A relocation whose words are not in some set with the table of program headers leaves the
set, and makes calls for the segments in the table only. -/
theorem elf32Relocate_keeps {resolver : Option Resolver} {kept : Set UInt32} {s : State}
    (hkept : image.headerTable ⊆ kept)
    (hcount : Elf32Phdr.size * image.programHeaderCount.toNat ≤ 2 ^ 32)
    (htable : mappedTable s.memory image = headers)
    (htargets : ∀ target ∈ relocationTargets host image resolver s,
      Disjoint (span target 4) kept) :
    Keeps P (State.within kept) s
      (Command.final ((elf32Relocate host image resolver).run s)) := by
  rw [elf32Relocate_eq]
  refine Command.final_bind (relocationSetup_keeps hP htable) fun info t hsetup hst => ?_
  rw [relocationTargets, hsetup] at htargets
  have happly : Keeps P (State.within kept) t
      (Command.final ((Command.capture (forM info.places fun place =>
        applyRelocation image info resolver place.1 place.2)).run t)) := by
    rw [Command.final_capture]
    exact (applyPlaces_keeps htargets).mono (fun _ => False.elim) id
  refine Command.final_bind happly fun result u _ htu => ?_
  refine Command.final_bind ?_ fun _ v _ _ => Command.leaves_lift _ v
  have hsu : Set.EqOn u.memory s.memory image.headerTable :=
    (within_eq_iff.mp (trans_of _ hst htu).2).mono hkept
  exact keeps_within_of_contents
    (protectSegments_keeps_of hP ((mappedTable_congr hcount hsu).trans htable))

end Later

theorem MappedFrom.headerTable_fits {host : Host} {path : CString} {plan : LoadPlan}
    {mapping : UInt32} {image : Elf32Image} {m : Memory}
    (hm : MappedFrom host path plan mapping image m) :
    Elf32Phdr.size * image.programHeaderCount.toNat ≤ 2 ^ 32 := by
  have hlt := plan.header.phnum.toNat_lt
  rw [hm.count_toNat, Elf32Phdr.size]
  omega

/-! ## The validated headers -/

theorem Keeps.made {β : Type} {P : Call → Prop} {f : State → β} {s t : State}
    (h : Keeps P f s t) {made : List Call} (hmade : t.calls = s.calls ++ made) :
    ∀ c ∈ made, P c := by
  obtain ⟨⟨calls, hcalls, hall⟩, -⟩ := h
  rw [hmade, List.append_cancel_left_eq] at hcalls
  exact hcalls ▸ hall

theorem prepareSegment_changes {host : Host} {path : CString} {content : List UInt8}
    {image : Elf32Image} {mapping size : UInt32} (index : Nat) (segment : Elf32Phdr) :
    Command.Leaves (Keeps (Call.ChangesInside mapping size) State.image)
      (prepareSegment host path content image index segment) := by
  unfold prepareSegment
  split
  · refine Command.leaves_bind (Command.leaves_lift _) fun stop _ s _ => ?_
    refine Command.leaves_bind (fun u => ?_) (fun _ _ u _ => ?_) s
    · exact (mprotect_keeps host _ (fun ok => trivial) u).mono (fun _ => id)
        fun hcontents => congrArg (·.2.1) hcontents
    · split
      · exact ⟨⟨_, rfl, List.forall_mem_singleton.mpr trivial⟩, rfl⟩
      · exact Command.leaves_pure () u
  · exact Command.leaves_pure ()

theorem elf32Map_eq_ok {host : Host} {path : CString} {s t : State}
    (h : (elf32Map host path).run s = .ok () t) :
    (mapFile host path).run (s.fresh path) = .ok () t := by
  rw [elf32Map_run] at h
  cases hrun : (mapFile host path).run (s.fresh path) with
  | error failure u =>
    rw [hrun] at h
    cases h
  | ok _ u =>
    rw [hrun] at h
    cases h
    rfl

/-- What a mapping that returned 0 leaves, and the calls outside its preparation loop. -/
theorem elf32Map_mappedFrom {host : Host} {path : CString} {s t : State}
    (h : (elf32Map host path).run s = .ok () t) :
    ∃ plan mapping, MappedFrom host path plan mapping t.image t.memory ∧
      (mappedTable t.memory t.image = plan.headers →
        Keeps (Call.ChangesInside mapping plan.size) (fun _ => ()) s t) := by
  obtain ⟨v, found, image, hv, hfind, hparse, hprotect⟩ := mapFile_steps (elf32Map_eq_ok h)
  obtain ⟨plan, mapping, u, headers, hplan, hreserve, hprepare, hmapped, rfl⟩ :=
    mapHeaders_steps hv
  have hm := ((mappedHeaders_mappedFrom hplan hreserve hprepare hmapped).findDynamic
    hfind).parseDynamic hparse
  have hkept := protectSegments_contents hprotect
  have himage : t.image = image := congrArg (·.2.1) hkept
  have hmemory : t.memory = u.memory := congrArg (·.1) hkept
  rw [himage, hmemory]
  refine ⟨plan, mapping, hm, fun htable => ?_⟩
  have hreserved : Keeps (Call.ChangesInside mapping plan.size) (fun _ => ()) s
      ((s.fresh path).reserve (plan.image host path mapping)) :=
    ⟨⟨_, rfl, List.forall_mem_singleton.mpr trivial⟩, rfl⟩
  have hprepared : Keeps (Call.ChangesInside mapping plan.size) State.image _ u :=
    (Command.leaves_forM fun _ _ => prepareSegment_changes _ _).of_ok hprepare
  have hprotected : Keeps (Call.ChangesInside mapping plan.size) State.contents
      { u with image := image }
      (Command.final ((protectSegments host image).run { u with image := image })) :=
    protectSegments_keeps_of hm.changes_inside htable
  rw [hprotect] at hprotected
  have hcompleted : Keeps (Call.ChangesInside mapping plan.size) (fun _ => ()) u t :=
    ⟨hprotected.1, rfl⟩
  exact trans_of _ hreserved
    (trans_of _ (hprepared.mono (fun _ => id) fun _ => rfl) hcompleted)

/-- After a mapping that returned 0: the program headers in the image are the file's, and
page protections are changed inside the reservation only, in the mapping and in every later
relocation of the image that leaves the table alone. -/
structure HeadersValidated (host : Host) (content : List UInt8) (s t : State) : Prop where
  headers : SameHeaders content t.image t.memory
  mapped : ∀ made, t.calls = s.calls ++ made →
    ∀ c ∈ made, c.ChangesInside t.image.mapping t.image.mappingSize
  relocated : ∀ resolver u made, Set.EqOn u.memory t.memory t.image.headerTable →
    (∀ target ∈ relocationTargets host t.image resolver u,
      Disjoint (span target 4) t.image.headerTable) →
    (Command.final ((elf32Relocate host t.image resolver).run u)).calls = u.calls ++ made →
    ∀ c ∈ made, c.ChangesInside t.image.mapping t.image.mappingSize

/-- The program headers used after a mapping are the validated ones exactly if the segments
put the file's own table at `e_phoff`. -/
theorem headers_validated_iff {host : Host} {path : CString} {s t : State}
    (h : (elf32Map host path).run s = .ok () t) :
    HeadersValidated host (host.content path) s t ↔ HeadersPlaced (host.content path) := by
  obtain ⟨plan, mapping, hm, hcalls⟩ := elf32Map_mappedFrom h
  rw [content_of_valid hm.plan_valid]
  refine ⟨fun hvalidated => hm.sameHeaders_iff.mp hvalidated.headers, fun hplaced => ?_⟩
  have hsame := hm.sameHeaders_iff.mpr hplaced
  have htable := hm.mappedTable_eq hsame
  refine ⟨hsame, fun made hmade => ?_, fun resolver u made hunwritten htargets hmade => ?_⟩
  · rw [hm.mapping_eq, hm.size_eq]
    exact (hcalls htable).made hmade
  · have htable' := (mappedTable_congr hm.headerTable_fits hunwritten).trans htable
    rw [hm.mapping_eq, hm.size_eq]
    exact (elf32Relocate_keeps hm.changes_inside subset_rfl hm.headerTable_fits htable'
      htargets).made hmade

/-- Segments that do not overlap put their own bytes at their addresses. -/
theorem LoadPlan.Valid.fileImage_segment {host : Host} {path : CString} {plan : LoadPlan}
    (hplan : plan.Valid host path) (hapart : SegmentsApart plan.content) {segment : Elf32Phdr}
    (hsegment : segment ∈ programHeadersOf plan.content) (htype : segment.type = ptLoad) {k : Nat}
    (hk : k < segment.filesz.toNat) :
    plan.content[segment.offset.toNat + k]? =
      some (fileImage plan.content (segment.vaddr + .ofNat k)) := by
  have haccepted : ∀ a ∈ (programHeadersOf plan.content).filter isLoad,
      a.offset.toNat + a.filesz.toNat ≤ plan.content.length ∧ a.filesz.toNat ≤ a.memsz.toNat := by
    intro a ha
    obtain ⟨hmem, hload⟩ := List.mem_filter.mp ha
    have hcovers := hplan.covers a (hplan.headers ▸ hmem) (by simpa [isLoad] using hload)
    obtain ⟨stop, haccepted, -⟩ := hcovers
    exact ⟨haccepted.in_file, haccepted.filesz_le⟩
  have hload : segment ∈ (programHeadersOf plan.content).filter isLoad :=
    List.mem_filter.mpr ⟨hsegment, by simpa [isLoad] using htype⟩
  have hbyte : plan.content[segment.offset.toNat + k]? =
      some (fileImage plan.content (0 + segment.vaddr + .ofNat k)) :=
    writeAll_segments_file hapart (fun a ha => (haccepted a ha).1)
      (fun a ha => (haccepted a ha).2) hload hk
  rwa [UInt32.zero_add] at hbyte

/-- The layout that the loader is written for: segments that do not overlap, and one of them
has the file's table and is mapped at its own offset. -/
theorem LoadPlan.Valid.headersPlaced {host : Host} {path : CString} {plan : LoadPlan}
    (hplan : plan.Valid host path) (hapart : SegmentsApart plan.content) {segment : Elf32Phdr}
    (hsegment : segment ∈ programHeadersOf plan.content) (htype : segment.type = ptLoad)
    (hoffset : segment.vaddr = segment.offset)
    (hstart : segment.offset.toNat ≤ (Elf32Ehdr.ofBytes plan.content).phoff.toNat)
    (hstop : (Elf32Ehdr.ofBytes plan.content).phoff.toNat +
        Elf32Phdr.size * (Elf32Ehdr.ofBytes plan.content).phnum.toNat ≤
      segment.offset.toNat + segment.filesz.toNat) : HeadersPlaced plan.content := by
  intro index hindex
  have hfit : Elf32Phdr.size * index + Elf32Phdr.size ≤
      Elf32Phdr.size * (Elf32Ehdr.ofBytes plan.content).phnum.toNat := by
    rw [← Nat.mul_succ]
    exact Nat.mul_le_mul_left Elf32Phdr.size hindex
  have hbyte : ∀ k < Elf32Phdr.size, plan.content[
      (Elf32Ehdr.ofBytes plan.content).phoff.toNat + Elf32Phdr.size * index + k]? =
      some (fileImage plan.content ((Elf32Ehdr.ofBytes plan.content).phoff +
        .ofNat (Elf32Phdr.size * index) + .ofNat k)) := by
    intro k hk
    obtain ⟨j, hj⟩ : ∃ j, (Elf32Ehdr.ofBytes plan.content).phoff.toNat +
        Elf32Phdr.size * index + k = segment.offset.toNat + j := Nat.exists_eq_add_of_le (by omega)
    have haddress : (Elf32Ehdr.ofBytes plan.content).phoff + .ofNat (Elf32Phdr.size * index) +
        .ofNat k = segment.vaddr + .ofNat j := by
      rw [← @UInt32.ofNat_toNat (Elf32Ehdr.ofBytes plan.content).phoff, ← UInt32.ofNat_add,
        ← UInt32.ofNat_add, hj, UInt32.ofNat_add, UInt32.ofNat_toNat, hoffset]
    rw [hj, haddress]
    exact hplan.fileImage_segment hapart hsegment htype (by omega)
  have hlength : (fileHeader plan.content index).length = Elf32Phdr.size := by
    have hlast := (List.getElem?_eq_some_iff.mp (hbyte 31 (by decide))).1
    rw [fileHeader, List.length_take, List.length_drop]
    simp only [Elf32Phdr.size] at hlast ⊢
    omega
  have hwindow := Memory.window_eq (m := fileImage plan.content)
    (a := (Elf32Ehdr.ofBytes plan.content).phoff + .ofNat (Elf32Phdr.size * index))
    (fileHeader plan.content index) fun k hk => ?_
  · rwa [hlength] at hwindow
  · have hget := hbyte k (hlength ▸ hk)
    rw [← List.getElem?_drop, ← List.getElem?_take_of_lt (hlength ▸ hk)] at hget
    exact ((List.getElem_eq_iff hk).mpr hget).symm

theorem headers_validated_sample :
    HeadersValidated sampleHost sampleFile .start sampleMapped := by
  have hplaced : HeadersPlaced sampleFile := by decide +kernel
  exact (headers_validated_iff sampleMapped_run).mpr hplaced

/-- A file with one segment, which starts behind the program headers and has a table of its
own at `e_phoff`. In this table the segment is at 0x10000000. -/
def displacedFile : List UInt8 :=
  sampleFile.take 52 ++ [ptLoad, 116, 0, 0, 296, 320, 7, 4096].flatMap le32 ++
    [0, 0, 0, 0, 0, 0, 0, 0].flatMap le32 ++ sampleFile.take 52 ++
    [ptLoad, 0, 0x10000000, 0x10000000, 296, 320, 7, 4096].flatMap le32 ++ sampleFile.drop 84

def displacedHost : Host := { sampleHost with openFile := fun _ => .ok displacedFile }

def displacedMapped : State :=
  Command.final ((elf32Map displacedHost (cstr "lib")).run .start)

/-- The mapping returns 0, the headers are not the file's, and pages outside of the
reservation have been made executable. -/
theorem displaced_not_validated :
    (elf32Map displacedHost (cstr "lib")).run .start = .ok () displacedMapped ∧
      ¬ SameHeaders displacedFile displacedMapped.image displacedMapped.memory ∧
      .mprotect .protect 0x50000000 4096 7 true ∈ displacedMapped.calls ∧
      ∃ c ∈ displacedMapped.calls,
        ¬ c.ChangesInside displacedMapped.image.mapping displacedMapped.image.mappingSize := by
  refine ⟨Command.eq_ok_of_succeeded ?_, ?_, ?_, ?_⟩ <;> decide +kernel

end NfsmwRuntime.Loader
