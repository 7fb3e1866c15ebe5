import Mathlib.Data.List.Pairwise
import NfsmwRuntime.Loader.Map

/-!
# The load image

After `elf32Map` has returned 0 the image holds the segments of the file: the bytes of the
file where a segment has them and zeros in the rest of it. This needs segments that do not
overlap; the copies are then writes to disjoint spans of a zero-filled reservation.
-/

namespace NfsmwRuntime.Loader

open Library

/-! ## The contents of the image -/

def isLoad (segment : Elf32Phdr) : Bool := segment.type == ptLoad

/-- The copy of a segment, as a write. -/
def segmentWrite (content : List UInt8) (loadBias : UInt32) (segment : Elf32Phdr) :
    Memory.Write :=
  ⟨loadBias + segment.vaddr, (content.drop segment.offset.toNat).take segment.filesz.toNat⟩

theorem mprotect_memory {host : Host} {phase : Phase} {start length bits : UInt32}
    {failure : CString → Failure} {s t : State}
    (h : (mprotect host phase start length bits failure).run s = .ok () t) :
    t.memory = s.memory :=
  congrArg (·.1) ((mprotect_keeps host failure (P := fun _ => True) fun _ => trivial).of_ok h).2

theorem prepareSegment_memory {host : Host} {path : CString} {content : List UInt8}
    {image : Elf32Image} {index : Nat} {segment : Elf32Phdr} {s t : State}
    (hle : isLoad segment → segment.filesz.toNat ≤ segment.memsz.toNat)
    (h : (prepareSegment host path content image index segment).run s = .ok () t) :
    t.memory = s.memory.writeAll
      (([segment].filter isLoad).map (segmentWrite content image.loadBias)) := by
  by_cases hload : segment.type = ptLoad
  · have hwrite : s.memory.writeAll
        (([segment].filter isLoad).map (segmentWrite content image.loadBias)) =
        s.memory.write (image.loadBias + segment.vaddr)
          ((content.drop segment.offset.toNat).take segment.filesz.toNat) := by
      simp [isLoad, hload, segmentWrite]
    have hle' := hle (by simpa [isLoad] using hload)
    rw [hwrite]
    unfold prepareSegment at h
    split at h
    · obtain ⟨stop, u, hstop, hprotect⟩ := Command.run_bind_eq_ok.mp h
      obtain ⟨-, rfl⟩ := Command.run_lift_eq_ok.mp hstop
      obtain ⟨_, v, hv, hcopy⟩ := Command.run_bind_eq_ok.mp hprotect
      rw [← mprotect_memory hv]
      split at hcopy
      · cases hcopy
        rfl
      · rename_i hzero
        cases hcopy
        rw [not_not.mp hzero]
        rfl
    · -- an empty segment has nothing to copy
      rename_i hempty
      have hmemsz : segment.memsz = 0 := by simpa [hload] using hempty
      rw [hmemsz] at hle'
      cases h
      rw [Nat.le_zero.mp hle']
      rfl
  · unfold prepareSegment at h
    rw [if_neg fun hboth => hload hboth.1] at h
    cases h
    simp [isLoad, hload]

theorem prepareSegments_memory {host : Host} {path : CString} {content : List UInt8}
    {image : Elf32Image} (segments : List (Elf32Phdr × Nat)) {s t : State}
    (hle : ∀ p ∈ segments, isLoad p.1 → p.1.filesz.toNat ≤ p.1.memsz.toNat)
    (h : (forM segments fun (segment, index) =>
      prepareSegment host path content image index segment).run s = .ok () t) :
    t.memory = s.memory.writeAll
      (((segments.map Prod.fst).filter isLoad).map (segmentWrite content image.loadBias)) := by
  induction segments generalizing s with
  | nil =>
    cases h
    rfl
  | cons p segments ih =>
    obtain ⟨_, u, hu, hrest⟩ := Command.run_bind_eq_ok.mp h
    have hfirst := prepareSegment_memory (hle p (List.mem_cons_self ..)) hu
    have hothers := ih (fun q hq => hle q (List.mem_cons_of_mem _ hq)) hrest
    rw [hothers, hfirst, ← Memory.writeAll_append, ← List.map_append, ← List.filter_append]
    rfl

/-! ## Disjoint segments -/

/-- The addresses of a segment, before it is moved by the load bias. -/
def Elf32Phdr.addresses (segment : Elf32Phdr) : Set UInt32 :=
  span segment.vaddr segment.memsz.toNat

def Elf32Phdr.Apart (a b : Elf32Phdr) : Prop := Disjoint a.addresses b.addresses

instance : Std.Symm Elf32Phdr.Apart where
  symm _ _ h := Disjoint.symm h

theorem segmentWrite_length {content : List UInt8} {loadBias : UInt32} {segment : Elf32Phdr}
    (h : segment.offset.toNat + segment.filesz.toNat ≤ content.length) :
    (segmentWrite content loadBias segment).bytes.length = segment.filesz.toNat := by
  simp only [segmentWrite, List.length_take, List.length_drop]
  omega

section Loads

variable {content : List UInt8} {loadBias : UInt32} {loads : List Elf32Phdr}
  (hdisjoint : loads.Pairwise Elf32Phdr.Apart)
  (hfile : ∀ a ∈ loads, a.offset.toNat + a.filesz.toNat ≤ content.length)
  (hle : ∀ a ∈ loads, a.filesz.toNat ≤ a.memsz.toNat)

include hdisjoint hfile hle

theorem segmentWrites_disjoint :
    (loads.map (segmentWrite content loadBias)).Pairwise fun w v =>
      Disjoint w.target v.target := by
  refine List.pairwise_map.mpr (hdisjoint.imp_of_mem fun {a b} ha hb hab => ?_)
  have htarget : ∀ c ∈ loads, (segmentWrite content loadBias c).target ⊆
      span (loadBias + c.vaddr) c.memsz.toNat := by
    intro c hc
    rw [Memory.Write.target, segmentWrite_length (hfile c hc)]
    exact span_mono (hle c hc)
  exact (disjoint_span_add loadBias hab).mono (htarget a ha) (htarget b hb)

theorem writeAll_segments_file {m : Memory} {segment : Elf32Phdr} (hsegment : segment ∈ loads)
    {k : Nat} (hk : k < segment.filesz.toNat) :
    content[segment.offset.toNat + k]? =
      some (m.writeAll (loads.map (segmentWrite content loadBias))
        (loadBias + segment.vaddr + .ofNat k)) := by
  have hlength : (segmentWrite content loadBias segment).bytes.length = segment.filesz.toNat :=
    segmentWrite_length (hfile segment hsegment)
  have hbound := hfile segment hsegment
  have hlt := segment.filesz.toNat_lt
  have hbyte := Memory.writeAll_add (m := m) (segmentWrites_disjoint hdisjoint hfile hle)
    (List.mem_map_of_mem hsegment) (hlength ▸ hk) (by omega)
  rw [show loadBias + segment.vaddr = (segmentWrite content loadBias segment).start from rfl,
    hbyte, List.getElem?_eq_getElem (by omega)]
  simp [segmentWrite]

theorem writeAll_segments_rest {m : Memory} {segment : Elf32Phdr} (hsegment : segment ∈ loads)
    {k : Nat} (hrest : segment.filesz.toNat ≤ k) (hk : k < segment.memsz.toNat) :
    m.writeAll (loads.map (segmentWrite content loadBias)) (loadBias + segment.vaddr + .ofNat k) =
      m (loadBias + segment.vaddr + .ofNat k) := by
  refine Memory.writeAll_of_notMem fun w hw hmem => ?_
  obtain ⟨other, hother, rfl⟩ := List.mem_map.mp hw
  rw [Memory.Write.target, segmentWrite_length (hfile other hother)] at hmem
  by_cases hsame : other = segment
  · subst hsame
    have hlt := other.memsz.toNat_lt
    have hin : (other.vaddr + loadBias + UInt32.ofNat k - (other.vaddr + loadBias)).toNat = k :=
      add_ofNat_sub_toNat _ (by omega)
    rw [UInt32.add_comm other.vaddr] at hin
    exact absurd (hin ▸ hmem) (Nat.not_lt.mpr hrest)
  · have hapart := hdisjoint.forall hother hsegment hsame
    exact Set.disjoint_left.mp (disjoint_span_add loadBias hapart)
      (span_mono (hle other hother) hmem) (add_mem_span hk)

end Loads

/-! ## The mapped image -/

/-- A successful mapping has copied the segments into a zero-filled reservation. -/
theorem mapFile_eq_ok {host : Host} {path : CString} {s t : State}
    (h : (mapFile host path).run s = .ok () t) :
    ∃ plan mapping, Reserved host path plan mapping s t ∧
      t.memory = (s.memory.zeroFill mapping plan.size.toNat).writeAll
        ((plan.headers.filter isLoad).map
          (segmentWrite plan.content (mapping - plan.extent.minimum))) := by
  obtain ⟨plan, u, hlift, hreserve⟩ := Command.run_bind_eq_ok.mp h
  obtain ⟨hplan, rfl⟩ := Command.run_lift_eq_ok.mp hlift
  have hvalid := readPlan_eq_ok hplan
  obtain ⟨image, v, hv, hprepare⟩ := Command.run_bind_eq_ok.mp hreserve
  obtain ⟨_, w, hw, hcomplete⟩ := Command.run_bind_eq_ok.mp hprepare
  cases hmapping : host.reserve plan.size with
  | error errno =>
    rw [reserveImage_error hmapping] at hv
    cases hv
  | ok mapping =>
    rw [reserveImage_run hmapping] at hv
    cases hv
    have hmemory := prepareSegments_memory plan.headers.zipIdx
      (fun p hp hload => by
        obtain ⟨stop, haccepted, -⟩ := hvalid.covers p.1 (List.fst_mem_of_mem_zipIdx hp)
          (by simpa [isLoad] using hload)
        exact haccepted.filesz_le) hw
    have hkeeps := (completeImage_keeps host plan.header (P := fun _ => True)
      fun _ _ _ _ => trivial).of_ok hcomplete
    have hreserved := mapFile_final host path u
    rw [h] at hreserved
    refine ⟨plan, mapping, ?_, ?_⟩
    · rcases hreserved with ⟨failure, herror⟩ | ⟨plan', mapping', hreserved⟩
      · cases herror
      · have hsame : plan' = plan := Except.ok.inj (hreserved.plan_eq.symm.trans hplan)
        subst hsame
        have hsame' := hreserved.reserve_eq.symm.trans hmapping
        exact Except.ok.inj hsame' ▸ hreserved
    · have hkept : t.memory = w.memory := congrArg Prod.fst hkeeps.2
      rw [hkept, hmemory, List.zipIdx_map_fst]
      rfl

/-- The bytes of a file, none if it cannot be opened. -/
def Host.content (host : Host) (path : CString) : List UInt8 :=
  (host.openFile path).toOption.getD []

/-- The program headers that the file's own header announces. -/
def programHeadersOf (content : List UInt8) : List Elf32Phdr :=
  fileProgramHeaders content (Elf32Ehdr.ofBytes content)

/-- No two `PT_LOAD` segments of the file have an address in common. -/
def SegmentsApart (content : List UInt8) : Prop :=
  ((programHeadersOf content).filter isLoad).Pairwise Elf32Phdr.Apart

/-- The image holds each `PT_LOAD` segment of the file. -/
def HoldsSegments (content : List UInt8) (s : State) : Prop :=
  ∀ segment ∈ programHeadersOf content, segment.type = ptLoad → ∀ k < segment.memsz.toNat,
    if k < segment.filesz.toNat then
      content[segment.offset.toNat + k]? =
        some (s.memory (s.image.loadBias + segment.vaddr + .ofNat k))
    else s.memory (s.image.loadBias + segment.vaddr + .ofNat k) = 0

theorem content_of_valid {host : Host} {path : CString} {plan : LoadPlan}
    (h : plan.Valid host path) : host.content path = plan.content := by
  rw [Host.content, h.content]
  rfl

/-- A segment's addresses are in the reservation. -/
theorem segment_mem_reservation {host : Host} {path : CString} {plan : LoadPlan}
    {mapping : UInt32} {segment : Elf32Phdr} (hplan : plan.Valid host path)
    (hcovers : plan.extent.Covers plan.content.length host.pageSize.toUInt32 segment) {k : Nat}
    (hk : k < segment.memsz.toNat) :
    mapping - plan.extent.minimum + segment.vaddr + .ofNat k ∈ span mapping plan.size.toNat := by
  obtain ⟨stop, haccepted, hmin, hmax⟩ := hcovers
  have hdown := alignDown_le hplan.page segment.vaddr
  have hstop := haccepted.le_stop
  have hsize := hplan.size_toNat
  have hsub : (segment.vaddr - plan.extent.minimum).toNat =
      segment.vaddr.toNat - plan.extent.minimum.toNat :=
    UInt32.toNat_sub_of_le _ _ (UInt32.le_iff_toNat_le.mpr (hmin.trans hdown))
  have hoffset : mapping - plan.extent.minimum + segment.vaddr =
      mapping + .ofNat (segment.vaddr.toNat - plan.extent.minimum.toNat) := by
    rw [← hsub, UInt32.ofNat_toNat]
    grind
  rw [hoffset]
  exact span_offset_subset (by omega) plan.size.toNat_lt.le (add_mem_span hk)

theorem mapFile_holdsSegments {host : Host} {path : CString} {s t : State}
    (h : (mapFile host path).run s = .ok () t) (hapart : SegmentsApart (host.content path)) :
    HoldsSegments (host.content path) t := by
  obtain ⟨plan, mapping, hreserved, hmemory⟩ := mapFile_eq_ok h
  have hplan := readPlan_eq_ok hreserved.plan_eq
  have hheaders : plan.headers = programHeadersOf plan.content := hplan.headers
  have hbias : t.image.loadBias = mapping - plan.extent.minimum :=
    congrArg (·.2.2) hreserved.placement_eq
  have hcovers : ∀ a ∈ plan.headers.filter isLoad,
      plan.extent.Covers plan.content.length host.pageSize.toUInt32 a := by
    intro a ha
    obtain ⟨hmem, hload⟩ := List.mem_filter.mp ha
    exact hplan.covers a hmem (by simpa [isLoad] using hload)
  have hfile : ∀ a ∈ plan.headers.filter isLoad,
      a.offset.toNat + a.filesz.toNat ≤ plan.content.length := by
    intro a ha
    obtain ⟨stop, haccepted, -⟩ := hcovers a ha
    exact haccepted.in_file
  have hle : ∀ a ∈ plan.headers.filter isLoad, a.filesz.toNat ≤ a.memsz.toNat := by
    intro a ha
    obtain ⟨stop, haccepted, -⟩ := hcovers a ha
    exact haccepted.filesz_le
  rw [content_of_valid hplan] at hapart ⊢
  unfold SegmentsApart at hapart
  rw [← hheaders] at hapart
  intro segment hmem htype k hk
  have hload : segment ∈ plan.headers.filter isLoad :=
    List.mem_filter.mpr ⟨hheaders ▸ hmem, by simpa [isLoad] using htype⟩
  rw [hmemory, hbias]
  split
  · rename_i hcopied
    exact writeAll_segments_file hapart hfile hle hload hcopied
  · rename_i hrest
    rw [writeAll_segments_rest hapart hfile hle hload (Nat.le_of_not_lt hrest) hk]
    exact Memory.zeroFill_of_mem (segment_mem_reservation hplan (hcovers _ hload) hk)

theorem elf32Map_run (host : Host) (path : CString) (s : State) :
    (elf32Map host path).run s =
      match (mapFile host path).run (s.fresh path) with
      | .ok () t => .ok () t
      | .error failure t => .error failure t.unmap := by
  simp only [elf32Map, EStateM.run_bind, EStateM.run_modify, Command.run_capture]
  cases (mapFile host path).run (s.fresh path) <;> rfl

/-- A mapping that returned 0: everything since the reservation has stayed inside it, and
segments that do not overlap are in it. -/
def Mapped (content : List UInt8) (s t : State) : Prop :=
  ∃ made, t.calls = s.calls ++ .reserve t.image.mapping t.image.mappingSize :: made ∧
    (∀ c ∈ made, c.Inside content.length t.image.mapping t.image.mappingSize) ∧
    (SegmentsApart content → HoldsSegments content t)

/-- A mapping that failed: the image is cleared, and a reservation was made and has been
released, or none was made. -/
def Abandoned (content : List UInt8) (s t : State) : Prop :=
  t.image = .zero ∧ (t.calls = s.calls ∨ ∃ mapping size made,
    t.calls = s.calls ++ .reserve mapping size :: made ++ [.munmap mapping size] ∧
    ∀ c ∈ made, c.Inside content.length mapping size)

theorem Reserved.unmap {host : Host} {path : CString} {plan : LoadPlan} {mapping : UInt32}
    {s t : State} (h : Reserved host path plan mapping s t) :
    Abandoned plan.content s t.unmap := by
  obtain ⟨hread, hreserve, hplacement, made, hmade, hinside⟩ := h
  have hplan := readPlan_eq_ok hread
  have hmapping : t.image.mapping = mapping := congrArg (·.1) hplacement
  have hsize : t.image.mappingSize = plan.size := congrArg (·.2.1) hplacement
  have hpos : plan.size ≠ 0 := by
    intro hzero
    have htoNat := hplan.size_toNat
    have hlt := hplan.nonempty
    rw [hzero] at htoNat
    change 0 = _ at htoNat
    omega
  have hreleased : t.unmap = { t.log (.munmap mapping plan.size) with image := .zero } := by
    unfold State.unmap
    rw [hmapping, hsize, if_pos ⟨host.reserve_ne_zero hreserve, hpos⟩]
  rw [hreleased]
  exact ⟨rfl, .inr ⟨mapping, plan.size, made, by rw [← hmade]; rfl, hinside⟩⟩

/-- `elf32_map` stays inside its reservation, builds the load image, and cleans up when it
fails. The sums that it forms for a segment it accepts do not wrap. -/
theorem elf32Map_builds (host : Host) (path : CString) (s : State) :
    (∀ segment stop, validPageSize host.pageSize →
      segmentEnd (host.content path).length host.pageSize.toUInt32 segment = some stop →
      Accepted (host.content path).length host.pageSize.toUInt32 segment stop) ∧
    match (elf32Map host path).run s with
    | .ok () t => Mapped (host.content path) s t
    | .error _ t => Abandoned (host.content path) s t := by
  refine ⟨fun segment stop hpage hstop =>
    segmentEnd_eq_some (isPowerOfTwo_of_validPageSize hpage) hstop, ?_⟩
  rw [elf32Map_run]
  have hfinal := mapFile_final host path (s.fresh path)
  cases hrun : (mapFile host path).run (s.fresh path) with
  | ok _ t =>
    rw [hrun] at hfinal
    rcases hfinal with ⟨failure, herror⟩ | ⟨plan, mapping, hreserved⟩
    · cases herror
    · have hplan := readPlan_eq_ok hreserved.plan_eq
      obtain ⟨made, hmade, hinside⟩ := hreserved.inside
      have hmapping : t.image.mapping = mapping := congrArg (·.1) hreserved.placement_eq
      have hsize : t.image.mappingSize = plan.size := congrArg (·.2.1) hreserved.placement_eq
      refine ⟨made, ?_, ?_, mapFile_holdsSegments hrun⟩
      · rw [hmapping, hsize]
        exact hmade
      · rw [hmapping, hsize, content_of_valid hplan]
        exact hinside
  | error failure t =>
    rw [hrun] at hfinal
    rcases hfinal with ⟨failure', herror⟩ | ⟨plan, mapping, hreserved⟩
    · cases herror
      exact ⟨rfl, .inl rfl⟩
    · rw [content_of_valid (readPlan_eq_ok hreserved.plan_eq)]
      exact hreserved.unmap

/-! ## A sample file

One segment with a dynamic table, two symbols, three relocations and their words: `lib`
needs `f`. -/

def sampleFile : List UInt8 :=
  [0x7f, 0x45, 0x4c, 0x46, 1, 1, 1, 0, 0, 0, 0, 0, 0, 0, 0, 0] ++
    [etDyn, emArm].flatMap le16 ++ [1, 0, 52, 0, 0].flatMap le32 ++
    [52, 32, 2, 0, 0, 0].flatMap le16 ++
    [ptLoad, 0, 0, 0, 296, 320, 7, 4096].flatMap le32 ++
    [ptDynamic, 116, 116, 116, 96, 96, 4, 4].flatMap le32 ++
    [dtStrtab, 276, dtStrsz, 7, dtSoname, 1, dtSymtab, 212, dtSyment, 16, dtHash, 244,
      dtRel, 252, dtRelsz, 16, dtRelent, 8, dtJmprel, 268, dtPltrelsz, 8, dtNull, 0].flatMap
      le32 ++
    [0, 0, 0, 0, 5, 0, 0, 0x12].flatMap le32 ++ [1, 2].flatMap le32 ++
    [284, rArmRelative, 288, 0x100 ||| rArmAbs32].flatMap le32 ++
    [292, 0x100 ||| rArmJumpSlot].flatMap le32 ++ [0, 0x6c, 0x69, 0x62, 0, 0x66, 0, 0] ++
    [0x10, 4, 0].flatMap le32

def sampleHost : Host where
  openFile _ := .ok sampleFile
  fstat := true
  mapInput := true
  strerror := []
  pageSize := 4096
  reserve size := if size ≤ 0x10000 then .ok 0x40000000 else .error []
  mprotect _ := .ok ()
  reserve_ne_zero := by
    intro size address h
    split at h <;> cases h
    decide
  reserve_aligned := by
    intro size address h
    split at h <;> cases h
    decide
  reserve_fits := by
    intro size address h
    split at h <;> cases h
    have hle : size.toNat ≤ 65536 := UInt32.le_iff_toNat_le.mp ‹_›
    have haddress : (0x40000000 : UInt32).toNat = 1073741824 := rfl
    omega

def State.start : State := ⟨fun _ => 0, [], .zero, {}, none⟩

/-- The state with the sample file mapped. -/
def sampleMapped : State := Command.final ((elf32Map sampleHost (cstr "lib")).run .start)

theorem sampleMapped_run : (elf32Map sampleHost (cstr "lib")).run .start = .ok () sampleMapped :=
  Command.eq_ok_of_succeeded (by decide +kernel)

example : sampleMapped.image.dynamicCount = 12 := by decide +kernel

end NfsmwRuntime.Loader
