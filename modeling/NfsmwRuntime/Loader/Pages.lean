import NfsmwRuntime.Loader.MappedHeaders

/-!
# Page protections

Which pages of an image may be accessed follows from the calls that were made: a fresh
reservation has no access, and a change of protections sets its pages. The loader checks an
address against the whole reservation, but changes the pages of the segments only, so a page
between two segments stays without access.

From the preparation loop on, in the mapping and in every later relocation, the pages of the
segments can be read and the other pages of the reservation cannot be accessed.
-/

namespace NfsmwRuntime.Loader

open Library

/-! ## The protection of an address -/

def protRead : UInt32 := 1
def protWrite : UInt32 := 2

/-- What a call makes of the protection of an address. -/
def Call.protect (x : UInt32) (bits : UInt32) : Call → UInt32
  | .reserve start length => if x ∈ span start length.toNat then 0 else bits
  | .mprotect _ start length protection true =>
    if x ∈ span start length.toNat then protection else bits
  | .munmap start length => if x ∈ span start length.toNat then 0 else bits
  | _ => bits

/-- The protection of an address after some calls. -/
def protectionAt (calls : List Call) (x : UInt32) : UInt32 := calls.foldl (Call.protect x) 0

@[simp] theorem protectionAt_append_singleton (calls : List Call) (c : Call) (x : UInt32) :
    protectionAt (calls ++ [c]) x = c.protect x (protectionAt calls x) := by
  rw [protectionAt, List.foldl_append]
  rfl

/-- The pages of a segment in the image. -/
def Elf32Phdr.pages (image : Elf32Image) (segment : Elf32Phdr) : Set UInt32 :=
  Library.pages image.pageSize (image.loadBias + segment.vaddr) segment.memsz.toNat

/-- The pages of the `PT_LOAD` segments in a list. -/
def loadPages (image : Elf32Image) (headers : List Elf32Phdr) : Set UInt32 :=
  {x | ∃ segment ∈ headers, segment.type = ptLoad ∧ x ∈ segment.pages image}

/-- Between two states the pages of some segments get a protection with `R`, and no other
protection is changed. -/
def Protects (R : UInt32 → Prop) (image : Elf32Image) (headers : List Elf32Phdr) (s t : State) :
    Prop :=
  ∀ x, (x ∈ loadPages image headers → R (protectionAt t.calls x)) ∧
    (x ∉ loadPages image headers → protectionAt t.calls x = protectionAt s.calls x)

section Loops

variable {R : UInt32 → Prop} {image : Elf32Image}

theorem mem_loadPages_cons {segment : Elf32Phdr} {headers : List Elf32Phdr} {x : UInt32} :
    x ∈ loadPages image (segment :: headers) ↔
      x ∈ loadPages image [segment] ∨ x ∈ loadPages image headers := by
  simp [loadPages]

theorem Protects.refl (s : State) : Protects R image [] s s := by
  refine fun x => ⟨?_, fun _ => rfl⟩
  rintro ⟨_, hmem, -⟩
  exact absurd hmem List.not_mem_nil

theorem Protects.cons {segment : Elf32Phdr} {headers : List Elf32Phdr} {s t u : State}
    (hfirst : Protects R image [segment] s t) (hrest : Protects R image headers t u) :
    Protects R image (segment :: headers) s u := by
  refine fun x => ⟨fun hx => ?_, fun hx => ?_⟩
  · by_cases hlater : x ∈ loadPages image headers
    · exact (hrest x).1 hlater
    · rw [(hrest x).2 hlater]
      exact (hfirst x).1 ((mem_loadPages_cons.mp hx).resolve_right hlater)
  · rw [mem_loadPages_cons, not_or] at hx
    exact ((hrest x).2 hx.2).trans ((hfirst x).2 hx.1)

/-- A loop over segments whose turns protect their segment. -/
theorem protects_forM {α : Type} {body : α → LoaderM Unit} (segment : α → Elf32Phdr)
    {l : List α}
    (hbody : ∀ a ∈ l, ∀ s t, (body a).run s = .ok () t → Protects R image [segment a] s t)
    {s t : State} (h : (forM l body).run s = .ok () t) :
    Protects R image (l.map segment) s t := by
  induction l generalizing s with
  | nil =>
    cases h
    exact .refl _
  | cons a l ih =>
    obtain ⟨hfirst, hrest⟩ := List.forall_mem_cons.mp hbody
    obtain ⟨_, u, hu, ht⟩ := Command.run_bind_eq_ok.mp h
    exact (hfirst s u hu).cons (ih hrest ht)

end Loops

section Segments

variable {host : Host} {path : CString} {plan : LoadPlan} {mapping : UInt32}
  {image : Elf32Image} {R : UInt32 → Prop} {segment : Elf32Phdr} {s t : State}

theorem LoadPlan.placed_image (hplan : plan.Valid host path)
    (hreserve : host.reserve plan.size = .ok mapping) :
    Placed host path plan mapping (plan.image host path mapping) :=
  ⟨hplan, hreserve, rfl, rfl, rfl, rfl⟩

theorem mprotect_eq_ok {phase : Phase} {start length bits : UInt32} {failure : CString → Failure}
    (h : (mprotect host phase start length bits failure).run s = .ok () t) :
    t = s.log (.mprotect phase start length bits true) := by
  simp only [mprotect, EStateM.run] at h
  split at h
  · cases h
    rfl
  · cases h

theorem mem_loadPages_singleton {x : UInt32} :
    x ∈ loadPages image [segment] ↔ segment.type = ptLoad ∧ x ∈ segment.pages image := by
  simp [loadPages]

theorem Elf32Phdr.pages_empty (h : segment.memsz = 0) : segment.pages image = ∅ := by
  ext x
  simp [Elf32Phdr.pages, Library.pages, h, span]

theorem protects_of_skipped (hskip : segment.type ≠ ptLoad ∨ segment.memsz = 0)
    (hcalls : t.calls = s.calls) : Protects R image [segment] s t := by
  refine fun x => ⟨fun hx => ?_, fun _ => by rw [hcalls]⟩
  obtain ⟨htype, hpage⟩ := mem_loadPages_singleton.mp hx
  rw [Elf32Phdr.pages_empty (hskip.resolve_left (not_not.mpr htype))] at hpage
  cases hpage

section Placed

variable (hm : Placed host path plan mapping image)

include hm

/-- The range whose protection is changed for a segment is the segment's pages. -/
theorem Placed.span_pages (hsegment : segment ∈ plan.headers)
    (htype : segment.type = ptLoad) (hmemsz : segment.memsz ≠ 0) {stop : UInt32}
    (hstop : alignUp (image.loadBias + segment.vaddr + segment.memsz) image.pageSize =
      some stop) :
    span (alignDown (image.loadBias + segment.vaddr) image.pageSize)
      (stop - alignDown (image.loadBias + segment.vaddr) image.pageSize).toNat =
      segment.pages image := by
  have hplan := hm.plan_valid
  obtain ⟨last, haccepted, hmin, hmax⟩ := hplan.covers segment hsegment htype
  have hfits := host.reserve_fits hm.reserve_eq
  have hsize := hplan.size_toNat
  have hdown := alignDown_le hplan.page segment.vaddr
  have hlast := haccepted.le_stop
  have hclose := haccepted.stop_lt
  have hpos : 0 < segment.memsz.toNat :=
    Nat.pos_of_ne_zero fun hzero => hmemsz (UInt32.toNat_inj.mp hzero)
  have hend : host.pageSize.toUInt32.toNat ∣
      mapping.toNat + (last.toNat - plan.extent.minimum.toNat) :=
    Nat.dvd_add (host.reserve_aligned hm.reserve_eq) (Nat.dvd_sub haccepted.aligned hplan.aligned)
  rw [Elf32Phdr.pages]
  rw [hm.page_eq, hm.bias_eq] at hstop ⊢
  have haddress : (mapping - plan.extent.minimum + segment.vaddr).toNat =
      mapping.toNat + (segment.vaddr.toNat - plan.extent.minimum.toNat) :=
    loadBias_add_toNat (by omega) (by omega)
  obtain ⟨hstart, hlength⟩ :=
    mapped_pages_toNat hplan hm.reserve_eq haccepted hmin hmax hmemsz hstop
  change (mapping - plan.extent.minimum + _).toNat = _ at hstart
  change (stop - (mapping - plan.extent.minimum + _)).toNat = _ at hlength
  rw [← alignDown_add hplan.page (hm.bias_eq ▸ hm.dvd_bias)] at hstart hlength
  refine span_eq_pages hplan.page hpos ?_ ?_ ?_ ?_ <;> rw [hstart, hlength]
  · omega
  · convert hend using 1
    omega
  · omega
  · omega

/-- A call that sets the protection of a segment's pages, and nothing else. -/
theorem Placed.protects_of_call (hsegment : segment ∈ plan.headers)
    (htype : segment.type = ptLoad) (hmemsz : segment.memsz ≠ 0) {stop : UInt32}
    (hstop : alignUp (image.loadBias + segment.vaddr + segment.memsz) image.pageSize =
      some stop) {phase : Phase} {bits : UInt32} (hR : R bits)
    (hcalls : t.calls = s.calls ++ [.mprotect phase
      (alignDown (image.loadBias + segment.vaddr) image.pageSize)
      (stop - alignDown (image.loadBias + segment.vaddr) image.pageSize) bits true]) :
    Protects R image [segment] s t := by
  have hpages := hm.span_pages hsegment htype hmemsz hstop
  intro x
  rw [hcalls, protectionAt_append_singleton, Call.protect, mem_loadPages_singleton]
  refine ⟨fun hx => ?_, fun hx => ?_⟩
  · rwa [if_pos (hpages ▸ hx.2)]
  · exact if_neg fun hpage => hx ⟨htype, hpages ▸ hpage⟩

theorem Placed.changeSegment_protects (hsegment : segment ∈ plan.headers) {phase : Phase}
    {overflow : Failure} {failure : CString → Failure} {bits : Elf32Phdr → UInt32}
    (hR : segment.type = ptLoad → R (bits segment))
    (h : (changeSegment host phase overflow failure bits image segment).run s = .ok () t) :
    Protects R image [segment] s t := by
  unfold changeSegment at h
  split at h
  · rename_i hskip
    cases h
    exact protects_of_skipped hskip rfl
  · rename_i hload
    rw [not_or, not_not] at hload
    obtain ⟨stop, u, hlift, hprotect⟩ := Command.run_bind_eq_ok.mp h
    obtain ⟨hstop, rfl⟩ := Command.run_lift_eq_ok.mp hlift
    rw [mprotect_eq_ok hprotect]
    exact hm.protects_of_call hsegment hload.1 hload.2 (require_eq_ok.mp hstop) (hR hload.1) rfl

/-- A copy changes no protection. -/
theorem Placed.prepareSegment_protects (hsegment : segment ∈ plan.headers) {index : Nat}
    (h : (prepareSegment host path plan.content image index segment).run s = .ok () t) :
    Protects (· = protReadWrite) image [segment] s t := by
  unfold prepareSegment at h
  split at h
  · rename_i hload
    obtain ⟨stop, u, hlift, h₁⟩ := Command.run_bind_eq_ok.mp h
    obtain ⟨hstop, rfl⟩ := Command.run_lift_eq_ok.mp hlift
    obtain ⟨_, v, hprotect, hcopy⟩ := Command.run_bind_eq_ok.mp h₁
    have hstart : image.loadBias + alignDown segment.vaddr image.pageSize =
        alignDown (image.loadBias + segment.vaddr) image.pageSize := by
      have hbias := hm.dvd_bias
      rw [← hm.page_eq] at hbias
      exact (alignDown_add (hm.page_eq ▸ hm.plan_valid.page) hbias _).symm
    have hchanged : Protects (· = protReadWrite) image [segment] u v := by
      rw [mprotect_eq_ok hprotect, hstart]
      exact hm.protects_of_call hsegment hload.1 hload.2 (require_eq_ok.mp hstop) rfl rfl
    split at hcopy
    · cases hcopy
      refine fun x => ⟨fun hx => ?_, fun hx => ?_⟩
      · exact (protectionAt_append_singleton _ _ x).trans ((hchanged x).1 hx)
      · exact (protectionAt_append_singleton _ _ x).trans ((hchanged x).2 hx)
    · cases hcopy
      exact hchanged
  · rename_i hskip
    cases h
    exact protects_of_skipped (not_and_or.mp hskip |>.imp id not_not.mp) rfl

end Placed

end Segments

/-! ## Backed pages -/

/-- In the reservation the pages of the segments have a protection with `R`, and the other
pages have none. -/
structure Backing (R : UInt32 → Prop) (image : Elf32Image) (headers : List Elf32Phdr)
    (calls : List Call) : Prop where
  pages : ∀ x ∈ span image.mapping image.mappingSize.toNat, x ∈ loadPages image headers →
    R (protectionAt calls x)
  gaps : ∀ x ∈ span image.mapping image.mappingSize.toNat, x ∉ loadPages image headers →
    protectionAt calls x = 0

def Readable (bits : UInt32) : Prop := bits &&& protRead ≠ 0

instance (bits : UInt32) : Decidable (Readable bits) := inferInstanceAs (Decidable (_ ≠ _))

section Backing

variable {R : UInt32 → Prop} {image other : Elf32Image} {headers : List Elf32Phdr}
  {s t : State}

/-- What the pages of an image depend on. -/
def Elf32Image.layout (image : Elf32Image) : UInt32 × UInt32 × UInt32 × UInt32 :=
  (image.mapping, image.mappingSize, image.loadBias, image.pageSize)

theorem loadPages_congr (h : other.layout = image.layout) :
    loadPages other headers = loadPages image headers := by
  simp only [Elf32Image.layout, Prod.mk.injEq] at h
  simp only [loadPages, Elf32Phdr.pages, h]

theorem reservation_congr (h : other.layout = image.layout) :
    span other.mapping other.mappingSize.toNat = span image.mapping image.mappingSize.toNat := by
  simp only [Elf32Image.layout, Prod.mk.injEq] at h
  rw [h.1, h.2.1]

theorem Backing.congr {calls : List Call} (hlayout : other.layout = image.layout)
    (h : Backing R image headers calls) : Backing R other headers calls := by
  refine ⟨fun x hx hpage => ?_, fun x hx hgap => ?_⟩
  · rw [reservation_congr hlayout] at hx
    exact h.pages x hx (loadPages_congr hlayout ▸ hpage)
  · rw [reservation_congr hlayout] at hx
    exact h.gaps x hx (loadPages_congr hlayout ▸ hgap)

theorem Backing.protects {Q : UInt32 → Prop} (h : Backing Q image headers s.calls)
    (ht : Protects R image headers s t) : Backing R image headers t.calls where
  pages x _ hx := (ht x).1 hx
  gaps x hx hgap := ((ht x).2 hgap).trans (h.gaps x hx hgap)

theorem Backing.mono {Q : UInt32 → Prop} (h : Backing Q image headers s.calls)
    (hR : ∀ bits, Q bits → R bits) : Backing R image headers s.calls where
  pages x hx hpage := hR _ (h.pages x hx hpage)
  gaps := h.gaps

theorem readable_protReadWrite : Readable protReadWrite := by decide

/-- The protection of a readable segment. -/
theorem readable_protection {flags : UInt32} (h : flags &&& pfR ≠ 0) :
    Readable (protection flags) := by
  unfold protection
  rw [if_pos h]
  split <;> split <;> decide

end Backing

section Runs

variable {host : Host} {path : CString} {plan : LoadPlan} {mapping : UInt32}
  {image : Elf32Image} {s t : State}

/-- A call for a readable segment keeps the pages readable, also if it fails. -/
theorem Placed.changes_backing (hm : Placed host path plan mapping image)
    (hflags : ∀ segment ∈ plan.headers, segment.type = ptLoad → segment.flags &&& pfR ≠ 0) :
    AllChanges image plan.headers fun c => ∀ calls,
      Backing Readable image plan.headers calls →
      Backing Readable image plan.headers (calls ++ [c]) := by
  intro segment hsegment htype hmemsz stop hstop start ok
  have hpages : span start (stop - start).toNat = segment.pages image :=
    hm.span_pages hsegment htype hmemsz hstop
  have hset : ∀ phase bits, Readable bits → ∀ calls,
      Backing Readable image plan.headers calls → Backing Readable image plan.headers
        (calls ++ [.mprotect phase start (stop - start) bits ok]) := by
    intro phase bits hbits calls h
    refine ⟨fun x hx hpage => ?_, fun x hx hgap => ?_⟩
    · rw [protectionAt_append_singleton]
      cases ok with
      | false => exact h.pages x hx hpage
      | true =>
        change Readable (if x ∈ span start (stop - start).toNat then bits else _)
        split
        · exact hbits
        · exact h.pages x hx hpage
    · rw [protectionAt_append_singleton]
      cases ok with
      | false => exact h.gaps x hx hgap
      | true =>
        have hother : x ∉ span start (stop - start).toNat := fun hmem =>
          hgap ⟨segment, hsegment, htype, hpages ▸ hmem⟩
        exact (if_neg hother).trans (h.gaps x hx hgap)
  exact ⟨hset _ _ readable_protReadWrite, hset _ _ (readable_protection (hflags _ hsegment htype))⟩

theorem Keeps.backing {β : Type} {f : State → β} {headers : List Elf32Phdr}
    (h : Keeps (fun c => ∀ calls, Backing Readable image headers calls →
      Backing Readable image headers (calls ++ [c])) f s t)
    (hs : Backing Readable image headers s.calls) : Backing Readable image headers t.calls := by
  obtain ⟨⟨made, hmade, hall⟩, -⟩ := h
  rw [hmade]
  clear hmade
  generalize s.calls = calls at hs ⊢
  induction made generalizing calls with
  | nil => rwa [List.append_nil]
  | cons c made ih =>
    obtain ⟨hfirst, hrest⟩ := List.forall_mem_cons.mp hall
    rw [List.append_cons]
    exact ih hrest _ (hfirst calls hs)

end Runs

/-! ## Mapping -/

section Mapping

variable {host : Host} {path : CString} {s t : State}

theorem mapHeaders_eq_ok (h : (mapHeaders host path).run s = .ok () t) :
    ∃ plan mapping, MappedFrom host path plan mapping t.image t.memory ∧
      (t.image.dynamic = 0 ∧ t.image.stringTableSize = 0) ∧
      Backing (· = protReadWrite) t.image plan.headers t.calls := by
  obtain ⟨plan, mapping, w, image, hplan, hmapping, hw, hnext, rfl⟩ := mapHeaders_steps h
  have hvalid := readPlan_eq_ok hplan
  have himage : w.image = plan.image host path mapping :=
    ((prepareSegments_keeps hvalid hmapping).of_ok hw).2
  have hplaced := LoadPlan.placed_image hvalid hmapping
  have hprotects := protects_forM Prod.fst (fun p hp _ _ hrun =>
    hplaced.prepareSegment_protects (List.fst_mem_of_mem_zipIdx hp) hrun) hw
  rw [List.zipIdx_map_fst] at hprotects
  have hm := mappedHeaders_mappedFrom hplan hmapping hw hnext
  obtain ⟨_, _, hfields⟩ := bind_eq_ok.mp hnext
  rw [himage] at hfields
  cases hfields
  refine ⟨plan, mapping, hm, ⟨rfl, rfl⟩, fun x _ hx => (hprotects x).1 hx, fun x hx hgap => ?_⟩
  refine ((hprotects x).2 hgap).trans ((protectionAt_append_singleton _ _ x).trans ?_)
  exact if_pos hx

end Mapping

end NfsmwRuntime.Loader
