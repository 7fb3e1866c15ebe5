import NfsmwRuntime.Loader.Accesses

/-!
# Restoring page protections

`elf32_relocate` makes the segments writable, applies its tables, and then gives every
segment its own protection again, also if an entry has failed. Both loops make one call for
each segment and stop at the first that fails. The first loop's failure returns at once, so
the segments before it stay writable.
-/

namespace NfsmwRuntime.Loader

open Library

/-- The segments for which the loops make a call. -/
def Elf32Phdr.loaded (segment : Elf32Phdr) : Bool := segment.type = ptLoad && segment.memsz ≠ 0

theorem Elf32Phdr.loaded_iff {segment : Elf32Phdr} :
    segment.loaded ↔ segment.type = ptLoad ∧ segment.memsz ≠ 0 := by
  simp [loaded]

/-- The segments whose call succeeds, if calls are made for them in order, with `n` calls
before, until one fails. -/
def granted (host : Host) : (n : Nat) → List Elf32Phdr → List Elf32Phdr
  | _, [] => []
  | n, segment :: segments =>
    match host.mprotect n with
    | .ok () => segment :: granted host (n + 1) segments
    | .error _ => []

section

variable {host : Host} {n : Nat}

theorem granted_cons_ok (h : host.mprotect n = .ok ()) (segment : Elf32Phdr)
    (segments : List Elf32Phdr) :
    granted host n (segment :: segments) = segment :: granted host (n + 1) segments := by
  simp [granted, h]

theorem granted_cons_error {errno : CString} (h : host.mprotect n = .error errno)
    (segment : Elf32Phdr) (segments : List Elf32Phdr) :
    granted host n (segment :: segments) = [] := by
  simp [granted, h]

theorem granted_eq_self (h : ∀ n, host.mprotect n = .ok ()) {segments : List Elf32Phdr} :
    granted host n segments = segments := by
  induction segments generalizing n with
  | nil => rfl
  | cons segment segments ih => rw [granted_cons_ok (h n), ih]

theorem granted_subset {segment : Elf32Phdr} {segments : List Elf32Phdr}
    (h : segment ∈ granted host n segments) : segment ∈ segments := by
  induction segments generalizing n with
  | nil => exact h
  | cons first segments ih =>
    cases hcall : host.mprotect n with
    | ok _ =>
      rw [granted_cons_ok hcall] at h
      exact List.mem_cons.mpr ((List.mem_cons.mp h).imp_right ih)
    | error errno =>
      rw [granted_cons_error hcall] at h
      cases h

end

/-- Between two states some segments get their protection, and no other page is changed. -/
def Grants (bits : Elf32Phdr → UInt32) (image : Elf32Image) (segments : List Elf32Phdr)
    (s t : State) : Prop :=
  ∀ x, (∃ segment ∈ segments, x ∈ segment.pages image ∧
      protectionAt t.calls x = bits segment) ∨
    ((∀ segment ∈ segments, x ∉ segment.pages image) ∧
      protectionAt t.calls x = protectionAt s.calls x)

/-- The outcome of a loop that makes a call for each of some segments: the pages of those
whose call has succeeded have changed and nothing else, and the loop fails exactly if one of
its calls does. -/
structure ChangeOutcome (host : Host) (phase : Phase) (bits : Elf32Phdr → UInt32)
    (image : Elf32Image) (segments : List Elf32Phdr) (s : State)
    (r : EStateM.Result Failure State Unit) : Prop where
  grants : Grants bits image (granted host s.calls.length segments) s (Command.final r)
  succeeded_iff : Command.succeeded r ↔ granted host s.calls.length segments = segments
  failed_call : Command.succeeded r ∨ ∃ start length b,
    .mprotect phase start length b false ∈ (Command.final r).calls.drop s.calls.length

/-- Segments that share a page have the same protection. -/
def SharedAgree (image : Elf32Image) (headers : List Elf32Phdr) : Prop :=
  ∀ a ∈ headers, ∀ b ∈ headers, a.loaded → b.loaded →
    (a.pages image ∩ b.pages image).Nonempty → protection a.flags = protection b.flags

/-- The end of every segment's pages can be computed. -/
def Stops (image : Elf32Image) (headers : List Elf32Phdr) : Prop :=
  ∀ segment ∈ headers, segment.loaded →
    (alignUp (image.loadBias + segment.vaddr + segment.memsz) image.pageSize).isSome

/-! ## One loop -/

section Loop

variable {bits : Elf32Phdr → UInt32} {image : Elf32Image} {s t u : State}

theorem Grants.of_calls_eq (h : t.calls = s.calls) : Grants bits image [] s t :=
  fun _ => .inr ⟨nofun, by rw [h]⟩

theorem Grants.cons {segment : Elf32Phdr} {segments : List Elf32Phdr}
    (hfirst : Grants bits image [segment] s t) (hrest : Grants bits image segments t u) :
    Grants bits image (segment :: segments) s u := by
  intro x
  rcases hrest x with ⟨later, hlater, hpage, hbits⟩ | ⟨hnone, hsame⟩
  · exact .inl ⟨later, List.mem_cons_of_mem _ hlater, hpage, hbits⟩
  · rcases hfirst x with ⟨first, hmem, hpage, hbits⟩ | ⟨hnot, hfirst⟩
    · obtain rfl := List.mem_singleton.mp hmem
      exact .inl ⟨first, List.mem_cons_self, hpage, hsame.trans hbits⟩
    · refine .inr ⟨List.forall_mem_cons.mpr ⟨hnot _ (List.mem_singleton_self _), hnone⟩, ?_⟩
      exact hsame.trans hfirst

variable {host : Host} {phase : Phase} {overflow : Failure} {failure : CString → Failure}
  {segment : Elf32Phdr}

/-- A call that succeeds, and the rest of the loop. -/
theorem ChangeOutcome.cons {segments : List Elf32Phdr} {call : Call}
    {r : EStateM.Result Failure State Unit} (hcall : host.mprotect s.calls.length = .ok ())
    (hfirst : Grants bits image [segment] s (s.log call))
    (hrest : ChangeOutcome host phase bits image segments (s.log call) r) :
    ChangeOutcome host phase bits image (segment :: segments) s r := by
  obtain ⟨hgrants, hiff, hfailed⟩ := hrest
  have hlength : (s.log call).calls.length = s.calls.length + 1 := List.length_append
  rw [hlength] at hgrants hiff hfailed
  have hgranted := granted_cons_ok hcall segment segments
  refine ⟨?_, ?_, hfailed.imp_right ?_⟩
  · rw [hgranted]
    exact hfirst.cons hgrants
  · rw [hgranted, List.cons_inj_right]
    exact hiff
  · rintro ⟨start, length, b, hfailed⟩
    refine ⟨start, length, b, ?_⟩
    rw [← List.drop_drop] at hfailed
    exact List.mem_of_mem_drop hfailed

/-- A call that fails ends the loop. -/
theorem ChangeOutcome.of_error {segments : List Elf32Phdr} {errno : CString} {e : Failure}
    {start length b : UInt32} (hcall : host.mprotect s.calls.length = .error errno) :
    ChangeOutcome host phase bits image (segment :: segments) s
      (.error e (s.log (.mprotect phase start length b false))) := by
  have hgranted := granted_cons_error hcall segment segments
  have hmade : .mprotect phase start length b false ∈
      (s.log (.mprotect phase start length b false)).calls.drop s.calls.length := by
    rw [State.log, List.drop_left]
    exact List.mem_singleton_self _
  refine ⟨?_, ?_, .inr ⟨_, _, _, hmade⟩⟩
  · rw [hgranted]
    exact fun x => .inr ⟨nofun, protectionAt_append_singleton _ _ _⟩
  · rw [hgranted]
    exact iff_of_false nofun nofun

theorem changeSegment_skipped (h : ¬ segment.loaded) :
    (changeSegment host phase overflow failure bits image segment).run s = .ok () s := by
  have hskip : segment.type ≠ ptLoad ∨ segment.memsz = 0 := by
    rwa [Elf32Phdr.loaded_iff, not_and_or, not_not] at h
  rw [changeSegment, if_pos hskip]
  rfl

theorem changeSegment_loaded (h : segment.loaded) {stop : UInt32}
    (hstop : alignUp (image.loadBias + segment.vaddr + segment.memsz) image.pageSize =
      some stop) :
    (changeSegment host phase overflow failure bits image segment).run s =
      (mprotect host phase (alignDown (image.loadBias + segment.vaddr) image.pageSize)
        (stop - alignDown (image.loadBias + segment.vaddr) image.pageSize) (bits segment)
        failure).run s := by
  have hload : ¬ (segment.type ≠ ptLoad ∨ segment.memsz = 0) := by
    rwa [not_or, not_not, ← ne_eq, ← Elf32Phdr.loaded_iff]
  rw [changeSegment, if_neg hload, hstop]
  rfl

theorem mprotect_run (start length b : UInt32) (s : State) :
    (mprotect host phase start length b failure).run s =
      match host.mprotect s.calls.length with
      | .ok () => .ok () (s.log (.mprotect phase start length b true))
      | .error errno =>
        .error (failure errno) (s.log (.mprotect phase start length b false)) := rfl

section Placed

variable {path : CString} {plan : LoadPlan} {mapping : UInt32}
  (hm : Placed host path plan mapping image)

include hm

theorem Placed.grants_call (hsegment : segment ∈ plan.headers) (hloaded : segment.loaded)
    {stop : UInt32}
    (hstop : alignUp (image.loadBias + segment.vaddr + segment.memsz) image.pageSize =
      some stop) :
    Grants bits image [segment] s (s.log (.mprotect phase
      (alignDown (image.loadBias + segment.vaddr) image.pageSize)
      (stop - alignDown (image.loadBias + segment.vaddr) image.pageSize) (bits segment)
      true)) := by
  obtain ⟨htype, hmemsz⟩ := Elf32Phdr.loaded_iff.mp hloaded
  have hpages := hm.span_pages hsegment htype hmemsz hstop
  intro x
  rw [State.log, protectionAt_append_singleton, Call.protect]
  by_cases hx : x ∈ segment.pages image
  · exact .inl ⟨segment, List.mem_singleton_self _, hx, if_pos (hpages ▸ hx)⟩
  · exact .inr ⟨List.forall_mem_singleton.mpr hx, if_neg (hpages ▸ hx)⟩

theorem Placed.changeSegments_outcome {headers : List Elf32Phdr}
    (hsubset : ∀ segment ∈ headers, segment ∈ plan.headers) (hstops : Stops image headers)
    (s : State) :
    ChangeOutcome host phase bits image (headers.filter Elf32Phdr.loaded) s
      ((forM headers (changeSegment host phase overflow failure bits image)).run s) := by
  induction headers generalizing s with
  | nil => exact ⟨.of_calls_eq rfl, iff_of_true rfl rfl, .inl rfl⟩
  | cons segment headers ih =>
    obtain ⟨hmem, hrest⟩ := List.forall_mem_cons.mp hsubset
    have ih := ih hrest fun a ha => hstops a (List.mem_cons_of_mem _ ha)
    rw [List.forM_cons, EStateM.run_bind]
    by_cases hloaded : segment.loaded
    · obtain ⟨stop, hstop⟩ := Option.isSome_iff_exists.mp (hstops _ List.mem_cons_self hloaded)
      rw [changeSegment_loaded hloaded hstop, mprotect_run, List.filter_cons_of_pos hloaded]
      cases hcall : host.mprotect s.calls.length with
      | ok _ => exact .cons hcall (hm.grants_call hmem hloaded hstop) (ih _)
      | error errno => exact .of_error hcall
    · rw [changeSegment_skipped hloaded, List.filter_cons_of_neg hloaded]
      exact ih s

theorem Placed.protectSegments_outcome (htable : mappedTable s.memory image = plan.headers)
    (hstops : Stops image plan.headers) :
    ChangeOutcome host .protect (fun segment => protection segment.flags) image
      (plan.headers.filter Elf32Phdr.loaded) s ((protectSegments host image).run s) := by
  rw [protectSegments, changeSegments_run, htable]
  exact hm.changeSegments_outcome (fun _ => id) hstops s

theorem Placed.setSegmentsWritable_outcome (htable : mappedTable s.memory image = plan.headers)
    (hstops : Stops image plan.headers) :
    ChangeOutcome host .writable (fun _ => protReadWrite) image
      (plan.headers.filter Elf32Phdr.loaded) s ((setSegmentsWritable host image).run s) := by
  rw [setSegmentsWritable, changeSegments_run, htable]
  exact hm.changeSegments_outcome (fun _ => id) hstops s

theorem Placed.pages_subset (hsegment : segment ∈ plan.headers) (hloaded : segment.loaded)
    {stop : UInt32}
    (hstop : alignUp (image.loadBias + segment.vaddr + segment.memsz) image.pageSize =
      some stop) : segment.pages image ⊆ span image.mapping image.mappingSize.toNat := by
  obtain ⟨htype, hmemsz⟩ := Elf32Phdr.loaded_iff.mp hloaded
  obtain ⟨hstart, hend⟩ := (hm.changes_inside segment hsegment htype hmemsz stop hstop true).2
  have hfits := host.reserve_fits hm.reserve_eq
  intro x hx
  rw [← hm.span_pages hsegment htype hmemsz hstop, mem_span_iff_toNat (by omega)] at hx
  rw [hm.mapping_eq, hm.size_eq, mem_span_iff_toNat hfits]
  omega

end Placed

/-- A loop that succeeds has computed every end. -/
theorem stops_of_ok {headers : List Elf32Phdr}
    (h : (forM headers (changeSegment host phase overflow failure bits image)).run s = .ok () t) :
    Stops image headers := by
  induction headers generalizing s with
  | nil => exact nofun
  | cons segment headers ih =>
    obtain ⟨_, u, hfirst, hrest⟩ := Command.run_bind_eq_ok.mp h
    refine List.forall_mem_cons.mpr ⟨fun hloaded => ?_, ih hrest⟩
    have hload : ¬ (segment.type ≠ ptLoad ∨ segment.memsz = 0) := by
      rwa [not_or, not_not, ← ne_eq, ← Elf32Phdr.loaded_iff]
    rw [changeSegment, if_neg hload] at hfirst
    obtain ⟨stop, _, hlift, -⟩ := Command.run_bind_eq_ok.mp hfirst
    rw [require_eq_ok.mp (Command.run_lift_eq_ok.mp hlift).1, Option.isSome_some]

/-- Every page of a segment has the segment's own protection. -/
def Guarded (image : Elf32Image) (headers : List Elf32Phdr) (calls : List Call) : Prop :=
  ∀ segment ∈ headers, segment.loaded → ∀ x ∈ segment.pages image,
    protectionAt calls x = protection segment.flags

theorem Grants.guarded {headers : List Elf32Phdr} (hshared : SharedAgree image headers)
    (h : Grants (fun segment => protection segment.flags) image (headers.filter Elf32Phdr.loaded)
      s t) : Guarded image headers t.calls := by
  intro segment hsegment hloaded x hx
  rcases h x with ⟨other, hother, hpage, hbits⟩ | ⟨hnone, -⟩
  · obtain ⟨hmem, hother⟩ := List.mem_filter.mp hother
    exact hbits.trans (hshared _ hmem _ hsegment hother hloaded ⟨x, hpage, hx⟩)
  · exact (hnone _ (List.mem_filter.mpr ⟨hsegment, hloaded⟩) hx).elim

theorem mem_pages_self (image : Elf32Image) (hloaded : segment.loaded) :
    image.loadBias + segment.vaddr ∈ segment.pages image := by
  have hmemsz := (Elf32Phdr.loaded_iff.mp hloaded).2
  refine ⟨_, ?_, rfl⟩
  rw [mem_span, UInt32.sub_self]
  exact Nat.pos_of_ne_zero fun hzero => hmemsz (UInt32.toNat_inj.mp hzero)

end Loop

/-! ## The mapping -/

section Mapping

variable {host : Host} {path : CString} {s t : State}

/-- What a mapping leaves for a relocation of the image. -/
structure Restorable (host : Host) (path : CString) (plan : LoadPlan) (mapping : UInt32)
    (image : Elf32Image) : Prop extends Placed host path plan mapping image where
  headers_fit : Elf32Phdr.size * image.programHeaderCount.toNat ≤ 2 ^ 32
  stops : Stops image plan.headers

theorem elf32Map_guarded (h : (elf32Map host path).run s = .ok () t)
    (hsame : SameHeaders (host.content path) t.image t.memory)
    (hshared : SharedAgree t.image (programHeadersOf (host.content path))) :
    ∃ plan mapping, Restorable host path plan mapping t.image ∧
      plan.headers = programHeadersOf (host.content path) ∧
      mappedTable t.memory t.image = plan.headers ∧ Guarded t.image plan.headers t.calls := by
  obtain ⟨plan, mapping, hm, -⟩ := elf32Map_mappedFrom h
  obtain ⟨u, found, image, -, -, -, hprotect⟩ := mapFile_steps (elf32Map_eq_ok h)
  have hkept := protectSegments_contents hprotect
  obtain rfl : image = t.image := (congrArg (·.2.1) hkept).symm
  have hmemory : u.memory = t.memory := (congrArg (·.1) hkept).symm
  have hheaders : plan.headers = programHeadersOf (host.content path) := by
    rw [content_of_valid hm.plan_valid]
    exact hm.plan_valid.headers
  rw [content_of_valid hm.plan_valid] at hsame
  have htable := hm.mappedTable_eq hsame
  have hbefore : mappedTable u.memory t.image = plan.headers := hmemory ▸ htable
  have hstops : Stops t.image plan.headers := by
    have hloop := hprotect
    rw [protectSegments, changeSegments_run] at hloop
    exact hbefore ▸ stops_of_ok hloop
  obtain ⟨hgrants, hiff, -⟩ := hm.toPlaced.protectSegments_outcome
    (s := { u with image := t.image }) hbefore hstops
  rw [hprotect] at hgrants hiff
  rw [hiff.mp rfl] at hgrants
  rw [← hheaders] at hshared
  exact ⟨plan, mapping, ⟨hm.toPlaced, hm.headerTable_fits, hstops⟩, hheaders, htable,
    hgrants.guarded hshared⟩

end Mapping

/-! ## The relocation -/

/-- The state after the statistics have been cleared. -/
def State.reset (s : State) : State := { s with stats := {}, firstUnresolved := none }

/-- Every call that restores a protection succeeds. -/
def RestoresSucceed (host : Host) (image : Elf32Image) (resolver : Option Resolver) (s : State) :
    Prop :=
  ∀ start length bits, Call.mprotect .protect start length bits false ∉
    (Command.final ((elf32Relocate host image resolver).run s)).calls.drop s.calls.length

/-- If a call that makes a segment writable fails, then the segments before it are readable,
writable and not executable by their own flags. -/
def FailsUnchanged (host : Host) (image : Elf32Image) (headers : List Elf32Phdr) (s : State) :
    Prop :=
  ∀ info, parseRelocationInfo s.memory image = .ok info →
    granted host s.calls.length (headers.filter Elf32Phdr.loaded) ≠
      headers.filter Elf32Phdr.loaded →
    ∀ segment ∈ granted host s.calls.length (headers.filter Elf32Phdr.loaded),
      protection segment.flags = protReadWrite

section Relocation

variable {host : Host} {image : Elf32Image} {resolver : Option Resolver} {s t : State}

theorem relocationSetup_run (host : Host) (hmapping : image.mapping ≠ 0) (s : State) :
    (relocationSetup host image).run s =
      match parseRelocationInfo s.memory image with
      | .error failure => .error failure s.reset
      | .ok info =>
        match (setSegmentsWritable host image).run s.reset with
        | .ok _ t => .ok info t
        | .error failure t => .error failure t := by
  rw [relocationSetup, check_of hmapping]
  change (Command.lift (parseRelocationInfo s.memory image) >>= fun info =>
    setSegmentsWritable host image >>= fun _ => pure info).run s.reset = _
  cases parseRelocationInfo s.memory image with
  | error failure => rfl
  | ok info =>
    rw [Command.run_lift_ok_bind, EStateM.run_bind]
    cases (setSegmentsWritable host image).run s.reset <;> rfl

theorem relocate_of_setup_error {failure : Failure}
    (h : (relocationSetup host image).run s = .error failure t) :
    Command.final ((elf32Relocate host image resolver).run s) = t := by
  rw [elf32Relocate_eq, EStateM.run_bind, h]
  rfl

/-- Behind the tables, whatever became of them, the protections are restored. -/
theorem relocate_of_setup_ok {info : Elf32DynamicInfo}
    (h : (relocationSetup host image).run s = .ok info t)
    (htargets : ∀ target ∈ relocationTargets host image resolver s,
      Disjoint (span target 4) image.headerTable) :
    ∃ v, v.calls = t.calls ∧ Set.EqOn v.memory t.memory image.headerTable ∧
      Command.final ((elf32Relocate host image resolver).run s) =
        Command.final ((protectSegments host image).run v) := by
  rw [relocationTargets, h] at htargets
  have happly := applyPlaces_keeps htargets
  refine ⟨_, happly.calls_eq, within_eq_iff.mp happly.2, ?_⟩
  rw [elf32Relocate_eq, EStateM.run_bind, h]
  dsimp only
  rw [EStateM.run_bind, Command.run_capture]
  cases (forM info.places fun place =>
      applyRelocation image info resolver place.1 place.2).run t with
  | ok _ v => exact Command.final_bind_lift _ _ v
  | error failure v => exact Command.final_bind_lift _ _ v

end Relocation

section Main

variable {host : Host} {path : CString} {plan : LoadPlan} {mapping : UInt32} {image : Elf32Image}
  {resolver : Option Resolver} {s t u : State} (hm : Restorable host path plan mapping image)
  (htable : mappedTable s.memory image = plan.headers)
  (hguarded : Guarded image plan.headers s.calls)

include hm htable hguarded

/-- If the segments have become writable, all of them get their own protection back. -/
theorem Restorable.restored {info : Elf32DynamicInfo}
    (hsetup : (relocationSetup host image).run s = .ok info t)
    (hshared : SharedAgree image plan.headers)
    (htargets : ∀ target ∈ relocationTargets host image resolver s,
      Disjoint (span target 4) image.headerTable)
    (hrestore : RestoresSucceed host image resolver s) (x : UInt32) :
    protectionAt (Command.final ((elf32Relocate host image resolver).run s)).calls x =
      protectionAt s.calls x := by
  obtain ⟨-, hwritable⟩ := relocationSetup_eq_ok hsetup
  obtain ⟨v, hcalls, hunwritten, hfinal⟩ := relocate_of_setup_ok hsetup htargets
  have hmemory : t.memory = s.memory := congrArg (·.1) (setSegmentsWritable_contents hwritable)
  have htable' : mappedTable v.memory image = plan.headers := by
    rw [mappedTable_congr hm.headers_fit hunwritten, hmemory, htable]
  have hfirst := hm.setSegmentsWritable_outcome (s := s.reset) htable hm.stops
  have hsecond := hm.protectSegments_outcome (s := v) htable' hm.stops
  rw [State.reset, hwritable] at hfirst
  rw [RestoresSucceed, hfinal] at hrestore
  have hsucceeded : Command.succeeded ((protectSegments host image).run v) := by
    refine hsecond.failed_call.resolve_right ?_
    rintro ⟨start, length, bits, hcall⟩
    obtain ⟨made, hmade⟩ : ∃ made, v.calls = s.calls ++ made := by
      obtain ⟨⟨made, hmade, -⟩, -⟩ := (setSegmentsWritable_keeps host (P := fun _ => True) image
        fun _ _ _ _ => trivial).of_ok hwritable
      exact ⟨made, hcalls.trans hmade⟩
    rw [hmade, List.length_append, ← List.drop_drop] at hcall
    exact hrestore start length bits (List.mem_of_mem_drop hcall)
  have hall := hsecond.grants
  rw [hsecond.succeeded_iff.mp hsucceeded, ← hfinal] at hall
  rcases hall x with ⟨segment, hsegment, hpage, -⟩ | ⟨hnone, hsame⟩
  · obtain ⟨hmem, hloaded⟩ := List.mem_filter.mp hsegment
    rw [hall.guarded hshared segment hmem hloaded x hpage, hguarded segment hmem hloaded x hpage]
  · rcases hfirst.grants x with ⟨segment, hsegment, hpage, -⟩ | ⟨-, hbefore⟩
    · exact (hnone segment (granted_subset hsegment) hpage).elim
    · rw [hsame, hcalls]
      exact hbefore

/-- If one of the calls that make the segments writable fails, the ones before it stand. -/
theorem Restorable.unrestored_iff {info : Elf32DynamicInfo} {failure : Failure}
    (hparse : parseRelocationInfo s.memory image = .ok info)
    (hwritable : (setSegmentsWritable host image).run s.reset = .error failure t) :
    (∀ x ∈ span image.mapping image.mappingSize.toNat,
      protectionAt t.calls x = protectionAt s.calls x) ↔
      FailsUnchanged host image plan.headers s := by
  have houtcome := hm.setSegmentsWritable_outcome (s := s.reset) htable hm.stops
  rw [hwritable] at houtcome
  have hgrants := houtcome.grants
  have hfailed := mt houtcome.succeeded_iff.mpr nofun
  constructor
  · intro hsame _ _ _ segment hsegment
    obtain ⟨hmem, hloaded⟩ := List.mem_filter.mp (granted_subset hsegment)
    obtain ⟨stop, hstop⟩ := Option.isSome_iff_exists.mp (hm.stops segment hmem hloaded)
    have hpage := mem_pages_self image hloaded
    have hwrite : protectionAt t.calls (image.loadBias + segment.vaddr) = protReadWrite := by
      rcases hgrants _ with ⟨_, _, _, hbits⟩ | ⟨hnone, -⟩
      · exact hbits
      · exact (hnone segment hsegment hpage).elim
    rw [← hguarded segment hmem hloaded _ hpage,
      ← hsame _ (hm.pages_subset hmem hloaded hstop hpage), hwrite]
  · intro hclean x _
    rcases hgrants x with ⟨segment, hsegment, hpage, hbits⟩ | ⟨-, hsame⟩
    · obtain ⟨hmem, hloaded⟩ := List.mem_filter.mp (granted_subset hsegment)
      rw [hguarded segment hmem hloaded x hpage, hclean info hparse hfailed segment hsegment]
      exact hbits
    · exact hsame

end Main

/-- A relocation leaves the page protections of an image as a mapping has left them, exactly
if no call that makes a segment writable fails behind one that has changed a protection. -/
theorem protections_restored_iff {host : Host} {path : CString} {resolver : Option Resolver}
    {s t u : State} (h : (elf32Map host path).run s = .ok () t)
    (hsame : SameHeaders (host.content path) t.image t.memory)
    (hshared : SharedAgree t.image (programHeadersOf (host.content path)))
    (hunwritten : Set.EqOn u.memory t.memory t.image.headerTable)
    (hprotections : ∀ x ∈ span t.image.mapping t.image.mappingSize.toNat,
      protectionAt u.calls x = protectionAt t.calls x)
    (htargets : ∀ target ∈ relocationTargets host t.image resolver u,
      Disjoint (span target 4) t.image.headerTable)
    (hrestore : RestoresSucceed host t.image resolver u) :
    (∀ x ∈ span t.image.mapping t.image.mappingSize.toNat,
      protectionAt (Command.final ((elf32Relocate host t.image resolver).run u)).calls x =
        protectionAt u.calls x) ↔
      FailsUnchanged host t.image (programHeadersOf (host.content path)) u := by
  obtain ⟨plan, mapping, hm, hheaders, htable, hguarded⟩ := elf32Map_guarded h hsame hshared
  rw [← hheaders] at hshared ⊢
  have htable' : mappedTable u.memory t.image = plan.headers :=
    (mappedTable_congr hm.headers_fit hunwritten).trans htable
  have hguarded' : Guarded t.image plan.headers u.calls := by
    intro segment hsegment hloaded x hx
    obtain ⟨stop, hstop⟩ := Option.isSome_iff_exists.mp (hm.stops segment hsegment hloaded)
    rw [hprotections x (hm.pages_subset hsegment hloaded hstop hx)]
    exact hguarded segment hsegment hloaded x hx
  have hmapping : t.image.mapping ≠ 0 := hm.mapping_eq ▸ host.reserve_ne_zero hm.reserve_eq
  have hsetup := relocationSetup_run host hmapping u
  cases hparse : parseRelocationInfo u.memory t.image with
  | error failure =>
    rw [hparse] at hsetup
    rw [relocate_of_setup_error hsetup]
    refine iff_of_true (fun _ _ => rfl) fun info hinfo => ?_
    rw [hparse] at hinfo
    cases hinfo
  | ok info =>
    rw [hparse] at hsetup
    dsimp only at hsetup
    cases hwritable : (setSegmentsWritable host t.image).run u.reset with
    | error failure v =>
      rw [hwritable] at hsetup
      rw [relocate_of_setup_error hsetup]
      exact hm.unrestored_iff htable' hguarded' hparse hwritable
    | ok _ v =>
      rw [hwritable] at hsetup
      have hall := (hm.setSegmentsWritable_outcome (s := u.reset) htable' hm.stops).succeeded_iff
      rw [hwritable] at hall
      refine iff_of_true (fun x _ => ?_) fun _ _ hfailed => (hfailed (hall.mp rfl)).elim
      exact hm.restored htable' hguarded' hsetup hshared htargets hrestore x

theorem protections_restored_sample :
    Set.EqOn
      (protectionAt (Command.final
        ((elf32Relocate sampleHost sampleMapped.image none).run sampleMapped)).calls)
      (protectionAt sampleMapped.calls)
      (span sampleMapped.image.mapping sampleMapped.image.mappingSize.toNat) := by
  have hcontent : sampleHost.content (cstr "lib") = sampleFile := rfl
  have hsame : SameHeaders sampleFile sampleMapped.image sampleMapped.memory := by decide +kernel
  have hflags : ∀ a ∈ programHeadersOf sampleFile, ∀ b ∈ programHeadersOf sampleFile,
      a.loaded → b.loaded → protection a.flags = protection b.flags := by decide +kernel
  have htargets : relocationTargets sampleHost sampleMapped.image none sampleMapped =
      [0x4000011c, 0x40000120, 0x40000124] := by decide +kernel
  have houtside : ∀ target ∈ relocationTargets sampleHost sampleMapped.image none sampleMapped,
      Disjoint (span target 4) sampleMapped.image.headerTable := by
    have htable : sampleMapped.image.programHeaders = 0x40000034 ∧
        sampleMapped.image.programHeaderCount = 2 := by decide +kernel
    rw [htargets, Elf32Image.headerTable, htable.1, htable.2]
    simp only [List.forall_mem_cons]
    refine ⟨disjoint_span ?_ ?_, disjoint_span ?_ ?_, disjoint_span ?_ ?_,
      List.forall_mem_nil _⟩ <;> decide
  have hcalls : (Command.final ((elf32Relocate sampleHost sampleMapped.image none).run
      sampleMapped)).calls.drop sampleMapped.calls.length =
      [.mprotect .writable 0x40000000 4096 3 true, .mprotect .protect 0x40000000 4096 7 true] := by
    decide +kernel
  have hrestore : RestoresSucceed sampleHost sampleMapped.image none sampleMapped := by
    intro start length bits
    rw [hcalls]
    simp
  have hclean : FailsUnchanged sampleHost sampleMapped.image (programHeadersOf sampleFile)
      sampleMapped :=
    fun _ _ hfailed => (hfailed (granted_eq_self fun _ => rfl)).elim
  rw [← hcontent] at hsame hflags hclean
  exact (protections_restored_iff sampleMapped_run hsame
    (fun a ha b hb hla hlb _ => hflags a ha b hb hla hlb) (fun _ _ => rfl) (fun _ _ => rfl)
    houtside hrestore).mpr hclean

/-! ## A failure in between -/

/-- A segment of code and one of data, two pages behind it. -/
def textFile : List UInt8 :=
  [0x7f, 0x45, 0x4c, 0x46, 1, 1, 1, 0, 0, 0, 0, 0, 0, 0, 0, 0] ++
    [etDyn, emArm].flatMap le16 ++ [1, 0, 52, 0, 0].flatMap le32 ++
    [52, 32, 3, 0, 0, 0].flatMap le16 ++
    [ptLoad, 0, 0, 0, 220, 220, 5, 4096].flatMap le32 ++
    [ptLoad, 0, 0x2000, 0x2000, 0, 16, 6, 4096].flatMap le32 ++
    [ptDynamic, 148, 148, 148, 56, 56, 4, 4].flatMap le32 ++
    [dtStrtab, 204, dtStrsz, 5, dtSoname, 1, dtSymtab, 204, dtSyment, 16, dtHash, 212,
      dtNull, 0].flatMap le32 ++ [0, 0x6c, 0x69, 0x62, 0, 0, 0, 0] ++ [1, 1].flatMap le32

/-- The call that makes the data segment writable fails. -/
def textHost : Host :=
  { sampleHost with
    openFile := fun _ => .ok textFile
    mprotect := fun n => if n = 7 then .error (cstr "Cannot allocate memory") else .ok () }

def textMapped : State := Command.final ((elf32Map textHost (cstr "lib")).run .start)

theorem alignDown_of_mem {a x : UInt32} {n : Nat} (hx : x ∈ span a n) (hn : n ≤ 4096)
    (hpage : 4096 ∣ a.toNat) (hfit : a.toNat + n ≤ 2 ^ 32) : alignDown x 4096 = a := by
  have hpower : (4096 : UInt32).toNat.isPowerOfTwo := ⟨12, rfl⟩
  rw [mem_span_iff_toNat hfit] at hx
  apply UInt32.toNat_inj.mp
  rw [toNat_alignDown hpower]
  change x.toNat / 4096 * 4096 = a.toNat
  omega

theorem textFile_shared : SharedAgree textMapped.image (programHeadersOf textFile) := by
  have hlayout : textMapped.image.loadBias = 0x40000000 ∧ textMapped.image.pageSize = 4096 := by
    decide +kernel
  have hsegments : ∀ a ∈ programHeadersOf textFile, a.loaded →
      (0x40000000 + a.vaddr = 0x40000000 ∧ a.memsz.toNat = 220 ∧ protection a.flags = 5) ∨
        (0x40000000 + a.vaddr = 0x40002000 ∧ a.memsz.toNat = 16 ∧ protection a.flags = 3) := by
    decide +kernel
  have hpage : ∀ a ∈ programHeadersOf textFile, a.loaded → ∀ x ∈ a.pages textMapped.image,
      alignDown x 4096 = 0x40000000 + a.vaddr := by
    rintro a ha hloaded x ⟨y, hy, hxy⟩
    rw [hlayout.1] at hy
    rw [hlayout.2] at hxy
    rw [hxy]
    rcases hsegments a ha hloaded with ⟨hstart, hsize, -⟩ | ⟨hstart, hsize, -⟩
    · rw [hstart, hsize] at hy
      rw [hstart]
      exact alignDown_of_mem hy (by decide) (by decide) (by decide)
    · rw [hstart, hsize] at hy
      rw [hstart]
      exact alignDown_of_mem hy (by decide) (by decide) (by decide)
  rintro a ha b hb hla hlb ⟨x, hxa, hxb⟩
  have hsame := (hpage a ha hla x hxa).symm.trans (hpage b hb hlb x hxb)
  rcases hsegments a ha hla with ⟨hstart, -, hbits⟩ | ⟨hstart, -, hbits⟩ <;>
    rcases hsegments b hb hlb with ⟨hstart', -, hbits'⟩ | ⟨hstart', -, hbits'⟩
  · rw [hbits, hbits']
  · rw [hstart, hstart'] at hsame
    exact absurd hsame (by decide)
  · rw [hstart, hstart'] at hsame
    exact absurd hsame (by decide)
  · rw [hbits, hbits']

/-- The relocation fails, and the code segment stays writable and is executable no more. -/
theorem text_not_restored :
    (elf32Map textHost (cstr "lib")).run .start = .ok () textMapped ∧
      SameHeaders textFile textMapped.image textMapped.memory ∧
      SharedAgree textMapped.image (programHeadersOf textFile) ∧
      relocationTargets textHost textMapped.image none textMapped = [] ∧
      RestoresSucceed textHost textMapped.image none textMapped ∧
      ∃ x ∈ span textMapped.image.mapping textMapped.image.mappingSize.toNat,
        protectionAt textMapped.calls x = 5 ∧
        protectionAt (Command.final
          ((elf32Relocate textHost textMapped.image none).run textMapped)).calls x = 3 := by
  have hcalls : (Command.final ((elf32Relocate textHost textMapped.image none).run
      textMapped)).calls.drop textMapped.calls.length =
      [.mprotect .writable 0x40000000 4096 3 true,
        .mprotect .writable 0x40002000 4096 3 false] := by
    decide +kernel
  refine ⟨Command.eq_ok_of_succeeded ?_, ?_, textFile_shared, ?_, ?_, 0x40000000, ?_, ?_, ?_⟩
  · decide +kernel
  · decide +kernel
  · decide +kernel
  · intro start length bits
    rw [hcalls]
    simp
  · decide +kernel
  · decide +kernel
  · decide +kernel

end NfsmwRuntime.Loader
