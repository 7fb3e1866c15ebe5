import NfsmwRuntime.Install.Recovery

/-!
# Committing, and what a killed commit leaves

A disk stands for a version of what is installed: the one that is there, or the one to which the
next run will lead back. A commit takes a disk that stands for one version to a disk that stands
for that version still, or for the one with all commit roots exchanged. There is nothing between
the two, at whichever operation the process is killed.
-/

namespace NfsmwRuntime.Install

open Library Process

abbrev Version := CString → Option Content

/-- The version after some commit roots have been exchanged. -/
def Version.exchange (V : Version) (paths : List CString) (new : Version) : Version := fun p =>
  if paths.contains p then new p else V p

theorem Version.exchange_of_mem {V new : Version} {paths : List CString} {p : CString}
    (h : p ∈ paths) : V.exchange paths new p = new p := if_pos (List.contains_iff_mem.mpr h)

theorem Version.exchange_of_notMem {V new : Version} {paths : List CString} {p : CString}
    (h : p ∉ paths) : V.exchange paths new p = V p :=
  if_neg fun hmem => h (List.contains_iff_mem.mp hmem)

/-- What is installed when all commit roots of the exchange have been exchanged. -/
def Exchange.result (x : Exchange) : Version := Version.exchange x.old x.paths x.new

section Versions

variable (sha256 : List UInt8 → List UInt8)

/-- What is installed is this version. -/
structure Shows (V : Version) (w : World) : Prop where
  live : ∀ p, w.content .live p = V p
  backup : ∀ p, Digestible sha256 p (w.content .saved p)

/-- No transaction goes on. -/
structure Settled (V : Version) (w : World) : Prop extends Shows sha256 V w where
  journal : w.journal = none

/-- All is exchanged and the marker says so, but the journal is still there. -/
structure Sealed (V : Version) (j : Journal) (w : World) : Prop extends Shows sha256 V w where
  format : j.format = FORMAT_VERSION
  journal : w.journal = some (.readable j)
  marker : w.marker.map Marker.transactionId = some j.transactionId

/-- What is installed counts as this version. -/
inductive Stands (V : Version) (w : World) : Prop
  | settled (h : Settled sha256 V w)
  | interrupted (x : Exchange) (sound : x.Sound sha256) (version : x.old = V)
      (h : ∀ j, w.journal = some (.readable j) → Undoable sha256 x { w with data := some j })
      (journal : ∃ j, w.journal = some (.readable j) ∧ x.Matches sha256 j)
  | published (j : Journal) (h : Sealed sha256 V j w)

end Versions

section Recover

variable {sha256 : List UInt8 → List UInt8} {x : Exchange} {A : World → Fate Cut → Prop}
  {w : World} {V : Version}

theorem Undoable.stands (h : Undoable sha256 x w) (hx : x.Sound sha256) :
    Stands sha256 x.old w := by
  refine .interrupted x hx rfl (fun j hj => ?_) h.journal
  obtain ⟨j', hj', hmatch⟩ := h.journal
  rw [hj] at hj'
  obtain rfl := JournalFile.readable.inj (Option.some.inj hj')
  exact { h with data := ⟨j, rfl, hmatch⟩ }

theorem Undone.settled (h : Undone sha256 x w) : Settled sha256 x.old w where
  live p := by
    by_cases hp : p ∈ x.paths
    · exact (h.slots p hp).1
    · exact h.others p hp
  backup := h.backup
  journal := h.journal

section Areas

variable {a : Area} {j : Journal}

theorem Shows.cutArea (h : Shows sha256 V w) (ha : a ≠ .live) (keep : Cut) :
    Shows sha256 V (w.cutArea a keep) where
  live p := by simpa [ha.symm] using h.live p
  backup p := by
    rw [World.content_cutArea]
    split_ifs
    · exact (h.backup p).cut (keep p)
    · exact h.backup p

theorem Shows.clear (h : Shows sha256 V w) (ha : a ≠ .live) : Shows sha256 V (w.clear a) where
  live p := by simpa [ha.symm] using h.live p
  backup p := by
    rw [World.content_clear]
    split_ifs
    · exact digestible_none
    · exact h.backup p

theorem Settled.cutArea (h : Settled sha256 V w) (ha : a ≠ .live) (keep : Cut) :
    Settled sha256 V (w.cutArea a keep) :=
  { h.toShows.cutArea ha keep with journal := h.journal }

theorem Settled.clear (h : Settled sha256 V w) (ha : a ≠ .live) :
    Settled sha256 V (w.clear a) :=
  { h.toShows.clear ha with journal := h.journal }

theorem Sealed.cutArea (h : Sealed sha256 V j w) (ha : a ≠ .live) (keep : Cut) :
    Sealed sha256 V j (w.cutArea a keep) :=
  { h.toShows.cutArea ha keep with format := h.format, journal := h.journal, marker := h.marker }

theorem Sealed.clear (h : Sealed sha256 V j w) (ha : a ≠ .live) :
    Sealed sha256 V j (w.clear a) :=
  { h.toShows.clear ha with format := h.format, journal := h.journal, marker := h.marker }

end Areas

/-- A removal that leaves a condition, however much of it is done. -/
theorem removeArea_keeps {a : Area} {P K : World → Prop} {R : World → Prop}
    (hclear : ∀ w, P w → P (w.clear a)) (hcut : ∀ w keep, P w → P (w.cutArea a keep))
    (hK : ∀ w, P w → Kills A → K w) :
    Triple A P (Job.removeArea a) (fun _ => P) R K :=
  .operation hclear (fun keep w _ hw => hcut w keep hw)
    fun keep w hkill hw => hK _ (hcut w keep hw) ⟨w, keep, hkill⟩

/-- A journal that can be read is taken into memory. -/
theorem load_readable {P R K : World → Prop} {j : Journal} (hformat : j.format = FORMAT_VERSION)
    (h : ∀ w, P w → w.journal = some (.readable j)) :
    Triple A P Transaction.load
      (fun data w => data = some j ∧ ∃ w', P w' ∧ w = { w' with data := some j }) R K := by
  refine .bind (Q := fun file w => file = some (.readable j) ∧ P w)
    (.read fun w hw => ⟨h w hw, hw⟩) fun file => .of_pre (fun _ hw => hw.1) fun heq => ?_
  subst heq
  dsimp only
  rw [if_neg (not_not.mpr hformat)]
  exact .bind (Q := fun _ w => ∃ w', P w' ∧ w = { w' with data := some j })
    (.modify fun w hw => ⟨w, hw.2, rfl⟩) fun _ => .pure fun w hw => ⟨rfl, hw⟩

section Cases

variable {m : Option Marker}

theorem recover_settled {R K : World → Prop} :
    Triple A (fun w => Settled sha256 V w ∧ w.marker = m) (recover sha256)
      (fun _ w => Settled sha256 V w ∧ w.marker = m) R K := by
  refine .bind (Q := fun data w => data = none ∧ Settled sha256 V w ∧ w.marker = m) ?_ fun data =>
    .of_pre (fun _ hw => hw.1) fun heq => ?_
  swap
  · subst heq
    exact .pure fun _ hw => hw.2
  refine .bind (Q := fun file w => file = none ∧ Settled sha256 V w ∧ w.marker = m)
    (.read fun w hw => ⟨hw.1.journal, hw⟩) fun file => .of_pre (fun _ hw => hw.1) fun heq => ?_
  subst heq
  exact .pure fun _ hw => ⟨rfl, hw.2⟩

/-- What a failure and a kill may leave while a run recovers. -/
theorem tolerates_recover (hx : x.Sound sha256) : Tolerates sha256 x A
    (fun w => (Stands sha256 x.old w ∧ w.marker = x.marker) ∧ Fails A)
    (fun w => (Stands sha256 x.old w ∧ w.marker = x.marker) ∧ Kills A) where
  failure _ hw hfails := ⟨⟨hw.stands hx, hw.marker⟩, hfails⟩
  kill _ hw hkills := ⟨⟨hw.stands hx, hw.marker⟩, hkills⟩

theorem recover_interrupted {j : Journal} (hx : x.Sound sha256) (hj : x.Matches sha256 j) :
    Triple A (fun w => w.journal = some (.readable j) ∧ Undoable sha256 x { w with data := some j })
      (recover sha256) (fun _ w => Settled sha256 x.old w ∧ w.marker = x.marker)
      (fun w => (Stands sha256 x.old w ∧ w.marker = x.marker) ∧ Fails A)
      (fun w => (Stands sha256 x.old w ∧ w.marker = x.marker) ∧ Kills A) := by
  refine .bind (load_readable hj.format fun w hw => hw.1) fun data =>
    .of_pre (fun _ hw => hw.1) fun heq => ?_
  subst heq
  refine .bind (Q := fun marker w => marker = x.marker ∧ Undoable sha256 x w) (.read ?_)
    fun marker => .of_pre (fun _ hw => hw.1) fun heq => ?_
  · rintro w ⟨-, w', hw', rfl⟩
    exact ⟨hw'.2.marker, hw'.2⟩
  · subst heq
    rw [if_neg fun h => hx.fresh (h.trans (congrArg some hj.transactionId))]
    exact (rollback_undoes (tolerates_recover hx) hx
      fun w hw hkills => ⟨⟨.settled hw.settled, hw.marker⟩, hkills⟩).conseq
      (fun _ hw => hw.2) (fun _ w hw => ⟨hw.settled, hw.marker⟩) (fun _ h => h) fun _ h => h

theorem recover_published {j : Journal} :
    Triple A (fun w => Sealed sha256 V j w ∧ w.marker = m) (recover sha256)
      (fun _ w => Settled sha256 V w ∧ w.marker = m)
      (fun w => (Stands sha256 V w ∧ w.marker = m) ∧ Fails A)
      (fun w => (Stands sha256 V w ∧ w.marker = m) ∧ Kills A) := by
  refine .of_pre (fun _ hw => hw.1.format) fun hformat => ?_
  refine .bind (load_readable hformat fun w hw => hw.1.journal) fun data =>
    .of_pre (fun _ hw => hw.1) fun heq => ?_
  subst heq
  refine .bind (Q := fun marker w => marker = m ∧ Sealed sha256 V j w ∧ w.marker = m) (.read ?_)
    fun marker => .of_pre (fun _ hw => hw.1) fun heq => ?_
  · rintro w ⟨-, w', ⟨hsealed, hm⟩, rfl⟩
    exact ⟨hm, { hsealed with }, hm⟩
  · refine .of_pre (fun w hw => show marker.map Marker.transactionId = some j.transactionId from
      (heq.trans hw.2.2.symm) ▸ hw.2.1.marker) fun hid => ?_
    rw [if_pos hid]
    have hremove : ∀ a : Area, a ≠ .live →
        Triple A (fun w => Sealed sha256 V j w ∧ w.marker = m) (Job.removeArea a)
          (fun _ w => Sealed sha256 V j w ∧ w.marker = m)
          (fun w => (Stands sha256 V w ∧ w.marker = m) ∧ Fails A)
          (fun w => (Stands sha256 V w ∧ w.marker = m) ∧ Kills A) := fun a ha =>
      removeArea_keeps (fun w hw => ⟨hw.1.clear ha, hw.2⟩)
        (fun w keep hw => ⟨hw.1.cutArea ha keep, hw.2⟩)
        fun w hw hkills => ⟨⟨.published j hw.1, hw.2⟩, hkills⟩
    refine .bind ((hremove .saved (by decide)).pre fun _ hw => hw.2) fun _ => ?_
    refine .bind (hremove .staged (by decide)) fun _ => ?_
    exact atomic_keeps (fun w hw => ⟨{ hw.1.toShows with journal := rfl }, hw.2⟩)
      (fun w hw hfails => ⟨⟨.published j hw.1, hw.2⟩, hfails⟩)
      fun w hw hkills => ⟨⟨.published j hw.1, hw.2⟩, hkills⟩

end Cases

/-- A run that finds what a killed one has left leads back to the version for which it stands,
and needs nothing for that but that the operations are done. -/
theorem recover_settles {m : Option Marker} :
    Triple A (fun w => Stands sha256 V w ∧ w.marker = m) (recover sha256)
      (fun _ w => Settled sha256 V w ∧ w.marker = m)
      (fun w => (Stands sha256 V w ∧ w.marker = m) ∧ Fails A)
      (fun w => (Stands sha256 V w ∧ w.marker = m) ∧ Kills A) := by
  intro fates w ⟨hstands, hm⟩ hfaults
  cases hstands with
  | settled h => exact recover_settled fates w ⟨h, hm⟩ hfaults
  | interrupted x hx hversion h hjournal =>
    obtain ⟨j, hj, hmatch⟩ := hjournal
    subst hversion
    have hmarker : x.marker = m := (h j hj).marker.symm.trans hm
    subst hmarker
    exact recover_interrupted hx hmatch fates w ⟨hj, h j hj⟩ hfaults
  | published j h => exact recover_published fates w ⟨h, hm⟩ hfaults

end Recover

/-! ## Publishing -/

section Publish

variable {sha256 : List UInt8 → List UInt8} {x : Exchange} {S : CString → Slot → Prop}
  {r : Record} {A : World → Fate Cut → Prop} {R K : World → Prop} {w : World}

theorem backUp_held (ht : Tolerates sha256 x A R K) (hp : r.path ∈ x.paths)
    (hr : x.Describes sha256 r.path r) (hS : Safe x S) (hR : ∀ w, Undoable sha256 x w → R w) :
    Triple A (HeldAt sha256 x S r.path Slot.Pending) (backUp r)
      (fun _ => HeldAt sha256 x S r.path Slot.Removed) R K := by
  have hpending : Safe x (Function.update S r.path (Slot.Pending (x.old r.path) (x.new r.path))) :=
    hS.update fun s h => .inl h
  have hremoved : Safe x (Function.update S r.path (Slot.Removed (x.old r.path) (x.new r.path))) :=
    hS.update fun s h => h.recoverable
  by_cases ho : x.old r.path = none
  · -- there is nothing to back up
    have hold : r.digestOld = none := by
      have hdigest := hr.old
      rw [ho] at hdigest
      exact (Except.ok.inj hdigest).symm
    rw [backUp, if_neg (not_not.mpr hold)]
    exact .pure fun w hw => hw.shift fun h => ⟨h.1.trans ho, h.2, .inl ho⟩
  · obtain ⟨c, hc⟩ := Option.ne_none_iff_exists'.mp ho
    rw [backUp, if_pos (digestOf_some_ne_none (hc ▸ hr.old))]
    refine .bind (ht.setState hpending .backingUp) fun _ => ?_
    refine .bind (ht.system hpending) fun _ => ?_
    refine .bind (Q := fun _ => HeldAt sha256 x S r.path Slot.Removed)
      (ht.rename hp hpending (fun w hw _ => hR w (hw.undoable hpending))
        (fun s hs => ⟨c, hs.1.trans hc, rfl, hs.2, .inr hc.symm⟩) fun _ w hw => ?_)
      fun _ => ht.setState hremoved .backedUp
    have hlive : w.content .live r.path = x.old r.path := (hw.slot hp).1
    exact hlive ▸ hw.digestible_old hp

/-- One turn of the exchange. A backup that could not be removed before may be in the way. -/
theorem publishRecord_held (ht : Tolerates sha256 x A R K) (hx : x.Sound sha256)
    (hp : r.path ∈ x.paths) (hr : x.Describes sha256 r.path r) (hS : Safe x S)
    (hR : ∀ w, Undoable sha256 x w → R w) :
    Triple A (HeldAt sha256 x S r.path Slot.Pending) (publishRecord r)
      (fun _ => HeldAt sha256 x S r.path Slot.Installed) R K := by
  obtain ⟨c, hc⟩ := Option.ne_none_iff_exists'.mp (hx.staged _ hp)
  have hremoved : Safe x (Function.update S r.path (Slot.Removed (x.old r.path) (x.new r.path))) :=
    hS.update fun s h => h.recoverable
  have hinstalled : Safe x
      (Function.update S r.path (Slot.Installed (x.old r.path) (x.new r.path))) :=
    hS.update fun s h => .inr (.inr h)
  refine .bind (Q := fun _ => HeldAt sha256 x S r.path Slot.Pending)
    ((Tolerates.ofExcept (hx.valid _ hp _)).post fun _ _ h => h.2) fun _ => ?_
  refine .bind (backUp_held ht hp hr hS hR) fun _ => ?_
  refine .bind (ht.setState hremoved .installing) fun _ => ?_
  refine .bind (ht.system hremoved) fun _ => ?_
  refine .bind (Q := fun _ => HeldAt sha256 x S r.path Slot.Installed)
    (ht.rename hp hremoved (fun w hw hne => absurd (hw.slot hp).1 hne)
      (fun s hs => ⟨c, hs.2.1.trans hc, hc.symm, rfl, hs.2.2⟩) fun h => nomatch h)
    fun _ => ht.setState hinstalled .installed

theorem paths_eq {paths : List CString} {records : List Record}
    (h : List.Forall₂ (x.Describes sha256) paths records) : paths = records.map Record.path := by
  induction h with
  | nil => rfl
  | cons h _ ih => rw [List.map_cons, h.path, ih]

/-- The commit roots are exchanged one after the other. -/
def Exchanged (x : Exchange) (done : List Record) (p : CString) (s : Slot) : Prop :=
  (p ∈ done.map Record.path → s.Installed (x.old p) (x.new p)) ∧
    (p ∉ done.map Record.path → s.Pending (x.old p) (x.new p))

theorem safe_exchanged (done : List Record) : Safe x (Exchanged x done) := by
  intro p _ s hs
  by_cases hp : p ∈ done.map Record.path
  · exact .inr (.inr (hs.1 hp))
  · exact .inl (hs.2 hp)

theorem publish_records (ht : Tolerates sha256 x A R K) (hx : x.Sound sha256)
    (hR : ∀ w, Undoable sha256 x w → R w) {records : List Record}
    (hrecords : List.Forall₂ (x.Describes sha256) x.paths records) :
    Triple A (Held sha256 x fun p => Slot.Pending (x.old p) (x.new p))
      (Process.each publishRecord records) (fun _ => Held sha256 x (Exchanged x records)) R K := by
  have hpaths := paths_eq hrecords
  refine Triple.pre (Triple.each (I := fun done => Held sha256 x (Exchanged x done))
    fun done r todo heq => ?_) fun w hw => hw.mono fun p _ s hs => ⟨nofun, fun _ => hs⟩
  have hmem : r ∈ records := by simp [heq]
  obtain ⟨p, hp, hr⟩ :=
    exists_of_forall₂ (r := fun r p => x.Describes sha256 p r) hrecords.flip hmem
  obtain rfl := hr.path
  have hnotMem : r.path ∉ done.map Record.path := by
    have hnodup := hpaths ▸ hx.nodup
    rw [heq, List.map_append, List.map_cons, List.nodup_append] at hnodup
    exact fun h => hnodup.2.2 _ h _ List.mem_cons_self rfl
  refine (publishRecord_held ht hx hp hr (safe_exchanged done) hR).conseq
    (fun w hw => hw.update fun hp => ?_) (fun _ w hw => hw.mono fun q hq s hs => ?_) (fun _ h => h)
    fun _ h => h
  · exact (hw.slots _ hp).2 hnotMem
  · by_cases heq : q = r.path
    · subst heq
      rw [Function.update_self] at hs
      simpa [Exchanged] using hs
    · rw [Function.update_of_ne heq] at hs
      simpa [Exchanged, heq] using hs

/-- The marker of the transaction is there, and its journal. -/
def Closing (transactionId : CString) (w : World) : Prop :=
  w.journal ≠ none ∧ w.marker.map Marker.transactionId = some transactionId

/-- Between the writing of the marker and the removal of the journal, no operation fails. -/
def Steady (transactionId : CString) (w : World) (fate : Fate Cut) : Prop :=
  Closing transactionId w → ¬ fate.IsFailure

theorem Held.sealed {records : List Record} {m : Marker} (h : Held sha256 x (Exchanged x records) w)
    (hpaths : x.paths = records.map Record.path) (hm : m.transactionId = x.transactionId) :
    ∃ j, Sealed sha256 x.result j { w with marker := some m } := by
  obtain ⟨j, hj, hmatch⟩ := h.journal
  refine ⟨j, ⟨fun p => ?_, h.backup⟩, hmatch.format, hj, ?_⟩
  · by_cases hp : p ∈ x.paths
    · exact ((h.slots p hp).1 (hpaths ▸ hp)).1.trans (Version.exchange_of_mem hp).symm
    · exact (h.others p hp).trans (Version.exchange_of_notMem hp).symm
  · exact congrArg some (hm.trans hmatch.transactionId.symm)

/-- All is exchanged, and this marker says so. -/
structure SealedWith (sha256 : List UInt8 → List UInt8) (x : Exchange) (m : Marker) (w : World) :
    Prop where
  state : ∃ j, Sealed sha256 x.result j w
  closing : Closing x.transactionId w
  marker : w.marker = some m

variable {crc32 : List UInt8 → Nat} {recipe : Recipe} {plan : Plan}

/-- The exchange is made and sealed, or can be undone. -/
theorem publish_seals (hx : x.Sound sha256)
    (hA : ∀ w cut, A w (.failed cut) → ¬ Closing x.transactionId w) :
    Triple A (Held sha256 x fun p => Slot.Pending (x.old p) (x.new p))
      (publish sha256 crc32 recipe plan x.transactionId)
      (fun _ w => Settled sha256 x.result w ∧
        w.marker = some (newMarker recipe plan x.transactionId false))
      (Undoable sha256 x)
      (fun w => (Stands sha256 x.old w ∨ Stands sha256 x.result w) ∧ Kills A) := by
  have ht : Tolerates sha256 x A (Undoable sha256 x)
      (fun w => (Stands sha256 x.old w ∨ Stands sha256 x.result w) ∧ Kills A) :=
    ⟨fun w hw _ => hw, fun w hw hkills => ⟨.inl (hw.stands hx), hkills⟩⟩
  refine .bind (Q := fun records w => List.Forall₂ (x.Describes sha256) x.paths records ∧
    Held sha256 x (fun p => Slot.Pending (x.old p) (x.new p)) w) (.read fun w hw => ?_)
    fun records => .of_pre (fun _ hw => hw.1) fun hrecords => ?_
  · obtain ⟨j, hj, hmatch⟩ := hw.data
    rw [hj]
    exact ⟨hmatch.paths, hw⟩
  have hsafe := safe_exchanged (x := x) records
  refine .bind ((publish_records ht hx (fun w hw => hw) hrecords).pre fun _ hw => hw.2) fun _ => ?_
  refine .bind (ht.system hsafe) fun _ => ?_
  refine .bind (Q := fun _ => Held sha256 x (Exchanged x records)) (.read fun w hw => hw)
    fun valid => ?_
  refine .bind (Q := fun _ => Held sha256 x (Exchanged x records)) ?_ fun _ => ?_
  · cases valid with
    | error e => exact .raise fun w hw => hw.undoable hsafe
    | ok _ => exact .pure fun w hw => hw
  -- from here on the marker says that all is done
  refine .bind (Q := fun _ => SealedWith sha256 x (newMarker recipe plan x.transactionId false)) ?_
    fun _ => ?_
  · refine .bind (Q := fun _ =>
      SealedWith sha256 x (newMarker recipe plan x.transactionId false)) (ht.atomic hsafe
        fun w hw => ?_) fun _ => .atomic (fun w hw => hw)
          (fun w cut hcut hw => absurd hw.closing (hA w cut hcut)) fun w cut hcut hw => ?_
    · obtain ⟨j, hj, -⟩ := hw.journal
      exact ⟨hw.sealed (paths_eq hrecords) rfl, ⟨by rw [hj]; simp, rfl⟩, rfl⟩
    · obtain ⟨j, hj⟩ := hw.state
      exact ⟨.inr (.published j hj), w, cut, hcut⟩
  · refine .atomic (fun w hw => ?_) (fun w cut hcut hw => absurd hw.closing (hA w cut hcut))
      fun w cut hcut hw => ?_
    · obtain ⟨j, hj⟩ := hw.state
      exact ⟨{ hj.toShows with journal := rfl }, hw.marker⟩
    · obtain ⟨j, hj⟩ := hw.state
      exact ⟨.inr (.published j hj), w, cut, hcut⟩

end Publish

/-! ## The commit -/

section Commit

variable {sha256 : List UInt8 → List UInt8} {crc32 : List UInt8 → Nat} {recipe : Recipe}
  {plan : Plan} {x : Exchange} {A : World → Fate Cut → Prop} {w : World}

/-- The commit roots may be exchanged, as far as they are staged. -/
structure Exchange.Proper (sha256 : List UInt8 → List UInt8) (x : Exchange) : Prop where
  nodup : x.paths.Nodup
  valid : ∀ p ∈ x.paths, ∀ label, validateRelativePath label p = .ok ()
  fresh : x.marker.map Marker.transactionId ≠ some x.transactionId
  differ : ∀ p ∈ x.paths, digestOf sha256 p (x.new p) ≠ digestOf sha256 p (x.old p)

/-- The stage is made, and nothing has begun. -/
structure Ready (sha256 : List UInt8 → List UInt8) (x : Exchange) (w : World) : Prop
    extends Settled sha256 x.old w where
  marker : w.marker = x.marker
  staged : ∀ p ∈ x.paths, w.content .staged p = x.new p

theorem Ready.cutArea (h : Ready sha256 x w) (keep : Cut) :
    Ready sha256 x (w.cutArea .saved keep) :=
  { h.toSettled.cutArea (by decide) keep with marker := h.marker, staged := h.staged }

theorem Ready.clear (h : Ready sha256 x w) : Ready sha256 x (w.clear .saved) :=
  { h.toSettled.clear (by decide) with marker := h.marker, staged := h.staged }

theorem checkRoots_ready {R K : World → Prop} (hR : ∀ w, Ready sha256 x w → R w)
    (hK : ∀ w, Ready sha256 x w → Kills A → K w) :
    Triple A (Ready sha256 x) (Process.each checkRoot x.paths)
      (fun _ w => (∀ p ∈ x.paths, x.new p ≠ none) ∧ Ready sha256 x w) R K := by
  refine Triple.pre (Triple.each (I := fun done w => (∀ p ∈ done, x.new p ≠ none) ∧
    Ready sha256 x w) fun done p todo heq => ?_) fun w hw => ⟨by simp, hw⟩
  have hp : p ∈ x.paths := by simp [heq]
  refine .of_pre (fun _ hw => hw.1) fun hdone => ?_
  refine .bind (Q := fun staged w => staged = x.new p ∧ Ready sha256 x w)
    (.read fun w hw => ⟨hw.2.staged p hp, hw.2⟩) fun staged => .of_pre (fun _ hw => hw.1)
      fun heq => ?_
  subst heq
  by_cases hnone : x.new p = none
  · rw [if_pos hnone]
    exact .raise fun w hw => hR w hw.2
  · rw [if_neg hnone]
    refine atomic_keeps (fun w hw => ⟨fun q hq => ?_, hw.2⟩) (fun w hw _ => hR w hw.2)
      fun w hw => hK w hw.2
    rcases List.mem_append.mp hq with hq | hq
    · exact hdone q hq
    · exact List.mem_singleton.mp hq ▸ hnone

theorem digest_ready {R K : World → Prop} {p : CString} {a : Area} {c : Option Content}
    (hc : ∀ w, Ready sha256 x w → w.content a p = c) (hR : ∀ w, Ready sha256 x w → R w)
    (hK : ∀ w, Ready sha256 x w → Kills A → K w) :
    Triple A (Ready sha256 x) (Job.digest sha256 a p)
      (fun i w => digestOf sha256 p c = .ok i ∧ Ready sha256 x w) R K :=
  (digest_finds (fun w hw _ => hR w hw) hK fun w _ hw _ => hR w hw).post
    fun _ w hw => ⟨hc w hw.2 ▸ hw.1, hw.2⟩

theorem beginRecord_describes {R K : World → Prop} {p : CString} (hp : p ∈ x.paths)
    (hR : ∀ w, Ready sha256 x w → R w) (hK : ∀ w, Ready sha256 x w → Kills A → K w) :
    Triple A (Ready sha256 x) (Transaction.beginRecord sha256 p)
      (fun r w => x.Describes sha256 p r ∧ Ready sha256 x w) R K := by
  refine .bind (digest_ready (fun w hw => hw.staged p hp) hR hK) fun i =>
    .of_pre (fun _ hw => hw.1) fun hi => ?_
  refine .bind ((digest_ready (fun w hw => hw.live p) hR hK).pre fun _ hw => hw.2) fun j =>
    .of_pre (fun _ hw => hw.1) fun hj => ?_
  exact .pure fun w hw => ⟨⟨rfl, hi, hj⟩, hw.2⟩

/-- The journal says what is to happen before any of it does. -/
theorem start_held (hx : x.Sound sha256) (hpaths : plan.paths = x.paths) {R K : World → Prop}
    (hR : ∀ w, Stands sha256 x.old w → R w) (hK : ∀ w, Stands sha256 x.old w → Kills A → K w) :
    Triple A (Ready sha256 x) (Transaction.start sha256 plan x.transactionId)
      (fun _ => Held sha256 x fun p => Slot.Pending (x.old p) (x.new p)) R K := by
  have hsafe : Safe x fun p => Slot.Pending (x.old p) (x.new p) := fun p _ s hs => .inl hs
  have ht : Tolerates sha256 x A R K :=
    ⟨fun w hw _ => hR w (hw.stands hx), fun w hw => hK w (hw.stands hx)⟩
  refine .bind (Q := fun records w => List.Forall₂ (x.Describes sha256) x.paths records ∧
    Ready sha256 x w) (hpaths ▸ Triple.collect fun p hp => beginRecord_describes (hpaths ▸ hp)
      (fun w hw => hR w (.settled hw.toSettled)) fun w hw => hK w (.settled hw.toSettled))
    fun records => .of_pre (fun _ hw => hw.1) fun hrecords => ?_
  refine .bind (Q := fun _ w => w.data = some ⟨FORMAT_VERSION, x.transactionId, records⟩ ∧
    Ready sha256 x w) (.modify fun w hw => ⟨rfl, { hw.2 with }⟩) fun _ => ?_
  have hmatch : x.Matches sha256 ⟨FORMAT_VERSION, x.transactionId, records⟩ :=
    ⟨rfl, rfl, hrecords⟩
  refine .bind (Q := fun _ => Held sha256 x fun p => Slot.Pending (x.old p) (x.new p))
    (atomic_keeps (fun w hw => ?_) (fun w hw _ => hR w (.settled hw.2.toSettled))
      fun w hw => hK w (.settled hw.2.toSettled)) fun _ => ht.system hsafe
  exact {
    slots := fun p hp => ⟨hw.2.live p, hw.2.staged p hp⟩
    others := fun p _ => hw.2.live p
    backup := hw.2.backup
    marker := hw.2.marker
    journal := ⟨_, by rw [hw.1]; rfl, hmatch⟩
    data := ⟨_, hw.1, hmatch⟩ }

/-- A commit that is done has exchanged all commit roots. One that fails has exchanged none, or
leaves that to the next run; and where the process is killed, it is one or the other. -/
theorem commit_exchanges (plan : Plan) (hx : x.Proper sha256) (hpaths : plan.paths = x.paths)
    (hA : ∀ w cut, A w (.failed cut) → ¬ Closing x.transactionId w) :
    Triple A (Ready sha256 x) (commit sha256 crc32 recipe plan x.transactionId)
      (fun _ w => Settled sha256 x.result w ∧
        w.marker = some (newMarker recipe plan x.transactionId false))
      (Stands sha256 x.old)
      (fun w => (Stands sha256 x.old w ∨ Stands sha256 x.result w) ∧ Kills A) := by
  have hready : ∀ w, Ready sha256 x w → Stands sha256 x.old w := fun w hw => .settled hw.toSettled
  have hkill : ∀ w, Ready sha256 x w → Kills A →
      (Stands sha256 x.old w ∨ Stands sha256 x.result w) ∧ Kills A :=
    fun w hw hkills => ⟨.inl (hready w hw), hkills⟩
  refine .bind (removeArea_keeps (fun w hw => hw.clear) (fun w keep hw => hw.cutArea keep) hkill)
    fun _ => ?_
  refine .bind (atomic_keeps (Q := fun _ => Ready sha256 x) (fun w hw => hw)
    (fun w hw _ => hready w hw) hkill) fun _ => ?_
  refine .bind (hpaths ▸ checkRoots_ready hready hkill) fun _ => .of_pre (fun _ hw => hw.1)
    fun hstaged => ?_
  have hsound : x.Sound sha256 := { hx with staged := hpaths ▸ hstaged }
  refine .bind ((start_held hsound hpaths (fun w hw => hw)
    fun w hw hkills => ⟨.inl hw, hkills⟩).pre fun _ hw => hw.2) fun _ => ?_
  refine .bind (Q := fun _ w => Settled sha256 x.result w ∧
    w.marker = some (newMarker recipe plan x.transactionId false))
    (.onError (publish_seals hsound hA) ?_) fun _ => ?_
  · exact (rollback_undoes
      ⟨fun w hw _ => hw.stands hsound, fun w hw hkills => ⟨.inl (hw.stands hsound), hkills⟩⟩ hsound
      fun w hw hkills => ⟨.inl (.settled hw.settled), hkills⟩).post fun _ w hw =>
        .settled hw.settled
  · refine .bind (removeArea_keeps (fun w hw => ⟨hw.1.clear (by decide), hw.2⟩)
      (fun w keep hw => ⟨hw.1.cutArea (by decide) keep, hw.2⟩) fun w hw hkills => ?_) fun _ =>
        removeArea_keeps (fun w hw => ⟨hw.1.clear (by decide), hw.2⟩)
          (fun w keep hw => ⟨hw.1.cutArea (by decide) keep, hw.2⟩) fun w hw hkills => ?_
    all_goals exact ⟨.inr (.settled hw.1), hkills⟩

end Commit

end NfsmwRuntime.Install
