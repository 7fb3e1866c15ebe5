import NfsmwRuntime.Install.Sessions

/-!
# What the journal cannot tell

The rollback goes by identities alone. Where the payload is what is installed already, it cannot
tell which of the two it has found, and takes the payload for published that is not.
-/

namespace NfsmwRuntime.Install

open Library Process

/-! ## A payload that is installed already -/

section Same

variable {sha256 : List UInt8 → List UInt8} {w : World} {j : Journal} {records : List Record}
  {stage : Version} {gone : List CString} {r : Record}

/-- A commit root whose payload has the identity of what is installed. -/
structure Record.Same (sha256 : List UInt8 → List UInt8) (stage : Version) (r : Record) :
    Prop where
  valid : ∀ label, validateRelativePath label r.path = .ok ()
  installed : r.digestOld ≠ none
  new : r.digestNew = r.digestOld
  staged : digestOf sha256 r.path (stage r.path) = .ok r.digestOld

/-- Nothing is in the backup. What has been dealt with is gone. -/
structure Removing (sha256 : List UInt8 → List UInt8) (records : List Record) (stage : Version)
    (gone : List CString) (w : World) : Prop where
  staged : w.content .staged = stage
  saved : ∀ r ∈ records, w.content .saved r.path = none
  live : ∀ r ∈ records, if r.path ∈ gone then w.content .live r.path = none
    else digestOf sha256 r.path (w.content .live r.path) = .ok r.digestOld

theorem Removing.setLive (h : Removing sha256 records stage gone w) (p : CString) :
    Removing sha256 records stage (gone ++ [p]) (w.set .live p none) where
  staged := h.staged ▸ funext fun q => by rw [World.content_set, if_neg (by simp)]
  saved r hr := by rw [World.content_set, if_neg (by simp), h.saved r hr]
  live r hr := by
    have hlive := h.live r hr
    rw [World.content_set]
    by_cases heq : r.path = p
    · simp [heq]
    · simpa [heq] using hlive

theorem removePath_removes (p : CString) :
    Triple NoFaults (Removing sha256 records stage gone) (Job.removePath .live p)
      (fun _ => Removing sha256 records stage (gone ++ [p]))
      (fun _ => Fails (NoFaults : World → Fate Cut → Prop))
      fun _ => Kills (NoFaults : World → Fate Cut → Prop) := by
  refine .bind (Q := fun c w => c = w.content .live p ∧ Removing sha256 records stage gone w)
    (.read fun w hw => ⟨rfl, hw⟩) fun c => ?_
  rcases c with _ | _ | _
  · refine .pure fun w hw => ?_
    have hset : w.set .live p none = w := by
      rw [World.set, ← show w.trees (.live, p) = none from hw.1.symm, Function.update_eq_self]
    exact hset ▸ hw.2.setLive p
  · exact atomic_keeps (fun w hw => hw.2.setLive p) (fun _ _ h => h) fun _ _ h => h
  · exact .operation (fun w hw => hw.2.setLive p) (fun _ _ h => absurd h not_noFaults_failed)
      fun _ _ h => absurd h not_noFaults_killed

/-- What is installed has the payload's identity, and the payload is in the stage: it is removed.
There is nothing to restore. -/
theorem rollbackRecord_removes (hr : r.Same sha256 stage) (hmem : r ∈ records)
    (hlive : r.path ∉ gone) :
    Triple NoFaults (Removing sha256 records stage gone) (rollbackRecord sha256 r)
      (fun _ => Removing sha256 records stage (gone ++ [r.path]))
      (fun _ => Fails (NoFaults : World → Fate Cut → Prop))
      fun _ => Kills (NoFaults : World → Fate Cut → Prop) := by
  have hdigest : ∀ {gone' : List CString} {a : Area} {i : Option Identity},
      (∀ w, Removing sha256 records stage gone' w →
        digestOf sha256 r.path (w.content a r.path) = .ok i) →
      Triple NoFaults (Removing sha256 records stage gone') (Job.digest sha256 a r.path)
        (fun b w => b = i ∧ Removing sha256 records stage gone' w)
        (fun _ => Fails (NoFaults : World → Fate Cut → Prop))
        fun _ => Kills (NoFaults : World → Fate Cut → Prop) := by
    intro gone' a i hi
    refine (digest_finds (fun _ _ h => h) (fun _ _ h => h) fun w e hw he => ?_).post
      fun b w hw => ⟨Except.ok.inj (hw.1.symm.trans (hi w hw.2)), hw.2⟩
    rw [hi w hw] at he
    cases he
  have hstate : Triple NoFaults (Removing sha256 records stage (gone ++ [r.path]))
      (Transaction.setState r.path .pending)
      (fun _ => Removing sha256 records stage (gone ++ [r.path]))
      (fun _ => Fails (NoFaults : World → Fate Cut → Prop))
      fun _ => Kills (NoFaults : World → Fate Cut → Prop) :=
    .bind (Q := fun _ => Removing sha256 records stage (gone ++ [r.path]))
      (.modify fun w hw => { hw with }) fun _ =>
        .bind (Q := fun _ => Removing sha256 records stage (gone ++ [r.path]))
          (atomic_keeps (fun w hw => { hw with }) (fun _ _ h => h) fun _ _ h => h) fun _ =>
            atomic_keeps (fun w hw => hw) (fun _ _ h => h) fun _ _ h => h
  refine .bind (Q := fun _ => Removing sha256 records stage gone) ?_ fun _ => ?_
  · rw [hr.valid]
    exact .pure fun w hw => hw
  refine .bind (hdigest fun w hw => by simpa [hlive] using hw.live r hmem) fun current =>
    .of_pre (fun _ hw => hw.1) fun heq => ?_
  subst heq
  refine .bind (Q := fun c w => c = none ∧ Removing sha256 records stage (gone ++ [r.path]) w) ?_
    fun current => .of_pre (fun _ hw => hw.1) fun heq => ?_
  · rw [takeBack, if_pos ⟨hr.installed, hr.new.symm⟩]
    refine .bind ((hdigest fun w hw => hw.staged ▸ hr.staged).pre fun _ hw => hw.2) fun staged =>
      .of_pre (fun _ hw => hw.1) fun heq => ?_
    subst heq
    rw [if_neg (not_not.mpr hr.new.symm)]
    exact .bind ((removePath_removes r.path).pre fun _ hw => hw.2) fun _ =>
      .pure fun w hw => ⟨rfl, hw⟩
  subst heq
  refine .bind (Q := fun _ => Removing sha256 records stage (gone ++ [r.path])) ?_ fun _ => hstate
  refine .bind ((hdigest (i := none) fun w hw => by rw [hw.saved r hmem]; rfl).pre fun _ hw => hw.2)
    fun saved => .of_pre (fun _ hw => hw.1) fun heq => ?_
  subst heq
  rw [if_neg fun h => hr.installed h.1.symm]
  exact .pure fun w hw => hw.2

/-- A commit that was killed before it had moved anything, and whose payload is what is installed
already, is undone by removing what is installed. -/
theorem recover_removes_same (hjournal : w.journal = some (.readable j))
    (hformat : j.format = FORMAT_VERSION)
    (hopen : w.marker.map Marker.transactionId ≠ some j.transactionId)
    (hnodup : (j.paths.map Record.path).Nodup)
    (hsame : ∀ r ∈ j.paths, r.Same sha256 (w.content .staged) ∧
      w.content .saved r.path = none ∧
      digestOf sha256 r.path (w.content .live r.path) = .ok r.digestOld) :
    let last := recover sha256 [] w
    last.ending = .ok () ∧ last.state.journal = none ∧
      last.state.content .staged = w.content .staged ∧
      ∀ r ∈ j.paths, last.state.content .live r.path = none := by
  have hremoves : Triple NoFaults (fun u => u = w) (recover sha256)
      (fun _ u => Removing sha256 j.paths (w.content .staged) (j.paths.reverse.map Record.path) u ∧
        u.journal = none)
      (fun _ => Fails (NoFaults : World → Fate Cut → Prop))
      fun _ => Kills (NoFaults : World → Fate Cut → Prop) := by
    refine .bind (load_readable hformat fun u hu => hu ▸ hjournal) fun data =>
      .of_pre (fun _ hu => hu.1) fun heq => ?_
    subst heq
    refine .bind (Q := fun marker u => marker = w.marker ∧ u = { w with data := some j })
      (.read ?_) fun marker => .of_pre (fun _ hu => hu.1) fun heq => ?_
    · rintro u ⟨-, u', rfl, rfl⟩
      exact ⟨rfl, rfl⟩
    subst heq
    rw [if_neg hopen]
    refine .bind (Q := fun records u => records = j.paths ∧
      Removing sha256 j.paths (w.content .staged) [] u) (.read ?_) fun records =>
        .of_pre (fun _ hu => hu.1) fun heq => ?_
    · rintro u ⟨-, rfl⟩
      refine ⟨rfl, rfl, fun r hr => (hsame r hr).2.1, fun r hr => ?_⟩
      rw [if_neg List.not_mem_nil]
      exact (hsame r hr).2.2
    subst heq
    refine .bind (Triple.pre (Triple.each (I := fun done =>
      Removing sha256 j.paths (w.content .staged) (done.map Record.path)) fun done r todo heq => ?_)
      fun _ hu => hu.2) fun _ => ?_
    · have hmem : r ∈ j.paths := List.mem_reverse.mp (by simp [heq])
      have hnot : r.path ∉ done.map Record.path := by
        have hpaths : j.paths = todo.reverse ++ r :: done.reverse := by
          rw [← List.reverse_reverse j.paths, heq]
          simp
        rw [hpaths, List.map_append, List.map_cons, List.nodup_append, List.nodup_cons] at hnodup
        simpa using hnodup.2.1.1
      simpa only [List.map_append, List.map_cons, List.map_nil] using
        rollbackRecord_removes (hsame r hmem).1 hmem hnot
    refine .bind (Q := fun _ u => Removing sha256 j.paths (w.content .staged)
      (j.paths.reverse.map Record.path) u ∧ u.journal = none)
      (atomic_keeps (fun u hu => ⟨{ hu with }, rfl⟩) (fun _ _ h => h) fun _ _ h => h) fun _ =>
        .operation (fun u hu => ⟨?_, hu.2⟩) (fun _ _ h => absurd h not_noFaults_failed)
      fun _ _ h => absurd h not_noFaults_killed
    exact ⟨hu.1.staged ▸ funext fun p => by simp, fun r hr => by simp,
      fun r hr => by simpa using hu.1.live r hr⟩
  obtain ⟨u, hending, hremoved, hnone⟩ := hremoves.run rfl
  refine ⟨hending, hnone, hremoved.staged, fun r hr => ?_⟩
  have hlive := hremoved.live r hr
  rwa [if_pos (List.mem_map_of_mem (List.mem_reverse.mpr hr))] at hlive

def sampleRepeat : Attempt where
  abis := []
  noAdopt := false
  transactionId := cstr "t"
  plan := .ok ⟨cstr "armeabi", [⟨⟨cstr "lib", cstr "a"⟩, 1, none, some (Library.sha256 [1])⟩],
    [⟨cstr "lib", false⟩], none⟩
  payload := sampleDisk.content .live

def sampleUnmoved : Record where
  path := cstr "lib"
  state := .pending
  digestNew := some (.tree (Library.sha256 (fileRecord Library.sha256 (cstr "a", [1]))))
  digestOld := some (.tree (Library.sha256 (fileRecord Library.sha256 (cstr "a", [1]))))

theorem recover_removes_same_sample :
    let w := (install Library.sha256 Library.crc32 sampleRecipe sampleRepeat
      (List.replicate 8 .done ++ [.killed fun _ _ => false]) sampleDisk).state
    let last := recover Library.sha256 [] w
    last.ending = .ok () ∧ last.state.journal = none ∧
      last.state.content .staged = w.content .staged ∧
      ∀ r ∈ [sampleUnmoved], last.state.content .live r.path = none := by
  refine recover_removes_same (j := ⟨1, cstr "t", [sampleUnmoved]⟩) (by decide +kernel) rfl
    (by decide +kernel) (by decide) fun r hr => ?_
  obtain rfl := List.mem_singleton.mp hr
  exact ⟨⟨fun _ => rfl, by decide, rfl, by decide +kernel⟩, by decide +kernel, by decide +kernel⟩

end Same

end NfsmwRuntime.Install
