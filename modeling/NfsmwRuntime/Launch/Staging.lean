import NfsmwRuntime.Launch.Audio

/-!
# Where the stage is written

The members to prepare are chosen by the start of their name, but their names are used as
paths, and a name that starts with `published/sounds/` may go on with `..`. What a run makes
while it extracts is inside the stage's sounds, or one of the folders above them, as long as
every part of every name leads there. A name that does not is followed to wherever it leads.
-/

namespace NfsmwRuntime.Launch

open Library

section

variable (gamefiles : Path)

/-- What the next step of the extraction makes: a folder that is not there, or a file that it
opens. The names start at the folder of the game's files. -/
def World.making (w : World) : Option (List CString) :=
  match w.status with
  | .running (.folders (names :: _) _ _) =>
    ((w.fs.resolve gamefiles names).filter fun p =>
      ¬ w.fs.IsDirectory p ∧ w.fs.node p = none).map fun _ => names
  | .running (.folders [] item _) =>
    (w.fs.create gamefiles (stageName :: item.parts)).map fun _ => stageName :: item.parts
  | _ => none

/-- The sounds of the stage, and the folders above them. -/
def AlongStage (p : Path) : Prop :=
  stage gamefiles ++ soundsParts <+: p ∨ p <+: stage gamefiles ++ soundsParts

instance (p : Path) : Decidable (AlongStage gamefiles p) := inferInstanceAs (Decidable (_ ∨ _))

/-- The names lead, with each `..` taking back the name before it, to the sounds of the stage
or to a folder above them. -/
def LeadsAlong (names : List CString) : Prop := AlongStage gamefiles (lexical gamefiles names)

instance (names : List CString) : Decidable (LeadsAlong gamefiles names) :=
  inferInstanceAs (Decidable (AlongStage _ _))

/-- The name of the member, and each part that it begins with, leads along the stage. -/
def Confined (item : Member) : Prop :=
  ∀ taken ∈ item.parts.inits, LeadsAlong gamefiles (stageName :: taken)

instance (item : Member) : Decidable (Confined gamefiles item) :=
  inferInstanceAs (Decidable (∀ _ ∈ _, _))

end

/-! ## Confined members -/

section Confined

variable {gamefiles : Path} {archive : CString → Option (List Member)} {w w' : World}

/-- The names of a folder begin the names of the file. -/
theorem mem_folders {item : Member} {names : List CString} (h : names ∈ item.folders) :
    ∃ taken ∈ item.parts.inits, names = stageName :: taken := by
  rw [Member.folders, List.inits_cons, List.tail_cons] at h
  obtain ⟨taken, htaken, rfl⟩ := List.mem_map.mp h
  have hfirst := (List.mem_inits _ _).mp htaken
  exact ⟨taken, (List.mem_inits _ _).mpr (hfirst.trans (List.dropLast_prefix _)), rfl⟩

/-- All that the extraction has still to make leads along the stage. -/
def Phase.Leads (gamefiles : Path) : Phase → Prop
  | .folders names item todo => (∀ folder ∈ names, LeadsAlong gamefiles folder) ∧
      LeadsAlong gamefiles (stageName :: item.parts) ∧ ∀ other ∈ todo, Confined gamefiles other
  | .copying _ _ todo => ∀ other ∈ todo, Confined gamefiles other
  | _ => True

def World.Leads (gamefiles : Path) (w : World) : Prop :=
  ∀ phase, w.status = .running phase → phase.Leads gamefiles

/-- A run that is over makes nothing. -/
theorem leads_ended (h : ∀ phase, w.status ≠ .running phase) : w.Leads gamefiles :=
  fun phase heq => (h phase heq).elim

theorem leads_goto {phase : Phase} (h : phase.Leads gamefiles) : (w.goto phase).Leads gamefiles :=
  fun _ heq => Status.running.inj heq ▸ h

theorem leads_after {result : Option FileSystem} {phase : Phase} (h : phase.Leads gamefiles) :
    (w.after result phase).Leads gamefiles := by
  cases result with
  | none => exact leads_goto trivial
  | some fs => exact leads_goto h

theorem leads_extract {items : List Member} (h : ∀ item ∈ items, Confined gamefiles item) :
    (extract items).Leads gamefiles := by
  cases items with
  | nil => trivial
  | cons item todo =>
    obtain ⟨hitem, htodo⟩ := List.forall_mem_cons.mp h
    refine ⟨fun folder hfolder => ?_, hitem _ ((List.mem_inits _ _).mpr List.prefix_rfl), htodo⟩
    obtain ⟨taken, htaken, rfl⟩ := mem_folders hfolder
    exact hitem taken htaken

theorem leads_openArchive
    (harchive : ∀ identity, ∀ items ∈ archive identity, ∀ item ∈ sounds items,
      Confined gamefiles item) :
    (w.openArchive (archive w.obb.identity)).Leads gamefiles := by
  unfold World.openArchive
  split
  · exact leads_goto trivial
  · rename_i items hitems
    split_ifs
    · exact leads_goto trivial
    · exact leads_goto (leads_extract (harchive _ items hitems))

/-- One step of a run, whichever its phase. -/
theorem leads_advance {entry : Path} {phase : Phase} (hphase : w.status = .running phase)
    (h : w.Leads gamefiles) (hstep : w.advance gamefiles entry phase = some w') :
    w'.Leads gamefiles := by
  have hleads := h phase hphase
  cases phase with
  | clear =>
    obtain ⟨fs, -, rfl⟩ := Option.map_eq_some_iff.mp hstep
    exact fun other heq => h other heq
  | folders names item todo =>
    cases names with
    | cons folder more =>
      have hmore := (List.forall_mem_cons.mp hleads.1).2
      exact Option.some.inj hstep ▸ leads_after ⟨hmore, hleads.2⟩
    | nil =>
      obtain rfl := Option.some.inj hstep
      split
      · exact leads_goto hleads.2.2
      · exact leads_goto trivial
  | copying file rest todo =>
    obtain rfl := Option.some.inj hstep
    split_ifs
    · exact leads_goto (leads_extract hleads)
    · exact leads_goto hleads
  | delete =>
    obtain ⟨fs, -, rfl⟩ := Option.map_eq_some_iff.mp hstep
    exact fun other heq => h other heq
  | parent => exact Option.some.inj hstep ▸ leads_after trivial
  | replace =>
    obtain rfl := Option.some.inj hstep
    split
    · exact leads_goto trivial
    · exact leads_goto trivial
  | mark => exact Option.some.inj hstep ▸ leads_after trivial
  | write => exact Option.some.inj hstep ▸ leads_goto trivial
  | clean raised =>
    obtain ⟨fs, -, rfl⟩ := Option.map_eq_some_iff.mp hstep
    exact fun other heq => h other heq

theorem leads_finish
    (harchive : ∀ identity, ∀ items ∈ archive identity, ∀ item ∈ sounds items,
      Confined gamefiles item) {phase : Phase} (hstep : w.finish archive phase = some w') :
    w'.Leads gamefiles := by
  cases phase with
  | clear => exact Option.some.inj hstep ▸ leads_openArchive harchive
  | delete => exact Option.some.inj hstep ▸ leads_goto trivial
  | clean raised => exact Option.some.inj hstep ▸ leads_ended fun _ => by cases raised <;> simp
  | folders | copying | parent | replace | mark | write => cases hstep

theorem leads_step
    (harchive : ∀ identity, ∀ items ∈ archive identity, ∀ item ∈ sounds items,
      Confined gamefiles item) {event : Event} (h : w.Leads gamefiles)
    (hstep : w.step gamefiles archive event = some w') : w'.Leads gamefiles := by
  unfold World.step at hstep
  split at hstep
  · exact leads_advance ‹_› h hstep
  · exact leads_finish harchive hstep
  · split_ifs at hstep
    exact Option.some.inj hstep ▸ leads_goto trivial
  · exact Option.some.inj hstep ▸ leads_ended fun _ => by simp
  · cases hstep
  · cases hstep
  · obtain rfl := Option.some.inj hstep
    split_ifs
    · exact leads_ended fun _ => by simp
    · exact leads_goto trivial
  · exact Option.some.inj hstep ▸ leads_ended fun _ => by simp
  · cases hstep

/-- What is made next is one of the paths that the extraction has still to make. -/
theorem leadsAlong_of_making (h : w.Leads gamefiles) {names : List CString}
    (hmaking : w.making gamefiles = some names) : LeadsAlong gamefiles names := by
  unfold World.making at hmaking
  split at hmaking
  · rename_i folder more item todo hstatus
    obtain ⟨-, -, rfl⟩ := Option.map_eq_some_iff.mp hmaking
    exact (h _ hstatus).1 _ List.mem_cons_self
  · rename_i item todo hstatus
    obtain ⟨-, -, rfl⟩ := Option.map_eq_some_iff.mp hmaking
    exact (h _ hstatus).2.1
  · cases hmaking

theorem leads_run
    (harchive : ∀ identity, ∀ items ∈ archive identity, ∀ item ∈ sounds items,
      Confined gamefiles item) {events : List Event} (hidle : w.status = .idle)
    (hrun : (prepareAudio gamefiles archive).run w events = some w') : w'.Leads gamefiles :=
  Machine.invariant (I := World.Leads gamefiles)
    (fun _ _ _ h hstep => leads_step harchive h hstep)
    (fun _ hphase => by cases hidle.symm.trans hphase) hrun

/-- A path at which a step of the extraction changes something is the one that it makes. -/
theorem making_of_changed {folders : List (List CString)} {item : Member} {todo : List Member}
    (hstatus : w.status = .running (.folders folders item todo)) {entry : Path}
    (hstep : w.step gamefiles archive (.advance entry) = some w') {p : Path}
    (hchanged : w'.fs.node p ≠ w.fs.node p) :
    ∃ names, w.making gamefiles = some names ∧ p = lexical gamefiles names := by
  simp only [World.step, hstatus] at hstep
  cases folders with
  | cons names more =>
    obtain rfl := Option.some.inj hstep
    cases hmkdir : w.fs.mkdir gamefiles names with
    | none =>
      rw [hmkdir] at hchanged
      exact absurd rfl hchanged
    | some fs =>
      rw [hmkdir] at hchanged
      obtain ⟨q, hq, hresult⟩ := Option.bind_eq_some_iff.mp hmkdir
      split_ifs at hresult with hdirectory hnone
      · obtain rfl := Option.some.inj hresult
        exact absurd rfl hchanged
      · obtain rfl := Option.some.inj hresult
        obtain rfl := FileSystem.eq_of_node_put_ne hchanged
        refine ⟨names, ?_, FileSystem.lexical_of_resolve hq⟩
        simp [World.making, hstatus, hq, hdirectory, hnone]
  | nil =>
    obtain rfl := Option.some.inj hstep
    cases hcreate : w.fs.create gamefiles (stageName :: item.parts) with
    | none =>
      rw [hcreate] at hchanged
      exact absurd rfl hchanged
    | some made =>
      rw [hcreate] at hchanged
      obtain ⟨hq, -, hfs⟩ := FileSystem.create_eq_some hcreate
      have hchanged : made.1.node p ≠ w.fs.node p := hchanged
      rw [hfs] at hchanged
      obtain rfl := FileSystem.eq_of_node_put_ne hchanged
      exact ⟨_, by simp [World.making, hstatus, hcreate], FileSystem.lexical_of_resolve hq⟩

/-- In a run on confined sounds, the extraction makes nothing anywhere else. -/
theorem extraction_along_stage
    (harchive : ∀ identity, ∀ items ∈ archive identity, ∀ item ∈ sounds items,
      Confined gamefiles item) {events : List Event} {w'' : World} (hidle : w.status = .idle)
    (hrun : (prepareAudio gamefiles archive).run w events = some w')
    {folders : List (List CString)} {item : Member} {todo : List Member}
    (hstatus : w'.status = .running (.folders folders item todo)) {entry : Path}
    (hstep : w'.step gamefiles archive (.advance entry) = some w'') {p : Path}
    (hchanged : w''.fs.node p ≠ w'.fs.node p) : AlongStage gamefiles p := by
  obtain ⟨names, hmaking, rfl⟩ := making_of_changed hstatus hstep hchanged
  exact leadsAlong_of_making (leads_run harchive hidle hrun) hmaking

end Confined

/-! ## A member that is not confined -/

section Stray

variable {gamefiles : Path} {fs : FileSystem}

/-- Names lead where they are spelled if there is a directory after each of them. -/
theorem resolve_of_directories {base : Path} {names : List CString}
    (h : ∀ taken, taken <+: names → taken ≠ names → fs.IsDirectory (lexical base taken)) :
    fs.resolve base names = some (lexical base names) := by
  induction names generalizing base with
  | nil => rfl
  | cons name names ih =>
    have hbase : fs.IsDirectory base := h [] List.nil_prefix (List.cons_ne_nil _ _).symm
    have hrest := fun taken (htaken : taken <+: names) (hne : taken ≠ names) =>
      h (name :: taken) (List.cons_prefix_cons.mpr ⟨rfl, htaken⟩) fun heq =>
        hne (List.cons.inj heq).2
    rw [FileSystem.resolve, if_pos hbase]
    exact ih hrest

/-- A file system before a stray path is made: there are directories only, all of them along the
stage, and one after each of the names that have been followed. -/
structure Followed (gamefiles : Path) (fs : FileSystem) (done : List CString) : Prop where
  directories : ∀ p, fs.node p = none ∨ fs.node p = some .directory
  along : ∀ p, fs.IsDirectory p → AlongStage gamefiles p
  followed : ∀ taken, taken <+: done → fs.IsDirectory (lexical gamefiles taken)

theorem Followed.resolve {done : List CString} (h : Followed gamefiles fs done)
    (name : CString) :
    fs.resolve gamefiles (done ++ [name]) = some (lexical gamefiles (done ++ [name])) :=
  resolve_of_directories fun taken htaken hne =>
    h.followed taken ((List.prefix_concat_iff.mp htaken).resolve_left hne)

/-- Nothing is at a path that does not lead along the stage. -/
theorem Followed.not_there {done names : List CString} (h : Followed gamefiles fs done)
    (hstray : ¬ LeadsAlong gamefiles names) :
    ¬ fs.IsDirectory (lexical gamefiles names) ∧ fs.node (lexical gamefiles names) = none := by
  have hdirectory : ¬ fs.IsDirectory (lexical gamefiles names) := mt (h.along _) hstray
  exact ⟨hdirectory, (h.directories _).resolve_right fun hnode => hdirectory (.inr hnode)⟩

/-- What has been followed leads along the stage, so a stray part takes the next name. -/
theorem Followed.next_taken {done taken rest : List CString} {name : CString}
    (h : Followed gamefiles fs done) (htaken : taken <+: name :: rest)
    (hstray : ¬ LeadsAlong gamefiles (done ++ taken)) :
    ∃ more, taken = name :: more ∧ more <+: rest := by
  cases taken with
  | nil =>
    rw [List.append_nil] at hstray
    exact absurd (h.along _ (h.followed done List.prefix_rfl)) hstray
  | cons first more =>
    obtain ⟨rfl, hmore⟩ := List.cons_prefix_cons.mp htaken
    exact ⟨more, rfl, hmore⟩

/-- A folder along the stage is made, or there already. -/
theorem Followed.mkdir {done : List CString} {name : CString} (h : Followed gamefiles fs done)
    (hleads : LeadsAlong gamefiles (done ++ [name])) :
    ∃ fs', fs.mkdir gamefiles (done ++ [name]) = some fs' ∧
      Followed gamefiles fs' (done ++ [name]) := by
  rw [FileSystem.mkdir, h.resolve name, Option.bind_some]
  by_cases hdirectory : fs.IsDirectory (lexical gamefiles (done ++ [name]))
  · refine ⟨fs, if_pos hdirectory, h.directories, h.along, fun taken htaken => ?_⟩
    rcases List.prefix_concat_iff.mp htaken with rfl | htaken
    · exact hdirectory
    · exact h.followed taken htaken
  · have hnone : fs.node (lexical gamefiles (done ++ [name])) = none :=
      (h.directories _).resolve_right fun hnode => hdirectory (.inr hnode)
    rw [if_neg hdirectory, if_pos hnone]
    refine ⟨_, rfl, fun p => ?_, fun p hp => ?_, fun taken htaken => ?_⟩
    · rw [FileSystem.node_put]
      split_ifs
      · exact .inr rfl
      · exact h.directories p
    · rcases hp with rfl | hp
      · exact .inr List.nil_prefix
      · rw [FileSystem.node_put] at hp
        split_ifs at hp with heq
        · exact heq ▸ hleads
        · exact h.along p (.inr hp)
    · rcases List.prefix_concat_iff.mp htaken with rfl | htaken
      · right
        rw [FileSystem.node_put, if_pos rfl]
      · rcases h.followed taken htaken with hroot | hnode
        · exact .inl hroot
        · right
          rw [FileSystem.node_put]
          split_ifs
          · rfl
          · exact hnode

/-- The folders to make when some of a file's names have been followed. -/
def foldersFrom (done : List CString) : List CString → List (List CString)
  | [] | [_] => []
  | name :: next :: rest => (done ++ [name]) :: foldersFrom (done ++ [name]) (next :: rest)

theorem inits_eq_cons {α : Type} (l : List α) : l.inits = [] :: l.inits.tail := by
  cases l <;> rfl

theorem foldersFrom_eq (done : List CString) {names : List CString} :
    foldersFrom done names = names.dropLast.inits.tail.map (done ++ ·) := by
  induction names generalizing done with
  | nil => rfl
  | cons name names ih =>
    cases names with
    | nil => rfl
    | cons next rest =>
      rw [foldersFrom, ih, List.dropLast_cons_cons, List.inits_cons, List.tail_cons,
        inits_eq_cons (next :: rest).dropLast]
      simp [Function.comp_def]

/-- While a member is followed with one name after the other not leading along the stage, the
run gets to the first of them. -/
theorem making_stray (archive : CString → Option (List Member)) {item : Member}
    {todo : List Member} {rest : List CString} (done : List CString)
    (hitem : stageName :: item.parts = done ++ rest) (hrest : rest ≠ [])
    {w : World} (hstatus : w.status = .running (.folders (foldersFrom done rest) item todo))
    (h : Followed gamefiles w.fs done)
    (hstray : ∃ taken, taken <+: rest ∧ ¬ LeadsAlong gamefiles (done ++ taken)) :
    ∃ events w' names, (prepareAudio gamefiles archive).run w events = some w' ∧
      w'.making gamefiles = some names ∧ ¬ LeadsAlong gamefiles names := by
  induction rest generalizing done w with
  | nil => exact absurd rfl hrest
  | cons name rest ih =>
    obtain ⟨taken, htaken, hstray⟩ := hstray
    obtain ⟨more, rfl, hmore⟩ := h.next_taken htaken hstray
    cases rest with
    | nil =>
      obtain rfl := List.prefix_nil.mp hmore
      refine ⟨[], w, done ++ [name], rfl, ?_, hstray⟩
      simp only [World.making, hstatus, foldersFrom, FileSystem.create, hitem, h.resolve name,
        Option.bind_some, if_neg (h.not_there hstray).1, Option.map_some]
    | cons next rest =>
      by_cases hleads : LeadsAlong gamefiles (done ++ [name])
      · obtain ⟨fs', hmkdir, hfollowed⟩ := h.mkdir hleads
        let made := { w with fs := fs' }.goto
          (.folders (foldersFrom (done ++ [name]) (next :: rest)) item todo)
        have hstep : w.step gamefiles archive (.advance []) = some made := by
          simp only [World.step, hstatus, World.advance, foldersFrom, hmkdir, World.after]
          rfl
        obtain ⟨events, w', names, hrun, hmaking, hnames⟩ := ih (w := made) (done ++ [name])
          (by rw [hitem, List.append_assoc, List.singleton_append]) (List.cons_ne_nil _ _) rfl
          hfollowed ⟨more, hmore, by rwa [List.append_assoc, List.singleton_append]⟩
        refine ⟨.advance [] :: events, w', names, ?_, hmaking, hnames⟩
        rw [Machine.run_cons]
        exact (congrArg (Option.bind · _) hstep).trans hrun
      · refine ⟨[], w, done ++ [name], rfl, ?_, hleads⟩
        obtain ⟨hdirectory, hnode⟩ := h.not_there hleads
        simp [World.making, hstatus, foldersFrom, h.resolve name, hdirectory, hnode]

/-- The game's folder and the folders above it. -/
def bareFolders (gamefiles : Path) : FileSystem :=
  ⟨gamefiles.inits.tail.map fun p => (p, .directory)⟩

theorem node_bareFolders {p : Path} {n : Node} (h : (bareFolders gamefiles).node p = some n) :
    p <+: gamefiles ∧ n = .directory := by
  obtain ⟨e, hfind, rfl⟩ := Option.map_eq_some_iff.mp h
  obtain ⟨q, hq, rfl⟩ := List.mem_map.mp (List.mem_of_find?_eq_some hfind)
  have hp : q = p := by simpa using List.find?_some hfind
  exact ⟨hp ▸ (List.mem_inits _ _).mp (List.mem_of_mem_tail hq), rfl⟩

theorem bareFolders_directory : (bareFolders gamefiles).IsDirectory gamefiles := by
  by_cases hroot : gamefiles = []
  · exact .inl hroot
  · right
    have hentry : (gamefiles, Node.directory) ∈ (bareFolders gamefiles).entries := by
      refine List.mem_map.mpr ⟨gamefiles, ?_, rfl⟩
      have hmem := (List.mem_inits gamefiles gamefiles).mpr List.prefix_rfl
      rw [inits_eq_cons] at hmem
      exact (List.mem_cons.mp hmem).resolve_left hroot
    cases hnode : (bareFolders gamefiles).node gamefiles with
    | some n => rw [(node_bareFolders hnode).2]
    | none =>
      rw [FileSystem.node, Option.map_eq_none_iff, List.find?_eq_none] at hnode
      exact absurd (decide_eq_true rfl) (hnode _ hentry)

theorem followed_bareFolders : Followed gamefiles (bareFolders gamefiles) [] where
  directories p := by
    cases hnode : (bareFolders gamefiles).node p with
    | none => exact .inl rfl
    | some n => exact .inr (by rw [(node_bareFolders hnode).2])
  along p hp := by
    right
    rcases hp with rfl | hp
    · exact List.nil_prefix
    · exact ((node_bareFolders hp).1.trans (List.prefix_append _ _)).trans (List.prefix_append _ _)
  followed taken htaken := by
    rw [List.prefix_nil.mp htaken]
    exact bareFolders_directory

theorem not_upToDate_bareFolders :
    ¬ World.upToDate gamefiles ⟨bareFolders gamefiles, ⟨0, 0⟩, .idle, false⟩ := by
  rintro ⟨hmarker, -⟩
  obtain ⟨content, hfile, -⟩ := markerText_eq_some.mp hmarker
  cases (node_bareFolders hfile).2

/-- The required sounds, without content. -/
def requiredSounds : List Member := required.map fun filename => ⟨filename, []⟩

theorem sounds_cons_required {item : Member} (hselected : item ∈ sounds [item]) :
    sounds (item :: requiredSounds) = item :: requiredSounds := by
  have hrequired : sounds requiredSounds = requiredSounds := by decide +kernel
  have hitem : sounds [item] = [item] := List.filter_eq_self.mpr fun other hother =>
    List.mem_singleton.mp hother ▸ (List.mem_filter.mp hselected).2
  calc sounds ([item] ++ requiredSounds)
      = sounds [item] ++ sounds requiredSounds := List.filter_append ..
    _ = item :: requiredSounds := by rw [hitem, hrequired, List.singleton_append]

theorem required_found (item : Member) : required.all fun filename =>
    (item :: requiredSounds).any fun item => item.filename == filename := by
  refine List.all_eq_true.mpr fun filename hmem => List.any_eq_true.mpr ⟨⟨filename, []⟩, ?_⟩
  exact ⟨List.mem_cons_of_mem _ (List.mem_map_of_mem hmem), beq_self_eq_true _⟩

/-- From an archive that begins with the member, a run in the bare folders comes to its
folders. -/
theorem starts_with_member (gamefiles : Path) {item : Member} (hselected : item ∈ sounds [item]) :
    ∃ w', (prepareAudio gamefiles fun _ => some (item :: requiredSounds)).run
        ⟨bareFolders gamefiles, ⟨0, 0⟩, .idle, false⟩ [.start, .finish] = some w' ∧
      w'.status = .running (.folders (foldersFrom [] (stageName :: item.parts)) item
        requiredSounds) ∧
      w'.fs = bareFolders gamefiles := by
  have hfolders : item.folders = foldersFrom [] (stageName :: item.parts) := by
    obtain ⟨rest, hparts⟩ := parts_of_mem_sounds hselected
    rw [foldersFrom_eq, Member.folders, hparts]
    simp [soundsParts]
  refine ⟨World.goto ⟨bareFolders gamefiles, ⟨0, 0⟩, .running .clear, false⟩
    (.folders item.folders item requiredSounds), ?_, by rw [hfolders]; rfl, rfl⟩
  have hstart : World.step gamefiles (fun _ => some (item :: requiredSounds))
      ⟨bareFolders gamefiles, ⟨0, 0⟩, .idle, false⟩ .start =
      some ⟨bareFolders gamefiles, ⟨0, 0⟩, .running .clear, false⟩ := by
    simp only [World.step, if_neg not_upToDate_bareFolders]
    rfl
  have hopen : World.step gamefiles (fun _ => some (item :: requiredSounds))
      ⟨bareFolders gamefiles, ⟨0, 0⟩, .running .clear, false⟩ .finish =
      some (World.goto ⟨bareFolders gamefiles, ⟨0, 0⟩, .running .clear, false⟩
        (.folders item.folders item requiredSounds)) := by
    simp only [World.step, World.finish, World.openArchive, sounds_cons_required hselected,
      required_found]
    simp [extract]
  rw [Machine.run_cons]
  refine (congrArg (Option.bind · _) hstart).trans ?_
  rw [Option.bind_some, Machine.run_cons]
  exact (congrArg (Option.bind · _) hopen).trans rfl

/-- What is made for a member that is not confined leaves the stage, in some run. -/
theorem strays_of_not_confined {item : Member} (hselected : item ∈ sounds [item])
    (h : ¬ Confined gamefiles item) :
    ∃ events w' names, (prepareAudio gamefiles fun _ => some (item :: requiredSounds)).run
        ⟨bareFolders gamefiles, ⟨0, 0⟩, .idle, false⟩ events = some w' ∧
      w'.making gamefiles = some names ∧ ¬ LeadsAlong gamefiles names := by
  obtain ⟨w, hfirst, hstatus, hfs⟩ := starts_with_member gamefiles hselected
  simp only [Confined, not_forall] at h
  obtain ⟨taken, htaken, hstray⟩ := h
  have hbegin : stageName :: taken <+: stageName :: item.parts :=
    List.cons_prefix_cons.mpr ⟨rfl, (List.mem_inits _ _).mp htaken⟩
  have hfollowed : Followed gamefiles w.fs [] := hfs ▸ followed_bareFolders
  obtain ⟨events, w', names, hrun, hmaking, hnames⟩ := making_stray
    (fun _ => some (item :: requiredSounds)) [] rfl (List.cons_ne_nil _ _) hstatus hfollowed
    ⟨_, hbegin, hstray⟩
  refine ⟨[.start, .finish] ++ events, w', names, ?_, hmaking, hnames⟩
  rw [Machine.run_append, hfirst, Option.bind_some, hrun]

end Stray

/-- If every sound of the archive is confined, then in every run all that is made while the
archive is extracted leads along the stage. A sound that is not confined leads a run of some
archive out of it. -/
theorem staging_confined (gamefiles : Path) :
    (∀ archive, (∀ identity, ∀ items ∈ archive identity, ∀ item ∈ sounds items,
        Confined gamefiles item) →
      ∀ w events w' names, w.status = .idle →
        (prepareAudio gamefiles archive).run w events = some w' →
        w'.making gamefiles = some names → LeadsAlong gamefiles names) ∧
    ∀ item, item ∈ sounds [item] → ¬ Confined gamefiles item →
      ∃ archive w events w' names, (∀ identity, ∃ items ∈ archive identity, item ∈ sounds items) ∧
        w.status = .idle ∧ (prepareAudio gamefiles archive).run w events = some w' ∧
        w'.making gamefiles = some names ∧ ¬ LeadsAlong gamefiles names := by
  constructor
  · intro archive harchive w events w' names hidle hrun hmaking
    exact leadsAlong_of_making (leads_run harchive hidle hrun) hmaking
  · intro item hselected hstray
    obtain ⟨events, w', names, hrun, hmaking, hnames⟩ := strays_of_not_confined hselected hstray
    refine ⟨_, _, events, w', names, fun identity => ⟨_, rfl, ?_⟩, rfl, hrun, hmaking, hnames⟩
    exact List.mem_filter.mpr ⟨List.mem_cons_self, (List.mem_filter.mp hselected).2⟩

def openedRun : List Event :=
  [.setObb otherObb, .start, .finish] ++ extractOther.take 24

/-- The other archive's run comes to the file of the extra sound, which is opened. -/
theorem staging_confined_sample :
    LeadsAlong sampleFolder (stageName :: extraSound.parts) := by
  have harchive : ∀ identity, ∀ items ∈ sampleArchive identity, ∀ item ∈ sounds items,
      Confined sampleFolder item := by
    intro identity items hitems
    have hboth : items = sampleSounds 1 ∨ items = sampleSounds 2 ++ [extraSound] := by
      unfold sampleArchive at hitems
      split_ifs at hitems
      · exact .inl (Option.some.inj hitems).symm
      · exact .inr (Option.some.inj hitems).symm
    rcases hboth with rfl | rfl
    · decide +kernel
    · decide +kernel
  have hrun : (prepareAudio sampleFolder sampleArchive).run sampleWorld openedRun =
      some (afterRun openedRun) := by decide +kernel
  have hmaking : (afterRun openedRun).making sampleFolder =
      some (stageName :: extraSound.parts) := by decide +kernel
  exact (staging_confined sampleFolder).1 sampleArchive harchive sampleWorld openedRun
    (afterRun openedRun) (stageName :: extraSound.parts) rfl hrun hmaking

/-- A name that takes back the folder of the sounds. -/
def strayMember : Member := ⟨cstr "published/sounds/../stray", [0]⟩

def strayArchive : CString → Option (List Member) := fun _ => some (strayMember :: sampleSounds 1)

/-- The stage's sounds are left at the fourth folder, and a file is opened beside them. -/
theorem stray_not_confined :
    ∃ events w' names, (prepareAudio sampleFolder strayArchive).run sampleWorld events = some w' ∧
      sampleWorld.status = .idle ∧ w'.making sampleFolder = some names ∧
      lexical sampleFolder names = stage sampleFolder ++ [published, cstr "stray"] ∧
      ¬ LeadsAlong sampleFolder names := by
  refine ⟨.start :: .finish :: List.replicate 4 (.advance []),
    ((prepareAudio sampleFolder strayArchive).run sampleWorld
      (.start :: .finish :: List.replicate 4 (.advance []))).getD sampleWorld,
    stageName :: strayMember.parts, ?_, rfl, ?_, ?_, ?_⟩
  · decide +kernel
  · decide +kernel
  · decide +kernel
  · decide +kernel

end NfsmwRuntime.Launch
