import Mathlib.Data.List.Infix
import NfsmwRuntime.Library.Files
import NfsmwRuntime.Library.Transition

/-!
# Preparing the game's audio

`prepare_audio.py` unpacks the sounds of the OBB into a stage, deletes the old sounds, renames
the stage's sounds into their place, and writes the size and the time of the OBB to a marker.
A run that finds the marker of the OBB and three of the sounds has nothing to do.

A run is cut into its file-system steps, so that it may end between any two of them.
-/

namespace NfsmwRuntime.Launch

open Library

/-! ## The OBB -/

/-- A member of the archive. -/
structure Member where
  filename : CString
  content : List UInt8
  deriving DecidableEq, Repr

def slash : UInt8 := 47

def Member.isDir (item : Member) : Bool := item.filename.getLast? = some slash

/-- The parts of a `Path`, which has no empty part and no `.`. -/
def pathParts (filename : CString) : List CString :=
  (filename.splitOn slash).filter fun part => part ≠ [] ∧ part ≠ cstr "."

def Member.parts (item : Member) : List CString := pathParts item.filename

/-- `PREFIX`. -/
def soundsStart : CString := cstr "published/sounds/"

/-- `REQUIRED`. -/
def required : List CString :=
  [cstr "published/sounds/music/loading_01.mp3", cstr "published/sounds/ui/ui.fev",
    cstr "published/sounds/ui/ui.fsb"]

/-- The members that are prepared. -/
def sounds (items : List Member) : List Member :=
  items.filter fun item => soundsStart.isPrefixOf item.filename ∧ ¬ item.isDir

/-- What `stat` says of the OBB. -/
structure Obb where
  size : Nat
  mtimeNs : Int
  deriving DecidableEq, Repr

def decimal (n : Nat) : CString := (Nat.toDigits 10 n).map fun c => c.toNat.toUInt8

def signedDecimal : Int → CString
  | .ofNat n => decimal n
  | .negSucc n => 45 :: decimal (n + 1)

/-- `"%d:%d"` of the size and the time. -/
def Obb.identity (obb : Obb) : CString := decimal obb.size ++ 58 :: signedDecimal obb.mtimeNs

/-! ## A run -/

/-- What a run does next. -/
inductive Phase
  /-- `rmtree(stage)` before the archive is opened. -/
  | clear
  /-- `mkdir` of the folders of a member that are left to make. -/
  | folders (names : List (List CString)) (item : Member) (todo : List Member)
  /-- `copyfileobj` to an open file. -/
  | copying (file : Path) (rest : List UInt8) (todo : List Member)
  /-- `rmtree(target)`. -/
  | delete
  /-- `mkdir` of the target's parent. -/
  | parent
  /-- `os.replace`. -/
  | replace
  /-- The marker is opened and so emptied. -/
  | mark
  /-- The identity is written to the marker. -/
  | write
  /-- `rmtree(stage)` of the `finally` clause, with or without an exception to raise. -/
  | clean (raised : Bool)
  deriving DecidableEq, Repr

inductive Status
  | idle
  | running (phase : Phase)
  | returned
  | raised
  deriving DecidableEq, Repr

/-- The file system, the OBB, and the current run. The program does not see `touched`: the
target has been changed since the marker was last written. -/
structure World where
  fs : FileSystem
  obb : Obb
  status : Status := .idle
  touched : Bool := false
  deriving DecidableEq, Repr

/-- What happens to a world. A file-system step of `rmtree` removes the given entry. It ignores
errors, so that it may be over with entries left that it could not remove. -/
inductive Event
  | start
  | advance (entry : Path)
  | finish
  | fail
  | cut
  | setObb (obb : Obb)
  deriving DecidableEq, Repr

def stageName : CString := cstr ".nfsmw-audio-stage"
def markerName : CString := cstr ".nfsmw-audio-source"
def published : CString := cstr "published"
def soundsParts : List CString := [published, cstr "sounds"]

/-- The folders above a member in the stage, the stage first. -/
def Member.folders (item : Member) : List (List CString) :=
  (stageName :: item.parts.dropLast).inits.tail

/-- The head of the loop over the members. -/
def extract : List Member → Phase
  | [] => .delete
  | item :: todo => .folders item.folders item todo

section Program

variable (gamefiles : Path)

def stage : Path := gamefiles ++ [stageName]
def marker : Path := gamefiles ++ [markerName]
def target : Path := gamefiles ++ soundsParts

/-- `marker.read_text`, which drops what is not ASCII, if the marker is a file. -/
def markerText (fs : FileSystem) : Option CString :=
  match fs.node (marker gamefiles) with
  | some (.file bytes) => some (bytes.filter (· < 128))
  | _ => none

/-- The test for the early return. -/
def World.upToDate (w : World) : Prop :=
  markerText gamefiles w.fs = some w.obb.identity ∧
    ∀ filename ∈ required, w.fs.isFile (gamefiles ++ pathParts filename)

instance (w : World) : Decidable (w.upToDate gamefiles) := inferInstanceAs (Decidable (_ ∧ _))

/-- One step of `rmtree`. -/
def removeBelow (fs : FileSystem) (root entry : Path) : Option FileSystem :=
  if root <+: entry then fs.remove entry else none

def World.goto (w : World) (phase : Phase) : World := { w with status := .running phase }

/-- An exception goes to the `finally` clause. -/
def World.raise (w : World) : World := w.goto (.clean true)

/-- Go on if the file system has done what it was asked for. -/
def World.after (w : World) (result : Option FileSystem) (phase : Phase) : World :=
  match result with
  | some fs => { w with fs := fs }.goto phase
  | none => w.raise

/-- The archive is opened and its members are looked through. -/
def World.openArchive (w : World) (archive : Option (List Member)) : World :=
  match archive with
  | none => w.raise
  | some items =>
    if sounds items = [] ∨
        ¬ required.all fun filename => (sounds items).any fun item => item.filename == filename
    then w.raise
    else w.goto (extract (sounds items))

/-- What `copyfileobj` copies at once. -/
def chunkSize : Nat := 1024 * 1024

/-- The next step of a run. -/
def World.advance (w : World) (entry : Path) : Phase → Option World
  | .clear | .clean _ =>
    (removeBelow w.fs (stage gamefiles) entry).map fun fs => { w with fs := fs }
  | .folders (names :: more) item todo =>
    some (w.after (w.fs.mkdir gamefiles names) (.folders more item todo))
  | .folders [] item todo =>
    some (match w.fs.create gamefiles (stageName :: item.parts) with
      | some (fs, file) => { w with fs := fs }.goto (.copying file item.content todo)
      | none => w.raise)
  | .copying file rest todo =>
    some (if rest = [] then w.goto (extract todo)
      else { w with fs := w.fs.append file (rest.take chunkSize) }.goto
        (.copying file (rest.drop chunkSize) todo))
  | .delete =>
    (removeBelow w.fs (target gamefiles) entry).map fun fs =>
      { w with fs := fs, touched := true }
  | .parent => some (w.after (w.fs.mkdir gamefiles [published]) .replace)
  | .replace =>
    some (match w.fs.rename (stage gamefiles ++ soundsParts) (target gamefiles) with
      | some fs => { w with fs := fs, touched := true }.goto .mark
      | none => w.raise)
  | .mark => some (w.after ((w.fs.create gamefiles [markerName]).map Prod.fst) .write)
  | .write => some ({ w with
      fs := w.fs.append (marker gamefiles) w.obb.identity
      touched := false }.goto (.clean false))

variable (archive : CString → Option (List Member))

/-- What comes after an `rmtree`. -/
def World.finish (w : World) : Phase → Option World
  | .clear => some (w.openArchive (archive w.obb.identity))
  | .delete => some (w.goto .parent)
  | .clean raised => some { w with status := if raised then .raised else .returned }
  | _ => none

/-- The phases of the `try` block, in which an exception may be raised. -/
def Phase.raises : Phase → Bool
  | .clear | .clean _ => false
  | _ => true

/-- A run starts, goes on, raises an exception or is cut off. The OBB is replaced between
runs. -/
def World.step (w : World) (event : Event) : Option World :=
  match event, w.status with
  | .advance entry, .running phase => w.advance gamefiles entry phase
  | .finish, .running phase => w.finish archive phase
  | .fail, .running phase => if phase.raises then some w.raise else none
  | .cut, .running _ => some { w with status := .idle }
  | .start, .running _ | .setObb _, .running _ => none
  | .start, _ =>
    some (if w.upToDate gamefiles then { w with status := .returned } else w.goto .clear)
  | .setObb obb, _ => some { w with obb := obb, status := .idle }
  | _, _ => none

def prepareAudio : Machine World Event := ⟨World.step gamefiles archive⟩

end Program

/-! ## The identity -/

theorem decimal_ascii (n : Nat) : ∀ b ∈ decimal n, b < 128 := by
  intro b hb
  obtain ⟨c, hc, rfl⟩ := List.mem_map.mp hb
  have hdigit := Nat.isDigit_of_mem_toDigits (by decide) (by decide) hc
  have hle : c.toNat ≤ 57 := by
    have hval := (of_decide_eq_true (Bool.and_eq_true_iff.mp hdigit).2)
    exact UInt32.le_iff_toNat_le.mp hval
  rw [UInt8.lt_iff_toNat_lt, Nat.toUInt8_eq, UInt8.toNat_ofNat']
  show c.toNat % 256 < 128
  omega

theorem signedDecimal_ascii (n : Int) : ∀ b ∈ signedDecimal n, b < 128 := by
  cases n with
  | ofNat n => exact decimal_ascii n
  | negSucc n => exact List.forall_mem_cons.mpr ⟨by decide, decimal_ascii (n + 1)⟩

theorem Obb.identity_ne_nil (obb : Obb) : obb.identity ≠ [] :=
  List.append_ne_nil_of_right_ne_nil _ (List.cons_ne_nil _ _)

/-- The marker is read as it was written. -/
theorem Obb.identity_filter (obb : Obb) :
    obb.identity.filter (· < 128) = obb.identity := by
  refine List.filter_eq_self.mpr fun b hb => decide_eq_true ?_
  rcases List.mem_append.mp hb with hsize | htime
  · exact decimal_ascii _ b hsize
  · rcases List.mem_cons.mp htime with rfl | htime
    · decide
    · exact signedDecimal_ascii _ b htime

/-! ## What a run prepares -/

section Prepared

variable (gamefiles : Path) (fs : FileSystem) (items : List Member)

/-- The target has the archive's sounds, each with its content, and no other file. -/
structure Prepared : Prop where
  present : ∀ item ∈ sounds items, ∃ rest, item.parts = soundsParts ++ rest ∧
    fs.node (target gamefiles ++ rest) = some (.file item.content)
  nothing_else : ∀ rest content, fs.node (target gamefiles ++ rest) = some (.file content) →
    ∃ item ∈ sounds items, item.parts = soundsParts ++ rest ∧ item.content = content

/-- Every file among the stage's sounds has the path of one of the archive's sounds. -/
def OnlyMembers : Prop :=
  ∀ rest content, fs.node (stage gamefiles ++ (soundsParts ++ rest)) = some (.file content) →
    ∃ item ∈ sounds items, item.parts = soundsParts ++ rest

/-- The stage has some members, except for the path of one that is being copied, and no sound
that is not a member. -/
structure Staged (done : List Member) (copied : Option (List CString)) : Prop where
  present : ∀ item ∈ done, copied ≠ some item.parts →
    fs.node (stage gamefiles ++ item.parts) = some (.file item.content)
  only : OnlyMembers gamefiles fs items

/-- No sound is outside of its folder, and no two have one path and different contents. -/
def Plain : Prop :=
  (∀ item ∈ sounds items, parentName ∉ item.parts) ∧
    ∀ item ∈ sounds items, ∀ other ∈ sounds items,
      item.parts = other.parts → item.content = other.content

instance : Decidable (Plain items) := inferInstanceAs (Decidable (_ ∧ _))

end Prepared

section Paths

variable {gamefiles : Path} {items : List Member} {item : Member}

theorem pathParts_sounds (tail : CString) :
    pathParts (soundsStart ++ tail) = soundsParts ++ pathParts tail := by
  have hstart : soundsStart ++ tail = published ++ slash :: (cstr "sounds" ++ slash :: tail) := by
    have hsplit : soundsStart = published ++ slash :: (cstr "sounds" ++ [slash]) := by decide
    rw [hsplit, List.append_assoc, List.cons_append, List.append_assoc]
    rfl
  unfold pathParts
  rw [hstart, List.splitOn_append_cons_self_of_not_mem (by decide),
    List.splitOn_append_cons_self_of_not_mem (by decide)]
  rfl

/-- A sound's path is below the folder of the sounds. -/
theorem parts_of_mem_sounds (h : item ∈ sounds items) :
    ∃ rest, item.parts = soundsParts ++ rest := by
  have hprefix := (List.mem_filter.mp h).2
  simp only [decide_eq_true_eq, List.isPrefixOf_iff_prefix] at hprefix
  obtain ⟨tail, htail⟩ := hprefix.1
  exact ⟨pathParts tail, by rw [Member.parts, ← htail, pathParts_sounds]⟩

theorem folder_plain (h : parentName ∉ item.parts) {folder : List CString}
    (hfolder : folder ∈ item.folders) : parentName ∉ folder := by
  rw [Member.folders, List.inits_cons, List.tail_cons, List.mem_map] at hfolder
  obtain ⟨names, hnames, rfl⟩ := hfolder
  refine List.not_mem_cons_of_ne_of_not_mem (by decide) fun hmem => h ?_
  exact List.mem_of_mem_dropLast (((List.mem_inits _ _).mp hnames).mem hmem)

theorem stage_append (rest : Path) : stage gamefiles ++ rest = gamefiles ++ stageName :: rest := by
  rw [stage, List.append_assoc]
  rfl

theorem target_not_prefix_stage (rest : Path) : ¬ target gamefiles <+: stage gamefiles ++ rest := by
  rw [stage_append, target, List.prefix_append_right_inj, soundsParts, List.cons_prefix_cons]
  exact fun h => absurd h.1 (by decide)

theorem marker_not_prefix_stage (rest : Path) : ¬ marker gamefiles <+: stage gamefiles ++ rest := by
  rw [stage_append, marker, List.prefix_append_right_inj, List.cons_prefix_cons]
  exact fun h => absurd h.1 (by decide)

theorem stage_not_prefix_target (rest : Path) : ¬ stage gamefiles <+: target gamefiles ++ rest := by
  rw [stage, target, List.append_assoc, List.prefix_append_right_inj, soundsParts,
    List.cons_append, List.cons_prefix_cons]
  exact fun h => absurd h.1 (by decide)

theorem stagedSounds_not_prefix_target :
    ¬ stage gamefiles ++ soundsParts <+: target gamefiles := by
  intro hprefix
  have hstage := (List.prefix_append (stage gamefiles) soundsParts).trans hprefix
  rw [← List.append_nil (target gamefiles)] at hstage
  exact stage_not_prefix_target [] hstage

theorem target_not_prefix_marker : ¬ target gamefiles <+: marker gamefiles := by
  rw [target, marker, List.prefix_append_right_inj]
  decide

end Paths

/-! ## The invariant -/

section Invariant

variable (gamefiles : Path) (archive : CString → Option (List Member))

/-- The target has the sounds of the archive with this identity. -/
def HasSounds (fs : FileSystem) (identity : CString) : Prop :=
  ∃ items, archive identity = some items ∧ Prepared gamefiles fs items

/-- What a run has done before a phase, with the members of the archive. -/
def Phase.At (fs : FileSystem) (items : List Member) : Phase → Prop
  | .clear | .clean _ => True
  | .folders names item todo => (∀ folder ∈ names, parentName ∉ folder) ∧
      ∃ done, sounds items = done ++ item :: todo ∧ Staged gamefiles fs items done none
  | .copying file rest todo => ∃ done item written, sounds items = done ++ item :: todo ∧
      file = stage gamefiles ++ item.parts ∧ fs.node file = some (.file written) ∧
      written ++ rest = item.content ∧ Staged gamefiles fs items done (some item.parts)
  | .delete | .parent | .replace => Staged gamefiles fs items (sounds items) none
  | .mark => Prepared gamefiles fs items
  | .write => Prepared gamefiles fs items ∧ fs.node (marker gamefiles) = some (.file [])

/-- What holds at a phase of a run for the OBB with this identity. -/
def Phase.Holds (fs : FileSystem) (identity : CString) (phase : Phase) : Prop :=
  match phase with
  | .clear => ∀ items, archive identity = some items → Plain items
  | .clean raised => raised = false → HasSounds gamefiles archive fs identity
  | phase => ∃ items, archive identity = some items ∧ Plain items ∧ phase.At gamefiles fs items

/-- The marker tells the truth, as long as the target has not been changed since. -/
structure Invariant (w : World) : Prop where
  marked : w.touched = false → ∀ obb : Obb,
    markerText gamefiles w.fs = some obb.identity → HasSounds gamefiles archive w.fs obb.identity
  running : ∀ phase, w.status = .running phase →
    phase.Holds gamefiles archive w.fs w.obb.identity
  returned : w.status = .returned → HasSounds gamefiles archive w.fs w.obb.identity

variable {gamefiles archive} {fs fs' : FileSystem} {items done todo : List Member}
  {item : Member} {identity : CString} {w : World} {phase : Phase}

open FileSystem

theorem Prepared.congr (h : Prepared gamefiles fs items)
    (hsame : SameFiles (target gamefiles) fs fs') : Prepared gamefiles fs' items where
  present item hitem := by
    obtain ⟨rest, hparts, hnode⟩ := h.present item hitem
    exact ⟨rest, hparts, (hsame rest _).mpr hnode⟩
  nothing_else rest content hnode := h.nothing_else rest content ((hsame rest content).mp hnode)

theorem HasSounds.congr (h : HasSounds gamefiles archive fs identity)
    (hsame : SameFiles (target gamefiles) fs fs') : HasSounds gamefiles archive fs' identity := by
  obtain ⟨items, hitems, hprepared⟩ := h
  exact ⟨items, hitems, hprepared.congr hsame⟩

theorem Staged.congr {copied : Option (List CString)} (h : Staged gamefiles fs items done copied)
    (hsame : SameFiles (stage gamefiles) fs fs') : Staged gamefiles fs' items done copied where
  present item hitem hother := (hsame item.parts _).mpr (h.present item hitem hother)
  only rest content hnode := h.only rest content ((hsame (soundsParts ++ rest) content).mp hnode)

theorem markerText_eq_some {text : CString} : markerText gamefiles fs = some text ↔
    ∃ bytes, fs.node (marker gamefiles) = some (.file bytes) ∧ bytes.filter (· < 128) = text := by
  unfold markerText
  split
  · rename_i bytes hfile
    rw [hfile]
    simp
  · rename_i hother
    refine iff_of_false nofun ?_
    rintro ⟨bytes, hfile, -⟩
    exact hother bytes hfile

theorem markerText_congr {text : CString} (hsame : SameFiles (marker gamefiles) fs fs') :
    markerText gamefiles fs' = some text ↔ markerText gamefiles fs = some text := by
  have hnode : ∀ bytes, fs'.node (marker gamefiles) = some (.file bytes) ↔
      fs.node (marker gamefiles) = some (.file bytes) := by
    intro bytes
    have hself := hsame [] bytes
    rwa [List.append_nil] at hself
  rw [markerText_eq_some, markerText_eq_some]
  exact exists_congr fun bytes => and_congr_left fun _ => hnode bytes

/-- A step that leaves the target and the marker alone. -/
theorem Invariant.goto (h : Invariant gamefiles archive w)
    (htarget : SameFiles (target gamefiles) w.fs fs')
    (hmarker : SameFiles (marker gamefiles) w.fs fs')
    (hphase : phase.Holds gamefiles archive fs' w.obb.identity) :
    Invariant gamefiles archive ({ w with fs := fs' }.goto phase) where
  marked htouched obb hobb :=
    (h.marked htouched obb ((markerText_congr hmarker).mp hobb)).congr htarget
  running _ hnext := Status.running.inj hnext ▸ hphase
  returned hreturned := nomatch hreturned

/-- A step that leaves the file system alone. -/
theorem Invariant.goOn (h : Invariant gamefiles archive w)
    (hphase : phase.Holds gamefiles archive w.fs w.obb.identity) :
    Invariant gamefiles archive (w.goto phase) :=
  h.goto (.refl _ _) (.refl _ _) hphase

theorem Invariant.raise (h : Invariant gamefiles archive w) : Invariant gamefiles archive w.raise :=
  h.goOn fun hraised => nomatch hraised

theorem holds_extract (hitems : archive identity = some items) (hplain : Plain items)
    (hdone : sounds items = done ++ todo) (hstaged : Staged gamefiles fs items done none) :
    (extract todo).Holds gamefiles archive fs identity := by
  cases todo with
  | nil =>
    rw [List.append_nil] at hdone
    refine ⟨items, hitems, hplain, ?_⟩
    show Staged gamefiles fs items (sounds items) none
    rwa [hdone]
  | cons item todo =>
    have hitem : item ∈ sounds items := hdone ▸ List.mem_append_right _ (List.mem_cons_self ..)
    exact ⟨items, hitems, hplain, fun folder hfolder => folder_plain (hplain.1 item hitem) hfolder,
      done, hdone, hstaged⟩

/-! ### The steps of a run -/

theorem removeBelow_eq_some {root entry : Path} (h : removeBelow fs root entry = some fs') :
    root <+: entry ∧ fs.remove entry = some fs' := by
  unfold removeBelow at h
  split_ifs at h with hentry
  exact ⟨hentry, h⟩

theorem goto_self (h : w.status = .running phase) :
    ({ w with fs := fs } : World) = World.goto { w with fs := fs } phase := by
  cases w
  cases h
  rfl

/-- One step of `rmtree(stage)`. -/
theorem Invariant.removeStage (h : Invariant gamefiles archive w) {entry : Path}
    (hphase : w.status = .running phase)
    (hholds : ∀ fs', SameFiles (target gamefiles) w.fs fs' →
      phase.Holds gamefiles archive fs' w.obb.identity)
    (hremove : removeBelow w.fs (stage gamefiles) entry = some fs') :
    Invariant gamefiles archive { w with fs := fs' } := by
  obtain ⟨⟨rest, rfl⟩, hremove⟩ := removeBelow_eq_some hremove
  have htarget := sameFiles_remove (target_not_prefix_stage rest) hremove
  rw [goto_self hphase]
  exact h.goto htarget
    (sameFiles_remove (marker_not_prefix_stage rest) hremove) (hholds fs' htarget)

theorem Invariant.openArchive (h : Invariant gamefiles archive w)
    (hclear : Phase.clear.Holds gamefiles archive w.fs w.obb.identity)
    (hleft : ∀ items ∈ archive w.obb.identity, OnlyMembers gamefiles w.fs items) :
    Invariant gamefiles archive (w.openArchive (archive w.obb.identity)) := by
  unfold World.openArchive
  cases hitems : archive w.obb.identity with
  | none => exact h.raise
  | some items =>
    dsimp only
    split_ifs
    · exact h.raise
    · exact h.goOn (holds_extract hitems (hclear items hitems) (List.nil_append _).symm
        ⟨fun _ hitem => absurd hitem List.not_mem_nil, hleft items hitems⟩)

/-- `mkdir`, which changes no file. -/
theorem Invariant.mkdir (h : Invariant gamefiles archive w) {names : List CString}
    (hholds : ∀ fs', (∀ root, SameFiles root w.fs fs') →
      phase.Holds gamefiles archive fs' w.obb.identity) :
    Invariant gamefiles archive (w.after (w.fs.mkdir gamefiles names) phase) := by
  unfold World.after
  cases hmkdir : w.fs.mkdir gamefiles names with
  | none => exact h.raise
  | some fs' =>
    exact h.goto (sameFiles_mkdir hmkdir) (sameFiles_mkdir hmkdir)
      (hholds fs' fun root => sameFiles_mkdir hmkdir)

theorem Invariant.folder (h : Invariant gamefiles archive w) {names : List CString}
    {more : List (List CString)}
    (hphase : (Phase.folders (names :: more) item todo).Holds gamefiles archive w.fs
      w.obb.identity) :
    Invariant gamefiles archive
      (w.after (w.fs.mkdir gamefiles names) (.folders more item todo)) := by
  obtain ⟨items, hitems, hplain, hfolders, done, hdone, hstaged⟩ := hphase
  obtain ⟨-, hmore⟩ := List.forall_mem_cons.mp hfolders
  exact h.mkdir fun fs' hsame =>
    ⟨items, hitems, hplain, hmore, done, hdone, hstaged.congr (hsame _)⟩

/-- A file is written at a member's path. -/
theorem onlyMembers_put {n : Node} (h : OnlyMembers gamefiles fs items)
    (hitem : item ∈ sounds items) :
    OnlyMembers gamefiles (fs.put (stage gamefiles ++ item.parts) n) items := by
  intro rest content hnode
  rw [node_put] at hnode
  split_ifs at hnode with hsame
  · exact ⟨item, hitem, (List.append_cancel_left hsame).symm⟩
  · exact h rest content hnode

/-- While a member is being copied, the other members stay as they are. -/
theorem Staged.put {n : Node} (hitem : item ∈ sounds items)
    (h : ∀ other ∈ done, some item.parts ≠ some other.parts →
      fs.node (stage gamefiles ++ other.parts) = some (.file other.content))
    (honly : OnlyMembers gamefiles fs items) :
    Staged gamefiles (fs.put (stage gamefiles ++ item.parts) n) items done (some item.parts) where
  present other hother hparts := by
    rw [node_put, if_neg fun hsame => hparts (congrArg some (List.append_cancel_left hsame).symm)]
    exact h other hother hparts
  only := onlyMembers_put honly hitem

/-- A member's file is opened: it is empty, and the other files of the stage are as before. -/
theorem Invariant.openFile (h : Invariant gamefiles archive w)
    (hphase : (Phase.folders [] item todo).Holds gamefiles archive w.fs w.obb.identity) :
    Invariant gamefiles archive
      (match w.fs.create gamefiles (stageName :: item.parts) with
      | some (fs, file) => { w with fs := fs }.goto (.copying file item.content todo)
      | none => w.raise) := by
  obtain ⟨items, hitems, hplain, -, done, hdone, hstaged⟩ := hphase
  have hitem : item ∈ sounds items := hdone ▸ List.mem_append_right _ (List.mem_cons_self ..)
  have hnames : parentName ∉ stageName :: item.parts :=
    List.not_mem_cons_of_ne_of_not_mem (by decide) (hplain.1 item hitem)
  split
  · rename_i fs' file hcreate
    obtain ⟨hresolve, -, rfl⟩ := create_eq_some hcreate
    obtain ⟨hfile, -⟩ := resolve_eq_some hnames hresolve
    rw [← stage_append] at hfile
    subst hfile
    refine h.goto (sameFiles_put (target_not_prefix_stage _))
      (sameFiles_put (marker_not_prefix_stage _)) ⟨items, hitems, hplain, done, item, [], hdone,
        rfl, by rw [node_put, if_pos rfl], List.nil_append _, ?_⟩
    exact .put hitem (fun other hother _ => hstaged.present other hother nofun) hstaged.only
  · exact h.raise

/-- A member is copied as a whole, and no other sound has its path and another content. -/
theorem staged_concat (hplain : Plain items) (hdone : sounds items = done ++ item :: todo)
    (hfile : fs.node (stage gamefiles ++ item.parts) = some (.file item.content))
    (hstaged : Staged gamefiles fs items done (some item.parts)) :
    Staged gamefiles fs items (done ++ [item]) none where
  present other hother _ := by
    have hmem : other ∈ sounds items := by
      rw [hdone, List.append_cons]
      exact List.mem_append_left _ hother
    have hitem : item ∈ sounds items := hdone ▸ List.mem_append_right _ (List.mem_cons_self ..)
    by_cases hparts : item.parts = other.parts
    · rw [← hparts, hfile, hplain.2 item hitem other hmem hparts]
    · rcases List.mem_append.mp hother with hother | hother
      · exact hstaged.present other hother fun hsame => hparts (Option.some.inj hsame)
      · exact absurd (congrArg Member.parts (List.mem_singleton.mp hother)).symm hparts
  only := hstaged.only

theorem Invariant.copied (h : Invariant gamefiles archive w) {file : Path}
    (hphase : (Phase.copying file [] todo).Holds gamefiles archive w.fs w.obb.identity) :
    Invariant gamefiles archive (w.goto (extract todo)) := by
  obtain ⟨items, hitems, hplain, done, item, written, hdone, rfl, hfile, hwritten, hstaged⟩ :=
    hphase
  rw [List.append_nil] at hwritten
  rw [hwritten] at hfile
  refine h.goOn (holds_extract hitems hplain ?_ (staged_concat hplain hdone hfile hstaged))
  rw [hdone, List.append_assoc]
  rfl

theorem Invariant.copy (h : Invariant gamefiles archive w) {file : Path} {rest : List UInt8}
    (n : Nat)
    (hphase : (Phase.copying file rest todo).Holds gamefiles archive w.fs w.obb.identity) :
    Invariant gamefiles archive ({ w with fs := w.fs.append file (rest.take n) }.goto
      (.copying file (rest.drop n) todo)) := by
  obtain ⟨items, hitems, hplain, done, item, written, hdone, rfl, hfile, hwritten, hstaged⟩ :=
    hphase
  have hitem : item ∈ sounds items := hdone ▸ List.mem_append_right _ (List.mem_cons_self ..)
  refine h.goto (sameFiles_append (target_not_prefix_stage _))
    (sameFiles_append (marker_not_prefix_stage _)) ?_
  refine ⟨items, hitems, hplain, done, item, written ++ rest.take n, hdone, rfl, ?_, ?_, ?_⟩
  · rw [FileSystem.append, hfile]
    exact (node_put).trans (if_pos rfl)
  · rw [List.append_assoc, List.take_append_drop, hwritten]
  · rw [FileSystem.append, hfile]
    exact .put hitem hstaged.present hstaged.only

/-- One step of `rmtree(target)`. From here on the marker may be wrong. -/
theorem Invariant.removeTarget (h : Invariant gamefiles archive w) {entry : Path}
    (hstatus : w.status = .running .delete)
    (hremove : removeBelow w.fs (target gamefiles) entry = some fs') :
    Invariant gamefiles archive { w with fs := fs', touched := true } := by
  obtain ⟨items, hitems, hplain, hstaged⟩ := h.running .delete hstatus
  obtain ⟨⟨rest, rfl⟩, hremove⟩ := removeBelow_eq_some hremove
  have hkept := sameFiles_remove (stage_not_prefix_target rest) hremove
  refine ⟨nofun, fun next hnext => ?_, fun hreturned => ?_⟩
  · cases hstatus.symm.trans hnext
    exact ⟨items, hitems, hplain, hstaged.congr hkept⟩
  · cases hstatus.symm.trans hreturned

/-- The renamed sounds are where the stage had them. -/
theorem node_renamed {rest : Path} :
    (fs.move (stage gamefiles ++ soundsParts) (target gamefiles)).node (target gamefiles ++ rest) =
      fs.node (stage gamefiles ++ (soundsParts ++ rest)) := by
  rw [node_move stagedSounds_not_prefix_target (target_not_prefix_stage _),
    if_pos (List.prefix_append _ _), List.drop_left, List.append_assoc]

/-- Staged sounds are prepared by the rename. -/
theorem prepared_move (h : Staged gamefiles fs items (sounds items) none) :
    Prepared gamefiles (fs.move (stage gamefiles ++ soundsParts) (target gamefiles)) items where
  present item hitem := by
    obtain ⟨rest, hparts⟩ := parts_of_mem_sounds hitem
    refine ⟨rest, hparts, ?_⟩
    rw [node_renamed, ← hparts]
    exact h.present item hitem nofun
  nothing_else rest content hnode := by
    rw [node_renamed] at hnode
    obtain ⟨item, hitem, hparts⟩ := h.only rest content hnode
    have hcontent := h.present item hitem nofun
    rw [hparts, hnode] at hcontent
    exact ⟨item, hitem, hparts, (Node.file.inj (Option.some.inj hcontent)).symm⟩

theorem Invariant.replace (h : Invariant gamefiles archive w)
    (hphase : Phase.replace.Holds gamefiles archive w.fs w.obb.identity) :
    Invariant gamefiles archive
      (match w.fs.rename (stage gamefiles ++ soundsParts) (target gamefiles) with
      | some fs => { w with fs := fs, touched := true }.goto .mark
      | none => w.raise) := by
  obtain ⟨items, hitems, hplain, hstaged⟩ := hphase
  split
  · rename_i fs' hrename
    cases rename_eq_some hrename
    refine ⟨nofun, fun next hnext => ?_, nofun⟩
    cases hnext
    exact ⟨items, hitems, hplain, prepared_move hstaged⟩
  · exact h.raise

/-- The marker is emptied, and names no OBB. -/
theorem Invariant.mark (h : Invariant gamefiles archive w)
    (hphase : Phase.mark.Holds gamefiles archive w.fs w.obb.identity) :
    Invariant gamefiles archive
      (w.after ((w.fs.create gamefiles [markerName]).map Prod.fst) .write) := by
  obtain ⟨items, hitems, hplain, hprepared⟩ := hphase
  unfold World.after
  cases hcreate : w.fs.create gamefiles [markerName] with
  | none => exact h.raise
  | some result =>
    obtain ⟨fs', file⟩ := result
    have hname : parentName ∉ [markerName] := by decide
    obtain ⟨hresolve, -, rfl⟩ := create_eq_some hcreate
    obtain ⟨rfl, -⟩ := resolve_eq_some hname hresolve
    have hmarker : (w.fs.put (marker gamefiles) (.file [])).node (marker gamefiles) =
        some (.file []) := by rw [node_put, if_pos rfl]
    refine ⟨fun _ obb hobb => ?_, fun next hnext => ?_, nofun⟩
    · obtain ⟨bytes, hbytes, htext⟩ := markerText_eq_some.mp hobb
      cases hmarker.symm.trans hbytes
      exact absurd htext.symm obb.identity_ne_nil
    · cases hnext
      exact ⟨items, hitems, hplain, hprepared.congr (sameFiles_put target_not_prefix_marker),
        hmarker⟩

/-- The marker names the OBB whose sounds have just been prepared. -/
theorem invariant_write
    (hphase : Phase.write.Holds gamefiles archive w.fs w.obb.identity) :
    Invariant gamefiles archive ({ w with
      fs := w.fs.append (marker gamefiles) w.obb.identity
      touched := false }.goto (.clean false)) := by
  obtain ⟨items, hitems, -, hprepared, hempty⟩ := hphase
  have hmarker : (w.fs.append (marker gamefiles) w.obb.identity).node (marker gamefiles) =
      some (.file w.obb.identity) := by
    rw [FileSystem.append, hempty]
    exact node_put.trans (if_pos rfl)
  have hsounds : HasSounds gamefiles archive (w.fs.append (marker gamefiles) w.obb.identity)
      w.obb.identity :=
    ⟨items, hitems, hprepared.congr (sameFiles_append target_not_prefix_marker)⟩
  refine ⟨fun _ obb hobb => ?_, fun next hnext => ?_, nofun⟩
  · obtain ⟨bytes, hbytes, htext⟩ := markerText_eq_some.mp hobb
    cases hmarker.symm.trans hbytes
    rw [Obb.identity_filter] at htext
    exact htext ▸ hsounds
  · cases hnext
    exact fun _ => hsounds

/-- Every step of a run keeps the invariant. -/
theorem Invariant.advance (h : Invariant gamefiles archive w) {entry : Path} {w' : World}
    (hstatus : w.status = .running phase)
    (hstep : w.advance gamefiles entry phase = some w') : Invariant gamefiles archive w' := by
  have hphase := h.running phase hstatus
  cases phase with
  | clear =>
    obtain ⟨fs', hremove, rfl⟩ := Option.map_eq_some_iff.mp hstep
    exact h.removeStage hstatus (fun _ _ => hphase) hremove
  | folders names item todo =>
    cases names with
    | nil =>
      cases hstep
      exact h.openFile hphase
    | cons names more =>
      cases hstep
      exact h.folder hphase
  | copying file rest todo =>
    rw [World.advance] at hstep
    cases hstep
    split_ifs with hrest
    · subst hrest
      exact h.copied hphase
    · exact h.copy chunkSize hphase
  | delete =>
    obtain ⟨fs', hremove, rfl⟩ := Option.map_eq_some_iff.mp hstep
    exact h.removeTarget hstatus hremove
  | parent =>
    cases hstep
    obtain ⟨items, hitems, hplain, hstaged⟩ := hphase
    exact h.mkdir fun fs' hsame => ⟨items, hitems, hplain, hstaged.congr (hsame _)⟩
  | replace =>
    cases hstep
    exact h.replace hphase
  | mark =>
    cases hstep
    exact h.mark hphase
  | write =>
    cases hstep
    exact invariant_write hphase
  | clean raised =>
    obtain ⟨fs', hremove, rfl⟩ := Option.map_eq_some_iff.mp hstep
    exact h.removeStage hstatus (fun _ hsame hraised => (hphase hraised).congr hsame) hremove

/-- The end of an `rmtree` keeps it, if what the first one leaves is written over. -/
theorem Invariant.finish (h : Invariant gamefiles archive w) {w' : World}
    (hstatus : w.status = .running phase)
    (hleft : phase = .clear → ∀ items ∈ archive w.obb.identity, OnlyMembers gamefiles w.fs items)
    (hstep : w.finish archive phase = some w') : Invariant gamefiles archive w' := by
  have hphase := h.running phase hstatus
  cases phase with
  | clear =>
    cases hstep
    exact h.openArchive hphase (hleft rfl)
  | delete =>
    cases hstep
    exact h.goOn hphase
  | clean raised =>
    cases hstep
    cases raised with
    | false => exact ⟨h.marked, nofun, fun _ => hphase rfl⟩
    | true => exact ⟨h.marked, nofun, nofun⟩
  | folders | copying | parent | replace | mark | write => cases hstep

/-! ## Runs -/

/-- The files of a path's subtree are among the entries. -/
theorem onlyMembers_iff : OnlyMembers gamefiles fs items ↔
    ∀ e ∈ fs.entries, fs.isFile e.1 → stage gamefiles ++ soundsParts <+: e.1 →
      ∃ item ∈ sounds items, e.1 = stage gamefiles ++ item.parts := by
  constructor
  · rintro h e - hfile ⟨rest, hrest⟩
    unfold isFile at hfile
    rw [← hrest, List.append_assoc] at hfile ⊢
    split at hfile
    · rename_i content hnode
      obtain ⟨item, hitem, hparts⟩ := h rest content hnode
      exact ⟨item, hitem, by rw [hparts]⟩
    · cases hfile
  · intro h rest content hnode
    obtain ⟨e, hmem, he⟩ := exists_entry (hnode ▸ Option.some_ne_none _)
    have hfile : fs.isFile e.1 := by rw [isFile, he, hnode]
    obtain ⟨item, hitem, hpath⟩ := h e hmem hfile (by
      rw [he, ← List.append_assoc]
      exact List.prefix_append _ _)
    exact ⟨item, hitem, (List.append_cancel_left (he.symm.trans hpath)).symm⟩

instance (gamefiles : Path) (fs : FileSystem) (items : List Member) :
    Decidable (OnlyMembers gamefiles fs items) :=
  decidable_of_iff _ onlyMembers_iff.symm

variable (gamefiles archive) in
/-- What is asked of a run. At its start: if it finds the marker of the OBB and the three sounds,
no run has changed the target since the marker was written. Otherwise the sounds are plain. At
the end of its first `rmtree`: each sound that is left in the stage has the path of a member. -/
def Undisturbed (w : World) (event : Event) : Prop :=
  (event = .start → if w.upToDate gamefiles then w.touched = false
    else ∀ items ∈ archive w.obb.identity, Plain items) ∧
  (event = .finish → w.status = .running .clear →
    ∀ items ∈ archive w.obb.identity, OnlyMembers gamefiles w.fs items)

instance (gamefiles : Path) (archive : CString → Option (List Member)) (w : World)
    (event : Event) : Decidable (Undisturbed gamefiles archive w event) :=
  inferInstanceAs (Decidable ((_ → _) ∧ (_ → _ → _)))

theorem Invariant.start (h : Invariant gamefiles archive w)
    (hok : Undisturbed gamefiles archive w .start) :
    Invariant gamefiles archive
      (if w.upToDate gamefiles then { w with status := .returned } else w.goto .clear) := by
  have hstart := hok.1 rfl
  split_ifs at hstart ⊢ with hcurrent
  · exact ⟨h.marked, nofun, fun _ => h.marked hstart w.obb hcurrent.1⟩
  · exact h.goOn hstart

/-- Every event keeps the invariant. -/
theorem Invariant.step (h : Invariant gamefiles archive w) {event : Event} {w' : World}
    (hok : Undisturbed gamefiles archive w event)
    (hstep : w.step gamefiles archive event = some w') : Invariant gamefiles archive w' := by
  unfold World.step at hstep
  split at hstep
  · exact h.advance ‹_› hstep
  · rename_i phase hstatus
    exact h.finish hstatus (fun hclear => hok.2 rfl (hclear ▸ hstatus)) hstep
  · split_ifs at hstep
    cases hstep
    exact h.raise
  · cases hstep
    exact ⟨h.marked, nofun, nofun⟩
  · cases hstep
  · cases hstep
  · cases hstep
    exact h.start hok
  · cases hstep
    exact ⟨h.marked, nofun, nofun⟩
  · cases hstep

/-- In every sequence of runs, cut off wherever, and of changes of the OBB: a run that returns
leaves the sounds of the OBB, if every run is undisturbed. -/
theorem prepared_of_returned {events : List Event} {w' : World}
    (hidle : w.status = .idle) (hmarker : markerText gamefiles w.fs = none)
    (halong : (prepareAudio gamefiles archive).Along (Undisturbed gamefiles archive) w events)
    (hrun : (prepareAudio gamefiles archive).run w events = some w')
    (hreturned : w'.status = .returned) :
    HasSounds gamefiles archive w'.fs w'.obb.identity := by
  have hinitial : Invariant gamefiles archive w := by
    refine ⟨fun _ obb hobb => ?_, fun phase hphase => ?_, fun hdone => ?_⟩
    · cases hmarker.symm.trans hobb
    · cases hidle.symm.trans hphase
    · cases hidle.symm.trans hdone
  have hfinal := Machine.invariant_of_run (I := Invariant gamefiles archive)
    (fun _ _ _ h hok hstep => h.step hok hstep) hinitial halong hrun
  exact hfinal.returned hreturned

end Invariant

/-! ## Two archives -/

def sampleSounds (b : UInt8) : List Member := required.map fun filename => ⟨filename, [b]⟩

def sampleObb : Obb := ⟨1, 1⟩
def otherObb : Obb := ⟨2, 2⟩

/-- A sound that is in one of the archives only. -/
def extraSound : Member := ⟨cstr "published/sounds/extra.mp3", [2]⟩

def sampleArchive (identity : CString) : Option (List Member) :=
  if identity = sampleObb.identity then some (sampleSounds 1)
  else some (sampleSounds 2 ++ [extraSound])

def sampleFolder : Path := [cstr "gamefiles"]

def sampleWorld : World := ⟨⟨[(sampleFolder, .directory)]⟩, sampleObb, .idle, false⟩

/-- The three required sounds are extracted, in seven steps each. -/
def extractRun : List Event := List.replicate 21 (.advance [])

/-- The other archive's sounds are extracted. -/
def extractOther : List Event := extractRun ++ List.replicate 6 (.advance [])

/-- The sounds of an earlier run are deleted. -/
def deleteRun : List Event :=
  ([[cstr "music", cstr "loading_01.mp3"], [cstr "music"], [cstr "ui", cstr "ui.fev"],
    [cstr "ui", cstr "ui.fsb"], [cstr "ui"], []].map fun entry =>
      .advance (target sampleFolder ++ entry)) ++ [.finish]

/-- The sounds are renamed, the marker is written and the stage is deleted. -/
def completeRun : List Event :=
  List.replicate 4 (.advance []) ++
    [.advance (stage sampleFolder ++ [published]), .advance (stage sampleFolder), .finish]

/-- A run without old sounds. -/
def sampleRun : List Event := [.start, .finish] ++ extractRun ++ [.finish] ++ completeRun

/-- The OBB is replaced. The run for the new one is cut off at its second member, and the next
run cannot delete the first member from the stage, but completes. -/
def recoveredRun : List Event :=
  sampleRun ++ [.setObb otherObb, .start, .finish] ++ extractOther.take 12 ++ [.cut, .start,
    .advance (stage sampleFolder ++ soundsParts ++ [cstr "ui", cstr "ui.fev"]), .finish] ++
    extractOther ++ deleteRun ++ completeRun

/-- The other OBB is there for a run that is cut off before it opens the marker. -/
def disturbedRun : List Event :=
  sampleRun ++ [.setObb otherObb, .start, .finish] ++ extractOther ++ deleteRun ++
    List.replicate 2 (.advance []) ++ [.cut, .setObb sampleObb, .start]

/-- The other OBB is there for a run that is cut off after it has opened the extra sound's file,
and the next run cannot delete the stage. -/
def leftoverRun : List Event :=
  [.setObb otherObb, .start, .finish] ++ extractOther.take 25 ++
    [.cut, .setObb sampleObb, .start, .finish] ++ extractRun ++ [.finish] ++ completeRun

def afterRun (events : List Event) : World :=
  ((prepareAudio sampleFolder sampleArchive).run sampleWorld events).getD sampleWorld

theorem sampleWorld_marker : markerText sampleFolder sampleWorld.fs = none := by decide +kernel

theorem prepared_of_returned_sample :
    (afterRun recoveredRun).obb = otherObb ∧
      HasSounds sampleFolder sampleArchive (afterRun recoveredRun).fs
        (afterRun recoveredRun).obb.identity := by
  have halong : (prepareAudio sampleFolder sampleArchive).Along
      (Undisturbed sampleFolder sampleArchive) sampleWorld recoveredRun := by decide +kernel
  have hrun : (prepareAudio sampleFolder sampleArchive).run sampleWorld recoveredRun =
      some (afterRun recoveredRun) := by decide +kernel
  have hreturned : (afterRun recoveredRun).status = .returned := by decide +kernel
  exact ⟨by decide +kernel,
    prepared_of_returned rfl sampleWorld_marker halong hrun hreturned⟩

/-- The run returns, and not with the sounds of the OBB. -/
def NotPrepared (events : List Event) : Prop :=
  (prepareAudio sampleFolder sampleArchive).run sampleWorld events = some (afterRun events) ∧
    (afterRun events).status = .returned ∧
    ¬ HasSounds sampleFolder sampleArchive (afterRun events).fs (afterRun events).obb.identity

/-- A file among the sounds that has not the content of any of the first archive's members. -/
theorem notPrepared_of_file {events : List Event} (rest : Path) (content : List UInt8)
    (hrun : (prepareAudio sampleFolder sampleArchive).run sampleWorld events =
      some (afterRun events))
    (hreturned : (afterRun events).status = .returned)
    (hidentity : (afterRun events).obb.identity = sampleObb.identity)
    (hfile : (afterRun events).fs.node (target sampleFolder ++ rest) = some (.file content))
    (hother : content ≠ [1]) : NotPrepared events := by
  refine ⟨hrun, hreturned, ?_⟩
  rintro ⟨items, hitems, hprepared⟩
  have hcontents : ∀ item ∈ sounds (sampleSounds 1), item.content = [1] := by decide +kernel
  rw [hidentity, sampleArchive, if_pos rfl] at hitems
  cases hitems
  obtain ⟨item, hitem, -, rfl⟩ := hprepared.nothing_else _ _ hfile
  exact hother (hcontents item hitem)

/-- The first OBB is put back after the run for the other one was cut off. In the one case its
marker is still there, so the next run returns, and the sounds are those of the other OBB. In the
other the next run extracts beside what it could not delete, and publishes both. -/
theorem interrupted_not_prepared :
    sampleWorld.status = .idle ∧ markerText sampleFolder sampleWorld.fs = none ∧
      NotPrepared disturbedRun ∧ NotPrepared leftoverRun := by
  refine ⟨rfl, sampleWorld_marker, ?_, ?_⟩
  · exact notPrepared_of_file [cstr "ui", cstr "ui.fev"] [2]
      (by decide +kernel) (by decide +kernel) (by decide +kernel) (by decide +kernel) (by decide)
  · exact notPrepared_of_file [cstr "extra.mp3"] []
      (by decide +kernel) (by decide +kernel) (by decide +kernel) (by decide +kernel) (by decide)

end NfsmwRuntime.Launch
