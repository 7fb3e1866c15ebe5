import Mathlib.Logic.Function.Basic
import NfsmwRuntime.Library.Faults
import NfsmwRuntime.Install.Paths
import NfsmwRuntime.Install.Identity

/-!
# The install transaction

The extractor publishes whole folders by renaming them. What is installed goes to a backup,
what is staged takes its place, and a journal on the disk says that this is going on. A run that
finds a journal first undoes what it is about, unless the marker says that all of it was done.

Every operation of the file system may fail, and the process may be killed at any of them.
-/

namespace NfsmwRuntime.Install

open Library

/-! ## Files and folders -/

/-- Where the folders are that a transaction moves: the game's folder, the stage and the
backup. -/
inductive Area
  | live
  | staged
  | saved
  deriving DecidableEq, Repr

/-- Which files of which commit roots an unfinished removal has left. -/
abbrev Cut := CString → CString → Bool

/-- What a removal that was cut short has left of a file or folder. The folder goes last. -/
def Content.cut (keep : CString → Bool) : Content → Option Content
  | .file bytes => if keep [] then some (.file bytes) else none
  | .folder files =>
    let left := files.filter fun f => keep f.1
    if left = [] ∧ keep [] = false then none else some (.folder left)

/-- A file replaces a file, and a folder an empty folder. -/
def Content.replaces : Content → Content → Bool
  | .file _, .file _ => true
  | .folder _, .folder files => files.isEmpty
  | _, _ => false

/-- The file at a path in a folder. A file is at the empty path. -/
def Content.lookup : Content → CString → Option (List UInt8)
  | .file bytes, [] => some bytes
  | .file _, _ :: _ => none
  | .folder files, inside => (files.find? fun f => f.1 = inside).map Prod.snd

/-- A path to install to: a commit root, or one below it. -/
structure Target where
  root : CString
  inside : CString
  deriving DecidableEq, Repr

def Target.text (t : Target) : CString :=
  if t.inside = [] then t.root else t.root ++ 47 :: t.inside

/-- The files of a tree. -/
abbrev FileTree := Target → Option (List UInt8)

/-! ## What is on the disk -/

inductive RecordState
  | pending
  | backingUp
  | backedUp
  | installing
  | installed
  deriving DecidableEq, Repr

structure Record where
  path : CString
  state : RecordState
  digestNew : Option Identity
  digestOld : Option Identity
  deriving DecidableEq, Repr

structure Journal where
  format : Nat
  transactionId : CString
  paths : List Record
  deriving DecidableEq, Repr

/-- The journal as it is read: its JSON may be damaged. -/
inductive JournalFile
  | unreadable
  | readable (journal : Journal)
  deriving DecidableEq, Repr

structure MarkerItem where
  destination : Target
  size : Nat
  sha256 : Option (List UInt8)
  deriving DecidableEq, Repr

structure Marker where
  format : Nat
  recipeId : CString
  semanticDigest : CString
  abi : CString
  transactionId : CString
  adopted : Bool
  items : List MarkerItem
  donorProfile : Option CString
  deriving DecidableEq, Repr

def FORMAT_VERSION : Nat := 1

/-- The disk, and the journal in the memory of the process. -/
structure World where
  trees : Area × CString → Option Content
  journal : Option JournalFile
  marker : Option Marker
  data : Option Journal

namespace World

def content (w : World) (a : Area) (root : CString) : Option Content := w.trees (a, root)

def set (w : World) (a : Area) (root : CString) (c : Option Content) : World :=
  { w with trees := Function.update w.trees (a, root) c }

/-- What is left of an area whose removal was cut short. -/
def cutArea (w : World) (a : Area) (keep : Cut) : World :=
  { w with trees := fun p =>
      if p.1 = a then (w.trees p).bind fun c => c.cut (keep p.2) else w.trees p }

def clear (w : World) (a : Area) : World :=
  { w with trees := fun p => if p.1 = a then none else w.trees p }

def stage (w : World) (payload : CString → Option Content) : World :=
  { w with trees := fun p => if p.1 = .staged then payload p.2 else w.trees p }

def fileAt (w : World) (a : Area) : FileTree := fun t =>
  (w.content a t.root).bind fun c => c.lookup t.inside

end World

/-! ## The recipe and the plan -/

structure CommitRoot where
  path : CString
  exclusive : Bool
  deriving DecidableEq, Repr

structure Item where
  destination : Target
  size : Nat
  crc : Option Nat
  sha256 : Option (List UInt8)
  deriving DecidableEq, Repr

structure Plan where
  abi : CString
  items : List Item
  roots : List CommitRoot
  profile : Option CString
  deriving DecidableEq, Repr

def Plan.paths (plan : Plan) : List CString := plan.roots.map CommitRoot.path

structure Profile where
  id : CString
  validate : CString → FileTree → Except Failure Unit

/-- A recipe that has been read. Its checks on a tree are functions of the ABI and the files. -/
structure Recipe where
  identifier : CString
  semanticDigest : CString
  profiles : List Profile
  hasOutputChecks : Bool
  commitRoots : CString → List CommitRoot
  outputChecks : CString → FileTree → Except Failure Unit

/-- The profiles whose checks a tree passes, and why it is not of the others. -/
def Recipe.matchProfiles (abi : CString) (tree : FileTree) :
    List Profile → Except Failure (List CString × List CString)
  | [] => .ok ([], [])
  | profile :: profiles => do
    match profile.validate abi tree with
    | .ok () =>
      let found ← matchProfiles abi tree profiles
      .ok (profile.id :: found.1, found.2)
    | .error (.validation message) =>
      let found ← matchProfiles abi tree profiles
      .ok (found.1, (profile.id ++ cstr ": " ++ message) :: found.2)
    | .error e => .error e

/-- Return the one coherent donor profile matching a tree. -/
def Recipe.identifyProfile (recipe : Recipe) (abi : CString) (tree : FileTree) :
    Except Failure (Option CString) :=
  if recipe.profiles.isEmpty then .ok none
  else do
    let found ← matchProfiles abi tree recipe.profiles
    match found.1 with
    | [] => .error (.validation (cstr ("donor assets do not match a supported coherent profile; " ++
        "do not mix payload trees. ") ++ (cstr "; ").intercalate (found.2.take 3)))
    | [id] => .ok (some id)
    | ids => .error (.validation (cstr "donor profile is ambiguous: " ++
        (cstr ", ").intercalate (ids.mergeSort fun p q => decide (p ≤ q))))

/-! ## Operations -/

abbrev Job := Process Cut World Failure

namespace Job

/-- A call of the system that leaves these files and folders as they are. -/
def system : Job Unit := Process.atomic .system id

def ofExcept {α : Type} : Except Failure α → Job α
  | .ok a => Process.pure a
  | .error e => Process.raise e

/-- `os.rename`, of one commit root from one area to another. -/
def rename (source target : Area) (root : CString) : Job Unit := do
  let c ← Process.read fun w => (w.content source root, w.content target root)
  match c with
  | (none, _) => Process.raise .system
  | (some moved, none) =>
    Process.atomic .system fun w => (w.set target root (some moved)).set source root none
  | (some moved, some there) =>
    if moved.replaces there then
      Process.atomic .system fun w => (w.set target root (some moved)).set source root none
    else Process.raise .system

/-- `remove_path` on a commit root. The errors of `shutil.rmtree` are ignored. -/
def removePath (a : Area) (root : CString) : Job Unit := do
  let c ← Process.read fun w => w.content a root
  match c with
  | none => Process.pure ()
  | some (.file _) => Process.atomic .system fun w => w.set a root none
  | some (.folder files) =>
    Process.operation (fun w => w.set a root none)
      (fun keep w => (.ok (), w.set a root ((Content.folder files).cut (keep root))))
      (fun keep w => w.set a root ((Content.folder files).cut (keep root)))

/-- `remove_path` on the stage or the backup as a whole. -/
def removeArea (a : Area) : Job Unit :=
  Process.operation (fun w => w.clear a) (fun keep w => (.ok (), w.cutArea a keep))
    (fun keep w => w.cutArea a keep)

/-- `atomic_write`: the temporary file is written and renamed, and then looked for once more. -/
def atomicWrite (write : World → World) : Job Unit := do
  Process.atomic .system write
  system

end Job

section Transaction

variable (sha256 : List UInt8 → List UInt8)

namespace Job

/-- `digest_of` on a commit root. -/
def digest (a : Area) (root : CString) : Job (Option Identity) := do
  system
  let c ← Process.read fun w => w.content a root
  ofExcept (digestOf sha256 root c)

end Job

/-! ## The journal -/

namespace Transaction

def write : Job Unit :=
  Job.atomicWrite fun w => { w with journal := w.data.map JournalFile.readable }

def setState (path : CString) (state : RecordState) : Job Unit := do
  Process.modify fun w => { w with data := w.data.map fun j =>
    { j with paths := j.paths.map fun r => if r.path = path then { r with state } else r } }
  write

def beginRecord (path : CString) : Job Record := do
  let digestNew ← Job.digest sha256 .staged path
  let digestOld ← Job.digest sha256 .live path
  Process.pure ⟨path, .pending, digestNew, digestOld⟩

/-- `begin`, with the identifier that `uuid4` gives it. -/
def start (plan : Plan) (transactionId : CString) : Job Unit := do
  let paths ← Process.collect (beginRecord sha256) plan.paths
  Process.modify fun w => { w with data := some ⟨FORMAT_VERSION, transactionId, paths⟩ }
  write

/-- A journal that cannot be read is moved out of the way. -/
def load : Job (Option Journal) := do
  let file ← Process.read fun w => w.journal
  match file with
  | none => Process.pure none
  | some .unreadable => do
    Process.atomic .system fun w => { w with journal := none }
    Process.pure none
  | some (.readable j) =>
    if j.format ≠ FORMAT_VERSION then
      Process.raise (.eapx (cstr "unsupported journal format at journal"))
    else do
      Process.modify fun w => { w with data := some j }
      Process.pure (some j)

def discard : Job Unit := Process.atomic .system fun w => { w with journal := none }

def records : Job (List Record) :=
  Process.read fun w => (w.data.map Journal.paths).getD []

end Transaction

/-! ## Undoing -/

/-- Where the new payload has landed, it goes back to the stage. -/
def takeBack (record : Record) (current : Option Identity) : Job (Option Identity) :=
  if current ≠ none ∧ current = record.digestNew then do
    let staged ← Job.digest sha256 .staged record.path
    if staged ≠ record.digestNew then do
      Job.removePath .staged record.path
      Job.system
      Job.rename .live .staged record.path
      Process.pure none
    else do
      Job.removePath .live record.path
      Process.pure none
  else Process.pure current

/-- Where there is nothing, the original comes back from the backup. -/
def restore (record : Record) (current : Option Identity) : Job Unit :=
  match current with
  | none => do
    let saved ← Job.digest sha256 .saved record.path
    if saved = record.digestOld ∧ record.digestOld ≠ none then do
      Job.system
      Job.rename .saved .live record.path
    else Process.pure ()
  | some identity =>
    if some identity ≠ record.digestOld then
      Process.raise (.eapx (record.path ++ cstr
        (" was modified by something else during the transaction; " ++
          "refusing to touch it. Inspect it by hand.")))
    else Process.pure ()

def rollbackRecord (record : Record) : Job Unit := do
  Job.ofExcept (validateRelativePath (cstr "journal path") record.path)
  let current ← Job.digest sha256 .live record.path
  let current ← takeBack sha256 record current
  restore sha256 record current
  Transaction.setState record.path .pending

def rollback : Job Unit := do
  let records ← Transaction.records
  Process.each (rollbackRecord sha256) records.reverse
  Transaction.discard
  Job.removeArea .saved

/-! ## Publishing -/

/-- A tree against the plan. Only a full check reads the files. -/
def validateItem (crc32 : List UInt8 → Nat) (full : Bool) (file : FileTree) (item : Item) :
    Except Failure Unit := do
  let bytes ← require (file item.destination)
    (.validation (cstr "missing payload: " ++ item.destination.text))
  check (bytes.length = item.size) (.validation (item.destination.text ++
    cstr (": size " ++ toString bytes.length ++ ", expected " ++ toString item.size)))
  if full then do
    check (item.sha256 = none ∨ item.sha256 = some (sha256 bytes))
      (.validation (item.destination.text ++ cstr ": content hash mismatch"))
    check (item.crc = none ∨ item.crc = some (crc32 bytes))
      (.validation (item.destination.text ++ cstr ": checksum mismatch"))

def validateTree (crc32 : List UInt8 → Nat) (recipe : Recipe) (plan : Plan) (full : Bool)
    (a : Area) (w : World) : Except Failure Unit := do
  plan.items.forM (validateItem sha256 crc32 full (w.fileAt a))
  recipe.outputChecks plan.abi (w.fileAt a)
  plan.paths.forM fun path => check (w.content a path ≠ none)
    (.validation (cstr "commit root is missing: " ++ path))

/-- What is installed goes to the backup. -/
def backUp (record : Record) : Job Unit :=
  if record.digestOld ≠ none then do
    Transaction.setState record.path .backingUp
    Job.system
    Job.rename .live .saved record.path
    Transaction.setState record.path .backedUp
  else Process.pure ()

def publishRecord (record : Record) : Job Unit := do
  Job.ofExcept (validateRelativePath (cstr "commit destination") record.path)
  backUp record
  Transaction.setState record.path .installing
  Job.system
  Job.rename .staged .live record.path
  Transaction.setState record.path .installed

def newMarker (recipe : Recipe) (plan : Plan) (transactionId : CString) (adopted : Bool) :
    Marker where
  format := FORMAT_VERSION
  recipeId := recipe.identifier
  semanticDigest := recipe.semanticDigest
  abi := plan.abi
  transactionId := transactionId
  adopted := adopted
  items := plan.items.map fun item => ⟨item.destination, item.size, item.sha256⟩
  donorProfile := if recipe.profiles.isEmpty then none else plan.profile

def writeMarker (marker : Marker) : Job Unit :=
  Job.atomicWrite fun w => { w with marker := some marker }

section Commit

variable (crc32 : List UInt8 → Nat) (recipe : Recipe)

/-- What is undone if it fails: the folders are exchanged, and the marker is written. -/
def publish (plan : Plan) (transactionId : CString) : Job Unit := do
  let records ← Transaction.records
  Process.each publishRecord records
  Job.system
  let valid ← Process.read (validateTree sha256 crc32 recipe plan false .live)
  Job.ofExcept valid
  writeMarker (newMarker recipe plan transactionId false)
  Transaction.discard

/-- A commit root is staged, no link leads to it, and it can be renamed. -/
def checkRoot (path : CString) : Job Unit := do
  let staged ← Process.read fun w => w.content .staged path
  if staged = none then
    Process.raise (.validation (cstr "staged commit root is missing: " ++ path))
  else Job.system

def commit (plan : Plan) (transactionId : CString) : Job Unit := do
  Job.removeArea .saved
  Job.system
  Process.each checkRoot plan.paths
  Transaction.start sha256 plan transactionId
  (publish sha256 crc32 recipe plan transactionId).onError (rollback sha256)
  Job.removeArea .saved
  Job.removeArea .staged

/-- Finish or undo what an earlier run was doing. -/
def recover : Job Unit := do
  let data ← Transaction.load
  match data with
  | none => Process.pure ()
  | some j => do
    let marker ← Process.read fun w => w.marker
    if marker.map Marker.transactionId = some j.transactionId then do
      Job.removeArea .saved
      Job.removeArea .staged
      Transaction.discard
    else rollback sha256

/-! ## Installing -/

/-- What is given to one run of `install`: its options, the identifiers that it makes up, the
plan that it finds for the packages, and what it stages for the plan. -/
structure Attempt where
  abis : List CString
  noAdopt : Bool
  transactionId : CString
  plan : Except Failure Plan
  payload : CString → Option Content

inductive Report
  | alreadyReady
  | adopted
  | committed
  deriving DecidableEq, Repr

/-- Cheap revalidation: the marker is of this recipe, and every file has its size. -/
def markerFastPath (w : World) : Option Marker :=
  w.marker.filter fun m => m.format = FORMAT_VERSION ∧ m.recipeId = recipe.identifier ∧
    m.semanticDigest = recipe.semanticDigest ∧
    (recipe.profiles.isEmpty ∨ ∃ p ∈ recipe.profiles, m.donorProfile = some p.id) ∧
    ∀ item ∈ m.items, (w.fileAt .live item.destination).map List.length = some item.size

/-- The files under the commit roots, as the items of a plan. -/
def adoptedItems (w : World) (root : CString) : List Item :=
  match w.content .live root with
  | none => []
  | some (.file bytes) => [⟨⟨root, []⟩, bytes.length, none, none⟩]
  | some (.folder files) => files.map fun f => ⟨⟨root, f.1⟩, f.2.length, none, none⟩

/-- Accept what is installed without a marker, for the first ABI whose checks it passes. -/
def adoptExisting (transactionId : CString) : List CString → Job Bool
  | [] => Process.pure false
  | abi :: abis => do
    let w ← Process.read id
    let roots := recipe.commitRoots abi
    let valid := do
      roots.forM fun root => check (w.content .live root.path ≠ none)
        (Failure.validation (root.path ++ cstr " is not installed"))
      recipe.outputChecks abi (w.fileAt .live)
    match valid with
    | .error (.validation _) => adoptExisting transactionId abis
    | .error e => Process.raise e
    | .ok () => do
      let profile ← Job.ofExcept (recipe.identifyProfile abi (w.fileAt .live))
      let items := roots.flatMap fun root => adoptedItems w root.path
      writeMarker (newMarker recipe ⟨abi, items, roots, profile⟩ transactionId true)
      Process.pure true

/-- Without checks there is nothing to judge what is installed by. -/
def adopt (attempt : Attempt) : Job Bool :=
  if attempt.noAdopt ∨ !recipe.hasOutputChecks then Process.pure false
  else adoptExisting recipe attempt.transactionId attempt.abis

/-- The files under the commit roots that are not planned, and would be lost. -/
def foreignFiles (plan : Plan) (w : World) : List CString :=
  (plan.roots.filter fun root => !root.exclusive).flatMap fun root =>
    match w.content .live root.path with
    | some (.folder files) =>
      (files.map fun f => (Target.mk root.path f.1).text).filter fun relative =>
        !(plan.items.map fun item => item.destination.text).contains relative
    | _ => []

def checkForeignFiles (plan : Plan) (w : World) : Except Failure Unit :=
  let problems := foreignFiles plan w
  let shown := (problems.mergeSort fun p q => decide (p ≤ q)).take 8
  let more := if problems.length ≤ 8 then []
    else cstr (" (and " ++ toString (problems.length - 8) ++ " more)")
  check (problems = []) (.eapx (cstr (toString problems.length ++
    " file(s) under the install roots were not produced by this recipe and would be destroyed: ")
    ++ (cstr ", ").intercalate shown ++ more ++ cstr (". Move them elsewhere, or mark the root " ++
    "as \"exclusive\": true if replacing everything is intended.")))

/-- The stage is made, as far as the packages can be read and there is room. -/
def stagePayload (payload : CString → Option Content) : Job Unit :=
  Process.operation (fun w => w.stage payload)
    (fun keep w => (.raised .system, (w.stage payload).cutArea .staged keep))
    (fun keep w => (w.stage payload).cutArea .staged keep)

def install (attempt : Attempt) : Job Report := do
  Process.modify fun w => { w with data := none }
  recover sha256
  let ready ← Process.read (markerFastPath recipe)
  if ready.isSome then Process.pure .alreadyReady
  else do
    let adopted ← adopt recipe attempt
    if adopted then Process.pure .adopted
    else do
      let plan ← Job.ofExcept attempt.plan
      let unforeign ← Process.read (checkForeignFiles plan)
      Job.ofExcept unforeign
      stagePayload attempt.payload
      let valid ← Process.read (validateTree sha256 crc32 recipe plan true .staged)
      Job.ofExcept valid
      let profile ← Process.read fun w => recipe.identifyProfile plan.abi (w.fileAt .staged)
      let profile ← Job.ofExcept profile
      commit sha256 crc32 recipe { plan with profile } attempt.transactionId
      Process.pure .committed

/-- `verify`: every file that the marker lists is there as it was, and so is the profile. -/
def verifyItem (tree : FileTree) (item : MarkerItem) : Except Failure Unit := do
  let bytes ← require (tree item.destination)
    (.validation (cstr "missing: " ++ item.destination.text))
  check (bytes.length = item.size) (.validation (cstr "modified: " ++ item.destination.text))
  check (item.sha256 = none ∨ item.sha256 = some (sha256 bytes))
    (.validation (cstr "modified: " ++ item.destination.text))

def verify (w : World) : Except Failure Unit := do
  let marker ← require w.marker (.eapx (cstr "no marker; the game data is not installed"))
  marker.items.forM (verifyItem sha256 (w.fileAt .live))
  let profile ← recipe.identifyProfile marker.abi (w.fileAt .live)
  check (recipe.profiles.isEmpty ∨ profile = marker.donorProfile)
    (.validation (cstr "donor profile changed: marker=" ++ marker.donorProfile.getD (cstr "None") ++
      cstr " current=" ++ profile.getD (cstr "None")))

end Commit

end Transaction

end NfsmwRuntime.Install
