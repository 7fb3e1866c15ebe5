import NfsmwRuntime.Install.Transaction

/-!
# Extracting to the stage

Before a transaction the files of the plan are copied out of their packages to the stage. Each is
written next to its place, checked, and renamed. An extraction that was cut short is taken up
again: the files that are there and are as the plan has them are not copied a second time.
-/

namespace NfsmwRuntime.Install

open Library

/-! ## The stage -/

/-- A path below the stage, by the names on it. -/
abbrev Names := List CString

inductive Node
  | file (bytes : List UInt8)
  | folder
  deriving DecidableEq, Repr

/-- What the stage was made for, as `stage-state` has it. -/
structure StageState where
  format : Nat
  semanticDigest : CString
  planFingerprint : CString
  abi : CString
  deriving DecidableEq, Repr

structure StageDisk where
  state : Option StageState
  tree : Names → Option Node

/-- Which files an unfinished removal leaves, and how much of a file has been written. -/
structure Damage where
  keep : Names → Bool
  written : Option Nat

abbrev StageJob := Process Damage StageDisk Failure

def Item.names (item : Item) : Names := item.destination.text.splitOn 47

theorem Item.names_ne_nil (item : Item) : item.names ≠ [] := List.splitOn_ne_nil _ _

/-- The path with `.part` added, which has no slash. -/
def partOf (path : Names) : Names := path.dropLast ++ [path.getLastD [] ++ cstr ".part"]

namespace StageDisk

def set (d : StageDisk) (path : Names) (node : Option Node) : StageDisk :=
  { d with tree := Function.update d.tree path node }

/-- What is left when a folder is removed. A folder goes after all that is in it. -/
def prune (d : StageDisk) (path : Names) (keep : Names → Bool) : StageDisk :=
  { d with tree := fun q =>
      if path.isPrefixOf q && q.inits.any (fun r => path.isPrefixOf r && !keep r) then none
      else d.tree q }

/-- What is left of a file that was not written to its end, if it was opened at all. -/
def begin (d : StageDisk) (path : Names) (bytes : List UInt8) (cut : Damage) : StageDisk :=
  d.set path (cut.written.map fun n => .file (bytes.take n))

/-- The stage as the files that a validation sees. -/
def fileAt (d : StageDisk) : FileTree := fun t =>
  match d.tree (t.text.splitOn 47) with
  | some (.file bytes) => some bytes
  | _ => none

end StageDisk

namespace StageJob

def system : StageJob Unit := Process.atomic .system id

def ofExcept {α : Type} : Except Failure α → StageJob α
  | .ok a => Process.pure a
  | .error e => Process.raise e

def node (path : Names) : StageJob (Option Node) := Process.read fun d => d.tree path

def mkdir (path : Names) : StageJob Unit := do
  let found ← node path
  match found with
  | some .folder => Process.pure ()
  | some (.file _) => Process.raise .system
  | none => Process.atomic .system fun d => d.set path (some .folder)

/-- `os.makedirs` -/
def makedirs (path : Names) : StageJob Unit := Process.each mkdir path.inits

/-- `remove_path`. The errors of `shutil.rmtree` are ignored. -/
def removePath (path : Names) : StageJob Unit := do
  let found ← node path
  match found with
  | none => Process.pure ()
  | some (.file _) => Process.atomic .system fun d => d.set path none
  | some .folder =>
    Process.operation (fun d => d.prune path fun _ => false)
      (fun cut d => (.ok (), d.prune path cut.keep)) (fun cut d => d.prune path cut.keep)

/-- A new file is opened and written. -/
def writeNew (path : Names) (bytes : List UInt8) : StageJob Unit := do
  let found ← node path
  if found.isSome then Process.raise .system
  else
    Process.operation (fun d => d.set path (some (.file bytes)))
      (fun cut d => (.raised .system, d.begin path bytes cut)) fun cut d => d.begin path bytes cut

/-- `os.replace` of a file. -/
def replace (source target : Names) : StageJob Unit := do
  let moved ← node source
  let there ← node target
  match moved with
  | some (.file bytes) =>
    if there = some .folder then Process.raise .system
    else Process.atomic .system fun d => (d.set target (some (.file bytes))).set source none
  | _ => Process.raise .system

/-- `finally` -/
def andFinally {α : Type} (p : StageJob α) (cleanup : StageJob Unit) : StageJob α := do
  let a ← p.onError cleanup
  cleanup
  Process.pure a

end StageJob

section Staging

variable (sha256 : List UInt8 → List UInt8) (crc32 : List UInt8 → Nat)

/-! ## The checks on a file -/

/-- The file is as the item has it, as far as the item knows. -/
def Item.Accepts (item : Item) (bytes : List UInt8) : Prop :=
  bytes.length = item.size ∧ (item.crc = none ∨ item.crc = some (crc32 bytes)) ∧
    (item.sha256 = none ∨ item.sha256 = some (sha256 bytes))

instance (item : Item) (bytes : List UInt8) : Decidable (item.Accepts sha256 crc32 bytes) :=
  inferInstanceAs (Decidable (_ ∧ _ ∧ _))

/-- The marker records what is actually on disk. -/
def Item.record (item : Item) (bytes : List UInt8) : Item :=
  { item with crc := some (crc32 bytes), sha256 := some (sha256 bytes) }

def checkExtracted (item : Item) (bytes : List UInt8) : Except Failure Unit := do
  let text := item.destination.text
  check (bytes.length = item.size) (.validation (text ++ cstr (": extracted " ++
    toString bytes.length ++ " bytes, expected " ++ toString item.size)))
  check (item.crc = none ∨ item.crc = some (crc32 bytes))
    (.validation (text ++ cstr ": checksum mismatch"))
  check (item.sha256 = none ∨ item.sha256 = some (sha256 bytes))
    (.validation (text ++ cstr ": content hash mismatch"))

/-! ## The steps -/

/-- A stage for a different recipe or payload goes, and so do its hooks. -/
def discardOther (identity : StageState) : StageJob Unit := do
  let previous ← Process.read fun d : StageDisk => d.state
  if previous = some identity then Process.pure ()
  else do
    StageJob.removePath []
    StageJob.system

/-- Reuse the stage only when it belongs to this exact recipe and plan. -/
def prepareStage (identity : StageState) : StageJob Unit := do
  discardOther identity
  StageJob.makedirs []
  Process.atomic .system fun d => { d with state := some identity }
  StageJob.system

def itemAlreadyStaged (item : Item) : StageJob (Option Item) := do
  let found ← StageJob.node item.names
  match found with
  | some (.file bytes) => do
    StageJob.system
    Process.pure (if item.Accepts sha256 crc32 bytes then some (item.record sha256 crc32 bytes)
      else none)
  | _ => Process.pure none

/-- An item with what is known of it, and how much of it is missing. -/
def measure (item : Item) : StageJob (Item × Nat) := do
  let staged ← itemAlreadyStaged sha256 crc32 item
  Process.pure (match staged with
    | some seen => (seen, 0)
    | none => (item, item.size))

def preflightSpace (humanBytes : Nat → CString) (safetyBytes free : Nat) (items : List Item) :
    StageJob (List Item) := do
  let measured ← Process.collect (measure sha256 crc32) items
  let missing := measured.foldl (fun sum m => sum + m.2) 0
  StageJob.system
  if free < missing + safetyBytes then
    Process.raise (.eapx (cstr "not enough free space: need " ++
      humanBytes (missing + safetyBytes) ++ cstr " (" ++ humanBytes missing ++
      cstr " of payload plus " ++ humanBytes safetyBytes ++ cstr " of headroom), " ++
      humanBytes free ++ cstr " available"))
  else Process.pure (measured.map Prod.fst)

/-- One file, out of the package that has it. -/
def extractItem (source : Names → List UInt8) (item : Item) : StageJob Item := do
  let staged ← itemAlreadyStaged sha256 crc32 item
  match staged with
  | some seen => Process.pure seen
  | none => do
    let path := item.names
    StageJob.ofExcept (validateRelativePath (cstr "stage destination") item.destination.text)
    StageJob.makedirs path.dropLast
    StageJob.removePath (partOf path)
    StageJob.andFinally (do
      StageJob.writeNew (partOf path) (source path)
      StageJob.ofExcept (checkExtracted sha256 crc32 item (source path))
      StageJob.replace (partOf path) path
      Process.pure (item.record sha256 crc32 (source path)))
      (StageJob.removePath (partOf path))

/-- What one run brings to the stage: a plan, the packages and the space that there is. -/
structure Staging where
  identity : StageState
  items : List Item
  source : Names → List UInt8
  safetyBytes : Nat
  free : Nat

/-- `prepare_stage`, `preflight_space` and `extract` -/
def stageItems (humanBytes : Nat → CString) (staging : Staging) : StageJob (List Item) := do
  prepareStage staging.identity
  let items ← preflightSpace sha256 crc32 humanBytes staging.safetyBytes staging.free staging.items
  Process.collect (extractItem sha256 crc32 staging.source) items

end Staging

end NfsmwRuntime.Install
