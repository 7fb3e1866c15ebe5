import Mathlib.Tactic.SplitIfs
import NfsmwRuntime.Library.Bytes
import NfsmwRuntime.Library.Search

/-!
# The graphics provider

`nfsmw_runtime_environment` looks for a pair of EGL and GLES2 libraries that the runtime's
own preflight accepts. A pair that the user has set comes first. In a Wayland session the
Mesa libraries come next, and if there are any, but none that works, the search ends there:
the Mali libraries, which have no Wayland window system, are not tried.
-/

namespace NfsmwRuntime.Launch

open Library

/-- An EGL and a GLES2 library. -/
abbrev LibraryPair := CString × CString

/-- What the script asks the system: `[ -e ]`, `[ -S ]`, the expansion of a pattern in a
directory, and `nfsmw_runtime --probe-gl`. -/
structure GraphicsHost where
  fileExists : CString → Bool
  isSocket : CString → Bool
  expand : CString → String → List CString
  probeGl : LibraryPair → Bool
  fileExists_nil : fileExists [] = false
  isSocket_nil : isSocket [] = false

/-- The variables that selection reads, empty if they are not set, and `id -u`. -/
structure GraphicsSettings where
  directories : List CString
  sdlVideoEglDriver : CString
  sdlVideoGlDriver : CString
  xdgRuntimeDir : CString
  userId : CString

inductive MesaPass where
  | marked | versioned | unversioned
  deriving DecidableEq, Repr

variable (host : GraphicsHost) (settings : GraphicsSettings)

/-- `"$directory/$file"` -/
def fileIn (directory : CString) (file : String) : CString := directory ++ cstr "/" ++ cstr file

/-- `case "$directory" in */mali)` -/
def endsInMali (directory : CString) : Bool := (cstr "/mali").isSuffixOf directory

def manualPair : Option LibraryPair :=
  if settings.sdlVideoEglDriver ≠ [] ∧ settings.sdlVideoGlDriver ≠ [] ∧
      host.probeGl (settings.sdlVideoEglDriver, settings.sdlVideoGlDriver) then
    some (settings.sdlVideoEglDriver, settings.sdlVideoGlDriver)
  else none

def runtimeDirs : List CString :=
  [settings.xdgRuntimeDir, cstr "/run/user/" ++ settings.userId, cstr "/run/user/0",
    cstr "/var/run/0-runtime-dir"]

def waylandSocket : Option CString :=
  (runtimeDirs settings).findSome? fun runtimeDir =>
    if runtimeDir = [] then none else (host.expand runtimeDir "wayland-*").find? host.isSocket

/-- One round of the Mesa loop over the directories. -/
def mesaRound (pass : MesaPass) (directory : CString) : Search LibraryPair :=
  if endsInMali directory then .skip
  else
    let pair : LibraryPair :=
      if pass = .unversioned then (fileIn directory "libEGL.so", fileIn directory "libGLESv2.so")
      else (fileIn directory "libEGL.so.1", fileIn directory "libGLESv2.so.2")
    let marker := host.fileExists (fileIn directory "libEGL_mesa.so.0")
    if !(host.fileExists pair.1 && host.fileExists pair.2) then .skip
    else if pass = .marked ∧ !marker then .skip
    else if pass = .versioned ∧ marker then .skip
    else .attempt host.probeGl pair

def mesaSearch : Search LibraryPair :=
  .firstIn [.marked, .versioned, .unversioned] fun pass =>
    .firstIn settings.directories fun directory => mesaRound host pass directory

/-- The search in all directories, whatever they are called. -/
def generalSearch : Search LibraryPair :=
  .firstIn settings.directories fun directory =>
    .firstIn [fileIn directory "libEGL.so", fileIn directory "libEGL.so.1"] fun egl =>
      if !host.fileExists egl then .skip
      else
        .firstIn [fileIn directory "libGLESv2.so", fileIn directory "libGLESv2.so.2"] fun gles =>
          if !host.fileExists gles then .skip else .attempt host.probeGl (egl, gles)

/-- Libraries that hold both. -/
def blobSearch : Search LibraryPair :=
  .firstIn settings.directories fun directory =>
    .firstIn (host.expand directory "libmali*.so*" ++ host.expand directory "libMali.so*")
      fun blob => if !host.fileExists blob then .skip else .attempt host.probeGl (blob, blob)

/-- Provider selection: the automatic probes and the pair chosen. -/
def selectProvider : Search LibraryPair :=
  match manualPair host settings with
  | some pair => ⟨[], some pair⟩
  | none =>
    if (waylandSocket host settings).isSome then
      let mesa := mesaSearch host settings
      -- `mesa_candidate` is set right before a probe
      if mesa.found.isNone && !mesa.tried.isEmpty then mesa
      else mesa.orElse ((generalSearch host settings).orElse (blobSearch host settings))
    else (generalSearch host settings).orElse (blobSearch host settings)

/-! ## The order of preference -/

/-- The text before the last slash. -/
def dirname (path : CString) : CString :=
  ((path.reverse.dropWhile (· ≠ 47)).drop 1).reverse

def versionedPair (directory : CString) : LibraryPair :=
  (fileIn directory "libEGL.so.1", fileIn directory "libGLESv2.so.2")

def unversionedPair (directory : CString) : LibraryPair :=
  (fileIn directory "libEGL.so", fileIn directory "libGLESv2.so")

def hasMesa (directory : CString) : Bool :=
  host.fileExists (fileIn directory "libEGL_mesa.so.0")

/-- Both files of a pair exist, in a directory that is not Mali's. -/
def offers (pairIn : CString → LibraryPair) (directory : CString) : Bool :=
  !endsInMali directory && host.fileExists (pairIn directory).1 &&
    host.fileExists (pairIn directory).2

/-- The candidates of a Wayland session: versioned pairs beside Mesa's EGL, then the other
versioned pairs, then the unversioned ones. -/
def mesaCandidates : List LibraryPair :=
  (settings.directories.filter fun directory =>
    offers host versionedPair directory && hasMesa host directory).map versionedPair ++
  ((settings.directories.filter fun directory =>
    offers host versionedPair directory && !hasMesa host directory).map versionedPair ++
  (settings.directories.filter (offers host unversionedPair)).map unversionedPair)

variable {host settings}

theorem firstIn_filter {loop : List CString} {body : CString → Search LibraryPair}
    {keep : CString → Bool} {pairIn : CString → LibraryPair}
    (h : ∀ d, body d = if keep d then .attempt host.probeGl (pairIn d) else .skip) :
    Search.firstIn loop body = .among host.probeGl ((loop.filter keep).map pairIn) := by
  rw [Search.firstIn_eq_among (g := fun d => if keep d then [pairIn d] else [])]
  · congr 1
    induction loop <;> grind
  · intro d _
    rw [h d]
    cases keep d <;> simp

theorem mesaSearch_eq : mesaSearch host settings =
    .among host.probeGl (mesaCandidates host settings) := by
  have hmarked : Search.firstIn settings.directories (mesaRound host .marked) =
      .among host.probeGl ((settings.directories.filter fun d =>
        offers host versionedPair d && hasMesa host d).map versionedPair) :=
    firstIn_filter fun d => by grind [mesaRound, offers, versionedPair, hasMesa]
  have hversioned : Search.firstIn settings.directories (mesaRound host .versioned) =
      .among host.probeGl ((settings.directories.filter fun d =>
        offers host versionedPair d && !hasMesa host d).map versionedPair) :=
    firstIn_filter fun d => by grind [mesaRound, offers, versionedPair, hasMesa]
  have hunversioned : Search.firstIn settings.directories (mesaRound host .unversioned) =
      .among host.probeGl
        ((settings.directories.filter (offers host unversionedPair)).map unversionedPair) :=
    firstIn_filter fun d => by grind [mesaRound, offers, unversionedPair]
  rw [mesaSearch, Search.firstIn_cons, Search.firstIn_cons, Search.firstIn_cons,
    Search.firstIn_nil, Search.orElse_skip, mesaCandidates, Search.among_append,
    Search.among_append, hmarked, hversioned, hunversioned]

theorem mem_mesaCandidates {pair : LibraryPair} :
    pair ∈ mesaCandidates host settings ↔ ∃ d ∈ settings.directories,
      offers host versionedPair d ∧ pair = versionedPair d ∨
        offers host unversionedPair d ∧ pair = unversionedPair d := by
  simp only [mesaCandidates, List.mem_append, List.mem_map, List.mem_filter, Bool.and_eq_true]
  constructor
  · rintro (⟨d, ⟨hd, hoffers, -⟩, rfl⟩ | ⟨d, ⟨hd, hoffers, -⟩, rfl⟩ | ⟨d, ⟨hd, hoffers⟩, rfl⟩)
    · exact ⟨d, hd, .inl ⟨hoffers, rfl⟩⟩
    · exact ⟨d, hd, .inl ⟨hoffers, rfl⟩⟩
    · exact ⟨d, hd, .inr ⟨hoffers, rfl⟩⟩
  · rintro ⟨d, hd, ⟨hoffers, rfl⟩ | ⟨hoffers, rfl⟩⟩
    · cases hmesa : hasMesa host d with
      | true => exact .inl ⟨d, ⟨hd, hoffers, hmesa⟩, rfl⟩
      | false => exact .inr (.inl ⟨d, ⟨hd, hoffers, by simp [hmesa]⟩, rfl⟩)
    · exact .inr (.inr ⟨d, ⟨hd, hoffers⟩, rfl⟩)

theorem dirname_fileIn {directory : CString} {file : String} (h : 47 ∉ cstr file) :
    dirname (fileIn directory file) = directory := by
  have hfile : ∀ c ∈ (cstr file).reverse, c ≠ 47 := fun c hc heq => h (by simpa [heq] using hc)
  have hslash : (cstr "/").reverse = [47] := by decide
  rw [dirname, fileIn, List.reverse_append, List.reverse_append, hslash,
    List.dropWhile_append_of_pos (by simpa using hfile)]
  simp

/-- What the searches find passes any test that existing candidates pass with the probe. -/
theorem selectProvider_passes {ok : LibraryPair → Bool}
    (hok : ∀ egl gles, host.fileExists egl = true → host.probeGl (egl, gles) = true →
      ok (egl, gles) = true)
    (hmanual : ∀ pair, manualPair host settings = some pair → ok pair = true) :
    (selectProvider host settings).Passes ok := by
  have hgeneral : (generalSearch host settings).Passes ok := by
    refine Search.passes_firstIn fun d _ => Search.passes_firstIn fun egl _ => ?_
    split
    · exact Search.passes_skip
    next hegl =>
      refine Search.passes_firstIn fun gles _ => ?_
      split
      · exact Search.passes_skip
      · exact Search.passes_attempt (hok egl gles (by simpa using hegl))
  have hblob : (blobSearch host settings).Passes ok := by
    refine Search.passes_firstIn fun d _ => Search.passes_firstIn fun blob _ => ?_
    split
    · exact Search.passes_skip
    next hblob => exact Search.passes_attempt (hok blob blob (by simpa using hblob))
  have hmesa : (mesaSearch host settings).Passes ok := by
    refine Search.passes_firstIn fun pass _ => Search.passes_firstIn fun d _ => ?_
    unfold mesaRound
    grind [Search.passes_skip, Search.passes_attempt]
  unfold selectProvider
  split
  next pair hpair =>
    intro pair' hpair'
    obtain rfl := Option.some.inj hpair'
    exact hmanual pair hpair
  · grind [Search.Passes.orElse]

/-- The script's tests for an empty string see a choice exactly if there is one. -/
theorem selectProvider_ne_nil {pair : LibraryPair}
    (h : (selectProvider host settings).found = some pair) : pair.1 ≠ [] := by
  have hpasses : (selectProvider host settings).Passes fun pair => decide (pair.1 ≠ []) := by
    refine selectProvider_passes (fun egl gles hegl _ => ?_) fun pair hpair => ?_
    · grind [host.fileExists_nil]
    · grind [manualPair]
  simpa using hpasses pair h

theorem waylandSocket_ne_nil {socket : CString} (h : waylandSocket host settings = some socket) :
    socket ≠ [] := by
  obtain ⟨runtimeDir, -, hfound⟩ := List.exists_of_findSome?_eq_some h
  split_ifs at hfound
  have hsocket := List.find?_some hfound
  grind [host.isSocket_nil]

/-- In a Wayland session with a pair outside Mali's directories, the Mesa search decides. -/
theorem selectProvider_wayland {d : CString}
    (hmanual : settings.sdlVideoEglDriver = [] ∨ settings.sdlVideoGlDriver = [] ∨
      host.probeGl (settings.sdlVideoEglDriver, settings.sdlVideoGlDriver) = false)
    (hwayland : (waylandSocket host settings).isSome)
    (hd : d ∈ settings.directories)
    (hoffers : offers host versionedPair d ∨ offers host unversionedPair d) :
    selectProvider host settings = .among host.probeGl (mesaCandidates host settings) := by
  have hnone : manualPair host settings = none := by grind [manualPair]
  have hcandidates : mesaCandidates host settings ≠ [] := by
    refine List.ne_nil_of_mem (a := if offers host versionedPair d then versionedPair d
      else unversionedPair d) (mem_mesaCandidates.mpr ⟨d, hd, ?_⟩)
    grind
  rw [selectProvider, hnone, if_pos hwayland, ← mesaSearch_eq]
  have htried : (mesaSearch host settings).tried ≠ [] := by
    rwa [mesaSearch_eq, Ne, Search.tried_among_eq_nil]
  grind [Search.orElse]

/-- Whatever is chosen passed its probe. In a Wayland session with a pair outside Mali's
directories and no working manual pair, no probe goes to a Mali directory, and the choice is
the first of the Mesa candidates that passes, if there is one. -/
theorem selectProvider_correct :
    (∀ pair, (selectProvider host settings).found = some pair → host.probeGl pair = true) ∧
    ((settings.sdlVideoEglDriver = [] ∨ settings.sdlVideoGlDriver = [] ∨
        host.probeGl (settings.sdlVideoEglDriver, settings.sdlVideoGlDriver) = false) →
      (∃ runtimeDir ∈ runtimeDirs settings, runtimeDir ≠ [] ∧
        ∃ socket ∈ host.expand runtimeDir "wayland-*", host.isSocket socket = true) →
      (∃ d ∈ settings.directories,
        offers host versionedPair d = true ∨ offers host unversionedPair d = true) →
      (∀ pair ∈ (selectProvider host settings).tried,
        endsInMali (dirname pair.1) = false ∧ endsInMali (dirname pair.2) = false) ∧
      ((selectProvider host settings).found.isSome ↔ ∃ d ∈ settings.directories,
        offers host versionedPair d = true ∧ host.probeGl (versionedPair d) = true ∨
          offers host unversionedPair d = true ∧ host.probeGl (unversionedPair d) = true) ∧
      (selectProvider host settings).found =
        (mesaCandidates host settings).find? host.probeGl) := by
  refine ⟨selectProvider_passes (fun _ _ _ hprobe => hprobe) fun pair hpair => by
    grind [manualPair], fun hmanual hsocket ⟨d, hd, hoffers⟩ => ?_⟩
  have hwayland : (waylandSocket host settings).isSome := by
    obtain ⟨runtimeDir, hmem, hne, socket, hexpand, hsocket⟩ := hsocket
    rw [waylandSocket, List.isSome_findSome?, List.any_eq_true]
    refine ⟨runtimeDir, hmem, ?_⟩
    rw [if_neg hne, List.find?_isSome]
    exact ⟨socket, hexpand, hsocket⟩
  rw [selectProvider_wayland hmanual hwayland hd hoffers]
  have hparts : ∀ {d pairIn}, offers host pairIn d = true → endsInMali d = false := by
    grind [offers]
  refine ⟨fun pair hpair => ?_, ?_, Search.found_among⟩
  · obtain ⟨d, -, ⟨hoffers, rfl⟩ | ⟨hoffers, rfl⟩⟩ :=
      mem_mesaCandidates.mp (Search.tried_among_subset hpair)
    · rw [versionedPair, dirname_fileIn (by decide), dirname_fileIn (by decide)]
      exact ⟨hparts hoffers, hparts hoffers⟩
    · rw [unversionedPair, dirname_fileIn (by decide), dirname_fileIn (by decide)]
      exact ⟨hparts hoffers, hparts hoffers⟩
  · rw [Search.found_among, List.find?_isSome]
    constructor
    · rintro ⟨pair, hpair, hprobe⟩
      obtain ⟨d, hd, ⟨hoffers, rfl⟩ | ⟨hoffers, rfl⟩⟩ := mem_mesaCandidates.mp hpair
      · exact ⟨d, hd, .inl ⟨hoffers, hprobe⟩⟩
      · exact ⟨d, hd, .inr ⟨hoffers, hprobe⟩⟩
    · rintro ⟨d, hd, ⟨hoffers, hprobe⟩ | ⟨hoffers, hprobe⟩⟩
      · exact ⟨_, mem_mesaCandidates.mpr ⟨d, hd, .inl ⟨hoffers, rfl⟩⟩, hprobe⟩
      · exact ⟨_, mem_mesaCandidates.mpr ⟨d, hd, .inr ⟨hoffers, rfl⟩⟩, hprobe⟩

/-- A Mali directory before a Mesa directory, and a compositor's socket. -/
def rocknixHost : GraphicsHost where
  fileExists path := path ∈ [(unversionedPair (cstr "/mali")).1, (unversionedPair (cstr "/mali")).2,
    (versionedPair (cstr "/mesa")).1, (versionedPair (cstr "/mesa")).2,
    fileIn (cstr "/mesa") "libEGL_mesa.so.0"]
  isSocket path := path = cstr "/runtime/wayland-0"
  expand directory pattern := [if directory = cstr "/runtime" ∧ pattern = "wayland-*" then
    cstr "/runtime/wayland-0" else fileIn directory pattern]
  probeGl pair := pair = versionedPair (cstr "/mesa")
  fileExists_nil := by decide
  isSocket_nil := by decide

def rocknixSettings : GraphicsSettings where
  directories := [cstr "/mali", cstr "/mesa"]
  sdlVideoEglDriver := []
  sdlVideoGlDriver := []
  xdgRuntimeDir := cstr "/runtime"
  userId := cstr "0"

theorem rocknix_selects_mesa :
    (selectProvider rocknixHost rocknixSettings).found = some (versionedPair (cstr "/mesa")) ∧
      ∀ pair ∈ (selectProvider rocknixHost rocknixSettings).tried,
        endsInMali (dirname pair.1) = false ∧ endsInMali (dirname pair.2) = false := by
  obtain ⟨hmali, -, hfound⟩ := (@selectProvider_correct rocknixHost rocknixSettings).2 (.inl rfl)
    ⟨cstr "/runtime", by decide, by decide, cstr "/runtime/wayland-0", by decide, by decide⟩
    ⟨cstr "/mesa", by decide, by decide⟩
  exact ⟨hfound.trans (by decide), hmali⟩

end NfsmwRuntime.Launch
