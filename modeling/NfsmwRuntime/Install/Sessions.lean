import NfsmwRuntime.Install.Commit

/-!
# Runs of the installer, one after the other

The installer is run again and again, and each of its runs may fail or be killed. Seen from
outside, a run either installs all that it has found, or nothing: it is one step of a store that
holds a version, and a run that was killed has taken the step or has not.
-/

namespace NfsmwRuntime.Install

open Library Process

/-! ## The store that the installer is for -/

/-- What is installed once the attempt has been made. -/
def Attempt.result (attempt : Attempt) (V : Version) : Version :=
  match attempt.plan with
  | .ok plan => Version.exchange V plan.paths attempt.payload
  | .error _ => V

abbrev Run := Attempt × Ending Failure Report

/-- The files of a version. -/
def Version.fileAt (V : Version) : FileTree := fun t => (V t.root).bind fun c => c.lookup t.inside

/-- A run that reports success has taken its step, one that fails or has nothing to do has not,
and one that was killed may have. -/
inductive Steps (V : Version) : List Run → Version → Prop
  | nil : Steps V [] V
  | kept {runs : List Run} {V' : Version} {run : Run} (h : Steps V runs V')
      (hrun : run.2 ≠ .ok .committed) : Steps V (runs ++ [run]) V'
  | taken {runs : List Run} {V' : Version} {run : Run} (h : Steps V runs V')
      (hrun : run.2 = .ok .committed ∨ run.2 = .killed) : Steps V (runs ++ [run]) (run.1.result V')

section Sessions

variable (sha256 : List UInt8 → List UInt8) (crc32 : List UInt8 → Nat) (recipe : Recipe)

/-- The version to which a run that meets no faults leads back. -/
def World.version (w : World) : Version := fun p =>
  (recover sha256 [] { w with data := none }).state.content .live p

/-- What the attempt stages can be told from what is installed, and its roots can be followed. -/
structure Attempt.Proper (attempt : Attempt) (w : World) : Prop where
  nodup : ∀ plan, attempt.plan = .ok plan → plan.paths.Nodup
  valid : ∀ plan, attempt.plan = .ok plan → ∀ p ∈ plan.paths, ∀ label,
    validateRelativePath label p = .ok ()
  differ : ∀ plan, attempt.plan = .ok plan → ∀ p ∈ plan.paths,
    digestOf sha256 p (attempt.payload p) ≠ digestOf sha256 p (w.version sha256 p)
  fresh : w.marker.map Marker.transactionId ≠ some attempt.transactionId

/-- Runs of the installer. In none of them does an operation fail between the writing of its
marker and the removal of its journal. -/
inductive Session (start : World) : List Run → World → Prop
  | start : Session start [] start
  | run {runs : List Run} {w : World} (h : Session start runs w) (attempt : Attempt)
      (fates : List (Fate Cut)) (hproper : attempt.Proper sha256 w)
      (hsteady : ∀ tried ∈ (install sha256 crc32 recipe attempt fates w).trace,
        Steady attempt.transactionId tried.1 tried.2) :
      Session start (runs ++ [(attempt, (install sha256 crc32 recipe attempt fates w).ending)])
        (install sha256 crc32 recipe attempt fates w).state

end Sessions

section Install

variable {sha256 : List UInt8 → List UInt8} {crc32 : List UInt8 → Nat} {recipe : Recipe}
  {attempt : Attempt} {A : World → Fate Cut → Prop} {w : World} {V : Version} {m : Option Marker}

theorem Shows.withData (h : Shows sha256 V w) (data : Option Journal) :
    Shows sha256 V { w with data } := ⟨h.live, h.backup⟩

theorem Stands.withData (h : Stands sha256 V w) (data : Option Journal) :
    Stands sha256 V { w with data } := by
  cases h with
  | settled h => exact .settled { h.withData data with journal := h.journal }
  | interrupted x hx hversion h hjournal => exact .interrupted x hx hversion h hjournal
  | published j h =>
    exact .published j { h.withData data with
      format := h.format, journal := h.journal, marker := h.marker }

/-- Whatever happens to a recovery, the disk stands for the same version. -/
theorem recover_stands : Triple (fun _ _ => True) (Stands sha256 V) (recover sha256)
    (fun _ => Stands sha256 V) (Stands sha256 V) (Stands sha256 V) :=
  .of_states fun w hw => (recover_settles (V := V) (m := w.marker)).conseq
    (fun _ hu => ⟨hu ▸ hw, congrArg _ hu⟩) (fun _ _ h => Stands.settled h.1) (fun _ h => h.1.1)
    fun _ h => h.1.1

/-- A recovery to which nothing happens ends without an error. -/
theorem recover_ends : Triple NoFaults (Stands sha256 V) (recover sha256)
    (fun _ => Settled sha256 V) (fun _ => Fails (NoFaults : World → Fate Cut → Prop))
    fun _ => Kills (NoFaults : World → Fate Cut → Prop) :=
  .of_states fun w hw => (recover_settles (V := V) (m := w.marker)).conseq
    (fun _ hu => ⟨hu ▸ hw, congrArg _ hu⟩) (fun _ _ h => h.1) (fun _ h => h.2) fun _ h => h.2

/-- A disk stands for one version. -/
theorem Stands.version_eq (h : Stands sha256 V w) : w.version sha256 = V := by
  obtain ⟨u, -, hsettled⟩ := recover_ends.run (h.withData none)
  exact funext hsettled.live

/-! ### One run -/

/-- A result that may be an error, which is raised. -/
theorem ofExcept_eq {α : Type} {result : Except Failure α} {P R K : World → Prop}
    (hR : ∀ w, P w → R w) :
    Triple A P (Job.ofExcept result) (fun a w => result = .ok a ∧ P w) R K := by
  cases result with
  | ok a => exact .pure fun w hw => ⟨rfl, hw⟩
  | error e => exact .raise hR

/-- The marker lists the files that were found under the commit roots. -/
def Adopted (recipe : Recipe) (transactionId : CString) (w : World) : Prop :=
  ∃ abi profile, recipe.identifyProfile abi (w.fileAt .live) = .ok profile ∧
    w.marker = some (newMarker recipe
      ⟨abi, (recipe.commitRoots abi).flatMap fun root => adoptedItems w root.path,
        recipe.commitRoots abi, profile⟩ transactionId true)

theorem adopt_settled {transactionId : CString} (abis : List CString) :
    Triple A (fun w => Settled sha256 V w ∧ w.marker = m)
      (adoptExisting recipe transactionId abis)
      (fun adopted w => Settled sha256 V w ∧
        if adopted then Adopted recipe transactionId w else w.marker = m)
      (Settled sha256 V) (Settled sha256 V) := by
  induction abis with
  | nil => exact .pure fun w hw => hw
  | cons abi abis ih =>
    refine .bind (Q := fun w' w => w' = w ∧ Settled sha256 V w ∧ w.marker = m)
      (.read fun w hw => ⟨rfl, hw⟩) fun w' => ?_
    dsimp only
    split
    · exact ih.pre fun _ hw => hw.2
    · exact .raise fun w hw => hw.2.1
    · refine .bind (ofExcept_eq fun w hw => hw.2.1) fun profile => ?_
      refine .bind (Q := fun _ w => Adopted recipe transactionId w ∧ Settled sha256 V w)
        (.bind (Q := fun _ w => Adopted recipe transactionId w ∧ Settled sha256 V w)
          (.atomic (fun w hw => ?_) (fun w _ _ hw => hw.2.2.1) fun w _ _ hw => hw.2.2.1) fun _ =>
            .atomic (fun w hw => hw) (fun w _ _ hw => hw.2) fun w _ _ hw => hw.2) fun _ =>
              .pure fun w hw => ⟨hw.2, hw.1⟩
      obtain ⟨hprofile, rfl, hsettled, -⟩ := hw
      exact ⟨⟨abi, profile, hprofile, rfl⟩,
        { hsettled.withData w'.data with journal := hsettled.journal }⟩

/-! ### A run that goes through -/

@[simp] theorem World.content_stage {b : Area} {p : CString} {payload : Version} :
    (w.stage payload).content b p = if b = .staged then payload p else w.content b p := rfl

theorem World.fileAt_eq {a : Area} : w.fileAt a = Version.fileAt (w.content a) := rfl

/-- The run has got as far as making its stage. -/
structure Staged (sha256 : List UInt8 → List UInt8) (V : Version) (m : Option Marker)
    (payload : Version) (w : World) : Prop extends Settled sha256 V w where
  marker : w.marker = m
  staged : w.content .staged = payload

theorem stagePayload_staged {payload : Version} {K : World → Prop}
    (hK : ∀ w, Settled sha256 V w → K w) :
    Triple A (fun w => Settled sha256 V w ∧ w.marker = m) (stagePayload payload)
      (fun _ => Staged sha256 V m payload) (Stands sha256 V) K := by
  have hsettled : ∀ w, Settled sha256 V w → Settled sha256 V (w.stage payload) := fun w hw =>
    { live := fun p => by simpa using hw.live p
      backup := fun p => by simpa using hw.backup p
      journal := hw.journal }
  have hcut : ∀ w keep, Settled sha256 V w →
      Settled sha256 V ((w.stage payload).cutArea .staged keep) :=
    fun w keep hw => (hsettled w hw).cutArea (by decide) keep
  refine .operation (fun w hw => ?_) (fun keep w _ hw => .settled (hcut w keep hw.1))
    fun keep w _ hw => hK _ (hcut w keep hw.1)
  exact { hsettled w hw.1 with marker := hw.2, staged := funext fun p => by simp }

/-- Every file under a commit root that is not exclusive is planned. -/
def Plan.Keeps (plan : Plan) (V : Version) : Prop :=
  ∀ root ∈ plan.roots, root.exclusive = false → ∀ files, V root.path = some (.folder files) →
    ∀ f ∈ files, (Target.mk root.path f.1).text ∈ plan.items.map fun item => item.destination.text

/-- What has been seen to when the exchange begins. -/
structure Certified (sha256 : List UInt8 → List UInt8) (crc32 : List UInt8 → Nat)
    (recipe : Recipe) (attempt : Attempt) (V : Version) (plan : Plan) (profile : Option CString) :
    Prop where
  found : attempt.plan = .ok plan
  items : plan.items.forM
    (validateItem sha256 crc32 true (Version.fileAt attempt.payload)) = .ok ()
  profile : recipe.identifyProfile plan.abi (Version.fileAt attempt.payload) = .ok profile
  keeps : plan.Keeps V

theorem keeps_of_checkForeignFiles {plan : Plan} {u : Unit}
    (h : checkForeignFiles plan w = .ok u) : plan.Keeps (w.content .live) := by
  have hnil : foreignFiles plan w = [] := check_eq_ok.mp h
  intro root hroot hexclusive files hfiles f hf
  by_contra hforeign
  have hmem : (Target.mk root.path f.1).text ∈ foreignFiles plan w := by
    refine List.mem_flatMap.mpr ⟨root, List.mem_filter.mpr ⟨hroot, by simp [hexclusive]⟩, ?_⟩
    rw [hfiles]
    exact List.mem_filter.mpr ⟨List.mem_map.mpr ⟨f, hf, rfl⟩, by simpa using hforeign⟩
  rw [hnil] at hmem
  cases hmem

theorem adopt_keeps : Triple A (fun w => Settled sha256 V w ∧ w.marker = m) (adopt recipe attempt)
    (fun adopted w => Settled sha256 V w ∧
      if adopted then Adopted recipe attempt.transactionId w else w.marker = m)
    (Settled sha256 V) (Settled sha256 V) := by
  unfold adopt
  split_ifs
  · exact .pure fun w hw => hw
  · exact adopt_settled attempt.abis

/-- What a run has seen to, by what it reports. -/
def Attempt.Reports (sha256 : List UInt8 → List UInt8) (crc32 : List UInt8 → Nat)
    (recipe : Recipe) (attempt : Attempt) (V : Version) (w : World) : Report → Prop
  | .alreadyReady => (markerFastPath recipe w).isSome
  | .adopted => Adopted recipe attempt.transactionId w
  | .committed => ∃ plan profile, Certified sha256 crc32 recipe attempt V plan profile ∧
      w.marker = some (newMarker recipe { plan with profile } attempt.transactionId false)

/-- A run of the installer is a step of the store, or none. -/
theorem install_steps (hplan : ∀ plan, attempt.plan = .ok plan →
      (Exchange.mk attempt.transactionId plan.paths V attempt.payload m).Proper sha256)
    (hA : ∀ w cut, A w (.failed cut) → ¬ Closing attempt.transactionId w) :
    Triple A (fun w => Stands sha256 V w ∧ w.marker = m)
      (install sha256 crc32 recipe attempt)
      (fun report w => Settled sha256 (if report = .committed then attempt.result V else V) w ∧
        attempt.Reports sha256 crc32 recipe V w report)
      (Stands sha256 V)
      (fun w => Stands sha256 V w ∨ Stands sha256 (attempt.result V) w) := by
  have hsettled : ∀ w, Settled sha256 V w → Stands sha256 V w := fun w hw => .settled hw
  have hkept : ∀ w, Settled sha256 V w → Stands sha256 V w ∨ Stands sha256 (attempt.result V) w :=
    fun w hw => .inl (.settled hw)
  refine .bind (Q := fun _ w => Stands sha256 V w ∧ w.marker = m)
    (.modify fun w hw => ⟨hw.1.withData none, hw.2⟩) fun _ => ?_
  refine .bind (recover_settles.conseq (fun _ hw => hw) (fun _ _ hw => hw) (fun w hw => hw.1.1)
    fun w hw => .inl hw.1.1) fun _ => ?_
  refine .bind (Q := fun ready w => ready = markerFastPath recipe w ∧
    Settled sha256 V w ∧ w.marker = m) (.read fun w hw => ⟨rfl, hw⟩) fun ready => ?_
  split
  · rename_i hready
    exact .pure fun w hw => ⟨by simpa using hw.2.1,
      show (markerFastPath recipe w).isSome from hw.1 ▸ hready⟩
  refine .bind (adopt_keeps.conseq (fun _ hw => hw.2) (fun _ _ hw => hw) hsettled hkept)
    fun adopted => ?_
  cases adopted with
  | true => exact .pure fun w hw => ⟨by simpa using hw.1, hw.2⟩
  | false =>
  refine .bind (Triple.pre (ofExcept_eq fun w hw => hsettled w hw.1) fun w hw =>
    show Settled sha256 V w ∧ w.marker = m from ⟨hw.1, by simpa using hw.2⟩) fun plan =>
      .of_pre (fun _ hw => hw.1) fun hfound => ?_
  refine .bind (Q := fun unforeign w => unforeign = checkForeignFiles plan w ∧
    Settled sha256 V w ∧ w.marker = m) (.read fun w hw => ⟨rfl, hw.2⟩) fun unforeign => ?_
  refine .bind (ofExcept_eq fun w hw => hsettled w hw.2.1) fun _ =>
    .of_pre (C := plan.Keeps V) (fun w hw => ?_) fun hkeeps => ?_
  · exact funext hw.2.2.1.live ▸ keeps_of_checkForeignFiles (hw.2.1.symm.trans hw.1)
  refine .bind ((stagePayload_staged hkept).pre fun _ hw => hw.2.2) fun _ => ?_
  refine .bind (Q := fun valid w => valid = validateTree sha256 crc32 recipe plan true .staged w ∧
    Staged sha256 V m attempt.payload w) (.read fun w hw => ⟨rfl, hw⟩) fun valid => ?_
  refine .bind (ofExcept_eq fun w hw => hsettled w hw.2.toSettled) fun _ =>
    .of_pre (C := plan.items.forM
      (validateItem sha256 crc32 true (Version.fileAt attempt.payload)) = .ok ())
      (fun w hw => ?_) fun hitems => ?_
  · have hvalid := hw.2.1.symm.trans hw.1
    obtain ⟨u, hitems, -⟩ := bind_eq_ok.mp hvalid
    exact hw.2.2.staged ▸ hitems
  refine .bind (Q := fun profile w =>
    profile = recipe.identifyProfile plan.abi (Version.fileAt attempt.payload) ∧
      Staged sha256 V m attempt.payload w) (.read fun w hw => ?_) fun profile => ?_
  · exact ⟨by rw [World.fileAt_eq, hw.2.2.staged], hw.2.2⟩
  refine .bind (ofExcept_eq fun w hw => hsettled w hw.2.toSettled) fun profile =>
    .of_pre (fun w hw => hw.2.1.symm.trans hw.1) fun hprofile => ?_
  have hresult : (Exchange.mk attempt.transactionId plan.paths V attempt.payload m).result =
      attempt.result V := by
    funext p
    rw [Exchange.result, Attempt.result, hfound]
  refine .bind ((commit_exchanges { plan with profile } (hplan plan hfound) rfl hA).conseq
    (fun w hw => ?_) (fun _ w hw => hw) (fun _ hw => hw) fun w hw => ?_) fun _ =>
      .pure fun w hw => ?_
  · exact { hw.2.2.toSettled with
      marker := hw.2.2.marker, staged := fun p _ => congrFun hw.2.2.staged p }
  · exact hresult ▸ hw.1
  · exact ⟨by simpa [hresult] using hw.1,
      plan, profile, ⟨hfound, hitems, hprofile, hkeeps⟩, hw.2⟩

end Install

/-! ### Runs one after the other -/

section Sessions

variable {sha256 : List UInt8 → List UInt8} {crc32 : List UInt8 → Nat} {recipe : Recipe}
  {start w : World} {runs : List Run} {attempt : Attempt} {fates : List (Fate Cut)} {V : Version}

/-- Nothing has been begun on this disk. -/
structure World.Fresh (w : World) : Prop where
  journal : w.journal = none
  backup : ∀ p, w.content .saved p = none

theorem World.Fresh.settled (h : start.Fresh) : Settled sha256 (start.content .live) start where
  live _ := rfl
  backup p := by rw [h.backup p]; exact digestible_none
  journal := h.journal

theorem Attempt.Proper.exchange (h : attempt.Proper sha256 w) (hstands : Stands sha256 V w) :
    ∀ plan, attempt.plan = .ok plan →
      (Exchange.mk attempt.transactionId plan.paths V attempt.payload w.marker).Proper sha256 :=
  fun plan hplan => ⟨h.nodup plan hplan, h.valid plan hplan, h.fresh,
    hstands.version_eq ▸ h.differ plan hplan⟩

/-- What a run leaves, by the way in which it ends. -/
theorem install_meets (hproper : attempt.Proper sha256 w) (hstands : Stands sha256 V w)
    (hsteady : ∀ tried ∈ (install sha256 crc32 recipe attempt fates w).trace,
      Steady attempt.transactionId tried.1 tried.2) :
    (install sha256 crc32 recipe attempt fates w).Meets
      (fun report w => Settled sha256 (if report = .committed then attempt.result V else V) w ∧
        attempt.Reports sha256 crc32 recipe V w report)
      (Stands sha256 V)
      (fun w => Stands sha256 V w ∨ Stands sha256 (attempt.result V) w) :=
  (install_steps (A := Steady attempt.transactionId) (hproper.exchange hstands)
    (fun _ _ h hclosing => h hclosing trivial) fates w ⟨hstands, rfl⟩ (.inr hsteady)).1

/-- A disk that the installer has worked on stands for a version to which its runs lead. -/
theorem Session.stands (hstart : start.Fresh) (h : Session sha256 crc32 recipe start runs w) :
    ∃ V, Stands sha256 V w ∧ Steps (start.content .live) runs V := by
  induction h with
  | start => exact ⟨_, .settled hstart.settled, .nil⟩
  | run h attempt fates hproper hsteady ih =>
    obtain ⟨V, hstands, hsteps⟩ := ih
    have hmeets := install_meets hproper hstands hsteady
    generalize install sha256 crc32 recipe attempt fates _ = o at hmeets
    obtain ⟨ending, w', rest, trace⟩ := o
    cases ending with
    | ok report =>
      by_cases hreport : report = .committed
      · subst hreport
        exact ⟨_, .settled hmeets.1, .taken hsteps (.inl rfl)⟩
      · rw [meets_ok, if_neg hreport] at hmeets
        exact ⟨V, .settled hmeets.1, .kept hsteps fun heq => hreport (Ending.ok.inj heq)⟩
    | raised e => exact ⟨V, hmeets, .kept hsteps nofun⟩
    | killed =>
      rcases hmeets with hmeets | hmeets
      · exact ⟨V, hmeets, .kept hsteps nofun⟩
      · exact ⟨_, hmeets, .taken hsteps (.inr rfl)⟩

def sampleRecipe : Recipe where
  identifier := cstr "sample"
  semanticDigest := cstr "00"
  profiles := []
  hasOutputChecks := false
  commitRoots _ := []
  outputChecks _ _ := .ok ()

def sampleAttempt : Attempt where
  abis := []
  noAdopt := false
  transactionId := cstr "t"
  plan := .ok ⟨cstr "armeabi", [⟨⟨cstr "lib", cstr "a"⟩, 1, none, some (Library.sha256 [2])⟩],
    [⟨cstr "lib", false⟩], none⟩
  payload p := if p = cstr "lib" then some (.folder [(cstr "a", [2])]) else none

def sampleDisk : World where
  trees q := if q = (.live, cstr "lib") then some (.folder [(cstr "a", [1])]) else none
  journal := none
  marker := none
  data := none

theorem sampleDisk_fresh : sampleDisk.Fresh where
  journal := rfl
  backup p := by simp [sampleDisk, World.content]

theorem sampleAttempt_proper : sampleAttempt.Proper Library.sha256 sampleDisk where
  nodup plan h := by
    obtain rfl := Except.ok.inj h
    decide
  valid plan h p hp label := by
    obtain rfl := Except.ok.inj h
    obtain rfl := List.mem_singleton.mp hp
    rfl
  differ plan h p hp := by
    obtain rfl := Except.ok.inj h
    obtain rfl := List.mem_singleton.mp hp
    rw [(Stands.settled sampleDisk_fresh.settled).version_eq]
    decide +kernel
  fresh := nofun

def sampleFates : List (Fate Cut) := List.replicate 12 .done ++ [.killed fun _ _ => false]

def sampleKilled : World :=
  (install Library.sha256 Library.crc32 sampleRecipe sampleAttempt sampleFates sampleDisk).state

theorem sampleSession : Session Library.sha256 Library.crc32 sampleRecipe sampleDisk
    [(sampleAttempt, .killed)] sampleKilled := by
  have hsteady : ∀ tried ∈ (install Library.sha256 Library.crc32 sampleRecipe sampleAttempt
      sampleFates sampleDisk).trace, ¬ tried.2.IsFailure := by decide +kernel
  have hending : (install Library.sha256 Library.crc32 sampleRecipe sampleAttempt sampleFates
      sampleDisk).ending = .killed := by decide +kernel
  exact hending ▸ .run .start sampleAttempt sampleFates sampleAttempt_proper
    fun tried h _ => hsteady tried h

/-- The removal of the journal fails after the marker has been written, and the process is killed
when it has taken the payload back. -/
def sampleLateFates : List (Fate Cut) :=
  List.replicate 23 .done ++ [.failed fun _ _ => false] ++ List.replicate 4 .done ++
    [.killed fun _ _ => false]

/-- Sessions have to be steady: the next run takes what is being undone for what is done, and
removes both versions. -/
theorem late_failure_loses :
    let w := (install Library.sha256 Library.crc32 sampleRecipe sampleAttempt sampleLateFates
      sampleDisk).state
    w.content .staged (cstr "lib") = some (.folder [(cstr "a", [2])]) ∧
      w.content .saved (cstr "lib") = some (.folder [(cstr "a", [1])]) ∧
      ∀ a ∈ [Area.live, .staged, .saved],
        (recover Library.sha256 [] { w with data := none }).state.content a (cstr "lib") =
          none := by
  decide +kernel

/-- Recovery is begun again and again, each time with what its faults have left. -/
def recoverAgain (sha256 : List UInt8 → List UInt8) (attempts : List (List (Fate Cut)))
    (w : World) : World :=
  attempts.foldl (fun w fates => (recover sha256 fates { w with data := none }).state) w

theorem Stands.recoverAgain (h : Stands sha256 V w) (attempts : List (List (Fate Cut))) :
    Stands sha256 V (recoverAgain sha256 attempts w) := by
  induction attempts generalizing w with
  | nil => exact h
  | cons fates attempts ih =>
    exact ih (recover_stands fates { w with data := none } (h.withData none)
      (.inr fun _ _ => trivial)).1.state

def sampleAgain : World := recoverAgain Library.sha256 [sampleFates, sampleFates] sampleKilled

def sampleRecord : Record where
  path := cstr "lib"
  state := .backingUp
  digestNew := some (.tree (Library.sha256 (fileRecord Library.sha256 (cstr "a", [2]))))
  digestOld := some (.tree (Library.sha256 (fileRecord Library.sha256 (cstr "a", [1]))))

end Sessions

end NfsmwRuntime.Install
