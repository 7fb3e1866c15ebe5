import NfsmwRuntime.Install.Extraction

/-!
# Extractions that are taken up again

An extraction can fail or be killed at any point, any number of times. The one that goes through
leaves the same as if none had been cut short, and nothing but the files of the plan.
-/

namespace NfsmwRuntime.Install

open Library Process

variable {sha256 : List UInt8 → List UInt8} {crc32 : List UInt8 → Nat}
  {humanBytes : Nat → CString} {A : StageDisk → Fate Damage → Prop} {d₀ d : StageDisk}

/-! ## A stage of the same plan -/

/-- Only the stage's own folder may have been made. -/
structure SameStage (d₀ d : StageDisk) : Prop where
  state : d.state = d₀.state
  tree : ∀ q, q ≠ [] → d.tree q = d₀.tree q

theorem mkdir_root_triple : Triple A (fun d => d = d₀) (StageJob.makedirs [])
    (fun _ d => SameStage d₀ d ∧ d.tree [] = some .folder)
    (fun d => d = d₀ ∧ ((∀ bytes, d₀.tree [] ≠ some (.file bytes)) → Fails A))
    (fun d => d = d₀) := by
  have hsame : SameStage d₀ d₀ := ⟨rfl, fun _ _ => rfl⟩
  refine .bind (Q := fun _ d => SameStage d₀ d ∧ d.tree [] = some .folder) ?_ fun _ =>
    .pure fun _ hd => hd
  refine .bind (Q := fun found d => d = d₀ ∧ d₀.tree [] = found) (.read fun d hd => ⟨hd, hd ▸ rfl⟩)
    fun found => ?_
  match found with
  | some .folder => exact .pure fun d hd => ⟨hd.1 ▸ hsame, hd.1 ▸ hd.2⟩
  | some (.file bytes) =>
    exact .raise fun d hd => ⟨hd.1, fun hfile => absurd hd.2 (hfile bytes)⟩
  | none =>
    refine .atomic (fun d hd => ⟨⟨hd.1 ▸ rfl, fun q hq => ?_⟩, by simp⟩)
      (fun d cut hfault hd => ⟨hd.1, fun _ => ⟨d, cut, hfault⟩⟩) fun d cut _ hd => hd.1
    rw [StageDisk.tree_set, if_neg hq, hd.1]

theorem prepareStage_same {identity : StageState} (hstate : d₀.state = some identity) :
    Triple A (fun d => d = d₀) (prepareStage identity)
      (fun _ d => SameStage d₀ d ∧ d.tree [] = some .folder)
      (fun d => SameStage d₀ d ∧ ((∀ bytes, d₀.tree [] ≠ some (.file bytes)) → Fails A))
      (SameStage d₀) := by
  have hsame : SameStage d₀ d₀ := ⟨rfl, fun _ _ => rfl⟩
  refine .bind (Q := fun _ d => d = d₀) ?_ fun _ => ?_
  · refine .bind (Q := fun previous d => d = d₀ ∧ previous = some identity)
      (.read fun d hd => ⟨hd, hd ▸ hstate⟩) fun previous => .of_pre (fun d hd => hd.2) fun heq => ?_
    rw [if_pos heq]
    exact .pure fun d hd => hd.1
  refine .bind (mkdir_root_triple.conseq (fun _ h => h) (fun _ _ h => h)
    (fun d hd => ⟨hd.1 ▸ hsame, hd.2⟩) fun d hd => hd ▸ hsame) fun _ => ?_
  refine .bind (Q := fun _ d => SameStage d₀ d ∧ d.tree [] = some .folder)
    (.atomic (fun d hd => ⟨⟨hstate.symm, hd.1.tree⟩, hd.2⟩)
      (fun d cut hfault hd => ⟨hd.1, fun _ => ⟨d, cut, hfault⟩⟩) fun d cut _ hd => hd.1) fun _ => ?_
  exact .atomic (fun d hd => hd) (fun d cut hfault hd => ⟨hd.1, fun _ => ⟨d, cut, hfault⟩⟩)
    fun d cut _ hd => hd.1

section Source

variable {source : Names → List UInt8} {item : Item} {items : List Item}

theorem Partway.ofSame {d₁ : StageDisk} (h : Partway sha256 crc32 source d₁ items d)
    (hsame : SameStage d₀ d₁) (hitem : item ∈ items) : ItemPartway sha256 crc32 source d₀ item d :=
  (h.items item hitem).congr ⟨hsame.tree _ item.names_ne_nil, hsame.tree _ partOf_ne_nil⟩ ⟨rfl, rfl⟩

variable (sha256 crc32 source) in
/-- What the path of an item holds once all has been extracted. -/
def stagedBytes (d : StageDisk) (item : Item) : List UInt8 :=
  (kept sha256 crc32 d item).getD (source item.names)

/-- Whatever has become of an item, it leads to the same file. -/
theorem ItemPartway.stagedBytes_eq (h : ItemPartway sha256 crc32 source d₀ item d) :
    stagedBytes sha256 crc32 source d item = stagedBytes sha256 crc32 source d₀ item := by
  unfold stagedBytes
  rcases h with ⟨hhere, -⟩ | ⟨hkept, haccepts, hhere, -⟩
  · rw [kept_congr hhere]
  · rw [kept_eq_some.mpr ⟨hhere, haccepts⟩, hkept]
    rfl

variable (sha256 crc32 humanBytes) in
/-- An attempt on a stage that is of its plan. -/
theorem stageItems_same (staging : Staging) (hstate : d₀.state = some staging.identity)
    (hapart : AllApart (staging.items.map Item.names)) :
    Triple A (fun d => d = d₀) (stageItems sha256 crc32 humanBytes staging)
      (fun seen d => (d.state = d₀.state ∧ ∀ item ∈ staging.items,
          ItemPartway sha256 crc32 staging.source d₀ item d) ∧
        List.Forall₂ (SeenAs sha256 crc32 d) staging.items seen)
      (fun d => d.state = d₀.state ∧ ∀ item ∈ staging.items,
        ItemPartway sha256 crc32 staging.source d₀ item d)
      (fun d => d.state = d₀.state ∧ ∀ item ∈ staging.items,
        ItemPartway sha256 crc32 staging.source d₀ item d) := by
  have hprepared : ∀ d, SameStage d₀ d → d.state = d₀.state ∧ ∀ item ∈ staging.items,
      ItemPartway sha256 crc32 staging.source d₀ item d := fun d hd => ⟨hd.state, fun item hitem =>
    .inl ⟨hd.tree _ item.names_ne_nil, .inl (hd.tree _ partOf_ne_nil)⟩⟩
  refine .bind ((prepareStage_same hstate).conseq (fun _ h => h) (fun _ _ h => h.1)
    (fun d hd => hprepared d hd.1) hprepared) fun _ => .of_states fun d₁ hsame => ?_
  have hpartway : ∀ d, Partway sha256 crc32 staging.source d₁ staging.items d →
      d.state = d₀.state ∧ ∀ item ∈ staging.items,
        ItemPartway sha256 crc32 staging.source d₀ item d := fun d hd =>
    ⟨hd.state.trans hsame.state, fun item hitem => hd.ofSame hsame hitem⟩
  exact (preflight_extract_triple hapart).conseq (fun _ h => h)
    (fun seen d hd => ⟨hpartway d hd.1, hd.2⟩) (fun d hd => hpartway d hd.1) hpartway

/-! ## Attempts that are cut short -/

/-- An attempt with the room that there is for it, and what happens in it. -/
abbrev Interruption := Nat × List (Fate Damage)

variable (sha256 crc32 humanBytes) in
/-- What attempts at one plan leave, however they end. -/
def interrupted (staging : Staging) (attempts : List Interruption) (d : StageDisk) : StageDisk :=
  attempts.foldl (fun d attempt =>
    (stageItems sha256 crc32 humanBytes { staging with free := attempt.1 } attempt.2 d).state) d

theorem interrupted_leads {staging : Staging} (hapart : AllApart (staging.items.map Item.names))
    (attempts : List Interruption) (hstate : d.state = some staging.identity) :
    (interrupted sha256 crc32 humanBytes staging attempts d).state = some staging.identity ∧
      ∀ item ∈ staging.items, stagedBytes sha256 crc32 staging.source
        (interrupted sha256 crc32 humanBytes staging attempts d) item =
          stagedBytes sha256 crc32 staging.source d item := by
  induction attempts generalizing d with
  | nil => exact ⟨hstate, fun _ _ => rfl⟩
  | cons attempt attempts ih =>
    have hattempt := stageItems_same sha256 crc32 humanBytes { staging with free := attempt.1 }
      (A := fun _ _ => True) hstate hapart
    obtain ⟨hkept, hleads⟩ := ((hattempt.post fun _ _ h => h.1) attempt.2 d rfl
      (.inr fun _ _ => trivial)).1.state
    obtain ⟨hlast, hsame⟩ := ih (hkept.trans hstate)
    exact ⟨hlast, fun item hitem => (hsame item hitem).trans (hleads item hitem).stagedBytes_eq⟩

end Source

def sampleState : StageState := ⟨1, cstr "00", cstr "01", cstr "armeabi"⟩

def sampleObb : Item := ⟨⟨cstr "main.obb", []⟩, 1, none, none⟩

/-- A library out of a zip, and a data file of which nothing but the size is known. -/
def sampleStaging : Staging where
  identity := sampleState
  items := [⟨⟨cstr "lib", cstr "a.so"⟩, 2, some (Library.crc32 [1, 2]), none⟩,
    sampleObb]
  source path := if path = [cstr "lib", cstr "a.so"] then [1, 2] else [3]
  safetyBytes := 10
  free := 100

/-- The data file is on the stage as an earlier run found it. -/
def sampleStage : StageDisk where
  state := some sampleState
  tree path := if path = [] then some .folder
    else if path = [cstr "main.obb"] then some (.file [9]) else none

/-- A run that is killed when it has written one byte. -/
def sampleCutShort : Interruption :=
  (100, List.replicate 5 .done ++ [.killed ⟨fun _ => true, some 1⟩])

instance (p q : Names) : Decidable (Apart p q) :=
  decidable_of_iff (¬ p <+: q ∧ ¬ partOf p <+: q) ⟨fun h => ⟨h.1, h.2⟩, fun h => ⟨h.1, h.2⟩⟩

instance (paths : List Names) : Decidable (AllApart paths) :=
  inferInstanceAs (Decidable (List.Pairwise _ _))

def sampleBytes (n : Nat) : CString := cstr (toString n)

/-- What the run that goes through has seen on the stage. -/
def sampleSeen : List Item :=
  [⟨⟨cstr "lib", cstr "a.so"⟩, 2, some (Library.crc32 [1, 2]), some (Library.sha256 [1, 2])⟩,
    ⟨⟨cstr "main.obb", []⟩, 1, some (Library.crc32 [9]), some (Library.sha256 [9])⟩]

/-- The files on the stage are at the paths of a plan or are parts, and the folders are above. -/
structure Tidy (paths : List Names) (d : StageDisk) : Prop where
  root : d.tree [] = some .folder
  folder : ∀ q, d.tree q = some .folder → q = [] ∨ ∃ p ∈ paths, q <+: p.dropLast
  file : ∀ q bytes, d.tree q = some (.file bytes) → ∃ p ∈ paths, q = p ∨ q = partOf p

section Tidy

variable {paths : List Names} {p q : Names}

/-- What is taken away leaves the rest as it is. -/
theorem Tidy.of_or {d' : StageDisk} (h : Tidy paths d) (hroot : d'.tree [] = some .folder)
    (hor : ∀ q, d'.tree q = none ∨ d'.tree q = d.tree q) : Tidy paths d' := by
  have hback : ∀ q node, d'.tree q = some node → d.tree q = some node := by
    intro q node hq
    rcases hor q with heq | heq
    · cases heq.symm.trans hq
    · exact heq ▸ hq
  exact ⟨hroot, fun q hq => h.folder q (hback q _ hq),
    fun q bytes hq => h.file q bytes (hback q _ hq)⟩

theorem Tidy.set_none (h : Tidy paths d) (hq : q ≠ []) : Tidy paths (d.set q none) := by
  refine h.of_or ?_ fun r => ?_
  · rw [StageDisk.tree_set, if_neg hq.symm, h.root]
  · rw [StageDisk.tree_set]
    split_ifs
    · exact .inl rfl
    · exact .inr rfl

theorem Tidy.set_folder (h : Tidy paths d) (hp : p ∈ paths) (hq : q <+: p.dropLast) :
    Tidy paths (d.set q (some .folder)) := by
  constructor
  · rw [StageDisk.tree_set]
    split_ifs
    · rfl
    · exact h.root
  · intro r hr
    rw [StageDisk.tree_set] at hr
    split_ifs at hr with heq
    · exact .inr ⟨p, hp, heq ▸ hq⟩
    · exact h.folder r hr
  · intro r bytes hr
    rw [StageDisk.tree_set] at hr
    split_ifs at hr
    · cases hr
    · exact h.file r bytes hr

theorem Tidy.set_file (h : Tidy paths d) (hp : p ∈ paths) (hq : q = p ∨ q = partOf p)
    (hne : q ≠ []) (bytes : List UInt8) : Tidy paths (d.set q (some (.file bytes))) := by
  constructor
  · rw [StageDisk.tree_set, if_neg hne.symm, h.root]
  · intro r hr
    rw [StageDisk.tree_set] at hr
    split_ifs at hr
    · cases hr
    · exact h.folder r hr
  · intro r bytes' hr
    rw [StageDisk.tree_set] at hr
    split_ifs at hr with heq
    · exact ⟨p, hp, heq ▸ hq⟩
    · exact h.file r bytes' hr

theorem Tidy.prune (h : Tidy paths d) (hq : q ≠ []) (keep : Names → Bool) :
    Tidy paths (d.prune q keep) :=
  h.of_or (by rw [StageDisk.tree_prune_of_not (fun hle => hq (List.prefix_nil.mp hle)), h.root])
    fun r => StageDisk.tree_prune r keep

/-- What keeps a condition in each of the ways in which it ends. -/
abbrev Keeps {α : Type} (A : StageDisk → Fate Damage → Prop) (I : StageDisk → Prop)
    (job : StageJob α) : Prop :=
  Triple A I job (fun _ => I) I I

theorem Keeps.node {I : StageDisk → Prop} {α : Type} {f : Option Node → StageJob α}
    (h : ∀ found, Triple A (fun d => I d ∧ d.tree q = found) (f found) (fun _ => I) I I) :
    Keeps A I (StageJob.node q >>= f) :=
  .bind (Q := fun found d => I d ∧ d.tree q = found) (.read fun _ hd => ⟨hd, rfl⟩) h

theorem Keeps.ofExcept {I : StageDisk → Prop} {α : Type} (result : Except Failure α) :
    Keeps A I (StageJob.ofExcept result) :=
  (StageJob.ofExcept_triple fun _ _ _ h => h).post fun _ _ h => h.2

namespace StageJob

theorem removePath_tidy (hq : q ≠ []) : Keeps A (Tidy paths) (removePath q) :=
  .node fun found => match found with
    | none => .pure fun _ hd => hd.1
    | some (.file _) => .atomic (fun _ hd => hd.1.set_none hq) (fun _ _ _ hd => hd.1)
        fun _ _ _ hd => hd.1
    | some .folder => .operation (fun _ hd => hd.1.prune hq _) (fun _ _ _ hd => hd.1.prune hq _)
        fun _ _ _ hd => hd.1.prune hq _

theorem makedirs_tidy (hp : p ∈ paths) : Keeps A (Tidy paths) (makedirs p.dropLast) := by
  refine .each_keeps fun q hq => Keeps.node fun found => ?_
  match found with
  | some .folder => exact .pure fun d hd => hd.1
  | some (.file _) => exact .raise fun d hd => hd.1
  | none =>
    exact .atomic (fun d hd => hd.1.set_folder hp ((List.mem_inits _ _).mp hq))
      (fun d _ _ hd => hd.1) fun d _ _ hd => hd.1

theorem writeNew_tidy (hp : p ∈ paths) (bytes : List UInt8) :
    Keeps A (Tidy paths) (writeNew (partOf p) bytes) := by
  refine .node fun found => ?_
  have hbegin : ∀ cut (d : StageDisk), Tidy paths d →
      Tidy paths (d.begin (partOf p) bytes cut) := by
    rintro ⟨keep, written⟩ d hd
    cases written with
    | none => exact hd.set_none partOf_ne_nil
    | some n => exact hd.set_file hp (.inr rfl) partOf_ne_nil _
  split_ifs
  · exact .raise fun d hd => hd.1
  · exact .operation (fun d hd => hd.1.set_file hp (.inr rfl) partOf_ne_nil _)
      (fun cut d _ hd => hbegin cut d hd.1) fun cut d _ hd => hbegin cut d hd.1

theorem replace_tidy (hp : p ∈ paths) (hne : p ≠ []) :
    Keeps A (Tidy paths) (replace (partOf p) p) := by
  refine .node fun moved => .bind (Q := fun there d => Tidy paths d) (.read fun d hd => hd.1)
    fun there => ?_
  match moved with
  | some (.file bytes) =>
    dsimp only
    split_ifs
    · exact .raise fun d hd => hd
    · exact .atomic (fun d hd => (hd.set_file hp (.inl rfl) hne bytes).set_none partOf_ne_nil)
        (fun d _ _ hd => hd) fun d _ _ hd => hd
  | some .folder => exact .raise fun d hd => hd
  | none => exact .raise fun d hd => hd

end StageJob

variable {source : Names → List UInt8} {item : Item}

theorem itemAlreadyStaged_tidy : Keeps A (Tidy paths) (itemAlreadyStaged sha256 crc32 item) :=
  .node fun found => match found with
    | some (.file _) => .bind (.atomic (fun _ hd => hd.1) (fun _ _ _ hd => hd.1)
        fun _ _ _ hd => hd.1) fun _ => .pure fun _ hd => hd
    | some .folder => .pure fun _ hd => hd.1
    | none => .pure fun _ hd => hd.1

theorem extractItem_tidy (hp : item.names ∈ paths) :
    Keeps A (Tidy paths) (extractItem sha256 crc32 source item) := by
  refine .bind itemAlreadyStaged_tidy fun seen => ?_
  cases seen with
  | some seen => exact .pure fun d hd => hd
  | none =>
    have hremove : Keeps A (Tidy paths) (StageJob.removePath (partOf item.names)) :=
      StageJob.removePath_tidy partOf_ne_nil
    refine .bind (Keeps.ofExcept _) fun _ => .bind (StageJob.makedirs_tidy hp) fun _ =>
      .bind hremove fun _ => StageJob.andFinally_triple ?_ hremove fun _ => hremove
    exact .bind (StageJob.writeNew_tidy hp _) fun _ => .bind (Keeps.ofExcept _) fun _ =>
      .bind (StageJob.replace_tidy hp item.names_ne_nil) fun _ => .pure fun d hd => hd

variable {items : List Item} {safetyBytes free : Nat}

theorem preflight_extract_tidy (hpaths : ∀ item ∈ items, item.names ∈ paths) :
    Keeps A (Tidy paths) (preflightSpace sha256 crc32 humanBytes safetyBytes free items >>=
      fun found => collect (extractItem sha256 crc32 source) found) := by
  refine .of_states fun d₀ hd₀ => .bind (preflightSpace_triple.conseq (fun _ h => h)
    (fun _ _ h => h) (fun d hd => hd.1 ▸ hd₀) fun d hd => hd ▸ hd₀) fun found => ?_
  refine .of_pre (fun d hd => hd.2) fun hfound => ?_
  refine (Triple.collect (C := fun _ _ => True) (P := Tidy paths) fun m hm => ?_).conseq
    (fun d hd => hd.1 ▸ hd₀) (fun _ _ h => h.2) (fun _ h => h) fun _ h => h
  subst hfound
  obtain ⟨item, hitem, rfl⟩ := List.mem_map.mp hm
  have hmem := hpaths item hitem
  rw [← measured_names d₀ item] at hmem
  exact (extractItem_tidy hmem).post fun _ _ h => ⟨trivial, h⟩

end Tidy

/-! ## Sessions -/

section Sessions

variable {plans : StageState → List Item} {identity : StageState} {item : Item}

variable (sha256 crc32) in
/-- A part is there only while its item is not. -/
def Clean (d : StageDisk) (item : Item) : Prop :=
  d.tree (partOf item.names) = none ∨ kept sha256 crc32 d item = none

variable (sha256 crc32) in
/-- What is on the disk between two runs, if `plans` are the plans of the fingerprints. -/
structure StageSound (plans : StageState → List Item) (d : StageDisk) : Prop where
  rooted : (∀ q, d.tree q = none) ∨ d.tree [] = some .folder
  tidy : ∀ identity, d.state = some identity → d.tree [] = some .folder →
    Tidy ((plans identity).map Item.names) d
  clean : ∀ identity, d.state = some identity → ∀ item ∈ plans identity, Clean sha256 crc32 d item

theorem Clean.of_or {d' : StageDisk} (h : Clean sha256 crc32 d item)
    (hor : ∀ q, d'.tree q = none ∨ d'.tree q = d.tree q) : Clean sha256 crc32 d' item := by
  rcases hor (partOf item.names) with hpart | hpart
  · exact .inl hpart
  rcases h with h | h
  · exact .inl (hpart.trans h)
  · rcases hor item.names with hhere | hhere
    · exact .inr (by rw [kept, hhere])
    · exact .inr ((kept_congr hhere).trans h)

/-- The folder of the stage goes last. -/
theorem root_prune (q : Names) (keep : Names → Bool) (d : StageDisk) :
    (∀ r, (d.prune q keep).tree r = none) ∨ (d.prune q keep).tree [] = d.tree [] := by
  by_cases hq : q = []
  · subst hq
    cases hkeep : keep [] with
    | false => exact .inl fun r =>
        StageDisk.tree_prune_eq_none List.nil_prefix List.prefix_rfl hkeep
    | true => exact .inr (by simp [StageDisk.prune, hkeep])
  · exact .inr (StageDisk.tree_prune_of_not (fun hle => hq (List.prefix_nil.mp hle)) keep)

theorem StageSound.prune (h : StageSound sha256 crc32 plans d) (q : Names) (keep : Names → Bool) :
    StageSound sha256 crc32 plans (d.prune q keep) := by
  have hor : ∀ r, (d.prune q keep).tree r = none ∨ (d.prune q keep).tree r = d.tree r :=
    fun r => StageDisk.tree_prune r keep
  refine ⟨?_, fun identity hstate hroot => ?_, fun identity hstate item hitem =>
    (h.clean identity hstate item hitem).of_or hor⟩
  · rcases root_prune q keep d with hempty | hsame
    · exact .inl hempty
    · rw [hsame]
      exact h.rooted.imp_left fun hempty r => (hor r).elim (fun heq => heq) fun heq =>
        heq.trans (hempty r)
  · have hsame := (hor []).resolve_left (hroot ▸ nofun)
    exact (h.tidy identity hstate (hsame ▸ hroot)).of_or hroot hor

/-! ### Preparing the stage -/

/-- A removal that is not killed leaves nothing. -/
def Removes (A : StageDisk → Fate Damage → Prop) : Prop :=
  ∀ d cut, A d (.failed cut) → cut.keep [] = false

/-- There is nothing on the stage but its own folder. -/
def Bare (d : StageDisk) : Prop := ∀ q, q ≠ [] → d.tree q = none

theorem removeStage_triple (hA : Removes A) :
    Triple A (StageSound sha256 crc32 plans) (StageJob.removePath [])
      (fun _ d => StageSound sha256 crc32 plans d ∧ Bare d)
      (fun d => StageSound sha256 crc32 plans d ∧ Fails A) (StageSound sha256 crc32 plans) := by
  have hgone : ∀ (d : StageDisk) (keep : Names → Bool), keep [] = false →
      Bare (d.prune [] keep) := fun d keep hkeep q _ =>
    StageDisk.tree_prune_eq_none List.nil_prefix List.prefix_rfl hkeep
  refine .bind (Q := fun found d => StageSound sha256 crc32 plans d ∧ d.tree [] = found)
    (.read fun d hd => ⟨hd, rfl⟩) fun found => ?_
  rcases found with _ | bytes | _
  · refine .pure fun d hd => ⟨hd.1, fun q _ => ?_⟩
    rcases hd.1.rooted with hempty | hroot
    · exact hempty q
    · cases hroot.symm.trans hd.2
  · refine .of_pre (C := False) (fun d hd => ?_) False.elim
    rcases hd.1.rooted with hempty | hroot
    · cases (hempty []).symm.trans hd.2
    · cases hroot.symm.trans hd.2
  · exact .operation (fun d hd => ⟨hd.1.prune _ _, hgone d _ rfl⟩)
      (fun cut d hfault hd => ⟨hd.1.prune _ _, hgone d _ (hA d cut hfault)⟩)
      fun cut d _ hd => hd.1.prune _ _

theorem discardOther_triple (hA : Removes A) :
    Triple A (StageSound sha256 crc32 plans) (discardOther identity)
      (fun _ d => StageSound sha256 crc32 plans d ∧ (d.state = some identity ∨ Bare d))
      (fun d => StageSound sha256 crc32 plans d ∧ Fails A) (StageSound sha256 crc32 plans) := by
  refine .bind (Q := fun previous d => StageSound sha256 crc32 plans d ∧ d.state = previous)
    (.read fun d hd => ⟨hd, rfl⟩) fun previous => ?_
  split_ifs with heq
  · exact .pure fun d hd => ⟨hd.1, .inl (hd.2.trans heq)⟩
  · refine .bind ((removeStage_triple hA).pre fun d hd => hd.1) fun _ => ?_
    exact .atomic (fun d hd => ⟨hd.1, .inr hd.2⟩) (fun d cut hfault hd => ⟨hd.1, d, cut, hfault⟩)
      fun d _ _ hd => hd.1

theorem Bare.tidy {paths : List Names} (h : Bare d) (hroot : d.tree [] = some .folder) :
    Tidy paths d := by
  refine ⟨hroot, fun q hq => .inl (by_contra fun hne => ?_), fun q bytes hq => ?_⟩
  · cases (h q hne).symm.trans hq
  · by_cases hne : q = []
    · cases hroot.symm.trans (hne ▸ hq)
    · cases (h q hne).symm.trans hq

/-- The stage is ready for the plan. -/
structure StageReady (sha256 : List UInt8 → List UInt8) (crc32 : List UInt8 → Nat)
    (items : List Item) (identity : StageState) (d : StageDisk) : Prop where
  state : d.state = some identity
  tidy : Tidy (items.map Item.names) d
  clean : ∀ item ∈ items, Clean sha256 crc32 d item

theorem StageReady.sound (h : StageReady sha256 crc32 (plans identity) identity d) :
    StageSound sha256 crc32 plans d where
  rooted := .inr h.tidy.root
  tidy _ hstate _ := Option.some.inj (h.state.symm.trans hstate) ▸ h.tidy
  clean _ hstate := Option.some.inj (h.state.symm.trans hstate) ▸ h.clean

theorem makeRoot_triple :
    Triple A (fun d => StageSound sha256 crc32 plans d ∧ (d.state = some identity ∨ Bare d))
      (StageJob.makedirs []) (fun _ d => StageSound sha256 crc32 plans d ∧
        d.tree [] = some .folder ∧ (d.state = some identity ∨ Bare d))
      (fun d => StageSound sha256 crc32 plans d ∧ Fails A) (StageSound sha256 crc32 plans) := by
  refine .of_states fun d₀ hd₀ => mkdir_root_triple.conseq (fun _ h => h) (fun _ d hd => ?_)
    (fun d hd => ⟨hd.1 ▸ hd₀.1, hd.2 fun bytes hfile => ?_⟩) fun d hd => hd ▸ hd₀.1
  · obtain ⟨hsame, hroot⟩ := hd
    refine ⟨⟨.inr hroot, fun identity hstate _ => ?_, fun identity hstate item hitem => ?_⟩, hroot,
      hd₀.2.imp (fun hstate => hsame.state.trans hstate) fun hbare q hq =>
        (hsame.tree q hq).trans (hbare q hq)⟩
    all_goals rw [hsame.state] at hstate
    · rcases hd₀.1.rooted with hempty | hroot₀
      · exact Bare.tidy (fun q hq => (hsame.tree q hq).trans (hempty q)) hroot
      · refine (hd₀.1.tidy identity hstate hroot₀).of_or hroot fun q => .inr ?_
        by_cases hne : q = []
        · rw [hne, hroot, hroot₀]
        · exact hsame.tree q hne
    · rw [Clean, hsame.tree _ partOf_ne_nil, kept_congr (hsame.tree _ item.names_ne_nil)]
      exact hd₀.1.clean identity hstate item hitem
  · rcases hd₀.1.rooted with hempty | hroot
    · cases (hempty []).symm.trans hfile
    · cases hroot.symm.trans hfile

theorem prepareStage_sound (hA : Removes A) :
    Triple A (StageSound sha256 crc32 plans) (prepareStage identity)
      (fun _ => StageReady sha256 crc32 (plans identity) identity)
      (fun d => StageSound sha256 crc32 plans d ∧ Fails A) (StageSound sha256 crc32 plans) := by
  refine .bind (discardOther_triple hA) fun _ => .bind makeRoot_triple fun _ => ?_
  refine .bind (Q := fun _ => StageReady sha256 crc32 (plans identity) identity)
    (.atomic (fun d hd => ?_) (fun d cut hfault hd => ⟨hd.1, d, cut, hfault⟩)
      fun d cut _ hd => hd.1) fun _ => ?_
  · obtain ⟨hsound, hroot, hcase⟩ := hd
    refine ⟨rfl, ?_, fun item hitem => ?_⟩
    · rcases hcase with hstate | hbare
      · exact ⟨hroot, (hsound.tidy _ hstate hroot).folder, (hsound.tidy _ hstate hroot).file⟩
      · exact Bare.tidy hbare hroot
    · rcases hcase with hstate | hbare
      · exact hsound.clean _ hstate item hitem
      · exact .inl (hbare _ partOf_ne_nil)
  · exact .atomic (fun d hd => hd) (fun d cut hfault hd => ⟨hd.sound, d, cut, hfault⟩)
      fun d cut _ hd => hd.sound

/-! ### Extracting -/

/-- The plan can be extracted from its packages, and there is room for it. -/
structure Feasible (sha256 : List UInt8 → List UInt8) (crc32 : List UInt8 → Nat)
    (staging : Staging) : Prop where
  valid : ∀ item ∈ staging.items,
    validateRelativePath (cstr "stage destination") item.destination.text = .ok ()
  accepts : ∀ item ∈ staging.items, item.Accepts sha256 crc32 (staging.source item.names)
  room : staging.items.foldl (fun sum item => sum + item.size) 0 + staging.safetyBytes ≤
    staging.free

theorem missing_le (items : List Item) (d : StageDisk) :
    missing sha256 crc32 d items ≤ items.foldl (fun sum item => sum + item.size) 0 := by
  have hle : ∀ (items : List Item) (a b : Nat), a ≤ b →
      (items.map (measured sha256 crc32 d)).foldl (fun sum m => sum + m.2) a ≤
        items.foldl (fun sum item => sum + item.size) b := by
    intro items
    induction items with
    | nil => exact fun _ _ h => h
    | cons item items ih =>
      intro a b h
      refine ih _ _ (Nat.add_le_add h ?_)
      unfold measured
      split <;> simp
  exact hle items 0 0 (Nat.le_refl 0)

/-- On a tidy stage nothing is in the way of a plan whose paths are apart. -/
theorem Tidy.clear {items : List Item} (h : Tidy (items.map Item.names) d)
    (hapart : AllApart (items.map Item.names)) (hitem : item ∈ items) : Clear d item.names := by
  have hmem : item.names ∈ items.map Item.names := List.mem_map_of_mem hitem
  have hne := item.names_ne_nil
  refine ⟨fun q hq bytes hfile => ?_, fun hfolder => ?_, fun hfolder => ?_⟩
  · have hle := hq.trans (List.dropLast_prefix item.names)
    obtain ⟨r, hr, hcase⟩ := h.file q bytes hfile
    by_cases heq : r = item.names
    · subst heq
      rcases hcase with rfl | rfl
      · exact not_isPrefix_dropLast hne hq
      · exact not_above_partOf hne hq
    · rcases hcase with rfl | rfl
      · exact (hapart.apart hr hmem heq).path hle
      · exact (hapart.apart hr hmem heq).part hle
  · obtain ⟨r, hr, hle⟩ := (h.folder _ hfolder).resolve_left partOf_ne_nil
    by_cases heq : item.names = r
    · exact not_above_partOf hne (heq ▸ hle)
    · exact (hapart.apart hmem hr heq).part (hle.trans (List.dropLast_prefix r))
  · obtain ⟨r, hr, hle⟩ := (h.folder _ hfolder).resolve_left hne
    by_cases heq : item.names = r
    · exact not_isPrefix_dropLast hne (heq ▸ hle)
    · exact (hapart.apart hmem hr heq).path (hle.trans (List.dropLast_prefix r))

variable (sha256 crc32 humanBytes) in
theorem stageItems_sound {staging : Staging} (hA : Removes A)
    (hplan : staging.items = plans staging.identity)
    (hapart : AllApart (staging.items.map Item.names)) :
    Triple A (StageSound sha256 crc32 plans) (stageItems sha256 crc32 humanBytes staging)
      (fun seen d => StageReady sha256 crc32 staging.items staging.identity d ∧
        List.Forall₂ (SeenAs sha256 crc32 d) staging.items seen)
      (fun d => StageSound sha256 crc32 plans d ∧ (Feasible sha256 crc32 staging → Fails A))
      (StageSound sha256 crc32 plans) := by
  refine .bind ((prepareStage_sound hA).conseq (fun _ h => h) (fun _ _ h => h)
    (fun d hd => ⟨hd.1, fun _ => hd.2⟩) fun _ h => h) fun _ => .of_states fun d₁ hready => ?_
  rw [← hplan] at hready
  have hsound : ∀ d, Partway sha256 crc32 staging.source d₁ staging.items d →
      Tidy (staging.items.map Item.names) d →
      StageReady sha256 crc32 staging.items staging.identity d := by
    intro d hpartway htidy
    refine ⟨hpartway.state.trans hready.state, htidy, fun item hitem => ?_⟩
    rcases hpartway.items item hitem with ⟨hhere, hpart⟩ | ⟨-, -, -, hpart⟩
    · rcases hpart with hpart | hkept
      · rcases hready.clean item hitem with hclean | hclean
        · exact .inl (hpart.trans hclean)
        · exact .inr ((kept_congr hhere).trans hclean)
      · exact .inr ((kept_congr hhere).trans hkept)
    · exact .inl hpart
  refine ((preflight_extract_triple hapart).and (preflight_extract_tidy
    fun _ hitem => List.mem_map_of_mem hitem)).conseq
    (fun d hd => ⟨hd, hd ▸ hready.tidy⟩) (fun seen d hd => ⟨hsound d hd.1.1 hd.2, hd.1.2⟩)
    (fun d hd => ⟨StageReady.sound (hplan ▸ hsound d hd.1.1 hd.2), fun hfeasible => hd.1.2
      ⟨(Nat.add_le_add_right (missing_le _ _) _).trans hfeasible.room, fun item hitem =>
        ⟨hready.tidy.clear hapart hitem, hfeasible.valid item hitem, fun _ =>
          hfeasible.accepts item hitem⟩⟩⟩)
    fun d hd => StageReady.sound (hplan ▸ hsound d hd.1 hd.2)

/-! ### Runs that are cut short, of one plan or another -/

variable (sha256 crc32 humanBytes) in
/-- What is on the disk after runs that failed or were killed anywhere, and after transactions
that took away what was staged. A plan can be told by its fingerprint. -/
inductive StageSession (plans : StageState → List Item) : StageDisk → Prop
  | new : StageSession plans ⟨none, fun _ => none⟩
  | run {d : StageDisk} (h : StageSession plans d) (staging : Staging) (fates : List (Fate Damage))
      (hplan : staging.items = plans staging.identity)
      (hapart : AllApart (staging.items.map Item.names))
      (hremoves : ∀ tried ∈ (stageItems sha256 crc32 humanBytes staging fates d).trace, ∀ cut,
        tried.2 = .failed cut → cut.keep [] = false) :
      StageSession plans (stageItems sha256 crc32 humanBytes staging fates d).state
  | taken {d : StageDisk} (h : StageSession plans d) (path : Names) (keep : Names → Bool) :
      StageSession plans (d.prune path keep)

/-- The file of an item, as a validation sees it. -/
theorem StageDisk.fileAt_eq {bytes : List UInt8} (h : d.tree item.names = some (.file bytes)) :
    d.fileAt item.destination = some bytes := by
  unfold fileAt
  rw [show d.tree (item.destination.text.splitOn 47) = some (.file bytes) from h]

theorem StageSession.sound (h : StageSession sha256 crc32 humanBytes plans d) :
    StageSound sha256 crc32 plans d := by
  induction h with
  | new => exact ⟨.inl fun _ => rfl, nofun, nofun⟩
  | @run d h staging fates hplan hapart hremoves ih =>
    have htriple := stageItems_sound sha256 crc32 humanBytes (A := fun _ fate => ∀ cut,
      fate = .failed cut → cut.keep [] = false) (fun d cut hfault => hfault cut rfl) hplan hapart
    refine ((htriple.conseq (fun _ h => h) (fun _ d hd => ?_) (fun _ hd => hd.1) fun _ h => h)
      fates d ih (.inr fun tried hmem cut heq => hremoves tried hmem cut heq)).1.state
    exact StageReady.sound (hplan ▸ hd.1)
  | taken h path keep ih => exact ih.prune path keep

theorem sampleSession_cutShort : StageSession Library.sha256 Library.crc32 sampleBytes
    (fun _ => sampleStaging.items) (stageItems Library.sha256 Library.crc32 sampleBytes
      sampleStaging sampleCutShort.2 ⟨none, fun _ => none⟩).state := by
  have hkilled : ∀ tried ∈ (stageItems Library.sha256 Library.crc32 sampleBytes sampleStaging
      sampleCutShort.2 ⟨none, fun _ => none⟩).trace, ¬ tried.2.IsFailure := by decide +kernel
  exact .run .new sampleStaging sampleCutShort.2 rfl (by decide +kernel)
    fun tried h cut heq => absurd (heq ▸ trivial) (hkilled tried h)

end Sessions

end NfsmwRuntime.Install
