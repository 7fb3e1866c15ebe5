import NfsmwRuntime.Library.ArmCode
import NfsmwRuntime.Loader.Pages

/-!
# The event-state patch

The helper of `libapp` that dereferences its wrapper before it tests it gets a guard: its
first instruction becomes a branch to a trampoline in the padding of the image, which
returns 3 for NULL and otherwise replays the three displaced instructions.

The patched helper runs as the original one does, also when the replayed store faults.
-/

namespace NfsmwRuntime.Jni

open Library Library.Arm Loader

def eventStateHelper : UInt32 := 0x0050eea8
def eventStateResume : UInt32 := 0x0050eeb4
def rxPaddingCave : UInt32 := 0x00a8d9c0

def expectedPrologue : List UInt32 := [0xe92d4c10, 0xe28db008, 0xe24dd008]

/-- `cmp r0, #0`, `moveq r0, #3`, `bxeq lr`, the displaced instructions and the way back. -/
def trampoline (back : UInt32) : List UInt32 :=
  [0xe3500000, 0x03a00003, 0x012fff1e, 0xe92d4c10, 0xe28db008, 0xe24dd008, back]

section Patch

variable (image : Elf32Image)

def helper : UInt32 := image.loadBias + eventStateHelper
def resume : UInt32 := image.loadBias + eventStateResume
def cave : UInt32 := image.loadBias + rxPaddingCave

/-- How far the branch at the helper goes, and the one at the end of the trampoline. The
`intptr_t` of an address from 2^31 on is negative, and the differences wrap. -/
def entryDisplacement : Int32 := (cave image).toInt32 - (helper image).toInt32 - 8
def returnDisplacement : Int32 := (resume image).toInt32 - (cave image + 24).toInt32 - 8

/-- The words that are written. -/
def patchedWords : Set UInt32 := span (helper image) 4 ∪ span (cave image) 28

def writePatch (m : Memory) : Memory :=
  (m.storeWords (cave image) (trampoline (branchWord (returnDisplacement image)))).storeWords
    (helper image) [branchWord (entryDisplacement image)]

end Patch

def checkAppImage (image : Elf32Image) (m : Memory) : Except Failure Unit := do
  check (image.mapping ≠ 0 ∧ image.pageSize ≠ 0 ∧
      eventStateHelper.toNat + 12 ≤ image.mappingSize.toNat ∧
      rxPaddingCave.toNat + 28 ≤ image.mappingSize.toNat)
    (setError "invalid libapp patch image" [])
  check (m.loadWords (helper image) 3 = expectedPrologue)
    (setError "unexpected event-state helper at 0x%08x" [.number eventStateHelper.toNat])
  check ((m.loadWords (cave image) 7).all (· = 0))
    (setError "libapp RX patch cave is not empty" [])
  check (BranchFits (entryDisplacement image))
    (setError "event patch branch is out of range" [])
  check (BranchFits (returnDisplacement image))
    (setError "event patch return is out of range" [])

def nfsmwApplyAppPatches (host : Host) (appImage : Option Elf32Image) : LoaderM Unit := do
  let image ← Command.lift (require appImage (setError "invalid libapp patch image" []))
  let s ← get
  Command.lift (checkAppImage image s.memory)
  let helperPage := alignDown (helper image) image.pageSize
  let cavePage := alignDown (cave image) image.pageSize
  let writableFailure := fun errno => setError "make app patch pages writable: %s" [.text errno]
  let restoreFailure := fun errno => setError "restore app patch pages: %s" [.text errno]
  mprotect host .writable helperPage image.pageSize 7 writableFailure
  mprotect host .writable cavePage image.pageSize 7 writableFailure
  modify fun s => { s with memory := writePatch image s.memory }
  mprotect host .protect helperPage image.pageSize 5 restoreFailure
  mprotect host .protect cavePage image.pageSize 5 restoreFailure

/-- The instructions that are displaced. -/
def prologue : List Op :=
  expectedPrologue.filterMap fun w => match decode w with
    | some (.op .al op) => some op
    | _ => none

theorem prologue_eq :
    prologue = [.push [4, sl, fp, lr], .add fp sp (.imm 8), .sub sp sp (.imm 8)] := by decide

/-! ## What the patch does to the image -/

theorem checkAppImage_eq_ok {image : Elf32Image} {m : Memory} {u : Unit}
    (h : checkAppImage image m = .ok u) :
    m.loadWords (helper image) 3 = expectedPrologue ∧
      (∀ w ∈ m.loadWords (cave image) 7, w = 0) ∧
      BranchFits (entryDisplacement image) ∧ BranchFits (returnDisplacement image) := by
  obtain ⟨_, -, h⟩ := bind_eq_ok.mp h
  obtain ⟨_, hprologue, h⟩ := bind_eq_ok.mp h
  obtain ⟨_, hcave, h⟩ := bind_eq_ok.mp h
  obtain ⟨_, hentry, h⟩ := bind_eq_ok.mp h
  have hempty : ∀ w ∈ m.loadWords (cave image) 7, w = 0 := by
    simpa using check_eq_ok.mp hcave
  exact ⟨check_eq_ok.mp hprologue, hempty, check_eq_ok.mp hentry, check_eq_ok.mp h⟩

/-- Without the expected prologue, or with anything in the cave, nothing is changed. -/
theorem applyAppPatches_refuses {host : Host} {image : Elf32Image} {s : State}
    (h : s.memory.loadWords (helper image) 3 ≠ expectedPrologue ∨
      ¬ ∀ w ∈ s.memory.loadWords (cave image) 7, w = 0) :
    ∃ e, (nfsmwApplyAppPatches host (some image)).run s = .error e s := by
  cases hcheck : checkAppImage image s.memory with
  | ok =>
    obtain ⟨hprologue, hcave, -⟩ := checkAppImage_eq_ok hcheck
    exact (h.elim (· hprologue) (· hcave)).elim
  | error e =>
    refine ⟨e, ?_⟩
    rw [nfsmwApplyAppPatches, require_some, Command.run_lift_ok_bind, Command.run_get_bind,
      EStateM.run_bind, hcheck]
    rfl

theorem applyAppPatches_eq_ok {host : Host} {image : Elf32Image} {s t : State}
    (h : (nfsmwApplyAppPatches host (some image)).run s = .ok () t) :
    BranchFits (entryDisplacement image) ∧ BranchFits (returnDisplacement image) ∧
      t.memory = writePatch image s.memory ∧
      ∃ calls, t.calls = calls ++
        [.mprotect .protect (alignDown (helper image) image.pageSize) image.pageSize 5 true] ++
        [.mprotect .protect (alignDown (cave image) image.pageSize) image.pageSize 5 true] := by
  rw [nfsmwApplyAppPatches, require_some, Command.run_lift_ok_bind, Command.run_get_bind] at h
  obtain ⟨_, u, hlift, hwritable⟩ := Command.run_bind_eq_ok.mp h
  obtain ⟨hcheck, hu⟩ := Command.run_lift_eq_ok.mp hlift
  obtain ⟨-, -, hentry, hreturn⟩ := checkAppImage_eq_ok hcheck
  obtain ⟨_, v, hv, hcave⟩ := Command.run_bind_eq_ok.mp hwritable
  obtain ⟨_, w, hw, hwrite⟩ := Command.run_bind_eq_ok.mp hcave
  obtain ⟨_, x, hx, hrestore⟩ := Command.run_bind_eq_ok.mp hwrite
  obtain ⟨_, y, hy, ht⟩ := Command.run_bind_eq_ok.mp hrestore
  cases hx
  rw [mprotect_eq_ok ht, mprotect_eq_ok hy, mprotect_eq_ok hw, mprotect_eq_ok hv, hu]
  exact ⟨hentry, hreturn, rfl, _, rfl⟩

/-! ## Running the patched helper -/

/-- The patch is in memory, where it can be run but not changed. -/
structure Installed (R : Rights) (image : Elf32Image) (m : Memory) : Prop where
  entry : m.load32 (helper image) = branchWord (entryDisplacement image)
  code : m.loadWords (cave image) 7 = trampoline (branchWord (returnDisplacement image))
  executable : ∀ x ∈ patchedWords image, R.executable x = true
  fixed : ∀ x ∈ patchedWords image, R.writable x = false
  entryFits : BranchFits (entryDisplacement image)
  returnFits : BranchFits (returnDisplacement image)

section Run

variable {R : Rights} {image : Elf32Image} {c : Cpu}

theorem Installed.congr {m m' : Memory} (h : Installed R image m)
    (hsame : Set.EqOn m' m (patchedWords image)) : Installed R image m' := by
  refine ⟨?_, ?_, h.executable, h.fixed, h.entryFits, h.returnFits⟩
  · rw [Memory.load32_congr (hsame.mono Set.subset_union_left)]
    exact h.entry
  · rw [Memory.loadWords_congr (by decide) (hsame.mono Set.subset_union_right)]
    exact h.code

theorem Installed.exec (h : Installed R image c.memory) {op : Op} (hop : op.Allowed R c) :
    Installed R image (op.exec c).memory :=
  h.congr fun x hx => hop.memory_eq (h.fixed x hx)

theorem Installed.fetch_helper (h : Installed R image c.memory) :
    Core.fetch R ⟨helper image, c⟩ = some (.b .al (entryDisplacement image).toUInt32) := by
  have hmem : helper image ∈ patchedWords image := .inl (by simp [mem_span])
  rw [Core.fetch, if_pos (h.executable _ hmem), h.entry, decode_branchWord h.entryFits]

/-- The instructions of the trampoline. -/
theorem Installed.fetch_cave (h : Installed R image c.memory) {i : Nat} (hi : i < 7) :
    Core.fetch R ⟨cave image + .ofNat (4 * i), c⟩ =
      (trampoline (branchWord (returnDisplacement image)))[i]?.bind decode := by
  have hmem : cave image + .ofNat (4 * i) ∈ patchedWords image := .inr (add_mem_span (by omega))
  rw [Core.fetch, if_pos (h.executable _ hmem), ← Memory.load32_of_loadWords h.code hi]
  rfl

theorem helper_branch : helper image + 8 + (entryDisplacement image).toUInt32 = cave image := by
  simp only [entryDisplacement, Int32.toUInt32_sub, UInt32.toUInt32_toInt32]
  rw [show (8 : Int32).toUInt32 = 8 from rfl]
  grind

theorem cave_branch :
    cave image + 24 + 8 + (returnDisplacement image).toUInt32 = helper image + 12 := by
  simp only [returnDisplacement, Int32.toUInt32_sub, UInt32.toUInt32_toInt32]
  rw [show (8 : Int32).toUInt32 = 8 from rfl]
  simp only [resume, helper, eventStateResume, eventStateHelper]
  grind

/-- The guard: the flags say whether the argument is NULL. -/
theorem Installed.runs_compare (h : Installed R image c.memory) :
    Core.Runs R ⟨helper image, c⟩
      ⟨cave image + 4, { c with flags := compareFlags (c.regs 0) 0 }⟩ := by
  have hbranch := Core.runs_of_step (Core.step_b h.fetch_helper)
  rw [helper_branch] at hbranch
  have hcompare : Core.step R ⟨cave image, c⟩ =
      some ⟨cave image + 4, (Op.cmp 0 (.imm 0)).exec c⟩ := by
    have hfetch : Core.fetch R ⟨cave image + .ofNat (4 * 0), c⟩ =
        some (.op .al (.cmp 0 (.imm 0))) := (h.fetch_cave (by decide)).trans rfl
    rw [show cave image + UInt32.ofNat (4 * 0) = cave image by grind] at hfetch
    exact Core.step_op hfetch rfl (fun i hi => absurd hi (Nat.not_lt_zero i))
  exact hbranch.trans (Core.runs_of_step hcompare)

/-- For NULL the trampoline returns 3. -/
theorem Installed.runs_null (h : Installed R image c.memory) (hnull : c.regs 0 = 0) :
    ∃ flags, Core.Runs R ⟨helper image, c⟩
      ⟨c.regs lr, { c with regs := Function.update c.regs 0 3, flags := flags }⟩ := by
  set d : Cpu := { c with flags := compareFlags (c.regs 0) 0 }
  have hz : d.flags.z = true := zero_compareFlags.mpr hnull
  have hmov : Core.step R ⟨cave image + 4, d⟩ =
      some ⟨cave image + 4 + 4, (Op.mov 0 (.imm 3)).exec d⟩ :=
    Core.step_op ((h.fetch_cave (c := d) (i := 1) (by decide)).trans rfl) hz
      (fun i hi => absurd hi (Nat.not_lt_zero i))
  have hreturn : Core.step R ⟨cave image + 4 + 4, (Op.mov 0 (.imm 3)).exec d⟩ =
      some ⟨c.regs lr, (Op.mov 0 (.imm 3)).exec d⟩ := by
    have hfetch : Core.fetch R ⟨cave image + 8, (Op.mov 0 (.imm 3)).exec d⟩ =
        some (.bx .eq lr) := (h.fetch_cave (c := (Op.mov 0 (.imm 3)).exec d) (i := 2)
      (by decide)).trans rfl
    rw [UInt32.add_assoc, show (4 + 4 : UInt32) = 8 from rfl, Core.step_bx hfetch,
      if_pos (show Cond.eq.holds ((Op.mov 0 (.imm 3)).exec d).flags = true from hz)]
    rfl
  exact ⟨_, h.runs_compare.trans ((Core.runs_of_step hmov).trans (Core.runs_of_step hreturn))⟩

/-- Otherwise it gets to the displaced instructions. -/
theorem Installed.runs_displaced (h : Installed R image c.memory) (hnull : c.regs 0 ≠ 0) :
    Core.Runs R ⟨helper image, c⟩
      ⟨cave image + 12, { c with flags := compareFlags (c.regs 0) 0 }⟩ := by
  set d : Cpu := { c with flags := compareFlags (c.regs 0) 0 }
  have hz : d.flags.z = false := Bool.eq_false_iff.mpr (mt zero_compareFlags.mp hnull)
  have hskip : Core.step R ⟨cave image + 4, d⟩ = some ⟨cave image + 4 + 4, d⟩ :=
    Core.step_op_skip ((h.fetch_cave (c := d) (i := 1) (by decide)).trans rfl) hz
  have hgo : Core.step R ⟨cave image + 8, d⟩ = some ⟨cave image + 8 + 4, d⟩ := by
    have hfetch : Core.fetch R ⟨cave image + 8, d⟩ = some (.bx .eq lr) :=
      (h.fetch_cave (c := d) (i := 2) (by decide)).trans rfl
    rw [Core.step_bx hfetch, if_neg]
    exact Bool.eq_false_iff.mp hz
  rw [UInt32.add_assoc, show (4 + 4 : UInt32) = 8 from rfl] at hskip
  rw [UInt32.add_assoc (cave image) 8 4, show (8 + 4 : UInt32) = 12 from rfl] at hgo
  exact h.runs_compare.trans ((Core.runs_of_step hskip).trans (Core.runs_of_step hgo))

/-- The trampoline has the displaced instructions. -/
theorem decode_displaced (back : UInt32) {i : Nat} (hi : i < prologue.length) :
    (trampoline back)[3 + i]?.bind decode = some (.op .al prologue[i]) := by
  match i, hi with
  | 0, _ => rfl
  | 1, _ => rfl
  | 2, _ => rfl

/-- The displaced instructions are run where they are now, and control goes back. -/
theorem Installed.runs_prologue (h : Installed R image c.memory) {d : Cpu}
    (hd : execsIn R c prologue = some d) :
    Core.Runs R ⟨cave image + 12, c⟩ ⟨helper image + 12, d⟩ := by
  have hfetch : ∀ (e : Cpu) i, Installed R image e.memory → ∀ hi : i < prologue.length,
      Core.fetch R ⟨cave image + 12 + .ofNat (4 * i), e⟩ = some (.op .al prologue[i]) := by
    intro e i he hi
    have hlt : i < 3 := by rwa [prologue_eq] at hi
    rw [UInt32.add_assoc, ← decode_displaced _ hi, ← he.fetch_cave (c := e) (by omega),
      Nat.mul_add, UInt32.ofNat_add]
    rfl
  obtain ⟨hruns, hinstalled⟩ := Core.runs_ops hfetch (fun e op he hop => he.exec hop) h hd
  have hback : Core.step R ⟨cave image + 24, d⟩ = some ⟨helper image + 12, d⟩ := by
    have hlast : (trampoline (branchWord (returnDisplacement image)))[6]? =
        some (branchWord (returnDisplacement image)) := rfl
    have hfetch := hinstalled.fetch_cave (c := d) (i := 6) (by decide)
    rw [hlast, Option.bind_some, decode_branchWord h.returnFits,
      show UInt32.ofNat (4 * 6) = 24 from rfl] at hfetch
    rw [Core.step_b hfetch, cave_branch]
  rw [UInt32.add_assoc, show prologue.length = 3 by rw [prologue_eq]; rfl,
    show (12 : UInt32) + .ofNat (4 * 3) = 24 from rfl] at hruns
  exact hruns.trans (Core.runs_of_step hback)

/-- Only the first of the displaced instructions stores. -/
theorem execsIn_prologue (c : Cpu) : execsIn R c prologue =
    if (Op.push [4, sl, fp, lr]).Allowed R c then
      some (execs c [.push [4, sl, fp, lr], .add fp sp (.imm 8), .sub sp sp (.imm 8)])
    else none := by
  have hadd : ∀ e : Cpu, (Op.add fp sp (.imm 8)).Allowed R e := fun _ i hi =>
    absurd hi (Nat.not_lt_zero i)
  have hsub : ∀ e : Cpu, (Op.sub sp sp (.imm 8)).Allowed R e := fun _ i hi =>
    absurd hi (Nat.not_lt_zero i)
  rw [prologue_eq, execsIn, List.foldlM_cons]
  split
  next h => simp [hadd, hsub]
  next h => rfl

/-- What the displaced instructions do does not depend on the flags. -/
theorem Installed.runs_nonnull (h : Installed R image c.memory) (hnull : c.regs 0 ≠ 0) :
    match execsIn R c prologue with
    | some d => ∃ flags, Core.Runs R ⟨helper image, c⟩
        ⟨helper image + 12, { d with flags := flags }⟩
    | none => ∃ flags, Core.Runs R ⟨helper image, c⟩
          ⟨cave image + 12, { c with flags := flags }⟩ ∧
        Core.step R ⟨cave image + 12, { c with flags := flags }⟩ = none := by
  have hguard := h.runs_displaced hnull
  set d : Cpu := { c with flags := compareFlags (c.regs 0) 0 }
  have hinstalled : Installed R image d.memory := h
  rw [execsIn_prologue]
  split_ifs with hpush
  · have hpush' : (Op.push [4, sl, fp, lr]).Allowed R d := hpush
    refine ⟨d.flags, hguard.trans (hinstalled.runs_prologue ?_)⟩
    rw [execsIn_prologue, if_pos hpush']
    rfl
  · refine ⟨d.flags, hguard, Core.step_op_none
      ((hinstalled.fetch_cave (c := d) (i := 3) (by decide)).trans rfl) rfl hpush⟩

end Run

/-! ## The patch -/

/-- The rights that `PROT_WRITE` and `PROT_EXEC` give. -/
def rightsOf (bits : UInt32 → UInt32) : Rights where
  writable x := bits x &&& 2 ≠ 0
  executable x := bits x &&& 4 ≠ 0

/-- A span that ends in its first page. -/
theorem span_subset_page {a alignment : UInt32} {n d : Nat} (h : alignment.toNat.isPowerOfTwo)
    (ha : d ∣ a.toNat) (hd : d ∣ alignment.toNat) (hn : n ≤ d) :
    span a n ⊆ span (alignDown a alignment) alignment.toNat := by
  have hstart := alignDown_le h a
  have hclose := lt_alignDown_add h a
  have hfit := multiple_add_le ha (Nat.dvd_add (hd.trans (dvd_alignDown h a)) hd) hclose
  have hoffset : a.toNat - (alignDown a alignment).toNat + n ≤ alignment.toNat := by omega
  have hsub := span_offset_subset (a := alignDown a alignment) hoffset alignment.toNat_lt.le
  rwa [show alignDown a alignment + .ofNat (a.toNat - (alignDown a alignment).toNat) = a by
    apply UInt32.toNat_inj.mp
    rw [UInt32.toNat_add, UInt32.toNat_ofNat']
    have := a.toNat_lt
    omega] at hsub

section Pages

variable {host : Host} {image : Elf32Image} {s t : State}

theorem disjoint_patch : Disjoint (span (cave image) 28) (span (helper image) 4) :=
  disjoint_span_add _ (disjoint_span (by decide) (by decide))

theorem writePatch_eqOn (m : Memory) :
    Set.EqOn (writePatch image m) m (patchedWords image)ᶜ := by
  intro x hx
  obtain ⟨hhelper, hcave⟩ : x ∉ span (helper image) 4 ∧ x ∉ span (cave image) 28 := not_or.mp hx
  exact (Memory.storeWords_of_notMem hhelper).trans (Memory.storeWords_of_notMem hcave)

/-- The pages of the patch can be run, and no longer written. -/
theorem protectionAt_patched (hpage : image.pageSize.toNat.isPowerOfTwo)
    (hsize : 4096 ≤ image.pageSize.toNat) (hbias : image.pageSize.toNat ∣ image.loadBias.toNat)
    (h : (nfsmwApplyAppPatches host (some image)).run s = .ok () t) {x : UInt32}
    (hx : x ∈ patchedWords image) : protectionAt t.calls x = 5 := by
  obtain ⟨-, -, -, calls, hcalls⟩ := applyAppPatches_eq_ok h
  have hd : 2 ^ 12 ∣ image.pageSize.toNat := by
    obtain ⟨k, hk⟩ := hpage
    have hle : 2 ^ 12 ≤ 2 ^ k := hk ▸ hsize
    rw [hk]
    exact Nat.pow_dvd_pow 2 ((Nat.pow_le_pow_iff_right Nat.one_lt_two).mp hle)
  have haligned : ∀ (d : Nat) (offset : UInt32), d ∣ 2 ^ 12 → d ∣ offset.toNat →
      d ∣ (image.loadBias + offset).toNat := by
    intro d offset hd' hoffset
    have hdpage := hd'.trans hd
    rw [UInt32.toNat_add, Nat.dvd_mod_iff (hdpage.trans (dvd_word hpage))]
    exact Nat.dvd_add (hdpage.trans hbias) hoffset
  have hhelper : span (helper image) 4 ⊆
      span (alignDown (helper image) image.pageSize) image.pageSize.toNat :=
    span_subset_page hpage (haligned 4 _ (by decide) (by decide))
      ((by decide : 4 ∣ 2 ^ 12).trans hd) le_rfl
  have hcave : span (cave image) 28 ⊆
      span (alignDown (cave image) image.pageSize) image.pageSize.toNat :=
    span_subset_page hpage (haligned 64 _ (by decide) (by decide))
      ((by decide : 64 ∣ 2 ^ 12).trans hd) (by decide)
  rw [hcalls, protectionAt_append_singleton, protectionAt_append_singleton]
  simp only [Call.protect]
  split_ifs with hc hh
  · rfl
  · rfl
  · exact (hx.elim (fun hmem => hh (hhelper hmem)) fun hmem => hc (hcave hmem)).elim

/-- The patch can be run from every state with its words and pages as they were left. -/
theorem installed_of_patched (hpage : image.pageSize.toNat.isPowerOfTwo)
    (hsize : 4096 ≤ image.pageSize.toNat) (hbias : image.pageSize.toNat ∣ image.loadBias.toNat)
    (h : (nfsmwApplyAppPatches host (some image)).run s = .ok () t) {bits : UInt32 → UInt32}
    {m : Memory} (hm : Set.EqOn m t.memory (patchedWords image))
    (hbits : Set.EqOn bits (protectionAt t.calls) (patchedWords image)) :
    Installed (rightsOf bits) image m := by
  obtain ⟨hentry, hreturn, hmemory, -⟩ := applyAppPatches_eq_ok h
  have hfive : ∀ x ∈ patchedWords image, bits x = 5 := fun x hx =>
    (hbits hx).trans (protectionAt_patched hpage hsize hbias h hx)
  have hinstalled : Installed (rightsOf bits) image t.memory := by
    refine ⟨?_, ?_, fun x hx => ?_, fun x hx => ?_, hentry, hreturn⟩
    · rw [hmemory, writePatch, Memory.storeWords_singleton, Memory.load32_store32]
    · rw [hmemory, writePatch, Memory.loadWords_congr (by decide)
        (Memory.storeWords_eqOn disjoint_patch)]
      have hlength : 4 * (trampoline (branchWord (returnDisplacement image))).length ≤ 2 ^ 32 := by
        simp [trampoline]
      exact Memory.loadWords_storeWords hlength
    · simp only [rightsOf, hfive x hx]
      decide
    · simp only [rightsOf, hfive x hx]
      decide
  exact hinstalled.congr hm

end Pages

/-- After the patch, from every state with its words and pages as they were left, the helper
returns 3 for NULL; otherwise it gets behind the prologue with the registers and the memory the
original instructions leave, or stops at their store as they do. Nothing but the patch is
written, and nothing at all without the expected prologue and an empty cave. -/
theorem appPatch_preserves (host : Host) (image : Elf32Image) (s : State) :
    (∀ t, (nfsmwApplyAppPatches host (some image)).run s = .ok () t →
      image.pageSize.toNat.isPowerOfTwo → 4096 ≤ image.pageSize.toNat →
      image.pageSize.toNat ∣ image.loadBias.toNat →
      Set.EqOn t.memory s.memory (patchedWords image)ᶜ ∧
      ∀ (bits : UInt32 → UInt32) (c : Cpu),
        Set.EqOn c.memory t.memory (patchedWords image) →
        Set.EqOn bits (protectionAt t.calls) (patchedWords image) →
        (c.regs 0 = 0 → ∃ flags, Core.Runs (rightsOf bits) ⟨helper image, c⟩
          ⟨c.regs lr, { c with regs := Function.update c.regs 0 3, flags := flags }⟩) ∧
        (c.regs 0 ≠ 0 → match execsIn (rightsOf bits) c prologue with
          | some d => ∃ flags, Core.Runs (rightsOf bits) ⟨helper image, c⟩
              ⟨helper image + 12, { d with flags := flags }⟩
          | none => ∃ flags, Core.Runs (rightsOf bits) ⟨helper image, c⟩
                ⟨cave image + 12, { c with flags := flags }⟩ ∧
              Core.step (rightsOf bits) ⟨cave image + 12, { c with flags := flags }⟩ = none)) ∧
    (s.memory.loadWords (helper image) 3 ≠ expectedPrologue ∨
        ¬ (∀ w ∈ s.memory.loadWords (cave image) 7, w = 0) →
      ∃ e, (nfsmwApplyAppPatches host (some image)).run s = .error e s) := by
  refine ⟨fun t h hpage hsize hbias => ⟨?_, fun bits c hm hbits => ?_⟩, applyAppPatches_refuses⟩
  · rw [(applyAppPatches_eq_ok h).2.2.1]
    exact writePatch_eqOn s.memory
  · have hinstalled := installed_of_patched hpage hsize hbias h hm hbits
    exact ⟨hinstalled.runs_null, hinstalled.runs_nonnull⟩

/-- An image of zeros but for the prologue. -/
def sampleAppImage : Elf32Image :=
  { Elf32Image.zero with
    mapping := 0x40000000
    mappingSize := 0x01000000
    loadBias := 0x40000000
    pageSize := 4096 }

def sampleUnpatched : State :=
  { State.start with
    memory := Memory.storeWords (fun _ => 0) (helper sampleAppImage) expectedPrologue }

/-- A call with `r0`, which returns to 0x1000, on the patched image. -/
def samplePatchedCall (m : Memory) (r0 : UInt32) : Cpu where
  regs r := if r = 0 then r0 else if r = lr then 0x1000 else 0x2000
  flags := ⟨false, false, false, false⟩
  doubles _ := (0, 0)
  fpscr := 0
  memory := m

theorem appPatch_preserves_sample :
    ∃ t, (nfsmwApplyAppPatches sampleHost (some sampleAppImage)).run sampleUnpatched = .ok () t ∧
      (∃ flags, Core.Runs (rightsOf (protectionAt t.calls))
        ⟨helper sampleAppImage, samplePatchedCall t.memory 0⟩
        ⟨0x1000, { samplePatchedCall t.memory 0 with
          regs := Function.update (samplePatchedCall t.memory 0).regs 0 3
          flags := flags }⟩) ∧
      ∃ flags, Core.Runs (rightsOf fun x => if x.toNat < 0x40000000 then 3 else
          protectionAt t.calls x)
        ⟨helper sampleAppImage, samplePatchedCall t.memory 7⟩
        ⟨helper sampleAppImage + 12,
          { execs (samplePatchedCall t.memory 7) prologue with flags := flags }⟩ := by
  obtain ⟨t, ht⟩ : ∃ t, (nfsmwApplyAppPatches sampleHost (some sampleAppImage)).run
      sampleUnpatched = .ok () t := ⟨_, Command.eq_ok_of_succeeded (by decide +kernel)⟩
  have hpatched := ((appPatch_preserves sampleHost sampleAppImage sampleUnpatched).1 t ht
    ⟨12, by decide⟩ (by decide) (by decide)).2
  refine ⟨t, ht, (hpatched _ (samplePatchedCall t.memory 0) (fun _ _ => rfl) fun _ _ => rfl).1 rfl,
    ?_⟩
  have hbits : Set.EqOn (fun x => if x.toNat < 0x40000000 then 3 else protectionAt t.calls x)
      (protectionAt t.calls) (patchedWords sampleAppImage) := by
    intro x hx
    refine if_neg ?_
    have hhelper : (helper sampleAppImage).toNat = 0x4050eea8 := by decide
    have hcave : (cave sampleAppImage).toNat = 0x40a8d9c0 := by decide
    rcases hx with hx | hx
    · have := (mem_span_iff_toNat (by omega)).mp hx
      omega
    · have := (mem_span_iff_toNat (by omega)).mp hx
      omega
  have hnull : (samplePatchedCall t.memory 7).regs 0 ≠ 0 := show (7 : UInt32) ≠ 0 by decide
  have hrun := (hpatched _ (samplePatchedCall t.memory 7) (fun _ _ => rfl) hbits).2 hnull
  rw [execsIn_prologue, if_pos] at hrun
  · rw [prologue_eq]
    exact hrun
  · -- the stack is writable
    have hstack : ∀ i < 16, ((0x2000 : UInt32) - 16 + .ofNat i).toNat < 0x40000000 := by decide
    intro i hi
    refine decide_eq_true (show (if ((0x2000 : UInt32) - 16 + .ofNat i).toNat < 0x40000000 then 3
      else protectionAt t.calls (0x2000 - 16 + .ofNat i)) &&& 2 ≠ 0 from ?_)
    rw [if_pos (hstack i hi)]
    decide

end NfsmwRuntime.Jni
