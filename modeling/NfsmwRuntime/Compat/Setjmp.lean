import NfsmwRuntime.Compat.Signals
import NfsmwRuntime.Library.Arm

/-!
# Non-local jumps

The `setjmp` and `longjmp` of the guest, in assembly: the buffer holds a magic word, the
signal mask, `d8` to `d15`, FPSCR, and `r4` to `r14`. The mask helpers are C functions, and
all that is known of their calls is the procedure call standard and what they compute.

A jump restores what the call of `setjmp` saved, however the machine has changed in between,
as long as the buffer has not.
-/

namespace NfsmwRuntime.Compat

open Library Library.Arm

/-! ## The buffer -/

def jbMagic : UInt32 := 0
def jbSigmask : UInt32 := 4
def jbFloatBase : UInt32 := 8
def jbFloatState : UInt32 := 72
def jbCoreBase : UInt32 := 76
def magicMaskN : UInt32 := 0x4278f500
def magicMaskY : UInt32 := 0x4278f501

def savedDoubles : List (Fin 32) := [8, 9, 10, 11, 12, 13, 14, 15]
def savedCore : List Reg := [4, 5, 6, 7, 8, 9, 10, 11, 12, sp, lr]

/-- The words the buffer has in use. -/
def jmpBuf (buf : UInt32) : Set UInt32 := span buf 120

/-! ## The code -/

/-- The routines outside the assembly file. -/
inductive Routine
  | nfsmwBionicSignalMaskCapture
  | nfsmwBionicSignalMaskRestore
  | nfsmwBionicLongjmpError
  deriving DecidableEq, Repr

/-- `movw` with `:lower16:` and `movt` with `:upper16:`. -/
def movImmediate (rd : Reg) (v : UInt32) : List Op :=
  [.movw rd v.toUInt16, .movt rd (v >>> 16).toUInt16]

def storeMask : List Op := [.mov 1 (.reg 0), .pop [0, lr], .str 1 0 jbSigmask]

/-- From the label `2:` on. -/
def saveState : List Op :=
  [.str 1 0 jbMagic, .add 1 0 (.imm jbFloatBase), .vstmia 1 savedDoubles, .vmrs 1,
    .str 1 0 jbFloatState, .add 1 0 (.imm jbCoreBase), .stmia 1 savedCore, .mov 0 (.imm 0)]

/-- From the label `1:` of `nfsmw_bionic_siglongjmp` on. -/
def restoreState : List Op :=
  [.add 2 0 (.imm jbFloatBase), .vldmia 2 savedDoubles, .ldr 2 0 jbFloatState, .vmsr 2,
    .add 2 0 (.imm jbCoreBase), .ldmia 2 savedCore]

def checkMagic (v : UInt32) : List Op := movImmediate 2 v ++ [.cmp 3 (.reg 2)]

def nfsmwBionicSetjmp : Nat := 0
def nfsmwBionicSigsetjmp : Nat := 2
def nfsmwBionicLongjmp : Nat := 23
def nfsmwBionicSiglongjmp : Nat := 24

def bionicSetjmpText : List (Instr (Target Routine) Routine) :=
  let block := List.map (Instr.op .al)
  -- nfsmw_bionic_setjmp
  block [.mov 1 (.imm 1)] ++ [.b .al (.label nfsmwBionicSigsetjmp)] ++
  -- nfsmw_bionic_sigsetjmp
  block [.cmp 1 (.imm 0)] ++ [.b .eq (.label 12)] ++
  block [.push [0, lr]] ++ [.bl .nfsmwBionicSignalMaskCapture] ++
  block (storeMask ++ movImmediate 1 magicMaskY) ++ [.b .al (.label 14)] ++
  -- 1: at 12, and 2: at 14
  block (movImmediate 1 magicMaskN) ++ block saveState ++ [.bx .al lr] ++
  -- nfsmw_bionic_longjmp
  [.b .al (.label nfsmwBionicSiglongjmp)] ++
  -- nfsmw_bionic_siglongjmp
  block (.ldr 3 0 jbMagic :: checkMagic magicMaskN) ++ [.b .eq (.label 37)] ++
  block (checkMagic magicMaskY) ++ [.b .ne (.label 51)] ++
  block [.push [0, 1, 2, lr], .ldr 0 0 jbSigmask] ++ [.bl .nfsmwBionicSignalMaskRestore] ++
  block [.pop [0, 1, 2, lr]] ++
  -- 1: at 37
  block (restoreState ++ [.cmp sp (.imm 0)]) ++ [.b .eq (.label 51)] ++
  block [.cmp lr (.imm 0)] ++ [.b .eq (.label 51)] ++
  block [.mov 0 (.reg 1), .cmp 0 (.imm 0)] ++ [.op .eq (.mov 0 (.imm 1)), .bx .al lr] ++
  -- 3: at 51
  [.b .al (.routine .nfsmwBionicLongjmpError)]

/-! ## The mask helpers -/

/-- The two helpers as they are called: under the procedure call standard, with `frame` bytes
of stack, they do what the C functions compute. -/
structure MaskHelpers (host : SignalHost) where
  frame : Nat
  frame_le : 16 + frame ≤ 2 ^ 32
  capture : Cpu × BlockedSet host → Cpu × BlockedSet host
  restore : Cpu × BlockedSet host → Cpu × BlockedSet host
  capture_callee : ∀ w, Callee frame w.1 (capture w).1
  capture_mask : ∀ w, (capture w).1.regs 0 = signalMaskCapture w.2
  capture_blocked : ∀ w, (capture w).2 = w.2
  restore_callee : ∀ w, Callee frame w.1 (restore w).1
  restore_blocked : ∀ w, (restore w).2 = signalMaskRestore (w.1.regs 0) w.2

variable {host : SignalHost}

/-- The assembly file at an address. `nfsmw_bionic_longjmp_error` does not return. -/
def bionicSetjmp (helpers : MaskHelpers host) (base : UInt32) :
    Section Routine (BlockedSet host) where
  code := bionicSetjmpText
  base := base
  call
    | .nfsmwBionicSignalMaskCapture => helpers.capture
    | .nfsmwBionicSignalMaskRestore => helpers.restore
    | .nfsmwBionicLongjmpError => id

/-! ## Saving -/

theorem execs_movImmediate (s : Cpu) (rd : Reg) (v : UInt32) :
    execs s (movImmediate rd v) = s.set rd v := by
  have hv : v.toUInt16.toUInt32 &&& (0xffff : UInt32) |||
      (v >>> 16).toUInt16.toUInt32 <<< 16 = v := by
    have hmask : ∀ i (hi : i < 32), (65535#32)[i] = decide (i ≤ 15) := by decide
    apply UInt32.toBitVec_inj.mp
    ext i hi
    simp [hmask i hi, -UInt32.toUInt32_toUInt16]
    grind
  simp [movImmediate, Op.exec, Cpu.set, hv, -UInt32.toUInt32_toUInt16]

/-- The magic word says whether there is a mask. -/
def magicOf (mask : Option UInt32) : UInt32 := if mask.isSome then magicMaskY else magicMaskN

def maskFields (mask : Option UInt32) : Memory.Fields := mask.toList.map fun v => (jbSigmask, [v])

def stateFields (c : Cpu) (magic : UInt32) : Memory.Fields :=
  [(jbMagic, [magic]), (jbFloatBase, words (savedDoubles.map c.doubles)),
    (jbFloatState, [c.fpscr]), (jbCoreBase, savedCore.map c.regs)]

/-- What the buffer holds. -/
def jmpBufFields (c : Cpu) (mask : Option UInt32) : Memory.Fields :=
  maskFields mask ++ stateFields c (magicOf mask)

theorem fits_jmpBufFields (c : Cpu) (mask : Option UInt32) :
    Memory.Fits 120 (jmpBufFields c mask) := by
  cases mask <;> simp [Memory.Fits, jmpBufFields, maskFields, stateFields] <;> decide

theorem apart_jmpBufFields (c : Cpu) (mask : Option UInt32) :
    Memory.Apart (jmpBufFields c mask) := by
  cases mask <;> simp [Memory.Apart, jmpBufFields, maskFields, stateFields] <;> decide

/-- The registers of a call that a jump to it restores. -/
def jumpSaved : List Reg := lr :: calleeSaved

/-- The buffer holds a state with the registers of a call. -/
def Saved (m : Memory) (buf : UInt32) (c : Cpu) (mask : Option UInt32) : Prop :=
  ∃ s, Keeps jumpSaved c s ∧ m.Holds buf (jmpBufFields s mask)

theorem Saved.congr {m m' : Memory} {buf : UInt32} {c : Cpu} {mask : Option UInt32}
    (h : Saved m buf c mask) (hsame : Set.EqOn m' m (jmpBuf buf)) : Saved m' buf c mask := by
  obtain ⟨s, hkeeps, hholds⟩ := h
  exact ⟨s, hkeeps, hholds.congr (fits_jmpBufFields s mask) hsame⟩

/-- The mask a call saves. -/
def maskToSave (c : Cpu) (b : BlockedSet host) : Option UInt32 :=
  if c.regs 1 = 0 then none else some (signalMaskCapture b)

/-- The stack that is used for a mask: what is pushed, and the frame of a helper. -/
def stackUsed (mask : Bool) (c : Cpu) (n : Nat) : Set UInt32 :=
  if mask then below (c.regs sp) n else ∅

section Runs

variable {helpers : MaskHelpers host} {base : UInt32} {c : Cpu} {b : BlockedSet host}

theorem execs_saveState (c : Cpu) :
    (execs c saveState).regs 0 = 0 ∧ (execs c saveState).regs lr = c.regs lr ∧
      (execs c saveState).memory =
        c.memory.storeFields (c.regs 0) (stateFields c (c.regs 1)) := by
  have hcore : savedCore.map (Function.update c.regs 1 (c.regs 0 + jbCoreBase)) =
      savedCore.map c.regs := by
    simp [savedCore, sp, lr]
  simp [saveState, Op.exec, Cpu.set, lr, Memory.storeFields, stateFields,
    Memory.storeWords_singleton, hcore]

/-- The state is stored behind the mask, and the call returns 0. -/
theorem saveState_returns :
    (bionicSetjmp helpers base).Runs (.inside 14 (c, b))
      (.returned (c.regs lr) (execs c saveState, b)) := by
  have hblock : (bionicSetjmp helpers base).Runs (.inside 14 (c, b))
      (.inside 22 (execs c saveState, b)) := Section.runs_block saveState rfl
  have hreturn : (bionicSetjmp helpers base).Runs (.inside 22 (execs c saveState, b))
      (.returned ((execs c saveState).regs lr) (execs c saveState, b)) :=
    Section.runs_next (.bx .al lr) rfl
  rw [(execs_saveState c).2.1] at hreturn
  exact hblock.trans hreturn

/-- Without a mask only the magic word is loaded. -/
theorem sigsetjmp_unmasked (hsave : c.regs 1 = 0) :
    (bionicSetjmp helpers base).Runs (.inside nfsmwBionicSigsetjmp (c, b))
      (.inside 14 ((execs c [.cmp 1 (.imm 0)]).set 1 magicMaskN, b)) := by
  have hcompare : (bionicSetjmp helpers base).Runs (.inside 2 (c, b))
      (.inside 3 (execs c [.cmp 1 (.imm 0)], b)) := Section.runs_block [.cmp 1 (.imm 0)] rfl
  have hbranch : (bionicSetjmp helpers base).Runs (.inside 3 (execs c [.cmp 1 (.imm 0)], b))
      (.inside 12 (execs c [.cmp 1 (.imm 0)], b)) :=
    Section.runs_taken (k := .eq) (zero_compareFlags.mpr hsave) rfl
  have hmagic : (bionicSetjmp helpers base).Runs (.inside 12 (execs c [.cmp 1 (.imm 0)], b))
      (.inside 14 (execs (execs c [.cmp 1 (.imm 0)]) (movImmediate 1 magicMaskN), b)) :=
    Section.runs_block (movImmediate 1 magicMaskN) rfl
  rw [execs_movImmediate] at hmagic
  exact hcompare.trans (hbranch.trans hmagic)

/-- The mask goes to the buffer once the registers are back. -/
theorem execs_storeMask {q : Cpu} {f : Reg → UInt32}
    (h : q.memory.loadWords (q.regs sp) 2 = [0, lr].map f) :
    execs q storeMask = { q with
      regs := fun r => if [0, lr].contains r then f r else if r = sp then q.regs sp + 8 else
        if r = 1 then q.regs 0 else q.regs r
      memory := q.memory.store32 (f 0 + jbSigmask) (q.regs 0) } := by
  have hpop := @exec_pop (q.set 1 (q.regs 0)) [0, lr] f h
  rw [storeMask, execs_cons, execs_cons, execs_cons, execs_nil,
    show (Op.mov 1 (.reg 0)).exec q = q.set 1 (q.regs 0) from rfl, hpop]
  simp only [Op.exec, Cpu.set, Function.update_apply]
  rfl

/-- The call of the first helper, with the address after it in `lr`. -/
theorem runs_capture (p : Cpu) (b : BlockedSet host) :
    ∃ q, (bionicSetjmp helpers base).Runs (.inside 5 (p, b)) (.inside 6 (q, b)) ∧
      Callee helpers.frame (p.set lr (base + .ofNat (4 * (5 + 1)))) q ∧
      q.regs 0 = signalMaskCapture b := by
  set w := (p.set lr (base + .ofNat (4 * (5 + 1))), b)
  have hcall : (bionicSetjmp helpers base).Runs (.inside 5 (p, b))
      (.inside 6 (helpers.capture w)) :=
    Section.runs_next (.bl Routine.nfsmwBionicSignalMaskCapture) rfl
  rw [show helpers.capture w = ((helpers.capture w).1, b) from
    Prod.ext rfl (helpers.capture_blocked w)] at hcall
  exact ⟨_, hcall, helpers.capture_callee w, helpers.capture_mask w⟩

/-- The mask is captured into the buffer, and the registers are back from the stack. -/
theorem captureMask :
    ∃ (s : Cpu) (m : Memory), (bionicSetjmp helpers base).Runs (.inside 4 (c, b))
        (.inside 14 (s, b)) ∧
      s.regs 0 = c.regs 0 ∧ s.regs 1 = magicMaskY ∧ Keeps jumpSaved c s ∧
      s.memory = m.storeFields (c.regs 0) (maskFields (some (signalMaskCapture b))) ∧
      Set.EqOn m c.memory (below (c.regs sp) (8 + helpers.frame))ᶜ := by
  have hpush : (bionicSetjmp helpers base).Runs (.inside 4 (c, b))
      (.inside 5 (execs c [.push [0, lr]], b)) := Section.runs_block [.push [0, lr]] rfl
  obtain ⟨q, hcall, hcallee, hmask⟩ :=
    @runs_capture host helpers base (execs c [.push [0, lr]]) b
  obtain ⟨hloaded, hmemory⟩ := @Callee.pushed _ [0, lr] c _ _ hcallee
    (by have := helpers.frame_le; simp; omega) rfl rfl
  have hstore : (bionicSetjmp helpers base).Runs (.inside 6 (q, b))
      (.inside 11 (execs q (storeMask ++ movImmediate 1 magicMaskY), b)) :=
    Section.runs_block (storeMask ++ movImmediate 1 magicMaskY) rfl
  have hskip : (bionicSetjmp helpers base).Runs
      (.inside 11 (execs q (storeMask ++ movImmediate 1 magicMaskY), b))
      (.inside 14 (execs q (storeMask ++ movImmediate 1 magicMaskY), b)) :=
    Section.runs_taken (k := .al) rfl rfl
  refine ⟨_, q.memory, hpush.trans (hcall.trans (hstore.trans hskip)), ?_⟩
  rw [execs_append, execs_movImmediate, execs_storeMask hloaded]
  refine ⟨by simp [Cpu.set], by simp [Cpu.set],
    ⟨fun r hr => ?_, hcallee.keeps.doubles, hcallee.keeps.fpscr⟩, ?_, hmemory⟩
  · have hscratch : ∀ r ∈ jumpSaved, r ≠ 0 ∧ r ≠ 1 ∧ (r ≠ lr → r ∈ calleeSaved) := by decide
    obtain ⟨h0, h1, hsaved⟩ := hscratch r hr
    simp only [Cpu.set, Function.update_of_ne h1, List.contains_iff_mem, List.mem_cons, h0, h1,
      List.not_mem_nil, if_false, false_or, or_false]
    split_ifs with hlr hsp
    · rfl
    · rw [hcallee.keeps.regs sp (by decide), hsp]
      exact (congrArg (· + 8) exec_push_sp).trans (UInt32.sub_add_cancel ..)
    · exact (hcallee.keeps.regs r (hsaved hlr)).trans
        ((Function.update_of_ne hlr ..).trans (exec_push_regs hsp))
  · simp [Cpu.set, Memory.storeFields, maskFields, Memory.storeWords_singleton, hmask]

/-- The registers and the mask are ready to be saved. -/
theorem sigsetjmp_prepares (c : Cpu) (b : BlockedSet host) :
    ∃ (s : Cpu) (m : Memory), (bionicSetjmp helpers base).Runs
        (.inside nfsmwBionicSigsetjmp (c, b)) (.inside 14 (s, b)) ∧
      s.regs 0 = c.regs 0 ∧ s.regs 1 = magicOf (maskToSave c b) ∧ Keeps jumpSaved c s ∧
      s.memory = m.storeFields (c.regs 0) (maskFields (maskToSave c b)) ∧
      Set.EqOn m c.memory (stackUsed (maskToSave c b).isSome c (8 + helpers.frame))ᶜ := by
  rcases eq_or_ne (c.regs 1) 0 with hsave | hsave
  · have hmask : maskToSave c b = none := if_pos hsave
    rw [hmask]
    have hscratch : ∀ r ∈ jumpSaved, r ≠ 1 := by decide
    exact ⟨_, c.memory, sigsetjmp_unmasked hsave, rfl, rfl,
      ⟨fun r hr => Function.update_of_ne (hscratch r hr) .., fun _ _ _ => rfl, rfl⟩, rfl,
      fun _ _ => rfl⟩
  · have hcompare : (bionicSetjmp helpers base).Runs (.inside 2 (c, b))
        (.inside 3 (execs c [.cmp 1 (.imm 0)], b)) := Section.runs_block [.cmp 1 (.imm 0)] rfl
    have hbranch : (bionicSetjmp helpers base).Runs (.inside 3 (execs c [.cmp 1 (.imm 0)], b))
        (.inside 4 (execs c [.cmp 1 (.imm 0)], b)) :=
      Section.runs_untaken (k := .eq) (mt zero_compareFlags.mp hsave) rfl
    obtain ⟨s, m, hcapture, h⟩ := @captureMask host helpers base
      (execs c [.cmp 1 (.imm 0)]) b
    have hmask : maskToSave c b = some (signalMaskCapture b) := if_neg hsave
    rw [hmask]
    obtain ⟨h0, h1, hkeeps, hmemory, hstack⟩ := h
    exact ⟨s, m, hcompare.trans (hbranch.trans hcapture), h0, h1,
      ⟨hkeeps.regs, hkeeps.doubles, hkeeps.fpscr⟩, hmemory, hstack⟩

/-- A call of `sigsetjmp` returns 0, and the buffer has what a jump needs. -/
theorem sigsetjmp_returns (c : Cpu) (b : BlockedSet host) :
    ∃ v, (bionicSetjmp helpers base).Runs (.inside nfsmwBionicSigsetjmp (c, b))
        (.returned (c.regs lr) (v, b)) ∧
      v.regs 0 = 0 ∧
      Set.EqOn v.memory c.memory
        (jmpBuf (c.regs 0) ∪ stackUsed (maskToSave c b).isSome c (8 + helpers.frame))ᶜ ∧
      Saved v.memory (c.regs 0) c (maskToSave c b) := by
  obtain ⟨s, m, hrun, h0, h1, hkeeps, hmemory, hstack⟩ :=
    @sigsetjmp_prepares host helpers base c b
  obtain ⟨hzero, -, hsaved⟩ := execs_saveState s
  have hfields : (execs s saveState).memory =
      m.storeFields (c.regs 0) (jmpBufFields s (maskToSave c b)) := by
    rw [hsaved, hmemory, h0, h1, jmpBufFields, Memory.storeFields_append]
  have hreturn := @saveState_returns host helpers base s b
  rw [hkeeps.regs lr (by decide)] at hreturn
  refine ⟨execs s saveState, hrun.trans hreturn, hzero, ?_, s, hkeeps, ?_⟩
  · rw [hfields, Set.compl_union]
    exact fun x hx => (Memory.storeFields_eqOn_compl (fits_jmpBufFields s _) hx.1).trans
      (hstack hx.2)
  · rw [hfields]
    exact Memory.holds_storeFields (fits_jmpBufFields s _) (apart_jmpBufFields s _)

/-! ## Restoring -/

/-- A magic word in a buffer. -/
theorem load32_magic {m : Memory} {buf : UInt32} {s : Cpu} {mask : Option UInt32}
    (h : m.Holds buf (jmpBufFields s mask)) : m.load32 (buf + jbMagic) = magicOf mask := by
  have hmagic := h (jbMagic, [magicOf mask]) (by simp [jmpBufFields, stateFields])
  rw [List.length_singleton, Memory.loadWords_one] at hmagic
  exact (List.cons.inj hmagic).1

theorem load32_mask {m : Memory} {buf v : UInt32} {s : Cpu}
    (h : m.Holds buf (jmpBufFields s (some v))) : m.load32 (buf + jbSigmask) = v := by
  have hmask := h (jbSigmask, [v]) (by simp [jmpBufFields, maskFields])
  rw [List.length_singleton, Memory.loadWords_one] at hmask
  exact (List.cons.inj hmask).1

/-- What the loads make of the buffer. -/
theorem execs_restoreState {s : Cpu} {mask : Option UInt32}
    (h : c.memory.Holds (c.regs 0) (jmpBufFields s mask)) :
    (execs c restoreState).regs 1 = c.regs 1 ∧
      (∀ r ∈ savedCore, (execs c restoreState).regs r = s.regs r) ∧
      (∀ d ∈ savedDoubles, (execs c restoreState).doubles d = s.doubles d) ∧
      (execs c restoreState).fpscr = s.fpscr := by
  have hfloat := h (jbFloatBase, words (savedDoubles.map s.doubles))
    (by simp [jmpBufFields, stateFields])
  have hstate := h (jbFloatState, [s.fpscr]) (by simp [jmpBufFields, stateFields])
  have hcore := h (jbCoreBase, savedCore.map s.regs) (by simp [jmpBufFields, stateFields])
  rw [length_words, List.length_map] at hfloat
  rw [List.length_singleton, Memory.loadWords_one] at hstate
  rw [List.length_map] at hcore
  simp [restoreState, Op.exec, Cpu.set, hfloat, hcore, (List.cons.inj hstate).1, setAll_map]
  exact ⟨fun h1 => absurd h1 (by decide), fun _ hr hnot => absurd hr hnot,
    fun _ hd hnot => absurd hd hnot⟩

/-- A state with a stack and a return address passes both checks. -/
theorem restoreState_passes {s : Cpu} {mask : Option UInt32}
    (h : c.memory.Holds (c.regs 0) (jmpBufFields s mask)) (hsp : s.regs sp ≠ 0)
    (hlr : s.regs lr ≠ 0) :
    (bionicSetjmp helpers base).Runs (.inside 37 (c, b))
      (.inside 47 (execs (execs c restoreState) [.cmp lr (.imm 0)], b)) := by
  obtain ⟨-, hcore, -, -⟩ := execs_restoreState h
  set r := execs c restoreState with hr
  have hrestore : (bionicSetjmp helpers base).Runs (.inside 37 (c, b))
      (.inside 44 (execs c (restoreState ++ [.cmp sp (.imm 0)]), b)) :=
    Section.runs_block (restoreState ++ [.cmp sp (.imm 0)]) rfl
  rw [execs_append, ← hr] at hrestore
  have hstack : (bionicSetjmp helpers base).Runs (.inside 44 (execs r [.cmp sp (.imm 0)], b))
      (.inside 45 (execs r [.cmp sp (.imm 0)], b)) :=
    Section.runs_untaken (k := .eq)
      (mt zero_compareFlags.mp (by rwa [Operand.eval_imm, hcore sp (by decide)])) rfl
  have hcompare : (bionicSetjmp helpers base).Runs (.inside 45 (execs r [.cmp sp (.imm 0)], b))
      (.inside 46 (execs r [.cmp lr (.imm 0)], b)) := Section.runs_block [.cmp lr (.imm 0)] rfl
  have haddress : (bionicSetjmp helpers base).Runs (.inside 46 (execs r [.cmp lr (.imm 0)], b))
      (.inside 47 (execs r [.cmp lr (.imm 0)], b)) :=
    Section.runs_untaken (k := .eq)
      (mt zero_compareFlags.mp (by rwa [Operand.eval_imm, hcore lr (by decide)])) rfl
  exact hrestore.trans (hstack.trans (hcompare.trans haddress))

/-- A value of 0 becomes 1. -/
theorem siglongjmp_value {s v : Cpu} (hflags : Cond.eq.holds v.flags = true ↔ v.regs 0 = 0)
    (hkeeps : Keeps jumpSaved s v) :
    ∃ t, (bionicSetjmp helpers base).Runs (.inside 49 (v, b)) (.inside 50 (t, b)) ∧
      t.regs 0 = (if v.regs 0 = 0 then 1 else v.regs 0) ∧ Keeps jumpSaved s t := by
  have hnext : (bionicSetjmp helpers base).Runs (.inside 49 (v, b))
      ((bionicSetjmp helpers base).next 49 (v, b) (.op .eq (.mov 0 (.imm 1)))) :=
    Section.runs_next _ rfl
  have hscratch : ∀ i ∈ jumpSaved, i ≠ 0 := by decide
  rcases eq_or_ne (v.regs 0) 0 with hzero | hzero
  · rw [Section.next, if_pos (hflags.mpr hzero)] at hnext
    exact ⟨_, hnext, (if_pos hzero).symm,
      ⟨fun i hi => (Function.update_of_ne (hscratch i hi) ..).trans (hkeeps.regs i hi),
        hkeeps.doubles, hkeeps.fpscr⟩⟩
  · rw [Section.next, if_neg (mt hflags.mp hzero)] at hnext
    exact ⟨v, hnext, (if_neg hzero).symm, hkeeps⟩

/-- The state in the buffer is resumed, if it has a stack and a return address. -/
theorem siglongjmp_resumes {s : Cpu} {mask : Option UInt32}
    (h : c.memory.Holds (c.regs 0) (jmpBufFields s mask)) (hsp : s.regs sp ≠ 0)
    (hlr : s.regs lr ≠ 0) :
    ∃ v, (bionicSetjmp helpers base).Runs (.inside 37 (c, b)) (.returned (s.regs lr) (v, b)) ∧
      v.regs 0 = (if c.regs 1 = 0 then 1 else c.regs 1) ∧ Keeps jumpSaved s v := by
  obtain ⟨h1, hcore, hdoubles, hfpscr⟩ := execs_restoreState h
  have hpasses := @restoreState_passes host helpers base c b _ _ h hsp hlr
  set r := execs c restoreState
  have hvalue : (bionicSetjmp helpers base).Runs (.inside 47 (execs r [.cmp lr (.imm 0)], b))
      (.inside 49 (execs r [.cmp lr (.imm 0), .mov 0 (.reg 1), .cmp 0 (.imm 0)], b)) :=
    Section.runs_block [.mov 0 (.reg 1), .cmp 0 (.imm 0)] rfl
  set v := execs r [.cmp lr (.imm 0), .mov 0 (.reg 1), .cmp 0 (.imm 0)]
  have hv0 : v.regs 0 = c.regs 1 := h1
  have hcores : ∀ i ∈ jumpSaved, i ≠ 0 ∧ i ∈ savedCore := by decide
  have hdouble : ∀ d : Fin 32, 8 ≤ d → d ≤ 15 → d ∈ savedDoubles := by decide
  have hkeeps : Keeps jumpSaved s v :=
    ⟨fun i hi => (Function.update_of_ne (hcores i hi).1 ..).trans (hcore i (hcores i hi).2),
      fun d hd hd' => hdoubles d (hdouble d hd hd'), hfpscr⟩
  obtain ⟨t, hone, ht0, htkeeps⟩ :=
    @siglongjmp_value host helpers base b s v zero_compareFlags hkeeps
  rw [hv0] at ht0
  have hreturn : (bionicSetjmp helpers base).Runs (.inside 50 (t, b))
      (.returned (t.regs lr) (t, b)) := Section.runs_next (.bx .al lr) rfl
  rw [htkeeps.regs lr (by decide)] at hreturn
  exact ⟨t, hpasses.trans (hvalue.trans (hone.trans hreturn)), ht0, htkeeps⟩

theorem execs_checkMagic (c : Cpu) (v : UInt32) :
    execs c (checkMagic v) = { c.set 2 v with flags := compareFlags (c.regs 3) v } := by
  rw [checkMagic, execs_append, execs_movImmediate]
  rfl

/-- The magic word is loaded and compared with the first value. -/
theorem siglongjmp_loads (c : Cpu) (b : BlockedSet host) :
    (bionicSetjmp helpers base).Runs (.inside nfsmwBionicSiglongjmp (c, b))
      (.inside 28 (execs c (.ldr 3 0 jbMagic :: checkMagic magicMaskN), b)) :=
  Section.runs_block (.ldr 3 0 jbMagic :: checkMagic magicMaskN) rfl

/-- Another magic word is compared with the second value. -/
theorem siglongjmp_compares (h : c.memory.load32 (c.regs 0 + jbMagic) ≠ magicMaskN) :
    (bionicSetjmp helpers base).Runs (.inside nfsmwBionicSiglongjmp (c, b))
      (.inside 32 (execs c (.ldr 3 0 jbMagic :: checkMagic magicMaskN ++ checkMagic magicMaskY),
        b)) := by
  have hbranch : (bionicSetjmp helpers base).Runs
      (.inside 28 (execs c (.ldr 3 0 jbMagic :: checkMagic magicMaskN), b))
      (.inside 29 (execs c (.ldr 3 0 jbMagic :: checkMagic magicMaskN), b)) := by
    refine Section.runs_untaken (k := .eq) ?_ rfl
    rw [execs_cons, execs_checkMagic]
    exact mt zero_compareFlags.mp h
  have hcompare : (bionicSetjmp helpers base).Runs
      (.inside 29 (execs c (.ldr 3 0 jbMagic :: checkMagic magicMaskN), b))
      (.inside 32 (execs (execs c (.ldr 3 0 jbMagic :: checkMagic magicMaskN))
        (checkMagic magicMaskY), b)) := Section.runs_block (checkMagic magicMaskY) rfl
  rw [← execs_append] at hcompare
  exact (siglongjmp_loads c b).trans (hbranch.trans hcompare)

theorem siglongjmp_unmasked (h : c.memory.load32 (c.regs 0 + jbMagic) = magicMaskN) :
    (bionicSetjmp helpers base).Runs (.inside nfsmwBionicSiglongjmp (c, b))
      (.inside 37 (execs c (.ldr 3 0 jbMagic :: checkMagic magicMaskN), b)) := by
  refine (siglongjmp_loads c b).trans (Section.runs_taken (k := .eq) ?_ rfl)
  rw [execs_cons, execs_checkMagic]
  exact zero_compareFlags.mpr h

/-- The call of the second helper. -/
theorem runs_restore (p : Cpu) (b : BlockedSet host) :
    ∃ q, (bionicSetjmp helpers base).Runs (.inside 35 (p, b))
        (.inside 36 (q, signalMaskRestore (p.regs 0) b)) ∧
      Callee helpers.frame (p.set lr (base + .ofNat (4 * (35 + 1)))) q := by
  set w := (p.set lr (base + .ofNat (4 * (35 + 1))), b)
  have hcall : (bionicSetjmp helpers base).Runs (.inside 35 (p, b))
      (.inside 36 (helpers.restore w)) :=
    Section.runs_next (.bl Routine.nfsmwBionicSignalMaskRestore) rfl
  rw [show helpers.restore w = ((helpers.restore w).1, signalMaskRestore (p.regs 0) b) from
    Prod.ext rfl (helpers.restore_blocked w)] at hcall
  exact ⟨_, hcall, helpers.restore_callee w⟩

/-- The mask is restored from the buffer, and the registers are back from the stack. -/
theorem restoreMask {v : UInt32} {s : Cpu}
    (h : c.memory.Holds (c.regs 0) (jmpBufFields s (some v)))
    (hapart : Disjoint (jmpBuf (c.regs 0)) (below (c.regs sp) (16 + helpers.frame))) :
    ∃ d : Cpu, (bionicSetjmp helpers base).Runs (.inside 33 (c, b))
        (.inside 37 (d, signalMaskRestore v b)) ∧
      d.regs 0 = c.regs 0 ∧ d.regs 1 = c.regs 1 ∧
      d.memory.Holds (c.regs 0) (jmpBufFields s (some v)) := by
  have hfit : 4 * [0, 1, 2, lr].length + helpers.frame ≤ 2 ^ 32 := helpers.frame_le
  have hblock : (bionicSetjmp helpers base).Runs (.inside 33 (c, b))
      (.inside 35 (execs c [.push [0, 1, 2, lr], .ldr 0 0 jbSigmask], b)) :=
    Section.runs_block [.push [0, 1, 2, lr], .ldr 0 0 jbSigmask] rfl
  have hpushed : Set.EqOn ((Op.push [0, 1, 2, lr]).exec c).memory c.memory
      (jmpBuf (c.regs 0)) := by
    refine Memory.storeWords_eqOn (hapart.mono_right ?_)
    exact span_sub_subset_below hfit
  have hmask : (execs c [.push [0, 1, 2, lr], .ldr 0 0 jbSigmask]).regs 0 = v := by
    rw [← load32_mask (h.congr (fits_jmpBufFields s (some v)) hpushed)]
    rfl
  obtain ⟨q, hcall, hcallee⟩ :=
    @runs_restore host helpers base (execs c [.push [0, 1, 2, lr], .ldr 0 0 jbSigmask]) b
  rw [hmask] at hcall
  obtain ⟨hloaded, hmemory⟩ := @Callee.pushed _ [0, 1, 2, lr] c _ _ hcallee hfit rfl rfl
  have hpop : (bionicSetjmp helpers base).Runs (.inside 36 (q, signalMaskRestore v b))
      (.inside 37 (execs q [.pop [0, 1, 2, lr]], signalMaskRestore v b)) :=
    Section.runs_block [.pop [0, 1, 2, lr]] rfl
  rw [execs_cons, execs_nil, exec_pop hloaded] at hpop
  have hsame : Set.EqOn q.memory c.memory (jmpBuf (c.regs 0)) :=
    hmemory.mono (Set.subset_compl_iff_disjoint_right.mpr hapart)
  exact ⟨_, hblock.trans (hcall.trans hpop), rfl, rfl,
    h.congr (fits_jmpBufFields s (some v)) hsame⟩

/-- An invalid buffer is not used. -/
theorem siglongjmp_invalid (hn : c.memory.load32 (c.regs 0 + jbMagic) ≠ magicMaskN)
    (hy : c.memory.load32 (c.regs 0 + jbMagic) ≠ magicMaskY) :
    ∃ w, (bionicSetjmp helpers base).Runs (.inside nfsmwBionicSiglongjmp (c, b))
      (.left .nfsmwBionicLongjmpError w) := by
  have hbranch : (bionicSetjmp helpers base).Runs
      (.inside 32 (execs c (.ldr 3 0 jbMagic :: checkMagic magicMaskN ++ checkMagic magicMaskY),
        b))
      (.inside 51 (execs c (.ldr 3 0 jbMagic :: checkMagic magicMaskN ++ checkMagic magicMaskY),
        b)) := by
    refine Section.runs_taken (k := .ne) ?_ rfl
    rw [List.cons_append, execs_cons, execs_append, execs_checkMagic, execs_checkMagic]
    have hz := Bool.eq_false_iff.mpr (mt zero_compareFlags.mp hy)
    exact congrArg not hz
  exact ⟨_, (siglongjmp_compares hn).trans (hbranch.trans
    (Section.runs_next (.b .al (.routine Routine.nfsmwBionicLongjmpError)) rfl))⟩

/-- The signals that are blocked after a jump. -/
def blockedAfter (mask : Option UInt32) (b : BlockedSet host) : BlockedSet host :=
  match mask with
  | none => b
  | some v => signalMaskRestore v b

/-- The buffer's second magic word leads to the helper. -/
theorem siglongjmp_masked {s : Cpu} {m : UInt32}
    (h : c.memory.Holds (c.regs 0) (jmpBufFields s (some m)))
    (hapart : Disjoint (jmpBuf (c.regs 0)) (below (c.regs sp) (16 + helpers.frame))) :
    ∃ d : Cpu, (bionicSetjmp helpers base).Runs (.inside nfsmwBionicSiglongjmp (c, b))
        (.inside 37 (d, signalMaskRestore m b)) ∧
      d.regs 0 = c.regs 0 ∧ d.regs 1 = c.regs 1 ∧
      d.memory.Holds (c.regs 0) (jmpBufFields s (some m)) := by
  have hmagic : c.memory.load32 (c.regs 0 + jbMagic) = magicMaskY := load32_magic h
  have hcompare := @siglongjmp_compares host helpers base c b
    (by rw [hmagic]; decide)
  set e := execs c (.ldr 3 0 jbMagic :: checkMagic magicMaskN ++ checkMagic magicMaskY) with he
  rw [List.cons_append, execs_cons, execs_append, execs_checkMagic, execs_checkMagic] at he
  have hbranch : (bionicSetjmp helpers base).Runs (.inside 32 (e, b)) (.inside 33 (e, b)) := by
    refine Section.runs_untaken (k := .ne) ?_ rfl
    have hz : e.flags.z = true := he ▸ zero_compareFlags.mpr hmagic
    simp [Cond.holds, hz]
  have he0 : e.regs 0 = c.regs 0 := he ▸ rfl
  have he1 : e.regs 1 = c.regs 1 := he ▸ rfl
  have hesp : e.regs sp = c.regs sp := he ▸ rfl
  have hememory : e.memory = c.memory := he ▸ rfl
  obtain ⟨d, hrestore, h0, h1, hd⟩ := @restoreMask host helpers base e b _ _
    (by rwa [he0, hememory]) (by rwa [he0, hesp])
  exact ⟨d, hcompare.trans (hbranch.trans hrestore), h0.trans he0, h1.trans he1, he0 ▸ hd⟩

/-- A jump continues where the state in the buffer was saved. -/
theorem siglongjmp_returns {v : Cpu} {mask : Option UInt32}
    (h : Saved c.memory (c.regs 0) v mask)
    (hapart : Disjoint (jmpBuf (c.regs 0)) (stackUsed mask.isSome c (16 + helpers.frame)))
    (hsp : v.regs sp ≠ 0) (hlr : v.regs lr ≠ 0) :
    ∃ t, (bionicSetjmp helpers base).Runs (.inside nfsmwBionicSiglongjmp (c, b))
        (.returned (v.regs lr) (t, blockedAfter mask b)) ∧
      t.regs 0 = (if c.regs 1 = 0 then 1 else c.regs 1) ∧ Keeps jumpSaved v t := by
  obtain ⟨s, hkeeps, hholds⟩ := h
  obtain ⟨d, hprepare, h0, h1, hd⟩ : ∃ d : Cpu, (bionicSetjmp helpers base).Runs
      (.inside nfsmwBionicSiglongjmp (c, b)) (.inside 37 (d, blockedAfter mask b)) ∧
      d.regs 0 = c.regs 0 ∧ d.regs 1 = c.regs 1 ∧
      d.memory.Holds (c.regs 0) (jmpBufFields s mask) := by
    cases mask with
    | none => exact ⟨_, siglongjmp_unmasked (load32_magic hholds), rfl, rfl, hholds⟩
    | some m => exact siglongjmp_masked hholds hapart
  rw [← hkeeps.regs sp (by decide)] at hsp
  rw [← hkeeps.regs lr (by decide)] at hlr ⊢
  obtain ⟨t, hresume, ht0, htkeeps⟩ := @siglongjmp_resumes host helpers base d (blockedAfter mask b)
    _ _ (by rwa [h0]) hsp hlr
  rw [h1] at ht0
  exact ⟨t, hprepare.trans hresume, ht0, hkeeps.trans htkeeps⟩

end Runs

/-! ## The round trip -/

/-- `setjmp` saves the mask, and `sigsetjmp` does if it is asked to. -/
def savesMask (entry : Nat) (c : Cpu) : Bool := entry = nfsmwBionicSetjmp || c.regs 1 ≠ 0

theorem setjmp_returns {helpers : MaskHelpers host} {base : UInt32} {entry : Nat}
    (hentry : entry = nfsmwBionicSetjmp ∨ entry = nfsmwBionicSigsetjmp) (c : Cpu)
    (b : BlockedSet host) :
    ∃ v, (bionicSetjmp helpers base).Runs (.inside entry (c, b)) (.returned (c.regs lr) (v, b)) ∧
      v.regs 0 = 0 ∧
      Set.EqOn v.memory c.memory
        (jmpBuf (c.regs 0) ∪ stackUsed (savesMask entry c) c (8 + helpers.frame))ᶜ ∧
      Saved v.memory (c.regs 0) c
        (if savesMask entry c then some (signalMaskCapture b) else none) := by
  rcases hentry with rfl | rfl
  · have hstart : (bionicSetjmp helpers base).Runs (.inside 0 (c, b))
        (.inside 1 (execs c [.mov 1 (.imm 1)], b)) := Section.runs_block [.mov 1 (.imm 1)] rfl
    have hbranch : (bionicSetjmp helpers base).Runs (.inside 1 (execs c [.mov 1 (.imm 1)], b))
        (.inside nfsmwBionicSigsetjmp (execs c [.mov 1 (.imm 1)], b)) :=
      Section.runs_taken (k := .al) rfl rfl
    obtain ⟨v, hrun, hzero, hmemory, s, hkeeps, hholds⟩ := @sigsetjmp_returns host helpers base
      (execs c [.mov 1 (.imm 1)]) b
    have hscratch : ∀ r ∈ jumpSaved, r ≠ 1 := by decide
    have hsame : Keeps jumpSaved c (execs c [.mov 1 (.imm 1)]) :=
      ⟨fun r hr => Function.update_of_ne (hscratch r hr) .., fun _ _ _ => rfl, rfl⟩
    exact ⟨v, hstart.trans (hbranch.trans hrun), hzero, hmemory, s, hsame.trans hkeeps, hholds⟩
  · obtain ⟨v, hrun, hzero, hmemory, hsaved⟩ := @sigsetjmp_returns host helpers base c b
    have hmask : maskToSave c b = if savesMask nfsmwBionicSigsetjmp c then
        some (signalMaskCapture b) else none := by
      simp [maskToSave, savesMask, nfsmwBionicSigsetjmp, nfsmwBionicSetjmp]
    have hsome : (maskToSave c b).isSome = savesMask nfsmwBionicSigsetjmp c := by
      rw [hmask]
      split <;> simp_all
    rw [hsome] at hmemory
    rw [hmask] at hsaved
    exact ⟨v, hrun, hzero, hmemory, hsaved⟩

theorem runs_siglongjmp {helpers : MaskHelpers host} {base : UInt32} {jump : Nat}
    (hjump : jump = nfsmwBionicLongjmp ∨ jump = nfsmwBionicSiglongjmp) (w : Cpu × BlockedSet host) :
    (bionicSetjmp helpers base).Runs (.inside jump w) (.inside nfsmwBionicSiglongjmp w) := by
  rcases hjump with rfl | rfl
  · exact Section.runs_taken (k := .al) rfl rfl
  · exact .refl

/-- A call of `setjmp` returns 0 and writes to its buffer and, for the mask, to the stack below
it. As long as the buffer is unchanged, and if the stack that a jump uses for the mask is not in
it, every jump returns there with its value and the state and signals of the call. An invalid
buffer is not used. -/
theorem setjmp_longjmp (helpers : MaskHelpers host) (base : UInt32) {entry jump : Nat}
    (hentry : entry = nfsmwBionicSetjmp ∨ entry = nfsmwBionicSigsetjmp)
    (hjump : jump = nfsmwBionicLongjmp ∨ jump = nfsmwBionicSiglongjmp) :
    (∀ (c : Cpu) (b : BlockedSet host), c.regs sp ≠ 0 → c.regs lr ≠ 0 →
      ∃ v, (bionicSetjmp helpers base).Runs (.inside entry (c, b))
          (.returned (c.regs lr) (v, b)) ∧
        v.regs 0 = 0 ∧
        Set.EqOn v.memory c.memory
          (jmpBuf (c.regs 0) ∪ stackUsed (savesMask entry c) c (8 + helpers.frame))ᶜ ∧
        ∀ (u : Cpu) (now : BlockedSet host), u.regs 0 = c.regs 0 →
          Set.EqOn u.memory v.memory (jmpBuf (c.regs 0)) →
          Disjoint (jmpBuf (c.regs 0)) (stackUsed (savesMask entry c) u (16 + helpers.frame)) →
          ∃ t later, (bionicSetjmp helpers base).Runs (.inside jump (u, now))
              (.returned (c.regs lr) (t, later)) ∧
            t.regs 0 = (if u.regs 1 = 0 then 1 else u.regs 1) ∧ Keeps jumpSaved c t ∧
            ∀ n, 1 ≤ n → n ≤ 32 →
              later.signals n = (if savesMask entry c then b else now).signals n) ∧
    ∀ (u : Cpu) (now : BlockedSet host), u.memory.load32 (u.regs 0 + jbMagic) ≠ magicMaskN →
      u.memory.load32 (u.regs 0 + jbMagic) ≠ magicMaskY →
      (∃ w, (bionicSetjmp helpers base).Runs (.inside jump (u, now))
        (.left .nfsmwBionicLongjmpError w)) ∧
      ∀ address w, ¬ (bionicSetjmp helpers base).Runs (.inside jump (u, now))
        (.returned address w) := by
  constructor
  · intro c b hsp hlr
    obtain ⟨v, hrun, hzero, hmemory, hsaved⟩ := @setjmp_returns host helpers base _ hentry c b
    refine ⟨v, hrun, hzero, hmemory, fun u now h0 hsame hapart => ?_⟩
    rw [← h0] at hsaved hsame hapart
    obtain ⟨t, hjumps, ht0, hkeeps⟩ := @siglongjmp_returns host helpers base u now _ _
      (hsaved.congr hsame) (by cases h : savesMask entry c <;> simpa [h] using hapart)
      hsp hlr
    refine ⟨t, _, (runs_siglongjmp hjump _).trans hjumps, ht0, hkeeps, fun n h1 h32 => ?_⟩
    cases h : savesMask entry c with
    | false => rfl
    | true => exact signalMaskRestore_capture b now h1 h32
  · intro u now hn hy
    obtain ⟨w, hleft⟩ := @siglongjmp_invalid host helpers base u now hn hy
    have hjumps := (runs_siglongjmp hjump _).trans hleft
    exact ⟨⟨w, hjumps⟩, fun address _ => Section.not_returned_of_left hjumps address⟩

/-- A host with the signals 1 to 64, of which 9 and 19 cannot be blocked. -/
def sampleSignalHost : SignalHost where
  valid n := decide (1 ≤ n ∧ n ≤ 64)
  unblockable n := n == 9 || n == 19
  valid_guest n h1 h32 := by simp; omega

/-- Helpers that leave the stack alone. -/
def sampleHelpers : MaskHelpers sampleSignalHost where
  frame := 0
  frame_le := by decide
  capture w := (w.1.set 0 (signalMaskCapture w.2), w.2)
  restore w := (w.1, signalMaskRestore (w.1.regs 0) w.2)
  capture_callee w :=
    ⟨⟨fun r hr => Function.update_of_ne ((by decide : ∀ r ∈ calleeSaved, r ≠ 0) r hr) ..,
      fun _ _ _ => rfl, rfl⟩, fun _ _ => rfl⟩
  capture_mask w := by simp [Cpu.set]
  capture_blocked _ := rfl
  restore_callee _ := ⟨⟨fun _ _ => rfl, fun _ _ _ => rfl, rfl⟩, fun _ _ => rfl⟩
  restore_blocked _ := rfl

/-- A call with the buffer at 0x2000, for the mask too. -/
def sampleCpu (stack address : UInt32) : Cpu where
  regs r := if r = sp then stack else if r = lr then address else if r = 0 then 0x2000 else 7
  flags := ⟨false, false, false, false⟩
  doubles _ := (0, 0)
  fpscr := 0
  memory _ := 0

/-- A signal is blocked. -/
def sampleBlocked : BlockedSet sampleSignalHost where
  signals n := n == 10
  blockable n h := by
    have h10 : n = 10 := by simpa using h
    rw [h10]
    rfl

/-- A jump from another function, with the signals changed. -/
theorem setjmp_longjmp_sample :
    ∃ v, (bionicSetjmp sampleHelpers 0).Runs
        (.inside nfsmwBionicSigsetjmp (sampleCpu 0x8000 0x3000, sampleBlocked))
        (.returned 0x3000 (v, sampleBlocked)) ∧
      ∃ t later, (bionicSetjmp sampleHelpers 0).Runs
          (.inside nfsmwBionicLongjmp
            ({ sampleCpu 0x7000 0x4000 with memory := v.memory },
              signalMaskRestore 0 sampleBlocked))
          (.returned 0x3000 (t, later)) ∧
        t.regs 0 = 7 ∧ Keeps jumpSaved (sampleCpu 0x8000 0x3000) t ∧ later.signals 10 = true := by
  obtain ⟨v, hrun, -, -, hjump⟩ := (setjmp_longjmp sampleHelpers 0 (.inr rfl) (.inl rfl)).1
    (sampleCpu 0x8000 0x3000) sampleBlocked (by decide) (by decide)
  have hapart : Disjoint (jmpBuf 0x2000) (below 0x7000 16) :=
    disjoint_span (by decide) (by decide)
  obtain ⟨t, later, hresume, h0, hkeeps, hsignals⟩ :=
    hjump { sampleCpu 0x7000 0x4000 with memory := v.memory } (signalMaskRestore 0 sampleBlocked)
      rfl (fun _ _ => rfl) hapart
  exact ⟨v, hrun, t, later, hresume, h0, hkeeps, hsignals 10 (by decide) (by decide)⟩

/-- The call that saves the mask writes to the stack; and a jump whose stack is right above the
buffer overwrites the return address there, and goes somewhere else. -/
theorem not_roundTrip_stack :
    ∃ v, (bionicSetjmp sampleHelpers 0).Runs
        (.inside nfsmwBionicSigsetjmp (sampleCpu 0x8000 0x3000, sampleBlocked))
        (.returned 0x3000 v) ∧
      (∃ x ∉ jmpBuf 0x2000, v.1.memory x ≠ (sampleCpu 0x8000 0x3000).memory x) ∧
      ∃ t, (bionicSetjmp sampleHelpers 0).Runs
        (.inside nfsmwBionicSiglongjmp
          ({ sampleCpu (0x2000 + 120) 0x4000 with memory := v.1.memory }, sampleBlocked))
        (.returned 0x4000 t) := by
  refine ⟨_, Section.runs_returned (n := 30) (by decide +kernel), ⟨0x7ffd, ?_, ?_⟩, _,
    Section.runs_returned (n := 30) ?_⟩
  · rw [jmpBuf]
    decide
  · decide +kernel
  · decide +kernel

end NfsmwRuntime.Compat
