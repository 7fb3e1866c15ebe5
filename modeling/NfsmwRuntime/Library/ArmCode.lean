import NfsmwRuntime.Library.Arm

/-!
# ARM code in memory

The fragment of the instruction set whose encodings a program checks or writes, decoded from
words, and a processor that fetches what it runs. An address may be writable and executable;
a store to another address, or a fetch from one, stops the processor.

A branch word reaches the displacement it is made for.
-/

namespace NfsmwRuntime.Library.Arm

/-! ## Decoding -/

/-- `n` bits of a word, from bit `lo` on. -/
def field (w : UInt32) (lo n : Nat) : Nat := w.toNat / 2 ^ lo % 2 ^ n

def decodeCond (w : UInt32) : Option Cond :=
  match field w 28 4 with
  | 0 => some .eq
  | 1 => some .ne
  | 14 => some .al
  | _ => none

/-- A register field; the program counter is not decoded. -/
def decodeReg (w : UInt32) (lo : Nat) : Option Reg :=
  if h : field w lo 4 < 15 then some ⟨field w lo 4, h⟩ else none

/-- An immediate is eight bits, rotated right by an even number. -/
def decodeImm (w : UInt32) : UInt32 :=
  let byte := UInt32.ofNat (field w 0 8)
  let rotation := UInt32.ofNat (2 * field w 8 4)
  byte >>> rotation ||| byte <<< (32 - rotation)

def decodeRegs (w : UInt32) : List Reg := (List.finRange 15).filter fun r => w.toNat.testBit r

/-- The displacement of a branch, in bytes: a signed number of words. -/
def branchOffset (w : UInt32) : UInt32 :=
  let words := field w 0 24
  .ofNat (if words < 2 ^ 23 then 4 * words else 4 * words + (2 ^ 32 - 2 ^ 26))

/-- The data-processing instructions with an immediate. -/
def decodeData (w : UInt32) : Option Op :=
  match field w 20 5 with
  | 0b00100 => do pure (.sub (← decodeReg w 12) (← decodeReg w 16) (.imm (decodeImm w)))
  | 0b01000 => do pure (.add (← decodeReg w 12) (← decodeReg w 16) (.imm (decodeImm w)))
  | 0b10101 => do pure (.cmp (← decodeReg w 16) (.imm (decodeImm w)))
  | 0b11010 => do pure (.mov (← decodeReg w 12) (.imm (decodeImm w)))
  | _ => none

def decode (w : UInt32) : Option (Instr UInt32 Empty) := do
  let c ← decodeCond w
  if field w 24 4 = 0b1010 then pure (.b c (branchOffset w))
  else if field w 4 24 = 0x12fff1 then pure (.bx c (← decodeReg w 0))
  else if field w 16 12 = 0x92d ∧ field w 15 1 = 0 then pure (.op c (.push (decodeRegs w)))
  else if field w 25 3 = 1 then pure (.op c (← decodeData w))
  else none

example : decode 0xe92d4c10 = some (.op .al (.push [4, sl, fp, lr])) := by decide
example : decode 0x03a00003 = some (.op .eq (.mov 0 (.imm 3))) := by decide

/-- A branch for a displacement from the instruction, as the processor counts it. -/
def branchWord (displacement : Int32) : UInt32 :=
  (0xea000000 : UInt32) ||| ((displacement >>> 2).toUInt32 &&& 0x00ffffff)

/-- A displacement in whole words, and in the range of a branch. -/
def BranchFits (d : Int32) : Prop := d &&& 3 = 0 ∧ -0x02000000 ≤ d ∧ d < 0x02000000

instance (d : Int32) : Decidable (BranchFits d) := inferInstanceAs (Decidable (_ ∧ _ ∧ _))

theorem BranchFits.toNat {d : Int32} (h : BranchFits d) :
    d.toUInt32.toNat % 4 = 0 ∧
      (d.toUInt32.toNat < 2 ^ 25 ∨ 2 ^ 32 - 2 ^ 25 ≤ d.toUInt32.toNat) := by
  obtain ⟨haligned, hlow, hhigh⟩ := h
  constructor
  · have hand := congrArg (·.toUInt32.toNat) haligned
    simp only [Int32.toUInt32_and, UInt32.toNat_and] at hand
    rw [← Nat.and_two_pow_sub_one_eq_mod _ 2]
    exact hand
  · rw [Int32.le_iff_toInt_le] at hlow
    rw [Int32.lt_iff_toInt_lt] at hhigh
    have hcond : d.toInt = _ := BitVec.toInt_eq_toNat_cond d.toBitVec
    rw [Int32.toNat_toBitVec] at hcond
    have hminus : (-0x02000000 : Int32).toInt = -0x02000000 := by decide
    have hplus : (0x02000000 : Int32).toInt = 0x02000000 := by decide
    have hlt := d.toUInt32.toNat_lt
    split at hcond <;> omega

theorem toNat_branchWord (d : Int32) :
    (branchWord d).toNat = 0xea000000 + d.toUInt32.toNat / 4 % 2 ^ 24 := by
  have hshift : (d >>> 2).toUInt32.toNat % 2 ^ 24 = d.toUInt32.toNat / 4 % 2 ^ 24 := by
    have hsigned : (d >>> 2).toUInt32.toNat = (d.toBitVec.sshiftRight 2).toNat := rfl
    have hlt := d.toUInt32.toNat_lt
    rw [hsigned, BitVec.toNat_sshiftRight, Int32.toNat_toBitVec, Nat.shiftRight_eq_div_pow,
      Nat.shiftRight_eq_div_pow]
    split <;> omega
  have hmask : ((d >>> 2).toUInt32 &&& 0x00ffffff).toNat = d.toUInt32.toNat / 4 % 2 ^ 24 := by
    rw [UInt32.toNat_and, ← hshift, ← Nat.and_two_pow_sub_one_eq_mod]
    rfl
  rw [branchWord, UInt32.toNat_or, hmask]
  exact (Nat.two_pow_add_eq_or_of_lt (Nat.mod_lt _ (Nat.two_pow_pos 24)) 0xea).symm

theorem decode_branchWord {d : Int32} (h : BranchFits d) :
    decode (branchWord d) = some (.b .al d.toUInt32) := by
  obtain ⟨haligned, hrange⟩ := h.toNat
  have hword := toNat_branchWord d
  have hcond : field (branchWord d) 28 4 = 14 := by
    rw [field, hword]
    omega
  have hop : field (branchWord d) 24 4 = 10 := by
    rw [field, hword]
    omega
  have hwords : field (branchWord d) 0 24 = d.toUInt32.toNat / 4 % 2 ^ 24 := by
    rw [field, hword]
    omega
  have hoffset : branchOffset (branchWord d) = d.toUInt32 := by
    rw [branchOffset, hwords, ← UInt32.toNat_inj, UInt32.toNat_ofNat']
    have hlt := d.toUInt32.toNat_lt
    split <;> omega
  simp [decode, decodeCond, hcond, hop, hoffset]

/-! ## Running -/

/-- What an address may be used for. -/
structure Rights where
  writable : UInt32 → Bool
  executable : UInt32 → Bool

/-- The bytes an instruction stores to: their address and their number. -/
def Op.stored (c : Cpu) : Op → UInt32 × Nat
  | .str _ rn offset => (c.regs rn + offset, 4)
  | .stmia rn rs => (c.regs rn, 4 * rs.length)
  | .push rs => (c.regs sp - .ofNat (4 * rs.length), 4 * rs.length)
  | .vstmia rn ds => (c.regs rn, 4 * (2 * ds.length))
  | _ => (0, 0)

def Op.Allowed (R : Rights) (c : Cpu) (op : Op) : Prop :=
  ∀ i < (op.stored c).2, R.writable ((op.stored c).1 + .ofNat i) = true

instance (R : Rights) (c : Cpu) (op : Op) : Decidable (op.Allowed R c) :=
  inferInstanceAs (Decidable (∀ i < _, _ = true))

/-- Only what is stored to changes. -/
theorem Op.exec_memory {c : Cpu} {op : Op} {x : UInt32}
    (hx : x ∉ span (op.stored c).1 (op.stored c).2) : (op.exec c).memory x = c.memory x := by
  cases op with
  | str rt rn offset => exact Memory.write_of_notMem hx
  | stmia rn rs => exact Memory.storeWords_of_notMem (by rwa [List.length_map])
  | push rs => exact Memory.storeWords_of_notMem (by rwa [List.length_map])
  | vstmia rn ds => exact Memory.storeWords_of_notMem (by rwa [length_words, List.length_map])
  | _ => rfl

theorem Op.Allowed.memory_eq {R : Rights} {c : Cpu} {op : Op} (h : op.Allowed R c) {x : UInt32}
    (hx : R.writable x = false) : (op.exec c).memory x = c.memory x := by
  refine Op.exec_memory fun hmem => ?_
  have hwritable := h _ hmem
  rw [UInt32.ofNat_toNat, UInt32.add_comm, UInt32.sub_add_cancel, hx] at hwritable
  cases hwritable

/-- Straight-line instructions, as far as they may store. -/
def execsIn (R : Rights) (c : Cpu) (ops : List Op) : Option Cpu :=
  ops.foldlM (fun c op => if op.Allowed R c then some (op.exec c) else none) c

/-- The processor and its program counter. -/
structure Core where
  pc : UInt32
  cpu : Cpu

namespace Core

/-- The instruction at the program counter. -/
def fetch (R : Rights) (s : Core) : Option (Instr UInt32 Empty) :=
  if R.executable s.pc then decode (s.cpu.memory.load32 s.pc) else none

/-- A step, unless the processor stops. The program counter is read two words ahead. -/
def step (R : Rights) (s : Core) : Option Core := do
  match ← s.fetch R with
  | .op c op =>
    if c.holds s.cpu.flags then
      if op.Allowed R s.cpu then some ⟨s.pc + 4, op.exec s.cpu⟩ else none
    else some ⟨s.pc + 4, s.cpu⟩
  | .b c offset => some ⟨if c.holds s.cpu.flags then s.pc + 8 + offset else s.pc + 4, s.cpu⟩
  | .bx c rm => some ⟨if c.holds s.cpu.flags then s.cpu.regs rm else s.pc + 4, s.cpu⟩
  | .bl _ => none

def Runs (R : Rights) : Core → Core → Prop := StateTransition.Reaches (step R)

variable {R : Rights} {s t u : Core}

theorem Runs.trans (h : Runs R s t) (h' : Runs R t u) : Runs R s u :=
  Relation.ReflTransGen.trans h h'

theorem runs_of_step (h : step R s = some t) : Runs R s t := .single h

variable {pc : UInt32} {c : Cpu} {k : Cond} {op : Op}

theorem step_op (hfetch : fetch R ⟨pc, c⟩ = some (.op k op)) (hk : k.holds c.flags = true)
    (hop : op.Allowed R c) : step R ⟨pc, c⟩ = some ⟨pc + 4, op.exec c⟩ := by
  simp [step, hfetch, hk, hop]

theorem step_op_skip (hfetch : fetch R ⟨pc, c⟩ = some (.op k op)) (hk : k.holds c.flags = false) :
    step R ⟨pc, c⟩ = some ⟨pc + 4, c⟩ := by
  simp [step, hfetch, hk]

theorem step_op_none (hfetch : fetch R ⟨pc, c⟩ = some (.op k op)) (hk : k.holds c.flags = true)
    (hop : ¬ op.Allowed R c) : step R ⟨pc, c⟩ = none := by
  simp [step, hfetch, hk, hop]

theorem step_b {offset : UInt32} (hfetch : fetch R ⟨pc, c⟩ = some (.b .al offset)) :
    step R ⟨pc, c⟩ = some ⟨pc + 8 + offset, c⟩ := by
  simp [step, hfetch, Cond.holds]

theorem step_bx {rm : Reg} (hfetch : fetch R ⟨pc, c⟩ = some (.bx k rm)) :
    step R ⟨pc, c⟩ = some ⟨if k.holds c.flags then c.regs rm else pc + 4, c⟩ := by
  simp [step, hfetch]

/-- A block of straight-line instructions in memory that its stores leave alone. -/
theorem runs_ops {I : Memory → Prop} {ops : List Op} {d : Cpu}
    (hfetch : ∀ (c : Cpu) i, I c.memory → ∀ hi : i < ops.length,
      fetch R ⟨pc + .ofNat (4 * i), c⟩ = some (.op .al ops[i]))
    (hkeep : ∀ (c : Cpu) (op : Op), I c.memory → op.Allowed R c → I (op.exec c).memory)
    (hc : I c.memory)
    (hrun : execsIn R c ops = some d) :
    Runs R ⟨pc, c⟩ ⟨pc + .ofNat (4 * ops.length), d⟩ ∧ I d.memory := by
  induction ops generalizing pc c with
  | nil =>
    cases hrun
    exact ⟨by simpa using .refl, hc⟩
  | cons op ops ih =>
    rw [execsIn, List.foldlM_cons] at hrun
    obtain ⟨e, he, hrest⟩ := Option.bind_eq_some_iff.mp hrun
    obtain ⟨hop, rfl⟩ : op.Allowed R c ∧ op.exec c = e := by simpa using he
    have hfirst := hfetch c 0 hc (Nat.succ_pos _)
    rw [show pc + UInt32.ofNat (4 * 0) = pc by grind] at hfirst
    have hnext : ∀ i, pc + UInt32.ofNat (4 * (i + 1)) = pc + 4 + .ofNat (4 * i) := fun i => by
      rw [Nat.mul_succ, UInt32.ofNat_add, UInt32.add_comm (.ofNat (4 * i)), ← UInt32.add_assoc]
      rfl
    have hfetch' : ∀ (c : Cpu) i, I c.memory → ∀ hi : i < ops.length,
        fetch R ⟨pc + 4 + .ofNat (4 * i), c⟩ = some (.op .al ops[i]) := fun c i hi hlt => by
      rw [← hnext]
      exact hfetch c (i + 1) hi (Nat.succ_lt_succ hlt)
    obtain ⟨hruns, hd⟩ := ih hfetch' (hkeep c op hc hop) hrest
    rw [List.length_cons, hnext]
    exact ⟨(runs_of_step (step_op hfirst rfl hop)).trans hruns, hd⟩

end Core

end NfsmwRuntime.Library.Arm
