import Mathlib.Computability.StateTransition
import Mathlib.Logic.Function.Basic
import NfsmwRuntime.Library.Memory

/-!
# A fragment of the ARM instruction set

The registers, the memory and the straight-line instructions of an ARM processor with
VFP, as hand-written assembly uses them. Words are stored little-endian, and every address
can be accessed. A double register is its two words, the low one first.

A section of code is a list of instructions that may jump inside the section, leave it for
an outer routine, or call one. A block of straight-line instructions is run in one lemma.
-/

namespace NfsmwRuntime.Library

namespace Memory

variable {m m' : Memory} {a b : UInt32} {ws : List UInt32}

/-! ## Words in memory -/

def storeWords (m : Memory) (a : UInt32) (ws : List UInt32) : Memory := m.write a (ws.flatMap le32)

def loadWords (m : Memory) (a : UInt32) (n : Nat) : List UInt32 :=
  (List.range n).map fun i => m.load32 (a + .ofNat (4 * i))

@[simp] theorem length_loadWords (n : Nat) : (m.loadWords a n).length = n := by
  simp [loadWords]

theorem length_flatMap_le32 (ws : List UInt32) : (ws.flatMap le32).length = 4 * ws.length := by
  simp [List.length_flatMap, Nat.mul_comm]

theorem storeWords_of_notMem {x : UInt32} (h : x ∉ span a (4 * ws.length)) :
    m.storeWords a ws x = m x :=
  write_of_notMem (by rwa [length_flatMap_le32])

theorem storeWords_eqOn {s : Set UInt32} (h : Disjoint s (span a (4 * ws.length))) :
    Set.EqOn (m.storeWords a ws) m s := fun _ hx =>
  storeWords_of_notMem (Set.disjoint_left.mp h hx)

theorem storeWords_singleton (v : UInt32) : m.storeWords a [v] = m.store32 a v := by
  simp [storeWords, store32]

theorem loadWords_congr {n : Nat} (hn : 4 * n ≤ 2 ^ 32) (h : Set.EqOn m m' (span a (4 * n))) :
    m.loadWords a n = m'.loadWords a n := by
  refine List.map_congr_left fun i hi => load32_congr (h.mono ?_)
  exact span_offset_subset (by have := List.mem_range.mp hi; omega) hn

theorem getElem?_flatMap_le32 (ws : List UInt32) (i : Nat) {k : Nat} (hk : k < 4) :
    (ws.flatMap le32)[4 * i + k]? = ws[i]?.bind fun w => (le32 w)[k]? := by
  induction ws generalizing i with
  | nil => simp
  | cons w ws ih =>
    rw [List.flatMap_cons]
    cases i with
    | zero => rw [List.getElem?_append_left (by simp; omega)]; simp
    | succ i =>
      rw [List.getElem?_append_right (by simp; omega), List.getElem?_cons_succ, ← ih i]
      congr 1
      simp
      omega

theorem loadWords_of_bytes
    (h : ∀ i (hi : i < (ws.flatMap le32).length), m (a + .ofNat i) = (ws.flatMap le32)[i]) :
    m.loadWords a ws.length = ws := by
  refine List.ext_getElem (by simp) fun i hi hi' => ?_
  simp only [loadWords, List.getElem_map, List.getElem_range]
  refine load32_of_window (window_eq (le32 ws[i]) fun k hk => ?_)
  have hword : (ws.flatMap le32)[4 * i + k]? = some (le32 ws[i])[k] := by
    rw [getElem?_flatMap_le32 ws i hk, List.getElem?_eq_getElem hi']
    exact List.getElem?_eq_getElem hk
  obtain ⟨hlt, hget⟩ := List.getElem?_eq_some_iff.mp hword
  rw [UInt32.add_assoc, ← UInt32.ofNat_add, h _ hlt]
  exact hget

/-- Words that were stored are there. -/
theorem loadWords_storeWords (hws : 4 * ws.length ≤ 2 ^ 32) :
    (m.storeWords a ws).loadWords a ws.length = ws :=
  loadWords_of_bytes fun i hi =>
    write_add hi (by rw [length_flatMap_le32] at hi; omega)

theorem load32_store32 (v : UInt32) : (m.store32 a v).load32 a = v :=
  load32_of_window (window_eq (le32 v) fun i hi => write_add hi (by simp at hi; omega))

theorem load32_of_loadWords {n i : Nat} (h : m.loadWords a n = ws) (hi : i < n) :
    some (m.load32 (a + .ofNat (4 * i))) = ws[i]? := by
  rw [← h, loadWords, List.getElem?_map, List.getElem?_range hi]
  rfl

theorem loadWords_one : m.loadWords a 1 = [m.load32 a] := by simp [loadWords]

/-! ## Records of words -/

/-- Words at offsets from one address. -/
abbrev Fields := List (UInt32 × List UInt32)

def storeFields (m : Memory) (a : UInt32) (fields : Fields) : Memory :=
  fields.foldl (fun m f => m.storeWords (a + f.1) f.2) m

theorem storeFields_append (fields fields' : Fields) :
    m.storeFields a (fields ++ fields') = (m.storeFields a fields).storeFields a fields' :=
  List.foldl_append

/-- The memory has the fields at the address. -/
def Holds (m : Memory) (a : UInt32) (fields : Fields) : Prop :=
  ∀ f ∈ fields, m.loadWords (a + f.1) f.2.length = f.2

/-- The fields are inside the `n` bytes from the address. -/
def Fits (n : Nat) (fields : Fields) : Prop :=
  n ≤ 2 ^ 32 ∧ ∀ f ∈ fields, f.1.toNat + 4 * f.2.length ≤ n

def Apart (fields : Fields) : Prop :=
  fields.Pairwise fun f g =>
    f.1.toNat + 4 * f.2.length ≤ g.1.toNat ∨ g.1.toNat + 4 * g.2.length ≤ f.1.toNat

variable {fields : Fields} {n : Nat}

theorem Fits.subset (h : Fits n fields) {f : UInt32 × List UInt32} (hf : f ∈ fields) :
    span (a + f.1) (4 * f.2.length) ⊆ span a n := by
  have := span_offset_subset (a := a) (h.2 f hf) h.1
  rwa [UInt32.ofNat_toNat] at this

theorem Fits.disjoint (h : Fits n fields) {f g : UInt32 × List UInt32} (hf : f ∈ fields)
    (hg : g ∈ fields) (hfg : f.1.toNat + 4 * f.2.length ≤ g.1.toNat ∨
      g.1.toNat + 4 * g.2.length ≤ f.1.toNat) :
    Disjoint (span (a + f.1) (4 * f.2.length)) (span (a + g.1) (4 * g.2.length)) := by
  refine disjoint_span_add a (Set.disjoint_left.mpr fun x hxf hxg => ?_)
  have hfit := h.2 f hf
  have hgit := h.2 g hg
  have hn := h.1
  rw [mem_span_iff_toNat (by omega)] at hxf hxg
  omega

theorem storeFields_eqOn {s : Set UInt32}
    (h : ∀ f ∈ fields, Disjoint s (span (a + f.1) (4 * f.2.length))) :
    Set.EqOn (m.storeFields a fields) m s := by
  induction fields generalizing m with
  | nil => exact fun _ _ => rfl
  | cons f fields ih =>
    obtain ⟨hfirst, hrest⟩ := List.forall_mem_cons.mp h
    rw [storeFields, List.foldl_cons, ← storeFields]
    exact (ih hrest).trans (storeWords_eqOn hfirst)

theorem storeFields_eqOn_compl (h : Fits n fields) :
    Set.EqOn (m.storeFields a fields) m (span a n)ᶜ :=
  storeFields_eqOn fun _ hf => (Set.disjoint_compl_left_iff_subset.mpr (h.subset hf))

theorem holds_storeFields (h : Fits n fields) (hapart : Apart fields) :
    (m.storeFields a fields).Holds a fields := by
  induction fields generalizing m with
  | nil => exact fun f hf => absurd hf List.not_mem_nil
  | cons f fields ih =>
    obtain ⟨hfirst, hrest⟩ := List.pairwise_cons.mp hapart
    have hfits : Fits n fields := ⟨h.1, fun g hg => h.2 g (List.mem_cons_of_mem _ hg)⟩
    have hf := h.2 f (List.mem_cons_self ..)
    have hn := h.1
    refine List.forall_mem_cons.mpr ⟨?_, ih hfits hrest⟩
    rw [storeFields, List.foldl_cons, ← storeFields]
    -- the later fields leave the words of the first one alone
    rw [loadWords_congr (by omega) (storeFields_eqOn fun g hg =>
      h.disjoint (List.mem_cons_self ..) (List.mem_cons_of_mem _ hg) (hfirst g hg))]
    exact loadWords_storeWords (by omega)

theorem Holds.congr (h : m.Holds a fields) (hfits : Fits n fields)
    (hsame : Set.EqOn m' m (span a n)) : m'.Holds a fields := by
  intro f hf
  have hf' := hfits.2 f hf
  have hn := hfits.1
  rw [loadWords_congr (by omega) (hsame.mono (hfits.subset hf))]
  exact h f hf

end Memory

namespace Arm

/-! ## The processor -/

/-- The registers `r0` to `r14`; the program counter is kept apart. -/
abbrev Reg := Fin 15

scoped instance neZeroRegs : NeZero 15 := ⟨by decide⟩

def sl : Reg := 10
def fp : Reg := 11
def sp : Reg := 13
def lr : Reg := 14

structure Flags where
  n : Bool
  z : Bool
  c : Bool
  v : Bool
  deriving DecidableEq, Repr

structure Cpu where
  regs : Reg → UInt32
  flags : Flags
  doubles : Fin 32 → UInt32 × UInt32
  fpscr : UInt32
  memory : Memory

def Cpu.set (s : Cpu) (r : Reg) (v : UInt32) : Cpu := { s with regs := Function.update s.regs r v }

/-- The flags after a comparison. -/
def compareFlags (x y : UInt32) : Flags where
  n := (x - y) >>> 31 = 1
  z := x = y
  c := y ≤ x
  v := ((x ^^^ y) &&& (x ^^^ (x - y))) >>> 31 = 1

theorem zero_compareFlags {x y : UInt32} : (compareFlags x y).z = true ↔ x = y :=
  decide_eq_true_iff

inductive Cond
  | al
  | eq
  | ne
  deriving DecidableEq, Repr

def Cond.holds : Cond → Flags → Bool
  | .al, _ => true
  | .eq, flags => flags.z
  | .ne, flags => !flags.z

inductive Operand
  | reg (r : Reg)
  | imm (v : UInt32)
  deriving DecidableEq, Repr

def Operand.eval (s : Cpu) : Operand → UInt32
  | .reg r => s.regs r
  | .imm v => v

@[simp] theorem Operand.eval_reg (s : Cpu) (r : Reg) : (Operand.reg r).eval s = s.regs r := rfl
@[simp] theorem Operand.eval_imm (s : Cpu) (v : UInt32) : (Operand.imm v).eval s = v := rfl

/-! ## Straight-line instructions -/

/-- Register lists are in ascending order. -/
inductive Op
  | mov (rd : Reg) (x : Operand)
  | movw (rd : Reg) (v : UInt16)
  | movt (rd : Reg) (v : UInt16)
  | cmp (rn : Reg) (x : Operand)
  | add (rd rn : Reg) (x : Operand)
  | sub (rd rn : Reg) (x : Operand)
  | ldr (rt rn : Reg) (offset : UInt32)
  | str (rt rn : Reg) (offset : UInt32)
  | ldmia (rn : Reg) (rs : List Reg)
  | stmia (rn : Reg) (rs : List Reg)
  | push (rs : List Reg)
  | pop (rs : List Reg)
  | vldmia (rn : Reg) (ds : List (Fin 32))
  | vstmia (rn : Reg) (ds : List (Fin 32))
  | vmrs (rt : Reg)
  | vmsr (rt : Reg)
  deriving DecidableEq, Repr

/-- The listed places get the listed values. -/
def setAll {ι β : Type} [DecidableEq ι] (f : ι → β) (is : List ι) (vs : List β) : ι → β :=
  fun i => (vs[is.idxOf i]?).getD (f i)

/-- The words of double registers, and back. -/
def words (ds : List (UInt32 × UInt32)) : List UInt32 := ds.flatMap fun d => [d.1, d.2]

def pairs : List UInt32 → List (UInt32 × UInt32)
  | low :: high :: rest => (low, high) :: pairs rest
  | _ => []

def Op.exec (s : Cpu) : Op → Cpu
  | .mov rd x => s.set rd (x.eval s)
  | .movw rd v => s.set rd v.toUInt32
  | .movt rd v => s.set rd (s.regs rd &&& (0xffff : UInt32) ||| v.toUInt32 <<< 16)
  | .cmp rn x => { s with flags := compareFlags (s.regs rn) (x.eval s) }
  | .add rd rn x => s.set rd (s.regs rn + x.eval s)
  | .sub rd rn x => s.set rd (s.regs rn - x.eval s)
  | .ldr rt rn offset => s.set rt (s.memory.load32 (s.regs rn + offset))
  | .str rt rn offset => { s with memory := s.memory.store32 (s.regs rn + offset) (s.regs rt) }
  | .ldmia rn rs =>
    { s with regs := setAll s.regs rs (s.memory.loadWords (s.regs rn) rs.length) }
  | .stmia rn rs => { s with memory := s.memory.storeWords (s.regs rn) (rs.map s.regs) }
  | .push rs =>
    let top := s.regs sp - .ofNat (4 * rs.length)
    { s with
      regs := Function.update s.regs sp top
      memory := s.memory.storeWords top (rs.map s.regs) }
  | .pop rs =>
    let top := s.regs sp
    { s with
      regs := setAll (Function.update s.regs sp (top + .ofNat (4 * rs.length))) rs
        (s.memory.loadWords top rs.length) }
  | .vldmia rn ds =>
    let loaded := pairs (s.memory.loadWords (s.regs rn) (2 * ds.length))
    { s with doubles := setAll s.doubles ds loaded }
  | .vstmia rn ds =>
    { s with memory := s.memory.storeWords (s.regs rn) (words (ds.map s.doubles)) }
  | .vmrs rt => s.set rt s.fpscr
  | .vmsr rt => { s with fpscr := s.regs rt }

/-! ## Straight-line blocks -/

def execs (s : Cpu) (ops : List Op) : Cpu := ops.foldl Op.exec s

@[simp] theorem execs_nil (s : Cpu) : execs s [] = s := rfl
@[simp] theorem execs_cons (s : Cpu) (op : Op) (ops : List Op) :
    execs s (op :: ops) = execs (op.exec s) ops := rfl

theorem execs_append (s : Cpu) (ops ops' : List Op) :
    execs s (ops ++ ops') = execs (execs s ops) ops' :=
  List.foldl_append

theorem setAll_map {ι β : Type} [DecidableEq ι] (f g : ι → β) (is : List ι) (i : ι) :
    setAll f is (is.map g) i = if i ∈ is then g i else f i := by
  rw [setAll, List.getElem?_map]
  split
  next h => simp [List.getElem?_idxOf h]
  next h => simp [List.idxOf_eq_length h]

theorem exec_push_regs {c : Cpu} {rs : List Reg} {r : Reg} (h : r ≠ sp) :
    ((Op.push rs).exec c).regs r = c.regs r :=
  Function.update_of_ne h ..

theorem exec_push_sp {c : Cpu} {rs : List Reg} :
    ((Op.push rs).exec c).regs sp = c.regs sp - .ofNat (4 * rs.length) := by
  rw [Op.exec]
  exact Function.update_self sp _ c.regs

/-- Registers are back when what was pushed is still on the stack. -/
theorem exec_pop {q : Cpu} {rs : List Reg} {f : Reg → UInt32}
    (h : q.memory.loadWords (q.regs sp) rs.length = rs.map f) :
    (Op.pop rs).exec q = { q with
      regs := fun r =>
        if rs.contains r then f r
        else if r = sp then q.regs sp + .ofNat (4 * rs.length)
        else q.regs r } := by
  simp only [Op.exec, h]
  congr 1
  funext r
  simp only [setAll_map, Function.update_apply, List.contains_iff_mem]

@[simp] theorem length_words (ds : List (UInt32 × UInt32)) : (words ds).length = 2 * ds.length := by
  simp [words, Nat.mul_comm]

@[simp] theorem pairs_words (ds : List (UInt32 × UInt32)) : pairs (words ds) = ds := by
  induction ds with
  | nil => rfl
  | cons d ds ih => rw [words, List.flatMap_cons, ← words]; exact congrArg (d :: ·) ih

/-! ## Sections of code -/

/-- Branches go to a `τ`; `bl` calls a `σ`. -/
inductive Instr (τ σ : Type)
  | op (c : Cond) (op : Op)
  | b (c : Cond) (target : τ)
  | bl (routine : σ)
  | bx (c : Cond) (rm : Reg)
  deriving DecidableEq, Repr

/-- Where a branch in a section goes. -/
inductive Target (σ : Type)
  | label (pc : Nat)
  | routine (routine : σ)
  deriving DecidableEq, Repr

/-- The instructions of a section, its address, and what the routines do that it calls. Calls
may see and change more of the world than the processor. -/
structure Section (σ ω : Type) where
  code : List (Instr (Target σ) σ)
  base : UInt32
  call : σ → Cpu × ω → Cpu × ω

/-- Control is at an instruction of the section, has returned to an address outside, or has
left for a routine for good. -/
inductive Place (σ ω : Type)
  | inside (pc : Nat) (w : Cpu × ω)
  | returned (address : UInt32) (w : Cpu × ω)
  | left (routine : σ) (w : Cpu × ω)

def Place.world {σ ω : Type} : Place σ ω → Cpu × ω
  | .inside _ w => w
  | .returned _ w => w
  | .left _ w => w

def Place.returnedTo {σ ω : Type} : Place σ ω → Option UInt32
  | .returned address _ => some address
  | _ => none

namespace Section

variable {σ ω : Type}

/-- `bl` leaves the address after it in `lr`. -/
def next (S : Section σ ω) (pc : Nat) (w : Cpu × ω) : Instr (Target σ) σ → Place σ ω
  | .op c op => .inside (pc + 1) (if c.holds w.1.flags then (op.exec w.1, w.2) else w)
  | .b c (.label target) => .inside (if c.holds w.1.flags then target else pc + 1) w
  | .b c (.routine routine) =>
    if c.holds w.1.flags then .left routine w else .inside (pc + 1) w
  | .bl routine =>
    .inside (pc + 1) (S.call routine (w.1.set lr (S.base + .ofNat (4 * (pc + 1))), w.2))
  | .bx c rm => if c.holds w.1.flags then .returned (w.1.regs rm) w else .inside (pc + 1) w

def step (S : Section σ ω) : Place σ ω → Option (Place σ ω)
  | .inside pc w => S.code[pc]?.map (S.next pc w)
  | .returned .. => none
  | .left .. => none

/-- From one place control comes to the other. -/
def Runs (S : Section σ ω) : Place σ ω → Place σ ω → Prop := StateTransition.Reaches S.step

variable {S : Section σ ω} {pc : Nat} {c : Cpu} {x : ω} {w : Cpu × ω} {p q r : Place σ ω}

theorem Runs.trans (h : S.Runs p q) (h' : S.Runs q r) : S.Runs p r :=
  Relation.ReflTransGen.trans h h'

theorem runs_next (i : Instr (Target σ) σ) (h : S.code[pc]? = some i) :
    S.Runs (.inside pc w) (S.next pc w i) :=
  .single (by simp [step, h])

theorem runs_taken {k : Cond} {target : Nat} (hk : k.holds w.1.flags = true)
    (h : S.code[pc]? = some (.b k (.label target))) : S.Runs (.inside pc w) (.inside target w) := by
  have hnext := runs_next (w := w) _ h
  rwa [next, if_pos hk] at hnext

theorem runs_untaken {k : Cond} {target : Nat} (hk : ¬ k.holds w.1.flags = true)
    (h : S.code[pc]? = some (.b k (.label target))) :
    S.Runs (.inside pc w) (.inside (pc + 1) w) := by
  have hnext := runs_next (w := w) _ h
  rwa [next, if_neg hk] at hnext

/-- A block of straight-line instructions, run. -/
theorem runs_block (ops : List Op)
    (h : (S.code.drop pc).take ops.length = ops.map (.op .al)) :
    S.Runs (.inside pc (c, x)) (.inside (pc + ops.length) (execs c ops, x)) := by
  induction ops generalizing pc c with
  | nil => exact .refl
  | cons op ops ih =>
    obtain ⟨hfirst, hrest⟩ : S.code[pc]? = some (.op .al op) ∧
        (S.code.drop (pc + 1)).take ops.length = ops.map (.op .al) := by
      rw [List.length_cons, List.map_cons] at h
      cases hcode : S.code[pc]? with
      | none => simp [List.drop_eq_nil_of_le (List.getElem?_eq_none_iff.mp hcode)] at h
      | some i =>
        obtain ⟨hlt, rfl⟩ := List.getElem?_eq_some_iff.mp hcode
        rw [List.drop_eq_getElem_cons hlt, List.take_succ_cons] at h
        exact ⟨congrArg some (List.cons.inj h).1, (List.cons.inj h).2⟩
    have hstep : S.Runs (.inside pc (c, x)) (.inside (pc + 1) (op.exec c, x)) := runs_next _ hfirst
    rw [List.length_cons, ← Nat.add_assoc, Nat.add_right_comm]
    exact hstep.trans (ih hrest)

/-- A run that has left the section never returns. -/
theorem not_returned_of_left {routine : σ} {v : Cpu × ω} (h : S.Runs p (.left routine w))
    (address : UInt32) : ¬ S.Runs p (.returned address v) := by
  intro h'
  have hend : ∀ {q r}, S.step q = none → S.Runs q r → r = q := fun hq hr =>
    Relation.reflTransGen_iff_eq (by simp [hq]) |>.mp hr
  rcases StateTransition.reaches_total h h' with hlr | hrl
  · cases hend rfl hlr
  · cases hend rfl hrl

/-- The place after some steps, or the last one. -/
def after (S : Section σ ω) (n : Nat) (p : Place σ ω) : Place σ ω :=
  (fun p => (S.step p).getD p)^[n] p

theorem runs_after (S : Section σ ω) (n : Nat) (p : Place σ ω) : S.Runs p (S.after n p) := by
  induction n generalizing p with
  | zero => exact .refl
  | succ n ih =>
    rw [after, Function.iterate_succ_apply, ← after]
    cases h : S.step p with
    | none => exact ih p
    | some q => exact .head h (ih q)

theorem runs_returned {n : Nat} {address : UInt32} (h : (S.after n p).returnedTo = some address) :
    S.Runs p (.returned address (S.after n p).world) := by
  have hrun := S.runs_after n p
  cases hp : S.after n p with
  | returned a w =>
    rw [hp] at h hrun
    cases h
    exact hrun
  | inside pc w => simp [hp, Place.returnedTo] at h
  | left routine w => simp [hp, Place.returnedTo] at h

end Section

/-! ## Calls -/

/-- The `n` bytes below an address, where a stack grows to. -/
def below (a : UInt32) (n : Nat) : Set UInt32 := span (a - .ofNat n) n

theorem disjoint_below {a : UInt32} {n k : Nat} (h : n + k ≤ 2 ^ 32) :
    Disjoint (below a n) (span a k) := by
  refine Set.disjoint_left.mpr fun x hx hx' => ?_
  rw [below, mem_span, show x - (a - .ofNat n) = x - a + .ofNat n by grind, UInt32.toNat_add,
    UInt32.toNat_ofNat', Nat.add_mod_mod] at hx
  rw [mem_span] at hx'
  rw [Nat.mod_eq_of_lt (by omega)] at hx
  omega

theorem below_sub_subset {a : UInt32} {n k : Nat} :
    below (a - .ofNat k) n ⊆ below a (k + n) := by
  rw [below, below, UInt32.ofNat_add, show a - .ofNat k - .ofNat n = a - (.ofNat k + .ofNat n) by
    grind]
  exact span_mono (Nat.le_add_left n k)

theorem span_sub_subset_below {a : UInt32} {n k : Nat} (h : k + n ≤ 2 ^ 32) :
    span (a - .ofNat k) k ⊆ below a (k + n) := by
  have hsub := span_offset_subset (a := a - .ofNat (k + n)) (Nat.add_comm n k).le h
  rwa [UInt32.ofNat_add, show a - (.ofNat k + .ofNat n) + .ofNat n = a - .ofNat k by grind,
    ← UInt32.ofNat_add] at hsub

/-- The listed core registers, `d8` to `d15` and FPSCR are the same. -/
structure Keeps (rs : List Reg) (c v : Cpu) : Prop where
  regs : ∀ r ∈ rs, v.regs r = c.regs r
  doubles : ∀ d : Fin 32, 8 ≤ d → d ≤ 15 → v.doubles d = c.doubles d
  fpscr : v.fpscr = c.fpscr

theorem Keeps.trans {rs : List Reg} {c v u : Cpu} (h : Keeps rs c v) (h' : Keeps rs v u) :
    Keeps rs c u :=
  ⟨fun r hr => (h'.regs r hr).trans (h.regs r hr),
    fun d hd hd' => (h'.doubles d hd hd').trans (h.doubles d hd hd'), h'.fpscr.trans h.fpscr⟩

def calleeSaved : List Reg := [4, 5, 6, 7, 8, 9, 10, 11, sp]

/-- What a call leaves alone under the procedure call standard, if it uses `frame` bytes of
stack. -/
structure Callee (frame : Nat) (c v : Cpu) : Prop where
  keeps : Keeps calleeSaved c v
  memory : Set.EqOn v.memory c.memory (below (c.regs sp) frame)ᶜ

/-- Registers pushed before a call can be popped after it. -/
theorem Callee.pushed {frame : Nat} {rs : List Reg} {c p v : Cpu} (h : Callee frame p v)
    (hfit : 4 * rs.length + frame ≤ 2 ^ 32) (hsp : p.regs sp = ((Op.push rs).exec c).regs sp)
    (hmemory : p.memory = ((Op.push rs).exec c).memory) :
    v.memory.loadWords (v.regs sp) rs.length = rs.map c.regs ∧
      Set.EqOn v.memory c.memory (below (c.regs sp) (4 * rs.length + frame))ᶜ := by
  have htop : p.regs sp = c.regs sp - .ofNat (4 * rs.length) := hsp.trans exec_push_sp
  have hpushed : p.memory = c.memory.storeWords (p.regs sp) (rs.map c.regs) := by
    rw [hmemory, htop]
    rfl
  constructor
  · have hframe : span (p.regs sp) (4 * rs.length) ⊆ (below (p.regs sp) frame)ᶜ :=
      Set.subset_compl_iff_disjoint_left.mpr (disjoint_below (by omega))
    rw [h.keeps.regs sp (by decide), Memory.loadWords_congr (by omega) (h.memory.mono hframe),
      hpushed]
    have hwords : 4 * (rs.map c.regs).length ≤ 2 ^ 32 := by
      rw [List.length_map]
      omega
    have hload := Memory.loadWords_storeWords hwords (m := c.memory) (a := p.regs sp)
    rwa [List.length_map] at hload
  · intro x hx
    have hframe : x ∉ below (p.regs sp) frame := fun hmem =>
      hx (below_sub_subset (by rwa [htop] at hmem))
    have hstored : x ∉ span (p.regs sp) (4 * rs.length) := fun hmem =>
      hx (span_sub_subset_below hfit (by rwa [htop] at hmem))
    rw [h.memory hframe, hpushed]
    exact Memory.storeWords_of_notMem (by rwa [List.length_map])

end Arm

end NfsmwRuntime.Library
