import NfsmwRuntime.Library.Command
import NfsmwRuntime.Library.Memory
import NfsmwRuntime.Library.Result

/-!
# ELF32 images

The records of an ELF32 file that the loader reads, the image it builds from one, and the
memory and the system calls it works with. Addresses and sizes are 32-bit words, and a
null pointer is the address 0.

A record is decoded from the bytes at its address, so the same decoder reads the input
file and the mapped image.
-/

namespace NfsmwRuntime.Loader

open Library

/-! ## Constants of the format -/

def emArm : UInt16 := 40
def etDyn : UInt16 := 3

def ptLoad : UInt32 := 1
def ptDynamic : UInt32 := 2

def pfX : UInt32 := 1
def pfW : UInt32 := 2
def pfR : UInt32 := 4

def dtNull : UInt32 := 0
def dtNeeded : UInt32 := 1
def dtPltrelsz : UInt32 := 2
def dtHash : UInt32 := 4
def dtStrtab : UInt32 := 5
def dtSymtab : UInt32 := 6
def dtRela : UInt32 := 7
def dtRelasz : UInt32 := 8
def dtRelaent : UInt32 := 9
def dtStrsz : UInt32 := 10
def dtSyment : UInt32 := 11
def dtSoname : UInt32 := 14
def dtRel : UInt32 := 17
def dtRelsz : UInt32 := 18
def dtRelent : UInt32 := 19
def dtPltrel : UInt32 := 20
def dtJmprel : UInt32 := 23
def dtRelcount : UInt32 := 0x6ffffffa

def shnUndef : UInt16 := 0
def shnAbs : UInt16 := 0xfff1

def stbGlobal : UInt32 := 1
def stbWeak : UInt32 := 2

def sttTls : UInt32 := 6
def sttGnuIfunc : UInt32 := 10

def rArmAbs32 : UInt32 := 2
def rArmGlobDat : UInt32 := 21
def rArmJumpSlot : UInt32 := 22
def rArmRelative : UInt32 := 23

/-! ## Records -/

structure Elf32Ehdr where
  ident : List UInt8
  type : UInt16
  machine : UInt16
  phoff : UInt32
  phentsize : UInt16
  phnum : UInt16

def Elf32Ehdr.size : Nat := 52

def Elf32Ehdr.ofBytes (p : List UInt8) : Elf32Ehdr where
  ident := p.take 16
  type := readU16 (p.drop 16)
  machine := readU16 (p.drop 18)
  phoff := readU32 (p.drop 28)
  phentsize := readU16 (p.drop 42)
  phnum := readU16 (p.drop 44)

structure Elf32Phdr where
  type : UInt32
  offset : UInt32
  vaddr : UInt32
  filesz : UInt32
  memsz : UInt32
  flags : UInt32

def Elf32Phdr.size : Nat := 32

def Elf32Phdr.ofBytes (p : List UInt8) : Elf32Phdr where
  type := readU32 p
  offset := readU32 (p.drop 4)
  vaddr := readU32 (p.drop 8)
  filesz := readU32 (p.drop 16)
  memsz := readU32 (p.drop 20)
  flags := readU32 (p.drop 24)

structure Elf32Dyn where
  tag : UInt32
  val : UInt32

def Elf32Dyn.size : Nat := 8

def Elf32Dyn.ofBytes (p : List UInt8) : Elf32Dyn where
  tag := readU32 p
  val := readU32 (p.drop 4)

structure Elf32Sym where
  name : UInt32
  value : UInt32
  info : UInt8
  shndx : UInt16

def Elf32Sym.size : Nat := 16

def Elf32Sym.ofBytes (p : List UInt8) : Elf32Sym where
  name := readU32 p
  value := readU32 (p.drop 4)
  info := p.getD 12 0
  shndx := readU16 (p.drop 14)

/-- `ELF32_ST_BIND` of the info byte. -/
def Elf32Sym.binding (s : Elf32Sym) : UInt32 := (s.info >>> 4).toUInt32

/-- `ELF32_ST_TYPE` of the info byte. -/
def Elf32Sym.type (s : Elf32Sym) : UInt32 := (s.info &&& 0xf).toUInt32

structure Elf32Rel where
  offset : UInt32
  info : UInt32
  deriving DecidableEq, Repr

def Elf32Rel.size : Nat := 8

def Elf32Rel.ofBytes (p : List UInt8) : Elf32Rel where
  offset := readU32 p
  info := readU32 (p.drop 4)

/-- `ELF32_R_TYPE` of the info word. -/
def Elf32Rel.type (r : Elf32Rel) : UInt32 := r.info &&& 0xff

/-- `ELF32_R_SYM` of the info word. -/
def Elf32Rel.symbol (r : Elf32Rel) : UInt32 := r.info >>> 8

/-- The value of the last entry with a tag. -/
def lastValue (tag : UInt32) (entries : List Elf32Dyn) : Option UInt32 :=
  ((entries.filter fun entry => entry.tag = tag).getLast?).map Elf32Dyn.val

/-- What a loop over the dynamic table leaves in a variable that only the entries with one tag
set. -/
theorem foldl_eq_lastValue {σ : Type} (step : σ → Elf32Dyn → σ) (field : σ → UInt32)
    (tag : UInt32) (f : UInt32 → UInt32)
    (hset : ∀ s entry, entry.tag = tag → field (step s entry) = f entry.val)
    (hkeep : ∀ s entry, entry.tag ≠ tag → field (step s entry) = field s)
    (entries : List Elf32Dyn) (s : σ) :
    field (entries.foldl step s) = ((lastValue tag entries).map f).getD (field s) := by
  induction entries generalizing s with
  | nil => rfl
  | cons entry entries ih =>
    rw [List.foldl_cons, ih]
    by_cases htag : entry.tag = tag
    · rw [hset s entry htag]
      cases hlast : (entries.filter fun entry => entry.tag = tag).getLast? <;>
        simp [lastValue, htag, List.getLast?_cons, hlast]
    · rw [hkeep s entry htag]
      simp [lastValue, htag]

/-- The `index`-th record of a table in memory. -/
def tableEntry {α : Type} (size : Nat) (ofBytes : List UInt8 → α) (m : Memory)
    (table : UInt32) (index : Nat) : α :=
  ofBytes (m.window (table + .ofNat (size * index)) size)

def programHeader : Memory → UInt32 → Nat → Elf32Phdr :=
  tableEntry Elf32Phdr.size Elf32Phdr.ofBytes
def dynamicEntry : Memory → UInt32 → Nat → Elf32Dyn :=
  tableEntry Elf32Dyn.size Elf32Dyn.ofBytes
def symbolEntry : Memory → UInt32 → Nat → Elf32Sym :=
  tableEntry Elf32Sym.size Elf32Sym.ofBytes
def relocationEntry : Memory → UInt32 → Nat → Elf32Rel :=
  tableEntry Elf32Rel.size Elf32Rel.ofBytes

theorem tableEntry_congr {α : Type} {size count : Nat} {ofBytes : List UInt8 → α}
    {m m' : Memory} {table : UInt32} (hcount : size * count ≤ 2 ^ 32)
    (h : Set.EqOn m m' (span table (size * count))) {index : Nat} (hindex : index < count) :
    tableEntry size ofBytes m table index = tableEntry size ofBytes m' table index := by
  have hfit : size * index + size ≤ size * count := by
    rw [← Nat.mul_succ]
    exact Nat.mul_le_mul_left size hindex
  rw [tableEntry, tableEntry,
    Memory.window_congr (h.mono (span_offset_subset hfit hcount))]

/-! ## Errors -/

/-- An argument of a formatted message. A string that is printed from memory is given by its
address. -/
inductive Argument
  | text (s : CString)
  | string (address : UInt32)
  | number (n : Nat)
  deriving DecidableEq, Repr

/-- What `set_error` is called with. -/
structure Message where
  format : String
  arguments : List Argument
  deriving DecidableEq, Repr

/-- A failed call leaves its last message, if it has set one. -/
abbrev Failure := Option Message

def setError (format : String) (arguments : List Argument) : Failure := some ⟨format, arguments⟩

/-! ## The image -/

structure Elf32Image where
  mapping : UInt32
  mappingSize : UInt32
  loadBias : UInt32
  virtualBase : UInt32
  pageSize : UInt32
  programHeaders : UInt32
  programHeaderCount : UInt32
  dynamic : UInt32
  dynamicCount : UInt32
  stringTable : UInt32
  stringTableSize : UInt32
  soname : UInt32
  path : Option CString
  deriving DecidableEq, Repr

/-- The image after `memset`. -/
def Elf32Image.zero : Elf32Image := ⟨0, 0, 0, 0, 0, 0, 0, 0, 0, 0, 0, 0, none⟩

def rangeInFile (offset length fileSize : Nat) : Prop :=
  offset ≤ fileSize ∧ length ≤ fileSize - offset

instance (offset length fileSize : Nat) : Decidable (rangeInFile offset length fileSize) :=
  inferInstanceAs (Decidable (_ ∧ _))

def rangeInImage (image : Elf32Image) (address length : UInt32) : Prop :=
  let start := image.mapping
  let stop := start + image.mappingSize
  stop ≥ start ∧ address ≥ start ∧ address ≤ stop ∧ length ≤ stop - address

instance (image : Elf32Image) (address length : UInt32) :
    Decidable (rangeInImage image address length) :=
  inferInstanceAs (Decidable (_ ∧ _ ∧ _ ∧ _))

/-- The `PROT_` bits for the `PF_` bits of a segment. -/
def protection (flags : UInt32) : UInt32 :=
  (if flags &&& pfR ≠ 0 then 1 else 0) ||| (if flags &&& pfW ≠ 0 then 2 else 0) |||
    (if flags &&& pfX ≠ 0 then 4 else 0)

def protReadWrite : UInt32 := 3

/-! ## System calls and memory -/

/-- What a change of page protections is for. -/
inductive Phase
  | prepare
  | writable
  | protect
  deriving DecidableEq, Repr

/-- A call that acts on the address space, with its arguments. The source of a copy is an
offset in the input file. -/
inductive Call
  | reserve (start length : UInt32)
  | mprotect (phase : Phase) (start length protection : UInt32) (succeeded : Bool)
  | memcpy (target source length : UInt32)
  | munmap (start length : UInt32)
  deriving DecidableEq, Repr

/-- What the system answers. `strerror` is the text for the failing calls on the input
file; `mprotect` answers by the number of calls before. An anonymous mapping without a
fixed address is never placed at 0, is aligned to the page size and does not wrap. -/
structure Host where
  openFile : CString → Except CString (List UInt8)
  fstat : Bool
  mapInput : Bool
  strerror : CString
  pageSize : Int32
  reserve : UInt32 → Except CString UInt32
  mprotect : Nat → Except CString Unit
  reserve_ne_zero : ∀ {size address}, reserve size = .ok address → address ≠ 0
  reserve_aligned : ∀ {size address}, reserve size = .ok address →
    pageSize.toUInt32.toNat ∣ address.toNat
  reserve_fits : ∀ {size address}, reserve size = .ok address →
    address.toNat + size.toNat ≤ 2 ^ 32

structure RelocationStats where
  relative : Nat := 0
  absolute : Nat := 0
  globalData : Nat := 0
  jumpSlots : Nat := 0
  unresolved : Nat := 0
  deriving DecidableEq, Repr

/-- What the functions of the loader write: memory, the caller's image, the counters of a
relocation, and the calls they have made. -/
structure State where
  memory : Memory
  calls : List Call
  image : Elf32Image
  stats : RelocationStats
  firstUnresolved : Option CString

abbrev LoaderM := EStateM Failure State

def State.log (s : State) (call : Call) : State := { s with calls := s.calls ++ [call] }

def mprotect (host : Host) (phase : Phase) (start length protection : UInt32)
    (failure : CString → Failure) : LoaderM Unit := fun s =>
  match host.mprotect s.calls.length with
  | .ok () => .ok () (s.log (.mprotect phase start length protection true))
  | .error errno =>
    .error (failure errno) (s.log (.mprotect phase start length protection false))

/-- From one state to the other only calls with `P` are made, and what `f` sees is kept. -/
def Keeps {β : Type} (P : Call → Prop) (f : State → β) (s t : State) : Prop :=
  (∃ made, t.calls = s.calls ++ made ∧ ∀ c ∈ made, P c) ∧ f t = f s

section Keeps

variable {β : Type} {P Q : Call → Prop} {f : State → β} {s t : State}

instance : IsPreorder State (Keeps P f) where
  refl s := ⟨⟨[], by simp, by simp⟩, rfl⟩
  trans := by
    rintro s t u ⟨⟨made, hmade, hP⟩, hst⟩ ⟨⟨made', hmade', hP'⟩, htu⟩
    refine ⟨⟨made ++ made', by rw [hmade', hmade, List.append_assoc], fun c hc => ?_⟩,
      htu.trans hst⟩
    rcases List.mem_append.mp hc with hc | hc
    · exact hP c hc
    · exact hP' c hc

theorem Keeps.mono {γ : Type} {g : State → γ} (h : Keeps P f s t) (hP : ∀ c, P c → Q c)
    (hg : f t = f s → g t = g s) : Keeps Q g s t := by
  obtain ⟨⟨made, hmade, hall⟩, hf⟩ := h
  exact ⟨⟨made, hmade, fun c hc => hP c (hall c hc)⟩, hg hf⟩

/-- All that a change of page protections leaves alone. -/
def State.contents (s : State) : Memory × Elf32Image × RelocationStats × Option CString :=
  (s.memory, s.image, s.stats, s.firstUnresolved)

theorem mprotect_keeps (host : Host) {phase : Phase} {start length bits : UInt32}
    (failure : CString → Failure) (h : ∀ ok, P (.mprotect phase start length bits ok)) :
    Command.Leaves (Keeps P State.contents) (mprotect host phase start length bits failure) := by
  intro s
  simp only [mprotect, EStateM.run]
  split
  · exact ⟨⟨_, rfl, by simpa using h true⟩, rfl⟩
  · exact ⟨⟨_, rfl, by simpa using h false⟩, rfl⟩

end Keeps

end NfsmwRuntime.Loader
