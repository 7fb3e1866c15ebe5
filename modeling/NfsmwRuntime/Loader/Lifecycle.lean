import NfsmwRuntime.Loader.Map

/-!
# Initializers and finalizers

After relocation the loader calls the initializers of a module and, at exit, its
finalizers. Both are a function named by the dynamic table and an array of functions; the
function comes before its array in one case and after it, the array being taken
backwards, in the other.

An invoked function may do anything to memory. While it leaves the tables alone, a run is
determined by the addresses that the tables hold: it invokes them in order, without those
that are left out, up to the first that is outside the image.
-/

namespace NfsmwRuntime.Loader

open Library

/-- The dynamic entries that describe the functions of a phase, and what is printed. -/
structure LifecycleTable where
  functionTag : UInt32
  arrayTag : UInt32
  sizeTag : UInt32
  phase : String
  functionKind : String
  arrayKind : String
  invalidArray : String

def initTable : LifecycleTable where
  functionTag := 12
  arrayTag := 25
  sizeTag := 27
  phase := "CTOR"
  functionKind := "DT_INIT"
  arrayKind := "DT_INIT_ARRAY"
  invalidArray := "invalid DT_INIT_ARRAY in %s"

def finiTable : LifecycleTable where
  functionTag := 13
  arrayTag := 26
  sizeTag := 28
  phase := "DTOR"
  functionKind := "DT_FINI"
  arrayKind := "DT_FINI_ARRAY"
  invalidArray := "invalid DT_FINI_ARRAY in %s"

/-- The program while its functions are invoked: memory, the caller's `*called`, and the
addresses invoked so far. -/
structure Process where
  memory : Memory
  called : UInt32
  invoked : List UInt32

/-- What a function does to memory when it is invoked after those of a list. -/
abbrev Effect := List UInt32 → UInt32 → Memory → Memory

abbrev LifecycleM := EStateM Failure Process

/-- `in_image` is the range check of the loader. -/
def inImage (image : Elf32Image) (address length : UInt32) : Prop :=
  rangeInImage image address length

instance (image : Elf32Image) (address length : UInt32) :
    Decidable (inImage image address length) :=
  inferInstanceAs (Decidable (rangeInImage image address length))

/-- The address without its Thumb bit is in the image. -/
def functionInside (image : Elf32Image) (address : UInt32) : Bool :=
  inImage image (address &&& ~~~1) 1

section

variable (effect : Effect) (image : Elf32Image)

/-- Invoke a function and count it. -/
def Process.invoke (address : UInt32) (s : Process) : Process where
  memory := effect s.invoked address s.memory
  called := s.called + 1
  invoked := s.invoked ++ [address]

/-- The message about a function that is outside the image. -/
def outsideMessage (address : UInt32) (phase kind : String) (index : Nat) : Failure :=
  setError "%s %s %s[%zu] is outside its image: 0x%08lx" [.string image.soname,
    .text (cstr phase), .text (cstr kind), .number index, .number address.toNat]

def callLifecycleFunction (address : UInt32) (phase kind : String) (index : Nat) :
    LifecycleM Unit :=
  if address = 0 ∨ address = 0xffffffff then pure ()
  else do
    Command.lift (check (functionInside image address)
      (outsideMessage image address phase kind index))
    modify (Process.invoke effect address)

/-- The variables of the loop over the dynamic table. -/
structure LifecycleScan where
  legacy : UInt32 := 0
  arrayAddress : UInt32 := 0
  arraySize : UInt32 := 0

def LifecycleScan.step (table : LifecycleTable) (loadBias : UInt32) (scan : LifecycleScan)
    (entry : Elf32Dyn) : LifecycleScan :=
  if entry.tag = table.functionTag then { scan with legacy := loadBias + entry.val }
  else if entry.tag = table.arrayTag then { scan with arrayAddress := loadBias + entry.val }
  else if entry.tag = table.sizeTag then { scan with arraySize := entry.val }
  else scan

def scanLifecycle (table : LifecycleTable) (m : Memory) : LifecycleScan :=
  (dynamicEntries m image).foldl (LifecycleScan.step table image.loadBias) {}

/-- The array can be read. -/
def LifecycleScan.Valid (scan : LifecycleScan) : Prop :=
  scan.arrayAddress ≠ 0 ∧ scan.arraySize % 4 = 0 ∧
    inImage image scan.arrayAddress scan.arraySize

instance (scan : LifecycleScan) : Decidable (scan.Valid image) :=
  inferInstanceAs (Decidable (_ ∧ _ ∧ _))

def LifecycleScan.count (scan : LifecycleScan) : Nat := scan.arraySize.toNat / 4

/-- An entry of the array, as `memcpy` reads it. -/
def LifecycleScan.entry (scan : LifecycleScan) (m : Memory) (index : Nat) : UInt32 :=
  m.load32 (scan.arrayAddress + .ofNat (4 * index))

def callLegacy (table : LifecycleTable) (scan : LifecycleScan) : LifecycleM Unit :=
  if scan.legacy ≠ 0 then
    callLifecycleFunction effect image scan.legacy table.phase table.functionKind 0
  else pure ()

/-- The turn of an index in either loop over the array. -/
def callEntry (table : LifecycleTable) (scan : LifecycleScan) (index : Nat) :
    LifecycleM Unit := do
  let s ← get
  callLifecycleFunction effect image (scan.entry s.memory index) table.phase table.arrayKind index

/-- Run a loop over the array, if there is one. -/
def withArray (table : LifecycleTable) (scan : LifecycleScan) (loop : LifecycleM Unit) :
    LifecycleM Unit :=
  if scan.arraySize = 0 then pure ()
  else do
    Command.lift (check (scan.Valid image) (setError table.invalidArray [.string image.soname]))
    loop

def callAscending (scan : LifecycleScan) : LifecycleM Unit :=
  forM (List.range scan.count) (callEntry effect image initTable scan)

/-- `while (count != 0)` of the finalizers. -/
def callDescending (scan : LifecycleScan) : Nat → LifecycleM Unit
  | 0 => pure ()
  | count + 1 => do
    callEntry effect image finiTable scan count
    callDescending scan count

def nfsmwRunInitializers : LifecycleM Unit := do
  Command.lift (check (image.mapping ≠ 0) (setError "invalid initializer arguments" []))
  let s ← get
  let scan := scanLifecycle image initTable s.memory
  callLegacy effect image initTable scan
  withArray image initTable scan (callAscending effect image scan)

def nfsmwRunFinalizers : LifecycleM Unit := do
  Command.lift (check (image.mapping ≠ 0) (setError "invalid finalizer arguments" []))
  let s ← get
  let scan := scanLifecycle image finiTable s.memory
  withArray image finiTable scan (callDescending effect image scan scan.count)
  callLegacy effect image finiTable scan

end

/-! ## What is to be invoked -/

/-- The biased address in the last entry with a tag, 0 without one. -/
def namedAddress (tag : UInt32) (image : Elf32Image) (m : Memory) : UInt32 :=
  ((lastValue tag (dynamicEntries m image)).map (image.loadBias + ·)).getD 0

/-- The size in the last entry with a tag, 0 without one. -/
def namedSize (tag : UInt32) (image : Elf32Image) (m : Memory) : UInt32 :=
  (lastValue tag (dynamicEntries m image)).getD 0

/-- The words of the array at the address in the one tag, of the size in the other. -/
def namedArray (addressTag sizeTag : UInt32) (image : Elf32Image) (m : Memory) : List UInt32 :=
  (List.range ((namedSize sizeTag image m).toNat / 4)).map fun index =>
    m.load32 (namedAddress addressTag image m + .ofNat (4 * index))

/-- `DT_INIT`, and then the entries of `DT_INIT_ARRAY`, whose size is in `DT_INIT_ARRAYSZ`. -/
def initializers (image : Elf32Image) (m : Memory) : List UInt32 :=
  namedAddress 12 image m :: namedArray 25 27 image m

/-- `DT_FINI`, and then the entries of `DT_FINI_ARRAY`, whose size is in `DT_FINI_ARRAYSZ`. -/
def finalizers (image : Elf32Image) (m : Memory) : List UInt32 :=
  namedAddress 13 image m :: namedArray 26 28 image m

/-- The addresses of the array that the two tags describe. -/
def arraySpan (addressTag sizeTag : UInt32) (image : Elf32Image) (m : Memory) : Set UInt32 :=
  span (namedAddress addressTag image m) (namedSize sizeTag image m).toNat

/-- The dynamic table and both arrays. -/
def lifecycleTables (image : Elf32Image) (m : Memory) : Set UInt32 :=
  span image.dynamic (Elf32Dyn.size * image.dynamicCount.toNat) ∪
    (arraySpan 25 27 image m ∪ arraySpan 26 28 image m)

/-- The image is mapped, and the array is empty, or of whole words and inside the image. -/
def ArrayReadable (addressTag sizeTag : UInt32) (image : Elf32Image) (m : Memory) : Prop :=
  image.mapping ≠ 0 ∧ (namedSize sizeTag image m ≠ 0 →
    namedAddress addressTag image m ≠ 0 ∧ namedSize sizeTag image m % 4 = 0 ∧
      image.mapping ≤ namedAddress addressTag image m ∧
      (namedAddress addressTag image m).toNat + (namedSize sizeTag image m).toNat ≤
        (image.mapping + image.mappingSize).toNat)

instance (addressTag sizeTag : UInt32) (image : Elf32Image) (m : Memory) :
    Decidable (ArrayReadable addressTag sizeTag image m) :=
  inferInstanceAs (Decidable (_ ∧ (_ → _)))

/-- The address without its Thumb bit is one of the image. -/
def Inside (image : Elf32Image) (address : UInt32) : Prop :=
  image.mapping ≤ address &&& 0xfffffffe ∧
    address &&& 0xfffffffe < image.mapping + image.mappingSize

instance (image : Elf32Image) (address : UInt32) : Decidable (Inside image address) :=
  inferInstanceAs (Decidable (_ ∧ _))

/-- 0 and `0xffffffff` stand for no function. -/
def wanted (address : UInt32) : Bool := address != 0 && address != 0xffffffff

/-- From `s` a run over the addresses has invoked the functions, each of them inside the image,
and has counted them. It has left out what stands for no function, and has stopped in front of
the first address outside the image, if there is one. -/
structure RunOver (image : Elf32Image) (addresses functions : List UInt32) (s : Process)
    (r : EStateM.Result Failure Process Unit) : Prop where
  invoked : (Command.final r).invoked = s.invoked ++ functions
  called : (Command.final r).called = s.called + .ofNat functions.length
  inside : ∀ address ∈ functions, Inside image address
  stopped : ∃ left, addresses.filter wanted = functions ++ left ∧
    ∀ address ∈ left.head?, ¬ Inside image address

/-! ## What is invoked -/

/-- Those of the addresses that a run over them invokes. -/
def invocations (image : Elf32Image) (addresses : List UInt32) : List UInt32 :=
  (addresses.filter wanted).takeWhile (functionInside image)

/-- Nothing ends a run over the addresses. -/
def completes (image : Elf32Image) (addresses : List UInt32) : Bool :=
  (addresses.filter wanted).all (functionInside image)

/-- Nothing is taken from behind an element without `p`. -/
theorem takeWhile_append_of_not_all {α : Type} {p : α → Bool} {l : List α} (h : l.all p = false)
    (k : List α) : (l ++ k).takeWhile p = l.takeWhile p := by
  induction l with
  | nil => simp at h
  | cons a l ih =>
    cases hp : p a with
    | false => simp [hp]
    | true => simpa [hp] using ih (by simpa [hp] using h)

theorem invocations_of_completes {image : Elf32Image} {addresses : List UInt32}
    (h : completes image addresses = true) :
    invocations image addresses = addresses.filter wanted :=
  List.takeWhile_eq_self_iff.mpr (List.all_eq_true.mp h)

theorem invocations_append_of_completes {image : Elf32Image} {as : List UInt32}
    (h : completes image as = true) (bs : List UInt32) :
    invocations image (as ++ bs) = invocations image as ++ invocations image bs := by
  rw [invocations_of_completes h, invocations, List.filter_append,
    List.takeWhile_append_of_pos (List.all_eq_true.mp h), invocations]

theorem invocations_append_of_fails {image : Elf32Image} {as : List UInt32}
    (h : completes image as = false) (bs : List UInt32) :
    invocations image (as ++ bs) = invocations image as := by
  rw [invocations, List.filter_append, takeWhile_append_of_not_all h, invocations]

theorem completes_append (image : Elf32Image) (as bs : List UInt32) :
    completes image (as ++ bs) = (completes image as && completes image bs) := by
  simp [completes]

/-- The range check in terms of the range. -/
theorem inImage_iff {image : Elf32Image} {address length : UInt32} :
    inImage image address length ↔ image.mapping ≤ address ∧
      address.toNat + length.toNat ≤ (image.mapping + image.mappingSize).toNat := by
  constructor
  · rintro ⟨-, hstart, hstop, hlength⟩
    have hle := UInt32.le_iff_toNat_le.mp hstop
    have hroom := UInt32.le_iff_toNat_le.mp hlength
    rw [UInt32.toNat_sub_of_le _ _ hstop] at hroom
    exact ⟨hstart, by omega⟩
  · rintro ⟨hstart, hroom⟩
    have hstop : address ≤ image.mapping + image.mappingSize :=
      UInt32.le_iff_toNat_le.mpr (by omega)
    refine ⟨UInt32.le_trans hstart hstop, hstart, hstop, UInt32.le_iff_toNat_le.mpr ?_⟩
    rw [UInt32.toNat_sub_of_le _ _ hstop]
    omega

theorem functionInside_iff {image : Elf32Image} {address : UInt32} :
    functionInside image address = true ↔ Inside image address := by
  have hrange : inImage image (address &&& 0xfffffffe) 1 ↔ Inside image address := by
    rw [inImage_iff, Inside, UInt32.lt_iff_toNat_lt]
    rfl
  rw [functionInside, decide_eq_true_iff, ← hrange]
  rfl

/-- From `s` a command has invoked what a run over the addresses invokes, and has counted
it. -/
structure Outcome (image : Elf32Image) (addresses : List UInt32) (s : Process)
    (r : EStateM.Result Failure Process Unit) : Prop where
  invoked : (Command.final r).invoked = s.invoked ++ invocations image addresses
  called : (Command.final r).called = s.called + .ofNat (invocations image addresses).length
  succeeded : Command.succeeded r = completes image addresses

/-- While memory is as in `m` on the tables, the command runs over the addresses, and
leaves the tables alone. -/
def RunsOver (image : Elf32Image) (tables : Set UInt32) (m : Memory) (x : LifecycleM Unit)
    (addresses : List UInt32) : Prop :=
  ∀ s, Set.EqOn m s.memory tables →
    Set.EqOn m (Command.final (x.run s)).memory tables ∧ Outcome image addresses s (x.run s)

section

variable {effect : Effect} {image : Elf32Image} {tables : Set UInt32} {m : Memory}

theorem runsOver_pure : RunsOver image tables m (pure ()) [] :=
  fun s hs => ⟨hs, by simp [invocations], by simp [invocations], rfl⟩

theorem run_bind_error {x y : LifecycleM Unit} {e : Failure} {s t : Process}
    (hx : x.run s = .error e t) : (do x; y : LifecycleM Unit).run s = .error e t := by
  rw [EStateM.run_bind, hx]

theorem run_bind_ok {x y : LifecycleM Unit} {s t : Process} (hx : x.run s = .ok () t) :
    (do x; y : LifecycleM Unit).run s = y.run t := by
  rw [EStateM.run_bind, hx]

/-- One command after the other, unless the first fails. -/
theorem RunsOver.seq {x y : LifecycleM Unit} {as bs : List UInt32}
    (hx : RunsOver image tables m x as) (hy : RunsOver image tables m y bs) :
    RunsOver image tables m (do x; y) (as ++ bs) := by
  intro s hs
  obtain ⟨htables, hinvoked, hcalled, hsucceeded⟩ := hx s hs
  cases hrun : x.run s with
  | ok u t =>
    rw [run_bind_ok hrun]
    rw [hrun] at htables hinvoked hcalled hsucceeded
    have hcompletes : completes image as = true := hsucceeded.symm
    obtain ⟨htables', hinvoked', hcalled', hsucceeded'⟩ := hy t htables
    refine ⟨htables', ?_, ?_, ?_⟩
    · rw [hinvoked', invocations_append_of_completes hcompletes, ← List.append_assoc]
      exact congrArg (· ++ _) hinvoked
    · rw [hcalled', invocations_append_of_completes hcompletes, List.length_append,
        UInt32.ofNat_add, ← UInt32.add_assoc]
      exact congrArg (· + _) hcalled
    · rw [hsucceeded', completes_append, hcompletes, Bool.true_and]
  | error e t =>
    rw [run_bind_error hrun]
    rw [hrun] at htables hinvoked hcalled hsucceeded
    have hfails : completes image as = false := hsucceeded.symm
    refine ⟨htables, ?_, ?_, ?_⟩
    · rw [invocations_append_of_fails hfails]
      exact hinvoked
    · rw [invocations_append_of_fails hfails]
      exact hcalled
    · rw [completes_append, hfails]
      rfl

theorem RunsOver.forM {ι : Type} {body : ι → LifecycleM Unit} {address : ι → UInt32} {l : List ι}
    (h : ∀ i ∈ l, RunsOver image tables m (body i) [address i]) :
    RunsOver image tables m (forM l body) (l.map address) := by
  induction l with
  | nil => exact runsOver_pure
  | cons i l ih =>
    have hrest := ih fun j hj => h j (List.mem_cons_of_mem i hj)
    exact (h i List.mem_cons_self).seq hrest

/-- Whatever has been invoked, a function leaves the tables as they are in `m`. -/
def KeepsTables (effect : Effect) (tables : Set UInt32) (m : Memory) : Prop :=
  ∀ history address m', Set.EqOn m m' tables → Set.EqOn m (effect history address m') tables

theorem run_call_inside {address : UInt32} (hskip : ¬ (address = 0 ∨ address = 0xffffffff))
    (hinside : functionInside image address = true) {phase kind : String} {index : Nat}
    {s : Process} :
    (callLifecycleFunction effect image address phase kind index).run s =
      .ok () (s.invoke effect address) := by
  rw [callLifecycleFunction, if_neg hskip, check_of hinside]
  rfl

theorem run_call_outside {address : UInt32} (hskip : ¬ (address = 0 ∨ address = 0xffffffff))
    (hinside : functionInside image address = false) {phase kind : String} {index : Nat}
    {s : Process} :
    (callLifecycleFunction effect image address phase kind index).run s =
      .error (outsideMessage image address phase kind index) s := by
  rw [callLifecycleFunction, if_neg hskip, check, if_neg (by simp [hinside])]
  rfl

theorem runsOver_call (hkeeps : KeepsTables effect tables m) (address : UInt32)
    (phase kind : String) (index : Nat) :
    RunsOver image tables m (callLifecycleFunction effect image address phase kind index)
      [address] := by
  intro s hs
  by_cases hskip : address = 0 ∨ address = 0xffffffff
  · have hwanted : wanted address = false := by
      rcases hskip with rfl | rfl <;> rfl
    rw [callLifecycleFunction, if_pos hskip]
    exact ⟨hs, by simp [invocations, hwanted], by simp [invocations, hwanted],
      by simp [completes, hwanted, Command.succeeded]⟩
  · have hwanted : wanted address = true := by simpa [wanted] using hskip
    cases hinside : functionInside image address with
    | true =>
      rw [run_call_inside hskip hinside]
      refine ⟨hkeeps _ _ _ hs, ?_, ?_, ?_⟩
      · simp [invocations, hwanted, hinside, Process.invoke]
      · simp [invocations, hwanted, hinside, Process.invoke]
      · simp [completes, hwanted, hinside, Command.succeeded]
    | false =>
      rw [run_call_outside hskip hinside]
      refine ⟨hs, ?_, ?_, ?_⟩
      · simp [invocations, hwanted, hinside, Command.final]
      · simp [invocations, hwanted, hinside, Command.final]
      · simp [completes, hwanted, hinside, Command.succeeded]

theorem runsOver_callLegacy (hkeeps : KeepsTables effect tables m) (table : LifecycleTable)
    (scan : LifecycleScan) :
    RunsOver image tables m (callLegacy effect image table scan) [scan.legacy] := by
  by_cases hlegacy : scan.legacy = 0
  · have hnone : callLegacy effect image table scan =
        callLifecycleFunction effect image scan.legacy table.phase table.functionKind 0 := by
      rw [callLegacy, if_neg (not_not.mpr hlegacy), callLifecycleFunction, if_pos (.inl hlegacy)]
    exact hnone ▸ runsOver_call hkeeps _ _ _ _
  · rw [callLegacy, if_pos hlegacy]
    exact runsOver_call hkeeps _ _ _ _

/-- The addresses that the array holds. -/
def LifecycleScan.entries (scan : LifecycleScan) (m : Memory) : List UInt32 :=
  (List.range scan.count).map (scan.entry m)

theorem runsOver_callEntry (hkeeps : KeepsTables effect tables m) (table : LifecycleTable)
    {scan : LifecycleScan}
    (harray : span scan.arrayAddress scan.arraySize.toNat ⊆ tables) {index : Nat}
    (hindex : index < scan.count) :
    RunsOver image tables m (callEntry effect image table scan index) [scan.entry m index] := by
  intro s hs
  have hword : span (scan.arrayAddress + .ofNat (4 * index)) 4 ⊆ tables := by
    refine Set.Subset.trans (span_offset_subset ?_ scan.arraySize.toNat_lt.le) harray
    rw [LifecycleScan.count] at hindex
    omega
  have hentry : scan.entry s.memory index = scan.entry m index :=
    (Memory.load32_congr (hs.mono hword)).symm
  have hcall : (callEntry effect image table scan index).run s =
      (callLifecycleFunction effect image (scan.entry m index) table.phase table.arrayKind
        index).run s := by
    rw [callEntry, Command.run_get_bind, hentry]
  rw [hcall]
  exact runsOver_call hkeeps _ _ _ _ s hs

theorem runsOver_callAscending (hkeeps : KeepsTables effect tables m) {scan : LifecycleScan}
    (harray : span scan.arrayAddress scan.arraySize.toNat ⊆ tables) :
    RunsOver image tables m (callAscending effect image scan) (scan.entries m) :=
  .forM fun _ hi => runsOver_callEntry hkeeps initTable harray (List.mem_range.mp hi)

/-- The turns left take the entries below in reverse. -/
theorem runsOver_callDescending (hkeeps : KeepsTables effect tables m) {scan : LifecycleScan}
    (harray : span scan.arrayAddress scan.arraySize.toNat ⊆ tables) {count : Nat}
    (hcount : count ≤ scan.count) :
    RunsOver image tables m (callDescending effect image scan count)
      ((List.range count).map (scan.entry m)).reverse := by
  induction count with
  | zero => exact runsOver_pure
  | succ count ih =>
    rw [List.range_succ, List.map_append, List.reverse_append]
    exact (runsOver_callEntry hkeeps finiTable harray hcount).seq (ih (by omega))

/-- A loop over an array that can be read, or over none. -/
theorem RunsOver.withArray (table : LifecycleTable) {scan : LifecycleScan} {loop : LifecycleM Unit}
    {addresses : List UInt32} (h : RunsOver image tables m loop addresses)
    (hvalid : scan.arraySize ≠ 0 → scan.Valid image) (hnone : scan.arraySize = 0 → addresses = []) :
    RunsOver image tables m (withArray image table scan loop) addresses := by
  by_cases hsize : scan.arraySize = 0
  · rw [Loader.withArray, if_pos hsize, hnone hsize]
    exact runsOver_pure
  · rw [Loader.withArray, if_neg hsize, check_of (hvalid hsize)]
    exact h

theorem LifecycleScan.entries_eq_nil {scan : LifecycleScan} (h : scan.arraySize = 0) :
    scan.entries m = [] := by
  simp [LifecycleScan.entries, LifecycleScan.count, h]

end

/-! ## Both phases -/

def LifecycleScan.array (scan : LifecycleScan) : Set UInt32 :=
  span scan.arrayAddress scan.arraySize.toNat

/-- The scan in terms of the last entries of the dynamic table. -/
def namedScan (functionTag arrayTag sizeTag : UInt32) (image : Elf32Image) (m : Memory) :
    LifecycleScan where
  legacy := namedAddress functionTag image m
  arrayAddress := namedAddress arrayTag image m
  arraySize := namedSize sizeTag image m

/-- A phase has one tag for each variable of its scan. -/
theorem scanLifecycle_eq {table : LifecycleTable} (harray : table.arrayTag ≠ table.functionTag)
    (hsize : table.sizeTag ≠ table.functionTag) (hother : table.sizeTag ≠ table.arrayTag)
    (image : Elf32Image) (m : Memory) :
    scanLifecycle image table m =
      namedScan table.functionTag table.arrayTag table.sizeTag image m := by
  have hlegacy := foldl_eq_lastValue (LifecycleScan.step table image.loadBias)
    LifecycleScan.legacy table.functionTag (image.loadBias + ·)
    (by grind [LifecycleScan.step]) (by grind [LifecycleScan.step]) (dynamicEntries m image) {}
  have haddress := foldl_eq_lastValue (LifecycleScan.step table image.loadBias)
    LifecycleScan.arrayAddress table.arrayTag (image.loadBias + ·)
    (by grind [LifecycleScan.step]) (by grind [LifecycleScan.step]) (dynamicEntries m image) {}
  have hbytes := foldl_eq_lastValue (LifecycleScan.step table image.loadBias)
    LifecycleScan.arraySize table.sizeTag id
    (by grind [LifecycleScan.step]) (by grind [LifecycleScan.step]) (dynamicEntries m image) {}
  rw [Option.map_id_fun, id_eq] at hbytes
  unfold scanLifecycle namedScan namedAddress namedSize
  rw [← hlegacy, ← haddress, ← hbytes]

section

variable {effect : Effect} {image : Elf32Image} {s : Process}

theorem arrayReadable_iff (functionTag : UInt32) {arrayTag sizeTag : UInt32} {m : Memory} :
    ArrayReadable arrayTag sizeTag image m ↔ image.mapping ≠ 0 ∧
      ((namedScan functionTag arrayTag sizeTag image m).arraySize ≠ 0 →
        (namedScan functionTag arrayTag sizeTag image m).Valid image) := by
  simp only [ArrayReadable, LifecycleScan.Valid, inImage_iff]
  rfl

theorem run_initializers (hmapping : image.mapping ≠ 0) :
    (nfsmwRunInitializers effect image).run s =
      (do callLegacy effect image initTable (namedScan 12 25 27 image s.memory)
          withArray image initTable (namedScan 12 25 27 image s.memory)
            (callAscending effect image (namedScan 12 25 27 image s.memory))).run s := by
  rw [nfsmwRunInitializers, check_of hmapping, Command.run_lift_ok_bind, Command.run_get_bind,
    scanLifecycle_eq (by decide) (by decide) (by decide)]
  rfl

theorem run_finalizers (hmapping : image.mapping ≠ 0) :
    (nfsmwRunFinalizers effect image).run s =
      (do withArray image finiTable (namedScan 13 26 28 image s.memory)
            (callDescending effect image (namedScan 13 26 28 image s.memory)
              (namedScan 13 26 28 image s.memory).count)
          callLegacy effect image finiTable (namedScan 13 26 28 image s.memory)).run s := by
  rw [nfsmwRunFinalizers, check_of hmapping, Command.run_lift_ok_bind, Command.run_get_bind,
    scanLifecycle_eq (by decide) (by decide) (by decide)]
  rfl

theorem initializers_outcome (hkeeps : KeepsTables effect (lifecycleTables image s.memory) s.memory)
    (hreadable : ArrayReadable 25 27 image s.memory) :
    Outcome image (initializers image s.memory) s ((nfsmwRunInitializers effect image).run s) := by
  obtain ⟨hmapping, hscan⟩ := arrayReadable_iff 12 |>.mp hreadable
  have harray : (namedScan 12 25 27 image s.memory).array ⊆ lifecycleTables image s.memory :=
    fun _ hx => .inr (.inl hx)
  have haddresses : initializers image s.memory = [(namedScan 12 25 27 image s.memory).legacy] ++
      (namedScan 12 25 27 image s.memory).entries s.memory := rfl
  rw [run_initializers hmapping, haddresses]
  have hloop := RunsOver.withArray initTable (runsOver_callAscending hkeeps harray) hscan
    LifecycleScan.entries_eq_nil
  exact ((runsOver_callLegacy hkeeps initTable _).seq hloop s fun _ _ => rfl).2

theorem finalizers_outcome (hkeeps : KeepsTables effect (lifecycleTables image s.memory) s.memory)
    (hreadable : ArrayReadable 26 28 image s.memory) :
    Outcome image (finalizers image s.memory).reverse s
      ((nfsmwRunFinalizers effect image).run s) := by
  obtain ⟨hmapping, hscan⟩ := arrayReadable_iff 13 |>.mp hreadable
  have harray : (namedScan 13 26 28 image s.memory).array ⊆ lifecycleTables image s.memory :=
    fun _ hx => .inr (.inr hx)
  have horder : (finalizers image s.memory).reverse =
      ((namedScan 13 26 28 image s.memory).entries s.memory).reverse ++
        [(namedScan 13 26 28 image s.memory).legacy] := List.reverse_cons
  rw [run_finalizers hmapping, horder]
  have hloop := RunsOver.withArray finiTable (runsOver_callDescending hkeeps harray le_rfl) hscan
    fun hsize => by simp [LifecycleScan.count, hsize]
  exact (hloop.seq (runsOver_callLegacy hkeeps finiTable _) s fun _ _ => rfl).2

/-- What a run over addresses has invoked, in terms of the addresses alone. -/
theorem RunOver.of_invocations {addresses : List UInt32}
    {r : EStateM.Result Failure Process Unit}
    (hinvoked : (Command.final r).invoked = s.invoked ++ invocations image addresses)
    (hcalled : (Command.final r).called =
      s.called + .ofNat (invocations image addresses).length) :
    RunOver image addresses (invocations image addresses) s r where
  invoked := hinvoked
  called := hcalled
  inside _ h := functionInside_iff.mp (List.all_eq_true.mp List.all_takeWhile _ h)
  stopped := by
    refine ⟨(addresses.filter wanted).dropWhile (functionInside image),
      List.takeWhile_append_dropWhile.symm, fun address haddress => ?_⟩
    have hfirst := List.head?_dropWhile_not (functionInside image) (addresses.filter wanted)
    rw [Option.mem_def.mp haddress] at hfirst
    rw [← functionInside_iff, Bool.not_eq_true]
    exact hfirst

theorem Outcome.runOver {addresses : List UInt32} {r : EStateM.Result Failure Process Unit}
    (h : Outcome image addresses s r) :
    RunOver image addresses (invocations image addresses) s r ∧
      (Command.succeeded r = true ↔ invocations image addresses = addresses.filter wanted) := by
  refine ⟨.of_invocations h.invoked h.called, ?_⟩
  rw [h.succeeded, invocations, List.takeWhile_eq_self_iff, completes, List.all_eq_true]

/-- A loop over an array that cannot be read does not begin. -/
theorem run_withArray_invalid {table : LifecycleTable} {scan : LifecycleScan}
    (hsize : scan.arraySize ≠ 0) (hvalid : ¬ scan.Valid image) (loop : LifecycleM Unit) :
    (withArray image table scan loop).run s =
      .error (setError table.invalidArray [.string image.soname]) s := by
  rw [withArray, if_neg hsize, check, if_neg hvalid]
  rfl

theorem runOver_nil {e : Failure} : RunOver image [] [] s (.error e s) :=
  .of_invocations (by simp [invocations, Command.final]) (by simp [invocations, Command.final])

variable (effect) in
/-- The function comes before the array, so it is invoked before the array is refused. -/
theorem initializers_refused (h : ¬ ArrayReadable 25 27 image s.memory) :
    Command.succeeded ((nfsmwRunInitializers effect image).run s) = false ∧
      ∃ functions, RunOver image
        (if image.mapping = 0 then [] else [namedAddress 12 image s.memory]) functions s
        ((nfsmwRunInitializers effect image).run s) := by
  by_cases hmapping : image.mapping = 0
  · rw [if_pos hmapping, nfsmwRunInitializers, check, if_neg (not_not.mpr hmapping)]
    exact ⟨rfl, [], runOver_nil⟩
  · rw [arrayReadable_iff 12, and_iff_right hmapping, Classical.not_imp] at h
    obtain ⟨hsize, hvalid⟩ := h
    rw [if_neg hmapping, run_initializers hmapping]
    have hkeeps : KeepsTables effect ∅ s.memory := fun _ _ _ _ _ hx => hx.elim
    have hlegacy : Outcome image [(namedScan 12 25 27 image s.memory).legacy] s
        ((callLegacy effect image initTable (namedScan 12 25 27 image s.memory)).run s) :=
      (runsOver_callLegacy hkeeps initTable _ s fun _ _ => rfl).2
    cases hrun : (callLegacy effect image initTable
        (namedScan 12 25 27 image s.memory)).run s with
    | ok u t =>
      rw [hrun] at hlegacy
      rw [run_bind_ok hrun, run_withArray_invalid hsize hvalid]
      exact ⟨rfl, _, .of_invocations hlegacy.invoked hlegacy.called⟩
    | error e t =>
      rw [hrun] at hlegacy
      rw [run_bind_error hrun]
      exact ⟨rfl, _, .of_invocations hlegacy.invoked hlegacy.called⟩

variable (effect) in
theorem finalizers_refused (h : ¬ ArrayReadable 26 28 image s.memory) :
    Command.succeeded ((nfsmwRunFinalizers effect image).run s) = false ∧
      RunOver image [] [] s ((nfsmwRunFinalizers effect image).run s) := by
  by_cases hmapping : image.mapping = 0
  · rw [nfsmwRunFinalizers, check, if_neg (not_not.mpr hmapping)]
    exact ⟨rfl, runOver_nil⟩
  · rw [arrayReadable_iff 13, and_iff_right hmapping, Classical.not_imp] at h
    obtain ⟨hsize, hvalid⟩ := h
    rw [run_finalizers hmapping, run_bind_error (run_withArray_invalid hsize hvalid _)]
    exact ⟨rfl, runOver_nil⟩

end

/-- The initializers are `DT_INIT` and the entries of `DT_INIT_ARRAY` in order, the finalizers the
entries of `DT_FINI_ARRAY` backwards and then `DT_FINI`. Each phase invokes them without those
that stand for no function, up to the first outside the image, and succeeds exactly if none is
outside. An array that cannot be read fails the phase, behind `DT_INIT` in the one and in front
of `DT_FINI` in the other. So the finalizers of a table are the exact reverse of the initializers
of an equal one. -/
theorem finalizers_mirror_initializers (effect : Effect) (image : Elf32Image) (s t : Process)
    (hinit : KeepsTables effect (lifecycleTables image s.memory) s.memory)
    (hfini : KeepsTables effect (lifecycleTables image t.memory) t.memory) :
    let initialized := (nfsmwRunInitializers effect image).run s
    let finalized := (nfsmwRunFinalizers effect image).run t
    (ArrayReadable 25 27 image s.memory → ∃ functions,
      RunOver image (initializers image s.memory) functions s initialized ∧
      (Command.succeeded initialized = true ↔
        functions = (initializers image s.memory).filter wanted)) ∧
    (ArrayReadable 26 28 image t.memory → ∃ functions,
      RunOver image (finalizers image t.memory).reverse functions t finalized ∧
      (Command.succeeded finalized = true ↔
        functions = (finalizers image t.memory).reverse.filter wanted)) ∧
    (¬ ArrayReadable 25 27 image s.memory → Command.succeeded initialized = false ∧
      ∃ functions, RunOver image
        (if image.mapping = 0 then [] else [namedAddress 12 image s.memory]) functions s
        initialized) ∧
    (¬ ArrayReadable 26 28 image t.memory → Command.succeeded finalized = false ∧
      RunOver image [] [] t finalized) ∧
    (finalizers image t.memory = initializers image s.memory →
      Command.succeeded initialized = true → Command.succeeded finalized = true →
      ∃ functions, (Command.final initialized).invoked = s.invoked ++ functions ∧
        (Command.final finalized).invoked = t.invoked ++ functions.reverse) := by
  intro initialized finalized
  refine ⟨fun hreadable => ⟨_, (initializers_outcome hinit hreadable).runOver⟩,
    fun hreadable => ⟨_, (finalizers_outcome hfini hreadable).runOver⟩,
    initializers_refused effect, finalizers_refused effect, fun htables hsucceeds hsucceeds' => ?_⟩
  have hreadable : ArrayReadable 25 27 image s.memory := by
    by_contra hrefused
    have hfailed := (initializers_refused effect hrefused).1
    exact Bool.noConfusion (hfailed.symm.trans hsucceeds)
  have hreadable' : ArrayReadable 26 28 image t.memory := by
    by_contra hrefused
    have hfailed := (finalizers_refused effect hrefused).1
    exact Bool.noConfusion (hfailed.symm.trans hsucceeds')
  have hfirst := initializers_outcome hinit hreadable
  have hsecond := finalizers_outcome hfini hreadable'
  refine ⟨_, hfirst.invoked, ?_⟩
  have hall := hfirst.succeeded.symm.trans hsucceeds
  have hall' := hsecond.succeeded.symm.trans hsucceeds'
  rw [hsecond.invoked, invocations_of_completes hall, invocations_of_completes hall', htables,
    List.filter_reverse]

/-! ## An image with both -/

/-- The functions at 0x1080 and 0x1084 are named twice, and one entry is left out. -/
def twoFunctions : Process where
  memory := Memory.write (fun _ => 0) 0x1000 <|
    [12, 0x80, 25, 0x40, 27, 8, 13, 0x80, 26, 0x40, 28, 8, 0, 0, 0, 0,
      0x1085, 0xffffffff].flatMap le32
  called := 0
  invoked := []

def twoFunctionsImage : Elf32Image :=
  { Elf32Image.zero with
    mapping := 0x1000, mappingSize := 0x100, loadBias := 0x1000, dynamic := 0x1000
    dynamicCount := 7 }

theorem twoFunctions_finalized :
    ArrayReadable 26 28 twoFunctionsImage twoFunctions.memory ∧
      ∃ functions, RunOver twoFunctionsImage [0xffffffff, 0x1085, 0x1080] functions twoFunctions
        ((nfsmwRunFinalizers (fun _ _ m => m) twoFunctionsImage).run twoFunctions) ∧
      functions = [0x1085, 0x1080] := by
  have hreadable : ArrayReadable 26 28 twoFunctionsImage twoFunctions.memory := by decide +kernel
  have horder : (finalizers twoFunctionsImage twoFunctions.memory).reverse =
      [0xffffffff, 0x1085, 0x1080] := by decide +kernel
  have hsucceeds : Command.succeeded
      ((nfsmwRunFinalizers (fun _ _ m => m) twoFunctionsImage).run twoFunctions) = true := by
    decide +kernel
  obtain ⟨functions, hrun, hall⟩ := (finalizers_mirror_initializers (fun _ _ m => m)
    twoFunctionsImage twoFunctions twoFunctions (fun _ _ _ h => h) fun _ _ _ h => h).2.1 hreadable
  have hfunctions := hall.mp hsucceeds
  rw [horder] at hrun hfunctions
  exact ⟨hreadable, functions, hrun, hfunctions⟩

end NfsmwRuntime.Loader
