import NfsmwRuntime.Jni.ValueMethods
import NfsmwRuntime.Obb.Lookup

/-!
# Assets through the bridge

`list` and `forEach` copy a directory listing of the OBB index into a String array, and
`getAssetSize` passes a size on as an `int`. The sizes are 32 bits without a sign, so that
the narrowing makes large files negative, and two of them look like the answers for a
directory and for nothing.
-/

namespace NfsmwRuntime.Jni

open Library Obb

variable {φ δ : Type}

/-! ## Listings as String arrays -/

/-- The strings of a String array, if each of its elements is one. -/
def arrayStrings (h : Heap φ) (array : FakeObject φ) : Option (List CString) := do
  let elements ← array.elements
  (elements.take array.length).mapM fun element => do
    let string ← asObject h element
    guard (string.kind = .string)
    string.text

/-- A pointer to a String array with these elements. -/
def HoldsStrings (h : Heap φ) (value : Option Ref) (strings : List CString) : Prop :=
  ∃ array, asObject h value = some array ∧ array.kind = .objectArray ∧
    array.length = strings.length ∧ arrayStrings h array = some strings

/-- The elements of an array at `base` when the first `copied` of `total` are filled. -/
def childElements (base total copied : Nat) : List (Option Ref) :=
  ((List.range copied).map fun i => some (.cell (base + 1 + i))) ++
    List.replicate (max total 1 - copied) none

/-- The heap after the first children of `total` have been copied. -/
def childHeap (c : CFloat φ δ) (h : Heap φ) (total : Nat) (copied : List CString) : Heap φ :=
  { h with
    cells := h.cells ++
      { newObject c .objectArray none total with
        elements := some (childElements h.cells.length total copied.length) } ::
      copied.map fun child => newString c (component child) }

theorem childElements_succ {base total copied : Nat} (hroom : copied < total) :
    (childElements base total copied).set copied (some (.cell (base + 1 + copied))) =
      childElements base total (copied + 1) := by
  obtain ⟨n, hn⟩ : ∃ n, max total 1 - copied = n + 1 := ⟨max total 1 - copied - 1, by omega⟩
  rw [childElements, childElements, hn, show max total 1 - (copied + 1) = n by omega,
    List.set_append_right _ _ (by simp), List.range_succ]
  simp [List.replicate_succ]

/-- Copying one child allocates its string and fills the next element. -/
theorem childHeap_step (c : CFloat φ δ) {h : Heap φ} {total : Nat} {copied : List CString}
    (hroom : copied.length < total) (child : CString) :
    (((childHeap c h total copied).alloc (newString c (component child))).1.setElement
        h.cells.length copied.length
        (some ((childHeap c h total copied).alloc (newString c (component child))).2)) =
      childHeap c h total (copied ++ [child]) := by
  simp only [Heap.alloc, Heap.setElement, childHeap]
  congr 1
  rw [List.append_assoc, List.cons_append, List.modify_eq_take_cons_drop (by simp)]
  simp [← childElements_succ hroom, Nat.add_right_comm, Nat.add_assoc]

theorem childHeap_copied (c : CFloat φ δ) {h : Heap φ} {total : Nat} {todo copied : List CString}
    (hroom : copied.length + todo.length ≤ total) :
    (todo.zipIdx copied.length).foldl (fun h' (child, index) =>
        let (h', string) := h'.alloc (newString c (component child))
        h'.setElement h.cells.length index (some string)) (childHeap c h total copied) =
      childHeap c h total (copied ++ todo) := by
  induction todo generalizing copied with
  | nil => simp
  | cons child todo ih =>
    rw [List.length_cons] at hroom
    rw [List.zipIdx_cons, List.foldl_cons]
    dsimp only
    rw [childHeap_step c (by omega)]
    have hlength : (copied ++ [child]).length = copied.length + 1 := by simp
    rw [← hlength, ih (by omega)]
    simp

theorem newChildArray_eq (c : CFloat φ δ) (children : List CString) (h : Heap φ) :
    newChildArray c children h =
      (childHeap c h children.length children, .cell h.cells.length) := by
  have hstart : childHeap c h children.length [] = (h.alloc
      { newObject c .objectArray none children.length with
        elements := some (List.replicate (max children.length 1) none) }).1 := by
    simp [childHeap, childElements, Heap.alloc]
  have hcopied := @childHeap_copied _ _ c h children.length children [] (by simp)
  rw [newChildArray]
  dsimp only
  rw [← hstart]
  exact congrArg (·, _) hcopied

theorem childHeap_string (c : CFloat φ δ) {h : Heap φ} {total : Nat} {copied : List CString}
    {i : Nat} (hi : i < copied.length) :
    (childHeap c h total copied).get (.cell (h.cells.length + 1 + i)) =
      some (newString c (component copied[i])) := by
  simp [childHeap, Heap.get, Nat.add_assoc, Nat.add_comm 1, hi]

/-- The array made of a listing holds the children up to their slashes. -/
theorem newChildArray_strings (c : CFloat φ δ) (children : List CString) (h : Heap φ) :
    HoldsStrings (newChildArray c children h).1 (some (newChildArray c children h).2)
      (children.map component) := by
  rw [newChildArray_eq]
  have harray : (childHeap c h children.length children).get (.cell h.cells.length) =
      some { newObject c .objectArray none children.length with
        elements := some (childElements h.cells.length children.length children.length) } := by
    simp [childHeap, Heap.get]
  refine ⟨_, harray, rfl, by simp [newObject], ?_⟩
  have helements : (childElements h.cells.length children.length children.length).take
      children.length =
      (List.range children.length).map fun i => some (.cell (h.cells.length + 1 + i)) :=
    List.take_left' (by simp)
  have htext : ∀ element ∈ (List.range children.length).map
      (fun i => some (Ref.cell (h.cells.length + 1 + i))), (do
        let string ← asObject (childHeap c h children.length children) element
        guard (string.kind = .string)
        string.text) = some (((asObject (childHeap c h children.length children) element).bind
          FakeObject.text).getD []) := by
    intro element helement
    obtain ⟨i, hi, rfl⟩ := List.mem_map.mp helement
    have hstring := @childHeap_string _ _ c h children.length _ _ (List.mem_range.mp hi)
    simp [asObject, hstring, newString, newObject]
  rw [arrayStrings]
  change List.mapM _ ((childElements h.cells.length children.length children.length).take
    children.length) = _
  rw [helements, mapM_eq_some htext, List.map_map]
  congr 1
  refine List.ext_getElem (by simp) fun i hi hi' => ?_
  have hstring := @childHeap_string _ _ c h children.length children i (by simpa using hi')
  simp [asObject, hstring, newString, newObject]

/-- All three forms of `list` and `forEach` return the listing. -/
theorem listing_flavours (c : CFloat φ δ) {reallocOk : Bool} {w : World φ}
    {receiver argument : Option Ref} {method : FakeMethod} {arguments : List (VaArg δ)}
    {values : List (JValue φ δ)}
    (hmethod : method.name = cstr "list" ∨ method.name = cstr "forEach") :
    jniCallObjectMethod c reallocOk w receiver (some method) (.object argument :: arguments) =
      returnListing c reallocOk w argument ∧
    jniCallObjectMethodV c reallocOk w receiver (some method) (.object argument :: arguments) =
      returnListing c reallocOk w argument ∧
    jniCallObjectMethodA c reallocOk w receiver (some method) (some (.object argument :: values)) =
      returnListing c reallocOk w argument := by
  rcases hmethod with hmethod | hmethod <;>
    simp [jniCallObjectMethod, jniCallObjectMethodV, jniCallObjectMethodA, dispatchObject,
      hmethod, vaObject, valueObject]

/-- A listing has exactly the distinct first components of the names below the directory,
and the String array that `list` and `forEach` make of it holds exactly those. -/
theorem listing_exact (c : CFloat φ δ) {m : ObbMemory} (h : m.WellFormed)
    (hnames : NulFree m.index.entries) {directory : Option CString}
    (hshort : (trimmed directory).length ≤ 4094) {reallocOk : Bool}
    (hroom : m.entryCount ≤ m.listCapacity ∨ reallocOk) :
    (∃ m' children, m.list reallocOk directory =
        some (m', some children, (listing m.index.entries (trimmed directory)).length) ∧
      children.map component = listing m.index.entries (trimmed directory)) ∧
    ∀ (w : World φ) (receiver argument : Option Ref) (method : FakeMethod)
      (arguments : List (VaArg δ)) (values : List (JValue φ δ)),
      w.index = m.index → directory = some (stringValue w.heap argument) →
      method.name = cstr "list" ∨ method.name = cstr "forEach" →
      ∃ w' array,
        jniCallObjectMethod c reallocOk w receiver (some method)
          (.object argument :: arguments) = some (w', array) ∧
        jniCallObjectMethodV c reallocOk w receiver (some method)
          (.object argument :: arguments) = some (w', array) ∧
        jniCallObjectMethodA c reallocOk w receiver (some method)
          (some (.object argument :: values)) = some (w', array) ∧
        HoldsStrings w'.heap array (listing m.index.entries (trimmed directory)) := by
  refine ⟨h.list_listing hnames hshort hroom, ?_⟩
  intro w receiver argument method arguments values hindex hargument hmethod
  obtain ⟨hcall, hcallV, hcallA⟩ := @listing_flavours _ _ c reallocOk w receiver argument
    method arguments values hmethod
  obtain ⟨hchildren, -⟩ := h.children directory hroom
  have hstrings := newChildArray_strings c (childrenOf m.index.entries directory) w.heap
  rw [map_component_childrenOf hnames] at hstrings
  have hreturn : returnListing c reallocOk w argument =
      some ({ heap := (newChildArray c (childrenOf m.index.entries directory) w.heap).1
              index := (nfsmwObbList reallocOk directory m.index).1 },
        some (newChildArray c (childrenOf m.index.entries directory) w.heap).2) := by
    rw [returnListing, hindex, ← hargument]
    obtain ⟨found, hfound, htake⟩ := Option.map_eq_some_iff.mp hchildren
    simp only [hfound, Option.getD_some, htake]
  exact ⟨_, _, hcall.trans hreturn, hcallV.trans hreturn, hcallA.trans hreturn, hstrings⟩

/-- The sample archive in memory. -/
def sampleMemory : ObbMemory where
  entries := [⟨some (cstr "a/" ++ [0]), 0, true⟩, ⟨some (cstr "a/b" ++ [0]), 300, false⟩]
  entryCount := 2
  archivePath := cstr "main.obb"
  listResult := []
  listCapacity := 0

theorem wellFormed_sampleMemory : sampleMemory.WellFormed where
  count_le := Nat.le_refl _
  named := fun
    | 0, _ => ⟨_, rfl, cstr "a/", rfl⟩
    | 1, _ => ⟨_, rfl, cstr "a/b", rfl⟩
  length_listResult := rfl

/-- A string with slashes around it and the sample archive. -/
def sampleWorld : World Int where
  heap :=
    { static := fun _ => newObject .integral .generic none 0
      cells := [newString .integral (cstr "/a/")] }
  index := sampleMemory.index

theorem listing_exact_sample : ∃ w' array,
    jniCallObjectMethod .integral true sampleWorld none
      (some ⟨cstr "list", cstr "(Ljava/lang/String;)[Ljava/lang/String;", false⟩)
      [.object (some (.cell 0))] = some (w', array) ∧
    HoldsStrings w'.heap array [cstr "b"] := by
  obtain ⟨-, hcalls⟩ := @listing_exact _ _ .integral sampleMemory wellFormed_sampleMemory
    (by simp [NulFree, ObbMemory.index, sampleMemory]; decide) (some (cstr "/a/")) (by decide)
    true (.inr rfl)
  obtain ⟨w', array, hcall, -, -, hstrings⟩ := hcalls sampleWorld none (some (.cell 0))
    ⟨cstr "list", cstr "(Ljava/lang/String;)[Ljava/lang/String;", false⟩ [] [] rfl rfl (.inl rfl)
  exact ⟨w', array, hcall, hstrings⟩

/-! ## The array for the prefix -/

/-- A listing keeps inside its array, and compares names with the directory asked for,
exactly if that has no more than 4094 bytes between its slashes. A Java string is passed on
with any length. -/
theorem list_prefix_contained_iff (c : CFloat φ δ) :
    (∀ (m : ObbMemory) (reallocOk : Bool) (directory : Option CString),
      (∀ buffer : List UInt8, buffer.length = nameLimit → m.list reallocOk directory =
        (comparedPrefix buffer directory).bind (m.listFrom reallocOk)) ∧
      (PrefixContained directory ↔ (trimmed directory).length ≤ 4094)) ∧
    ∀ (reallocOk : Bool) (w : World φ) (receiver argument : Option Ref) (method : FakeMethod)
      (arguments : List (VaArg δ)) (values : List (JValue φ δ)),
      method.name = cstr "list" ∨ method.name = cstr "forEach" →
      (dispatchObject c reallocOk w receiver (some method) (.object argument :: arguments) =
          returnListing c reallocOk w argument ∧
        jniCallObjectMethodA c reallocOk w receiver (some method)
            (some (.object argument :: values)) = returnListing c reallocOk w argument) ∧
      (PrefixContained (some (stringValue w.heap argument)) ↔
        (trimmed (some (stringValue w.heap argument))).length ≤ 4094) := by
  refine ⟨fun m reallocOk directory => ⟨fun buffer hbuffer => m.list_eq _ _ hbuffer,
    prefixContained_iff⟩, ?_⟩
  intro reallocOk w receiver argument method arguments values hmethod
  obtain ⟨-, -, hcallA⟩ := @listing_flavours _ _ c reallocOk w receiver argument method
    arguments values hmethod
  refine ⟨⟨?_, hcallA⟩, prefixContained_iff⟩
  rcases hmethod with hmethod | hmethod <;> simp [dispatchObject, hmethod, vaObject]

/-- The shortest directory that is too long, and a Java string that passes it. -/
theorem not_prefixContained_long :
    (4096, [0]) ∈ prefixWrites (some (List.replicate 4095 97)) ∧
    ¬ PrefixContained (some (List.replicate 4095 97)) ∧
    ∃ w : World Int, stringValue w.heap (some (.cell 0)) = List.replicate 4095 97 := by
  have htrimmed : trimmed (some (List.replicate 4095 97)) = List.replicate 4095 97 :=
    trimmed_replicate 4095 (by decide)
  refine ⟨?_, ?_, { sampleWorld with
    heap := { sampleWorld.heap with cells := [newString .integral (List.replicate 4095 97)] } },
    rfl⟩
  · have hnonempty : trimmed (some (List.replicate 4095 97)) ≠ [] := by
      rw [htrimmed, List.replicate_succ]
      exact List.cons_ne_nil _ _
    have hnul := nul_mem_prefixWrites hnonempty
    rwa [htrimmed, List.length_replicate] at hnul
  · rw [prefixContained_iff, htrimmed, List.length_replicate]
    decide

/-! ## Sizes as ints -/

/-- What `getAssetSize` returns tells a directory, nothing and a file's size apart. -/
structure TellsApart (s : ObbIndex) (path : CString) (result : Int32) : Prop where
  directory : result = -1 → ∃ e, resolvedEntry (some path) s = some e ∧ e.directory
  missing : result = -2 → resolvedEntry (some path) s = none
  size : result ≠ -1 → result ≠ -2 →
    0 ≤ result ∧ ∃ e, resolvedEntry (some path) s = some e ∧ result.toInt = e.size.toNat

variable (c : FloatOps φ δ) (settings : MethodSettings φ) {w : ValueWorld φ}
  {receiver argument : Option Ref} {method : FakeMethod} {arguments : List (VaArg δ)}
  {values : List (JValue φ δ)}

theorem assetSize_flavours (hmethod : method.name = cstr "getAssetSize") :
    jniCallIntMethod c settings w receiver (some method) (.object argument :: arguments) =
      some (assetSizeOf w argument) ∧
    jniCallIntMethodV c settings w receiver (some method) (.object argument :: arguments) =
      some (assetSizeOf w argument) ∧
    jniCallIntMethodA c settings w receiver (some method) (some (.object argument :: values)) =
      some (assetSizeOf w argument) := by
  simp [jniCallIntMethod, jniCallIntMethodV, jniCallIntMethodA, dispatchIntV, hmethod, vaObject,
    valueObject]

/-- The narrowed size is the size exactly for files below 2 GiB. -/
theorem tellsApart_iff {s : ObbIndex} {path : CString} :
    TellsApart s path (.ofInt (nfsmwObbAssetSize (some path) s)) ↔
      ∀ e, resolvedEntry (some path) s = some e → e.directory = false → e.size.toNat < 2 ^ 31 := by
  rw [nfsmwObbAssetSize_eq]
  cases hresolved : resolvedEntry (some path) s with
  | none =>
    refine iff_of_true ⟨fun h => ?_, fun _ => hresolved, fun _ h => absurd rfl h⟩
      fun e he => nomatch he
    exact absurd h (by decide)
  | some e =>
    by_cases hdirectory : e.directory
    · have hsize : e.assetSize = -1 := if_pos hdirectory
      rw [Option.elim_some, hsize]
      refine iff_of_true ⟨fun _ => ⟨e, hresolved, hdirectory⟩, fun h => ?_,
        fun h => absurd rfl h⟩ fun e' he' hfile => ?_
      · exact absurd h (by decide)
      · rw [← Option.some.inj he', hdirectory] at hfile
        exact nomatch hfile
    · have hsize : e.assetSize = e.size.toNat := if_neg hdirectory
      have hlt : e.size.toNat < 2 ^ 32 := e.size.toNat_lt
      have htoInt : (Int32.ofInt e.size.toNat).toInt =
          if e.size.toNat < 2 ^ 31 then (e.size.toNat : Int) else e.size.toNat - 2 ^ 32 := by
        rw [Int32.toInt_ofInt, Int32.size, Int.bmod_def]
        split <;> split <;> omega
      rw [Option.elim_some, hsize]
      constructor
      · intro h e' he' _
        obtain rfl := Option.some.inj he'
        by_contra hlarge
        rw [if_neg hlarge] at htoInt
        have hnotDirectory : Int32.ofInt e.size.toNat ≠ -1 := fun heq => by
          obtain ⟨e', he', hdirectory'⟩ := h.directory heq
          obtain rfl := Option.some.inj (hresolved.symm.trans he')
          exact hdirectory hdirectory'
        have hnotMissing : Int32.ofInt e.size.toNat ≠ -2 := fun heq => by
          cases hresolved.symm.trans (h.missing heq)
        have hpositive := Int32.le_iff_toInt_le.mp (h.size hnotDirectory hnotMissing).1
        rw [htoInt, Int32.toInt_zero] at hpositive
        omega
      · intro hsmall
        rw [if_pos (hsmall e rfl (Bool.eq_false_iff.mpr hdirectory))] at htoInt
        have hne : ∀ code : Int32, code.toInt < 0 → Int32.ofInt e.size.toNat ≠ code := by
          rintro code hcode rfl
          omega
        refine ⟨fun heq => absurd heq (hne _ (by decide)),
          fun heq => absurd heq (hne _ (by decide)), fun _ _ => ⟨?_, e, hresolved, htoInt⟩⟩
        rw [Int32.le_iff_toInt_le, htoInt, Int32.toInt_zero]
        omega

/-- `getAssetSize` tells its answers apart, in each of its forms, exactly if the path is not
that of a file of 2 GiB or more. -/
theorem getAssetSize_iff (hmethod : method.name = cstr "getAssetSize") :
    (∃ result,
      jniCallIntMethod c settings w receiver (some method) (.object argument :: arguments) =
        some result ∧
      jniCallIntMethodV c settings w receiver (some method) (.object argument :: arguments) =
        some result ∧
      jniCallIntMethodA c settings w receiver (some method) (some (.object argument :: values)) =
        some result ∧
      TellsApart w.index (stringValue w.heap argument) result) ↔
    ∀ e, resolvedEntry (some (stringValue w.heap argument)) w.index = some e →
      e.directory = false → e.size.toNat < 2 ^ 31 := by
  obtain ⟨hcall, hcallV, hcallA⟩ := @assetSize_flavours _ _ c settings w receiver argument
    method arguments values hmethod
  rw [← tellsApart_iff, hcall, hcallV, hcallA]
  constructor
  · rintro ⟨result, hresult, -, -, h⟩
    obtain rfl := Option.some.inj hresult
    exact h
  · exact fun h => ⟨_, rfl, rfl, rfl, h⟩

def sampleValueWorld : ValueWorld Int := { sampleWorld with data := fun _ => .blank }

theorem getAssetSize_iff_sample :
    (∃ result,
      jniCallIntMethod .integral ⟨20, 640, 480⟩ sampleValueWorld none
        (some ⟨cstr "getAssetSize", cstr "(Ljava/lang/String;)I", false⟩)
        [.object (some (.cell 0))] = some result ∧
      jniCallIntMethodV .integral ⟨20, 640, 480⟩ sampleValueWorld none
        (some ⟨cstr "getAssetSize", cstr "(Ljava/lang/String;)I", false⟩)
        [.object (some (.cell 0))] = some result ∧
      jniCallIntMethodA .integral ⟨20, 640, 480⟩ sampleValueWorld none
        (some ⟨cstr "getAssetSize", cstr "(Ljava/lang/String;)I", false⟩)
        (some [.object (some (.cell 0))]) = some result ∧
      TellsApart sampleMemory.index (cstr "/a/") result) ↔
    ∀ e, resolvedEntry (some (cstr "/a/")) sampleMemory.index = some e →
      e.directory = false → e.size.toNat < 2 ^ 31 :=
  getAssetSize_iff .integral ⟨20, 640, 480⟩ rfl

/-- A file one byte short of 4 GiB under the name of the string in the heap. -/
def largeWorld : ValueWorld Int :=
  { sampleValueWorld with
    index := ⟨[⟨cstr "a", 0xffffffff, false⟩], cstr "main.obb", [], 0⟩ }

theorem not_tellsApart_large :
    jniCallIntMethod .integral ⟨20, 640, 480⟩ largeWorld none
      (some ⟨cstr "getAssetSize", cstr "(Ljava/lang/String;)I", false⟩)
      [.object (some (.cell 0))] = some (-1) ∧
    resolvedEntry (some (cstr "/a/")) largeWorld.index = some ⟨cstr "a", 0xffffffff, false⟩ ∧
    ¬ TellsApart largeWorld.index (cstr "/a/") (-1) := by
  have hresolved : resolvedEntry (some (cstr "/a/")) largeWorld.index =
      some ⟨cstr "a", 0xffffffff, false⟩ := by decide
  refine ⟨by decide, hresolved, fun h => ?_⟩
  obtain ⟨e, he, hdirectory⟩ := h.directory rfl
  obtain rfl := Option.some.inj (hresolved.symm.trans he)
  exact nomatch hdirectory

end NfsmwRuntime.Jni
