import NfsmwRuntime.Jni.ObjectMethods
import NfsmwRuntime.Library.Interning

/-!
# Method and field ids

An id is a pointer into a registry that `register_method` or `register_field` fills: the
first slot that has the name, the signature and the flag asked for, or a new one. The names
are compared as the guest passes them and kept in buffers of a fixed size, so a name that
does not fit is not found again.
-/

namespace NfsmwRuntime.Jni

open Library Library.Interning

deriving instance DecidableEq for FakeMethod

/-- `struct fake_field` differs from `struct fake_method` in the size of a buffer. -/
abbrev FakeField := FakeMethod

def methodCapacity : Nat := 512

def fieldCapacity : Nat := 128

/-- The buffers of a slot. -/
structure Buffers where
  name : Nat
  signature : Nat

def methodBuffers : Buffers := ⟨96, 160⟩

def fieldBuffers : Buffers := ⟨96, 96⟩

/-- A slot as `snprintf` fills it. -/
def Buffers.fill (buffers : Buffers) (method : FakeMethod) : FakeMethod where
  name := printed buffers.name method.name
  signature := printed buffers.signature method.signature
  isStatic := method.isStatic

/-- `register_method` and `register_field`: the registry afterwards and the number of the
slot the id points at. The run is aborted (`none`) if the registry is exhausted. -/
def register (capacity : Nat) (buffers : Buffers) (slots : List FakeMethod)
    (name signature : Option CString) (isStatic : Bool) : Option (List FakeMethod × Nat) :=
  let found := slots.findIdx? fun slot =>
    slot.isStatic = isStatic ∧ slot.name = name.getD [] ∧ slot.signature = signature.getD []
  match found with
  | some index => some (slots, index)
  | none =>
    if slots.length = capacity then none
    else
      let slot : FakeMethod :=
        { name := printed buffers.name (name.getD [])
          signature := printed buffers.signature (signature.getD [])
          isStatic }
      some (slots ++ [slot], slots.length)

def registerMethod : List FakeMethod → Option CString → Option CString → Bool →
    Option (List FakeMethod × Nat) :=
  register methodCapacity methodBuffers

def registerField : List FakeField → Option CString → Option CString → Bool →
    Option (List FakeField × Nat) :=
  register fieldCapacity fieldBuffers

/-! ## Requests -/

/-- The arguments of `GetMethodID` or `GetFieldID`, or of the static form. -/
structure IdRequest where
  name : Option CString
  signature : Option CString
  isStatic : Bool

/-- What is asked for: NULL is taken for an empty string. -/
def IdRequest.triple (request : IdRequest) : FakeMethod where
  name := request.name.getD []
  signature := request.signature.getD []
  isStatic := request.isStatic

def jniGetMethodId (methods : List FakeMethod) (name signature : Option CString) :=
  registerMethod methods name signature false

def jniGetStaticMethodId (methods : List FakeMethod) (name signature : Option CString) :=
  registerMethod methods name signature true

def jniGetFieldId (fields : List FakeField) (name signature : Option CString) :=
  registerField fields name signature false

def jniGetStaticFieldId (fields : List FakeField) (name signature : Option CString) :=
  registerField fields name signature true

def getMethodId (methods : List FakeMethod) (request : IdRequest) :=
  if request.isStatic then jniGetStaticMethodId methods request.name request.signature
  else jniGetMethodId methods request.name request.signature

def getFieldId (fields : List FakeField) (request : IdRequest) :=
  if request.isStatic then jniGetStaticFieldId fields request.name request.signature
  else jniGetFieldId fields request.name request.signature

/-- The registry after a sequence of requests, and each request with its id. -/
def requestAll (getId : List FakeMethod → IdRequest → Option (List FakeMethod × Nat))
    (requests : List IdRequest) : Option (List FakeMethod × List (IdRequest × Nat)) :=
  requests.foldlM (fun (slots, answers) request => do
    let (slots, id) ← getId slots request
    return (slots, answers ++ [(request, id)])) ([], [])

/-- No request is aborted, two get the same id exactly if they ask for the same triple, and
a slot is used for each triple. -/
def IdsInterned (getId : List FakeMethod → IdRequest → Option (List FakeMethod × Nat))
    (requests : List IdRequest) : Prop :=
  ∃ slots answers, requestAll getId requests = some (slots, answers) ∧
    answers.map Prod.fst = requests ∧
    (∀ p ∈ answers, ∀ q ∈ answers, p.2 = q.2 ↔ p.1.triple = q.1.triple) ∧
    slots.length = (requests.map IdRequest.triple).dedup.length

/-! ## Registering is interning -/

variable {capacity : Nat} {buffers : Buffers} {slots : List FakeMethod}
  {getId : List FakeMethod → IdRequest → Option (List FakeMethod × Nat)}
  {requests : List IdRequest} {request : IdRequest}

theorem register_eq_intern (h : slots.length < capacity) :
    register capacity buffers slots request.name request.signature request.isStatic =
      some (intern buffers.fill slots request.triple) := by
  have hfound : (slots.findIdx? fun slot => slot.isStatic = request.isStatic ∧
      slot.name = request.name.getD [] ∧ slot.signature = request.signature.getD []) =
        slots.findIdx? (· == request.triple) := by
    congr 1
    funext slot
    grind [IdRequest.triple, FakeMethod]
  have hne : slots.length ≠ capacity := Nat.ne_of_lt h
  rw [register, hfound]
  by_cases hmem : request.triple ∈ slots
  · have hidx := List.findIdx?_eq_some_iff_findIdx_eq.mpr
      ⟨List.idxOf_lt_length_of_mem hmem, (rfl : _ = slots.idxOf request.triple)⟩
    simp [intern, hidx, hmem]
  · have hnone : slots.findIdx? (· == request.triple) = none := by
      grind [List.findIdx?_eq_none_iff]
    rw [intern, if_neg hmem, List.idxOf_of_notMem hmem, hnone]
    simp only [if_neg hne]
    rfl

theorem requestAll_concat :
    requestAll getId (requests ++ [request]) = (do
      let (slots, answers) ← requestAll getId requests
      let (slots, id) ← getId slots request
      return (slots, answers ++ [(request, id)])) := by
  simp [requestAll, List.foldlM_append]

/-- A registry that is not exhausted runs like the library's. -/
theorem requestAll_eq_internAll
    (hget : ∀ slots request, slots.length < capacity →
      getId slots request = some (intern buffers.fill slots request.triple))
    (h : requests.length ≤ capacity) :
    ∃ answers, requestAll getId requests =
        some ((internAll buffers.fill (requests.map IdRequest.triple)).1, answers) ∧
      answers.map Prod.fst = requests ∧
      answers.map (fun p => (p.1.triple, p.2)) =
        (internAll buffers.fill (requests.map IdRequest.triple)).2 ∧
      (internAll buffers.fill (requests.map IdRequest.triple)).1.length ≤ requests.length := by
  induction requests using List.reverseRecOn with
  | nil => exact ⟨[], rfl, rfl, rfl, Nat.le_refl _⟩
  | append_singleton requests request ih =>
    rw [List.length_append, List.length_singleton] at h
    obtain ⟨answers, hrun, hfst, hanswers, hlength⟩ := ih (by omega)
    have hnext := hget _ request (Nat.lt_of_le_of_lt hlength h)
    rw [requestAll_concat, hrun]
    simp only [Option.pure_def, Option.bind_eq_bind, Option.bind_some, hnext, List.map_append,
      List.map_cons, List.map_nil, internAll_concat]
    refine ⟨_, rfl, by simp [hfst], by simp [hanswers], ?_⟩
    rw [List.length_append, List.length_singleton, intern]
    grind

theorem idsInterned_iff
    (hget : ∀ slots request, slots.length < capacity →
      getId slots request = some (intern buffers.fill slots request.triple))
    (h : requests.length ≤ capacity) :
    IdsInterned getId requests ↔
      Distinguishable buffers.fill (requests.map IdRequest.triple) := by
  obtain ⟨answers, hrun, hfst, hanswers, -⟩ := requestAll_eq_internAll hget h
  have hsame : (∀ p ∈ answers, ∀ q ∈ answers, p.2 = q.2 ↔ p.1.triple = q.1.triple) ↔
      Interned (internAll buffers.fill (requests.map IdRequest.triple)).2 := by
    rw [← hanswers]
    simp only [Interned, List.forall_mem_map]
  constructor
  · rintro ⟨slots, answers', hrun', -, hids, -⟩
    obtain ⟨-, rfl⟩ : _ ∧ answers = answers' := by
      simpa [hrun] using hrun'
    exact interned_iff.mp (hsame.mp hids)
  · intro hkeys
    exact ⟨_, answers, hrun, hfst, hsame.mpr (interned_of_distinguishable hkeys),
      length_internAll hkeys⟩

theorem getMethodId_eq_intern (h : slots.length < methodCapacity) :
    getMethodId slots request = some (intern methodBuffers.fill slots request.triple) := by
  rw [← register_eq_intern h, getMethodId]
  cases hstatic : request.isStatic <;> rfl

theorem getFieldId_eq_intern (h : slots.length < fieldCapacity) :
    getFieldId slots request = some (intern fieldBuffers.fill slots request.triple) := by
  rw [← register_eq_intern h, getFieldId]
  cases hstatic : request.isStatic <;> rfl

/-- Ids are interned exactly as long as no name or signature that was cut short matters. -/
theorem ids_interned_iff {methodRequests fieldRequests : List IdRequest}
    (hmethods : methodRequests.length < methodCapacity)
    (hfields : fieldRequests.length < fieldCapacity) :
    (IdsInterned getMethodId methodRequests ↔
      Distinguishable methodBuffers.fill (methodRequests.map IdRequest.triple)) ∧
    (IdsInterned getFieldId fieldRequests ↔
      Distinguishable fieldBuffers.fill (fieldRequests.map IdRequest.triple)) :=
  ⟨idsInterned_iff (fun _ _ => getMethodId_eq_intern) (Nat.le_of_lt hmethods),
    idsInterned_iff (fun _ _ => getFieldId_eq_intern) (Nat.le_of_lt hfields)⟩

theorem short_ids_interned :
    IdsInterned getMethodId
      [⟨some (cstr "run"), some (cstr "()V"), false⟩, ⟨some (cstr "run"), some (cstr "()V"), true⟩,
        ⟨some (cstr "run"), none, false⟩, ⟨some (cstr "run"), some (cstr "()V"), true⟩] :=
  (@ids_interned_iff _ [] (by decide) (by decide)).1.mpr
    (distinguishable_of_stored (by decide))

/-- A method whose name does not fit. -/
def overlong : IdRequest := ⟨some (List.replicate 96 97), some (cstr "()V"), false⟩

/-- The second request for an overlong name does not find the slot of the first. -/
theorem overlong_not_interned :
    (requestAll getMethodId [overlong, overlong]).map (fun run => run.2.map Prod.snd) =
        some [0, 1] ∧
      ¬ ∀ requests : List IdRequest, requests.length < methodCapacity →
        IdsInterned getMethodId requests := by
  refine ⟨by decide, fun h => ?_⟩
  have hkeys : Distinguishable methodBuffers.fill [overlong.triple, overlong.triple] :=
    (idsInterned_iff (fun _ _ => getMethodId_eq_intern) (by decide)).mp
      (h [overlong, overlong] (by decide))
  exact (hkeys [_] _ [] rfl _ List.mem_cons_self (by decide)).1 rfl

end NfsmwRuntime.Jni
