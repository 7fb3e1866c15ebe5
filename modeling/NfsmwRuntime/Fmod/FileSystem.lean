import NfsmwRuntime.Fmod.Path
import NfsmwRuntime.Library.Stdio

/-!
# FMOD's file system

FMOD reads its files through callbacks that the runtime installs. Each of them is one call of
stdio and a translation of what it says into FMOD's results.

A read is judged by the number of bytes that this read has got, but also by the stream's error
flag, which an earlier read may have set.
-/

namespace NfsmwRuntime.Fmod

open Library Launch

/-- The values of FMOD's error table that the callbacks return. -/
inductive FmodResult
  | ok
  | fileBad
  | couldNotSeek
  | fileEof
  | notFound
  | invalidParam
  deriving DecidableEq, Repr

def enoent : Int32 := 2

/-- What `nfsmw_fmod_file_open` is called with: a name, and which of the places for the size
and the handle are there. -/
structure OpenRequest where
  name : Option CString
  unicode : Int32
  size : Bool
  handle : Bool

/-- The size and the handle of a file that is open. `fopen` answers with an `errno` or the
file's content, and `measures` says whether it can be measured. -/
def nfsmwFmodFileOpen (root : Option CString) (fopen : CString → Except Int32 (List UInt8))
    (measures : Bool) (q : OpenRequest) : Except FmodResult (UInt32 × Stream) :=
  match q.name with
  | none => .error .invalidParam
  | some name =>
    if !q.size || !q.handle || q.unicode != 0 then .error .invalidParam
    else match nfsmwFmodAudioPath root (some name) 4096 with
      | none => .error .notFound
      | some path => match fopen (cstring path) with
        | .error errno => .error (if errno = enoent then .notFound else .fileBad)
        | .ok content =>
          if measures && content.length ≤ 0xffffffff then
            .ok (.ofNat content.length, .opened content)
          else .error .fileBad

/-- What `nfsmw_fmod_file_read` is called with, and the bytes after which the device would
fail. -/
structure ReadRequest where
  handle : Bool
  buffer : Bool
  read : Bool
  bytes : UInt32
  fault : Option Nat

/-- What a read returns, puts in `*read` and at the start of the buffer. -/
structure ReadAnswer where
  result : FmodResult
  read : Option UInt32
  data : List UInt8
  deriving DecidableEq, Repr

def ReadRequest.asksFor (q : ReadRequest) : Nat := q.bytes.toNat

/-- The parameter checks of a read. -/
def ReadRequest.passes (q : ReadRequest) : Bool :=
  q.read && q.handle && (q.buffer || q.bytes == 0)

/-- After `fread`: the flag is looked at before the count. -/
def answer (error : Bool) (bytes : UInt32) (data : List UInt8) : ReadAnswer where
  result := if error then .fileBad else if data.length = bytes.toNat then .ok else .fileEof
  read := some (.ofNat data.length)
  data := data

def nfsmwFmodFileRead (s : Stream) (q : ReadRequest) : Stream × ReadAnswer :=
  if !q.read then (s, ⟨.invalidParam, none, []⟩)
  else if !q.handle || (!q.buffer && q.bytes != 0) then (s, ⟨.invalidParam, some 0, []⟩)
  else if q.bytes = 0 then (s, ⟨.ok, some 0, []⟩)
  else
    let (t, data) := s.fread q.asksFor q.fault
    (t, answer t.error q.bytes data)

def nfsmwFmodFileSeek (s : Stream) (handle : Bool) (position : UInt32) (succeeds : Bool) :
    Stream × FmodResult :=
  if !handle then (s, .invalidParam)
  else (s.fseek position.toNat succeeds, if succeeds then .ok else .couldNotSeek)

/-- A call on an open file. -/
inductive FileCall
  | read (q : ReadRequest)
  | seek (handle : Bool) (position : UInt32) (succeeds : Bool)

def FileCall.perform (s : Stream) : FileCall → Stream
  | .read q => (nfsmwFmodFileRead s q).1
  | .seek handle position succeeds => (nfsmwFmodFileSeek s handle position succeeds).1

def afterCalls (s : Stream) (calls : List FileCall) : Stream := calls.foldl FileCall.perform s

/-- A read that passes the checks succeeds exactly if it delivers all that is asked for, and
then delivers what comes next in the file. -/
def Honest (s : Stream) (q : ReadRequest) : Prop :=
  q.passes = true →
    let a := (nfsmwFmodFileRead s q).2
    (a.result = .ok ↔ a.read = some q.bytes) ∧
      (a.result = .ok → a.data = s.slice q.asksFor ∧ a.data.length = q.asksFor)

instance (s : Stream) (q : ReadRequest) : Decidable (Honest s q) :=
  inferInstanceAs (Decidable (_ → _ ∧ (_ → _ ∧ _)))

/-- The read gets to the device, and the device fails. -/
def Interrupted (s : Stream) (q : ReadRequest) : Prop :=
  q.passes = true ∧ s.Fails q.asksFor q.fault

instance (s : Stream) (q : ReadRequest) : Decidable (Interrupted s q) :=
  inferInstanceAs (Decidable (_ ∧ _))

/-! ## One read -/

section

variable {s : Stream} {q : ReadRequest}

theorem read_empty (hpass : q.passes = true) (hbytes : q.bytes = 0) :
    nfsmwFmodFileRead s q = (s, ⟨.ok, some 0, []⟩) := by
  simp only [ReadRequest.passes, Bool.and_eq_true] at hpass
  simp [nfsmwFmodFileRead, hpass, hbytes]

theorem read_passes (hpass : q.passes = true) (hbytes : q.bytes ≠ 0) :
    nfsmwFmodFileRead s q = ((s.fread q.asksFor q.fault).1,
      answer (s.fread q.asksFor q.fault).1.error q.bytes (s.fread q.asksFor q.fault).2) := by
  simp only [ReadRequest.passes, Bool.and_eq_true, Bool.or_eq_true, beq_iff_eq, hbytes,
    or_false] at hpass
  simp [nfsmwFmodFileRead, hpass, hbytes]

theorem read_refused (hpass : q.passes = false) : (nfsmwFmodFileRead s q).1 = s := by
  unfold nfsmwFmodFileRead
  split_ifs with hread hparams hbytes
  · rfl
  · rfl
  · rfl
  · simp_all [ReadRequest.passes]

/-- No more is delivered than is asked for. -/
theorem length_fread_le : (s.fread q.asksFor q.fault).2.length ≤ q.asksFor := by
  unfold Stream.fread
  split_ifs with hnone
  · exact Nat.zero_le _
  · split
    · simp only [List.length_take, Stream.length_slice]
      omega
    · simp only [Stream.length_slice]
      omega

theorem answer_result_ok {error : Bool} {bytes : UInt32} {data : List UInt8} :
    (answer error bytes data).result = .ok ↔ error = false ∧ data.length = bytes.toNat := by
  cases error
  · by_cases hdata : data.length = bytes.toNat <;> simp [answer, hdata]
  · simp [answer]

/-- The count says whether everything has been delivered. -/
theorem answer_read_all {error : Bool} :
    (answer error q.bytes (s.fread q.asksFor q.fault).2).read = some q.bytes ↔
      (s.fread q.asksFor q.fault).2.length = q.asksFor := by
  have hle : (s.fread q.asksFor q.fault).2.length ≤ q.asksFor := length_fread_le
  have hlt : q.asksFor < 2 ^ 32 := q.bytes.toNat_lt
  rw [answer, Option.some.injEq, ← UInt32.toNat_inj, UInt32.toNat_ofNat',
    Nat.mod_eq_of_lt (by omega), ReadRequest.asksFor]

/-- A device that delivers everything does not fail. -/
theorem not_fails_of_serves (h : s.Serves q.asksFor q.fault) : ¬ s.Fails q.asksFor q.fault :=
  fun hfails => hfails.2.2 h.2.2

/-- A read is honest unless it delivers everything from a stream whose flag is set. -/
theorem honest_iff (hpass : q.passes = true) :
    Honest s q ↔ (q.asksFor ≠ 0 → s.Serves q.asksFor q.fault → s.error = false) := by
  by_cases hbytes : q.bytes = 0
  · have hnone : q.asksFor = 0 := by rw [ReadRequest.asksFor, hbytes]; rfl
    simp [Honest, read_empty hpass hbytes, hbytes, hnone, Stream.slice]
  · have hsome : q.asksFor ≠ 0 := fun h => hbytes (UInt32.toNat_inj.mp h)
    have hflag : s.Serves q.asksFor q.fault →
        ((s.fread q.asksFor q.fault).1.error = false ↔ s.error = false) := by
      intro hserves
      have herror : (s.fread q.asksFor q.fault).1.error = true ↔
          s.error = true ∨ s.Fails q.asksFor q.fault := Stream.fread_error
      rw [or_iff_left (not_fails_of_serves hserves)] at herror
      rw [← Bool.not_eq_true, ← Bool.not_eq_true, herror]
    have hslice : s.Serves q.asksFor q.fault →
        (s.fread q.asksFor q.fault).2 = s.slice q.asksFor := Stream.fread_of_serves
    have hresult : (answer (s.fread q.asksFor q.fault).1.error q.bytes
          (s.fread q.asksFor q.fault).2).result = .ok ↔
        (s.fread q.asksFor q.fault).1.error = false ∧ s.Serves q.asksFor q.fault := by
      rw [answer_result_ok, ← Stream.length_fread hsome, ReadRequest.asksFor]
    unfold Honest
    rw [read_passes hpass hbytes]
    simp only [hresult, answer_read_all, Stream.length_fread hsome, hpass, forall_const]
    constructor
    · intro h _ hserves
      exact (hflag hserves).mp (h.1.mpr hserves).1
    · intro h
      refine ⟨⟨And.right, fun hserves => ⟨(hflag hserves).mpr (h hsome hserves), hserves⟩⟩, ?_⟩
      exact fun hboth => ⟨hslice hboth.2, (Stream.length_fread hsome).mpr hboth.2⟩

/-! ## Histories -/

/-- A call leaves the flag set exactly if it was set or the call has met a failing device. -/
theorem perform_error (call : FileCall) :
    (call.perform s).error = true ↔
      s.error = true ∨ ∃ q, call = .read q ∧ Interrupted s q := by
  cases call with
  | seek handle position succeeds =>
    have hsame : (FileCall.perform s (.seek handle position succeeds)).error = s.error := by
      simp only [FileCall.perform, nfsmwFmodFileSeek, Stream.fseek]
      split_ifs <;> rfl
    simp [hsame]
  | read q =>
    simp only [FileCall.perform, FileCall.read.injEq, exists_eq_left', Interrupted]
    by_cases hpass : q.passes = true
    · by_cases hbytes : q.bytes = 0
      · have hnone : q.asksFor = 0 := by rw [ReadRequest.asksFor, hbytes]; rfl
        simp [read_empty hpass hbytes, Stream.Fails, hnone]
      · rw [read_passes hpass hbytes, Stream.fread_error, and_iff_right hpass]
    · rw [read_refused (by simpa using hpass)]
      simp [hpass]

/-- The flag remembers every read that has met a failing device. -/
theorem afterCalls_error (calls : List FileCall) :
    (afterCalls s calls).error = true ↔
      s.error = true ∨ ∃ before q between, calls = before ++ .read q :: between ∧
        Interrupted (afterCalls s before) q := by
  induction calls generalizing s with
  | nil => simp [afterCalls]
  | cons call calls ih =>
    have hstep : afterCalls s (call :: calls) = afterCalls (call.perform s) calls := rfl
    rw [hstep, ih, perform_error, or_assoc]
    refine or_congr_right ?_
    constructor
    · rintro (⟨q, rfl, hq⟩ | ⟨before, q, between, rfl, hq⟩)
      · exact ⟨[], q, calls, rfl, hq⟩
      · exact ⟨call :: before, q, between, rfl, hq⟩
    · rintro ⟨before, q, between, hcalls, hq⟩
      cases before with
      | nil =>
        obtain ⟨rfl, -⟩ := List.cons.inj hcalls
        exact .inl ⟨q, rfl, hq⟩
      | cons first before =>
        obtain ⟨rfl, rfl⟩ := List.cons.inj hcalls
        exact .inr ⟨before, q, between, rfl, hq⟩

end

/-- An open file is read from its start, and nothing has failed yet. -/
theorem fileOpen_eq_ok {root : Option CString} {fopen : CString → Except Int32 (List UInt8)}
    {measures : Bool} {q : OpenRequest} {size : UInt32} {s : Stream}
    (h : nfsmwFmodFileOpen root fopen measures q = .ok (size, s)) :
    ∃ content, s = .opened content := by
  unfold nfsmwFmodFileOpen at h
  split at h
  · cases h
  · split_ifs at h
    split at h
    · cases h
    · split at h
      · cases h
      · split_ifs at h
        cases h
        exact ⟨_, rfl⟩

/-- All reads on an open file are honest exactly if, once a read has met a failing device,
every later read that asks for something cannot be served in full. -/
theorem reads_honest_iff (root : Option CString) (fopen : CString → Except Int32 (List UInt8))
    (measures : Bool) (q : OpenRequest) (size : UInt32) (s : Stream)
    (hopen : nfsmwFmodFileOpen root fopen measures q = .ok (size, s)) (calls : List FileCall) :
    (∀ earlier q later, calls = earlier ++ .read q :: later →
      Honest (afterCalls s earlier) q) ↔
    ∀ earlier q later, calls = earlier ++ .read q :: later →
      (∃ before q' between, earlier = before ++ .read q' :: between ∧
        Interrupted (afterCalls s before) q') →
      q.passes = true → q.asksFor ≠ 0 →
      ¬ (afterCalls s earlier).Serves q.asksFor q.fault := by
  obtain ⟨content, rfl⟩ := fileOpen_eq_ok hopen
  refine forall_congr' fun earlier => forall_congr' fun q => forall_congr' fun later =>
    forall_congr' fun _ => ?_
  have hflag := afterCalls_error (s := .opened content) earlier
  rw [or_iff_right (by simp [Stream.opened])] at hflag
  rw [← hflag]
  by_cases hpass : q.passes = true
  · rw [honest_iff hpass]
    constructor
    · intro h herror _ hasks hserves
      exact Bool.noConfusion ((h hasks hserves).symm.trans herror)
    · intro h hasks hserves
      by_contra herror
      exact h (by simpa using herror) hpass hasks hserves
  · exact iff_of_true (fun h => absurd h hpass) fun _ h => absurd h hpass

/-- Four of eight bytes are asked for. -/
def fourBytes (fault : Option Nat) : ReadRequest := ⟨true, true, true, 4, fault⟩

/-- The device fails once and is there again: the next read delivers its four bytes and says
that the file is bad. -/
theorem recovered_not_honest :
    ∃ s, nfsmwFmodFileOpen (some (cstr "/audio"))
        (fun _ => .ok [97, 98, 99, 100, 101, 102, 103, 104]) true
        ⟨some (cstr "sounds/ui/ui.fsb"), 0, true, true⟩ = .ok (8, s) ∧
      let calls := [.read (fourBytes (some 0)), .seek true 0 true, .read (fourBytes none)]
      ¬ ∀ earlier q later, calls = earlier ++ .read q :: later →
        Honest (afterCalls s earlier) q := by
  refine ⟨.opened [97, 98, 99, 100, 101, 102, 103, 104], by rfl, fun h => ?_⟩
  have hlast := h [.read (fourBytes (some 0)), .seek true 0 true] (fourBytes none) [] rfl
  revert hlast
  decide +kernel

/-- Eight bytes, on which the device fails in the second read; the third read asks for more than
the file still holds. -/
theorem reads_honest_iff_sample :
    let s := Stream.opened [97, 98, 99, 100, 101, 102, 103, 104]
    let calls := [.read (fourBytes none), .seek true 0 true, .read (fourBytes (some 2)),
      .seek true 6 true, .read (fourBytes none)]
    Interrupted (afterCalls s (calls.take 2)) (fourBytes (some 2)) ∧
      ∀ earlier q later, calls = earlier ++ .read q :: later →
        Honest (afterCalls s earlier) q := by
  refine ⟨by decide +kernel, (reads_honest_iff (some (cstr "/audio"))
    (fun _ => .ok [97, 98, 99, 100, 101, 102, 103, 104]) true
    ⟨some (cstr "sounds/ui/ui.fsb"), 0, true, true⟩ 8 _ rfl _).mpr ?_⟩
  intro earlier q later hcalls hearlier _ _
  rcases earlier with _ | ⟨c₁, _ | ⟨c₂, _ | ⟨c₃, _ | ⟨c₄, _ | ⟨c₅, earlier⟩⟩⟩⟩⟩
  all_goals simp at hcalls
  · simp at hearlier
  · obtain ⟨rfl, rfl, rfl, -⟩ := hcalls
    decide +kernel
  · obtain ⟨rfl, rfl, rfl, rfl, rfl, -⟩ := hcalls
    decide +kernel

end NfsmwRuntime.Fmod
