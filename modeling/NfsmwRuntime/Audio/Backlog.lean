import Mathlib.Algebra.Order.Ring.Nat
import NfsmwRuntime.Audio.Output

/-!
# How far the output may be ahead

Each of the two parts that feed the device looks at what it has still to play before it brings
more. So the device is never further ahead than the room that one of them leaves and the most that
it brings at once, as long as the guest queues one buffer for each call that it gets.
-/

namespace NfsmwRuntime.Audio

open Library

/-! ## What each operation does to the device -/

namespace Output

variable {s t : Output} {a : Answers}

theorem audioQueued_le {n : UInt32} (hs : s.queued < 2 ^ 32) (h : s.audioQueued ≤ n) :
    s.queued ≤ n.toNat := by
  rwa [audioQueued, UInt32.le_iff_toNat_le, Nat.toUInt32_eq, UInt32.toNat_ofNat',
    Nat.mod_eq_of_lt hs] at h

/-- Opening the device queues nothing. -/
theorem audioStart_eq (opens : Bool) (frequency : Int) (channels : UInt8) (s : Output) :
    ∃ device, (s.audioStart opens frequency channels).1 = { s with device } ∧
      (device.map Device.queued).getD 0 = s.queued := by
  unfold audioStart
  split_ifs with hstarted hdevice hopens
  · exact ⟨s.device, rfl, rfl⟩
  · exact ⟨s.device, rfl, rfl⟩
  · refine ⟨_, rfl, ?_⟩
    rw [queued, Option.not_isSome_iff_eq_none.mp hdevice]
    rfl
  · exact ⟨s.device, rfl, rfl⟩

/-- A buffer is queued whole, or nothing changes. -/
theorem audioQueue_eq (accepts buffer : Bool) (size : UInt32) (s : Output) :
    s.audioQueue accepts buffer size = (s, false) ∨
    ∃ device, s.audioQueue accepts buffer size = ({ s with device }, true) ∧
      (device.map Device.queued).getD 0 = s.queued + size.toNat := by
  unfold audioQueue
  split
  · exact .inl rfl
  · rename_i d hd
    split_ifs
    · exact .inl rfl
    · exact .inr ⟨_, rfl, by simp [queued, hd]⟩
    · exact .inl rfl

theorem engineCreateAudioPlayer_eq (player : Bool) (format : Option PcmFormat) (opens : Bool)
    (s : Output) : ∃ device, (s.engineCreateAudioPlayer player format opens).1 = { s with device } ∧
      (device.map Device.queued).getD 0 = s.queued := by
  unfold engineCreateAudioPlayer
  split_ifs with hplayer
  · exact ⟨s.device, rfl, rfl⟩
  · exact s.audioStart_eq _ _ _

theorem queueEnqueue_eq (accepts buffer : Bool) (size : UInt32) (s : Output) :
    s.queueEnqueue accepts buffer size = (s, 13) ∨
    ∃ device, s.queueEnqueue accepts buffer size =
        ({ s with device, queueBufferSize := size }, SL_SUCCESS) ∧
      (device.map Device.queued).getD 0 = s.queued + size.toNat := by
  unfold queueEnqueue
  obtain heq | ⟨device, heq, hqueued⟩ := s.audioQueue_eq accepts buffer size
  · exact .inl (by rw [heq]; rfl)
  · exact .inr ⟨device, by rw [heq]; rfl, hqueued⟩

/-- The mixer's chunk is chosen once, from a format that was checked. -/
theorem trackStart_eq (h : s.trackStart a = some t) : t = s ∨ ∃ device,
      t = { s with
        device, trackStarted := true, trackBufferSize := a.dspLength.toUInt32 * 4 } ∧
      a.Valid ∧ (device.map Device.queued).getD 0 = s.queued := by
  obtain ⟨device, heq, hqueued⟩ := s.audioStart_eq a.opens a.sampleRate.toInt 2
  unfold trackStart at h
  dsimp only at h
  split_ifs at h with hasked hplayed
  · rw [heq] at h
    exact .inr ⟨device, (Option.some.inj h).symm, hplayed.1, hqueued⟩
  · exact .inl (Option.some.inj h).symm

theorem trackPull_eq (h : s.trackPull a = some t) : t = s ∨
    s.audioQueued ≤ s.trackBufferSize * 2 ∧ ∃ device, t = { s with device } ∧
      (device.map Device.queued).getD 0 = s.queued + s.trackBufferSize.toNat := by
  unfold trackPull at h
  split_ifs at h with hroom
  · obtain heq | ⟨device, heq, hqueued⟩ := s.audioQueue_eq a.accepts true s.trackBufferSize
    · simp [heq] at h
    · simp only [heq, if_true] at h
      exact .inr ⟨hroom.2.2, device, (Option.some.inj h).symm, hqueued⟩
  · exact .inl (Option.some.inj h).symm

end Output

/-! ## Runs in which the guest keeps to its buffers -/

/-- The output, and whether the guest has queued a buffer since it was called back. -/
structure Watched where
  output : Output
  filled : Bool
  deriving DecidableEq, Repr

def Watched.filledAfter (w : Watched) : Call → Bool
  | .pump => if w.output.Pumps then false else w.filled
  | .enqueue accepts buffer size =>
    w.filled || (w.output.queueEnqueue accepts buffer size).2 == SL_SUCCESS
  | _ => w.filled

def Watched.step (w : Watched) (call : Call) : Option Watched :=
  (w.output.step call).map fun s => ⟨s, w.filledAfter call⟩

def watchedMachine : Machine Watched Call := ⟨Watched.step⟩

def Watched.initial : Watched := ⟨Output.initial, false⟩

/-- Buffers are not larger than this. One is queued in each callback, and elsewhere as many as the
device has room for two. -/
def Disciplined (B : Nat) (w : Watched) : Call → Prop
  | .enqueue _ _ size => size.toNat ≤ B ∧
      if w.output.callbackActive then w.filled = false else w.output.queued + size.toNat ≤ 2 * B
  | _ => True

instance (B : Nat) (w : Watched) : (call : Call) → Decidable (Disciplined B w call)
  | .enqueue _ _ _ => inferInstanceAs (Decidable (_ ∧ _))
  | .createAudioPlayer _ _ _ | .destroy _ | .setPlayState _ | .clear | .registerCallback _ _
  | .pump | .callbackReturns | .frame _ | .drain _ => inferInstanceAs (Decidable True)

/-- The most that FMOD's chunks have: 16384 frames of four bytes. -/
def CHUNK_LIMIT : Nat := 65536

theorem Answers.Valid.chunk_le {a : Answers} (h : a.Valid) :
    (a.dspLength.toUInt32 * 4).toNat ≤ CHUNK_LIMIT := by
  obtain ⟨-, hmin, hmax, -⟩ := h
  have hframes : a.dspLength.toUInt32.toNat ≤ 16384 := by
    rw [← show (16384 : Int32).toUInt32.toNat = 16384 by decide, ← UInt32.le_iff_toNat_le]
    exact Int32.toUInt32_le (Int32.le_trans (by decide) hmin) hmax
  rw [UInt32.toNat_mul, Nat.mod_eq_of_lt]
  all_goals
    simp only [CHUNK_LIMIT, show (4 : UInt32).toNat = 4 from rfl]
    omega

structure Bounded (B : Nat) (w : Watched) : Prop where
  backlog : w.output.queued ≤ max (3 * CHUNK_LIMIT) (2 * B)
  room : w.output.callbackActive = true → w.filled = false → w.output.queued ≤ B
  buffer : w.output.queueBufferSize.toNat ≤ B
  chunk : w.output.trackBufferSize.toNat ≤ CHUNK_LIMIT

namespace Bounded

variable {B : Nat} {w v : Watched} {call : Call}

/-- What a call keeps that brings nothing to the device. -/
theorem of_le (h : Bounded B w) (hqueued : v.output.queued ≤ w.output.queued)
    (hactive : v.output.callbackActive = true → v.filled = false →
      w.output.callbackActive = true ∧ w.filled = false)
    (hbuffer : v.output.queueBufferSize.toNat ≤ B)
    (hchunk : v.output.trackBufferSize.toNat ≤ CHUNK_LIMIT) : Bounded B v where
  backlog := hqueued.trans h.backlog
  room ha hf := hqueued.trans (h.room (hactive ha hf).1 (hactive ha hf).2)
  buffer := hbuffer
  chunk := hchunk

theorem queued_lt (h : Bounded B w) (hB : B < 2 ^ 31) : w.output.queued < 2 ^ 32 := by
  have hmax := h.backlog
  simp only [CHUNK_LIMIT] at hmax
  omega

/-- The callback is called when the device has no more to play than the buffer before. -/
theorem pump (h : Bounded B w) (hB : B < 2 ^ 31) (hstep : w.step .pump = some v) :
    Bounded B v := by
  obtain rfl := Option.some.inj hstep
  by_cases hpumps : w.output.Pumps
  · have hroom : w.output.queued ≤ B :=
      (Output.audioQueued_le (h.queued_lt hB) hpumps.2.2.2).trans h.buffer
    simp only [Output.pump, if_pos hpumps]
    exact ⟨h.backlog, fun _ _ => hroom, h.buffer, h.chunk⟩
  · simp only [Output.pump, Watched.filledAfter, if_neg hpumps]
    exact h

theorem enqueue {accepts buffer : Bool} {size : UInt32} (h : Bounded B w)
    (hd : Disciplined B w (.enqueue accepts buffer size))
    (hstep : w.step (.enqueue accepts buffer size) = some v) : Bounded B v := by
  obtain ⟨hsize, hturn⟩ := hd
  obtain rfl := Option.some.inj hstep
  obtain heq | ⟨device, heq, hqueued⟩ := w.output.queueEnqueue_eq accepts buffer size
  · simp only [Watched.filledAfter, heq]
    exact h.of_le le_rfl (by simp +contextual) h.buffer h.chunk
  · have hle : w.output.queued + size.toNat ≤ 2 * B := by
      split_ifs at hturn with hactive
      · have := h.room hactive hturn
        omega
      · exact hturn
    simp only [Watched.filledAfter, heq]
    refine ⟨?_, fun _ hfilled => ?_, hsize, h.chunk⟩
    · exact hqueued.trans_le (hle.trans (le_max_right _ _))
    · simp at hfilled

theorem frame {a : Answers} (h : Bounded B w) (hB : B < 2 ^ 31)
    (hstep : w.step (.frame a) = some v) : Bounded B v := by
  obtain ⟨t, hframe, rfl⟩ := Option.map_eq_some_iff.mp hstep
  by_cases hactive : w.output.callbackActive = true
  · simp [Output.step, hactive] at hframe
  rw [Output.step, if_neg hactive, Output.trackFrame] at hframe
  obtain ⟨s, hstart, hpull⟩ := Option.bind_eq_some_iff.mp hframe
  have hs : Bounded B ⟨s, w.filled⟩ := by
    obtain rfl | ⟨device, rfl, hvalid, hqueued⟩ := Output.trackStart_eq hstart
    · exact h
    · exact h.of_le hqueued.le (fun ha hf => ⟨ha, hf⟩) h.buffer hvalid.chunk_le
  have hidle : ¬s.callbackActive = true := by
    obtain rfl | ⟨device, rfl, -⟩ := Output.trackStart_eq hstart <;> exact hactive
  obtain rfl | ⟨hroom, device, rfl, hqueued⟩ := Output.trackPull_eq hpull
  · exact hs
  · refine ⟨?_, fun ha => absurd ha hidle, hs.buffer, hs.chunk⟩
    have hle := Output.audioQueued_le (hs.queued_lt hB) hroom
    have hchunk := hs.chunk
    rw [UInt32.toNat_mul] at hle
    simp only [CHUNK_LIMIT] at hchunk
    exact hqueued.trans_le (le_max_of_le_left (by simp only [CHUNK_LIMIT]; grind))

theorem step (hB : B < 2 ^ 31) (h : Bounded B w) (hd : Disciplined B w call)
    (hstep : w.step call = some v) : Bounded B v := by
  cases call with
  | createAudioPlayer player format opens =>
    obtain rfl := Option.some.inj hstep
    obtain ⟨device, heq, hqueued⟩ := w.output.engineCreateAudioPlayer_eq player format opens
    rw [heq]
    exact h.of_le hqueued.le (fun ha hf => ⟨ha, hf⟩) h.buffer h.chunk
  | destroy self =>
    obtain rfl := Option.some.inj hstep
    rw [Output.objectDestroy]
    split_ifs
    · exact h.of_le le_rfl (fun ha hf => ⟨ha, hf⟩) (Nat.zero_le B) h.chunk
    · exact h
  | setPlayState state =>
    obtain rfl := Option.some.inj hstep
    exact h.of_le le_rfl (fun ha hf => ⟨ha, hf⟩) h.buffer h.chunk
  | enqueue accepts buffer size => exact h.enqueue hd hstep
  | clear =>
    obtain rfl := Option.some.inj hstep
    exact h
  | registerCallback callback context =>
    obtain rfl := Option.some.inj hstep
    exact h.of_le le_rfl (fun ha hf => ⟨ha, hf⟩) h.buffer h.chunk
  | pump => exact h.pump hB hstep
  | callbackReturns =>
    obtain ⟨t, hreturn, rfl⟩ := Option.map_eq_some_iff.mp hstep
    obtain ⟨-, heq⟩ := Option.ite_none_right_eq_some.mp hreturn
    obtain rfl := Option.some.inj heq
    exact ⟨h.backlog, by simp, h.buffer, h.chunk⟩
  | frame answers => exact h.frame hB hstep
  | drain bytes =>
    obtain rfl := Option.some.inj hstep
    have hle : (w.output.drain bytes).queued ≤ w.output.queued := by
      simp only [Output.queued, Output.drain]
      cases w.output.device <;> simp
    exact h.of_le hle (fun ha hf => ⟨ha, hf⟩) h.buffer h.chunk

theorem initial : Bounded B Watched.initial := by
  constructor <;> simp [Watched.initial, Output.initial, Output.queued, CHUNK_LIMIT]

end Bounded

/-- A player with buffers of 4096 bytes, and a mixer with chunks of as many. -/
def sampleCalls : List Call :=
  [.createAudioPlayer true (some ⟨2, 44100000⟩) true, .registerCallback 7 0,
    .enqueue true true 4096, .enqueue true true 4096, .setPlayState 3,
    .frame ⟨48000, 1024, 4, 1, true, true, true⟩, .drain 9000, .pump,
    .enqueue true true 4096, .callbackReturns,
    .frame ⟨48000, 1024, 4, 1, true, true, true⟩]

/-- The player itself refuses no buffer: a guest that does not wait for its turn gets as far ahead
as it likes. -/
theorem backlog_unbounded (n : Nat) : ∃ calls s,
    outputMachine.run Output.initial calls = some s ∧ s.queued = n := by
  have hrun : ∀ (k : Nat) (s : Output) (d : Device), s.device = some d →
      ∃ t, outputMachine.run s (List.replicate k (.enqueue true true 1)) = some t ∧
        t.queued = d.queued + k := by
    intro k
    induction k with
    | zero => exact fun s d hd => ⟨s, rfl, by simp [Output.queued, hd]⟩
    | succ k ih =>
      intro s d hd
      obtain ⟨t, ht, hqueued⟩ := ih (s.queueEnqueue true true 1).1 { d with queued := d.queued + 1 }
        (by simp [Output.queueEnqueue, Output.audioQueue, hd])
      exact ⟨t, ht, by rw [hqueued]; simp only; omega⟩
  obtain ⟨t, ht, hqueued⟩ := hrun n (Output.initial.audioStart true 44100 2).1 ⟨44100, 2, 0⟩ rfl
  exact ⟨.createAudioPlayer true none true :: List.replicate n (.enqueue true true 1), t, ht,
    by simpa using hqueued⟩

end NfsmwRuntime.Audio
