import NfsmwRuntime.Audio.Output

/-!
# What the player answers to

Three of the ways in which a program stops its sound reach no device. Pausing and stopping are
remembered and looked at by nobody, and clearing the queue leaves it as it is. What ends the calls
of the guest is that the player is destroyed.
-/

namespace NfsmwRuntime.Audio

open Library

variable {s t : Output} {calls : List Call}

/-! ## Pause, stop and clear -/

/-- The calls that are not `SetPlayState` or `Clear`. -/
def Call.heard : Call → Bool
  | .setPlayState _ | .clear => false
  | _ => true

def Output.withPlayState (state : UInt32) (s : Output) : Output := { s with playState := state }

theorem Output.audioStart_withPlayState (opens : Bool) (frequency : Int) (channels : UInt8)
    (state : UInt32) (s : Output) :
    (s.withPlayState state).audioStart opens frequency channels =
      ((s.audioStart opens frequency channels).1.withPlayState state,
        (s.audioStart opens frequency channels).2) := by
  grind [audioStart, withPlayState]

theorem Output.audioQueue_withPlayState (accepts buffer : Bool) (size state : UInt32)
    (s : Output) : (s.withPlayState state).audioQueue accepts buffer size =
      ((s.audioQueue accepts buffer size).1.withPlayState state,
        (s.audioQueue accepts buffer size).2) := by
  grind [audioQueue, withPlayState]

theorem Output.trackFrame_withPlayState (a : Answers) (state : UInt32) (s : Output) :
    (s.withPlayState state).trackFrame a = (s.trackFrame a).map (withPlayState state) := by
  have hstart : (s.withPlayState state).trackStart a =
      (s.trackStart a).map (withPlayState state) := by
    grind [trackStart, audioStart_withPlayState, withPlayState]
  have hpull : ∀ r : Output, (r.withPlayState state).trackPull a =
      (r.trackPull a).map (withPlayState state) := by
    intro r
    grind [trackPull, audioQueue_withPlayState, withPlayState, audioQueued, queued]
  rw [trackFrame, hstart, trackFrame]
  cases s.trackStart a with
  | none => rfl
  | some r => exact hpull r

theorem Output.step_withPlayState {call : Call} (hcall : call.heard = true) (state : UInt32)
    (s : Output) :
    (s.withPlayState state).step call = (s.step call).map (withPlayState state) := by
  cases call with
  | createAudioPlayer player format opens =>
    grind [step, engineCreateAudioPlayer, audioStart_withPlayState]
  | destroy self => grind [step, objectDestroy, withPlayState]
  | setPlayState state => cases hcall
  | enqueue accepts buffer size =>
    grind [step, queueEnqueue, audioQueue_withPlayState, withPlayState]
  | clear => cases hcall
  | registerCallback callback context => rfl
  | pump => grind [step, pump, Pumps, withPlayState, audioQueued, queued]
  | callbackReturns => grind [step, withPlayState]
  | frame answers => grind [step, trackFrame_withPlayState, withPlayState]
  | drain bytes => rfl

/-- Leaving every pause, stop and clear out of a run changes nothing of what is played, nor when
the guest is called. -/
theorem run_heard (hrun : outputMachine.run s calls = some t) :
    outputMachine.run s (calls.filter Call.heard) = some (t.withPlayState s.playState) := by
  refine Machine.run_filter (M := outputMachine) (fun m call n hcall hstep => ?_)
    (fun m _ hcall => m.step_withPlayState hcall s.playState) hrun
  cases call <;> cases hcall
  all_goals
    obtain rfl := Option.some.inj hstep
    rfl

theorem run_heard_sample :
    outputMachine.run Output.initial [.createAudioPlayer true none true, .registerCallback 7 3,
        .enqueue true true 4096, .pump] =
      some ⟨true, some ⟨44100, 2, 4096⟩, 7, 3, 4096, 1, true, false, 0⟩ :=
  @run_heard Output.initial ⟨true, some ⟨44100, 2, 4096⟩, 7, 3, 4096, 2, true, false, 0⟩
    [.createAudioPlayer true none true, .registerCallback 7 3, .setPlayState 3,
      .enqueue true true 4096, .setPlayState 2, .clear, .pump] (by decide +kernel)

/-! ## A player that was destroyed -/

/-- A step keeps what is registered, clears it, or is the call that registers it. -/
theorem registered_step {call : Call} (hstep : s.step call = some t) :
    (t.queueCallback = s.queueCallback ∨ t.queueCallback = 0 ∨
      ∃ context, call = .registerCallback t.queueCallback context) ∧
    (t.queueBufferSize = s.queueBufferSize ∨ t.queueBufferSize = 0 ∨
      call = .enqueue true true t.queueBufferSize) := by
  cases call with
  | registerCallback callback context =>
    obtain rfl := Option.some.inj hstep
    exact ⟨.inr (.inr ⟨context, rfl⟩), .inl rfl⟩
  | createAudioPlayer player format opens =>
    grind [Output.step, Output.engineCreateAudioPlayer, Output.audioStart]
  | enqueue accepts buffer size => grind [Output.step, Output.queueEnqueue, Output.audioQueue]
  | frame answers =>
    grind [Output.step, Output.trackFrame, Output.trackStart, Output.trackPull, Output.audioStart,
      Output.audioQueue]
  | destroy self => grind [Output.step, Output.objectDestroy]
  | pump => grind [Output.step, Output.pump]
  | setPlayState _ | clear | callbackReturns | drain _ =>
    grind [Output.step, Output.playSetState, Output.queueClear, Output.drain]

end NfsmwRuntime.Audio
