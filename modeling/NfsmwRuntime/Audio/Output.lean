import Mathlib.Tactic.SplitIfs
import NfsmwRuntime.Library.Transition

/-!
# The sound output

Two parts of the runtime feed one SDL device. The OpenSL player calls the guest back for a buffer
when the device has no more to play than the last one, and the loop of frames pulls PCM from
FMOD's mixer when it has no more than two chunks. The device plays on its own.
-/

namespace NfsmwRuntime.Audio

open Library

/-! ## The device -/

/-- What was asked of SDL when it opened the device, and the bytes that it has not played. -/
structure Device where
  frequency : Int
  channels : UInt8
  queued : Nat
  deriving DecidableEq, Repr

/-- The device, the player of `opensl_bridge.c`, and what the loop of frames knows of FMOD. -/
structure Output where
  started : Bool
  device : Option Device
  queueCallback : UInt32
  queueContext : UInt32
  queueBufferSize : UInt32
  playState : UInt32
  callbackActive : Bool
  trackStarted : Bool
  trackBufferSize : UInt32
  deriving DecidableEq, Repr

namespace Output

/-- `nfsmw_platform_runtime_audio_start`. A device that is open stays as it is. -/
def audioStart (opens : Bool) (frequency : Int) (channels : UInt8) (s : Output) : Output × Bool :=
  if s.started = false then (s, false)
  else if s.device.isSome then (s, true)
  else if opens then ({ s with device := some ⟨frequency, channels, 0⟩ }, true)
  else (s, false)

/-- `nfsmw_platform_runtime_audio_queue`, of a buffer that SDL may refuse. -/
def audioQueue (accepts buffer : Bool) (size : UInt32) (s : Output) : Output × Bool :=
  match s.device with
  | none => (s, false)
  | some d =>
    if buffer = false ∨ size = 0 then (s, false)
    else if accepts then
      ({ s with device := some { d with queued := d.queued + size.toNat } }, true)
    else (s, false)

def queued (s : Output) : Nat := (s.device.map Device.queued).getD 0

/-- `nfsmw_platform_runtime_audio_queued` -/
def audioQueued (s : Output) : UInt32 := s.queued.toUInt32

end Output

/-! ## The player -/

inductive SlObject
  | engine
  | mix
  | player
  deriving DecidableEq, Repr

structure PcmFormat where
  channels : UInt32
  samplesPerSecond : UInt32
  deriving DecidableEq, Repr

/-- The frequency that is asked of SDL. OpenSL counts in millihertz. -/
def PcmFormat.frequency (format : Option PcmFormat) : Int :=
  match format with
  | none => 44100
  | some f => if 1000 ≤ f.samplesPerSecond then (f.samplesPerSecond / 1000).toNat else 44100

def PcmFormat.channelCount (format : Option PcmFormat) : UInt8 :=
  match format with
  | none => 2
  | some f => if 1 ≤ f.channels ∧ f.channels ≤ 2 then f.channels.toUInt8 else 2

def SL_SUCCESS : UInt32 := 0

namespace Output

def engineCreateAudioPlayer (player : Bool) (format : Option PcmFormat) (opens : Bool)
    (s : Output) : Output × UInt32 :=
  if player = false then (s, 13)
  else
    let result := s.audioStart opens (PcmFormat.frequency format) (PcmFormat.channelCount format)
    (result.1, if result.2 then SL_SUCCESS else 13)

def objectDestroy (self : SlObject) (s : Output) : Output :=
  if self = .player then { s with queueCallback := 0, queueContext := 0, queueBufferSize := 0 }
  else s

def playSetState (state : UInt32) (s : Output) : Output × UInt32 :=
  ({ s with playState := state }, SL_SUCCESS)

def queueEnqueue (accepts buffer : Bool) (size : UInt32) (s : Output) : Output × UInt32 :=
  let result := s.audioQueue accepts buffer size
  if result.2 then ({ result.1 with queueBufferSize := size }, SL_SUCCESS) else (result.1, 13)

def queueClear (s : Output) : Output × UInt32 := (s, SL_SUCCESS)

/-- The number of buffers that `GetState` reports. -/
def queueGetState (s : Output) : UInt32 := if s.audioQueued ≠ 0 then 1 else 0

def queueRegisterCallback (callback context : UInt32) (s : Output) : Output × UInt32 :=
  ({ s with queueCallback := callback, queueContext := context }, SL_SUCCESS)

/-- `nfsmw_opensl_pump` calls the guest back. -/
def Pumps (s : Output) : Prop :=
  s.queueCallback ≠ 0 ∧ s.queueBufferSize ≠ 0 ∧ s.callbackActive = false ∧
    s.audioQueued ≤ s.queueBufferSize

instance (s : Output) : Decidable s.Pumps :=
  inferInstanceAs (Decidable (_ ∧ _ ∧ _ ∧ _))

/-- `nfsmw_opensl_pump`, up to the call of the guest. -/
def pump (s : Output) : Output := if s.Pumps then { s with callbackActive := true } else s

/-! ## FMOD's mixer -/

end Output

/-- What `fmodGetInfo` answers in a frame, and how the host's calls end. -/
structure Answers where
  sampleRate : Int32
  dspLength : Int32
  dspBuffers : Int32
  mixerRunning : Int32
  allocates : Bool
  opens : Bool
  accepts : Bool
  deriving DecidableEq, Repr

/-- The formats that are played. -/
def Answers.Valid (a : Answers) : Prop :=
  a.sampleRate ≤ 192000 ∧ 64 ≤ a.dspLength ∧ a.dspLength ≤ 16384 ∧ 1 ≤ a.dspBuffers ∧
    a.dspBuffers ≤ 32

instance (a : Answers) : Decidable a.Valid :=
  inferInstanceAs (Decidable (_ ∧ _ ∧ _ ∧ _ ∧ _))

namespace Output

/-- The format is asked for until the mixer has one. -/
def trackStart (a : Answers) (s : Output) : Option Output :=
  if s.trackStarted = false ∧ 0 < a.sampleRate then
    if a.Valid ∧ a.allocates then
      let result := s.audioStart a.opens a.sampleRate.toInt 2
      if result.2 then
        some { result.1 with
          trackStarted := true, trackBufferSize := a.dspLength.toUInt32 * 4 }
      else none
    else none
  else some s

/-- A chunk is pulled if there is room for it. -/
def trackPull (a : Answers) (s : Output) : Option Output :=
  if s.trackStarted ∧ a.mixerRunning = 1 ∧ s.audioQueued ≤ s.trackBufferSize * 2 then
    let result := s.audioQueue a.accepts true s.trackBufferSize
    if result.2 then some result.1 else none
  else some s

/-- The sound of one frame of the loop, which gives up when it fails. -/
def trackFrame (a : Answers) (s : Output) : Option Output := (s.trackStart a).bind (trackPull a)

/-- The device plays. -/
def drain (bytes : Nat) (s : Output) : Output :=
  { s with device := s.device.map fun d => { d with queued := d.queued - bytes } }

end Output

/-! ## Runs -/

/-- What can happen next. The loop of frames waits for the callback that it has called, which may
call the player in turn. -/
inductive Call
  | createAudioPlayer (player : Bool) (format : Option PcmFormat) (opens : Bool)
  | destroy (self : SlObject)
  | setPlayState (state : UInt32)
  | enqueue (accepts buffer : Bool) (size : UInt32)
  | clear
  | registerCallback (callback context : UInt32)
  | pump
  | callbackReturns
  | frame (answers : Answers)
  | drain (bytes : Nat)
  deriving DecidableEq, Repr

def Output.step (s : Output) : Call → Option Output
  | .createAudioPlayer player format opens => some (s.engineCreateAudioPlayer player format opens).1
  | .destroy self => some (s.objectDestroy self)
  | .setPlayState state => some (s.playSetState state).1
  | .enqueue accepts buffer size => some (s.queueEnqueue accepts buffer size).1
  | .clear => some s.queueClear.1
  | .registerCallback callback context => some (s.queueRegisterCallback callback context).1
  | .pump => some s.pump
  | .callbackReturns => if s.callbackActive then some { s with callbackActive := false } else none
  | .frame answers => if s.callbackActive then none else s.trackFrame answers
  | .drain bytes => some (s.drain bytes)

def outputMachine : Machine Output Call := ⟨Output.step⟩

/-- The process when the platform has started. -/
def Output.initial : Output where
  started := true
  device := none
  queueCallback := 0
  queueContext := 0
  queueBufferSize := 0
  playState := 1
  callbackActive := false
  trackStarted := false
  trackBufferSize := 0

end NfsmwRuntime.Audio
