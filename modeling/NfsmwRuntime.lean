import NfsmwRuntime.Library.Bytes
import NfsmwRuntime.Library.Result
import NfsmwRuntime.Library.Memory
import NfsmwRuntime.Library.Command
import NfsmwRuntime.Library.Transition
import NfsmwRuntime.Library.Action
import NfsmwRuntime.Library.Contact
import NfsmwRuntime.Library.Interning
import NfsmwRuntime.Library.Search
import NfsmwRuntime.Library.Files
import NfsmwRuntime.Library.Keyed
import NfsmwRuntime.Library.Faults
import NfsmwRuntime.Library.Painting
import NfsmwRuntime.Library.Region
import NfsmwRuntime.Library.Stretch
import NfsmwRuntime.Library.Stdio
import NfsmwRuntime.Library.Arm
import NfsmwRuntime.Library.ArmCode
import NfsmwRuntime.Game.Loop
import NfsmwRuntime.Game.Effects
import NfsmwRuntime.Game.Touch
import NfsmwRuntime.Game.Keys
import NfsmwRuntime.Game.Motion
import NfsmwRuntime.Game.Input
import NfsmwRuntime.Display.Scaling
import NfsmwRuntime.Display.Tiling
import NfsmwRuntime.Display.Cursor
import NfsmwRuntime.Obb.Index
import NfsmwRuntime.Obb.Archive
import NfsmwRuntime.Obb.EndRecord
import NfsmwRuntime.Obb.Prefix
import NfsmwRuntime.Obb.Memory
import NfsmwRuntime.Obb.Listing
import NfsmwRuntime.Obb.Lookup
import NfsmwRuntime.Obb.Children
import NfsmwRuntime.Jni.Objects
import NfsmwRuntime.Jni.ObjectMethods
import NfsmwRuntime.Jni.ValueMethods
import NfsmwRuntime.Jni.Assets
import NfsmwRuntime.Jni.Arrays
import NfsmwRuntime.Jni.Registry
import NfsmwRuntime.Compat.Mutex
import NfsmwRuntime.Compat.Atexit
import NfsmwRuntime.Compat.Signals
import NfsmwRuntime.Compat.Setjmp
import NfsmwRuntime.Launch.Graphics
import NfsmwRuntime.Launch.Audio
import NfsmwRuntime.Launch.Staging
import NfsmwRuntime.Fmod.Path
import NfsmwRuntime.Fmod.FileSystem
import NfsmwRuntime.Loader.Elf
import NfsmwRuntime.Loader.Map
import NfsmwRuntime.Loader.LoadImage
import NfsmwRuntime.Loader.Relocate
import NfsmwRuntime.Loader.Reference
import NfsmwRuntime.Loader.MappedHeaders
import NfsmwRuntime.Loader.Strings
import NfsmwRuntime.Loader.Pages
import NfsmwRuntime.Loader.Accesses
import NfsmwRuntime.Loader.FileTables
import NfsmwRuntime.Loader.Gaps
import NfsmwRuntime.Loader.Restore
import NfsmwRuntime.Loader.Lifecycle
import NfsmwRuntime.Jni.AppPatch
import NfsmwRuntime.Jni.Text
import NfsmwRuntime.Game.Cursor
import NfsmwRuntime.Game.Idle
import NfsmwRuntime.Symbols.Lookup
import NfsmwRuntime.Symbols.Census
import NfsmwRuntime.Install.Identity
import NfsmwRuntime.Install.Paths
import NfsmwRuntime.Install.Transaction
import NfsmwRuntime.Install.Planning
import NfsmwRuntime.Install.Recovery
import NfsmwRuntime.Install.Commit
import NfsmwRuntime.Install.Sessions
import NfsmwRuntime.Install.Acceptance
import NfsmwRuntime.Install.Limits
import NfsmwRuntime.Audio.Output
import NfsmwRuntime.Audio.Backlog
import NfsmwRuntime.Audio.Player
import NfsmwRuntime.Library.Checksums
import NfsmwRuntime.Install.Staging
import NfsmwRuntime.Install.Extraction
import NfsmwRuntime.Install.Resuming
