import NfsmwRuntime.Loader.Reference

/-!
# Symbol providers

`relocation_lookup` asks one provider after the other for an undefined symbol: the images
that are already relocated, the compiler's helpers, the soft-float thunks, the runtime's own
replacements and the host's libraries. The names whose calling convention or data layout
differs between guest and host never get as far as the host.
-/

namespace NfsmwRuntime.Symbols

open Library Loader

/-! ## Providers -/

/-- Where the runtime's own functions and objects are. No function or object is at 0. -/
structure Runtime where
  address : String → UInt32
  address_ne_zero : ∀ symbol, address symbol ≠ 0

/-- What the host has: the default symbols, those of each library that could be opened, and
`eglGetProcAddress` if it was found. -/
structure HostEnvironment where
  dlsymDefault : CString → UInt32
  handles : List (CString → UInt32)
  eglGetProcAddress : Option (CString → UInt32)

/-- The addresses of a chain of name comparisons, tried in order. -/
def resolveIn (runtime : Runtime) (table : List (String × String)) (name : CString) : UInt32 :=
  match table.find? fun entry => cstr entry.1 == name with
  | some entry => runtime.address entry.2
  | none => 0

def inList (name : CString) (names : List String) : Bool :=
  names.any fun entry => cstr entry == name

def aeabiSymbols : List (String × String) :=
  ["__aeabi_uidiv", "__aeabi_ui2d", "__aeabi_uidivmod", "__aeabi_uldivmod", "__aeabi_dmul",
    "__aeabi_dcmplt", "__aeabi_f2d", "__aeabi_ul2d", "__aeabi_idivmod", "__aeabi_idiv",
    "__aeabi_dadd"].map fun symbol => (symbol, symbol)

def aeabiLookup (runtime : Runtime) : CString → UInt32 := resolveIn runtime aeabiSymbols

/-- The thunk table of `softfp_symbols.c`. -/
def softfpSymbols : List (String × String) :=
  [("glBlendColor", "nfsmw_glBlendColor"), ("glClearColor", "nfsmw_glClearColor"),
    ("glClearDepthf", "nfsmw_glClearDepthf"), ("glDepthRangef", "nfsmw_glDepthRangef"),
    ("glLineWidth", "nfsmw_glLineWidth"), ("glPolygonOffset", "nfsmw_glPolygonOffset"),
    ("glSampleCoverage", "nfsmw_glSampleCoverage"),
    ("glTexParameterf", "nfsmw_glTexParameterf"), ("glUniform1f", "nfsmw_glUniform1f"),
    ("glUniform2f", "nfsmw_glUniform2f"), ("glUniform3f", "nfsmw_glUniform3f"),
    ("glUniform4f", "nfsmw_glUniform4f"), ("glVertexAttrib1f", "nfsmw_glVertexAttrib1f"),
    ("glVertexAttrib2f", "nfsmw_glVertexAttrib2f"),
    ("glVertexAttrib3f", "nfsmw_glVertexAttrib3f"),
    ("glVertexAttrib4f", "nfsmw_glVertexAttrib4f"), ("acos", "nfsmw_acos"),
    ("acosf", "nfsmw_acosf"), ("asinf", "nfsmw_asinf"), ("atan2", "nfsmw_atan2"),
    ("atan2f", "nfsmw_atan2f"), ("ceil", "nfsmw_ceil"), ("ceilf", "nfsmw_ceilf"),
    ("cos", "nfsmw_cos"), ("cosf", "nfsmw_cosf"), ("exp", "nfsmw_exp"), ("expf", "nfsmw_expf"),
    ("floor", "nfsmw_floor"), ("floorf", "nfsmw_floorf"), ("fmod", "nfsmw_fmod"),
    ("fmodf", "nfsmw_fmodf"), ("frexp", "nfsmw_frexp"), ("ldexp", "nfsmw_ldexp"),
    ("log", "nfsmw_log"), ("log10", "nfsmw_log10"), ("log10f", "nfsmw_log10f"),
    ("lrintf", "nfsmw_lrintf"), ("modf", "nfsmw_modf"), ("pow", "nfsmw_pow"),
    ("powf", "nfsmw_powf"), ("rint", "nfsmw_rint"), ("roundf", "nfsmw_roundf"),
    ("sin", "nfsmw_sin"), ("sinf", "nfsmw_sinf"), ("sqrt", "nfsmw_sqrt"),
    ("sqrtf", "nfsmw_sqrtf"), ("strtod", "nfsmw_strtod"), ("tan", "nfsmw_tan"),
    ("tanf", "nfsmw_tanf")]

def nfsmwSoftfpResolve (runtime : Runtime) : CString → UInt32 := resolveIn runtime softfpSymbols

def aliasLookup (runtime : Runtime) : CString → UInt32 :=
  resolveIn runtime [("__assert2", "nfsmw_android_assert2"), ("__dso_handle", "nfsmw_dso_handle")]

/-- The replacements of `nfsmw_compat_resolve`. -/
def compatSymbols : List (String × String) :=
  [("__sF", "bionic_files"), ("_ctype_", "ctype_pointer"), ("_tolower_tab_", "tolower_pointer"),
    ("__errno", "compat_errno"), ("abort", "compat_abort"), ("__assert2", "compat_assert2"),
    ("clock_gettime", "compat_clock_gettime"), ("gettimeofday", "compat_gettimeofday"),
    ("dlopen", "compat_dlopen"), ("dlsym", "compat_dlsym"), ("dlclose", "compat_dlclose"),
    ("fclose", "compat_fclose"), ("fdopen", "compat_fdopen"), ("fflush", "compat_fflush"),
    ("fopen", "compat_fopen"), ("fprintf", "compat_fprintf"), ("fread", "compat_fread"),
    ("fseek", "compat_fseek"), ("fseeko", "compat_fseeko"), ("ftell", "compat_ftell"),
    ("ftello", "compat_ftello"), ("fwide", "compat_fwide"), ("fwrite", "compat_fwrite"),
    ("vfprintf", "compat_vfprintf"), ("stat", "compat_stat"), ("statfs", "compat_statfs"),
    ("opendir", "compat_opendir"), ("closedir", "compat_closedir"),
    ("readdir", "compat_readdir"), ("readdir_r", "compat_readdir_r"),
    ("__android_log_print", "compat_android_log_print"),
    ("__android_log_write", "compat_android_log_write"),
    ("__android_log_assert", "compat_android_log_assert"),
    ("AndroidBitmap_getInfo", "compat_android_bitmap_get_info"),
    ("AndroidBitmap_lockPixels", "compat_android_bitmap_lock"),
    ("AndroidBitmap_unlockPixels", "compat_android_bitmap_unlock"),
    ("__cxa_atexit", "compat_cxa_atexit"), ("__cxa_finalize", "compat_cxa_finalize"),
    ("__cxa_thread_atexit_impl", "compat_cxa_thread_atexit"),
    ("pthread_mutexattr_init", "compat_mutexattr_init"),
    ("pthread_mutexattr_destroy", "compat_mutexattr_destroy"),
    ("pthread_mutexattr_settype", "compat_mutexattr_settype"),
    ("pthread_mutexattr_setpshared", "compat_mutexattr_setpshared"),
    ("pthread_mutex_init", "compat_pthread_mutex_init"),
    ("pthread_mutex_destroy", "compat_pthread_mutex_destroy"),
    ("pthread_mutex_lock", "compat_pthread_mutex_lock"),
    ("pthread_mutex_unlock", "compat_pthread_mutex_unlock"),
    ("pthread_mutex_trylock", "compat_pthread_mutex_trylock"),
    ("pthread_cond_init", "compat_pthread_cond_init"),
    ("pthread_cond_destroy", "compat_pthread_cond_destroy"),
    ("pthread_cond_signal", "compat_pthread_cond_signal"),
    ("pthread_cond_broadcast", "compat_pthread_cond_broadcast"),
    ("pthread_cond_wait", "compat_pthread_cond_wait"),
    ("pthread_cond_timedwait", "compat_pthread_cond_timedwait"),
    ("pthread_rwlock_init", "compat_pthread_rwlock_init"),
    ("pthread_rwlock_destroy", "compat_pthread_rwlock_destroy"),
    ("pthread_rwlock_rdlock", "compat_pthread_rwlock_rdlock"),
    ("pthread_rwlock_wrlock", "compat_pthread_rwlock_wrlock"),
    ("pthread_rwlock_unlock", "compat_pthread_rwlock_unlock"),
    ("pthread_attr_init", "compat_pthread_attr_init"),
    ("pthread_attr_destroy", "compat_pthread_attr_destroy"),
    ("pthread_attr_setstacksize", "compat_pthread_attr_setstacksize"),
    ("pthread_attr_setstack", "compat_pthread_attr_setstack"),
    ("pthread_attr_getstack", "compat_pthread_attr_getstack"),
    ("pthread_attr_setschedparam", "compat_pthread_attr_setschedparam"),
    ("pthread_attr_setschedpolicy", "compat_pthread_attr_setschedpolicy"),
    ("pthread_attr_setdetachstate", "compat_pthread_attr_setdetachstate"),
    ("pthread_create", "compat_pthread_create"), ("pthread_self", "compat_pthread_self"),
    ("pthread_equal", "compat_pthread_equal"), ("pthread_join", "compat_pthread_join"),
    ("pthread_detach", "compat_pthread_detach"), ("pthread_exit", "compat_pthread_exit"),
    ("pthread_setschedparam", "compat_pthread_setschedparam"),
    ("pthread_getschedparam", "compat_pthread_getschedparam"),
    ("pthread_getattr_np", "compat_pthread_getattr_np"),
    ("pthread_once", "compat_pthread_once"), ("pthread_key_create", "compat_pthread_key_create"),
    ("pthread_key_delete", "compat_pthread_key_delete"),
    ("pthread_setspecific", "compat_pthread_setspecific"),
    ("pthread_getspecific", "compat_pthread_getspecific"), ("sem_init", "compat_sem_init"),
    ("sem_destroy", "compat_sem_destroy"), ("sem_wait", "compat_sem_wait"),
    ("sem_post", "compat_sem_post"), ("sem_trywait", "compat_sem_trywait"),
    ("sem_getvalue", "compat_sem_getvalue"), ("sem_timedwait", "compat_sem_timedwait"),
    ("sigaction", "compat_sigaction"), ("sigprocmask", "compat_sigprocmask"),
    ("setjmp", "nfsmw_bionic_setjmp"), ("sigsetjmp", "nfsmw_bionic_sigsetjmp"),
    ("longjmp", "nfsmw_bionic_longjmp"), ("siglongjmp", "nfsmw_bionic_siglongjmp")]

def nfsmwCompatResolve (runtime : Runtime) : CString → UInt32 := resolveIn runtime compatSymbols

def nfsmwDisplayResolve (runtime : Runtime) : CString → UInt32 :=
  resolveIn runtime [("glScissor", "mapped_scissor"), ("glViewport", "mapped_viewport")]

/-- The first provider that knows the name. -/
def firstNonzero (answers : List UInt32) : UInt32 := (answers.find? (· ≠ 0)).getD 0

def hostLookup (host : HostEnvironment) (name : CString) : UInt32 :=
  let address := firstNonzero (host.dlsymDefault name :: host.handles.map (· name))
  if address ≠ 0 then address
  else match host.eglGetProcAddress with
    | some getProcAddress => if (cstr "gl").isPrefixOf name then getProcAddress name else 0
    | none => 0

/-! ## Classification -/

/-- The names that `symbol_probe.c` lists for the soft-float calling convention. -/
def softfpNames : List String :=
  ["glBlendColor", "glClearColor", "glClearDepthf", "glDepthRangef", "glLineWidth",
    "glPolygonOffset", "glSampleCoverage", "glTexParameterf", "glUniform1f", "glUniform2f",
    "glUniform3f", "glUniform4f", "glVertexAttrib1f", "glVertexAttrib2f", "glVertexAttrib3f",
    "glVertexAttrib4f", "acos", "acosf", "asinf", "atan2", "atan2f", "ceil", "ceilf", "cos",
    "cosf", "exp", "expf", "floor", "floorf", "fmod", "fmodf", "frexp", "ldexp", "log", "log10",
    "log10f", "lrintf", "modf", "pow", "powf", "rint", "roundf", "sin", "sinf", "sqrt", "sqrtf",
    "strtod", "tan", "tanf"]

def nfsmwSymbolRequiresSoftfp (name : CString) : Bool := inList name softfpNames

def bionicNames : List String :=
  ["__errno", "__sF", "_ctype_", "_tolower_tab_", "closedir", "fclose", "fdopen", "fflush",
    "fopen", "fprintf", "fread", "fseek", "fseeko", "ftell", "ftello", "fwide", "fwrite",
    "lstat", "opendir", "readdir", "readdir_r", "sigaction", "sigprocmask", "stat", "statfs",
    "vfprintf", "setjmp", "sigsetjmp", "longjmp", "siglongjmp"]

def nfsmwSymbolRequiresBionicBridge (name : CString) : Bool :=
  ["pthread_", "sem_", "__pthread_", "__android_log_", "AndroidBitmap_"].any
      (fun start => (cstr start).isPrefixOf name) ||
    inList name bionicNames

/-! ## The lookup -/

/-- The images, the first `currentImage` of them relocated, in memory. -/
structure RelocationContext where
  memory : Memory
  images : List Elf32Image
  currentImage : Nat
  currentImage_lt : currentImage < images.length

structure ProbeStats where
  guestResolutions : Nat := 0
  softfpResolutions : Nat := 0
  hostResolutions : Nat := 0
  aliasResolutions : Nat := 0
  blockedResolutions : Nat := 0
  missingResolutions : Nat := 0

/-- The counters, and the guest's FMOD functions that the runtime has wrapped. -/
structure LookupState where
  stats : ProbeStats := {}
  guestSetOutput : UInt32 := 0
  guestCppSetOutput : UInt32 := 0
  guestSetFilesystem : UInt32 := 0
  guestCreateSound : UInt32 := 0

namespace LookupState

variable (s : LookupState)

def countGuest : LookupState :=
  { s with stats := { s.stats with guestResolutions := s.stats.guestResolutions + 1 } }
def countSoftfp : LookupState :=
  { s with stats := { s.stats with softfpResolutions := s.stats.softfpResolutions + 1 } }
def countHost : LookupState :=
  { s with stats := { s.stats with hostResolutions := s.stats.hostResolutions + 1 } }
def countAlias : LookupState :=
  { s with stats := { s.stats with aliasResolutions := s.stats.aliasResolutions + 1 } }
def countBlocked : LookupState :=
  { s with stats := { s.stats with blockedResolutions := s.stats.blockedResolutions + 1 } }
def countMissing : LookupState :=
  { s with stats := { s.stats with missingResolutions := s.stats.missingResolutions + 1 } }

end LookupState

/-- The first export of the name by an image that is already relocated. -/
def RelocationContext.guestExport (context : RelocationContext) (name : CString) : UInt32 :=
  firstNonzero ((context.images.take context.currentImage).map fun image =>
    elf32FindExport context.memory image name)

/-- The current image's name is `libapp.so`. -/
def RelocationContext.currentIsApp (context : RelocationContext) : Prop :=
  let soname := (context.images.get ⟨context.currentImage, context.currentImage_lt⟩).soname
  soname ≠ 0 ∧ context.memory.window soname 10 = cstr "libapp.so" ++ [0]

instance (context : RelocationContext) : Decidable context.currentIsApp :=
  inferInstanceAs (Decidable (_ ∧ _))

def setFileSystemSymbol : CString :=
  cstr ("_ZN4FMOD6System13setFileSystemEPF11FMOD_RESULTPKciPjPPvS6_EPFS1_S5_S5_" ++
    "EPFS1_S5_S5_jS4_S5_EPFS1_S5_jS5_EPFS1_P18FMOD_ASYNCREADINFOS5_ESA_i")

def createSoundSymbol : CString :=
  cstr "_ZN4FMOD6System11createSoundEPKcjP22FMOD_CREATESOUNDEXINFOPPNS_5SoundE"

/-- The address of a guest's export. For some FMOD functions it is kept, and the game gets
the runtime's wrapper. -/
def wrapGuest (runtime : Runtime) (context : RelocationContext) (name : CString)
    (address : UInt32) (s : LookupState) : UInt32 × LookupState :=
  if ¬ context.currentIsApp then (address, s)
  else if name = cstr "FMOD_System_SetOutput" then
    (runtime.address "compatible_set_output", { s with guestSetOutput := address })
  else if name = cstr "_ZN4FMOD6System9setOutputE15FMOD_OUTPUTTYPE" then
    (runtime.address "compatible_cpp_set_output", { s with guestCppSetOutput := address })
  else if name = setFileSystemSymbol then
    (runtime.address "compatible_set_filesystem", { s with guestSetFilesystem := address })
  else if name = createSoundSymbol then
    (runtime.address "compatible_create_sound", { s with guestCreateSound := address })
  else (address, s)

/-- `relocation_lookup` up to the names that it keeps from the host. -/
def bridgedLookup (runtime : Runtime) (context : RelocationContext) (name : CString)
    (s : LookupState) : Option (UInt32 × LookupState) :=
  if context.guestExport name ≠ 0 then
    some (wrapGuest runtime context name (context.guestExport name) s.countGuest)
  else if aeabiLookup runtime name ≠ 0 then some (aeabiLookup runtime name, s.countAlias)
  else if nfsmwSymbolRequiresSoftfp name ∧ nfsmwSoftfpResolve runtime name ≠ 0 then
    some (nfsmwSoftfpResolve runtime name, s.countSoftfp)
  else if aliasLookup runtime name ≠ 0 then some (aliasLookup runtime name, s.countAlias)
  else if nfsmwCompatResolve runtime name ≠ 0 then
    some (nfsmwCompatResolve runtime name, s.countAlias)
  else if nfsmwSymbolRequiresBionicBridge name then some (0, s.countBlocked)
  else none

def relocationLookup (runtime : Runtime) (host : HostEnvironment) (context : RelocationContext)
    (name : CString) (s : LookupState) : UInt32 × LookupState :=
  match bridgedLookup runtime context name s with
  | some result => result
  | none =>
    if nfsmwDisplayResolve runtime name ≠ 0 then (nfsmwDisplayResolve runtime name, s)
    else if hostLookup host name ≠ 0 then (hostLookup host name, s.countHost)
    else (0, s.countMissing)

/-! ## The tables agree -/

section Tables

variable {runtime : Runtime} {name : CString}

theorem resolveIn_ne_zero_iff {table : List (String × String)} :
    resolveIn runtime table name ≠ 0 ↔ ∃ entry ∈ table, cstr entry.1 = name := by
  unfold resolveIn
  split
  · rename_i entry hentry
    have hname : cstr entry.1 = name := by simpa using List.find?_some hentry
    exact ⟨fun _ => ⟨entry, List.mem_of_find?_eq_some hentry, hname⟩,
      fun _ => runtime.address_ne_zero _⟩
  · rename_i hnone
    simpa using hnone

theorem inList_iff {names : List String} :
    inList name names ↔ ∃ entry ∈ names, cstr entry = name := by
  simp [inList]

/-- Every name that is classified has a thunk: the two lists are the same. -/
theorem softfpSymbols_names : softfpSymbols.map Prod.fst = softfpNames := rfl

theorem nfsmwSoftfpResolve_ne_zero (h : nfsmwSymbolRequiresSoftfp name) :
    nfsmwSoftfpResolve runtime name ≠ 0 := by
  obtain ⟨symbol, hmem, rfl⟩ := inList_iff.mp h
  rw [← softfpSymbols_names] at hmem
  obtain ⟨entry, hentry, rfl⟩ := List.mem_map.mp hmem
  exact resolveIn_ne_zero_iff.mpr ⟨entry, hentry, rfl⟩

/-- No soft-float name is one of the compiler's helpers. -/
theorem aeabiLookup_of_softfp (h : nfsmwSymbolRequiresSoftfp name) :
    aeabiLookup runtime name = 0 := by
  have hnames : ∀ symbol ∈ softfpNames, ∀ entry ∈ aeabiSymbols, entry.1 ≠ symbol := by decide
  obtain ⟨symbol, hmem, rfl⟩ := inList_iff.mp h
  by_contra hne
  obtain ⟨entry, hentry, heq⟩ := resolveIn_ne_zero_iff.mp hne
  exact hnames symbol hmem entry hentry (cstr_inj.mp heq)

/-- No soft-float name needs a bionic replacement. -/
theorem requiresSoftfp_of_bionic (h : nfsmwSymbolRequiresBionicBridge name) :
    nfsmwSymbolRequiresSoftfp name = false := by
  have hnames : ∀ symbol ∈ softfpNames, nfsmwSymbolRequiresBionicBridge (cstr symbol) = false := by
    decide +kernel
  by_contra hsoftfp
  obtain ⟨symbol, hmem, rfl⟩ := inList_iff.mp (Bool.eq_true_of_not_eq_false hsoftfp)
  rw [hnames symbol hmem] at h
  cases h

end Tables

/-! ## What the lookup returns -/

/-- No image that is already relocated exports the name. -/
def RelocationContext.Unexported (context : RelocationContext) (name : CString) : Prop :=
  ∀ image ∈ context.images.take context.currentImage,
    elf32FindExport context.memory image name = 0

section Lookup

variable (runtime : Runtime) (host : HostEnvironment) {context : RelocationContext}
  {name : CString} (s : LookupState)

theorem guestExport_eq_zero (h : context.Unexported name) : context.guestExport name = 0 := by
  unfold RelocationContext.guestExport firstNonzero
  rw [List.find?_eq_none.mpr]
  · rfl
  · intro a ha
    obtain ⟨image, himage, rfl⟩ := List.mem_map.mp ha
    simpa using h image himage

theorem bridgedLookup_softfp (hguest : context.Unexported name)
    (h : nfsmwSymbolRequiresSoftfp name) :
    bridgedLookup runtime context name s =
      some (nfsmwSoftfpResolve runtime name, s.countSoftfp) := by
  have hthunk : nfsmwSoftfpResolve runtime name ≠ 0 := nfsmwSoftfpResolve_ne_zero h
  unfold bridgedLookup
  rw [if_neg (not_not.mpr (guestExport_eq_zero hguest)),
    if_neg (not_not.mpr (aeabiLookup_of_softfp h)), if_pos ⟨h, hthunk⟩]

/-- A bionic name gets a helper, an alias or a replacement, or is blocked. -/
theorem bridgedLookup_bionic (hguest : context.Unexported name)
    (h : nfsmwSymbolRequiresBionicBridge name) :
    ∃ address next, bridgedLookup runtime context name s = some (address, next) ∧
      (address = aeabiLookup runtime name ∨ address = aliasLookup runtime name ∨
        address = nfsmwCompatResolve runtime name ∨ address = 0) := by
  have hsoftfp : ¬ (nfsmwSymbolRequiresSoftfp name ∧ nfsmwSoftfpResolve runtime name ≠ 0) := by
    rw [requiresSoftfp_of_bionic h]
    simp
  unfold bridgedLookup
  rw [if_neg (not_not.mpr (guestExport_eq_zero hguest)), if_neg hsoftfp, if_pos h]
  split
  · exact ⟨_, _, rfl, .inl rfl⟩
  · split
    · exact ⟨_, _, rfl, .inr (.inl rfl)⟩
    · split
      · exact ⟨_, _, rfl, .inr (.inr (.inl rfl))⟩
      · exact ⟨_, _, rfl, .inr (.inr (.inr rfl))⟩

/-- A name that gets as far as the host needs neither kind of bridge. -/
theorem bridgedLookup_eq_none (h : bridgedLookup runtime context name s = none) :
    nfsmwSymbolRequiresSoftfp name = false ∧ nfsmwSymbolRequiresBionicBridge name = false := by
  unfold bridgedLookup at h
  split_ifs at h with hguest haeabi hsoftfp halias hcompat hbionic
  refine ⟨?_, Bool.eq_false_of_not_eq_true hbionic⟩
  by_contra hrequires
  have htrue := Bool.eq_true_of_not_eq_false hrequires
  exact hsoftfp ⟨htrue, nfsmwSoftfpResolve_ne_zero htrue⟩

/-- Names that cross the calling convention or the C library are never bound to the host:
they get the runtime's own function, or nothing, and the host makes no difference. -/
theorem relocationLookup_bridged (hguest : context.Unexported name) :
    (nfsmwSymbolRequiresSoftfp name →
      (relocationLookup runtime host context name s).1 = nfsmwSoftfpResolve runtime name ∧
        nfsmwSoftfpResolve runtime name ≠ 0) ∧
    (nfsmwSymbolRequiresBionicBridge name →
      (relocationLookup runtime host context name s).1 = aeabiLookup runtime name ∨
        (relocationLookup runtime host context name s).1 = aliasLookup runtime name ∨
        (relocationLookup runtime host context name s).1 = nfsmwCompatResolve runtime name ∨
        (relocationLookup runtime host context name s).1 = 0) ∧
    (nfsmwSymbolRequiresSoftfp name ∨ nfsmwSymbolRequiresBionicBridge name → ∀ host',
      relocationLookup runtime host context name s =
        relocationLookup runtime host' context name s) := by
  refine ⟨fun h => ?_, fun h => ?_, fun h host' => ?_⟩
  · rw [relocationLookup, bridgedLookup_softfp runtime s hguest h]
    exact ⟨rfl, nfsmwSoftfpResolve_ne_zero h⟩
  · obtain ⟨address, next, hlookup, haddress⟩ := bridgedLookup_bionic runtime s hguest h
    rw [relocationLookup, hlookup]
    exact haddress
  · unfold relocationLookup
    cases hlookup : bridgedLookup runtime context name s with
    | some result => rfl
    | none =>
      obtain ⟨hsoftfp, hbionic⟩ := bridgedLookup_eq_none runtime s hlookup
      rw [hsoftfp, hbionic] at h
      simp at h

end Lookup

/-! ## The sample, next to a second image -/

def sampleRuntime : Runtime where
  address symbol := if symbol = "nfsmw_sin" then 0x1000 else 0x2000
  address_ne_zero symbol := by split <;> decide

/-- A host that knows every name. -/
def sampleLibraries : HostEnvironment := ⟨fun _ => 0x9000, [], some fun _ => 0x9000⟩

def sampleContext : RelocationContext :=
  ⟨sampleMapped.memory, [sampleMapped.image, .zero], 1, by decide⟩

theorem relocationLookup_bridged_sample :
    (relocationLookup sampleRuntime sampleLibraries sampleContext (cstr "sin") {}).1 = 0x1000 := by
  have hguest : sampleContext.Unexported (cstr "sin") := by
    unfold RelocationContext.Unexported
    decide +kernel
  have hsoftfp : nfsmwSymbolRequiresSoftfp (cstr "sin") = true := by decide +kernel
  have hthunk : nfsmwSoftfpResolve sampleRuntime (cstr "sin") = 0x1000 := by decide +kernel
  obtain ⟨hlookup, -⟩ :=
    (relocationLookup_bridged sampleRuntime sampleLibraries {} hguest).1 hsoftfp
  exact hlookup.trans hthunk

end NfsmwRuntime.Symbols
