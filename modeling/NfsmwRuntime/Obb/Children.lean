import NfsmwRuntime.Obb.Lookup

/-!
# Listed children and their sizes

A listing takes every common prefix for a directory, a size lookup only what has an entry of
its own that ends in a slash. A child that only the names below it imply is listed and not
found, or is found below a fallback prefix.
-/

namespace NfsmwRuntime.Obb

open Library

/-- The path of a child. -/
def childPath (directory child : CString) : CString :=
  if directory = [] then child else directory ++ slash :: child

/-- A name that goes on below a path. -/
def Continues (path name : CString) : Prop := ∃ b rest, name = path ++ slash :: b :: rest

/-- The children that a listing yields, each cut at its first slash. -/
def yielded (reallocOk : Bool) (directory : Option CString) (s : ObbIndex) : List CString :=
  let (_, children, count) := nfsmwObbList reallocOk directory s
  ((children.map (·.take count)).getD []).map component

/-- The path exists, and it is a directory if something is below it. -/
def PathExists (s : ObbIndex) (path : CString) : Prop :=
  nfsmwObbAssetSize (some path) s ≠ -2 ∧
    ((∃ e ∈ s.entries, Continues path e.name) → nfsmwObbAssetSize (some path) s = -1)

/-- No entry has the name, with or without a slash. -/
def Absent (entries : List ObbEntry) (name : CString) : Prop :=
  ∀ e ∈ entries, e.name ≠ name ∧ e.name ≠ name ++ [slash]

/-- The first entry with the name has a slash behind it. -/
def NamedDirectory (entries : List ObbEntry) (name : CString) : Prop :=
  ∃ before e after, entries = before ++ e :: after ∧ Absent before name ∧
    e.name = name ++ [slash]

/-- A path that goes on has a directory entry of its own; failing that, the first fallback
prefix with an entry for the path has a directory there. -/
def ExplicitDirectory (entries : List ObbEntry) (path : CString) : Prop :=
  (∃ e ∈ entries, Continues path e.name) →
    ∃ before pre after, prefixesFor path = before ++ pre :: after ∧
      (∀ q ∈ before, Absent entries (q ++ path)) ∧ NamedDirectory entries (pre ++ path)

variable {entries : List ObbEntry} {name path : CString}

theorem withoutSlash_eq_iff (hname : name.getLast? ≠ some slash) {l : CString} :
    withoutSlash l = name ↔ l = name ∨ l = name ++ [slash] := by
  unfold withoutSlash
  by_cases hslash : l.getLast? = some slash
  · obtain ⟨l, rfl⟩ := List.getLast?_eq_some_iff.mp hslash
    rw [if_pos hslash, List.dropLast_concat, List.append_left_inj]
    exact ⟨.inr, fun h => h.resolve_left fun h => hname (h ▸ hslash)⟩
  · rw [if_neg hslash]
    exact ⟨.inl, fun h => h.resolve_right fun h => hslash (by simp [h])⟩

theorem firstNamed_eq_none (hname : name.getLast? ≠ some slash) :
    firstNamed entries name = none ↔ Absent entries name := by
  simp [firstNamed, Absent, withoutSlash_eq_iff hname]

theorem firstNamed_directory (hname : name.getLast? ≠ some slash) :
    (∃ e, firstNamed entries name = some e ∧ e.name.getLast? = some slash) ↔
      NamedDirectory entries name := by
  constructor
  · rintro ⟨e, hfirst, hslash⟩
    obtain ⟨hmatch, before, after, hsplit, hbefore⟩ := List.find?_eq_some_iff_append.mp hfirst
    have hmatch := (withoutSlash_eq_iff hname).mp (of_decide_eq_true hmatch)
    refine ⟨before, e, after, hsplit, fun x hx => ?_,
      hmatch.resolve_left fun h => hname (h ▸ hslash)⟩
    simpa [withoutSlash_eq_iff hname] using hbefore x hx
  · rintro ⟨before, e, after, hsplit, hbefore, hdirectory⟩
    refine ⟨e, List.find?_eq_some_iff_append.mpr ⟨?_, before, after, hsplit, fun x hx => ?_⟩,
      by simp [hdirectory]⟩
    · simp [withoutSlash_eq_iff hname, hdirectory]
    · simpa [withoutSlash_eq_iff hname] using hbefore x hx

/-- The entry that the reference finds is a directory. -/
theorem lookup_directory (hends : ∀ pre : CString, (pre ++ path).getLast? ≠ some slash) :
    (∃ e, lookup entries path = some e ∧ e.name.getLast? = some slash) ↔
      ∃ before pre after, prefixesFor path = before ++ pre :: after ∧
        (∀ q ∈ before, Absent entries (q ++ path)) ∧ NamedDirectory entries (pre ++ path) := by
  have htrim : path.rdropWhile (· = slash) = path := by
    simpa using rdropWhile_append_slashes (hends []) 0
  rw [lookup, htrim]
  constructor
  · rintro ⟨e, hfound, hslash⟩
    obtain ⟨before, pre, after, hsplit, hfirst, hbefore⟩ :=
      List.findSome?_eq_some_iff.mp hfound
    exact ⟨before, pre, after, hsplit,
      fun q hq => (firstNamed_eq_none (hends q)).mp (hbefore q hq),
      (firstNamed_directory (hends pre)).mp ⟨e, hfirst, hslash⟩⟩
  · rintro ⟨before, pre, after, hsplit, hbefore, hdirectory⟩
    obtain ⟨e, hfirst, hslash⟩ := (firstNamed_directory (hends pre)).mpr hdirectory
    exact ⟨e, List.findSome?_eq_some_iff.mpr ⟨before, pre, after, hsplit, hfirst,
      fun q hq => (firstNamed_eq_none (hends q)).mpr (hbefore q hq)⟩, hslash⟩

/-! ## What a listed child comes from -/

theorem slash_not_mem_component {l : CString} : slash ∉ component l := by
  intro h
  simpa using List.mem_takeWhile_imp h

/-- A string is its first component, alone or with a slash behind it. -/
theorem component_split (l : CString) :
    l = component l ∨ ∃ rest, l = component l ++ slash :: rest := by
  have hsplit : component l ++ l.dropWhile (· ≠ slash) = l := List.takeWhile_append_dropWhile
  cases hrest : l.dropWhile (· ≠ slash) with
  | nil => exact .inl (by rw [← List.append_nil (component l), ← hrest, hsplit])
  | cons b rest =>
    have hb : b = slash := by
      have hhead := List.head?_dropWhile_not (· ≠ slash) l
      rw [hrest] at hhead
      simpa using hhead
    exact .inr ⟨rest, by rw [← hb, ← hrest, hsplit]⟩

/-- A child is the path of some name up to its end or up to a slash. -/
theorem mem_listing {t c : CString} (h : c ∈ listing entries t) : c ≠ [] ∧ slash ∉ c ∧
    ∃ e ∈ entries, e.name = childPath t c ∨ ∃ rest, e.name = childPath t c ++ slash :: rest := by
  rw [listing, Interning.mem_firsts, List.mem_filter, List.mem_map] at h
  obtain ⟨⟨remainder, hremainder, rfl⟩, hne⟩ := h
  obtain ⟨e, he, hbelow⟩ := List.mem_filterMap.mp hremainder
  refine ⟨of_decide_eq_true hne, slash_not_mem_component, e, he, ?_⟩
  have hname : e.name = if t = [] then remainder else t ++ slash :: remainder := by
    unfold below at hbelow
    split_ifs at hbelow with ht hpre
    · rw [if_pos ht, Option.some.inj hbelow]
    · obtain ⟨rest, hrest⟩ := hpre
      rw [if_neg ht, ← Option.some.inj hbelow, ← hrest]
      simp
  rw [hname, childPath]
  by_cases ht : t = []
  · simpa only [if_pos ht] using component_split remainder
  · simp only [if_neg ht]
    rcases component_split remainder with h | ⟨rest, h⟩
    · exact .inl (by rw [← h])
    · exact .inr ⟨rest, by rw [List.append_assoc, List.cons_append, ← h]⟩

theorem mem_yielded {s : ObbIndex} {reallocOk : Bool} {directory : Option CString} {c : CString}
    (hlength : s.listResult.length = s.listCapacity) (hnames : NulFree s.entries)
    (h : c ∈ yielded reallocOk directory s) : c ∈ listing s.entries (trimmed directory) := by
  by_cases hroom : s.entries.length ≤ s.listCapacity ∨ reallocOk
  · obtain ⟨hchildren, -⟩ := nfsmwObbList_children directory hlength hroom
    rw [← map_component_childrenOf hnames]
    have hyielded : yielded reallocOk directory s = (((nfsmwObbList reallocOk directory s).2.1.map
        (·.take (nfsmwObbList reallocOk directory s).2.2)).getD []).map component := rfl
    rwa [hyielded, hchildren] at h
  · have hfail : s.listCapacity < s.entries.length ∧ !reallocOk := by grind
    rw [yielded, nfsmwObbList, if_pos hfail] at h
    exact absurd h List.not_mem_nil

/-- A child's path needs no trimming. -/
theorem normalize_childPath {directory : Option CString} {c : CString} (hslash : slash ∉ c) :
    normalize (some (childPath (trimmed directory) c)) = childPath (trimmed directory) c := by
  have hstart : ∀ l : CString, l.head? ≠ some slash → l.dropWhile (· = slash) = l := by
    intro l hl
    cases l with
    | nil => rfl
    | cons b l => exact List.dropWhile_cons_of_neg (by simpa using hl)
  refine hstart _ ?_
  unfold childPath
  split_ifs with ht
  · exact fun h => hslash (List.mem_of_mem_head? h)
  · -- the directory starts as it does without its leading slashes
    have hhead := List.head?_dropWhile_not (· = slash) (directory.getD [])
    have hprefix : trimmed directory <+: normalize directory := List.rdropWhile_prefix _ _
    obtain ⟨b, t, hcons⟩ := List.exists_cons_of_ne_nil ht
    obtain ⟨rest, hrest⟩ := hprefix
    rw [← normalize, ← hrest, hcons] at hhead
    simpa [hcons] using hhead

theorem getLast?_append_childPath {t c : CString} (hc : c ≠ []) (hslash : slash ∉ c)
    (pre : CString) : (pre ++ childPath t c).getLast? ≠ some slash := by
  obtain ⟨l, hl⟩ : ∃ l, pre ++ childPath t c = l ++ c := by
    unfold childPath
    split_ifs
    · exact ⟨pre, rfl⟩
    · exact ⟨pre ++ t ++ [slash], by simp⟩
  intro h
  rw [hl, List.getLast?_append_of_ne_nil _ hc] at h
  exact hslash (List.mem_of_getLast? h)

theorem open_listResult {host : OpenHost} {fopen : CString → Option (List UInt8)}
    {path : Option CString} {s₀ s : ObbIndex}
    (h : nfsmwObbOpen host fopen path s₀ = (.ok (), s)) : s.listResult.length = s.listCapacity := by
  have hs : s = (nfsmwObbOpen host fopen path s₀).2 := by rw [h]
  rw [hs]
  match path with
  | none => rfl
  | some [] => rfl
  | some (b :: path) =>
    simp only [nfsmwObbOpen]
    cases readDirectory host (b :: path) (fopen (b :: path)) <;> rfl

/-- A child of an opened archive exists, and as a directory if something is below it, exactly
if the archive has a directory entry for what is not a file. -/
theorem pathExists_iff {host : OpenHost} {fopen : CString → Option (List UInt8)}
    {file directory : Option CString} {s₀ s : ObbIndex} {reallocOk : Bool} {c : CString}
    (hopen : nfsmwObbOpen host fopen file s₀ = (.ok (), s)) (hnames : NulFree s.entries)
    (hdirectory : (trimmed directory).length ≤ 2000) (hc : c.length ≤ 2000)
    (hlisted : c ∈ yielded reallocOk directory s) :
    PathExists s (childPath (trimmed directory) c) ↔
      ExplicitDirectory s.entries (childPath (trimmed directory) c) := by
  obtain ⟨hne, hslash, e, he, hname⟩ :=
    mem_listing (mem_yielded (open_listResult hopen) hnames hlisted)
  have hlast := @getLast?_append_childPath (trimmed directory) c hne hslash
  have hshort : (childPath (trimmed directory) c).length < 4083 := by
    unfold childPath
    split_ifs
    · omega
    · simp
      omega
  have hnormal := @normalize_childPath directory c hslash
  generalize childPath (trimmed directory) c = path at hlast hshort hnormal hname ⊢
  have hpath : path.getLast? ≠ some slash := hlast []
  have hnamed := named_of_open hopen hnames
  have hsize := nfsmwObbAssetSize_lookup hnamed (hnormal.symm ▸ hshort)
  rw [hnormal] at hsize
  rw [PathExists, ExplicitDirectory, hsize, ← lookup_directory hlast]
  by_cases hbelow : ∃ e ∈ s.entries, Continues path e.name
  · simp only [hbelow, true_implies]
    cases lookup s.entries path with
    | none => simp
    | some e => simp [namedSize_eq_neg_one, namedSize_ne]
  · -- the child has an entry of its own, which is found without a prefix
    have hnamed : firstNamed s.entries path ≠ none := by
      rw [Ne, firstNamed_eq_none hpath]
      intro habsent
      rcases hname with hname | ⟨rest, hname⟩
      · exact (habsent e he).1 hname
      · cases rest with
        | nil => exact (habsent e he).2 hname
        | cons b rest => exact hbelow ⟨e, he, b, rest, hname⟩
    obtain ⟨found, hfound⟩ := Option.ne_none_iff_exists'.mp hnamed
    have hlookup : lookup s.entries path = some found := by
      have hcandidates := lookup_slashes s.entries hpath 0
      rwa [List.replicate_zero, List.append_nil, hfound] at hcandidates
    simp [hbelow, hlookup, namedSize_ne]

theorem pathExists_iff_sample :
    PathExists sampleIndex (childPath (trimmed (some [])) (cstr "a")) ↔
      ExplicitDirectory sampleIndex.entries (childPath (trimmed (some [])) (cstr "a")) :=
  pathExists_iff nfsmwObbOpen_sampleArchive named_sampleIndex.nulFree (by decide) (by decide)
    (show cstr "a" ∈ yielded true (some []) sampleIndex by decide)

/-- The sample archive without the entry for its directory. -/
def bareParts : ArchiveParts := { sampleParts with entries := sampleParts.entries.drop 1 }

def bareArchive : Archive where
  toArchiveParts := bareParts
  entries_lt := by decide
  comment_lt := by decide
  length_disks := rfl
  bytes_lt := by decide +kernel
  last_signature := by
    intro i hi hend
    have hoffset : bareParts.endOffset = 55 := rfl
    have hlength : bareParts.bytes.length = 78 := rfl
    obtain rfl : i = 56 := by omega
    decide +kernel

def bareIndex : ObbIndex := ⟨[⟨cstr "a/b", 300, false⟩], cstr "main.obb", [], 0⟩

/-- The root of that archive lists a child that does not exist. -/
theorem not_pathExists_bare :
    nfsmwObbOpen .reliable (fun _ => some bareArchive.bytes) (some (cstr "main.obb"))
      (nfsmwObbClose bareIndex) = (.ok (), bareIndex) ∧
    NulFree bareIndex.entries ∧ yielded true (some []) bareIndex = [cstr "a"] ∧
    nfsmwObbAssetSize (some (cstr "a")) bareIndex = -2 ∧
    ¬ PathExists bareIndex (childPath (trimmed (some [])) (cstr "a")) := by
  have hsize : nfsmwObbAssetSize (some (cstr "a")) bareIndex = -2 := by decide
  refine ⟨nfsmwObbOpen_archive bareArchive _ _ _ (by decide) rfl,
    by simp [NulFree, bareIndex]; decide, by decide, hsize, fun h => h.1 hsize⟩

end NfsmwRuntime.Obb
