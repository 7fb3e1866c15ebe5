import NfsmwRuntime.Obb.Listing

/-!
# Looking an asset up

A path is looked for as it is and below two fallback prefixes. The loops compare an entry's
name in pieces, the first against the prefix and the second against the path, up to a length
that is trimmed in the path only. What comes out is a search by name: the first prefix
under which some entry has the name, and the first entry that has it.

Whether a prefix is skipped is decided on the path with its trailing slashes, the name
looked for has none.
-/

namespace NfsmwRuntime.Obb

open Library

/-! ## The loops as they are written -/

/-- `memcmp(a, b, n) == 0`, undefined behind the end of either. -/
def memcmpEq (a b : CString) (n : Nat) : Option Bool :=
  if n ≤ a.length ∧ n ≤ b.length then some (a.take n = b.take n) else none

/-- `while (length > prefix_length && … == '/') --length` -/
def trimLength (pre wanted : CString) : (length : Nat) → Nat
  | 0 => 0
  | length + 1 =>
    if pre.length < length + 1 ∧
        (if pre.length = 0 then wanted[length]? else wanted[length - pre.length]?) = some slash then
      trimLength pre wanted length
    else length + 1

/-- An entry's name against the first `length` bytes of the prefix and the path. -/
def entryMatches (pre wanted : CString) (length : Nat) (name : CString) : Option Bool := do
  let comparable := if name.getLast? = some slash then name.length - 1 else name.length
  if comparable ≠ length then return false
  if pre.length = 0 then memcmpEq name wanted length
  else
    if ← memcmpEq name pre pre.length then
      memcmpEq (name.drop pre.length) wanted (length - pre.length)
    else return false

/-- The body of `nfsmw_obb_asset_size`, with its accesses. -/
def assetSizeLoops (path : Option CString) (s : ObbIndex) : Option Int := do
  let wanted := normalize path
  let found ← assetPrefixes.findSomeM? fun pre =>
    if 0 < pre.length ∧ pre <+: wanted then some none
    else if nameLimit ≤ pre.length + wanted.length then some none
    else
      let length := trimLength pre wanted (pre.length + wanted.length)
      s.entries.findSomeM? fun entry => do
        return if ← entryMatches pre wanted length (cstring entry.name) then
          some entry.assetSize else none
  return found.getD (-2)

variable {path : Option CString} {s : ObbIndex}

theorem trimLength_take {pre wanted : CString} {k : Nat} (hk : k ≤ wanted.length) :
    trimLength pre wanted (pre.length + k) =
      pre.length + ((wanted.take k).rdropWhile (· = slash)).length := by
  induction k with
  | zero => cases hpre : pre.length <;> simp [trimLength, hpre]
  | succ k ih =>
    have hbyte : (if pre.length = 0 then wanted[pre.length + k]?
        else wanted[pre.length + k - pre.length]?) = some wanted[k] := by
      rw [Nat.add_sub_cancel_left, List.getElem?_eq_getElem hk]
      split
      · next h0 => simp [h0, List.getElem?_eq_getElem hk]
      · rfl
    rw [← Nat.add_assoc, trimLength, hbyte, List.take_succ_eq_append_getElem hk,
      List.rdropWhile_concat, ih (Nat.le_of_succ_le hk)]
    have hlt : pre.length < pre.length + k + 1 := by omega
    by_cases hslash : wanted[k] = slash
    · simp [hslash, hlt]
    · simp [hslash]
      omega

theorem trimLength_eq (pre wanted : CString) :
    trimLength pre wanted (pre.length + wanted.length) =
      pre.length + (wanted.rdropWhile (· = slash)).length := by
  rw [trimLength_take (Nat.le_refl _), List.take_length]

theorem memcmpEq_eq_some {a b : CString} {n : Nat} (ha : n ≤ a.length) (hb : n ≤ b.length) :
    memcmpEq a b n = some (decide (a.take n = b.take n)) := if_pos ⟨ha, hb⟩

/-- The two ranges compared are the whole name looked for, and inside both strings. -/
theorem entryMatches_eq {pre wanted name : CString} :
    entryMatches pre wanted (trimLength pre wanted (pre.length + wanted.length)) name =
      some (assetMatches (pre ++ wanted.rdropWhile (· = slash)) name) := by
  obtain ⟨t, ht⟩ : ∃ t, t = wanted.rdropWhile (· = slash) := ⟨_, rfl⟩
  have hprefix : t <+: wanted := ht ▸ List.rdropWhile_prefix _ _
  have hwanted : wanted.take t.length = t := (List.prefix_iff_eq_take.mp hprefix).symm
  rw [trimLength_eq, ← ht, entryMatches, assetMatches, List.length_append]
  obtain ⟨comparable, hcomparable⟩ : ∃ n, n = if name.getLast? = some slash then name.length - 1
      else name.length := ⟨_, rfl⟩
  simp only [← hcomparable]
  by_cases hlength : comparable = pre.length + t.length
  · have hname : pre.length + t.length ≤ name.length := by grind
    have hpieces : name.take (pre.length + t.length) = pre ++ t ↔
        name.take pre.length = pre ∧ (name.drop pre.length).take t.length = t := by
      rw [List.take_add]
      refine ⟨fun h => List.append_inj h (List.length_take_of_le (by omega)), fun h => ?_⟩
      rw [h.1, h.2]
    have hrest : memcmpEq (name.drop pre.length) wanted (pre.length + t.length - pre.length) =
        some (decide ((name.drop pre.length).take t.length = t)) := by
      rw [Nat.add_sub_cancel_left, memcmpEq_eq_some (by simp; omega) hprefix.length_le, hwanted]
    rw [hrest, memcmpEq_eq_some (by omega) (Nat.le_refl _), List.take_length]
    simp only [hlength, ne_eq, not_true_eq_false, if_false, hpieces]
    by_cases hpre : pre = []
    · subst hpre
      have hall : memcmpEq name wanted t.length = some (decide (name.take t.length = t)) := by
        rw [memcmpEq_eq_some (by simpa using hname) hprefix.length_le, hwanted]
      simp [hall]
    · by_cases hfirst : name.take pre.length = pre <;> simp [hpre, hfirst]
  · simp [hlength]

/-- No access is outside a string, and the pieces decide as the names do. -/
theorem assetSizeLoops_eq : assetSizeLoops path s = some (nfsmwObbAssetSize path s) := by
  rw [assetSizeLoops, nfsmwObbAssetSize, findSomeM?_eq_some (fun pre _ => ?_)]
  · rfl
  · rw [assetWanted]
    by_cases hskip : pre ≠ [] ∧ pre <+: normalize path
    · rw [if_pos hskip, if_pos ⟨List.length_pos_iff.mpr hskip.1, hskip.2⟩]
      rfl
    · have hkeep : ¬ (0 < pre.length ∧ pre <+: normalize path) :=
        fun h => hskip ⟨List.length_pos_iff.mp h.1, h.2⟩
      rw [if_neg hskip, if_neg hkeep]
      by_cases hlong : nameLimit ≤ pre.length + (normalize path).length
      · rw [if_pos hlong, if_pos hlong]
        rfl
      · rw [if_neg hlong, if_neg hlong]
        refine findSomeM?_eq_some fun entry _ => ?_
        rw [entryMatches_eq]
        rfl

/-! ## The entry that is found -/

/-- The entry that `nfsmw_obb_asset_size` returns from the loops with. -/
def resolvedEntry (path : Option CString) (s : ObbIndex) : Option ObbEntry :=
  assetPrefixes.findSome? fun pre =>
    (assetWanted (normalize path) pre).bind fun wanted =>
      s.entries.find? fun entry => assetMatches wanted (cstring entry.name)

theorem nfsmwObbAssetSize_eq :
    nfsmwObbAssetSize path s = (resolvedEntry path s).elim (-2) ObbEntry.assetSize := by
  have hentries : ∀ wanted, (s.entries.find? fun entry =>
      assetMatches wanted (cstring entry.name)).map ObbEntry.assetSize =
      s.entries.findSome? fun entry =>
        if assetMatches wanted (cstring entry.name) then some entry.assetSize else none := by
    intro wanted
    induction s.entries with
    | nil => rfl
    | cons entry entries ih =>
      rw [List.findSome?_cons, List.find?_cons, ← ih]
      cases assetMatches wanted (cstring entry.name) <;> rfl
  have hresolved : (resolvedEntry path s).map ObbEntry.assetSize =
      assetPrefixes.findSome? fun pre =>
        (assetWanted (normalize path) pre).bind fun wanted =>
          s.entries.findSome? fun entry =>
            if assetMatches wanted (cstring entry.name) then some entry.assetSize else none := by
    simp only [resolvedEntry, List.map_findSome?, Function.comp_def, Option.map_bind, hentries]
  rw [nfsmwObbAssetSize, ← hresolved]
  cases resolvedEntry path s <;> rfl

/-! ## The reference -/

/-- The names have no NUL in them, and the entries that are directories are those whose name
ends in a slash. -/
structure Named (entries : List ObbEntry) : Prop where
  nulFree : NulFree entries
  directory : ∀ e ∈ entries, e.directory = true ↔ e.name.getLast? = some slash

/-- A name without one slash at its end. -/
def withoutSlash (name : CString) : CString :=
  if name.getLast? = some slash then name.dropLast else name

/-- The first entry that has a name, or has it with a slash behind it. -/
def firstNamed (entries : List ObbEntry) (name : CString) : Option ObbEntry :=
  entries.find? fun e => withoutSlash e.name = name

/-- The prefixes under which a path is looked for: those that it does not start with. -/
def prefixesFor (wanted : CString) : List CString :=
  assetPrefixes.filter fun pre => pre = [] ∨ ¬ pre <+: wanted

/-- The entry that a path without leading slashes stands for. -/
def lookup (entries : List ObbEntry) (wanted : CString) : Option ObbEntry :=
  (prefixesFor wanted).findSome? fun pre =>
    firstNamed entries (pre ++ wanted.rdropWhile (· = slash))

/-- What is answered for an entry, decided on its name. -/
def namedSize (e : ObbEntry) : Int := if e.name.getLast? = some slash then -1 else e.size.toNat

theorem namedSize_ne (e : ObbEntry) : namedSize e ≠ -2 := by
  unfold namedSize
  split <;> omega

theorem namedSize_eq_neg_one {e : ObbEntry} :
    namedSize e = -1 ↔ e.name.getLast? = some slash := by
  unfold namedSize
  split <;> simp_all

theorem Named.assetSize (h : Named s.entries) {e : ObbEntry} (he : e ∈ s.entries) :
    e.assetSize = namedSize e := by
  have := h.directory e he
  grind [ObbEntry.assetSize, namedSize]

theorem assetMatches_eq (wanted name : CString) :
    assetMatches wanted name = decide (withoutSlash name = wanted) := by
  have htake : ∀ l : CString, l.length = wanted.length ∧ l.take wanted.length = wanted ↔
      l = wanted := by
    refine fun l => ⟨fun h => ?_, fun h => by simp [h]⟩
    exact (List.take_of_length_le (Nat.le_of_eq h.1)).symm.trans h.2
  rw [assetMatches, withoutSlash, decide_eq_decide]
  by_cases hslash : name.getLast? = some slash
  · obtain ⟨l, rfl⟩ := List.getLast?_eq_some_iff.mp hslash
    rw [if_pos hslash, if_pos hslash, List.dropLast_concat, ← htake l]
    grind
  · rw [if_neg hslash, if_neg hslash, htake]

/-- A short path resolves to the entry that the reference finds. -/
theorem resolvedEntry_eq (h : NulFree s.entries) (hshort : (normalize path).length < 4083) :
    resolvedEntry path s = lookup s.entries (normalize path) := by
  have hnames : ∀ wanted, (s.entries.find? fun e => assetMatches wanted (cstring e.name)) =
      firstNamed s.entries wanted := by
    intro wanted
    rw [firstNamed, ← List.head?_filter, ← List.head?_filter]
    congr 1
    refine List.filter_congr fun e he => ?_
    rw [cstring_eq (h e he), assetMatches_eq]
  have hlong : ∀ pre ∈ assetPrefixes, ¬ nameLimit ≤ pre.length + (normalize path).length := by
    have hlength : ∀ pre ∈ assetPrefixes, pre.length ≤ 13 := by decide
    intro pre hpre
    have := hlength pre hpre
    unfold nameLimit
    omega
  rw [resolvedEntry, lookup, prefixesFor, ← List.head?_filterMap, ← List.head?_filterMap,
    List.filterMap_filter]
  simp only [hnames]
  congr 1
  refine List.filterMap_congr fun pre hpre => ?_
  rw [assetWanted, if_neg (hlong pre hpre)]
  by_cases hskip : pre ≠ [] ∧ pre <+: normalize path
  · simp [hskip]
  · have hkeep : pre = [] ∨ ¬ pre <+: normalize path := by tauto
    simp [hskip, hkeep]

theorem mem_of_lookup {entries : List ObbEntry} {wanted : CString} {e : ObbEntry}
    (h : lookup entries wanted = some e) : e ∈ entries := by
  obtain ⟨pre, -, hfirst⟩ := List.exists_of_findSome?_eq_some h
  exact List.mem_of_find?_eq_some hfirst

theorem nfsmwObbAssetSize_lookup (h : Named s.entries)
    (hshort : (normalize path).length < 4083) :
    nfsmwObbAssetSize path s = (lookup s.entries (normalize path)).elim (-2) namedSize := by
  rw [nfsmwObbAssetSize_eq, resolvedEntry_eq h.nulFree hshort]
  cases hlookup : lookup s.entries (normalize path) with
  | none => rfl
  | some e => exact h.assetSize (mem_of_lookup hlookup)

/-- The loops answer for the entry found by name: with the first prefix, among those that
the path does not start with, under which an entry has the name, and with the first such
entry. -/
theorem assetSizeLoops_lookup (h : Named s.entries) (hshort : (normalize path).length < 4083) :
    assetSizeLoops path s = some ((lookup s.entries (normalize path)).elim (-2) namedSize) := by
  rw [assetSizeLoops_eq, nfsmwObbAssetSize_lookup h hshort]

/-! ## Opened archives -/

theorem readEntry_directory {host : OpenHost} {content : List UInt8} {index position next : Nat}
    {e : ObbEntry} (h : readEntry host content index position = .ok (e, next)) :
    e.directory = true ↔ e.name.getLast? = some slash := by
  rw [readEntry] at h
  obtain ⟨header, -, h⟩ := bind_eq_ok.mp h
  obtain ⟨_, hlength, h⟩ := bind_eq_ok.mp h
  obtain ⟨name, hname, h⟩ := bind_eq_ok.mp h
  obtain ⟨-, -, h⟩ := bind_eq_ok.mp h
  obtain ⟨rfl, -⟩ := Prod.ext_iff.mp (Except.ok.inj h)
  have hpositive := (check_eq_ok.mp hlength).1
  -- `fread` delivers exactly as many bytes as were asked for
  have hread : name.length = (readU16 (header.drop 28)).toNat := by
    have hread := require_eq_ok.mp hname
    unfold attempt fread at hread
    split_ifs at hread with _ hfits
    obtain rfl := Option.some.inj hread
    simp only [List.length_take, List.length_drop]
    omega
  dsimp only
  rw [← hread, List.getLast?_eq_getElem?, List.getD_eq_getElem?_getD,
    List.getElem?_eq_getElem (by omega), decide_eq_true_iff]
  simp

/-- Every entry of an opened archive is a directory exactly if its name ends in a slash. -/
theorem readEntries_directory {host : OpenHost} {content : List UInt8}
    {count index position : Nat} {entries : List ObbEntry}
    (h : readEntries host content count index position = .ok entries) :
    ∀ e ∈ entries, e.directory = true ↔ e.name.getLast? = some slash := by
  induction count generalizing index position entries with
  | zero =>
    obtain rfl := Except.ok.inj h
    exact fun _ he => nomatch he
  | succ count ih =>
    obtain ⟨entry, next, rest, hentry, hrest, rfl⟩ := readEntries_succ h
    intro e he
    rcases List.mem_cons.mp he with rfl | he
    · exact readEntry_directory hentry
    · exact ih hrest e he

theorem named_of_open {host : OpenHost} {fopen : CString → Option (List UInt8)} {s₀ : ObbIndex}
    (h : nfsmwObbOpen host fopen path s₀ = (.ok (), s)) (hnames : NulFree s.entries) :
    Named s.entries := by
  obtain ⟨_, _, _, -, -, hread⟩ := nfsmwObbOpen_eq_ok h
  exact ⟨hnames, readEntries_directory hread⟩

/-- The index of the sample archive. -/
def sampleIndex : ObbIndex :=
  ⟨[⟨cstr "a/", 0, true⟩, ⟨cstr "a/b", 300, false⟩], cstr "main.obb", [], 0⟩

theorem named_sampleIndex : Named sampleIndex.entries :=
  named_of_open nfsmwObbOpen_sampleArchive (by simp [NulFree]; decide)

theorem assetSizeLoops_lookup_sample :
    assetSizeLoops (some (cstr "//a/b/")) sampleIndex = some 300 :=
  (assetSizeLoops_lookup named_sampleIndex (by decide)).trans (by decide)

/-! ## Slashes around a path -/

/-- Every path with the same name between its slashes has the same size. -/
def SlashesIgnored (s : ObbIndex) (path : Option CString) : Prop :=
  ∀ path', trimmed path' = trimmed path → (normalize path').length < 4083 →
    nfsmwObbAssetSize path' s = nfsmwObbAssetSize path s

/-- A slash behind the name of a fallback prefix makes the lookup skip that prefix. This
changes nothing if an earlier candidate exists, or none below the prefix, or if the later
candidates give the same. -/
structure SkipHarmless (entries : List ObbEntry) (name : CString) : Prop where
  published : name = cstr "published" →
    (firstNamed entries name).isSome ∨ firstNamed entries (cstr "published/" ++ name) = none ∨
      (firstNamed entries (cstr "published/" ++ name)).map ObbEntry.assetSize =
        (firstNamed entries (cstr "published.1x/" ++ name)).map ObbEntry.assetSize
  published1x : name = cstr "published.1x" →
    (firstNamed entries name).isSome ∨ (firstNamed entries (cstr "published/" ++ name)).isSome ∨
      firstNamed entries (cstr "published.1x/" ++ name) = none

theorem getLast?_rdropWhile_slash {w : CString} :
    (w.rdropWhile (· = slash)).getLast? ≠ some slash := by
  intro h
  obtain ⟨l, hl⟩ := List.getLast?_eq_some_iff.mp h
  have hlast := List.rdropWhile_last_not (· = slash) w (by simp [hl])
  simp [hl] at hlast

theorem rdropWhile_append_slashes {t : CString} (ht : t.getLast? ≠ some slash) (k : Nat) :
    (t ++ List.replicate k slash).rdropWhile (· = slash) = t := by
  induction k with
  | zero =>
    rw [List.replicate_zero, List.append_nil, List.rdropWhile_eq_self_iff]
    intro hne hlast
    exact ht (by rw [List.getLast?_eq_getLast_of_ne_nil hne, of_decide_eq_true hlast])
  | succ k ih =>
    rw [List.replicate_succ', ← List.append_assoc, List.rdropWhile_concat_pos _ _ _ (by simp), ih]

/-- A path is the name between its slashes with the trailing ones. -/
theorem normalize_eq_trimmed (path : Option CString) :
    ∃ k, normalize path = trimmed path ++ List.replicate k slash := by
  refine ⟨((normalize path).rtakeWhile (· = slash)).length, ?_⟩
  have hslashes : (normalize path).rtakeWhile (· = slash) =
      List.replicate ((normalize path).rtakeWhile (· = slash)).length slash :=
    List.eq_replicate_of_mem fun b hb => by simpa using List.mem_rtakeWhile_imp hb
  rw [← hslashes, trimmed, List.rdropWhile_append_rtakeWhile]

/-- A path starts with a prefix because of the slash behind it only if it is the prefix
without its slash. -/
theorem prefix_append_slashes {name t : CString} (hname : name.getLast? ≠ some slash) (k : Nat) :
    name ++ [slash] <+: t ++ List.replicate k slash ↔
      name ++ [slash] <+: t ∨ t = name ∧ 0 < k := by
  induction k with
  | zero => simp
  | succ k ih =>
    have hlast : name ++ [slash] = t ++ List.replicate k slash ++ [slash] ↔ t = name ∧ k = 0 := by
      rw [List.append_left_inj]
      refine ⟨fun h => ?_, fun ⟨h, hk⟩ => by simp [h, hk]⟩
      cases k with
      | zero => exact ⟨by simpa using h.symm, rfl⟩
      | succ k =>
        rw [h, List.replicate_succ', ← List.append_assoc] at hname
        simp at hname
    rw [List.replicate_succ', ← List.append_assoc, List.prefix_concat_iff, hlast, ih]
    grind

/-- The three candidates for a name, of which a fallback is left out if the path starts with
its prefix or is it. -/
theorem lookup_slashes (entries : List ObbEntry) {t : CString} (ht : t.getLast? ≠ some slash)
    (k : Nat) :
    lookup entries (t ++ List.replicate k slash) =
      (firstNamed entries t).or
        ((if cstr "published/" <+: t ∨ t = cstr "published" ∧ 0 < k then none
          else firstNamed entries (cstr "published/" ++ t)).or
        (if cstr "published.1x/" <+: t ∨ t = cstr "published.1x" ∧ 0 < k then none
          else firstNamed entries (cstr "published.1x/" ++ t))) := by
  have hpublished := @prefix_append_slashes (cstr "published") t (by decide) k
  have hpublished1x := @prefix_append_slashes (cstr "published.1x") t (by decide) k
  rw [show cstr "published" ++ [slash] = cstr "published/" by decide] at hpublished
  rw [show cstr "published.1x" ++ [slash] = cstr "published.1x/" by decide] at hpublished1x
  simp only [← hpublished, ← hpublished1x, lookup, prefixesFor, rdropWhile_append_slashes ht,
    assetPrefixes]
  generalize t ++ List.replicate k slash = wanted
  have hne : cstr "published/" ≠ [] ∧ cstr "published.1x/" ≠ [] := by decide
  have hor : ∀ (f : CString → Option ObbEntry) pre prefixes,
      (pre :: prefixes).findSome? f = (f pre).or (prefixes.findSome? f) := by
    intro f pre prefixes
    rw [List.findSome?_cons]
    cases f pre <;> rfl
  by_cases hfirst : cstr "published/" <+: wanted <;>
    by_cases hsecond : cstr "published.1x/" <+: wanted <;>
      simp [hfirst, hsecond, hne, hor]

theorem nfsmwObbAssetSize_slashes (h : NulFree s.entries) {path : Option CString}
    (hshort : (normalize path).length < 4083) {k : Nat}
    (hk : normalize path = trimmed path ++ List.replicate k slash) :
    nfsmwObbAssetSize path s =
      (lookup s.entries (trimmed path ++ List.replicate k slash)).elim (-2)
        ObbEntry.assetSize := by
  rw [nfsmwObbAssetSize_eq, resolvedEntry_eq h hshort, hk]

theorem ObbEntry.assetSize_ne (e : ObbEntry) : e.assetSize ≠ -2 := by
  unfold ObbEntry.assetSize
  split <;> omega

theorem elim_assetSize_inj {a b : Option ObbEntry} :
    a.elim (-2) ObbEntry.assetSize = b.elim (-2) ObbEntry.assetSize ↔
      a.map ObbEntry.assetSize = b.map ObbEntry.assetSize := by
  cases a <;> cases b <;> simp [ObbEntry.assetSize_ne, Ne.symm (ObbEntry.assetSize_ne _)]

/-- Trailing slashes change the size exactly if the prefix skipped matters. -/
theorem lookup_slashes_iff (entries : List ObbEntry) {t : CString}
    (ht : t.getLast? ≠ some slash) {k : Nat} (hk : 0 < k) :
    (lookup entries (t ++ List.replicate k slash)).elim (-2) ObbEntry.assetSize =
        (lookup entries (t ++ List.replicate 0 slash)).elim (-2) ObbEntry.assetSize ↔
      SkipHarmless entries t := by
  rw [elim_assetSize_inj, lookup_slashes entries ht, lookup_slashes entries ht]
  have hother : cstr "published" ≠ cstr "published.1x" := by decide
  have hnot : ¬ cstr "published/" <+: cstr "published" ∧
      ¬ cstr "published.1x/" <+: cstr "published" ∧
      ¬ cstr "published/" <+: cstr "published.1x" ∧
      ¬ cstr "published.1x/" <+: cstr "published.1x" := by decide
  by_cases hpublished : t = cstr "published"
  · subst hpublished
    have hharmless : SkipHarmless entries (cstr "published") ↔ _ :=
      ⟨fun h => h.published rfl, fun h => ⟨fun _ => h, fun h' => absurd h' hother⟩⟩
    rw [hharmless]
    simp only [hnot, hother, hk, false_or, and_true, if_false, Nat.lt_irrefl, and_false,
      if_true]
    generalize firstNamed entries (cstr "published") = exact
    generalize firstNamed entries (cstr "published/" ++ cstr "published") = below
    cases exact <;> cases below <;> simp [eq_comm]
  · by_cases hpublished1x : t = cstr "published.1x"
    · subst hpublished1x
      have hharmless : SkipHarmless entries (cstr "published.1x") ↔ _ :=
        ⟨fun h => h.published1x rfl, fun h => ⟨fun h' => absurd h' hother.symm, fun _ => h⟩⟩
      rw [hharmless]
      simp only [hnot, hother.symm, hk, false_or, and_true, if_false, Nat.lt_irrefl,
        and_false, if_true]
      generalize firstNamed entries (cstr "published.1x") = exact
      generalize firstNamed entries (cstr "published/" ++ cstr "published.1x") = below
      generalize firstNamed entries (cstr "published.1x/" ++ cstr "published.1x") = last
      cases exact <;> cases below <;> cases last <;> simp
    · have hharmless : SkipHarmless entries t :=
        ⟨fun h => absurd h hpublished, fun h => absurd h hpublished1x⟩
      simp [hpublished, hpublished1x, hharmless]

/-- An asset lookup ignores the slashes around a path exactly if it does not matter which
fallback prefix a trailing slash makes it skip. -/
theorem slashesIgnored_iff (h : NulFree s.entries) (hshort : (normalize path).length < 4083) :
    SlashesIgnored s path ↔ SkipHarmless s.entries (trimmed path) := by
  have hlast : (trimmed path).getLast? ≠ some slash := getLast?_rdropWhile_slash
  have hsize : ∀ path', trimmed path' = trimmed path → (normalize path').length < 4083 → ∃ k,
      normalize path' = trimmed path ++ List.replicate k slash ∧ nfsmwObbAssetSize path' s =
        (lookup s.entries (trimmed path ++ List.replicate k slash)).elim (-2)
          ObbEntry.assetSize := by
    intro path' htrimmed hshort'
    obtain ⟨k, hk⟩ := normalize_eq_trimmed path'
    exact ⟨k, by rw [hk, htrimmed], by rw [nfsmwObbAssetSize_slashes h hshort' hk, htrimmed]⟩
  obtain ⟨k, hk, hpath⟩ := hsize path rfl hshort
  constructor
  · intro hignored
    by_cases hspecial :
        trimmed path = cstr "published" ∨ trimmed path = cstr "published.1x"
    · have hform : ∀ k < 2, nfsmwObbAssetSize path s =
          (lookup s.entries (trimmed path ++ List.replicate k slash)).elim (-2)
            ObbEntry.assetSize := by
        intro k hk
        have hnormal : ∀ name, name = cstr "published" ∨ name = cstr "published.1x" → ∀ k < 2,
            trimmed (some (name ++ List.replicate k slash)) = name ∧
              normalize (some (name ++ List.replicate k slash)) =
                name ++ List.replicate k slash ∧
              (name ++ List.replicate k slash).length < 4083 := by
          rintro name (rfl | rfl) <;> decide
        obtain ⟨htrimmed, hnormal, hlength⟩ := hnormal _ hspecial k hk
        rw [← hnormal] at hlength
        rw [← hignored _ htrimmed hlength,
          nfsmwObbAssetSize_slashes h hlength (hnormal.trans (by rw [htrimmed])), htrimmed]
      exact (lookup_slashes_iff _ hlast Nat.one_pos).mp
        ((hform 1 (by decide)).symm.trans (hform 0 (by decide)))
    · exact ⟨fun h => absurd (.inl h) hspecial, fun h => absurd (.inr h) hspecial⟩
  · intro hharmless path' htrimmed hshort'
    -- any number of slashes gives what no slash gives
    have hnone : ∀ k, (lookup s.entries (trimmed path ++ List.replicate k slash)).elim (-2)
        ObbEntry.assetSize = (lookup s.entries (trimmed path ++ List.replicate 0 slash)).elim (-2)
          ObbEntry.assetSize := by
      intro k
      cases k with
      | zero => rfl
      | succ k => exact (lookup_slashes_iff _ hlast (Nat.succ_pos k)).mpr hharmless
    obtain ⟨k', -, hpath'⟩ := hsize path' htrimmed hshort'
    rw [hpath', hpath, hnone k', hnone k]

/-- A file below the prefix `published/` that has the prefix's name. -/
def publishedIndex : ObbIndex :=
  ⟨[⟨cstr "published/published", 5, false⟩], cstr "main.obb", [], 0⟩

theorem not_slashesIgnored_published : NulFree publishedIndex.entries ∧
    nfsmwObbAssetSize (some (cstr "published")) publishedIndex = 5 ∧
    nfsmwObbAssetSize (some (cstr "published/")) publishedIndex = -2 ∧
    ¬ SlashesIgnored publishedIndex (some (cstr "published")) := by
  have hsizes : nfsmwObbAssetSize (some (cstr "published")) publishedIndex = 5 ∧
      nfsmwObbAssetSize (some (cstr "published/")) publishedIndex = -2 := by decide
  refine ⟨by simp [NulFree, publishedIndex]; decide, hsizes.1, hsizes.2, fun h => ?_⟩
  have hsame := h (some (cstr "published/")) (by decide) (by decide)
  rw [hsizes.1, hsizes.2] at hsame
  exact absurd hsame (by decide)

theorem slashesIgnored_iff_sample :
    SlashesIgnored sampleIndex (some (cstr "/a/b")) ↔
      SkipHarmless sampleIndex.entries (trimmed (some (cstr "/a/b"))) :=
  slashesIgnored_iff named_sampleIndex.nulFree (by decide)

end NfsmwRuntime.Obb
