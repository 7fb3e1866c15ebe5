import NfsmwRuntime.Loader.Relocate

/-!
# The reference semantics of relocation

What each relocation leaves in its word is a function of the image before relocation: of the
load bias, the word itself and the symbol. The loader computes it from an image it is
changing, which is the same as long as no word it changes is a table it still reads, or
another entry's word.
-/

namespace NfsmwRuntime.Loader

open Library

section Reference

variable (m : Memory) (image : Elf32Image) (info : Elf32DynamicInfo)
  (resolver : Option Resolver)

/-- The address `S` that a symbol stands for, if it has one: a definition's own, or the
resolver's answer, or 0 for a weak symbol without one. -/
def symbolAddress (symbolIndex : UInt32) : Option UInt32 :=
  let symbol := symbolEntry m info.symbols symbolIndex.toNat
  let answer := resolverAnswer resolver (cstring (nameWindow m image symbol)) symbol.binding
  if symbol.shndx = shnAbs then some symbol.value
  else if symbol.shndx ≠ shnUndef then some (image.loadBias + symbol.value)
  else if answer ≠ 0 then some answer
  else if symbol.binding = stbWeak then some 0
  else none

namespace Elf32Rel

variable (relocation : Elf32Rel)

/-- The entry names a symbol that has no address. -/
def Unresolved : Prop :=
  relocation.type ≠ rArmRelative ∧ symbolAddress m image info resolver relocation.symbol = none

instance : Decidable (relocation.Unresolved m image info resolver) :=
  inferInstanceAs (Decidable (_ ∧ _))

/-- What the entry leaves in its word, which holds `A`: `B + A`, `S + A` or `S`, and `A` where
there is no `S`. -/
def finalWord : UInt32 :=
  let addend := m.load32 (relocation.target image)
  if relocation.type = rArmRelative then image.loadBias + addend
  else match symbolAddress m image info resolver relocation.symbol with
    | none => addend
    | some value => if relocation.type = rArmAbs32 then value + addend else value

/-- The write that the entry stands for. -/
def write : Option Memory.Write :=
  if relocation.Unresolved m image info resolver then none
  else some ⟨relocation.target image, le32 (relocation.finalWord m image info resolver)⟩

/-- The word that the entry patches. -/
def word : Set UInt32 := span (relocation.target image) 4

def Apart (q r : Elf32Rel) : Prop := Disjoint (q.word image) (r.word image)

instance : Std.Symm (Apart image) where
  symm _ _ h := Disjoint.symm h

end Elf32Rel

def relocationTable (table count : UInt32) : List Elf32Rel :=
  (List.range count.toNat).map (relocationEntry m table)

/-- The entries of both tables, in the order in which they are applied. -/
def relocations : List Elf32Rel :=
  relocationTable m info.relocations info.relocationCount ++
    relocationTable m info.pltRelocations info.pltRelocationCount

theorem relocations_eq :
    relocations m info = info.places.map fun place => relocationEntry m place.1 place.2 := by
  rw [relocations, Elf32DynamicInfo.places, List.map_append, List.map_map, List.map_map]
  rfl

/-- The addresses that are read while entries are applied: the symbols, their names and the
entries. -/
def metadata : Set UInt32 :=
  span info.symbols (Elf32Sym.size * info.symbolCount.toNat) ∪
    span image.stringTable image.stringTableSize.toNat ∪
    span info.relocations (Elf32Rel.size * info.relocationCount.toNat) ∪
    span info.pltRelocations (Elf32Rel.size * info.pltRelocationCount.toNat)

end Reference

/-! ## One symbol -/

/-- Two memories that have the same symbols and strings. -/
structure SameSymbols (image : Elf32Image) (info : Elf32DynamicInfo) (m m' : Memory) : Prop where
  symbols : Set.EqOn m m' (span info.symbols (Elf32Sym.size * info.symbolCount.toNat))
  strings : Set.EqOn m m' (span image.stringTable image.stringTableSize.toNat)
  fits : Elf32Sym.size * info.symbolCount.toNat ≤ 2 ^ 32

section Symbol

variable {image : Elf32Image} {info : Elf32DynamicInfo} {resolver : Option Resolver}
  {m m' : Memory}

theorem nameWindow_congr {symbol : Elf32Sym}
    (h : Set.EqOn m m' (span image.stringTable image.stringTableSize.toNat))
    (hname : symbol.name < image.stringTableSize) :
    nameWindow m image symbol = nameWindow m' image symbol :=
  Memory.window_congr (h.mono (nameWindow_subset hname))

theorem relocationSymbol_congr (h : SameSymbols image info m m') (symbolIndex : UInt32) :
    relocationSymbol m image info symbolIndex resolver =
      relocationSymbol m' image info symbolIndex resolver := by
  unfold relocationSymbol
  by_cases hindex : symbolIndex < info.symbolCount
  · have hsymbol : symbolEntry m info.symbols symbolIndex.toNat =
        symbolEntry m' info.symbols symbolIndex.toNat :=
      tableEntry_congr h.fits h.symbols (UInt32.lt_iff_toNat_lt.mp hindex)
    rw [hsymbol]
    by_cases hname : (symbolEntry m' info.symbols symbolIndex.toNat).name < image.stringTableSize
    · dsimp only
      rw [nameWindow_congr h.strings hname]
    · simp only [check, hname, if_false]
      rfl
  · simp only [check, hindex, if_false]
    rfl

def SymbolResult.address : SymbolResult → Option UInt32
  | .value v => some v
  | .unresolved _ => none

/-- A symbol that the loader accepts has the reference's address. -/
theorem relocationSymbol_eq_ok {symbolIndex : UInt32} {result : SymbolResult}
    (h : relocationSymbol m image info symbolIndex resolver = .ok result) :
    symbolAddress m image info resolver symbolIndex = result.address := by
  obtain ⟨_, _, h₁⟩ := bind_eq_ok.mp h
  obtain ⟨_, _, h₂⟩ := bind_eq_ok.mp h₁
  obtain ⟨_, _, h₃⟩ := bind_eq_ok.mp h₂
  unfold symbolAddress
  dsimp only at h₃ ⊢
  split at h₃
  · rename_i hdefined
    obtain ⟨_, _, h₄⟩ := bind_eq_ok.mp h₃
    obtain ⟨_, _, h₅⟩ := bind_eq_ok.mp h₄
    cases h₅
    by_cases habs : (symbolEntry m info.symbols symbolIndex.toNat).shndx = shnAbs
    · rw [if_pos habs, if_pos habs]
      rfl
    · rw [if_neg habs, if_neg habs, if_pos hdefined]
      rfl
  · rename_i hundefined
    rw [not_not] at hundefined
    have habs : shnUndef ≠ shnAbs := by decide
    rw [hundefined, if_neg habs, if_neg (not_not.mpr rfl)]
    cases h₃
    split
    · rfl
    · split <;> rfl

end Symbol

/-! ## The metadata -/

theorem parseRelocationInfo_fits {m : Memory} {image : Elf32Image} {info : Elf32DynamicInfo}
    (h : parseRelocationInfo m image = .ok info) :
    Elf32Sym.size * info.symbolCount.toNat ≤ 2 ^ 32 ∧
      Elf32Rel.size * info.relocationCount.toNat ≤ 2 ^ 32 ∧
      Elf32Rel.size * info.pltRelocationCount.toNat ≤ 2 ^ 32 := by
  obtain ⟨_, _, h₁⟩ := bind_eq_ok.mp h
  obtain ⟨_, hcount, h₂⟩ := bind_eq_ok.mp h₁
  obtain ⟨_, _, h₃⟩ := bind_eq_ok.mp h₂
  obtain ⟨_, _, h₄⟩ := bind_eq_ok.mp h₃
  cases h₄
  have hle := UInt32.le_iff_toNat_le.mp (check_eq_ok.mp hcount).2.1
  have heighth : ∀ size : UInt32, Elf32Rel.size * (size / 8).toNat ≤ 2 ^ 32 := by
    intro size
    have hdiv : (size / 8).toNat = size.toNat / 8 := rfl
    have hlt := size.toNat_lt
    rw [hdiv, Elf32Rel.size]
    omega
  refine ⟨?_, heighth _, heighth _⟩
  change _ ≤ 268435455 at hle
  dsimp only [Elf32Sym.size]
  omega

section Metadata

variable {m m' : Memory} {image : Elf32Image} {info : Elf32DynamicInfo}
  (hinfo : parseRelocationInfo m image = .ok info)
  (h : Set.EqOn m' m (metadata image info))

include hinfo h

theorem sameSymbols_of_metadata : SameSymbols image info m' m where
  symbols := h.mono fun _ hx => .inl (.inl (.inl hx))
  strings := h.mono fun _ hx => .inl (.inl (.inr hx))
  fits := (parseRelocationInfo_fits hinfo).1

theorem relocationEntry_congr {place : UInt32 × Nat} (hplace : place ∈ info.places) :
    relocationEntry m' place.1 place.2 = relocationEntry m place.1 place.2 := by
  obtain ⟨-, hrel, hplt⟩ := parseRelocationInfo_fits hinfo
  rcases List.mem_append.mp hplace with hmem | hmem
  · obtain ⟨index, hindex, rfl⟩ := List.mem_map.mp hmem
    exact tableEntry_congr hrel (h.mono fun _ hx => .inl (.inr hx)) (List.mem_range.mp hindex)
  · obtain ⟨index, hindex, rfl⟩ := List.mem_map.mp hmem
    exact tableEntry_congr hplt (h.mono fun _ hx => .inr hx) (List.mem_range.mp hindex)

end Metadata

/-! ## One entry -/

def RelocationStats.applied (stats : RelocationStats) : Nat :=
  stats.relative + stats.absolute + stats.globalData + stats.jumpSlots

theorem RelocationStats.applied_countRelative (stats : RelocationStats) :
    stats.countRelative.applied = stats.applied + 1 := by
  simp only [applied, countRelative]
  omega

theorem RelocationStats.applied_countSymbol (type : UInt32) (stats : RelocationStats) :
    (stats.countSymbol type).applied = stats.applied + 1 := by
  unfold countSymbol applied
  split
  · dsimp only
    omega
  · split <;> dsimp only <;> omega

@[simp] theorem RelocationStats.unresolved_countSymbol (type : UInt32) (stats : RelocationStats) :
    (stats.countSymbol type).unresolved = stats.unresolved := by
  unfold countSymbol
  split
  · rfl
  · split <;> rfl

section Apply

variable (m : Memory) (image : Elf32Image) (info : Elf32DynamicInfo)
  (resolver : Option Resolver)

/-- From one state to the other the entries have been applied as the reference says for the
memory `m`, and counted. -/
structure Applied (entries : List Elf32Rel) (s t : State) : Prop where
  memory : t.memory = s.memory.writeAll (entries.filterMap (·.write m image info resolver))
  applied : t.stats.applied = s.stats.applied + entries.length
  unresolved : t.stats.unresolved = s.stats.unresolved +
    entries.countP fun r => r.Unresolved m image info resolver

variable {m image info resolver} {s t u : State}

theorem Applied.refl (s : State) : Applied m image info resolver [] s s :=
  ⟨rfl, rfl, rfl⟩

theorem Applied.append {es fs : List Elf32Rel} (hes : Applied m image info resolver es s t)
    (hfs : Applied m image info resolver fs t u) :
    Applied m image info resolver (es ++ fs) s u where
  memory := by rw [hfs.memory, hes.memory, List.filterMap_append, Memory.writeAll_append]
  applied := by rw [hfs.applied, hes.applied, List.length_append, Nat.add_assoc]
  unresolved := by rw [hfs.unresolved, hes.unresolved, List.countP_append, Nat.add_assoc]

theorem applied_of_write {r : Elf32Rel} (hresolved : ¬ r.Unresolved m image info resolver)
    (hmemory : t.memory = s.memory.store32 (r.target image) (r.finalWord m image info resolver))
    (happlied : t.stats.applied = s.stats.applied + 1)
    (hunresolved : t.stats.unresolved = s.stats.unresolved) :
    Applied m image info resolver [r] s t where
  memory := by
    rw [hmemory]
    simp [Elf32Rel.write, hresolved, Memory.store32]
  applied := happlied
  unresolved := by simp [hunresolved, hresolved]

/-- All that one turn of the loop in `apply_relocations` can do. -/
theorem applyRelocation_eq_ok {table : UInt32} {index : Nat} {r : Elf32Rel}
    (hr : relocationEntry s.memory table index = r)
    (h : (applyRelocation image info resolver table index).run s = .ok () t) :
    rangeInImage image (r.target image) 4 ∧
      ((r.type = rArmRelative ∧
          t = State.storeWord (r.target image)
            (image.loadBias + s.memory.load32 (r.target image))
            { s with stats := s.stats.countRelative }) ∨
        (r.type ≠ rArmRelative ∧ ∃ name,
          relocationSymbol s.memory image info r.symbol resolver = .ok (.unresolved name) ∧
          t = State.countUnresolved name { s with stats := s.stats.countSymbol r.type }) ∨
        (r.type ≠ rArmRelative ∧ ∃ value,
          relocationSymbol s.memory image info r.symbol resolver = .ok (.value value) ∧
          t = State.storeWord (r.target image)
            (if r.type = rArmAbs32 then value + s.memory.load32 (r.target image) else value)
            { s with stats := s.stats.countSymbol r.type })) := by
  unfold applyRelocation at h
  rw [Command.run_get_bind] at h
  obtain ⟨_, v, hcheck, happly⟩ := Command.run_bind_eq_ok.mp h
  obtain ⟨hrange, rfl⟩ := Command.run_lift_eq_ok.mp hcheck
  rw [hr] at hrange happly
  refine ⟨check_eq_ok.mp hrange, ?_⟩
  split at happly
  · rename_i hrelative
    cases happly
    exact .inl ⟨hrelative, rfl⟩
  · rename_i hrelative
    split at happly
    · obtain ⟨_, w, hcount, hbind⟩ := Command.run_bind_eq_ok.mp happly
      cases hcount
      obtain ⟨result, x, hlift, hstore⟩ := Command.run_bind_eq_ok.mp hbind
      obtain ⟨hsymbol, rfl⟩ := Command.run_lift_eq_ok.mp hlift
      cases result with
      | unresolved name =>
        cases hstore
        exact .inr (.inl ⟨hrelative, name, hsymbol, rfl⟩)
      | value value =>
        cases hstore
        exact .inr (.inr ⟨hrelative, value, hsymbol, rfl⟩)
    · cases happly

/-- One entry, read from a memory that agrees with `m` on all that the entry reads. -/
theorem applyRelocation_applied {table : UInt32} {index : Nat}
    (hsymbols : SameSymbols image info s.memory m)
    (hentry : relocationEntry s.memory table index = relocationEntry m table index)
    (hword : Set.EqOn s.memory m ((relocationEntry m table index).word image))
    (h : (applyRelocation image info resolver table index).run s = .ok () t) :
    Applied m image info resolver [relocationEntry m table index] s t := by
  obtain ⟨-, hcases⟩ := applyRelocation_eq_ok hentry h
  generalize relocationEntry m table index = r at *
  rw [relocationSymbol_congr hsymbols, Memory.load32_congr hword] at hcases
  rcases hcases with ⟨hrelative, rfl⟩ | ⟨hrelative, name, hsymbol, rfl⟩ |
    ⟨hrelative, value, hsymbol, rfl⟩
  · refine applied_of_write (fun hunresolved => hunresolved.1 hrelative) ?_
      (RelocationStats.applied_countRelative _) rfl
    rw [Elf32Rel.finalWord, if_pos hrelative]
    rfl
  · have hunresolved : r.Unresolved m image info resolver :=
      ⟨hrelative, relocationSymbol_eq_ok hsymbol⟩
    refine ⟨?_, RelocationStats.applied_countSymbol _ _, ?_⟩
    · simp [Elf32Rel.write, hunresolved, State.countUnresolved]
    · simp [hunresolved, State.countUnresolved]
  · have haddress := relocationSymbol_eq_ok hsymbol
    refine applied_of_write (fun hunresolved => ?_) ?_
      (RelocationStats.applied_countSymbol _ _) (RelocationStats.unresolved_countSymbol _ _)
    · have hnone := hunresolved.2
      rw [haddress] at hnone
      cases hnone
    · unfold Elf32Rel.finalWord
      rw [if_neg hrelative, haddress]
      rfl

/-! ## The loops -/

theorem Elf32Rel.write_eq_some {r : Elf32Rel} {w : Memory.Write}
    (hw : r.write m image info resolver = some w) :
    ¬ r.Unresolved m image info resolver ∧ w.target = r.word image := by
  unfold write at hw
  split at hw
  · cases hw
  · rename_i hresolved
    cases hw
    exact ⟨hresolved, rfl⟩

/-- Applying entries changes their words only. -/
theorem Applied.eqOn {es : List Elf32Rel} {kept : Set UInt32}
    (h : Applied m image info resolver es s t)
    (hapart : ∀ r ∈ es, Disjoint (r.word image) kept) : Set.EqOn t.memory s.memory kept := by
  rw [h.memory]
  refine Memory.writeAll_eqOn fun w hw => ?_
  obtain ⟨r, hr, hwrite⟩ := List.mem_filterMap.mp hw
  rw [(Elf32Rel.write_eq_some hwrite).2]
  exact hapart r hr

/-- Entries of the tables, applied to a memory that still has the metadata and their words. -/
theorem applyPlaces_applied {places : List (UInt32 × Nat)}
    (hinfo : parseRelocationInfo m image = .ok info)
    (hplaces : ∀ place ∈ places, place ∈ info.places)
    (hmetadata : ∀ place ∈ places,
      Disjoint ((relocationEntry m place.1 place.2).word image) (metadata image info))
    (hapart : (places.map fun place => relocationEntry m place.1 place.2).Pairwise
      (Elf32Rel.Apart image))
    (hagree : Set.EqOn s.memory m (metadata image info))
    (hwords : ∀ place ∈ places,
      Set.EqOn s.memory m ((relocationEntry m place.1 place.2).word image))
    (h : (forM places fun place => applyRelocation image info resolver place.1 place.2).run s =
      .ok () t) :
    Applied m image info resolver (places.map fun place => relocationEntry m place.1 place.2)
      s t := by
  induction places generalizing s with
  | nil =>
    cases h
    exact .refl _
  | cons place places ih =>
    obtain ⟨hplace, hrest⟩ := List.forall_mem_cons.mp hplaces
    obtain ⟨hfirst_word, hother_words⟩ := List.forall_mem_cons.mp hwords
    obtain ⟨hfirst_metadata, hother_metadata⟩ := List.forall_mem_cons.mp hmetadata
    obtain ⟨hfirst_apart, hothers_apart⟩ := List.pairwise_cons.mp hapart
    obtain ⟨_, u, hfirst, hothers⟩ := Command.run_bind_eq_ok.mp h
    have hstep := applyRelocation_applied (sameSymbols_of_metadata hinfo hagree)
      (relocationEntry_congr hinfo hagree hplace) hfirst_word hfirst
    -- the other words and the metadata are not the first entry's word
    refine hstep.append (ih hrest hother_metadata hothers_apart ?_ (fun other hother => ?_) hothers)
    · exact (hstep.eqOn (List.forall_mem_singleton.mpr hfirst_metadata)).trans hagree
    · have hword := hfirst_apart _ (List.mem_map_of_mem hother)
      exact (hstep.eqOn (List.forall_mem_singleton.mpr hword)).trans (hother_words other hother)

end Apply

/-! ## The whole image -/

/-- Each entry's word holds what the reference says. -/
theorem Applied.finalWord {image : Elf32Image} {info : Elf32DynamicInfo}
    {resolver : Option Resolver} {es : List Elf32Rel} {s t : State}
    (h : Applied s.memory image info resolver es s t)
    (hapart : es.Pairwise (Elf32Rel.Apart image)) {r : Elf32Rel} (hr : r ∈ es) :
    t.memory.load32 (r.target image) = r.finalWord s.memory image info resolver := by
  by_cases hunresolved : r.Unresolved s.memory image info resolver
  · have hkept : Set.EqOn t.memory s.memory (r.word image) := by
      rw [h.memory]
      refine Memory.writeAll_eqOn fun w hw => ?_
      obtain ⟨q, hq, hwrite⟩ := List.mem_filterMap.mp hw
      obtain ⟨hresolved, htarget⟩ := Elf32Rel.write_eq_some hwrite
      rw [htarget]
      exact hapart.forall hq hr fun hsame => hresolved (hsame ▸ hunresolved)
    obtain ⟨hrelative, hnone⟩ := hunresolved
    rw [Memory.load32_congr hkept, Elf32Rel.finalWord, if_neg hrelative, hnone]
  · have hdisjoint : (es.filterMap (·.write s.memory image info resolver)).Pairwise
        fun w v => Disjoint w.target v.target := by
      refine hapart.filterMap _ fun q q' hqq' w hw v hv => ?_
      rw [(Elf32Rel.write_eq_some hw).2, (Elf32Rel.write_eq_some hv).2]
      exact hqq'
    have hmem : ⟨r.target image, le32 (r.finalWord s.memory image info resolver)⟩ ∈
        es.filterMap (·.write s.memory image info resolver) :=
      List.mem_filterMap.mpr ⟨r, hr, by rw [Elf32Rel.write, if_neg hunresolved]⟩
    rw [h.memory]
    exact Memory.load32_writeAll hdisjoint hmem

/-- `elf32_relocate` up to the counts and the words: it reads the tables of the image it
starts from, and a successful return has applied all their entries. -/
theorem elf32Relocate_eq_ok {host : Host} {image : Elf32Image} {resolver : Option Resolver}
    {s t : State} {info : Elf32DynamicInfo}
    (hinfo : parseRelocationInfo s.memory image = .ok info)
    (hmetadata : ∀ r ∈ relocations s.memory info, Disjoint (r.word image) (metadata image info))
    (hapart : (relocations s.memory info).Pairwise (Elf32Rel.Apart image))
    (h : (elf32Relocate host image resolver).run s = .ok () t) :
    Applied s.memory image info resolver (relocations s.memory info)
      { s with stats := {}, firstUnresolved := none } t := by
  obtain ⟨info', u, v, hsetup, happly, hprotect⟩ := elf32Relocate_steps h
  obtain ⟨hparsed, hwritable⟩ := relocationSetup_eq_ok hsetup
  cases hinfo.symm.trans hparsed
  have hbefore := setSegmentsWritable_contents hwritable
  have hafter := protectSegments_contents hprotect
  have hbefore_memory : u.memory = s.memory := congrArg (·.1) hbefore
  have hkept : ∀ kept : Set UInt32, Set.EqOn u.memory s.memory kept :=
    fun kept => hbefore_memory ▸ Set.eqOn_refl s.memory kept
  simp only [relocations_eq, List.forall_mem_map] at hmetadata hapart ⊢
  have happlied := applyPlaces_applied hinfo (fun _ hplace => hplace) hmetadata hapart (hkept _)
    (fun _ _ => hkept _) happly
  have hafter_memory : t.memory = v.memory := congrArg (·.1) hafter
  have hafter_stats : t.stats = v.stats := congrArg (·.2.2.1) hafter
  have hbefore_stats : u.stats = {} := congrArg (·.2.2.1) hbefore
  refine ⟨?_, ?_, ?_⟩
  · rw [hafter_memory, happlied.memory, hbefore_memory]
  · rw [hafter_stats, happlied.applied, hbefore_stats]
  · rw [hafter_stats, happlied.unresolved, hbefore_stats]

/-- `elf32_relocate` meets the reference: when it returns 0, each entry's word holds what the
reference says, every byte outside the words is as before, and each entry is counted, and
counted as unresolved if it is. -/
theorem elf32Relocate_reference {host : Host} {image : Elf32Image} {resolver : Option Resolver}
    {s t : State} {info : Elf32DynamicInfo}
    (hinfo : parseRelocationInfo s.memory image = .ok info)
    (hmetadata : ∀ r ∈ relocations s.memory info, Disjoint (r.word image) (metadata image info))
    (hapart : (relocations s.memory info).Pairwise (Elf32Rel.Apart image))
    (h : (elf32Relocate host image resolver).run s = .ok () t) :
    (∀ r ∈ relocations s.memory info,
      t.memory.load32 (r.target image) = r.finalWord s.memory image info resolver) ∧
    (∀ x, (∀ r ∈ relocations s.memory info, x ∉ r.word image) → t.memory x = s.memory x) ∧
    t.stats.relative + t.stats.absolute + t.stats.globalData + t.stats.jumpSlots =
      (relocations s.memory info).length ∧
    t.stats.unresolved = (relocations s.memory info).countP fun r =>
      r.Unresolved s.memory image info resolver := by
  have happlied := elf32Relocate_eq_ok hinfo hmetadata hapart h
  refine ⟨fun r hr => Applied.finalWord (s := { s with stats := {}, firstUnresolved := none })
    happlied hapart hr, fun x hx => ?_, ?_, ?_⟩
  · have hkept : Set.EqOn t.memory s.memory {x} :=
      happlied.eqOn fun r hr => Set.disjoint_singleton_right.mpr (hx r hr)
    exact hkept rfl
  · exact happlied.applied.trans (Nat.zero_add _)
  · exact happlied.unresolved.trans (Nat.zero_add _)

/-! ## The sample file, relocated -/

def sampleResolver : Resolver := fun name _ => if name = cstr "f" then 0x1000 else 0

def sampleInfo : Elf32DynamicInfo := ⟨0x400000d4, 2, 0x400000fc, 2, 0x4000010c, 1⟩

def sampleRelocations : List Elf32Rel := [⟨284, 23⟩, ⟨288, 0x102⟩, ⟨292, 0x116⟩]

theorem sampleMapped_info :
    parseRelocationInfo sampleMapped.memory sampleMapped.image = .ok sampleInfo := by
  decide +kernel

theorem sampleMapped_relocations :
    relocations sampleMapped.memory sampleInfo = sampleRelocations := by
  decide +kernel

theorem sampleMapped_addresses : sampleMapped.image.loadBias = 0x40000000 ∧
    sampleMapped.image.stringTable = 0x40000114 ∧ sampleMapped.image.stringTableSize = 7 := by
  decide +kernel

/-- The words of the sample are behind its tables. -/
theorem sampleRelocations_metadata : ∀ r ∈ sampleRelocations,
    Disjoint (r.word sampleMapped.image) (metadata sampleMapped.image sampleInfo) := by
  intro r hr
  simp only [metadata, Set.disjoint_union_right, Elf32Rel.word, Elf32Rel.target,
    sampleMapped_addresses]
  refine ⟨⟨⟨?_, ?_⟩, ?_⟩, ?_⟩ <;> refine disjoint_span ?_ ?_ <;> revert r <;> decide

theorem sampleRelocations_apart :
    sampleRelocations.Pairwise (Elf32Rel.Apart sampleMapped.image) := by
  have hstarts : sampleRelocations.Pairwise fun q r =>
      0x40000000 + r.offset ∉ span (0x40000000 + q.offset) 4 ∧
        0x40000000 + q.offset ∉ span (0x40000000 + r.offset) 4 := by decide
  refine hstarts.imp fun {q r} h => ?_
  rw [Elf32Rel.Apart, Elf32Rel.word, Elf32Rel.word, Elf32Rel.target, Elf32Rel.target,
    sampleMapped_addresses.1]
  exact disjoint_span h.1 h.2

def sampleRelocated : EStateM.Result Failure State Unit :=
  (elf32Relocate sampleHost sampleMapped.image (some sampleResolver)).run sampleMapped

theorem elf32Relocate_reference_sample :
    (Command.final sampleRelocated).memory.load32 0x40000120 = 0x1004 := by
  have htarget : Elf32Rel.target ⟨288, 0x102⟩ sampleMapped.image = 0x40000120 := by
    decide +kernel
  have hfinal : Elf32Rel.finalWord sampleMapped.memory sampleMapped.image sampleInfo
      (some sampleResolver) ⟨288, 0x102⟩ = 0x1004 := by decide +kernel
  have hrun : sampleRelocated = .ok () (Command.final sampleRelocated) :=
    Command.eq_ok_of_succeeded (by decide +kernel)
  rw [← htarget, ← hfinal]
  refine (elf32Relocate_reference sampleMapped_info ?_ ?_ hrun).1 _ ?_
  · rw [sampleMapped_relocations]
    exact sampleRelocations_metadata
  · rw [sampleMapped_relocations]
    exact sampleRelocations_apart
  · rw [sampleMapped_relocations]
    decide

end NfsmwRuntime.Loader
