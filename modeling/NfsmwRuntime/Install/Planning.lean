import NfsmwRuntime.Library.Keyed
import NfsmwRuntime.Install.Transaction

/-!
# From the packages to a plan

The rules of a recipe find files in the packages, and name where each is to be installed. On the
file systems of memory cards the case of a name does not count: of two files for one place, whose
names may be spelled differently, there may be only one content.
-/

namespace NfsmwRuntime.Install

open Library

/-! ## Collecting -/

/-- A member of an archive. -/
structure Entry where
  name : CString
  size : Nat
  crc : Nat
  deriving DecidableEq, Repr

/-- A file that a rule has found. -/
structure Planned where
  ruleId : CString
  destination : CString
  member : Option CString
  size : Nat
  crc : Option Nat
  deriving DecidableEq, Repr

def Planned.identity (item : Planned) : Nat × Option Nat := (item.size, item.crc)

def totalBytes (items : List Planned) : Nat := items.foldl (fun total item => total + item.size) 0

/-- A rule that extracts a tree, for one ABI: its patterns, as a test of a name, and its checks,
of the number of files and bytes. -/
structure TreeRule where
  id : CString
  root : CString
  stripPrefix : Option CString
  admits : CString → Bool
  spec : Nat → Nat → Option CString

/-- The prefix to strip is that of a folder. -/
def TreeRule.strip (rule : TreeRule) : CString :=
  match rule.stripPrefix with
  | none => []
  | some strip => if strip = [] ∨ strip.getLast? = some 47 then strip else strip ++ [47]

/-- A member of the archive that the rule is for, and where it goes. -/
def TreeRule.select (rule : TreeRule) (entry : Entry) : Option Planned :=
  if rule.admits entry.name ∧ rule.strip.isPrefixOf entry.name then
    let relative := entry.name.drop rule.strip.length
    if relative = [] then none
    else some ⟨rule.id, rule.root ++ 47 :: relative, some entry.name, entry.size, some entry.crc⟩
  else none

section Definitions

variable (casefold : CString → CString)

def Planned.key (item : Planned) : CString := casefold item.destination

/-- Two members of one rule would be one file. -/
def collectConflict (previous item : Planned) : Failure :=
  .plan (item.ruleId ++ cstr ": " ++ previous.member.getD [] ++ cstr " and " ++
    item.member.getD [] ++ cstr " both map to " ++ item.destination ++
    cstr " with different content")

def collectEntry (items : List Planned) (item : Planned) : Except Failure (List Planned) := do
  validateRelativePath (cstr "destination for " ++ item.ruleId) item.destination
  match items.find? fun previous => previous.key casefold = item.key casefold with
  | some previous => do
    check (previous.identity = item.identity) (collectConflict previous item)
    .ok items
  | none => .ok (items ++ [item])

/-- `collect_rule` for a tree, with the members of all packages that are containers. -/
def collectEntries (rule : TreeRule) (entries : List Entry) : Except Failure (List Planned) := do
  let items ← (entries.filterMap rule.select).foldlM (collectEntry casefold) []
  if items = [] then .ok items
  else match rule.spec items.length (totalBytes items) with
    | some reason => .error (.plan (rule.id ++ cstr ": " ++ reason))
    | none => .ok items

/-! ## The plan -/

/-- A rule with what `collect_rule` finds by it and why it rejects the rest. -/
structure Rule where
  id : CString
  description : CString
  required : Bool
  patterns : List CString
  collected : Except Failure (List Planned × List CString)

/-- What the rules find together. -/
def gatherItems (abi : CString) : List Rule → Except Failure (List Planned)
  | [] => .ok []
  | rule :: rules => do
    let found ← rule.collected
    check (found.1 ≠ [] ∨ rule.required = false) (.plan (rule.id ++ cstr " (" ++ rule.description ++
      cstr ") found nothing for abi " ++ abi ++ cstr ". Patterns: " ++
      (cstr ", ").intercalate rule.patterns ++ cstr ". " ++
      if found.2 = [] then cstr "no entry matched" else (cstr "; ").intercalate (found.2.take 3)))
    let items ← gatherItems abi rules
    .ok (found.1 ++ items)

def rstripSlash (path : CString) : CString := (path.reverse.dropWhile (· = 47)).reverse

def under (path root : CString) : Bool := (rstripSlash root ++ [47]).isPrefixOf path

/-- Two rules would write one file. -/
def writeConflict (previous item : Planned) : Failure :=
  .plan (cstr "rules " ++ previous.ruleId ++ cstr " and " ++ item.ruleId ++ cstr " both write " ++
    item.destination ++ cstr " with different content")

/-- The later of two items with one destination stays, in the place of the earlier. -/
def writeItem (items : List Planned) (item : Planned) : Except Failure (List Planned) :=
  match items.find? fun previous => previous.key casefold = item.key casefold with
  | some previous => do
    check (previous.identity = item.identity) (writeConflict previous item)
    .ok (items.map fun other => if other.key casefold = item.key casefold then item else other)
  | none => .ok (items ++ [item])

def mergeItem (roots : List CommitRoot) (items : List Planned) (item : Planned) :
    Except Failure (List Planned) := do
  let merged ← writeItem casefold items item
  check (∃ root ∈ roots, item.destination = root.path ∨ under item.destination root.path)
    (.plan (item.destination ++ cstr " writes outside every commit root"))
  .ok merged

structure Resolved where
  abi : CString
  items : List Planned
  roots : List CommitRoot
  deriving DecidableEq, Repr

def buildPlan (abi : CString) (roots : List CommitRoot) (rules : List Rule) :
    Except Failure Resolved := do
  let items ← gatherItems abi rules
  let destinations ← items.foldlM (mergeItem casefold roots) []
  .ok ⟨abi, destinations.mergeSort fun p q => decide (p.key casefold ≤ q.key casefold), roots⟩

end Definitions

/-! ## What can be planned -/

section Planned

variable {casefold : CString → CString} {items items' : List Planned} {item : Planned}
  {roots : List CommitRoot} {rule : TreeRule} {entries : List Entry}

theorem collectEntry_eq_ok : collectEntry casefold items item = .ok items' ↔
    validateRelativePath (cstr "destination for " ++ item.ruleId) item.destination = .ok () ∧
      insertKeyed (Planned.key casefold) Planned.identity (fun first _ => first) collectConflict
        items item = .ok items' := by
  have hsame : (items.map fun other => if other.key casefold = item.key casefold then other
      else other) = items := by simp
  have hcollect : collectEntry casefold items item = (do
      validateRelativePath (cstr "destination for " ++ item.ruleId) item.destination
      insertKeyed (Planned.key casefold) Planned.identity (fun first _ => first) collectConflict
        items item) := by
    rw [collectEntry, insertKeyed, hsame]
    cases items.find? fun previous => previous.key casefold = item.key casefold <;> rfl
  rw [hcollect, bind_eq_ok]
  constructor
  · rintro ⟨_, h⟩
    exact h
  · rintro h
    exact ⟨(), h⟩

theorem mergeItem_eq_ok : mergeItem casefold roots items item = .ok items' ↔
    (∃ root ∈ roots, item.destination = root.path ∨ under item.destination root.path) ∧
      insertKeyed (Planned.key casefold) Planned.identity (fun _ last => last) writeConflict items
        item = .ok items' := by
  have hwrite : writeItem casefold items item = insertKeyed (Planned.key casefold)
      Planned.identity (fun _ last => last) writeConflict items item := by
    rw [writeItem, insertKeyed]
    cases items.find? fun previous => previous.key casefold = item.key casefold <;> rfl
  simp only [mergeItem, hwrite, bind_eq_ok, check_eq_ok]
  constructor
  · rintro ⟨_, hmerged, _, hunder, h⟩
    exact ⟨hunder, Except.ok.inj h ▸ hmerged⟩
  · rintro ⟨hunder, hmerged⟩
    exact ⟨_, hmerged, (), hunder, rfl⟩

/-- Two contents for one destination are at odds, whatever the case of their names. -/
abbrev Agree (casefold : CString → CString) (items : List Planned) : Prop :=
  Consistent (Planned.key casefold) Planned.identity items

theorem collectEntries_eq_ok : collectEntries casefold rule entries = .ok items ↔
    (entries.filterMap rule.select).foldlM (collectEntry casefold) [] = .ok items ∧
      (items = [] ∨ rule.spec items.length (totalBytes items) = none) := by
  rw [collectEntries, bind_eq_ok]
  constructor
  · rintro ⟨collected, hcollected, h⟩
    split_ifs at h with hempty
    · obtain rfl := Except.ok.inj h
      exact ⟨hcollected, .inl hempty⟩
    · split at h
      · cases h
      · rename_i hspec
        obtain rfl := Except.ok.inj h
        exact ⟨hcollected, .inr hspec⟩
  · rintro ⟨hcollected, hspec⟩
    refine ⟨items, hcollected, ?_⟩
    split_ifs with hempty
    · rfl
    · rw [hspec.resolve_left hempty]

/-! ### Trees -/

theorem strip_eq (rule : TreeRule) : rule.strip = [] ∨ ∃ front, rule.strip = front ++ [47] := by
  unfold TreeRule.strip
  split
  · exact .inl rfl
  · rename_i strip hstrip
    split_ifs with h
    · exact h.imp_right fun hlast => List.getLast?_eq_some_iff.mp hlast
    · exact .inr ⟨strip, rfl⟩

/-- Behind the prefix, a name in an archive is still a path of names. -/
theorem select_eq_some {entry : Entry} (hname : safeZipName entry.name = some entry.name)
    (h : rule.select entry = some item) : ∃ relative,
      item.destination = rule.root ++ 47 :: relative ∧ item.ruleId = rule.id ∧
        (∀ b ∈ relative, b ≠ 92) ∧ ∀ part ∈ relative.splitOn 47, Proper part := by
  obtain ⟨-, hbytes, hparts⟩ := safeZipName_eq_some.mp hname
  unfold TreeRule.select at h
  dsimp only at h
  split_ifs at h with hselected hempty
  obtain rfl := Option.some.inj h
  obtain ⟨relative, hrelative⟩ := List.isPrefixOf_iff_prefix.mp hselected.2
  refine ⟨relative, ?_, rfl, fun b hb => ?_, fun part hpart => hparts part ?_⟩
  · rw [← hrelative, List.drop_left]
  · exact (hbytes b (hrelative ▸ List.mem_append_right _ hb)).2.1
  · rw [← hrelative]
    rcases strip_eq rule with hnil | ⟨front, hfront⟩
    · rwa [hnil, List.nil_append]
    · rw [hfront, List.append_assoc, List.singleton_append, List.splitOn_append_cons_self]
      exact List.mem_append_right _ hpart

/-- The members of an archive that a rule is for, whose names have passed the check of archives,
can be collected exactly if none of their names has a control character, no two of them are at
odds, and their number and size are as they should be. -/
theorem collectEntries_ok_iff {label : CString}
    (hroot : validateRelativePath label rule.root = .ok ())
    (hnames : ∀ entry ∈ entries, safeZipName entry.name = some entry.name) :
    (∃ items, collectEntries casefold rule entries = .ok items) ↔
      (∀ item ∈ entries.filterMap rule.select, ∀ b ∈ item.destination, 32 ≤ b) ∧
        Agree casefold (entries.filterMap rule.select) ∧
        ∀ items, (entries.filterMap rule.select).foldlM (collectEntry casefold) [] = .ok items →
          items = [] ∨ rule.spec items.length (totalBytes items) = none := by
  obtain ⟨hrootBytes, hrootParts⟩ := validateRelativePath_eq_ok.mp hroot
  have hvalid : ∀ item ∈ entries.filterMap rule.select,
      (validateRelativePath (cstr "destination for " ++ item.ruleId) item.destination = .ok () ↔
        ∀ b ∈ item.destination, 32 ≤ b) := by
    intro item hitem
    obtain ⟨entry, hentry, hselect⟩ := List.mem_filterMap.mp hitem
    obtain ⟨relative, hdestination, -, hslash, hparts⟩ :=
      select_eq_some (hnames entry hentry) hselect
    rw [validateRelativePath_eq_ok, hdestination, List.splitOn_append_cons_self]
    refine ⟨fun h b hb => (h.1 b hb).1, fun h => ⟨fun b hb => ⟨h b hb, ?_⟩,
      List.forall_mem_append.mpr ⟨hrootParts, hparts⟩⟩⟩
    rcases List.mem_append.mp hb with hb | hb
    · exact (hrootBytes b hb).2
    · rcases List.mem_cons.mp hb with rfl | hb
      · decide
      · exact hslash b hb
  have hall : (∃ items, (entries.filterMap rule.select).foldlM (collectEntry casefold) [] =
      .ok items) ↔ _ := foldlM_ok_iff (C := fun item => validateRelativePath
    (cstr "destination for " ++ item.ruleId) item.destination = .ok ()) (fun c _ => .inl rfl)
    fun _ _ _ => collectEntry_eq_ok
  rw [forall₂_congr hvalid] at hall
  rw [← and_assoc, ← hall]
  simp only [collectEntries_eq_ok]
  constructor
  · rintro ⟨items, hitems, hspec⟩
    refine ⟨⟨items, hitems⟩, fun items' hitems' => ?_⟩
    obtain rfl := Except.ok.inj (hitems.symm.trans hitems')
    exact hspec
  · rintro ⟨⟨items, hitems⟩, hspec⟩
    exact ⟨items, hitems, hspec items hitems⟩

/-- One name with a control character is enough for nothing to be installed. -/
def sampleRule : TreeRule where
  id := cstr "assets"
  root := cstr "assets"
  stripPrefix := some (cstr "assets")
  admits _ := true
  spec _ _ := none

def sampleEntries : List Entry := [⟨cstr "assets/a", 1, 0⟩, ⟨cstr "assets/" ++ [1], 1, 0⟩]

theorem collectEntries_ok_iff_sample :
    ¬ ∃ items, collectEntries id sampleRule sampleEntries = .ok items := by
  intro hcollected
  obtain ⟨hprintable, -⟩ := (collectEntries_ok_iff
    (show validateRelativePath [] sampleRule.root = .ok () from rfl) (by decide)).mp hcollected
  exact absurd hprintable (by decide +kernel)

/-! ### Plans -/

end Planned

end NfsmwRuntime.Install
