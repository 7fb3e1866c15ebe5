import NfsmwRuntime.Library.Interning
import NfsmwRuntime.Obb.Memory

/-!
# What a listing contains

A directory is any common prefix of names that ends in a slash. Its children are the first
components of what the names have behind it. The listing loop collects pointers into the
names and cuts each of them again at its first slash whenever it compares; the strings cut
are the children, each once, in the order in which the entries bring them up.
-/

namespace NfsmwRuntime.Obb

open Library

/-- What a name has below a directory; everything is below the empty one. -/
def below (directory name : CString) : Option CString :=
  if directory = [] then some name
  else if directory ++ [slash] <+: name then some (name.drop (directory.length + 1))
  else none

/-- The distinct first components below a directory, in the order of the entries. -/
def listing (entries : List ObbEntry) (directory : CString) : List CString :=
  Interning.firsts
    (((entries.filterMap fun e => below directory e.name).map component).filter (· ≠ []))

/-- No name has a NUL in it. -/
def NulFree (entries : List ObbEntry) : Prop := ∀ e ∈ entries, 0 ∉ e.name

variable {entries : List ObbEntry} {directory : Option CString} {e : ObbEntry}

theorem cstring_eq {name : List UInt8} (h : 0 ∉ name) : cstring name = name := by
  refine List.takeWhile_eq_self_iff.mpr fun b hb => ?_
  exact decide_eq_true fun h0 => h (h0 ▸ hb)

theorem listPrefix_eq :
    listPrefix directory = if trimmed directory = [] then [] else trimmed directory ++ [slash] :=
  rfl

/-- The candidate that the loop takes from an entry is what its name has below the directory,
if that starts with a component. -/
theorem listCandidate_eq (h : 0 ∉ e.name) :
    listCandidate (listPrefix directory) e =
      (below (trimmed directory) e.name).filter (component · ≠ []) := by
  rw [listCandidate, cstring_eq h, listPrefix_eq, below]
  by_cases ht : trimmed directory = []
  · simp [ht, Option.filter]
  · by_cases hpre : trimmed directory ++ [slash] <+: e.name
    · simp [ht, hpre, Option.filter]
    · simp [ht, hpre]

/-- The children's components are the listing. -/
theorem map_component_childrenOf (h : NulFree entries) :
    (childrenOf entries directory).map component = listing entries (trimmed directory) := by
  have hcandidates : entries.filterMap (listCandidate (listPrefix directory)) =
      (entries.filterMap fun e => below (trimmed directory) e.name).filter
        (component · ≠ []) := by
    rw [List.filter_filterMap]
    exact List.filterMap_congr fun e he => listCandidate_eq (h e he)
  rw [childrenOf, Interning.map_foldl_firsts, hcandidates, listing, List.filter_map]
  rfl

/-- A listing of a well-formed index: as many children as the directory has, which are its
children when cut at their first slashes. -/
theorem ObbMemory.WellFormed.list_listing {m : ObbMemory} (h : m.WellFormed)
    (hnames : NulFree m.index.entries) {reallocOk : Bool}
    (hshort : (trimmed directory).length ≤ 4094)
    (hroom : m.entryCount ≤ m.listCapacity ∨ reallocOk) : ∃ m' children,
    m.list reallocOk directory =
        some (m', some children, (listing m.index.entries (trimmed directory)).length) ∧
      children.map component = listing m.index.entries (trimmed directory) := by
  obtain ⟨m', hlist, -, -⟩ := h.list reallocOk (Nat.lt_succ_of_le hshort)
  obtain ⟨hchildren, hcount⟩ := h.children directory hroom
  have hlisting := @map_component_childrenOf _ directory hnames
  refine ⟨m', _, ?_, hlisting⟩
  rw [hlist, hchildren, hcount, ← hlisting, List.length_map]

end NfsmwRuntime.Obb
