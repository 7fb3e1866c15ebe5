import Mathlib.Data.List.Dedup
import Mathlib.Data.List.Induction
import NfsmwRuntime.Library.Contact

/-!
# Interning

A registry answers a key with the number of the first slot that holds it, and opens a slot
for a key it does not find. What it puts there is the key as it is stored, which need not
be the key: it may be shortened to fit a buffer. If nothing is lost in storing, equal
numbers mean equal keys; in general they do exactly if no key that is stored differently
comes back, and none is taken for the stored form of another.
-/

namespace NfsmwRuntime.Library

namespace Interning

variable {κ : Type} [DecidableEq κ] (store : κ → κ)

/-- The slots after a request and the number it is answered with. -/
def intern (slots : List κ) (key : κ) : List κ × Nat :=
  (if key ∈ slots then slots else slots ++ [store key], slots.idxOf key)

/-- The slots after the requests, and each request with its number. -/
def internAll (keys : List κ) : List κ × List (κ × Nat) :=
  keys.foldl (fun (slots, answers) key =>
    ((intern store slots key).1, answers ++ [(key, (intern store slots key).2)])) ([], [])

/-- Requests have the same number exactly if they have the same key. -/
def Interned (answers : List (κ × Nat)) : Prop :=
  ∀ p ∈ answers, ∀ q ∈ answers, p.2 = q.2 ↔ p.1 = q.1

/-- A request after `before` is told apart from what is stored: it is no key that is stored
differently, and if it is the stored form of one, it was there before that key. -/
def Recognised (before : List κ) (key : κ) : Prop :=
  ∀ c ∈ before, store c ≠ c → c ≠ key ∧ (store c = key → before.idxOf key < before.idxOf c)

def Distinguishable (keys : List κ) : Prop :=
  ∀ before key after, keys = before ++ key :: after → Recognised store before key

/-- The keys in the order in which they come up first. -/
def firsts (keys : List κ) : List κ :=
  keys.foldl (fun seen key => if key ∈ seen then seen else seen ++ [key]) []

variable {store} {keys : List κ} {key : κ}

@[simp] theorem internAll_concat :
    internAll store (keys ++ [key]) =
      ((intern store (internAll store keys).1 key).1,
        (internAll store keys).2 ++ [(key, (intern store (internAll store keys).1 key).2)]) := by
  simp [internAll]

theorem distinguishable_concat :
    Distinguishable store (keys ++ [key]) ↔
      Distinguishable store keys ∧ Recognised store keys key := forall_split_concat

/-- Nothing is lost if every key is stored as it is. -/
theorem distinguishable_of_stored (h : ∀ key ∈ keys, store key = key) :
    Distinguishable store keys := by
  rintro before key after rfl c hc hne
  exact absurd (h c (List.mem_append_left _ hc)) hne

@[simp] theorem firsts_concat :
    firsts (keys ++ [key]) = if key ∈ firsts keys then firsts keys else firsts keys ++ [key] := by
  rw [firsts, List.foldl_concat]
  rfl

@[simp] theorem mem_firsts {x : κ} : x ∈ firsts keys ↔ x ∈ keys := by
  induction keys using List.reverseRecOn with
  | nil => rfl
  | append_singleton keys key ih => grind [firsts_concat]

/-- A loop that keeps what `f` tells apart from everything kept before. -/
theorem map_foldl_firsts {α : Type} (f : α → κ) (l : List α) :
    (l.foldl (fun kept a => if kept.any (f · = f a) then kept else kept ++ [a]) []).map f =
      firsts (l.map f) := by
  induction l using List.reverseRecOn with
  | nil => rfl
  | append_singleton l a ih =>
    rw [List.foldl_concat, List.map_append, List.map_singleton, firsts_concat, ← ih]
    generalize l.foldl (fun kept a => if kept.any (f · = f a) then kept else kept ++ [a]) [] = kept
    have hany : (kept.any (f · = f a)) = true ↔ f a ∈ kept.map f := by simp
    by_cases h : f a ∈ kept.map f
    · rw [if_pos (hany.mpr h), if_pos h]
    · rw [if_neg (mt hany.mp h), if_neg h, List.map_append, List.map_singleton]

theorem nodup_firsts : (firsts keys).Nodup := by
  induction keys using List.reverseRecOn with
  | nil => exact List.nodup_nil
  | append_singleton keys key ih =>
    rw [firsts_concat]
    split_ifs with h
    · exact ih
    · exact List.nodup_append'.mpr ⟨ih, List.nodup_singleton _, by simpa using h⟩

theorem length_firsts : (firsts keys).length = keys.dedup.length :=
  ((List.perm_ext_iff_of_nodup nodup_firsts keys.nodup_dedup).mpr fun x => by simp).length_eq

/-- First occurrences keep their order. -/
theorem idxOf_firsts_lt {x y : κ} (hx : x ∈ keys) :
    (firsts keys).idxOf x < (firsts keys).idxOf y ↔ keys.idxOf x < keys.idxOf y := by
  induction keys using List.reverseRecOn with
  | nil => cases hx
  | append_singleton keys key ih =>
    by_cases hxkeys : x ∈ keys
    · by_cases hy : y ∈ keys
      · grind [firsts_concat, mem_firsts]
      · grind [firsts_concat, mem_firsts, List.idxOf_lt_length_of_mem]
    · grind [firsts_concat, mem_firsts, List.idxOf_lt_length_of_mem]

/-! ## Distinguishable requests -/

/-- Mapping keeps where an element comes up first if it stays itself and nothing before it
becomes it. -/
theorem idxOf_map_eq {l : List κ} {a : κ} (hfix : a ∈ l → store a = a)
    (hlate : ∀ c ∈ l, store c = a → c ≠ a → l.idxOf a < l.idxOf c) :
    (l.map store).idxOf a = l.idxOf a := by
  induction l with
  | nil => rfl
  | cons c l ih =>
    by_cases hc : c = a
    · subst hc
      simp [hfix List.mem_cons_self]
    · have hstore : store c ≠ a := fun h => by
        have hlt := hlate c List.mem_cons_self h hc
        simp at hlt
      rw [List.map_cons, List.idxOf_cons_ne _ hstore, List.idxOf_cons_ne _ hc]
      refine congrArg _ (ih (fun ha => hfix (List.mem_cons_of_mem _ ha)) fun d hd hda hne => ?_)
      have hlt := hlate d (List.mem_cons_of_mem _ hd) hda hne
      have hcd : c ≠ d := fun h => hstore (h ▸ hda)
      rw [List.idxOf_cons_ne _ hc, List.idxOf_cons_ne _ hcd] at hlt
      omega

theorem idxOf_map_le {l : List κ} {c : κ} : (l.map store).idxOf (store c) ≤ l.idxOf c := by
  induction l with
  | nil => exact Nat.le_refl _
  | cons d l ih => grind

/-- What is recognised is found where it came up first. -/
theorem idxOf_map_firsts (h : Recognised store keys key) :
    ((firsts keys).map store).idxOf key = (firsts keys).idxOf key := by
  refine idxOf_map_eq (fun hkey => ?_) fun c hc hstore hne => ?_
  · by_contra hne
    exact (h key (mem_firsts.mp hkey) hne).1 rfl
  · have hck := mem_firsts.mp hc
    have hlt := (h c hck fun hsame => hne (hsame.symm.trans hstore)).2 hstore
    have hkey : key ∈ keys :=
      List.idxOf_lt_length_iff.mp (Nat.lt_of_lt_of_le hlt List.idxOf_le_length)
    exact (idxOf_firsts_lt hkey).mpr hlt

/-- A registry that loses nothing that matters has a slot for each key, in order. -/
theorem internAll_of_distinguishable (h : Distinguishable store keys) :
    internAll store keys =
      ((firsts keys).map store, keys.map fun key => (key, (firsts keys).idxOf key)) := by
  induction keys using List.reverseRecOn with
  | nil => rfl
  | append_singleton keys key ih =>
    obtain ⟨hkeys, hkey⟩ := distinguishable_concat.mp h
    have hidx := idxOf_map_firsts hkey
    have hmem : key ∈ (firsts keys).map store ↔ key ∈ firsts keys := by
      rw [← List.idxOf_lt_length_iff, ← List.idxOf_lt_length_iff, hidx, List.length_map]
    rw [internAll_concat, ih hkeys]
    simp only [intern, hidx, hmem, firsts_concat, List.map_append]
    split_ifs with hold
    · rfl
    · have hstable : ∀ x ∈ keys, (firsts keys ++ [key]).idxOf x = (firsts keys).idxOf x :=
        fun x hx => List.idxOf_append_of_mem (mem_firsts.mpr hx)
      have hlast : (firsts keys ++ [key]).idxOf key = (firsts keys).idxOf key := by
        rw [List.idxOf_append_of_notMem hold, List.idxOf_of_notMem hold]
        simp
      simp only [List.map_append, List.map_cons, List.map_nil, hlast]
      refine Prod.ext rfl (congrArg (· ++ _) (List.map_congr_left fun x hx => ?_))
      rw [hstable x hx]

theorem interned_of_distinguishable (h : Distinguishable store keys) :
    Interned (internAll store keys).2 := by
  rw [internAll_of_distinguishable h]
  intro p hp q hq
  obtain ⟨x, hx, rfl⟩ := List.mem_map.mp hp
  obtain ⟨y, hy, rfl⟩ := List.mem_map.mp hq
  refine ⟨(List.idxOf_inj (mem_firsts.mpr hx)).mp, fun hxy => ?_⟩
  rw [show x = y from hxy]

/-- There are as many slots as keys. -/
theorem length_internAll (h : Distinguishable store keys) :
    (internAll store keys).1.length = keys.dedup.length := by
  rw [internAll_of_distinguishable h, List.length_map, length_firsts]

omit [DecidableEq κ] in
theorem Interned.of_append {as bs : List (κ × Nat)} (h : Interned (as ++ bs)) : Interned as :=
  fun p hp q hq => h p (List.mem_append_left _ hp) q (List.mem_append_left _ hq)

/-- A number that the last request shares, or its stored form, gives the key away. -/
theorem recognised_of_interned (h : Distinguishable store keys)
    (hinterned : Interned (internAll store (keys ++ [key])).2) : Recognised store keys key := by
  rw [internAll_concat, internAll_of_distinguishable h] at hinterned
  have hsame : ∀ x ∈ keys,
      ((firsts keys).idxOf x = ((firsts keys).map store).idxOf key ↔ x = key) := by
    intro x hx
    exact hinterned (x, _) (List.mem_append_left _ (List.mem_map_of_mem hx)) (key, _)
      (List.mem_append_right _ (List.mem_singleton_self _))
  intro c hc hstore
  constructor
  · rintro rfl
    have hidx := (hsame c hc).mpr rfl
    have hlt := List.idxOf_lt_length_of_mem (mem_firsts.mpr hc)
    have hslot : ((firsts keys).map store)[(firsts keys).idxOf c]? = some (store c) := by
      rw [List.getElem?_map, List.getElem?_eq_getElem hlt, List.getElem_idxOf hlt]
      rfl
    obtain ⟨hbound, hget⟩ := List.getElem?_eq_some_iff.mp (hidx ▸ hslot)
    exact hstore (hget.symm.trans (List.getElem_idxOf hbound))
  · intro hkey
    have hmem : key ∈ (firsts keys).map store :=
      List.mem_map.mpr ⟨c, mem_firsts.mpr hc, hkey⟩
    have hlt := List.idxOf_lt_length_of_mem hmem
    -- the slot that is found was opened by the key itself, and not after that of `c`
    rw [List.length_map] at hlt
    have hopen := (hsame _ (mem_firsts.mp (List.getElem_mem hlt))).mp
      (nodup_firsts.idxOf_getElem _ hlt)
    have hin : key ∈ keys := mem_firsts.mp (hopen ▸ List.getElem_mem hlt)
    have hle : (firsts keys).idxOf key ≤ (firsts keys).idxOf c := by
      rw [(hsame key hin).mpr rfl, ← hkey]
      exact idxOf_map_le
    have hne : (firsts keys).idxOf key ≠ (firsts keys).idxOf c := fun hidx =>
      hstore (hkey.trans ((List.idxOf_inj (mem_firsts.mpr hin)).mp hidx))
    rw [← idxOf_firsts_lt hin]
    omega

theorem interned_iff : Interned (internAll store keys).2 ↔ Distinguishable store keys := by
  refine ⟨fun h => ?_, interned_of_distinguishable⟩
  induction keys using List.reverseRecOn with
  | nil =>
    intro before key after h
    simp at h
  | append_singleton keys key ih =>
    have hkeys : Distinguishable store keys := ih (by
      rw [internAll_concat] at h
      exact h.of_append)
    exact distinguishable_concat.mpr ⟨hkeys, recognised_of_interned hkeys h⟩

end Interning

end NfsmwRuntime.Library
