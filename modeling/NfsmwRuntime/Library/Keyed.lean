import Mathlib.Data.List.Nodup
import NfsmwRuntime.Library.Result

/-!
# Lists with one element for each key

Elements come in one after the other. Where one with the same key is there already, the two have
to be of one identity, and one of them stays. Which elements can come in, and what there is in the
end, does not depend on which of the two it is.
-/

namespace NfsmwRuntime.Library

variable {α κ ι ε : Type}

section Definitions

variable (key : α → κ) (identity : α → ι)

def insertKeyed [DecidableEq κ] [DecidableEq ι] (keep : α → α → α) (conflict : α → α → ε)
    (items : List α) (a : α) : Except ε (List α) :=
  match items.find? fun b => key b = key a with
  | none => .ok (items ++ [a])
  | some b => do
    check (identity b = identity a) (conflict b a)
    .ok (items.map fun c => if key c = key a then keep c a else c)

/-- There is one element for each key that has come in, of the same identity. -/
structure Represents (items seen : List α) : Prop where
  keys : (items.map key).Nodup
  mem : ∀ b ∈ items, b ∈ seen
  covers : ∀ a ∈ seen, ∃ b ∈ items, key b = key a ∧ identity b = identity a

/-- Elements with one key are of one identity. -/
def Consistent (seen : List α) : Prop :=
  ∀ a ∈ seen, ∀ b ∈ seen, key a = key b → identity a = identity b

end Definitions

section Insert

variable {key : α → κ} {identity : α → ι} {keep : α → α → α} {conflict : α → α → ε}
  {items items' seen : List α} {a : α}

theorem represents_nil : Represents key identity [] [] := ⟨by simp, by simp, by simp⟩

theorem Represents.perm (h : Represents key identity items seen) (hperm : items'.Perm items) :
    Represents key identity items' seen where
  keys := (hperm.map key).nodup_iff.mpr h.keys
  mem b hb := h.mem b (hperm.mem_iff.mp hb)
  covers a ha := by
    obtain ⟨b, hb, hrest⟩ := h.covers a ha
    exact ⟨b, hperm.mem_iff.mpr hb, hrest⟩

variable [DecidableEq κ]

/-- An element is found by its key. -/
theorem find?_key_eq (hkeys : (items.map key).Nodup) (ha : a ∈ items) :
    items.find? (fun b => key b = key a) = some a := by
  cases hfind : items.find? fun b => key b = key a with
  | none => simpa using List.find?_eq_none.mp hfind a ha
  | some b =>
    have hkey : key b = key a := by simpa using List.find?_some hfind
    rw [List.inj_on_of_nodup_map hkeys (List.mem_of_find?_eq_some hfind) ha hkey]

variable [DecidableEq ι]

theorem insertKeyed_ok_iff (h : Represents key identity items seen) :
    (∃ items', insertKeyed key identity keep conflict items a = .ok items') ↔
      ∀ b ∈ seen, key b = key a → identity b = identity a := by
  unfold insertKeyed
  split
  · rename_i hnone
    refine iff_of_true ⟨_, rfl⟩ fun b hb hkey => ?_
    obtain ⟨c, hc, hcb, -⟩ := h.covers b hb
    exact absurd (hcb.trans hkey) (by simpa using List.find?_eq_none.mp hnone c hc)
  · rename_i b hsome
    have hb := List.mem_of_find?_eq_some hsome
    have hkey : key b = key a := by simpa using List.find?_some hsome
    constructor
    · rintro ⟨items', hok⟩ c hc hca
      obtain ⟨_, hsame, -⟩ := bind_eq_ok.mp hok
      obtain ⟨d, hd, hdc, hident⟩ := h.covers c hc
      have hdb : d = b := List.inj_on_of_nodup_map h.keys hd hb ((hdc.trans hca).trans hkey.symm)
      rw [← hident, hdb, check_eq_ok.mp hsame]
    · intro hall
      exact ⟨_, by rw [check_of (hall b (h.mem b hb) hkey), ok_bind]⟩

theorem Represents.insert (h : Represents key identity items seen)
    (hkeep : ∀ c, keep c a = c ∨ keep c a = a)
    (hok : insertKeyed key identity keep conflict items a = .ok items') :
    Represents key identity items' (seen ++ [a]) := by
  unfold insertKeyed at hok
  split at hok
  · rename_i hnone
    obtain rfl := Except.ok.inj hok
    have hnew : key a ∉ items.map key := by
      intro hmem
      obtain ⟨b, hb, hkey⟩ := List.mem_map.mp hmem
      exact absurd hkey (by simpa using List.find?_eq_none.mp hnone b hb)
    refine ⟨?_, fun b hb => ?_, fun c hc => ?_⟩
    · rw [List.map_append, List.map_singleton]
      exact List.Nodup.append h.keys (List.nodup_singleton _) (by simpa using hnew)
    · rcases List.mem_append.mp hb with hb | hb
      · exact List.mem_append_left _ (h.mem b hb)
      · exact List.mem_append_right _ hb
    · rcases List.mem_append.mp hc with hc | hc
      · obtain ⟨b, hb, hrest⟩ := h.covers c hc
        exact ⟨b, List.mem_append_left _ hb, hrest⟩
      · exact ⟨c, List.mem_append_right _ hc, rfl, rfl⟩
  · rename_i b hsome
    have hb := List.mem_of_find?_eq_some hsome
    have hkey : key b = key a := by simpa using List.find?_some hsome
    obtain ⟨_, hsame, hok⟩ := bind_eq_ok.mp hok
    obtain rfl := Except.ok.inj hok
    have hsame := check_eq_ok.mp hsame
    have hkept : ∀ c, key (if key c = key a then keep c a else c) = key c := by
      intro c
      split_ifs with hc
      · rcases hkeep c with heq | heq <;> rw [heq]
        exact hc.symm
      · rfl
    refine ⟨?_, fun c hc => ?_, fun c hc => ?_⟩
    · rw [List.map_map]
      exact (List.map_congr_left fun c _ => hkept c) ▸ h.keys
    · obtain ⟨d, hd, rfl⟩ := List.mem_map.mp hc
      split_ifs
      · rcases hkeep d with heq | heq <;> rw [heq]
        · exact List.mem_append_left _ (h.mem d hd)
        · exact List.mem_append_right _ List.mem_cons_self
      · exact List.mem_append_left _ (h.mem d hd)
    · have hident : ∀ d ∈ items,
          identity (if key d = key a then keep d a else d) = identity d := by
        intro d hd
        split_ifs with hda
        · rcases hkeep d with heq | heq <;> rw [heq]
          rw [List.inj_on_of_nodup_map h.keys hd hb (hda.trans hkey.symm), hsame]
        · rfl
      obtain ⟨d, hd, hdc, hidc⟩ : ∃ d ∈ items, key d = key c ∧ identity d = identity c := by
        rcases List.mem_append.mp hc with hc | hc
        · exact h.covers c hc
        · obtain rfl := List.mem_singleton.mp hc
          exact ⟨b, hb, hkey, hsame⟩
      exact ⟨_, List.mem_map_of_mem hd, (hkept d).trans hdc, (hident d hd).trans hidc⟩

end Insert

/-! ## A loop that inserts -/

section Loop

variable {key : α → κ} {identity : α → ι} {keep : α → α → α} {conflict : α → α → ε}
  [DecidableEq κ] [DecidableEq ι] {C : α → Prop} {step : List α → α → Except ε (List α)}
  {items seen todo : List α}

theorem foldlM_represents (hkeep : ∀ c a, keep c a = c ∨ keep c a = a)
    (hstep : ∀ items a items', step items a = .ok items' →
      insertKeyed key identity keep conflict items a = .ok items')
    (h : Represents key identity items seen) {result : List α}
    (hok : todo.foldlM step items = .ok result) :
    Represents key identity result (seen ++ todo) := by
  induction todo generalizing items seen with
  | nil =>
    obtain rfl := Except.ok.inj hok
    simpa using h
  | cons a todo ih =>
    rw [List.foldlM_cons] at hok
    obtain ⟨items', hfirst, hrest⟩ := bind_eq_ok.mp hok
    simpa using ih (h.insert (fun c => hkeep c a) (hstep _ _ _ hfirst)) hrest

/-- All elements come in exactly if each may, and no two are at odds. -/
theorem foldlM_ok_iff (hkeep : ∀ c a, keep c a = c ∨ keep c a = a)
    (hstep : ∀ items a items', step items a = .ok items' ↔
      C a ∧ insertKeyed key identity keep conflict items a = .ok items') :
    (∃ result, todo.foldlM step [] = .ok result) ↔
      (∀ a ∈ todo, C a) ∧ Consistent key identity todo := by
  suffices hall : ∀ todo items seen, Represents key identity items seen →
      ((∃ result, todo.foldlM step items = .ok result) ↔
        (∀ a ∈ todo, C a) ∧ (∀ a ∈ todo, ∀ b ∈ seen, key b = key a → identity b = identity a) ∧
          Consistent key identity todo) by
    simpa using hall todo [] [] represents_nil
  intro todo
  induction todo with
  | nil =>
    intro items seen _
    exact iff_of_true ⟨items, rfl⟩ (by simp [Consistent])
  | cons a todo ih =>
    intro items seen h
    have hfirst : (∃ result, (a :: todo).foldlM step items = .ok result) ↔
        C a ∧ ∃ items', insertKeyed key identity keep conflict items a = .ok items' ∧
          ∃ result, todo.foldlM step items' = .ok result := by
      simp only [List.foldlM_cons, bind_eq_ok, hstep]
      exact ⟨fun ⟨r, i, ⟨hC, hi⟩, hr⟩ => ⟨hC, i, hi, r, hr⟩,
        fun ⟨hC, i, hi, r, hr⟩ => ⟨r, i, ⟨hC, hi⟩, hr⟩⟩
    rw [hfirst]
    constructor
    · rintro ⟨hC, items', hinsert, hrest⟩
      have hnew := h.insert (fun c => hkeep c a) hinsert
      have hold := (insertKeyed_ok_iff h).mp ⟨items', hinsert⟩
      obtain ⟨hCs, hseen, hpairs⟩ := (ih items' _ hnew).mp hrest
      refine ⟨List.forall_mem_cons.mpr ⟨hC, hCs⟩, ?_, ?_⟩ <;> grind [Consistent]
    · rintro ⟨hCs, hseen, hpairs⟩
      obtain ⟨hC, hCs⟩ := List.forall_mem_cons.mp hCs
      obtain ⟨items', hinsert⟩ := (insertKeyed_ok_iff h).mpr (hseen a List.mem_cons_self)
      have hnew := h.insert (fun c => hkeep c a) hinsert
      refine ⟨hC, items', hinsert, (ih items' _ hnew).mpr ⟨hCs, ?_, ?_⟩⟩ <;> grind [Consistent]

end Loop

end NfsmwRuntime.Library
