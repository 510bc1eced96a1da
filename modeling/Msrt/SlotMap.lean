import Mathlib.Data.List.Nodup
import Msrt.SlotTable

/-! # Slot tables as maps

A table of optional slots whose entries have distinct keys is a finite map from keys to entries
(`lookup`).  The table is changed one slot at a time: an entry is updated in its slot, a slot is
cleared, a new entry goes into an empty slot.  Seen from the map these are one operation, which
changes the map at one key and nowhere else (`lookup_set`).  A sweep passes every entry through a
function that may drop it, and changes the map pointwise (`lookup_sweep`).
-/

universe u v

namespace SlotMap
open SlotTable
variable {α : Type u} {κ : Type v} [DecidableEq κ] (key : α → κ)

/-- No two entries share a key. -/
def Distinct (slots : List (Option α)) : Prop := ((entries slots).map key).Nodup

/-- The entry of a key. -/
def lookup (slots : List (Option α)) (k : κ) : Option α := (entries slots).find? fun x => key x == k

/-- The first slot that holds the key. -/
def indexOf (slots : List (Option α)) (k : κ) : Option Nat :=
  slots.findIdx? fun slot => slot.any fun x => key x == k

/-- The first empty slot. -/
def vacant (slots : List (Option α)) : Option Nat := slots.findIdx? Option.isNone

/-- Passes every entry through `f`, which may drop it. -/
def sweep (f : α → Option α) (slots : List (Option α)) : List (Option α) :=
  slots.map fun slot => slot.bind f

variable {key} {slots : List (Option α)}

theorem mem_entries {x : α} : x ∈ entries slots ↔ some x ∈ slots := by
  simp [entries, List.mem_filterMap]

theorem lookup_eq_none {k : κ} : lookup key slots k = none ↔ ∀ x ∈ entries slots, key x ≠ k := by
  simp [lookup, List.find?_eq_none]

theorem lookup_eq_some (hd : Distinct key slots) {k : κ} {x : α} :
    lookup key slots k = some x ↔ x ∈ entries slots ∧ key x = k := by
  constructor
  · intro h
    exact ⟨List.mem_of_find?_eq_some h, by simpa using List.find?_some h⟩
  · rintro ⟨hx, rfl⟩
    cases hfound : lookup key slots (key x) with
    | none => exact absurd rfl (lookup_eq_none.mp hfound x hx)
    | some y =>
      have hy : y ∈ entries slots := List.mem_of_find?_eq_some hfound
      have hkey : key y = key x := by simpa using List.find?_some hfound
      rw [List.inj_on_of_nodup_map hd hy hx hkey]

/-! ## Slots -/

theorem indexOf_eq_some {k : κ} {i : Nat} (h : indexOf key slots k = some i) :
    ∃ x, slots[i]? = some (some x) ∧ key x = k := by
  obtain ⟨hlt, hslot, -⟩ := List.findIdx?_eq_some_iff_getElem.mp h
  obtain ⟨x, hx, hkey⟩ := (Option.any_eq_true _ _).mp hslot
  exact ⟨x, by rw [List.getElem?_eq_getElem hlt, hx], by simpa using hkey⟩

theorem indexOf_eq_none {k : κ} : indexOf key slots k = none ↔ lookup key slots k = none := by
  rw [indexOf, List.findIdx?_eq_none_iff, lookup_eq_none]
  constructor
  · intro h x hx hkey
    have := h (some x) (mem_entries.mp hx)
    simp [hkey] at this
  · intro h slot hslot
    cases slot with
    | none => rfl
    | some x => simpa using h x (mem_entries.mpr hslot)

theorem vacant_eq_some {i : Nat} (h : vacant slots = some i) : slots[i]? = some none := by
  obtain ⟨hlt, hslot, -⟩ := List.findIdx?_eq_some_iff_getElem.mp h
  rw [List.getElem?_eq_getElem hlt, Option.isNone_iff_eq_none.mp hslot]

theorem vacant_eq_none : vacant slots = none ↔ ∀ slot ∈ slots, slot.isSome = true := by
  rw [vacant, List.findIdx?_eq_none_iff]
  simp

/-- The entries around one slot. -/
theorem entries_split {i : Nat} {old : Option α} (h : slots[i]? = some old) (new : Option α) :
    entries slots = entries (slots.take i) ++ (old.toList ++ entries (slots.drop (i + 1))) ∧
      entries (slots.set i new) =
        entries (slots.take i) ++ (new.toList ++ entries (slots.drop (i + 1))) := by
  obtain ⟨hlt, rfl⟩ := List.getElem?_eq_some_iff.mp h
  constructor
  · conv_lhs => rw [← List.take_append_drop i slots, ← List.getElem_cons_drop hlt]
    rw [entries, List.filterMap_append]
    congr 1
    exact entries_cons _ _
  · rw [List.set_eq_take_append_cons_drop, if_pos hlt, entries, List.filterMap_append]
    congr 1
    exact entries_cons _ _

/-- **Changing one slot changes the map at one key.**  The slot held an entry of the key, or was empty
while no slot held one. -/
theorem lookup_set (hd : Distinct key slots) {i : Nat} {old new : Option α} {k : κ}
    (h : slots[i]? = some old) (hold : ∀ x ∈ old, key x = k) (hnew : ∀ x ∈ new, key x = k)
    (hfresh : old = none → lookup key slots k = none) :
    Distinct key (slots.set i new) ∧
      ∀ k', lookup key (slots.set i new) k' = if k' = k then new else lookup key slots k' := by
  obtain ⟨hslots, hset⟩ := entries_split h new
  -- no other slot holds the key
  have hothers : ∀ x ∈ entries (slots.take i) ++ entries (slots.drop (i + 1)), key x ≠ k := by
    intro x hx hkey
    cases old with
    | none =>
      have hmem : x ∈ entries slots := by
        rw [hslots]
        simpa using hx
      exact lookup_eq_none.mp (hfresh rfl) x hmem hkey
    | some y =>
      have hy : key y = k := hold y rfl
      rw [Distinct, hslots] at hd
      simp only [Option.toList_some, List.singleton_append, List.map_append, List.map_cons] at hd
      have hnot := (List.nodup_cons.mp (List.nodup_middle.mp hd)).1
      rw [← List.map_append] at hnot
      exact hnot (List.mem_map.mpr ⟨x, hx, hkey.trans hy.symm⟩)
  have hrest : ((entries (slots.take i) ++ entries (slots.drop (i + 1))).map key).Nodup := by
    rw [Distinct, hslots] at hd
    refine hd.sublist (List.Sublist.map key ?_)
    exact List.Sublist.append_left (List.sublist_append_right _ _) _
  have hdistinct : Distinct key (slots.set i new) := by
    rw [Distinct, hset]
    cases new with
    | none => simpa using hrest
    | some y =>
      simp only [Option.toList_some, List.singleton_append, List.map_append, List.map_cons]
      refine List.nodup_middle.mpr (List.nodup_cons.mpr ⟨?_, ?_⟩)
      · intro hmem
        rw [← List.map_append] at hmem
        obtain ⟨x, hx, hkey⟩ := List.mem_map.mp hmem
        exact hothers x hx (hkey.trans (hnew y rfl))
      · rw [← List.map_append]
        exact hrest
  refine ⟨hdistinct, fun k' => Option.ext ?_⟩
  intro x
  rw [lookup_eq_some hdistinct, hset]
  simp only [List.mem_append, Option.mem_toList] at hothers ⊢
  by_cases hk : k' = k
  · subst hk
    rw [if_pos rfl]
    constructor
    · rintro ⟨hx | hx | hx, hkey⟩
      · exact absurd hkey (hothers x (.inl hx))
      · exact hx
      · exact absurd hkey (hothers x (.inr hx))
    · exact fun hx => ⟨.inr (.inl hx), hnew x hx⟩
  · rw [if_neg hk, lookup_eq_some hd, hslots]
    simp only [List.mem_append, Option.mem_toList]
    constructor
    · rintro ⟨hx | hx | hx, hkey⟩
      · exact ⟨.inl hx, hkey⟩
      · exact absurd (hkey.symm.trans (hnew x hx)) hk
      · exact ⟨.inr (.inr hx), hkey⟩
    · rintro ⟨hx | hx | hx, hkey⟩
      · exact ⟨.inl hx, hkey⟩
      · exact absurd (hkey.symm.trans (hold x hx)) hk
      · exact ⟨.inr (.inr hx), hkey⟩

/-! ## Sweeps -/

theorem sweep_cons (f : α → Option α) (slot : Option α) (slots : List (Option α)) :
    sweep f (slot :: slots) = slot.bind f :: sweep f slots := rfl

theorem entries_sweep (f : α → Option α) (slots : List (Option α)) :
    entries (sweep f slots) = (entries slots).filterMap f := by
  induction slots with
  | nil => rfl
  | cons slot slots ih =>
    rw [sweep_cons, entries_cons, entries_cons, ih, List.filterMap_append]
    cases slot with
    | none => rfl
    | some x => cases hf : f x <;> simp [hf]

/-- **A sweep changes the map pointwise.** -/
theorem lookup_sweep (hd : Distinct key slots) {f : α → Option α}
    (hf : ∀ x y, f x = some y → key y = key x) :
    Distinct key (sweep f slots) ∧
      ∀ k, lookup key (sweep f slots) k = (lookup key slots k).bind f := by
  have hkeys : (entries (sweep f slots)).map key = ((entries slots).filter fun x =>
      (f x).isSome).map key := by
    rw [entries_sweep]
    induction entries slots with
    | nil => rfl
    | cons x l ih =>
      cases hfx : f x with
      | none => simpa [hfx] using ih
      | some y => simpa [hfx, hf x y hfx] using ih
  have hdistinct : Distinct key (sweep f slots) := by
    rw [Distinct, hkeys]
    exact hd.sublist (List.filter_sublist.map key)
  refine ⟨hdistinct, fun k => Option.ext ?_⟩
  intro y
  rw [lookup_eq_some hdistinct, entries_sweep, List.mem_filterMap, Option.bind_eq_some_iff]
  constructor
  · rintro ⟨⟨x, hx, hy⟩, hkey⟩
    exact ⟨x, (lookup_eq_some hd).mpr ⟨hx, (hf x y hy).symm.trans hkey⟩, hy⟩
  · rintro ⟨x, hx, hy⟩
    obtain ⟨hmem, hkey⟩ := (lookup_eq_some hd).mp hx
    exact ⟨⟨x, hmem, hy⟩, (hf x y hy).trans hkey⟩

end SlotMap
