import Mathlib.Data.List.Basic

/-! # Tables of optional slots

A fixed table is a list of optional entries; its meaning is the list of the entries it holds, in
slot order (`entries`).  The operations are the loops that stop at the first slot they are looking
for: `replaceFirst?` updates or clears the first entry that satisfies a test, `putFirstFree?` fills
the first empty slot.  Their lemmas split `entries` at the slot that was touched, which is what
membership, length and distinctness arguments use; where entries have distinct keys, membership is
all there is to say (`mem_replaceFirst?_key`).
-/

universe u

namespace SlotTable
variable {α : Type u}

/-- The occupied entries, in slot order. -/
def entries (slots : List (Option α)) : List α := slots.filterMap id

/-- Passes the first entry with `p` through `f`, which may clear its slot; `none` if there is no
such entry. -/
def replaceFirst? (p : α → Bool) (f : α → Option α) : List (Option α) → Option (List (Option α))
  | [] => none
  | none :: slots => (replaceFirst? p f slots).map (none :: ·)
  | some x :: slots =>
    if p x then some (f x :: slots) else (replaceFirst? p f slots).map (some x :: ·)

/-- Puts an entry into the first empty slot; `none` if the table is full. -/
def putFirstFree? (x : α) : List (Option α) → Option (List (Option α))
  | [] => none
  | none :: slots => some (some x :: slots)
  | some y :: slots => (putFirstFree? x slots).map (some y :: ·)

/-- Clears every entry that satisfies `p`. -/
def clearAll (p : α → Bool) (slots : List (Option α)) : List (Option α) :=
  slots.map (fun slot => slot.filter (fun x => !p x))

@[simp] theorem entries_nil : entries ([] : List (Option α)) = [] := rfl
@[simp] theorem entries_none (slots : List (Option α)) : entries (none :: slots) = entries slots :=
  rfl
@[simp] theorem entries_some (x : α) (slots : List (Option α)) :
    entries (some x :: slots) = x :: entries slots := rfl

theorem entries_cons (slot : Option α) (slots : List (Option α)) :
    entries (slot :: slots) = slot.toList ++ entries slots := by
  cases slot <;> rfl

theorem length_entries_le (slots : List (Option α)) : (entries slots).length ≤ slots.length :=
  List.length_filterMap_le id slots

@[simp] theorem entries_replicate_none (n : Nat) :
    entries (List.replicate n (none : Option α)) = [] := by
  induction n with
  | zero => rfl
  | succ n ih => rw [List.replicate_succ, entries_none, ih]

/-! ## The first entry with a property -/

theorem replaceFirst?_eq_none {p : α → Bool} {f : α → Option α} {slots : List (Option α)} :
    replaceFirst? p f slots = none ↔ ∀ x ∈ entries slots, p x = false := by
  induction slots with
  | nil => simp [replaceFirst?]
  | cons slot slots ih =>
    cases slot with
    | none => simp [replaceFirst?, ih]
    | some x =>
      by_cases hp : p x = true
      · simp [replaceFirst?, hp]
      · simp [replaceFirst?, hp, ih]

/-- The table's entries, split at the one `replaceFirst?` touches. -/
theorem replaceFirst?_eq_some {p : α → Bool} {f : α → Option α} {slots slots' : List (Option α)}
    (h : replaceFirst? p f slots = some slots') :
    ∃ before x after, entries slots = before ++ x :: after ∧ (∀ y ∈ before, p y = false) ∧
      p x = true ∧ entries slots' = before ++ (f x).toList ++ after := by
  induction slots generalizing slots' with
  | nil => cases h
  | cons slot slots ih =>
    cases slot with
    | none =>
      obtain ⟨rest, hrest, rfl⟩ := Option.map_eq_some_iff.mp h
      obtain ⟨before, x, after, he, hb, hx, he'⟩ := ih hrest
      exact ⟨before, x, after, he, hb, hx, he'⟩
    | some y =>
      unfold replaceFirst? at h
      by_cases hp : p y = true
      · rw [if_pos hp] at h
        obtain rfl := Option.some.inj h
        exact ⟨[], y, entries slots, rfl, by simp, hp, by rw [entries_cons]; rfl⟩
      · rw [if_neg hp] at h
        obtain ⟨rest, hrest, rfl⟩ := Option.map_eq_some_iff.mp h
        obtain ⟨before, x, after, he, hb, hx, he'⟩ := ih hrest
        refine ⟨y :: before, x, after, by rw [entries_some, he]; rfl, ?_, hx, ?_⟩
        · intro z hz
          rcases List.mem_cons.mp hz with rfl | hz
          · exact Bool.eq_false_iff.mpr hp
          · exact hb z hz
        · rw [entries_some, he']
          rfl

theorem length_replaceFirst? {p : α → Bool} {f : α → Option α} {slots slots' : List (Option α)}
    (h : replaceFirst? p f slots = some slots') : slots'.length = slots.length := by
  induction slots generalizing slots' with
  | nil => cases h
  | cons slot slots ih =>
    cases slot with
    | none =>
      obtain ⟨rest, hrest, rfl⟩ := Option.map_eq_some_iff.mp h
      rw [List.length_cons, List.length_cons, ih hrest]
    | some y =>
      unfold replaceFirst? at h
      split at h
      · obtain rfl := Option.some.inj h
        rfl
      · obtain ⟨rest, hrest, rfl⟩ := Option.map_eq_some_iff.mp h
        rw [List.length_cons, List.length_cons, ih hrest]

/-! ## The first free slot -/

theorem putFirstFree?_eq_none {x : α} {slots : List (Option α)}
    (h : putFirstFree? x slots = none) : (entries slots).length = slots.length := by
  induction slots with
  | nil => rfl
  | cons slot slots ih =>
    cases slot with
    | none => cases h
    | some y =>
      rw [entries_some, List.length_cons, List.length_cons, ih (Option.map_eq_none_iff.mp h)]

theorem putFirstFree?_eq_some {x : α} {slots slots' : List (Option α)}
    (h : putFirstFree? x slots = some slots') :
    ∃ before after, entries slots = before ++ after ∧ entries slots' = before ++ x :: after := by
  induction slots generalizing slots' with
  | nil => cases h
  | cons slot slots ih =>
    cases slot with
    | none =>
      obtain rfl := Option.some.inj h
      exact ⟨[], entries slots, rfl, rfl⟩
    | some y =>
      obtain ⟨rest, hrest, rfl⟩ := Option.map_eq_some_iff.mp h
      obtain ⟨before, after, he, he'⟩ := ih hrest
      exact ⟨y :: before, after, by rw [entries_some, he]; rfl, by rw [entries_some, he']; rfl⟩

theorem length_putFirstFree? {x : α} {slots slots' : List (Option α)}
    (h : putFirstFree? x slots = some slots') : slots'.length = slots.length := by
  induction slots generalizing slots' with
  | nil => cases h
  | cons slot slots ih =>
    cases slot with
    | none =>
      obtain rfl := Option.some.inj h
      rfl
    | some y =>
      obtain ⟨rest, hrest, rfl⟩ := Option.map_eq_some_iff.mp h
      rw [List.length_cons, List.length_cons, ih hrest]

theorem mem_putFirstFree? {x y : α} {slots slots' : List (Option α)}
    (h : putFirstFree? x slots = some slots') : y ∈ entries slots' ↔ y = x ∨ y ∈ entries slots := by
  obtain ⟨before, after, he, he'⟩ := putFirstFree?_eq_some h
  rw [he, he', List.mem_append, List.mem_append, List.mem_cons]
  exact or_left_comm

/-! ## Entries of a key

When the keys of the entries are distinct, the first entry of a key is the only one. -/

section Keyed
variable {κ : Type u} [DecidableEq κ] {key : α → κ} {k : κ} {f : α → Option α}
  {slots slots' : List (Option α)}

theorem replaceFirst?_key_eq_none (h : replaceFirst? (fun x => key x == k) f slots = none) :
    ∀ x ∈ entries slots, key x ≠ k := by
  intro x hx hkey
  have hother := replaceFirst?_eq_none.mp h x hx
  rw [hkey, beq_self_eq_true] at hother
  cases hother

/-- **The entry of the key is passed through `f`, the others stay.** -/
theorem mem_replaceFirst?_key (hnodup : ((entries slots).map key).Nodup)
    (h : replaceFirst? (fun x => key x == k) f slots = some slots') {y : α} :
    y ∈ entries slots' ↔
      (y ∈ entries slots ∧ key y ≠ k) ∨ ∃ x ∈ entries slots, key x = k ∧ f x = some y := by
  obtain ⟨before, x, after, he, -, hx, he'⟩ := replaceFirst?_eq_some h
  have hxk : key x = k := eq_of_beq hx
  rw [he, List.map_append, List.map_cons, List.perm_middle.nodup_iff, List.nodup_cons,
    ← List.map_append] at hnodup
  -- the keys around the entry are others
  have hothers : ∀ z, z ∈ before ∨ z ∈ after → key z ≠ k := by
    intro z hz hkey
    exact hnodup.1 (List.mem_map.mpr ⟨z, List.mem_append.mpr hz, hkey.trans hxk.symm⟩)
  simp only [he, he', List.mem_append, List.mem_cons, Option.mem_toList]
  constructor
  · rintro ((hy | hy) | hy)
    · exact .inl ⟨.inl hy, hothers y (.inl hy)⟩
    · exact .inr ⟨x, .inr (.inl rfl), hxk, hy⟩
    · exact .inl ⟨.inr (.inr hy), hothers y (.inr hy)⟩
  · rintro (⟨hy | rfl | hy, hkey⟩ | ⟨z, hz | rfl | hz, hkey, hf⟩)
    · exact .inl (.inl hy)
    · exact absurd hxk hkey
    · exact .inr hy
    · exact absurd hkey (hothers z (.inl hz))
    · exact .inl (.inr hf)
    · exact absurd hkey (hothers z (.inr hz))

/-- The replaced entry had the key. -/
theorem exists_of_replaceFirst?_key
    (h : replaceFirst? (fun x => key x == k) f slots = some slots') :
    ∃ x ∈ entries slots, key x = k := by
  obtain ⟨before, x, after, he, -, hx, -⟩ := replaceFirst?_eq_some h
  refine ⟨x, ?_, eq_of_beq hx⟩
  rw [he]
  exact List.mem_append_right _ List.mem_cons_self

end Keyed

/-! ## Clearing -/

theorem entries_clearAll (p : α → Bool) (slots : List (Option α)) :
    entries (clearAll p slots) = (entries slots).filter (fun x => !p x) := by
  induction slots with
  | nil => rfl
  | cons slot slots ih =>
    have hcons : clearAll p (slot :: slots) = slot.filter (fun x => !p x) :: clearAll p slots := rfl
    rw [hcons, entries_cons, entries_cons, ih, List.filter_append]
    cases slot with
    | none => rfl
    | some x => cases hp : p x <;> simp [Option.filter, hp]

@[simp] theorem length_clearAll (p : α → Bool) (slots : List (Option α)) :
    (clearAll p slots).length = slots.length := List.length_map ..

/-! ## Entries written down in another way -/

section
variable {β : Type u} (g : α → β)

theorem entries_map (slots : List (Option α)) :
    entries (slots.map (Option.map g)) = (entries slots).map g := by
  induction slots with
  | nil => rfl
  | cons slot slots ih =>
    rw [List.map_cons, entries_cons, entries_cons, ih, List.map_append]
    cases slot <;> rfl

theorem replaceFirst?_map {p : α → Bool} {q : β → Bool} {f : α → Option α} {f' : β → Option β}
    (hp : ∀ x, q (g x) = p x) (hf : ∀ x, f' (g x) = (f x).map g) (slots : List (Option α)) :
    replaceFirst? q f' (slots.map (Option.map g)) =
      (replaceFirst? p f slots).map (List.map (Option.map g)) := by
  induction slots with
  | nil => rfl
  | cons slot slots ih =>
    cases slot with
    | none =>
      rw [List.map_cons, Option.map_none, replaceFirst?, replaceFirst?, ih, Option.map_map,
        Option.map_map]
      rfl
    | some x =>
      rw [List.map_cons, Option.map_some, replaceFirst?, replaceFirst?, hp, hf]
      cases p x with
      | true => rfl
      | false =>
        rw [if_neg (by simp), if_neg (by simp), ih, Option.map_map, Option.map_map]
        rfl

theorem putFirstFree?_map (x : α) (slots : List (Option α)) :
    putFirstFree? (g x) (slots.map (Option.map g)) =
      (putFirstFree? x slots).map (List.map (Option.map g)) := by
  induction slots with
  | nil => rfl
  | cons slot slots ih =>
    cases slot with
    | none => rfl
    | some y =>
      rw [List.map_cons, Option.map_some, putFirstFree?, putFirstFree?, ih, Option.map_map,
        Option.map_map]
      rfl

theorem clearAll_map {p : α → Bool} {q : β → Bool} (hp : ∀ x, q (g x) = p x)
    (slots : List (Option α)) :
    clearAll q (slots.map (Option.map g)) = (clearAll p slots).map (Option.map g) := by
  unfold clearAll
  rw [List.map_map, List.map_map]
  apply List.map_congr_left
  intro slot _
  cases slot with
  | none => rfl
  | some x => cases h : p x <;> simp [Option.filter, hp, h]

end

end SlotTable
