import Msrt.Reassembly

/-! # The duplicate table as a window

The circular table of accepted keys is a window on the history of acceptances: it holds the last
`capacity` of them and nothing older (`Remembers`).  A key is accepted only when it is not in the
table, so two acceptances of one key have at least `capacity` others in between (`Spread`).

Read as a whole, the table is the list of the last `capacity` accepted keys (`Window`), whatever is
observed and in whatever order (`dedup_is_window`).
-/

namespace Msrt

/-- Equal keys are more than `capacity` places apart. -/
def Spread (capacity : Nat) (keys : List PacketKey) : Prop :=
  ∀ p q key, p < q → keys[p]? = some key → keys[q]? = some key → p + capacity < q

namespace PacketDedup
variable {capacity : Nat} {d : PacketDedup capacity} {keys : List PacketKey} {key : PacketKey}

/-- The table holds the last accepted keys, and only accepted keys. -/
structure Remembers (d : PacketDedup capacity) (keys : List PacketKey) : Prop where
  next_eq : d.next = keys.length % capacity
  recent : ∀ p key, keys[p]? = some key → keys.length ≤ p + capacity →
    d.packets[p % capacity]? = some (some key)
  known : ∀ key, d.isDuplicate key = true → key ∈ keys

theorem remembers_new : Remembers (new : PacketDedup capacity) [] where
  next_eq := (Nat.zero_mod capacity).symm
  recent p key h := by cases h
  known key h := by
    obtain ⟨known, hmem, heq⟩ := List.any_eq_true.mp h
    rw [List.eq_of_mem_replicate hmem] at heq
    cases heq

theorem Remembers.isDuplicate_of_recent (h : Remembers d keys) {p : Nat}
    (hp : keys[p]? = some key) (hrecent : keys.length ≤ p + capacity) :
    d.isDuplicate key = true :=
  List.any_eq_true.mpr ⟨some key, List.mem_of_getElem? (h.recent p key hp hrecent), beq_self_eq_true _⟩

theorem observePacket_fresh (hcap : 0 < capacity) (hfresh : d.isDuplicate key = false) :
    (d.observePacket key).1.packets = d.packets.set d.next (some key) ∧
      (d.observePacket key).1.next = (d.next + 1) % capacity ∧
      (d.observePacket key).2 = .ok .accept := by
  unfold observePacket
  rw [if_neg (by omega), if_neg (by simp [hfresh])]
  exact ⟨rfl, rfl, rfl⟩

/-- An accepted key takes the place of the key accepted `capacity` acceptances before. -/
theorem Remembers.accept (hcap : 0 < capacity) (h : Remembers d keys)
    (hfresh : d.isDuplicate key = false) :
    Remembers (d.observePacket key).1 (keys ++ [key]) := by
  obtain ⟨hpackets, hnext, -⟩ := observePacket_fresh hcap hfresh
  have hlt : d.next < d.packets.length := by
    rw [h.next_eq, d.packets_length]
    exact Nat.mod_lt _ hcap
  refine ⟨?_, ?_, ?_⟩
  · rw [hnext, h.next_eq, List.length_append, List.length_singleton, Nat.mod_add_mod]
  · intro p key' hp hrecent
    rw [hpackets]
    rw [List.length_append, List.length_singleton] at hrecent
    rcases Nat.lt_or_ge p keys.length with hin | hout
    · -- an older key of the window stands in another place
      rw [List.getElem?_append_left hin] at hp
      have hplace : d.next ≠ p % capacity := by
        rw [h.next_eq]
        intro heq
        have hmod : (keys.length - p) % capacity = 0 :=
          Nat.sub_mod_eq_zero_of_mod_eq heq
        rw [Nat.mod_eq_of_lt (by omega)] at hmod
        omega
      rw [List.getElem?_set_ne hplace]
      exact h.recent p key' hp (by omega)
    · have hlen := (List.getElem?_eq_some_iff.mp hp).1
      rw [List.length_append, List.length_singleton] at hlen
      obtain rfl : p = keys.length := by omega
      rw [List.getElem?_append_right hout, Nat.sub_self] at hp
      obtain rfl := Option.some.inj hp
      rw [← h.next_eq, List.getElem?_set_self hlt]
  · intro key' hdup
    obtain ⟨known, hmem, heq⟩ := List.any_eq_true.mp hdup
    obtain rfl := eq_of_beq heq
    rw [hpackets] at hmem
    rcases List.mem_or_eq_of_mem_set hmem with hmem | heq
    · exact List.mem_append_left _ (h.known key' (List.any_eq_true.mpr ⟨_, hmem, beq_self_eq_true _⟩))
    · obtain rfl := Option.some.inj heq
      exact List.mem_append_right _ (List.mem_singleton.mpr rfl)

/-- **A key is accepted again only after `capacity` others.** -/
theorem Remembers.spread (h : Remembers d keys) (hspread : Spread capacity keys)
    (hfresh : d.isDuplicate key = false) : Spread capacity (keys ++ [key]) := by
  intro p q key' hpq hp hq
  have hlen := (List.getElem?_eq_some_iff.mp hq).1
  rw [List.length_append, List.length_singleton] at hlen
  rw [List.getElem?_append_left (by omega)] at hp
  rcases Nat.lt_or_ge q keys.length with hin | hout
  · rw [List.getElem?_append_left hin] at hq
    exact hspread p q key' hpq hp hq
  · obtain rfl : q = keys.length := by omega
    rw [List.getElem?_append_right hout, Nat.sub_self] at hq
    obtain rfl := Option.some.inj hq
    by_contra hnear
    have hdup := h.isDuplicate_of_recent hp (by omega)
    rw [hfresh] at hdup
    cases hdup

end PacketDedup

theorem spread_nil (capacity : Nat) : Spread capacity [] := by
  intro p q key _ hp
  cases hp

/-- Two acceptances of one key, told by what was accepted in between. -/
theorem Spread.between {capacity : Nat} {before between after : List PacketKey} {key : PacketKey}
    (h : Spread capacity (before ++ key :: between ++ key :: after)) :
    capacity ≤ between.length := by
  have hfirst : (before ++ key :: between ++ key :: after)[before.length]? = some key := by simp
  have hsecond : (before ++ key :: between ++ key :: after)[before.length + 1 + between.length]? =
      some key := by
    rw [List.getElem?_append_right (by simp; omega)]
    simp [show before.length + 1 + between.length - (before.length + (between.length + 1)) = 0 by
      omega]
  have := h _ _ key (by omega) hfirst hsecond
  omega

/-! ## The table is the window -/

/-- The last `capacity` keys of a list. -/
def recentKeys (capacity : Nat) (keys : List PacketKey) : List PacketKey :=
  keys.drop (keys.length - capacity)

theorem mem_recentKeys {capacity : Nat} {keys : List PacketKey} {key : PacketKey} :
    key ∈ recentKeys capacity keys ↔ ∃ p, keys[p]? = some key ∧ keys.length ≤ p + capacity := by
  unfold recentKeys
  rw [List.mem_iff_getElem?]
  constructor
  · rintro ⟨i, hi⟩
    rw [List.getElem?_drop] at hi
    exact ⟨_, hi, by omega⟩
  · rintro ⟨p, hp, hrecent⟩
    refine ⟨p - (keys.length - capacity), ?_⟩
    rw [List.getElem?_drop, show keys.length - capacity + (p - (keys.length - capacity)) = p by omega]
    exact hp

namespace PacketDedup
variable {capacity : Nat} {d : PacketDedup capacity} {accepted keys : List PacketKey}
  {key : PacketKey}

/-- Whether the answer of the duplicate table accepts the key. -/
def accepts : Except Error DedupDecision → Bool
  | .ok .accept => true
  | _ => false

/-- The table after a sequence of calls. -/
def observeAll (d : PacketDedup capacity) (keys : List PacketKey) : PacketDedup capacity :=
  keys.foldl (fun d key => (d.observePacket key).1) d

/-- The keys that a sequence of calls accepts, the oldest first. -/
def acceptedKeys (d : PacketDedup capacity) : List PacketKey → List PacketKey
  | [] => []
  | key :: keys =>
    (if accepts (d.observePacket key).2 then [key] else []) ++
      acceptedKeys (d.observePacket key).1 keys

/-- The stored keys. -/
def storedKeys (d : PacketDedup capacity) : List PacketKey := d.packets.filterMap id

/-- The table is the window on the accepted keys. -/
structure Window (d : PacketDedup capacity) (accepted : List PacketKey) : Prop
    extends Remembers d accepted where
  stored : ∀ i key, d.packets[i]? = some (some key) →
    ∃ p, accepted[p]? = some key ∧ accepted.length ≤ p + capacity ∧ p % capacity = i
  len_eq : d.len = min capacity accepted.length
  spread : Spread capacity accepted

theorem window_new : Window (new : PacketDedup capacity) [] where
  toRemembers := remembers_new
  stored i key h := by
    have hmem : some key ∈ List.replicate capacity none := List.mem_of_getElem? h
    cases List.eq_of_mem_replicate hmem
  len_eq := (Nat.min_zero capacity).symm
  spread := spread_nil capacity

theorem Window.isDuplicate_iff (h : Window d accepted) :
    d.isDuplicate key = true ↔ key ∈ recentKeys capacity accepted := by
  rw [mem_recentKeys]
  constructor
  · intro hdup
    obtain ⟨known, hmem, heq⟩ := List.any_eq_true.mp hdup
    obtain rfl := eq_of_beq heq
    obtain ⟨i, hi⟩ := List.mem_iff_getElem?.mp hmem
    obtain ⟨p, hp, hrecent, -⟩ := h.stored i key hi
    exact ⟨p, hp, hrecent⟩
  · rintro ⟨p, hp, hrecent⟩
    exact h.isDuplicate_of_recent hp hrecent

/-- **A key that is not in the window moves the window on by one.** -/
theorem Window.accept (hcap : 0 < capacity) (h : Window d accepted)
    (hfresh : d.isDuplicate key = false) :
    Window (d.observePacket key).1 (accepted ++ [key]) where
  toRemembers := h.toRemembers.accept hcap hfresh
  stored i key' hi := by
    rw [(observePacket_fresh hcap hfresh).1, List.getElem?_set] at hi
    split at hi
    · -- the cell that was overwritten
      rename_i hplace
      split at hi
      · obtain rfl := Option.some.inj (Option.some.inj hi)
        refine ⟨accepted.length, List.getElem?_concat_length, ?_, ?_⟩
        · rw [List.length_append, List.length_singleton]
          omega
        · rw [← hplace, h.next_eq]
      · cases hi
    · -- another cell: its key would leave the window only from the place that was overwritten
      rename_i hplace
      obtain ⟨p, hp, hrecent, hmod⟩ := h.stored i key' hi
      have hlt := (List.getElem?_eq_some_iff.mp hp).1
      refine ⟨p, by rw [List.getElem?_append_left hlt]; exact hp, ?_, hmod⟩
      have hne : accepted.length ≠ p + capacity := by
        intro heq
        apply hplace
        rw [h.next_eq, heq, Nat.add_mod_right, hmod]
      rw [List.length_append, List.length_singleton]
      omega
  len_eq := by
    have hlen : (d.observePacket key).1.len = min (d.len + 1) capacity := by
      unfold observePacket
      rw [if_neg (by omega), if_neg (by simp [hfresh])]
    rw [hlen, h.len_eq, List.length_append, List.length_singleton]
    omega
  spread := h.toRemembers.spread h.spread hfresh

theorem observePacket_duplicate (hcap : 0 < capacity) (hdup : d.isDuplicate key = true) :
    d.observePacket key = (d, .ok .duplicate) := by
  unfold observePacket
  rw [if_neg (by omega), if_pos hdup]

/-- **Every sequence of calls keeps the table the window.** -/
theorem Window.observeAll (hcap : 0 < capacity) (h : Window d accepted) (keys : List PacketKey) :
    Window (d.observeAll keys) (accepted ++ d.acceptedKeys keys) := by
  induction keys generalizing d accepted with
  | nil =>
    rw [acceptedKeys, List.append_nil]
    exact h
  | cons key keys ih =>
    show Window (PacketDedup.observeAll (d.observePacket key).1 keys) _
    unfold acceptedKeys
    by_cases hdup : d.isDuplicate key = true
    · rw [observePacket_duplicate hcap hdup]
      exact ih h
    · have hfresh := Bool.eq_false_iff.mpr hdup
      rw [(observePacket_fresh hcap hfresh).2.2, if_pos (show accepts (.ok .accept) = true from rfl),
        ← List.append_assoc]
      exact ih (h.accept hcap hfresh)

/-- Keys in the window stand in one cell each. -/
theorem Window.storedKeys_nodup (h : Window d accepted) : d.storedKeys.Nodup := by
  unfold storedKeys
  rw [List.Nodup, List.pairwise_filterMap, List.pairwise_iff_getElem]
  intro i j hi hj hij key hkey key' hkey' heq
  subst heq
  have hcell (l : Nat) (hl : l < d.packets.length) (hsome : id d.packets[l] = some key) :
      d.packets[l]? = some (some key) := by
    rw [List.getElem?_eq_getElem hl]
    exact congrArg some hsome
  obtain ⟨p, hp, hrecent, hmod⟩ := h.stored i key (hcell i hi hkey)
  obtain ⟨q, hq, hrecent', hmod'⟩ := h.stored j key (hcell j hj hkey')
  have hp' := (List.getElem?_eq_some_iff.mp hp).1
  have hq' := (List.getElem?_eq_some_iff.mp hq).1
  -- equal keys are too far apart to be in the window together
  rcases Nat.lt_trichotomy p q with hlt | rfl | hlt
  · have := h.spread p q key hlt hp hq
    omega
  · omega
  · have := h.spread q p key hlt hq hp
    omega

/-- **The duplicate table is exactly a window of the last `capacity` accepted keys.**  After every
sequence of calls, the next call is answered with `accept` exactly if its key is not in the window,
and with `duplicate` otherwise, which leaves the table alone. -/
theorem dedup_is_window (hcap : 0 < capacity) (keys : List PacketKey) :
    (∀ key,
      ((((new : PacketDedup capacity).observeAll keys).observePacket key).2 = .ok .accept ↔
        key ∉ recentKeys capacity ((new : PacketDedup capacity).acceptedKeys keys)) ∧
      (key ∈ recentKeys capacity ((new : PacketDedup capacity).acceptedKeys keys) →
        ((new : PacketDedup capacity).observeAll keys).observePacket key =
          ((new : PacketDedup capacity).observeAll keys, .ok .duplicate)) ∧
      (((new : PacketDedup capacity).observeAll keys).isDuplicate key = true ↔
        key ∈ recentKeys capacity ((new : PacketDedup capacity).acceptedKeys keys))) ∧
    ((new : PacketDedup capacity).observeAll keys).storedKeys.Nodup ∧
    ((new : PacketDedup capacity).observeAll keys).len =
      min capacity ((new : PacketDedup capacity).acceptedKeys keys).length := by
  have h := window_new.observeAll hcap keys
  rw [List.nil_append] at h
  refine ⟨fun key => ⟨?_, ?_, h.isDuplicate_iff⟩, h.storedKeys_nodup, h.len_eq⟩
  · rw [← h.isDuplicate_iff]
    constructor
    · intro haccept hdup
      rw [observePacket_duplicate hcap hdup] at haccept
      cases haccept
    · intro hfresh
      exact (observePacket_fresh hcap (Bool.eq_false_iff.mpr hfresh)).2.2
  · intro hrecent
    exact observePacket_duplicate hcap (h.isDuplicate_iff.mpr hrecent)

/-- Three keys in a table of two: the first one is forgotten. -/
theorem dedup_is_window_of_two :
    ((new : PacketDedup 2).acceptedKeys [⟨1, 0⟩, ⟨1, 0⟩, ⟨2, 0⟩, ⟨3, 0⟩]) = [⟨1, 0⟩, ⟨2, 0⟩, ⟨3, 0⟩] ∧
      (((new : PacketDedup 2).observeAll
        [⟨1, 0⟩, ⟨1, 0⟩, ⟨2, 0⟩, ⟨3, 0⟩]).observePacket ⟨1, 0⟩).2 = .ok .accept :=
  ⟨by decide, ((dedup_is_window (by decide) _).1 ⟨1, 0⟩).1.mpr (by decide)⟩

end PacketDedup

end Msrt
