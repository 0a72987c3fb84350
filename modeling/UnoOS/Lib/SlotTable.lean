import Mathlib

namespace UnoOS.Lib

/-! Tables of slots, each one empty or with a key and a value, as finite maps. -/

abbrev SlotTable (n : Nat) (κ ν : Type) := Fin n → Option (κ × ν)

namespace SlotTable

variable {n : Nat} {κ ν : Type} {t : SlotTable n κ ν} {i j : Fin n} {k k' : κ}
  {v v' : ν}

/-- No key stands in two slots. -/
def Distinct (t : SlotTable n κ ν) : Prop :=
  ∀ i j k v w, t i = some (k, v) → t j = some (k, w) → i = j

def entries (t : SlotTable n κ ν) : List (κ × ν) := (List.finRange n).filterMap t

theorem mem_entries {e : κ × ν} : e ∈ t.entries ↔ ∃ i, t i = some e := by
  simp [entries]

theorem Distinct.nodup_keys (h : Distinct t) : (t.entries.map Prod.fst).Nodup := by
  unfold entries
  rw [List.map_filterMap]
  refine List.Nodup.filterMap ?_ (List.nodup_finRange n)
  intro i j k hi hj
  simp only [Option.mem_def, Option.map_eq_some_iff] at hi hj
  obtain ⟨⟨_, v⟩, hi, rfl⟩ := hi
  obtain ⟨⟨_, w⟩, hj, heq⟩ := hj
  dsimp only at heq
  subst heq
  exact h i j _ v w hi hj

theorem length_entries_le (t : SlotTable n κ ν) : t.entries.length ≤ n := by
  have hle := List.length_filterMap_le t (List.finRange n)
  rwa [List.length_finRange] at hle

/-- As many entries as slots means that no slot is empty. -/
theorem length_entries_eq_iff : t.entries.length = n ↔ ∀ i, t i ≠ none := by
  have hcount : t.entries.length =
      (List.finRange n).countP fun i => (t i).isSome := by
    unfold entries
    rw [List.length_filterMap_eq_countP]
  have hfull := List.countP_eq_length (p := fun i => (t i).isSome)
    (l := List.finRange n)
  rw [List.length_finRange] at hfull
  rw [hcount, hfull]
  simp [Option.isSome_iff_ne_none]

/-! Filling a slot and clearing one. -/

theorem Distinct.fill (h : Distinct t) (hnew : ∀ j v, t j ≠ some (k, v)) :
    Distinct (Function.update t i (some (k, v))) := by
  intro j j' k' w w' hj hj'
  simp only [Function.update_apply] at hj hj'
  split at hj <;> split at hj'
  · next hji hji' => rw [hji, hji']
  · cases hj
    exact absurd hj' (hnew j' w')
  · cases hj'
    exact absurd hj (hnew j w)
  · exact h j j' k' w w' hj hj'

theorem Distinct.clear (h : Distinct t) :
    Distinct (Function.update t i none) := by
  intro j j' k w w' hj hj'
  simp only [Function.update_apply] at hj hj'
  split at hj
  · cases hj
  · split at hj'
    · cases hj'
    · exact h j j' k w w' hj hj'

/-! The map. -/

variable [DecidableEq κ]

def toMap (t : SlotTable n κ ν) : Finmap (fun _ : κ => ν) :=
  (t.entries.map fun e => (⟨e.1, e.2⟩ : Sigma fun _ : κ => ν)).toFinmap

theorem lookup_toMap (h : Distinct t) :
    t.toMap.lookup k = some v ↔ ∃ i, t i = some (k, v) := by
  have hnodup : (t.entries.map fun e =>
      (⟨e.1, e.2⟩ : Sigma fun _ : κ => ν)).NodupKeys := by
    unfold List.NodupKeys List.keys
    rw [List.map_map]
    exact h.nodup_keys
  unfold toMap
  rw [Finmap.dlookup_list_toFinmap, ← Option.mem_def, List.mem_dlookup_iff hnodup,
    List.mem_map, ← mem_entries]
  constructor
  · rintro ⟨⟨k', v'⟩, hmem, heq⟩
    cases heq
    exact hmem
  · intro hmem
    exact ⟨_, hmem, rfl⟩

theorem lookup_toMap_eq_none (h : Distinct t) :
    t.toMap.lookup k = none ↔ ∀ i v, t i ≠ some (k, v) := by
  rw [Option.eq_none_iff_forall_ne_some]
  constructor
  · intro hnone i v hi
    exact hnone v ((lookup_toMap h).mpr ⟨i, hi⟩)
  · intro hnone v hv
    obtain ⟨i, hi⟩ := (lookup_toMap h).mp hv
    exact hnone i v hi

theorem toMap_ext {m : Finmap fun _ : κ => ν} (h : Distinct t)
    (hlookup : ∀ k v, m.lookup k = some v ↔ ∃ i, t i = some (k, v)) :
    t.toMap = m := by
  refine Finmap.ext_lookup fun k => Option.ext fun v => ?_
  rw [lookup_toMap h, hlookup]

theorem card_keys (h : Distinct t) : t.toMap.keys.card = t.entries.length := by
  have hkeys : t.toMap.keys = (t.entries.map Prod.fst).toFinset := by
    ext k
    rw [Finmap.mem_keys, ← Finmap.lookup_isSome, Option.isSome_iff_exists,
      List.mem_toFinset, List.mem_map]
    simp only [lookup_toMap h]
    constructor
    · rintro ⟨v, i, hi⟩
      exact ⟨(k, v), mem_entries.mpr ⟨i, hi⟩, rfl⟩
    · rintro ⟨⟨k', v⟩, hmem, rfl⟩
      exact ⟨v, mem_entries.mp hmem⟩
  rw [hkeys, List.toFinset_card_of_nodup h.nodup_keys, List.length_map]

theorem toMap_fill (h : Distinct t) (hempty : t i = none)
    (hnew : ∀ j v, t j ≠ some (k, v)) :
    toMap (Function.update t i (some (k, v))) = t.toMap.insert k v := by
  refine toMap_ext (h.fill hnew) fun k' w => ?_
  by_cases hk : k' = k
  · subst hk
    rw [Finmap.lookup_insert, Option.some.injEq]
    constructor
    · rintro rfl
      exact ⟨i, Function.update_self ..⟩
    · rintro ⟨j, hj⟩
      simp only [Function.update_apply] at hj
      split at hj
      · cases hj
        rfl
      · exact absurd hj (hnew j w)
  · rw [Finmap.lookup_insert_of_ne _ hk, lookup_toMap h]
    refine exists_congr fun j => ?_
    by_cases hj : j = i
    · subst hj
      rw [Function.update_self, hempty]
      simp [Ne.symm hk]
    · rw [Function.update_of_ne hj]

theorem toMap_clear (h : Distinct t) (hi : t i = some (k, v)) :
    toMap (Function.update t i none) = t.toMap.erase k := by
  refine toMap_ext h.clear fun k' w => ?_
  by_cases hk : k' = k
  · subst hk
    rw [Finmap.lookup_erase]
    refine iff_of_false (by simp) ?_
    rintro ⟨j, hj⟩
    simp only [Function.update_apply] at hj
    split at hj
    · cases hj
    · next hne => exact hne (h j i k' w v hj hi)
  · rw [Finmap.lookup_erase_ne hk, lookup_toMap h]
    refine exists_congr fun j => ?_
    by_cases hj : j = i
    · subst hj
      rw [Function.update_self, hi]
      simp [Ne.symm hk]
    · rw [Function.update_of_ne hj]

end SlotTable

end UnoOS.Lib
