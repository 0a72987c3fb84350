import Mathlib

namespace UnoOS.Lib

/-! The cells of a circular buffer that lie between two counters.  The counters
run on; a cell is found by its number modulo the size. -/

variable {α : Type}

def window (size : Nat) (cell : Nat → α) (start len : Nat) : List α :=
  (List.range len).map fun k => cell ((start + k) % size)

section

variable {size : Nat} {cell cell' : Nat → α} {start start' len : Nat}

@[simp] theorem length_window : (window size cell start len).length = len := by
  simp [window]

@[simp] theorem window_zero : window size cell start 0 = [] := rfl

theorem window_succ :
    window size cell start (len + 1) =
      cell (start % size) :: window size cell (start + 1) len := by
  unfold window
  rw [List.range_succ_eq_map, List.map_cons, List.map_map, Nat.add_zero]
  congr 1
  apply List.map_congr_left
  intro k _
  simp only [Function.comp_apply]
  rw [show start + k.succ = start + 1 + k by omega]

theorem window_concat :
    window size cell start (len + 1) =
      window size cell start len ++ [cell ((start + len) % size)] := by
  unfold window
  rw [List.range_succ, List.map_append, List.map_singleton]

theorem window_add (len' : Nat) :
    window size cell start (len + len') =
      window size cell start len ++ window size cell (start + len) len' := by
  unfold window
  rw [List.range_add, List.map_append, List.map_map]
  congr 1
  apply List.map_congr_left
  intro k _
  simp only [Function.comp_apply]
  rw [Nat.add_assoc]

theorem window_congr_start (h : start % size = start' % size) :
    window size cell start len = window size cell start' len := by
  unfold window
  apply List.map_congr_left
  intro k _
  rw [Nat.add_mod, h, ← Nat.add_mod]

/-- A write behind the window does not show in it, as long as the buffer is
not full. -/
theorem window_write {far : Nat} (hlen : len ≤ far) (hfar : far < size)
    (hother : ∀ i, i < size → i ≠ (start + far) % size → cell' i = cell i) :
    window size cell' start len = window size cell start len := by
  unfold window
  apply List.map_congr_left
  intro k hk
  rw [List.mem_range] at hk
  apply hother _ (Nat.mod_lt _ (by omega))
  intro heq
  have hcongr : start + k ≡ start + far [MOD size] := heq
  have hk' : k = far := (Nat.ModEq.add_left_cancel' start hcongr).eq_of_lt_of_lt
    (by omega) hfar
  omega

theorem window_push (hlen : len < size)
    (hother : ∀ i, i < size → i ≠ (start + len) % size → cell' i = cell i) :
    window size cell' start (len + 1) =
      window size cell start len ++ [cell' ((start + len) % size)] := by
  rw [window_concat, window_write (le_refl len) hlen hother]

theorem window_push_stop {stop : Nat} (hle : start ≤ stop) (hlen : stop - start < size)
    (hother : ∀ i, i ≠ stop % size → cell' i = cell i) :
    window size cell' start (stop + 1 - start) =
      window size cell start (stop - start) ++ [cell' (stop % size)] := by
  have hstop : start + (stop - start) = stop := Nat.add_sub_cancel' hle
  rw [Nat.succ_sub hle, window_push hlen, hstop]
  intro i _ hne
  rw [hstop] at hne
  exact hother i hne

end

theorem length_mul_le_of_shares {size k : Nat} {l : List α} {share : α → List Nat}
    (hlength : ∀ a ∈ l, (share a).length = k) (hnodup : (l.flatMap share).Nodup)
    (hsize : ∀ i ∈ l.flatMap share, i < size) : l.length * k ≤ size := by
  have hsubset : l.flatMap share ⊆ List.range size :=
    fun i hi => List.mem_range.mpr (hsize i hi)
  have hle := (List.subperm_of_subset hnodup hsubset).length_le
  have hsum : (l.map fun a => (share a).length) = List.replicate l.length k := by
    rw [List.map_congr_left hlength, List.map_const']
  rwa [List.length_flatMap, hsum, List.sum_replicate, List.length_range,
    smul_eq_mul] at hle

/-! Counters that wrap at a modulus before the number of the cell is taken. -/

section

variable {modulus size start len k k' : Nat}

def wrapped (modulus size start k : Nat) : Nat := (start + k) % modulus % size

theorem wrapped_eq_iff (hstart : start < modulus) (hsize : size ≤ modulus) (hlt : k < k')
    (hk' : k' < size) : wrapped modulus size start k = wrapped modulus size start k' ↔
      start + k < modulus ∧ modulus ≤ start + k' ∧ modulus % size = k' - k := by
  have hnear : ∀ x, x % size = (x + (k' - k)) % size → False := by
    intro x hsame
    have hcongr : x + 0 ≡ x + (k' - k) [MOD size] := hsame
    have hzero : 0 = k' - k := (Nat.ModEq.add_left_cancel' x hcongr).eq_of_lt_of_lt
      (by omega) (by omega)
    omega
  unfold wrapped
  rcases Nat.lt_or_ge (start + k') modulus with hbefore | hafter
  · -- neither has wrapped
    rw [Nat.mod_eq_of_lt (show start + k < modulus by omega), Nat.mod_eq_of_lt hbefore,
      show start + k' = start + k + (k' - k) by omega]
    exact ⟨fun hsame => (hnear _ hsame).elim, fun ⟨_, hle, _⟩ => by omega⟩
  · rw [Nat.mod_eq_sub_mod hafter, Nat.mod_eq_of_lt (show start + k' - modulus < modulus by omega)]
    rcases Nat.lt_or_ge (start + k) modulus with hfirst | hboth
    · rw [Nat.mod_eq_of_lt hfirst]
      have hsum : start + k + (k' - k) = start + k' - modulus + modulus := by omega
      have hless : (k' - k) % size = k' - k := Nat.mod_eq_of_lt (by omega)
      constructor
      · intro hsame
        have hcongr : start + k ≡ start + k' - modulus [MOD size] := hsame
        have hdiff : (k' - k) % size = modulus % size :=
          Nat.ModEq.add_left_cancel hcongr (by rw [hsum])
        exact ⟨hfirst, hafter, hdiff.symm.trans hless⟩
      · rintro ⟨_, _, hmod⟩
        have hdiff : k' - k ≡ modulus [MOD size] := hless.trans hmod.symm
        exact Nat.ModEq.add_right_cancel hdiff (by rw [hsum])
    · -- both have
      rw [Nat.mod_eq_sub_mod hboth,
        Nat.mod_eq_of_lt (show start + k - modulus < modulus by omega),
        show start + k' - modulus = start + k - modulus + (k' - k) by omega]
      exact ⟨fun hsame => (hnear _ hsame).elim, fun ⟨hle, _⟩ => by omega⟩

/-- The cells of `len` counters are different, unless the counters wrap, the size does
not divide the modulus, and there are more of them than the remainder. -/
theorem wrapped_injOn_iff (hstart : start < modulus) (hsize : size ≤ modulus)
    (hlen : len ≤ size) : Set.InjOn (wrapped modulus size start) {k | k < len} ↔
      start + len ≤ modulus ∨ modulus % size = 0 ∨ len ≤ modulus % size := by
  constructor
  · intro hinj
    by_contra hnot
    push Not at hnot
    obtain ⟨hwraps, hrest, hmore⟩ := hnot
    -- the first counter whose partner has wrapped
    have hk : modulus - start - modulus % size < modulus - start - modulus % size +
        modulus % size := by omega
    have hsame := (wrapped_eq_iff hstart hsize hk (by omega)).mpr (by omega)
    have heq := hinj (show _ < len by omega) (show _ < len by omega) hsame
    omega
  · intro hcases
    have hne : ∀ k k', k < k' → k' < len →
        wrapped modulus size start k ≠ wrapped modulus size start k' := by
      intro k k' hlt hk' hsame
      have hwrapped := (wrapped_eq_iff hstart hsize hlt (by omega)).mp hsame
      omega
    intro k hk k' hk' hsame
    rcases Nat.lt_trichotomy k k' with hlt | heq | hgt
    · exact (hne k k' hlt hk' hsame).elim
    · exact heq
    · exact (hne k' k hgt hk hsame.symm).elim

end

end UnoOS.Lib
