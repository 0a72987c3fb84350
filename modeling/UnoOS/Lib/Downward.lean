import Mathlib

namespace UnoOS.Lib.Downward

/-! Areas that are laid out from an address down, each at a multiple of `align`. -/

def below (align top n : Nat) : Nat := (top - n) / align * align

def areas (align : Nat) : (top : Nat) → List Nat → List (Nat × Nat)
  | _, [] => []
  | top, n :: sizes => (below align top n, n) :: areas align (below align top n) sizes

def lowest (align : Nat) : (top : Nat) → List Nat → Nat
  | top, [] => top
  | top, n :: sizes => lowest align (below align top n) sizes

def span (align n : Nat) : Nat := (n + (align - 1)) / align * align

def total (align : Nat) (sizes : List Nat) : Nat := (sizes.map (span align)).sum

variable {align top n : Nat} {sizes : List Nat}

@[simp] theorem total_nil : total align [] = 0 := rfl

@[simp] theorem total_cons : total align (n :: sizes) = span align n + total align sizes := rfl

theorem total_append (sizes sizes' : List Nat) :
    total align (sizes ++ sizes') = total align sizes + total align sizes' := by
  unfold total
  rw [List.map_append, List.sum_append]

theorem lowest_append (sizes sizes' : List Nat) :
    lowest align top (sizes ++ sizes') = lowest align (lowest align top sizes) sizes' := by
  induction sizes generalizing top with
  | nil => rfl
  | cons n sizes ih => exact ih

theorem areas_append (sizes sizes' : List Nat) :
    areas align top (sizes ++ sizes') =
      areas align top sizes ++ areas align (lowest align top sizes) sizes' := by
  induction sizes generalizing top with
  | nil => rfl
  | cons n sizes ih =>
      rw [List.cons_append, areas, areas, ih, lowest, List.cons_append]

theorem below_dvd (align top n : Nat) : align ∣ below align top n := Nat.dvd_mul_left _ _

theorem le_span (halign : 0 < align) : n ≤ span align n := by
  unfold span
  have hdiv := Nat.div_add_mod (n + (align - 1)) align
  have hmod := Nat.mod_lt (n + (align - 1)) halign
  rw [Nat.mul_comm] at hdiv
  omega

/-- An area and what is left free behind it fill the room up to `top`. -/
theorem below_add_span (halign : 0 < align) (hdvd : align ∣ top) (hle : span align n ≤ top) :
    below align top n + span align n = top := by
  obtain ⟨k, rfl⟩ := hdvd
  unfold span at hle ⊢
  unfold below
  rw [Nat.mul_comm align k] at hle ⊢
  have hdiv := Nat.div_add_mod' (n + (align - 1)) align
  have hmod := Nat.mod_lt (n + (align - 1)) halign
  generalize (n + (align - 1)) / align = c at hle hdiv ⊢
  have hck : c ≤ k := Nat.le_of_mul_le_mul_right hle halign
  have hmul : (k - c) * align = k * align - c * align := Nat.sub_mul _ _ _
  have hfloor : (k * align - n) / align = k - c := by
    refine Nat.div_eq_of_lt_le ?_ ?_
    · omega
    · rw [Nat.succ_mul]
      omega
  rw [hfloor, hmul, Nat.sub_add_cancel hle]

theorem lowest_add_total (halign : 0 < align) (hdvd : align ∣ top)
    (hle : total align sizes ≤ top) : lowest align top sizes + total align sizes = top := by
  induction sizes generalizing top with
  | nil => rfl
  | cons n sizes ih =>
      rw [total_cons] at hle
      have hfirst := below_add_span halign hdvd (show span align n ≤ top by omega)
      have hrest := ih (below_dvd align top n) (by omega)
      rw [total_cons, lowest]
      omega

theorem lowest_dvd (hdvd : align ∣ top) : align ∣ lowest align top sizes := by
  induction sizes generalizing top with
  | nil => exact hdvd
  | cons n sizes ih => exact ih (below_dvd align top n)

theorem area_dvd {area : Nat × Nat} (hmem : area ∈ areas align top sizes) : align ∣ area.1 := by
  induction sizes generalizing top with
  | nil => cases hmem
  | cons n sizes ih =>
      rcases List.mem_cons.mp hmem with rfl | hmem
      · exact below_dvd align top n
      · exact ih hmem

theorem area_inside (halign : 0 < align) (hdvd : align ∣ top)
    (hle : total align sizes ≤ top) {area : Nat × Nat} (hmem : area ∈ areas align top sizes) :
    lowest align top sizes ≤ area.1 ∧ area.1 + area.2 ≤ top := by
  induction sizes generalizing top with
  | nil => cases hmem
  | cons n sizes ih =>
      rw [total_cons] at hle
      have hfirst := below_add_span halign hdvd (show span align n ≤ top by omega)
      have hspan := le_span (n := n) halign
      have hlowest := lowest_add_total halign (below_dvd align top n)
        (show total align sizes ≤ below align top n by omega)
      rw [lowest]
      rcases List.mem_cons.mp hmem with rfl | hmem
      · exact ⟨by omega, by dsimp only; omega⟩
      · obtain ⟨hlow, hhigh⟩ := ih (below_dvd align top n) (by omega) hmem
        exact ⟨hlow, by omega⟩

theorem areas_apart (halign : 0 < align) (hdvd : align ∣ top)
    (hle : total align sizes ≤ top) :
    (areas align top sizes).Pairwise fun first second => second.1 + second.2 ≤ first.1 := by
  induction sizes generalizing top with
  | nil => exact .nil
  | cons n sizes ih =>
      rw [total_cons] at hle
      have hfirst := below_add_span halign hdvd (show span align n ≤ top by omega)
      have hdvd' := below_dvd align top n
      refine .cons ?_ (ih hdvd' (by omega))
      intro area hmem
      exact (area_inside halign hdvd' (by omega) hmem).2

end UnoOS.Lib.Downward
