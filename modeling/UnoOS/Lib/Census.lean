import Mathlib

namespace UnoOS.Lib

/-! Totals over the entries of a finite table, and what one assignment does to
them. -/

variable {ι α : Type} [Fintype ι]

def census (weight : α → Nat) (table : ι → α) : Nat :=
  ∑ i, weight (table i)

theorem weight_le_census (weight : α → Nat) (table : ι → α) (i : ι) :
    weight (table i) ≤ census weight table :=
  Finset.single_le_sum (f := fun i => weight (table i))
    (fun _ _ => Nat.zero_le _) (Finset.mem_univ i)

theorem census_update [DecidableEq ι] (weight : α → Nat) (table : ι → α)
    (i : ι) (a : α) :
    census weight (Function.update table i a) + weight (table i) =
      census weight table + weight a := by
  have hcomp : (fun j => weight (Function.update table i a j)) =
      Function.update (fun j => weight (table j)) i (weight a) := by
    funext j
    by_cases hj : j = i
    · simp [hj]
    · simp [hj]
  have hsplit := Finset.sum_update_of_mem (Finset.mem_univ i)
    (fun j => weight (table j)) (weight a)
  have hwhole := Finset.sum_erase_add Finset.univ
    (fun j => weight (table j)) (Finset.mem_univ i)
  unfold census
  rw [hcomp, hsplit, Finset.sdiff_singleton_eq_erase, ← hwhole]
  omega

theorem census_eq_zero {weight : α → Nat} {table : ι → α}
    (h : census weight table = 0) (i : ι) : weight (table i) = 0 :=
  Nat.le_zero.mp (h ▸ weight_le_census weight table i)

end UnoOS.Lib
